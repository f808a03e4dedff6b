import Mathlib.Algebra.Order.Ring.Abs
import Mathlib.Data.List.Induction
import Mathlib.Tactic.Linarith

/-!
# Scanning for the closest candidate with a tie flag

A scan holds one candidate and replaces it only by one that is closer by more than a margin.
It marks a tie when a candidate within the margin of the held one is met, and forgets the
mark on a replacement. The mark of the final candidate therefore only covers the candidates
met after it: an earlier one within the margin is masked.
-/

namespace NearTie

universe u v

variable {α : Type u} {K : Type v} [Field K] [LinearOrder K] (distance : α → K) (margin : K)

def meet (held : Option (α × Bool)) (next : α) : Option (α × Bool) :=
  match held with
  | none => some (next, false)
  | some (best, tied) =>
    if distance next - distance best < -margin then some (next, false)
    else if |distance next - distance best| ≤ margin then some (best, true)
    else some (best, tied)

def scan (candidates : List α) : Option (α × Bool) := candidates.foldl (meet distance margin) none

/-- The candidate a scan holds. -/
def leader (candidates : List α) : Option α := (scan distance margin candidates).map Prod.fst

/-- Some candidate takes the lead and keeps it untied, though an earlier one is within the
margin of it or closer. -/
def Masked (candidates : List α) : Prop :=
  ∃ before final after best hidden, candidates = before ++ final :: after ∧
    leader distance margin before = some best ∧ distance final + margin < distance best ∧
    hidden ∈ before ∧ distance hidden ≤ distance final + margin ∧
    ∀ later ∈ after, distance final + margin < distance later

variable {distance margin}

@[simp] theorem scan_nil : scan distance margin [] = none := rfl

@[simp] theorem scan_snoc (candidates : List α) (next : α) :
    scan distance margin (candidates ++ [next]) =
      meet distance margin (scan distance margin candidates) next := by
  rw [scan, List.foldl_append]
  rfl

theorem scan_eq_none {candidates : List α} (h : scan distance margin candidates = none) :
    candidates = [] := by
  induction candidates using List.reverseRecOn with
  | nil => rfl
  | append_singleton candidates next ih =>
    rw [scan_snoc] at h
    unfold meet at h
    split at h
    · cases h
    · split at h
      · cases h
      · split at h <;> cases h

/-- Where the held candidate was met: it took the lead there, and the tie mark is about the
candidates after it. -/
structure Held (candidates : List α) (best : α) (tied : Bool) (before after : List α) : Prop where
  split : candidates = before ++ best :: after
  took : before = [] ∨
    ∃ earlier, leader distance margin before = some earlier ∧
      distance best + margin < distance earlier
  later : ∀ next ∈ after, distance best ≤ distance next + margin
  tied_iff : tied = true ↔ ∃ next ∈ after, distance next ≤ distance best + margin

variable [IsStrictOrderedRing K]

theorem scan_held {candidates : List α} {best : α} {tied : Bool}
    (h : scan distance margin candidates = some (best, tied)) :
    ∃ before after, @Held α K _ _ distance margin candidates best tied before after := by
  induction candidates using List.reverseRecOn generalizing best tied with
  | nil => cases h
  | append_singleton candidates next ih =>
    rw [scan_snoc] at h
    cases hScan : scan distance margin candidates with
    | none =>
      rw [hScan, meet] at h
      cases h
      rw [scan_eq_none hScan]
      exact ⟨[], [], rfl, Or.inl rfl, by simp, by simp⟩
    | some held =>
      obtain ⟨earlier, mark⟩ := held
      rw [hScan, meet] at h
      split at h
      · rename_i hCloser
        cases h
        refine ⟨candidates, [], rfl, Or.inr ⟨earlier, ?_, ?_⟩, by simp, by simp⟩
        · rw [leader, hScan]
          rfl
        · linarith
      · rename_i hNotCloser
        obtain ⟨before, after, hHeld⟩ := ih hScan
        have hSplit : candidates ++ [next] = before ++ earlier :: (after ++ [next]) := by
          rw [hHeld.split]
          simp
        have hLater : ∀ other ∈ after ++ [next], distance earlier ≤ distance other + margin := by
          intro other hOther
          rcases List.mem_append.mp hOther with hOther | hOther
          · exact hHeld.later other hOther
          · rw [List.mem_singleton.mp hOther]
            linarith
        split at h
        · rename_i hNear
          cases h
          have hWithin := (abs_le.mp hNear).2
          exact ⟨before, after ++ [next], hSplit, hHeld.took, hLater,
            iff_of_true rfl ⟨next, by simp, by linarith⟩⟩
        · rename_i hFar
          cases h
          refine ⟨before, after ++ [next], hSplit, hHeld.took, hLater, ?_⟩
          rw [hHeld.tied_iff]
          constructor
          · rintro ⟨other, hOther, hClose⟩
            exact ⟨other, List.mem_append_left _ hOther, hClose⟩
          · rintro ⟨other, hOther, hClose⟩
            rcases List.mem_append.mp hOther with hOther | hOther
            · exact ⟨other, hOther, hClose⟩
            · rw [List.mem_singleton.mp hOther] at hClose
              exact absurd (abs_le.mpr ⟨by linarith, by linarith⟩) hFar

/-- A candidate that takes the lead and meets only distant ones stays unmarked. -/
theorem scan_untied (hMargin : 0 ≤ margin) {before after : List α} {final best : α}
    (hLeader : leader distance margin before = some best)
    (hTakes : distance final + margin < distance best)
    (hAfter : ∀ later ∈ after, distance final + margin < distance later) :
    scan distance margin (before ++ final :: after) = some (final, false) := by
  induction after using List.reverseRecOn with
  | nil =>
    obtain ⟨⟨held, mark⟩, hScan, rfl⟩ := Option.map_eq_some_iff.mp hLeader
    rw [scan_snoc, hScan, meet, if_pos (by linarith)]
  | append_singleton after next ih =>
    have hNext := hAfter next (by simp)
    have hEarlier := ih fun later hLater => hAfter later (List.mem_append_left _ hLater)
    have hSplit : before ++ final :: (after ++ [next]) = (before ++ final :: after) ++ [next] := by
      simp
    rw [hSplit, scan_snoc, hEarlier, meet, if_neg (by linarith), if_neg]
    intro hNear
    have hWithin := (abs_le.mp hNear).2
    linarith

/-- The tie mark is sound for every scan of distinct candidates except the masked ones. -/
theorem untied_iff (hMargin : 0 ≤ margin) {candidates : List α} (hDistinct : candidates.Nodup) :
    (∀ best, scan distance margin candidates = some (best, false) →
      ∀ other ∈ candidates, other ≠ best → distance best + margin < distance other) ↔
      ¬Masked distance margin candidates := by
  constructor
  · rintro hSound ⟨before, final, after, best, hidden, rfl, hLeader, hTakes, hHidden, hClose, hAfter⟩
    have hScan := scan_untied hMargin hLeader hTakes hAfter
    have hOther : hidden ≠ final := by
      rintro rfl
      exact (List.nodup_append.mp hDistinct).2.2 hidden hHidden hidden List.mem_cons_self rfl
    have hFar := hSound final hScan hidden (List.mem_append_left _ hHidden) hOther
    exact absurd hClose (not_le.mpr hFar)
  · intro hUnmasked best hScan other hOther hNe
    obtain ⟨before, after, hHeld⟩ := scan_held hScan
    have hAfter : ∀ later ∈ after, distance best + margin < distance later := by
      intro later hLater
      by_contra hClose
      have hTied := hHeld.tied_iff.mpr ⟨later, hLater, not_lt.mp hClose⟩
      cases hTied
    rw [hHeld.split] at hOther
    rcases List.mem_append.mp hOther with hBefore | hRest
    · by_contra hClose
      rcases hHeld.took with rfl | ⟨earlier, hLeader, hTakes⟩
      · cases hBefore
      · exact hUnmasked ⟨before, best, after, earlier, other, hHeld.split, hLeader, hTakes, hBefore,
          not_lt.mp hClose, hAfter⟩
    · rcases List.mem_cons.mp hRest with rfl | hLater
      · exact absurd rfl hNe
      · exact hAfter other hLater

end NearTie
