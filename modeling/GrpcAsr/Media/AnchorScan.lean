import GrpcAsr.Library.NearTie
import GrpcAsr.Media.ReconcileAnchor

/-!
# When the anchor's ambiguity flag is sound

`RunOf` is a contiguous run of matching tokens, said of the two lists alone. `anchor` visits
the longest run at every pair of positions, the last ones first, and scans the best of them
for the closest. Its flag is sound except where a later run masks an earlier near tie.
-/

namespace GrpcAsr.Media

set_option autoImplicit false

/-- The time between the middles of two tokens. -/
def middleGap (old fresh : SpeechToken) : ℚ :=
  |((old.start : ℚ) + old.end) - ((fresh.start : ℚ) + fresh.end)| / 2

/-- Two tokens an anchor may pair, when fresh tokens start at `limit` at the latest. -/
structure Paired (limit : Int) (old fresh : SpeechToken) : Prop where
  keys : tokenKey old = tokenKey fresh
  timed : tokenKey old ≠ [] → timedMatch old fresh = true
  start : fresh.start ≤ limit

abbrev TokenPair := SpeechToken × SpeechToken

/-- The letters of a run's tokens and the time between them. -/
def pairLetters (pairs : List TokenPair) : Nat := (pairs.map fun pair => (tokenKey pair.1).length).sum

def pairGaps (pairs : List TokenPair) : ℚ := (pairs.map fun pair => middleGap pair.1 pair.2).sum

/-- A run of paired tokens from the start of both lists on. -/
structure RunOf (limit : Int) (old fresh : List SpeechToken) (run : Run) : Prop where
  old_le : run.count ≤ old.length
  fresh_le : run.count ≤ fresh.length
  paired : ∀ pair ∈ (old.zip fresh).take run.count, Paired limit pair.1 pair.2
  score : run.score = pairLetters ((old.zip fresh).take run.count)
  distance : run.distance = pairGaps ((old.zip fresh).take run.count)

def Run.mean (run : Run) : ℚ := run.distance / run.count

/-- What the ambiguity flag promises: an unmarked anchor is closer by more than 30 ms than
every other run of its score and length. -/
def Unambiguous (old fresh : List SpeechToken) (endTime : Int) : Prop :=
  0 < (anchor old fresh endTime).run.score → (anchor old fresh endTime).ambiguous = false →
    ∀ i j run, RunOf (endTime + tolerance) (old.drop i) (fresh.drop j) run →
      run.score = (anchor old fresh endTime).run.score →
      run.count = (anchor old fresh endTime).run.count →
      (i ≠ (anchor old fresh endTime).oldStart ∨ j ≠ (anchor old fresh endTime).newStart) →
      (anchor old fresh endTime).run.mean + 30000 < run.mean

structure Visit where
  oldStart : Nat
  newStart : Nat
  run : Run
  deriving DecidableEq

def Visit.mean (visit : Visit) : ℚ := visit.run.mean

def Run.outranks (run best : Run) : Bool :=
  best.score < run.score || (run.score == best.score && best.count < run.count)

/-- The longest run from the start of both lists. -/
def longestRun (limit : Int) : List SpeechToken → List SpeechToken → Run
  | a :: old, b :: fresh => (extendRun a b limit (longestRun limit old fresh)).getD default
  | _, _ => default

def rowVisits (limit : Int) (old : List SpeechToken) (i : Nat) :
    List SpeechToken → Nat → List Visit
  | [], _ => []
  | token :: fresh, j =>
    rowVisits limit old i fresh (j + 1) ++
      if (longestRun limit old (token :: fresh)).count = 0 then []
      else [⟨i, j, longestRun limit old (token :: fresh)⟩]

/-- The longest runs between two lists in the order in which `anchor` meets them. -/
def visits (limit : Int) (fresh : List SpeechToken) : List SpeechToken → Nat → List Visit
  | [], _ => []
  | token :: old, i =>
    visits limit fresh old (i + 1) ++ rowVisits limit (token :: old) i fresh 0

/-- The visited runs with letters that no other outranks. -/
def bestRuns (limit : Int) (old fresh : List SpeechToken) : List Visit :=
  (visits limit fresh old 0).filter fun visit =>
    visit.run.score != 0 &&
      (visits limit fresh old 0).all fun other => !other.run.outranks visit.run

@[simp] theorem pairLetters_cons (pair : TokenPair) (pairs : List TokenPair) :
    pairLetters (pair :: pairs) = (tokenKey pair.1).length + pairLetters pairs := List.sum_cons

@[simp] theorem pairGaps_cons (pair : TokenPair) (pairs : List TokenPair) :
    pairGaps (pair :: pairs) = middleGap pair.1 pair.2 + pairGaps pairs := List.sum_cons

section Longest

variable {limit : Int} {a b : SpeechToken} {old fresh : List SpeechToken} {run next : Run}

theorem extendRun_eq_some : extendRun a b limit next = some run ↔
    Paired limit a b ∧ run = ⟨next.score + (tokenKey a).length, next.count + 1,
      next.distance + middleGap a b⟩ := by
  unfold extendRun
  dsimp only
  split
  · rename_i hUnpaired
    refine iff_of_false (fun hNone => by cases hNone) ?_
    rintro ⟨⟨hKeys, hTimed, hStart⟩, -⟩
    rcases hUnpaired with hKey | ⟨hLetters, hTime⟩ | hLate
    · exact hKey hKeys
    · rw [hTimed hLetters] at hTime
      cases hTime
    · omega
  · rename_i hPaired
    simp only [not_or, not_not, not_and, Int.not_lt, Bool.not_eq_false] at hPaired
    obtain ⟨hKeys, hTimed, hStart⟩ := hPaired
    rw [Option.some.injEq]
    constructor
    · rintro rfl
      exact ⟨⟨hKeys, hTimed, hStart⟩, rfl⟩
    · rintro ⟨-, rfl⟩
      rfl

theorem RunOf.zero (limit : Int) (old fresh : List SpeechToken) : RunOf limit old fresh default := by
  refine ⟨Nat.zero_le _, Nat.zero_le _, ?_, rfl, rfl⟩
  intro pair hPair
  rw [show (default : Run).count = 0 from rfl, List.take_zero] at hPair
  cases hPair

theorem RunOf.cons (h : RunOf limit old fresh next)
    (hRun : extendRun a b limit next = some run) : RunOf limit (a :: old) (b :: fresh) run := by
  obtain ⟨hPaired, rfl⟩ := extendRun_eq_some.mp hRun
  refine ⟨Nat.succ_le_succ h.old_le, Nat.succ_le_succ h.fresh_le, ?_, ?_, ?_⟩
  · intro pair hPair
    simp only [List.zip_cons_cons, List.take_succ_cons, List.mem_cons] at hPair
    rcases hPair with rfl | hPair
    · exact hPaired
    · exact h.paired pair hPair
  · simp only [List.zip_cons_cons, List.take_succ_cons, pairLetters_cons, ← h.score]
    exact Nat.add_comm _ _
  · simp only [List.zip_cons_cons, List.take_succ_cons, pairGaps_cons, ← h.distance]
    exact add_comm _ _

/-- A run that is not empty extends the run behind its first pair. -/
theorem RunOf.uncons (h : RunOf limit (a :: old) (b :: fresh) run) (hCount : run.count ≠ 0) :
    ∃ next, RunOf limit old fresh next ∧ extendRun a b limit next = some run := by
  obtain ⟨score, count, distance⟩ := run
  obtain ⟨n, rfl⟩ := Nat.exists_eq_succ_of_ne_zero hCount
  obtain ⟨hOld, hFresh, hPaired, hScore, hDistance⟩ := h
  simp only [List.zip_cons_cons, List.take_succ_cons, pairLetters_cons, pairGaps_cons, List.mem_cons,
    List.length_cons, Nat.succ_eq_add_one, Nat.add_le_add_iff_right] at hOld hFresh hPaired hScore hDistance
  have hNext : RunOf limit old fresh
      ⟨pairLetters ((old.zip fresh).take n), n, pairGaps ((old.zip fresh).take n)⟩ :=
    ⟨hOld, hFresh, fun pair hPair => hPaired pair (Or.inr hPair), rfl, rfl⟩
  refine ⟨_, hNext, extendRun_eq_some.mpr ⟨hPaired _ (Or.inl rfl), ?_⟩⟩
  rw [hScore, hDistance, Nat.add_comm (tokenKey a).length, add_comm (middleGap a b)]

theorem longestRun_runOf (limit : Int) (old fresh : List SpeechToken) :
    RunOf limit old fresh (longestRun limit old fresh) := by
  induction old generalizing fresh with
  | nil => exact RunOf.zero limit [] fresh
  | cons a old ih =>
    cases fresh with
    | nil => exact RunOf.zero limit (a :: old) []
    | cons b fresh =>
      rw [longestRun]
      cases hRun : extendRun a b limit (longestRun limit old fresh) with
      | none => exact RunOf.zero _ _ _
      | some run => exact (ih fresh).cons hRun

theorem RunOf.eq_default (h : RunOf limit old fresh run) (hCount : run.count = 0) :
    run = default := by
  obtain ⟨score, count, distance⟩ := run
  obtain ⟨-, -, -, hScore, hDistance⟩ := h
  simp only at hCount hScore hDistance
  subst hCount
  rw [hScore, hDistance]
  rfl

/-- Every run is an initial part of the longest one. -/
theorem RunOf.le_longest (h : RunOf limit old fresh run) :
    run.score ≤ (longestRun limit old fresh).score ∧
      run.count ≤ (longestRun limit old fresh).count ∧
      (run.count = (longestRun limit old fresh).count → run = longestRun limit old fresh) := by
  by_cases hCount : run.count = 0
  · obtain rfl := h.eq_default hCount
    refine ⟨Nat.zero_le _, Nat.zero_le _, ?_⟩
    intro hLongest
    exact ((longestRun_runOf limit old fresh).eq_default (hLongest.symm.trans rfl)).symm
  · induction old generalizing fresh run with
    | nil => exact absurd (Nat.le_zero.mp h.old_le) hCount
    | cons a old ih =>
      cases fresh with
      | nil => exact absurd (Nat.le_zero.mp h.fresh_le) hCount
      | cons b fresh =>
        obtain ⟨next, hNext, hRun⟩ := h.uncons hCount
        obtain ⟨hPaired, rfl⟩ := extendRun_eq_some.mp hRun
        have hWhole := extendRun_eq_some.mpr
          ⟨hPaired, Eq.refl (⟨(longestRun limit old fresh).score + (tokenKey a).length,
            (longestRun limit old fresh).count + 1,
            (longestRun limit old fresh).distance + middleGap a b⟩ : Run)⟩
        have hBehind : next.score ≤ (longestRun limit old fresh).score ∧
            next.count ≤ (longestRun limit old fresh).count ∧
            (next.count = (longestRun limit old fresh).count →
              next = longestRun limit old fresh) := by
          by_cases hEmpty : next.count = 0
          · obtain rfl := hNext.eq_default hEmpty
            refine ⟨Nat.zero_le _, Nat.zero_le _, ?_⟩
            intro hLongest
            exact ((longestRun_runOf limit old fresh).eq_default (hLongest.symm.trans rfl)).symm
          · exact ih hNext hEmpty
        rw [longestRun, hWhole, Option.getD_some]
        refine ⟨by simp only; omega, by simp only; omega, ?_⟩
        intro hSame
        rw [hBehind.2.2 (Nat.succ.inj hSame)]

end Longest

def Match.visit (best : Match) (visit : Visit) : Match :=
  best.consider visit.oldStart visit.newStart visit.run

section Table

variable {limit : Int}

/-- A row holds the longest runs from each of its columns on. -/
def RowIs (limit : Int) (old fresh : List SpeechToken) (row : List Run) : Prop :=
  ∀ j, row.getD j default = longestRun limit old (fresh.drop j)

theorem longestRun_nil_left (limit : Int) (fresh : List SpeechToken) :
    longestRun limit [] fresh = default := by
  cases fresh <;> rfl

theorem longestRun_nil_right (limit : Int) (old : List SpeechToken) :
    longestRun limit old [] = default := by
  cases old <;> rfl

theorem RowIs.tail {old fresh : List SpeechToken} {token : SpeechToken} {row : List Run}
    (h : RowIs limit old (token :: fresh) row) : RowIs limit old fresh row.tail := by
  intro j
  have hShift := h (j + 1)
  rw [List.drop_succ_cons] at hShift
  rw [← hShift]
  simp [List.getD_eq_getElem?_getD, List.getElem?_tail]

theorem anchorRow_visits (token : SpeechToken) (old : List SpeechToken) (i : Nat)
    (fresh : List SpeechToken) (j : Nat) (next : List Run) (best : Match)
    (hNext : RowIs limit old fresh next) :
    RowIs limit (token :: old) fresh (anchorRow token i limit fresh j next best).1 ∧
      (anchorRow token i limit fresh j next best).2 =
        (rowVisits limit (token :: old) i fresh j).foldl Match.visit best := by
  induction fresh generalizing j next with
  | nil =>
    refine ⟨fun k => ?_, rfl⟩
    rw [List.drop_nil, longestRun_nil_right, anchorRow]
    cases k <;> rfl
  | cons t fresh ih =>
    obtain ⟨hRow, hFold⟩ := ih (j + 1) next.tail hNext.tail
    have hBehind : next.tail.headD default = longestRun limit old fresh := by
      have hFirst := hNext.tail 0
      rw [List.drop_zero] at hFirst
      rw [← hFirst, List.getD_eq_getElem?_getD, List.headD_eq_head?_getD, List.head?_eq_getElem?]
    rw [anchorRow, hBehind, rowVisits, List.foldl_append, ← hFold, longestRun]
    cases hRun : extendRun token t limit (longestRun limit old fresh) with
    | none =>
      refine ⟨fun k => ?_, ?_⟩
      · cases k with
        | zero => rw [List.drop_zero, longestRun, hRun]; rfl
        | succ k => exact hRow k
      · rw [if_pos (by rfl)]
        rfl
    | some run =>
      refine ⟨fun k => ?_, ?_⟩
      · cases k with
        | zero => rw [List.drop_zero, longestRun, hRun]; rfl
        | succ k => exact hRow k
      · obtain ⟨-, rfl⟩ := extendRun_eq_some.mp hRun
        rw [Option.getD_some, if_neg (Nat.succ_ne_zero _)]
        rfl

theorem anchorTable_visits (fresh old : List SpeechToken) (i : Nat) :
    RowIs limit old fresh (anchorTable fresh limit old i).1 ∧
      (anchorTable fresh limit old i).2 = (visits limit fresh old i).foldl Match.visit default := by
  induction old generalizing i with
  | nil =>
    refine ⟨fun k => ?_, rfl⟩
    rw [anchorTable, List.getD_eq_getElem?_getD, List.getElem?_replicate, longestRun_nil_left]
    split <;> rfl
  | cons token old ih =>
    obtain ⟨hRow, hFold⟩ := ih (i + 1)
    rw [anchorTable, visits, List.foldl_append, ← hFold]
    exact anchorRow_visits token old i fresh 0 _ _ hRow

/-- `anchor` considers the visited runs one after another. -/
theorem anchor_eq_fold (old fresh : List SpeechToken) (endTime : Int) :
    anchor old fresh endTime =
      (visits (endTime + tolerance) fresh old 0).foldl Match.visit default :=
  (anchorTable_visits fresh old 0).2

theorem mem_rowVisits {old : List SpeechToken} {i : Nat} {fresh : List SpeechToken} {j : Nat}
    {visit : Visit} : visit ∈ rowVisits limit old i fresh j ↔
      visit.oldStart = i ∧ j ≤ visit.newStart ∧
        visit.run = longestRun limit old (fresh.drop (visit.newStart - j)) ∧
        visit.run.count ≠ 0 := by
  induction fresh generalizing j with
  | nil =>
    rw [rowVisits, List.drop_nil, longestRun_nil_right]
    refine iff_of_false (fun h => by cases h) ?_
    rintro ⟨-, -, hRun, hCount⟩
    rw [hRun] at hCount
    exact hCount rfl
  | cons token fresh ih =>
    rw [rowVisits, List.mem_append, ih]
    constructor
    · rintro (⟨hOld, hNew, hRun, hCount⟩ | hHere)
      · refine ⟨hOld, by omega, ?_, hCount⟩
        rw [hRun, show visit.newStart - j = visit.newStart - (j + 1) + 1 by omega,
          List.drop_succ_cons]
      · split at hHere
        · cases hHere
        · rename_i hCount
          cases List.mem_singleton.mp hHere
          refine ⟨rfl, Nat.le_refl _, ?_, hCount⟩
          rw [Nat.sub_self, List.drop_zero]
    · rintro ⟨hOld, hNew, hRun, hCount⟩
      by_cases hHere : visit.newStart = j
      · right
        rw [hHere, Nat.sub_self, List.drop_zero] at hRun
        rw [hRun] at hCount
        rw [if_neg hCount]
        obtain ⟨oldStart, newStart, run⟩ := visit
        simp only at hOld hHere hRun
        rw [hOld, hHere, hRun]
        exact List.mem_singleton_self _
      · left
        refine ⟨hOld, by omega, ?_, hCount⟩
        rw [hRun, show visit.newStart - j = visit.newStart - (j + 1) + 1 by omega,
          List.drop_succ_cons]

theorem mem_visits {fresh old : List SpeechToken} {i : Nat} {visit : Visit} :
    visit ∈ visits limit fresh old i ↔
      i ≤ visit.oldStart ∧
        visit.run = longestRun limit (old.drop (visit.oldStart - i)) (fresh.drop visit.newStart) ∧
        visit.run.count ≠ 0 := by
  induction old generalizing i with
  | nil =>
    rw [visits, List.drop_nil]
    refine iff_of_false (fun h => by cases h) ?_
    rintro ⟨-, hRun, hCount⟩
    rw [hRun] at hCount
    exact hCount rfl
  | cons token old ih =>
    rw [visits, List.mem_append, ih, mem_rowVisits]
    constructor
    · rintro (⟨hOld, hRun, hCount⟩ | ⟨rfl, -, hRun, hCount⟩)
      · refine ⟨by omega, ?_, hCount⟩
        rw [hRun, show visit.oldStart - i = visit.oldStart - (i + 1) + 1 by omega,
          List.drop_succ_cons]
      · refine ⟨Nat.le_refl _, ?_, hCount⟩
        rw [hRun, Nat.sub_self, List.drop_zero, Nat.sub_zero]
    · rintro ⟨hOld, hRun, hCount⟩
      by_cases hHere : visit.oldStart = i
      · right
        rw [hHere, Nat.sub_self, List.drop_zero] at hRun
        exact ⟨hHere, Nat.zero_le _, hRun, hCount⟩
      · left
        refine ⟨by omega, ?_, hCount⟩
        rw [hRun, show visit.oldStart - i = visit.oldStart - (i + 1) + 1 by omega,
          List.drop_succ_cons]

theorem rowVisits_nodup (old : List SpeechToken) (i : Nat) (fresh : List SpeechToken) (j : Nat) :
    (rowVisits limit old i fresh j).Nodup := by
  induction fresh generalizing j with
  | nil => exact List.nodup_nil
  | cons token fresh ih =>
    rw [rowVisits]
    split
    · rw [List.append_nil]
      exact ih (j + 1)
    · rw [List.nodup_append]
      refine ⟨ih (j + 1), List.nodup_singleton _, ?_⟩
      intro visit hVisit other hOther
      rw [List.mem_singleton.mp hOther]
      rintro rfl
      have hLater := (mem_rowVisits.mp hVisit).2.1
      simp only at hLater
      omega

theorem visits_nodup (fresh old : List SpeechToken) (i : Nat) :
    (visits limit fresh old i).Nodup := by
  induction old generalizing i with
  | nil => exact List.nodup_nil
  | cons token old ih =>
    rw [visits, List.nodup_append]
    refine ⟨ih (i + 1), rowVisits_nodup _ _ _ _, ?_⟩
    rintro visit hVisit other hOther rfl
    have hLater := (mem_visits.mp hVisit).1
    have hHere := (mem_rowVisits.mp hOther).1
    omega

end Table

def Run.sameShape (run other : Run) : Bool := run.score == other.score && run.count == other.count

theorem outranks_iff {run best : Run} : run.outranks best = true ↔
    best.score < run.score ∨ run.score = best.score ∧ best.count < run.count := by
  simp [Run.outranks]

theorem sameShape_iff {run other : Run} :
    run.sameShape other = true ↔ run.score = other.score ∧ run.count = other.count := by
  simp [Run.sameShape]

/-- Two runs of which neither outranks the other have the same shape. -/
theorem sameShape_of_not {run other : Run} (h : ¬run.outranks other = true)
    (hOther : ¬other.outranks run = true) : run.sameShape other = true := by
  rw [outranks_iff] at h hOther
  rw [sameShape_iff]
  omega

/-- The visits of a given shape. -/
def shaped (seen : List Visit) (run : Run) : List Visit :=
  seen.filter fun visit => visit.run.sameShape run

theorem shaped_snoc (seen : List Visit) (visit : Visit) (run : Run) :
    shaped (seen ++ [visit]) run =
      if visit.run.sameShape run then shaped seen run ++ [visit] else shaped seen run := by
  unfold shaped
  rw [List.filter_append]
  split
  · rename_i hShape
    rw [List.filter_cons, if_pos hShape, List.filter_nil]
  · rename_i hShape
    rw [List.filter_cons, if_neg hShape, List.filter_nil, List.append_nil]

def Match.held (best : Match) : Visit := ⟨best.oldStart, best.newStart, best.run⟩

/-- The match after some visits: none outranks it, and it is the scan of those of its shape. -/
structure Leads (seen : List Visit) (best : Match) : Prop where
  highest : ∀ visit ∈ seen, ¬visit.run.outranks best.run = true
  scanned : best.run.score ≠ 0 → best.held ∈ seen ∧
    NearTie.scan Visit.mean 30000 (shaped seen best.run) = some (best.held, best.ambiguous)

namespace Leads

variable {seen : List Visit} {best : Match} {visit : Visit}

/-- A visit that outranks the match starts the scan anew. -/
theorem outranked (h : Leads seen best) (hHigher : visit.run.outranks best.run = true) :
    Leads (seen ++ [visit]) ⟨visit.oldStart, visit.newStart, visit.run, false⟩ := by
  have hBelow : ∀ other ∈ seen, ¬other.run.outranks visit.run = true ∧
      ¬other.run.sameShape visit.run = true := by
    intro other hOther
    have hSeen := h.highest other hOther
    rw [outranks_iff] at hHigher hSeen ⊢
    rw [sameShape_iff]
    omega
  constructor
  · intro other hOther
    rcases List.mem_append.mp hOther with hOther | hOther
    · exact (hBelow other hOther).1
    · rw [List.mem_singleton.mp hOther, outranks_iff]
      simp only
      omega
  · intro _
    refine ⟨List.mem_append_right _ (List.mem_singleton_self _), ?_⟩
    have hNone : shaped seen visit.run = [] :=
      List.filter_eq_nil_iff.mpr fun other hOther => (hBelow other hOther).2
    rw [shaped_snoc, if_pos (sameShape_iff.mpr ⟨rfl, rfl⟩), hNone]
    rfl

/-- A visit of another shape that does not outrank the match is passed over. -/
theorem passed (h : Leads seen best) (hLower : ¬visit.run.outranks best.run = true)
    (hShape : best.run.score ≠ 0 → ¬visit.run.sameShape best.run = true) :
    Leads (seen ++ [visit]) best := by
  constructor
  · intro other hOther
    rcases List.mem_append.mp hOther with hOther | hOther
    · exact h.highest other hOther
    · rw [List.mem_singleton.mp hOther]
      exact hLower
  · intro hScore
    obtain ⟨hMem, hScan⟩ := h.scanned hScore
    refine ⟨List.mem_append_left _ hMem, ?_⟩
    rw [shaped_snoc, if_neg (hShape hScore)]
    exact hScan

/-- A visit of the same shape is met by the scan. -/
theorem met (h : Leads seen best) (hScore : best.run.score ≠ 0)
    (hShape : visit.run.sameShape best.run = true) {next : Match}
    (hRun : next.run.sameShape best.run = true)
    (hHeld : next.held = best.held ∨ next.held = visit)
    (hMeet : NearTie.meet Visit.mean 30000 (some (best.held, best.ambiguous)) visit =
      some (next.held, next.ambiguous)) : Leads (seen ++ [visit]) next := by
  obtain ⟨hMem, hScan⟩ := h.scanned hScore
  have hSame := sameShape_iff.mp hRun
  have hOwn := sameShape_iff.mp hShape
  have hShapes : shaped (seen ++ [visit]) next.run = shaped (seen ++ [visit]) best.run := by
    unfold shaped Run.sameShape
    rw [hSame.1, hSame.2]
  constructor
  · intro other hOther
    rcases List.mem_append.mp hOther with hOther | hOther
    · have hSeen := h.highest other hOther
      rw [outranks_iff] at hSeen ⊢
      omega
    · rw [List.mem_singleton.mp hOther, outranks_iff]
      omega
  · intro _
    constructor
    · rcases hHeld with hHeld | hHeld
      · rw [hHeld]
        exact List.mem_append_left _ hMem
      · rw [hHeld]
        exact List.mem_append_right _ (List.mem_singleton_self _)
    · rw [hShapes, shaped_snoc, if_pos hShape, NearTie.scan_snoc, hScan]
      exact hMeet

theorem step (h : Leads seen best) (next : Visit) : Leads (seen ++ [next]) (best.visit next) := by
  unfold Match.visit Match.consider
  dsimp only
  split
  · rename_i hHigher
    exact h.outranked (outranks_iff.mpr hHigher)
  · rename_i hLower
    split
    · rename_i hTie
      have hScore : best.run.score ≠ 0 := fun hZero => hTie.2.2 (hTie.1.trans hZero)
      have hShape : next.run.sameShape best.run = true := sameShape_iff.mpr ⟨hTie.1, hTie.2.1⟩
      have hOwn : best.run.sameShape best.run = true := sameShape_iff.mpr ⟨rfl, rfl⟩
      split
      · rename_i hCloser
        exact h.met hScore hShape hShape (Or.inr rfl) (if_pos hCloser)
      · rename_i hNotCloser
        split
        · rename_i hNear
          exact h.met hScore hShape hOwn (Or.inl rfl) ((if_neg hNotCloser).trans (if_pos hNear))
        · rename_i hFar
          exact h.met hScore hShape hOwn (Or.inl rfl) ((if_neg hNotCloser).trans (if_neg hFar))
    · rename_i hDifferent
      apply h.passed
      · rw [outranks_iff]
        exact hLower
      · intro hScore hShape
        obtain ⟨hSame, hCount⟩ := sameShape_iff.mp hShape
        exact hDifferent ⟨hSame, hCount, fun hZero => hScore (hSame.symm.trans hZero)⟩

theorem fold (seen : List Visit) : Leads seen (seen.foldl Match.visit default) := by
  induction seen using List.reverseRecOn with
  | nil =>
    refine ⟨fun visit hVisit => (nomatch hVisit), ?_⟩
    intro hScore
    exact absurd rfl hScore
  | append_singleton seen next ih =>
    rw [List.foldl_append]
    exact ih.step next

end Leads

section Soundness

variable {old fresh : List SpeechToken} {endTime : Int}

theorem anchor_leads (old fresh : List SpeechToken) (endTime : Int) :
    Leads (visits (endTime + tolerance) fresh old 0) (anchor old fresh endTime) := by
  rw [anchor_eq_fold]
  exact Leads.fold _

/-- The best runs are the visits of the anchor's shape. -/
theorem bestRuns_eq (hScore : (anchor old fresh endTime).run.score ≠ 0) :
    bestRuns (endTime + tolerance) old fresh =
      shaped (visits (endTime + tolerance) fresh old 0) (anchor old fresh endTime).run := by
  have hLeads := anchor_leads old fresh endTime
  have hHeld := (hLeads.scanned hScore).1
  apply List.filter_congr
  intro visit hVisit
  rw [Bool.eq_iff_iff]
  simp only [Bool.and_eq_true, bne_iff_ne, List.all_eq_true, Bool.not_eq_true']
  constructor
  · rintro ⟨-, hBest⟩
    have hAnchor := hBest _ hHeld
    apply sameShape_of_not (hLeads.highest visit hVisit)
    rw [Bool.not_eq_true]
    exact hAnchor
  · intro hShape
    obtain ⟨hSame, hCount⟩ := sameShape_iff.mp hShape
    refine ⟨fun hZero => hScore (hSame.symm.trans hZero), ?_⟩
    intro other hOther
    have hLower := hLeads.highest other hOther
    rw [← Bool.not_eq_true]
    rw [outranks_iff] at hLower ⊢
    omega

theorem bestRuns_nil (hScore : (anchor old fresh endTime).run.score = 0) :
    bestRuns (endTime + tolerance) old fresh = [] := by
  apply List.filter_eq_nil_iff.mpr
  intro visit hVisit hBest
  have hLower := (anchor_leads old fresh endTime).highest visit hVisit
  simp only [Bool.and_eq_true, bne_iff_ne] at hBest
  rw [outranks_iff] at hLower
  omega

/-- Where there is a run, the longest one is visited. -/
theorem RunOf.longest_visited {limit : Int} {i j : Nat} {run : Run}
    (h : RunOf limit (old.drop i) (fresh.drop j) run) (hCount : run.count ≠ 0) :
    (⟨i, j, longestRun limit (old.drop i) (fresh.drop j)⟩ : Visit) ∈ visits limit fresh old 0 := by
  obtain ⟨-, hCounts, -⟩ := h.le_longest
  apply mem_visits.mpr
  refine ⟨Nat.zero_le _, rfl, ?_⟩
  dsimp only
  omega

/-- A run of the anchor's shape is visited. -/
theorem run_visited {i j : Nat} {run : Run} (hScore : 0 < (anchor old fresh endTime).run.score)
    (hRun : RunOf (endTime + tolerance) (old.drop i) (fresh.drop j) run)
    (hSame : run.score = (anchor old fresh endTime).run.score)
    (hCount : run.count = (anchor old fresh endTime).run.count) :
    (⟨i, j, run⟩ : Visit) ∈ shaped (visits (endTime + tolerance) fresh old 0)
      (anchor old fresh endTime).run := by
  have hLeads := anchor_leads old fresh endTime
  obtain ⟨hScores, hCounts, hLongest⟩ := hRun.le_longest
  have hPositive : run.count ≠ 0 := by
    intro hZero
    rw [hRun.eq_default hZero] at hSame
    exact absurd hSame (Nat.ne_of_lt hScore)
  have hVisit := hRun.longest_visited hPositive
  have hLower := hLeads.highest _ hVisit
  rw [outranks_iff] at hLower
  have hWhole : run = longestRun (endTime + tolerance) (old.drop i) (fresh.drop j) :=
    hLongest (by simp only at hLower; omega)
  rw [← hWhole] at hVisit
  exact List.mem_filter.mpr ⟨hVisit, sameShape_iff.mpr ⟨hSame, hCount⟩⟩

theorem visit_runOf {visit : Visit} (h : visit ∈ visits (endTime + tolerance) fresh old 0) :
    RunOf (endTime + tolerance) (old.drop visit.oldStart) (fresh.drop visit.newStart) visit.run := by
  obtain ⟨-, hRun, -⟩ := mem_visits.mp h
  rw [hRun, Nat.sub_zero]
  exact longestRun_runOf _ _ _

/-- Two visits at the same positions are the same. -/
theorem visit_ext {visit other : Visit} (h : visit ∈ visits (endTime + tolerance) fresh old 0)
    (hOther : other ∈ visits (endTime + tolerance) fresh old 0)
    (hOld : visit.oldStart = other.oldStart) (hNew : visit.newStart = other.newStart) :
    visit = other := by
  obtain ⟨-, hRun, -⟩ := mem_visits.mp h
  obtain ⟨-, hOtherRun, -⟩ := mem_visits.mp hOther
  obtain ⟨oldStart, newStart, run⟩ := visit
  obtain ⟨otherOld, otherNew, otherRun⟩ := other
  simp only at hOld hNew hRun hOtherRun
  subst hOld hNew
  rw [hRun, hOtherRun]

/-- The ambiguity flag is sound exactly where no best run masks an earlier near tie. -/
theorem anchor_unambiguous_iff (old fresh : List SpeechToken) (endTime : Int) :
    Unambiguous old fresh endTime ↔
      ¬NearTie.Masked Visit.mean 30000 (bestRuns (endTime + tolerance) old fresh) := by
  by_cases hZero : (anchor old fresh endTime).run.score = 0
  · rw [bestRuns_nil hZero]
    refine iff_of_true (fun hScore => absurd hZero (Nat.ne_of_gt hScore)) ?_
    rintro ⟨before, final, after, best, hidden, hSplit, -⟩
    simp at hSplit
  · have hScore : 0 < (anchor old fresh endTime).run.score := Nat.pos_of_ne_zero hZero
    obtain ⟨hHeld, hScan⟩ := (anchor_leads old fresh endTime).scanned hZero
    have hDistinct : (shaped (visits (endTime + tolerance) fresh old 0)
        (anchor old fresh endTime).run).Nodup := (visits_nodup fresh old 0).filter _
    rw [bestRuns_eq hZero, ← NearTie.untied_iff (by norm_num) hDistinct, hScan]
    constructor
    · intro hSound best hBest other hOther hNe
      obtain ⟨rfl, hUntied⟩ := Prod.mk.inj (Option.some.inj hBest)
      obtain ⟨hVisit, hShape⟩ := List.mem_filter.mp hOther
      obtain ⟨hSame, hCount⟩ := sameShape_iff.mp hShape
      refine hSound hScore hUntied _ _ _ (visit_runOf hVisit) hSame hCount ?_
      by_contra hPlaces
      rw [not_or, not_not, not_not] at hPlaces
      exact hNe (visit_ext hVisit hHeld hPlaces.1 hPlaces.2)
    · intro hSound _ hUntied i j run hRun hSame hCount hPlaces
      have hOther := run_visited hScore hRun hSame hCount
      have hNe : (⟨i, j, run⟩ : Visit) ≠ (anchor old fresh endTime).held := by
        intro hEq
        rcases hPlaces with hPlaces | hPlaces
        · exact hPlaces (congrArg Visit.oldStart hEq)
        · exact hPlaces (congrArg Visit.newStart hEq)
      have hBest : some ((anchor old fresh endTime).held, (anchor old fresh endTime).ambiguous) =
          some ((anchor old fresh endTime).held, false) := by rw [hUntied]
      exact hSound _ hBest _ hOther hNe

end Soundness

/-- Three places for one word, 60, 35 and 20 ms away in the order in which they are met: the
second ties with the first, and the third replaces it unmarked though the second is 15 ms
farther. -/
theorem near_tie_masked :
    ¬∀ (old fresh : List SpeechToken) (endTime : Int), Unambiguous old fresh endTime := by
  intro hAll
  have hSound := hAll [spoken " go" 3300000 3600000]
    [spoken " go" 3320000 3620000, spoken " go" 3335000 3635000, spoken " go" 3360000 3660000]
    4000000
  have hAnchor : anchor [spoken " go" 3300000 3600000]
      [spoken " go" 3320000 3620000, spoken " go" 3335000 3635000, spoken " go" 3360000 3660000]
      4000000 = ⟨0, 0, ⟨2, 1, 20000⟩, false⟩ := by decide +kernel
  have hSecond : longestRun (4000000 + tolerance) [spoken " go" 3300000 3600000]
      [spoken " go" 3335000 3635000, spoken " go" 3360000 3660000] = ⟨2, 1, 35000⟩ := by
    decide +kernel
  rw [Unambiguous, hAnchor] at hSound
  have hFar := hSound (by decide) rfl 0 1 _ (longestRun_runOf _ _ _) (by
    rw [List.drop_zero, List.drop_one, List.tail_cons, hSecond]) (by
    rw [List.drop_zero, List.drop_one, List.tail_cons, hSecond]) (Or.inr (by decide))
  rw [List.drop_zero, List.drop_one, List.tail_cons, hSecond] at hFar
  norm_num [Run.mean] at hFar

end GrpcAsr.Media
