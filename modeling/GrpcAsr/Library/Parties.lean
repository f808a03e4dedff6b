import Mathlib.Data.List.Nodup
import Mathlib.Data.List.Perm.Basic

/-!
# Parties that move one at a time

The parties of a system stand in a list and one of them moves in each step. What they hold
together, and how many of them are in a kind of state, changes by what that party gains and
gives up.
-/

namespace Parties

universe u v

variable {α : Type u} {β : Type v} {parties : List α} {i : Nat} {a b : α}

/-- What all parties hold together. -/
def held (f : α → List β) (parties : List α) : List β := parties.flatMap f

theorem held_set (f : α → List β) (h : parties[i]? = some a) (b : α) :
    (held f (parties.set i b) ++ f a).Perm (held f parties ++ f b) := by
  obtain ⟨hBound, rfl⟩ := List.getElem?_eq_some_iff.mp h
  have hBefore : parties.take i ++ parties[i] :: parties.drop (i + 1) = parties := by
    rw [List.getElem_cons_drop, List.take_append_drop]
  rw [List.set_eq_take_append_cons_drop, if_pos hBound, held, held]
  conv_rhs => rw [← hBefore]
  simp only [List.flatMap_append, List.flatMap_cons, List.append_assoc]
  refine List.Perm.append_left _ ?_
  calc (f b ++ ((parties.drop (i + 1)).flatMap f ++ f parties[i])).Perm
        (((parties.drop (i + 1)).flatMap f ++ f parties[i]) ++ f b) := List.perm_append_comm
    _ |>.Perm ((f parties[i] ++ (parties.drop (i + 1)).flatMap f) ++ f b) :=
        List.perm_append_comm.append_right _
    _ = f parties[i] ++ ((parties.drop (i + 1)).flatMap f ++ f b) := List.append_assoc _ _ _

/-- What lies outside and what the parties hold stay the same together if one party's move
exchanges something between the two. -/
theorem held_exchange (f : α → List β) (h : parties[i]? = some a) {outside outside' : List β}
    (hMove : (outside' ++ f b).Perm (outside ++ f a)) :
    (outside' ++ held f (parties.set i b)).Perm (outside ++ held f parties) := by
  refine (List.perm_append_right_iff (f a)).mp ?_
  have hSet := (held_set f h b).append_left outside'
  have hSwap : (outside' ++ (held f parties ++ f b)).Perm (outside' ++ f b ++ held f parties) := by
    rw [List.append_assoc]
    exact List.perm_append_comm.append_left outside'
  have hBack : (outside ++ f a ++ held f parties).Perm (outside ++ (held f parties ++ f a)) := by
    rw [List.append_assoc]
    exact List.perm_append_comm.append_left outside
  rw [List.append_assoc, List.append_assoc]
  exact hSet.trans (hSwap.trans ((hMove.append_right _).trans hBack))

theorem mem_held {f : α → List β} {x : β} (h : parties[i]? = some a) (hMem : x ∈ f a) :
    x ∈ held f parties := List.mem_flatMap.mpr ⟨a, List.mem_of_getElem? h, hMem⟩

/-- What is held without repetition is held by one party only. -/
theorem held_nodup {f : α → List β} {x : β} {j : Nat} (hNodup : (held f parties).Nodup)
    (hFirst : parties[i]? = some a) (hSecond : parties[j]? = some b) (ha : x ∈ f a) (hb : x ∈ f b) :
    i = j := by
  have hPairwise := (List.nodup_flatMap.mp hNodup).2
  obtain ⟨hi, rfl⟩ := List.getElem?_eq_some_iff.mp hFirst
  obtain ⟨hj, rfl⟩ := List.getElem?_eq_some_iff.mp hSecond
  rw [List.pairwise_iff_getElem] at hPairwise
  rcases Nat.lt_trichotomy i j with hLess | rfl | hLess
  · exact absurd hb (hPairwise i j hi hj hLess ha)
  · rfl
  · exact absurd ha (hPairwise j i hj hi hLess hb)

/-- How many parties are in a kind of state, after one has moved. -/
theorem count_set (p : α → Bool) (h : parties[i]? = some a) (b : α) :
    (parties.set i b).countP p + (p a).toNat = parties.countP p + (p b).toNat := by
  obtain ⟨hBound, rfl⟩ := List.getElem?_eq_some_iff.mp h
  have hOne := List.boole_getElem_le_countP (p := p) hBound
  rw [List.countP_set hBound]
  cases hOld : p parties[i] with
  | false => cases p b <;> simp
  | true =>
    rw [hOld] at hOne
    have hPos : 1 ≤ parties.countP p := by simpa using hOne
    cases p b
    · simp
      omega
    · simp
      omega

/-- A run of the system; steps that cannot be taken are not. -/
def run {σ : Type u} {γ : Type v} (step : σ → γ → Option σ) (s : σ) (actions : List γ) : σ :=
  actions.foldl (fun s action => (step s action).getD s) s

/-- What every step keeps holds after every run. -/
theorem run_induction {σ : Type u} {γ : Type v} {step : σ → γ → Option σ} {P : σ → Prop} {s : σ}
    (hStart : P s) (hStep : ∀ s action s', P s → step s action = some s' → P s')
    (actions : List γ) : P (run step s actions) := by
  induction actions generalizing s with
  | nil => exact hStart
  | cons action actions ih =>
    refine ih (s := (step s action).getD s) ?_
    cases hTaken : step s action with
    | none => exact hStart
    | some s' => exact hStep s action s' hStart hTaken

theorem count_pos (p : α → Bool) (h : parties[i]? = some a) (ha : p a = true) :
    0 < parties.countP p := List.countP_pos_iff.mpr ⟨a, List.mem_of_getElem? h, ha⟩

end Parties
