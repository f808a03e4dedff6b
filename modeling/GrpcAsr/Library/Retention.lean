import Mathlib.Algebra.Order.Ring.Int
import Mathlib.Algebra.BigOperators.Group.List.Basic
import Mathlib.Data.List.Infix

/-!
# The longest affordable end of a log

A log of charged entries is kept within a budget by dropping from its front. What should
remain is the longest end of the log whose total charge the budget covers.
-/

namespace Retention

universe u

variable {α : Type u} (charge : α → Nat)

def total (entries : List α) : Nat := (entries.map charge).sum

@[simp] theorem total_nil : total charge [] = 0 := rfl

@[simp] theorem total_cons (entry : α) (entries : List α) :
    total charge (entry :: entries) = charge entry + total charge entries := List.sum_cons

@[simp] theorem total_append (front back : List α) :
    total charge (front ++ back) = total charge front + total charge back := by
  rw [total, List.map_append, List.sum_append]
  rfl

structure Longest (budget : Nat) (log kept : List α) : Prop where
  suffix : kept <:+ log
  affordable : total charge kept ≤ budget
  longest : ∀ other, other <:+ log → total charge other ≤ budget → other <:+ kept

variable {charge} {budget : Nat} {log kept : List α}

theorem Longest.unique {other : List α} (h : Longest charge budget log kept)
    (hOther : Longest charge budget log other) : kept = other :=
  (hOther.longest kept h.suffix h.affordable).eq_of_length_le
    (h.longest other hOther.suffix hOther.affordable).length_le

theorem Longest.whole (h : total charge log ≤ budget) : Longest charge budget log log :=
  ⟨List.suffix_refl _, h, fun _ hOther _ => hOther⟩

/-- An unaffordable log loses its first entry. -/
theorem Longest.drop {entry : α} (h : Longest charge budget log kept)
    (hOver : budget < total charge (entry :: log)) : Longest charge budget (entry :: log) kept := by
  refine ⟨h.suffix.trans (List.suffix_cons _ _), h.affordable, ?_⟩
  intro other hOther hTotal
  rcases List.suffix_cons_iff.mp hOther with rfl | hInside
  · omega
  · exact h.longest other hInside hTotal

/-- A new entry that fits alone keeps what fits beside it of the entries kept before. -/
theorem Longest.snoc {entry : α} {rest : List α} (h : Longest charge budget log kept)
    (hFits : charge entry ≤ budget) (hRest : Longest charge (budget - charge entry) kept rest) :
    Longest charge budget (log ++ [entry]) (rest ++ [entry]) := by
  have hAffordable := hRest.affordable
  refine ⟨List.suffix_append_self_iff.mpr (hRest.suffix.trans h.suffix), ?_, ?_⟩
  · rw [total_append, total_cons, total_nil]
    omega
  · intro other hOther hTotal
    rcases List.suffix_concat_iff.mp hOther with rfl | ⟨front, rfl, hFront⟩
    · exact List.nil_suffix
    · rw [total_append, total_cons, total_nil] at hTotal
      have hKept := h.longest front hFront (by omega)
      exact List.suffix_append_self_iff.mpr (hRest.longest front hKept (by omega))

/-- An entry over the budget on its own empties what is kept. -/
theorem Longest.oversized {entry : α} (h : budget < charge entry) (log : List α) :
    Longest charge budget (log ++ [entry]) [] := by
  refine ⟨List.nil_suffix, Nat.zero_le _, ?_⟩
  intro other hOther hTotal
  rcases List.suffix_concat_iff.mp hOther with rfl | ⟨front, rfl, -⟩
  · exact List.suffix_refl _
  · rw [total_append, total_cons, total_nil] at hTotal
    omega

end Retention
