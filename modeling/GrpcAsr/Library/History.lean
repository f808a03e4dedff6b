import Mathlib.Data.List.Basic

/-!
# Histories that grow at the end

What a history says of the moment of an entry: which entries came before it. A history
grows by one entry at a time, so every notion comes with its rule for one more entry.
-/

namespace History

/-- A split of a history at an entry is at the last one or a split of what came before it. -/
theorem snoc_eq_append_cons {α : Type*} {history before after : List α} {last entry : α} :
    history ++ [last] = before ++ entry :: after ↔
      (history = before ∧ last = entry ∧ after = []) ∨
        ∃ rest, after = rest ++ [last] ∧ history = before ++ entry :: rest := by
  constructor
  · intro h
    rcases List.eq_nil_or_concat after with rfl | ⟨rest, other, rfl⟩
    · obtain ⟨rfl, hLast⟩ := List.append_inj' h rfl
      exact .inl ⟨rfl, List.singleton_inj.mp hLast, rfl⟩
    · rw [List.concat_eq_append, ← List.cons_append, ← List.append_assoc] at h
      obtain ⟨hHistory, hLast⟩ := List.append_inj' h rfl
      obtain rfl := List.singleton_inj.mp hLast
      exact .inr ⟨rest, List.concat_eq_append, hHistory⟩
  · rintro (⟨rfl, rfl, rfl⟩ | ⟨rest, rfl, rfl⟩)
    · rfl
    · rw [List.append_assoc, List.cons_append]

variable {α : Type}

/-- The latest occurrence of an entry had a property of the history before it. -/
def Latest (entry : α) (P : List α → Prop) (history : List α) : Prop :=
  ∃ before after, history = before ++ entry :: after ∧ entry ∉ after ∧ P before

theorem latest_snoc_self {entry : α} {P : List α → Prop} {history : List α} :
    Latest entry P (history ++ [entry]) ↔ P history := by
  constructor
  · rintro ⟨before, after, hSplit, hLatest, hP⟩
    rcases snoc_eq_append_cons.mp hSplit with ⟨rfl, -, -⟩ | ⟨rest, rfl, -⟩
    · exact hP
    · exact (hLatest (List.mem_append_right rest (List.mem_singleton_self entry))).elim
  · exact fun hP => ⟨history, [], rfl, List.not_mem_nil, hP⟩

theorem latest_snoc_of_ne {entry last : α} {P : List α → Prop} {history : List α}
    (h : last ≠ entry) : Latest entry P (history ++ [last]) ↔ Latest entry P history := by
  constructor
  · rintro ⟨before, after, hSplit, hLatest, hP⟩
    rcases snoc_eq_append_cons.mp hSplit with ⟨-, hLast, -⟩ | ⟨rest, rfl, hHistory⟩
    · exact (h hLast).elim
    · exact ⟨before, rest, hHistory, fun hIn => hLatest (List.mem_append_left _ hIn), hP⟩
  · rintro ⟨before, after, rfl, hLatest, hP⟩
    refine ⟨before, after ++ [last], by rw [List.append_assoc, List.cons_append], ?_, hP⟩
    intro hIn
    rcases List.mem_append.mp hIn with hAfter | hLast
    · exact hLatest hAfter
    · exact h (List.mem_singleton.mp hLast).symm

theorem not_latest_nil {entry : α} {P : List α → Prop} : ¬ Latest entry P [] := by
  rintro ⟨before, after, hSplit, -⟩
  exact List.append_ne_nil_of_right_ne_nil before (List.cons_ne_nil entry after) hSplit.symm

/-- After an occurrence of `first` there is none of `second`. -/
def NeverAfter (first second : α) (history : List α) : Prop :=
  ∀ before after, history = before ++ first :: after → second ∉ after

theorem neverAfter_nil (first second : α) : NeverAfter first second [] := by
  intro before after hSplit
  exact (List.append_ne_nil_of_right_ne_nil before (List.cons_ne_nil first after) hSplit.symm).elim

theorem NeverAfter.snoc {first second last : α} {history : List α}
    (h : NeverAfter first second history) (hLast : last = second → first ∉ history) :
    NeverAfter first second (history ++ [last]) := by
  intro before after hSplit hSecond
  rcases snoc_eq_append_cons.mp hSplit with ⟨-, -, rfl⟩ | ⟨rest, rfl, rfl⟩
  · exact List.not_mem_nil hSecond
  · rcases List.mem_append.mp hSecond with hRest | hIsLast
    · exact h before rest rfl hRest
    · exact hLast (List.mem_singleton.mp hIsLast).symm
        (List.mem_append_right before List.mem_cons_self)

end History
