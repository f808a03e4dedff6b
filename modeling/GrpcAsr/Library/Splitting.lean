import Mathlib.Data.List.Basic

/-!
# Splitting a stream that arrives in pieces

A splitter looks at the front of a buffer. Where its answer does not change once there is one,
taking items off a buffer that grows piece by piece gives what the whole stream gives at once.
-/

namespace Splitting

variable {α ε : Type}

/-- What a buffer begins with: too little to tell, one item of a length, or no item at all. -/
inductive Front (ε : Type)
  | more
  | item (size : Nat)
  | broken (error : ε)

/-- A splitter whose answers stand when more arrives. -/
structure Splitter (α ε : Type) where
  front : List α → Front ε
  size_pos : ∀ {buffer size}, front buffer = .item size → 0 < size
  size_le : ∀ {buffer size}, front buffer = .item size → size ≤ buffer.length
  stable : ∀ {buffer} (later : List α), front buffer ≠ .more → front (buffer ++ later) = front buffer

/-- The items at the front of a buffer, and the rest that is too short or the error behind them. -/
def drain (s : Splitter α ε) (buffer : List α) : List (List α) × Except ε (List α) :=
  match _hFront : s.front buffer with
  | .more => ([], .ok buffer)
  | .broken error => ([], .error error)
  | .item size =>
    let behind := drain s (buffer.drop size)
    (buffer.take size :: behind.1, behind.2)
termination_by buffer.length
decreasing_by
  have hPos := s.size_pos _hFront
  have hLe := s.size_le _hFront
  rw [List.length_drop]
  omega

/-- The items taken off while pieces arrive. -/
def feed (s : Splitter α ε) (buffer : List α) : List (List α) → List (List α) × Except ε (List α)
  | [] => ([], .ok buffer)
  | piece :: pieces =>
    match drain s (buffer ++ piece) with
    | (items, .error error) => (items, .error error)
    | (items, .ok rest) =>
      let later := feed s rest pieces
      (items ++ later.1, later.2)

section Drain

variable {s : Splitter α ε} {buffer : List α}

theorem drain_more (h : s.front buffer = .more) : drain s buffer = ([], .ok buffer) := by
  rw [drain]
  split
  · rfl
  · rename_i hFront
    cases h.symm.trans hFront
  · rename_i hFront
    cases h.symm.trans hFront

theorem drain_broken {error : ε} (h : s.front buffer = .broken error) :
    drain s buffer = ([], .error error) := by
  rw [drain]
  split
  · rename_i hFront
    cases h.symm.trans hFront
  · rename_i hFront
    cases h.symm.trans hFront
    rfl
  · rename_i hFront
    cases h.symm.trans hFront

theorem drain_item {size : Nat} (h : s.front buffer = .item size) :
    drain s buffer =
      (buffer.take size :: (drain s (buffer.drop size)).1, (drain s (buffer.drop size)).2) := by
  rw [drain]
  split
  · rename_i hFront
    cases h.symm.trans hFront
  · rename_i hFront
    cases h.symm.trans hFront
  · rename_i hFront
    cases h.symm.trans hFront
    rfl

/-- Induction on the items of a buffer. -/
theorem drain_induction (s : Splitter α ε) {P : List α → Prop}
    (more : ∀ buffer, s.front buffer = .more → P buffer)
    (broken : ∀ buffer error, s.front buffer = .broken error → P buffer)
    (item : ∀ buffer size, s.front buffer = .item size → P (buffer.drop size) → P buffer)
    (buffer : List α) : P buffer := by
  induction buffer using drain.induct s with
  | case1 buffer h => exact more buffer h
  | case2 buffer error h => exact broken buffer error h
  | case3 buffer size h ih => exact item buffer size h ih

/-- What is taken off and what is left are the buffer. -/
theorem drain_flatten (s : Splitter α ε) (buffer : List α) {rest : List α}
    (h : (drain s buffer).2 = .ok rest) : (drain s buffer).1.flatten ++ rest = buffer := by
  induction buffer using drain_induction s with
  | more buffer hFront =>
    rw [drain_more hFront] at h ⊢
    cases h
    rfl
  | broken buffer error hFront =>
    rw [drain_broken hFront] at h
    cases h
  | item buffer size hFront ih =>
    rw [drain_item hFront] at h ⊢
    rw [List.flatten_cons, List.append_assoc, ih h, List.take_append_drop]

theorem front_of_drain (s : Splitter α ε) (buffer : List α) {rest : List α}
    (h : (drain s buffer).2 = .ok rest) : s.front rest = .more := by
  induction buffer using drain_induction s with
  | more buffer hFront =>
    rw [drain_more hFront] at h
    cases h
    exact hFront
  | broken buffer error hFront =>
    rw [drain_broken hFront] at h
    cases h
  | item buffer size hFront ih =>
    rw [drain_item hFront] at h
    exact ih h

/-- Every item taken off begins the buffer it was taken from. -/
theorem drain_items (s : Splitter α ε) (buffer : List α) :
    ∀ item ∈ (drain s buffer).1, ∃ behind, s.front (item ++ behind) = .item item.length := by
  induction buffer using drain_induction s with
  | more buffer hFront =>
    rw [drain_more hFront]
    exact List.forall_mem_nil _
  | broken buffer error hFront =>
    rw [drain_broken hFront]
    exact List.forall_mem_nil _
  | item buffer size hFront ih =>
    rw [drain_item hFront, List.forall_mem_cons]
    refine ⟨⟨buffer.drop size, ?_⟩, ih⟩
    rw [List.take_append_drop, List.length_take, Nat.min_eq_left (s.size_le hFront)]
    exact hFront

theorem drain_append (s : Splitter α ε) (buffer later : List α) :
    drain s (buffer ++ later) =
      match drain s buffer with
      | (items, .error error) => (items, .error error)
      | (items, .ok rest) =>
        (items ++ (drain s (rest ++ later)).1, (drain s (rest ++ later)).2) := by
  induction buffer using drain_induction s with
  | more buffer hFront =>
    rw [drain_more hFront]
    rfl
  | broken buffer error hFront =>
    have hStable := s.stable later (by rw [hFront]; simp)
    rw [drain_broken hFront, drain_broken (hStable.trans hFront)]
  | item buffer size hFront ih =>
    have hStable := s.stable later (by rw [hFront]; simp)
    have hLe := s.size_le hFront
    rw [drain_item (hStable.trans hFront), drain_item hFront, List.take_append_of_le_length hLe,
      List.drop_append_of_le_length hLe, ih]
    cases hDrain : drain s (buffer.drop size) with
    | mk items result =>
      cases result with
      | error error => rfl
      | ok rest => rfl

/-- However a stream is cut into pieces, it gives the items of the whole stream. -/
theorem feed_eq_drain (s : Splitter α ε) (pieces : List (List α)) {buffer : List α}
    (h : s.front buffer = .more) : feed s buffer pieces = drain s (buffer ++ pieces.flatten) := by
  induction pieces generalizing buffer with
  | nil =>
    rw [List.flatten_nil, List.append_nil, drain_more h]
    rfl
  | cons piece pieces ih =>
    rw [List.flatten_cons, ← List.append_assoc, drain_append, feed]
    cases hDrain : drain s (buffer ++ piece) with
    | mk items result =>
      cases result with
      | error error => rfl
      | ok rest =>
        have hRest : s.front rest = .more := front_of_drain s (buffer ++ piece) (by rw [hDrain])
        dsimp only
        rw [ih hRest]

/-- A stream of whole items comes apart into them. -/
theorem drain_whole (s : Splitter α ε) (items : List (List α)) (hEmpty : s.front [] = .more)
    (hItems : ∀ item ∈ items, s.front item = .item item.length) :
    drain s items.flatten = (items, .ok []) := by
  induction items with
  | nil => exact drain_more hEmpty
  | cons item items ih =>
    have hItem := hItems item List.mem_cons_self
    have hStable := s.stable items.flatten (by rw [hItem]; simp)
    rw [List.flatten_cons, drain_item (hStable.trans hItem), List.take_left, List.drop_left,
      ih fun other hOther => hItems other (List.mem_cons_of_mem item hOther)]

end Drain

end Splitting
