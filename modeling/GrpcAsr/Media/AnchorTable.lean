import GrpcAsr.Media.AnchorScan

/-!
# The table of the anchor

The loops of `anchor` over its two rows of cells, filled from the last column down and swapped
behind every row. A cell left over from the row before last is cleared before it is read, and
the last column stays empty, so the loops meet the same runs as the recursion over both lists.
What they keep is a best run between the lists.
-/

namespace GrpcAsr.Media

set_option autoImplicit false

/-- The row behind the one in work, the row in work, and the best run so far. -/
structure AnchorRows where
  next : List Run
  row : List Run
  best : Match

namespace AnchorRows

def start (fresh : List SpeechToken) : AnchorRows :=
  ⟨List.replicate (fresh.length + 1) default, List.replicate (fresh.length + 1) default, default⟩

/-- One cell is cleared, and set where its tokens pair. -/
def cell (old fresh : List SpeechToken) (limit : Int) (i : Nat) (hi : i < old.length) (j : Nat)
    (hj : j < fresh.length) (t : AnchorRows) : AnchorRows :=
  let row := t.row.set j default
  match extendRun old[i] fresh[j] limit (t.next.getD (j + 1) default) with
  | none => { t with row := row }
  | some run => { t with row := row.set j run, best := t.best.consider i j run }

def swap (t : AnchorRows) : AnchorRows := { t with next := t.row, row := t.next }

def fill (old fresh : List SpeechToken) (limit : Int) (i : Nat) (hi : i < old.length)
    (t : AnchorRows) : AnchorRows :=
  (fresh.length.foldRev (cell old fresh limit i hi) t).swap

end AnchorRows

/-- `anchor` as its loops compute it. -/
def anchorLoops (old fresh : List SpeechToken) (endTime : Int) : Match :=
  (old.length.foldRev (AnchorRows.fill old fresh (endTime + tolerance)) (AnchorRows.start fresh)).best

/-- What a step of a loop that counts down keeps holds at its end. -/
theorem foldRev_keeps {α : Type} {n : Nat} {P : Nat → α → Prop} {f : (i : Nat) → i < n → α → α} {a : α}
    (hStart : P n a) (hStep : ∀ i (hi : i < n) a, P (i + 1) a → P i (f i hi a)) :
    P 0 (n.foldRev f a) := by
  induction n generalizing a with
  | zero => exact hStart
  | succ n ih =>
    rw [Nat.foldRev_succ]
    apply ih
    · exact hStep n (Nat.lt_succ_self n) a hStart
    · exact fun i hi a h => hStep i (Nat.lt_succ_of_lt hi) a h

theorem drop_set_self {α : Type} {xs : List α} {j : Nat} (h : j < xs.length) (x : α) :
    (xs.set j x).drop j = x :: xs.drop (j + 1) := by
  rw [List.drop_eq_getElem_cons (by rw [List.length_set]; exact h), List.getElem_set_self,
    List.drop_set_of_lt (Nat.lt_succ_self j)]

section Cells

variable {token other : SpeechToken} {limit : Int} {next : List Run} {i j : Nat}

theorem anchorRow_none (best : Match) (fresh : List SpeechToken)
    (h : extendRun token other limit (next.tail.headD default) = none) :
    anchorRow token i limit (other :: fresh) j next best =
      (default :: (anchorRow token i limit fresh (j + 1) next.tail best).1,
        (anchorRow token i limit fresh (j + 1) next.tail best).2) := by
  simp only [anchorRow, h]

theorem anchorRow_some {run : Run} (best : Match) (fresh : List SpeechToken)
    (h : extendRun token other limit (next.tail.headD default) = some run) :
    anchorRow token i limit (other :: fresh) j next best =
      (run :: (anchorRow token i limit fresh (j + 1) next.tail best).1,
        (anchorRow token i limit fresh (j + 1) next.tail best).2.consider i j run) := by
  simp only [anchorRow, h]

end Cells

namespace AnchorRows

/-- A row whose last column is empty. -/
def Closed (fresh : List SpeechToken) (row : List Run) : Prop := row.drop fresh.length = [default]

theorem Closed.length {fresh : List SpeechToken} {row : List Run} (h : Closed fresh row) :
    row.length = fresh.length + 1 := by
  have hLength := congrArg List.length h
  rw [List.length_drop, List.length_singleton] at hLength
  omega

theorem Closed.set {fresh : List SpeechToken} {row : List Run} (h : Closed fresh row) {j : Nat}
    (hj : j < fresh.length) (run : Run) : Closed fresh (row.set j run) := by
  rw [Closed, List.drop_set_of_lt hj]
  exact h

theorem closed_start (fresh : List SpeechToken) :
    Closed fresh (List.replicate (fresh.length + 1) default) := by
  rw [Closed, List.drop_replicate, Nat.add_sub_cancel_left]
  rfl

/-- From the column on, the row in work is the row of the recursion. -/
structure Filled (token : SpeechToken) (fresh : List SpeechToken) (limit : Int) (i : Nat)
    (before : AnchorRows) (j : Nat) (t : AnchorRows) : Prop where
  next : t.next = before.next
  closed : Closed fresh t.row
  cells : t.row.drop j =
    (anchorRow token i limit (fresh.drop j) j (before.next.drop j) before.best).1
  best : t.best = (anchorRow token i limit (fresh.drop j) j (before.next.drop j) before.best).2

variable {old fresh : List SpeechToken} {limit : Int} {i j : Nat} {before t : AnchorRows}

theorem Filled.start {token : SpeechToken} (h : Closed fresh before.row) :
    Filled token fresh limit i before fresh.length before where
  next := rfl
  closed := h
  cells := by
    rw [List.drop_length, anchorRow]
    exact h
  best := by rw [List.drop_length, anchorRow]

theorem Filled.cell {hi : i < old.length} {hj : j < fresh.length}
    (h : Filled old[i] fresh limit i before (j + 1) t) :
    Filled old[i] fresh limit i before j (AnchorRows.cell old fresh limit i hi j hj t) := by
  have hRow : j < t.row.length := by
    rw [h.closed.length]
    omega
  have hBehind : (before.next.drop j).tail.headD default = t.next.getD (j + 1) default := by
    rw [List.tail_drop, h.next, List.headD_eq_head?_getD, List.head?_drop, List.getD_eq_getElem?_getD]
  have hRest : anchorRow old[i] i limit (fresh.drop (j + 1)) (j + 1) (before.next.drop j).tail before.best =
      (t.row.drop (j + 1), t.best) := by
    rw [List.tail_drop, h.cells, h.best]
  have hColumn : fresh.drop j = fresh[j] :: fresh.drop (j + 1) := List.drop_eq_getElem_cons hj
  unfold AnchorRows.cell
  dsimp only
  cases hRun : extendRun old[i] fresh[j] limit (t.next.getD (j + 1) default) with
  | none =>
    rw [← hBehind] at hRun
    have hAnchor := anchorRow_none (i := i) (j := j) before.best (fresh.drop (j + 1)) hRun
    rw [← hColumn, hRest] at hAnchor
    constructor
    · exact h.next
    · exact h.closed.set hj default
    · rw [hAnchor, drop_set_self hRow]
    · rw [hAnchor]
  | some run =>
    rw [← hBehind] at hRun
    have hAnchor := anchorRow_some (i := i) (j := j) before.best (fresh.drop (j + 1)) hRun
    rw [← hColumn, hRest] at hAnchor
    constructor
    · exact h.next
    · exact (h.closed.set hj default).set hj run
    · dsimp only
      rw [hAnchor, List.set_set, drop_set_self hRow]
    · rw [hAnchor]

/-- From the row on, the rows are those of the recursion. -/
structure Swept (old fresh : List SpeechToken) (limit : Int) (i : Nat) (t : AnchorRows) : Prop where
  next_closed : Closed fresh t.next
  row_closed : Closed fresh t.row
  cells : t.next = (anchorTable fresh limit (old.drop i) i).1
  best : t.best = (anchorTable fresh limit (old.drop i) i).2

theorem Swept.start : Swept old fresh limit old.length (AnchorRows.start fresh) where
  next_closed := closed_start fresh
  row_closed := closed_start fresh
  cells := by
    rw [List.drop_length, anchorTable]
    rfl
  best := by
    rw [List.drop_length, anchorTable]
    rfl

theorem Swept.fill (hi : i < old.length) (h : Swept old fresh limit (i + 1) t) :
    Swept old fresh limit i (AnchorRows.fill old fresh limit i hi t) := by
  have hFilled : Filled old[i] fresh limit i t 0
      (fresh.length.foldRev (AnchorRows.cell old fresh limit i hi) t) :=
    foldRev_keeps (Filled.start h.row_closed) fun j hj t' h' => h'.cell
  have hTable : anchorTable fresh limit (old.drop i) i =
      anchorRow old[i] i limit fresh 0 t.next t.best := by
    rw [List.drop_eq_getElem_cons hi, anchorTable, ← h.cells, ← h.best]
  have hCells := hFilled.cells
  have hBest := hFilled.best
  rw [List.drop_zero, List.drop_zero, List.drop_zero] at hCells
  rw [List.drop_zero, List.drop_zero] at hBest
  constructor
  · exact hFilled.closed
  · rw [AnchorRows.fill, swap]
    dsimp only
    rw [hFilled.next]
    exact h.next_closed
  · rw [hTable, ← hCells]
    rfl
  · rw [hTable, ← hBest]
    rfl

end AnchorRows

theorem anchorLoops_eq (old fresh : List SpeechToken) (endTime : Int) :
    anchorLoops old fresh endTime = anchor old fresh endTime := by
  have hSwept : AnchorRows.Swept old fresh (endTime + tolerance) 0 _ :=
    foldRev_keeps AnchorRows.Swept.start fun i hi t h => h.fill hi
  exact hSwept.best

section Best

/-- A contiguous run of pairs from two positions on. -/
structure MatchingRun (old fresh : List SpeechToken) (endTime : Int) (i j count : Nat) : Prop where
  old_le : i + count ≤ old.length
  fresh_le : j + count ≤ fresh.length
  paired : ∀ k < count, ∃ a b, old[i + k]? = some a ∧ fresh[j + k]? = some b ∧
    key a.rendered = key b.rendered ∧ (key a.rendered ≠ [] → timedMatch a b = true) ∧
    b.start ≤ endTime + tolerance

/-- The key lengths of the tokens from a position on. -/
def keyLengths (tokens : List SpeechToken) (i count : Nat) : Nat :=
  (((tokens.drop i).take count).map fun token => (key token.rendered).length).sum

variable {old fresh : List SpeechToken} {endTime : Int} {i j count : Nat}

theorem mem_pairs {pair : TokenPair} :
    pair ∈ ((old.drop i).zip (fresh.drop j)).take count ↔
      ∃ k < count, old[i + k]? = some pair.1 ∧ fresh[j + k]? = some pair.2 := by
  rw [List.mem_iff_getElem?]
  apply exists_congr
  intro k
  rw [List.getElem?_take]
  split
  · rename_i hk
    rw [List.getElem?_zip_eq_some, List.getElem?_drop, List.getElem?_drop]
    exact (and_iff_right hk).symm
  · rename_i hk
    exact iff_of_false (fun hNone => nomatch hNone) fun hPair => hk hPair.1

theorem pairLetters_eq (hFresh : count ≤ (fresh.drop j).length) :
    pairLetters (((old.drop i).zip (fresh.drop j)).take count) = keyLengths old i count := by
  have hPairs : ((old.drop i).zip (fresh.drop j)).take count =
      ((old.drop i).take count).zip ((fresh.drop j).take count) := List.take_zipWith
  have hOld : (((old.drop i).take count).zip ((fresh.drop j).take count)).map Prod.fst =
      (old.drop i).take count := by
    apply List.map_fst_zip
    rw [List.length_take_of_le hFresh]
    exact List.length_take_le _ _
  rw [pairLetters, keyLengths, hPairs]
  conv_rhs => rw [← hOld, List.map_map]
  rfl

theorem MatchingRun.runOf (h : MatchingRun old fresh endTime i j count) :
    ∃ run, RunOf (endTime + tolerance) (old.drop i) (fresh.drop j) run ∧
      run.score = keyLengths old i count ∧ run.count = count := by
  have hOld := h.old_le
  have hFresh := h.fresh_le
  have hFreshDrop : count ≤ (fresh.drop j).length := by
    rw [List.length_drop]
    omega
  refine ⟨⟨keyLengths old i count, count,
    pairGaps (((old.drop i).zip (fresh.drop j)).take count)⟩, ?_, rfl, rfl⟩
  constructor
  · rw [List.length_drop]
    dsimp only
    omega
  · exact hFreshDrop
  · intro pair hPair
    obtain ⟨k, hk, hFirst, hSecond⟩ := mem_pairs.mp hPair
    obtain ⟨a, b, ha, hb, hKeys, hTimed, hStart⟩ := h.paired k hk
    obtain rfl := Option.some.inj (ha.symm.trans hFirst)
    obtain rfl := Option.some.inj (hb.symm.trans hSecond)
    exact ⟨hKeys, hTimed, hStart⟩
  · exact (pairLetters_eq hFreshDrop).symm
  · rfl

theorem RunOf.matchingRun {run : Run}
    (h : RunOf (endTime + tolerance) (old.drop i) (fresh.drop j) run) (hCount : 0 < run.count) :
    MatchingRun old fresh endTime i j run.count ∧ run.score = keyLengths old i run.count := by
  have hOld := h.old_le
  have hFresh := h.fresh_le
  rw [List.length_drop] at hOld hFresh
  constructor
  · constructor
    · omega
    · omega
    · intro k hk
      have hOldAt : i + k < old.length := by omega
      have hFreshAt : j + k < fresh.length := by omega
      have hPair := h.paired (old[i + k], fresh[j + k])
        (mem_pairs.mpr ⟨k, hk, List.getElem?_eq_getElem hOldAt, List.getElem?_eq_getElem hFreshAt⟩)
      exact ⟨_, _, List.getElem?_eq_getElem hOldAt, List.getElem?_eq_getElem hFreshAt, hPair.keys,
        hPair.timed, hPair.start⟩
  · rw [h.score]
    exact pairLetters_eq h.fresh_le

theorem anchor_runOf (old fresh : List SpeechToken) (endTime : Int) :
    RunOf (endTime + tolerance) (old.drop (anchor old fresh endTime).oldStart)
      (fresh.drop (anchor old fresh endTime).newStart) (anchor old fresh endTime).run :=
  (anchorTable_holds (RunOf.zero _) (fun _ _ _ _ _ _ hRun hNext => hNext.cons hRun) old 0 rfl).2

/-- No run between the lists outranks the anchor. -/
theorem anchor_highest {run : Run}
    (h : RunOf (endTime + tolerance) (old.drop i) (fresh.drop j) run) :
    ¬run.outranks (anchor old fresh endTime).run = true := by
  obtain ⟨hScore, hCount, -⟩ := h.le_longest
  by_cases hEmpty : run.count = 0
  · rw [h.eq_default hEmpty, outranks_iff]
    exact fun hHigher => hHigher.elim (Nat.not_lt_zero _) fun hLonger => Nat.not_lt_zero _ hLonger.2
  · have hHighest := (anchor_leads old fresh endTime).highest _ (h.longest_visited hEmpty)
    rw [outranks_iff] at hHighest ⊢
    dsimp only at hHighest
    omega

/-- What the loops find is a run of pairs with its score, and no run between the lists has a
larger score, or the same score and more tokens. -/
theorem anchor_best_run (old fresh : List SpeechToken) (endTime : Int) :
    (0 < (anchorLoops old fresh endTime).run.count →
      MatchingRun old fresh endTime (anchorLoops old fresh endTime).oldStart
          (anchorLoops old fresh endTime).newStart (anchorLoops old fresh endTime).run.count ∧
        (anchorLoops old fresh endTime).run.score =
          keyLengths old (anchorLoops old fresh endTime).oldStart
            (anchorLoops old fresh endTime).run.count) ∧
    ∀ i j count, MatchingRun old fresh endTime i j count →
      ¬((anchorLoops old fresh endTime).run.score < keyLengths old i count ∨
        (keyLengths old i count = (anchorLoops old fresh endTime).run.score ∧
          (anchorLoops old fresh endTime).run.count < count)) := by
  rw [anchorLoops_eq]
  constructor
  · exact (anchor_runOf old fresh endTime).matchingRun
  · intro i j count hRun
    obtain ⟨run, hRunOf, hScore, hCount⟩ := hRun.runOf
    have hHighest := anchor_highest hRunOf
    rw [outranks_iff, hScore, hCount] at hHighest
    exact hHighest

end Best

end GrpcAsr.Media
