import GrpcAsr.Media.Reconcile

/-!
# The anchor is a run of equal words

The table of `anchor` only ever records runs that grow from nothing by `extendRun`. What
such a step keeps therefore holds of the run that `anchor` finds: its tokens have
pairwise equal keys, and its score is the number of letters in them.
-/

namespace GrpcAsr.Media

set_option autoImplicit false

def tokenKey (token : SpeechToken) : Bytes := key token.rendered

/-- The first `n` tokens of both lists exist and have the same keys. -/
structure Aligned (old fresh : List SpeechToken) (n : Nat) : Prop where
  old_le : n ≤ old.length
  fresh_le : n ≤ fresh.length
  keys : (old.take n).map tokenKey = (fresh.take n).map tokenKey

theorem Aligned.zero (old fresh : List SpeechToken) : Aligned old fresh 0 :=
  ⟨Nat.zero_le _, Nat.zero_le _, rfl⟩

theorem extendRun_aligned {old fresh : List SpeechToken} {a b : SpeechToken} {limit : Int}
    {next run : Run} (hRun : extendRun a b limit next = some run)
    (hNext : Aligned old fresh next.count) : Aligned (a :: old) (b :: fresh) run.count := by
  unfold extendRun at hRun
  dsimp only at hRun
  split at hRun
  · cases hRun
  · rename_i hMatch
    cases hRun
    simp only [not_or, not_not] at hMatch
    refine ⟨Nat.succ_le_succ hNext.old_le, Nat.succ_le_succ hNext.fresh_le, ?_⟩
    simp only [List.take_succ_cons, List.map_cons, hNext.keys, List.cons.injEq, and_true]
    exact hMatch.1

/-- The score of a run is the number of letters in its old tokens. -/
def Scored (old : List SpeechToken) (run : Run) : Prop :=
  run.score = ((old.take run.count).flatMap tokenKey).length

theorem extendRun_scored {old : List SpeechToken} {a b : SpeechToken} {limit : Int}
    {next run : Run} (hRun : extendRun a b limit next = some run) (hNext : Scored old next) :
    Scored (a :: old) run := by
  unfold extendRun at hRun
  dsimp only at hRun
  split at hRun
  · cases hRun
  · cases hRun
    simp only [Scored, List.take_succ_cons, List.flatMap_cons, List.length_append] at hNext ⊢
    rw [hNext, Nat.add_comm]
    rfl

theorem Match.consider_cases {P : Nat → Nat → Run → Prop} {best : Match} {i j : Nat}
    {candidate : Run} (hBest : P best.oldStart best.newStart best.run) (hNew : P i j candidate) :
    P (best.consider i j candidate).oldStart (best.consider i j candidate).newStart
      (best.consider i j candidate).run := by
  unfold Match.consider
  dsimp only
  split
  · exact hNew
  · split
    · split
      · exact hNew
      · split <;> exact hBest
    · exact hBest

section Table

variable {P : List SpeechToken → List SpeechToken → Run → Prop} {limit : Int}
  (hZero : ∀ old fresh, P old fresh default)
  (hExtend : ∀ (old fresh : List SpeechToken) (a b : SpeechToken) (next run : Run),
    extendRun a b limit next = some run → P old fresh next → P (a :: old) (b :: fresh) run)

/-- Every entry of a row is a run between its old list and the fresh tokens from its column on. -/
def RowHolds (P : List SpeechToken → List SpeechToken → Run → Prop) (old fresh : List SpeechToken)
    (row : List Run) : Prop :=
  ∀ j, P old (fresh.drop j) (row.getD j default)

include hZero hExtend

theorem anchorRow_holds {wholeOld wholeFresh : List SpeechToken} {token : SpeechToken} {i : Nat}
    {old : List SpeechToken} (hOld : wholeOld.drop i = token :: old)
    (fresh : List SpeechToken) (j : Nat) (next : List Run) (best : Match)
    (hFresh : wholeFresh.drop j = fresh) (hNext : RowHolds P old fresh next)
    (hBest : P (wholeOld.drop best.oldStart) (wholeFresh.drop best.newStart) best.run) :
    RowHolds P (token :: old) fresh (anchorRow token i limit fresh j next best).1 ∧
      P (wholeOld.drop (anchorRow token i limit fresh j next best).2.oldStart)
        (wholeFresh.drop (anchorRow token i limit fresh j next best).2.newStart)
        (anchorRow token i limit fresh j next best).2.run := by
  induction fresh generalizing j next with
  | nil =>
    refine ⟨fun k => ?_, hBest⟩
    have hDefault : (([default] : List Run).getD k default) = default := by cases k <;> rfl
    rw [anchorRow, hDefault]
    exact hZero _ _
  | cons t fresh ih =>
    have hTail : RowHolds P old fresh next.tail := by
      intro k
      have hShift := hNext (k + 1)
      simpa [List.getD_eq_getElem?_getD, List.getElem?_tail] using hShift
    have hRest : wholeFresh.drop (j + 1) = fresh := by
      rw [← List.drop_drop, hFresh]
      rfl
    obtain ⟨hRow, hFound⟩ := ih (j + 1) next.tail hRest hTail
    have hBehind : P old fresh (next.tail.headD default) := by
      have hFirst := hTail 0
      simpa [List.getD_eq_getElem?_getD, List.headD_eq_head?_getD, List.head?_eq_getElem?] using hFirst
    rw [anchorRow]
    cases hRun : extendRun token t limit (next.tail.headD default) with
    | none =>
      refine ⟨fun k => ?_, hFound⟩
      cases k with
      | zero => exact hZero _ _
      | succ k => exact hRow k
    | some run =>
      have hHolds := hExtend _ _ _ _ _ _ hRun hBehind
      refine ⟨fun k => ?_, ?_⟩
      · cases k with
        | zero => exact hHolds
        | succ k => exact hRow k
      · apply Match.consider_cases
          (P := fun i j run => P (wholeOld.drop i) (wholeFresh.drop j) run) hFound
        rw [hOld, hFresh]
        exact hHolds

theorem anchorTable_holds {wholeOld fresh : List SpeechToken}
    (old : List SpeechToken) (i : Nat) (hOld : wholeOld.drop i = old) :
    RowHolds P old fresh (anchorTable fresh limit old i).1 ∧
      P (wholeOld.drop (anchorTable fresh limit old i).2.oldStart)
        (fresh.drop (anchorTable fresh limit old i).2.newStart)
        (anchorTable fresh limit old i).2.run := by
  induction old generalizing i with
  | nil =>
    refine ⟨fun k => ?_, hZero _ _⟩
    have hDefault :
        (List.replicate (fresh.length + 1) (default : Run)).getD k default = default := by
      rw [List.getD_eq_getElem?_getD, List.getElem?_replicate]
      split <;> rfl
    rw [anchorTable, hDefault]
    exact hZero _ _
  | cons token old ih =>
    have hRest : wholeOld.drop (i + 1) = old := by
      rw [← List.drop_drop, hOld]
      rfl
    obtain ⟨hRow, hBest⟩ := ih (i + 1) hRest
    exact anchorRow_holds hZero hExtend hOld fresh 0 _ _ rfl hRow hBest

end Table

theorem anchor_aligned (old fresh : List SpeechToken) (endTime : Int) :
    Aligned (old.drop (anchor old fresh endTime).oldStart)
      (fresh.drop (anchor old fresh endTime).newStart) (anchor old fresh endTime).run.count :=
  (anchorTable_holds (P := fun old fresh run => Aligned old fresh run.count) Aligned.zero
    (fun _ _ _ _ _ _ hRun hNext => extendRun_aligned hRun hNext) old 0 rfl).2

theorem anchor_scored (old fresh : List SpeechToken) (endTime : Int) :
    Scored (old.drop (anchor old fresh endTime).oldStart) (anchor old fresh endTime).run :=
  (anchorTable_holds (P := fun old _ run => Scored old run) (fun _ _ => rfl)
    (fun _ _ _ _ _ _ hRun hNext => extendRun_scored hRun hNext) old 0 rfl).2

end GrpcAsr.Media
