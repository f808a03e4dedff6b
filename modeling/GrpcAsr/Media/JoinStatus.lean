import GrpcAsr.Media.JoinEvidence

/-!
# What the status of a final segment says about its tokens

A single flag carries the doubt of all pending tokens: it is set while any of them is
tainted, so whatever finalises one says UNRESOLVED. No such flag remembers an alignment,
and a tail that an aligned join left pending is flushed as DIRECT.
-/

namespace GrpcAsr.Media

open Emitting

set_option autoImplicit false

namespace Reconciler

/-- The call flushes what is pending without a competing join: it finds nothing to align,
or it finishes. -/
def flushes (r : Reconciler) : ReconcileCall → Bool
  | .finish => !r.closed
  | .accept h overlap =>
    match r.checked h overlap with
    | none => false
    | some c => r.joinOf h c = .flush

theorem open_of_flushes {r : Reconciler} {call : ReconcileCall} (hFlushes : r.flushes call = true) :
    r.closed = false := by
  cases call with
  | finish => simpa [flushes] using hFlushes
  | accept h overlap =>
    cases hChecked : r.checked h overlap with
    | none => simp [flushes, hChecked] at hFlushes
    | some c => exact (checked_some hChecked).1

/-- A parcel is the flushed tail, one side of an unsafe join, or a part of what a join keeps. -/
theorem Tracked.parcel_cases {r : Reconciler} {held : List MarkedToken} (hTracked : Tracked r held)
    {env : ReconcileEnv} {call : ReconcileCall} {p : TranscriptSegment × List MarkedToken}
    (hp : p ∈ r.parcels env held call) :
    (r.flushes call = true ∧ p.2 = held ∧ p.1.reconciliation = r.flushStatus) ∨
    p.1.reconciliation = .unresolved ∨
    ∃ h overlap c n, call = .accept h overlap ∧ r.checked h overlap = some c ∧
      p.2 = ((r.joinOf h c).kept r h held).take n ∧
      p.1.reconciliation = stableStatus c (r.joinOf h c) ((r.joinOf h c).uncertain r) := by
  cases hClosed : r.closed with
  | true =>
    rw [parcels_closed env hClosed held call] at hp
    cases hp
  | false =>
    have hHeld := hTracked.renderable hClosed
    have hPending := hTracked.pending hClosed
    have hMem := List.mem_map_of_mem (f := fun p : TranscriptSegment × List MarkedToken =>
      (p.2, p.1.reconciliation)) hp
    cases call with
    | finish =>
      rw [finish_parcels env hClosed hHeld hPending] at hMem
      split at hMem
      · cases hMem
      · rw [List.mem_singleton, Prod.mk.injEq] at hMem
        exact .inl ⟨by simp [flushes, hClosed], hMem⟩
    | accept h overlap =>
      cases hChecked : r.checked h overlap with
      | none =>
        rw [parcels_unchecked env hChecked held] at hp
        cases hp
      | some c =>
        obtain ⟨n, given, kept, spacing, hParcels, hGiven, hKept, -⟩ :=
          accept_parcels env hHeld hPending hChecked
        rw [hParcels] at hp
        rcases List.mem_append.mp hp with hFirst | hSecond
        · have hFlushed := List.mem_map_of_mem (f := fun p : TranscriptSegment × List MarkedToken =>
            (p.2, p.1.reconciliation)) hFirst
          rw [hGiven] at hFlushed
          cases hJoin : r.joinOf h c with
          | start | aligned merged =>
            rw [hJoin] at hFlushed
            cases hFlushed
          | unresolved =>
            rw [hJoin, Join.flushed, List.map_singleton, List.mem_singleton, Prod.mk.injEq] at hFlushed
            exact .inr (.inl hFlushed.2)
          | flush =>
            rw [hJoin, Join.flushed, List.map_singleton, List.mem_singleton, Prod.mk.injEq] at hFlushed
            exact .inl ⟨by simp [flushes, hChecked, hJoin], hFlushed⟩
        · obtain ⟨hTokens, hStatus⟩ := hKept p hSecond
          exact .inr (.inr ⟨h, overlap, c, n, rfl, hChecked, hTokens, hStatus⟩)

/-- A flush hands out the tail even if the callback throws. -/
theorem Tracked.flushes_parcel {r : Reconciler} {held : List MarkedToken} (hTracked : Tracked r held)
    (env : ReconcileEnv) {call : ReconcileCall} (hFlushes : r.flushes call = true) (hSome : held ≠ []) :
    ∃ p ∈ r.parcels env held call, p.2 = held ∧ p.1.reconciliation = r.flushStatus := by
  have hMap : (held, r.flushStatus) ∈
      (r.parcels env held call).map (fun p => (p.2, p.1.reconciliation)) := by
    cases call with
    | finish =>
      have hOpen : r.closed = false := by simpa [flushes] using hFlushes
      rw [finish_parcels env hOpen (hTracked.renderable hOpen) (hTracked.pending hOpen), if_neg hSome]
      exact List.mem_singleton.mpr rfl
    | accept h overlap =>
      rw [flushes] at hFlushes
      cases hChecked : r.checked h overlap with
      | none =>
        rw [hChecked] at hFlushes
        cases hFlushes
      | some c =>
        rw [hChecked] at hFlushes
        have hJoin : r.joinOf h c = .flush := of_decide_eq_true hFlushes
        obtain ⟨hOpen, -⟩ := checked_some hChecked
        obtain ⟨n, given, kept, spacing, hParcels, hGiven, -, -⟩ :=
          accept_parcels env (hTracked.renderable hOpen) (hTracked.pending hOpen) hChecked
        rw [hParcels, List.map_append, hGiven, hJoin]
        exact List.mem_append_left _ (List.mem_singleton.mpr rfl)
  obtain ⟨p, hp, hEq⟩ := List.mem_map.mp hMap
  obtain ⟨hTokens, hStatus⟩ := Prod.mk.injEq _ _ _ _ ▸ hEq
  exact ⟨p, hp, hTokens, hStatus⟩

theorem marked_mark {h : SpeechHypothesis} {p : MarkedToken} (hp : p ∈ h.marked) :
    p.2 = ⟨h.mistimed, false⟩ := by
  obtain ⟨token, -, rfl⟩ := List.mem_map.mp hp
  rfl

/-- A tainted token behind a join was in doubt before it or is in doubt because of it. -/
theorem kept_tainted {join : Join} {r : Reconciler} {h : SpeechHypothesis} {held : List MarkedToken}
    {p : MarkedToken} (hp : p ∈ join.kept r h held) (hTainted : p.2.tainted = true) :
    join.status = .unresolved ∨ h.mistimed = true ∨
      join.uncertain r = r.uncertain ∧ ∃ q ∈ held, q.2.tainted = true := by
  cases join with
  | start | flush =>
    rw [marked_mark hp] at hTainted
    exact .inr (.inl hTainted)
  | unresolved => exact .inl rfl
  | aligned merged =>
    obtain ⟨q, hq, rfl⟩ := List.mem_map.mp hp
    rcases List.mem_append.mp hq with hOld | hNew
    · exact .inr (.inr ⟨rfl, q, List.mem_of_mem_take hOld, hTainted⟩)
    · have hMark := marked_mark (List.mem_of_mem_drop hNew)
      rw [align, hMark] at hTainted
      exact .inr (.inl hTainted)

/-- The flag is set while a tainted token is pending. -/
structure Doubted (r : Reconciler) (held : List MarkedToken) : Prop where
  tracked : Tracked r held
  uncertain : r.closed = false → ∀ p ∈ held, p.2.tainted = true → r.uncertain = true

/-- A parcel with a tainted token says so. -/
def Honest (p : TranscriptSegment × List MarkedToken) : Prop :=
  (∃ token ∈ p.2, token.2.tainted = true) → p.1.reconciliation = .unresolved

variable {r : Reconciler} {held : List MarkedToken}

theorem Doubted.flushStatus (hDoubted : Doubted r held) (hOpen : r.closed = false)
    (hTainted : ∃ token ∈ held, token.2.tainted = true) : r.flushStatus = .unresolved := by
  obtain ⟨token, hToken, hMark⟩ := hTainted
  rw [Reconciler.flushStatus, if_pos (hDoubted.uncertain hOpen token hToken hMark)]

theorem Doubted.stableStatus (hDoubted : Doubted r held) {h : SpeechHypothesis} {overlap : Nat}
    {c : Collected} (hChecked : r.checked h overlap = some c) {p : MarkedToken}
    (hp : p ∈ (r.joinOf h c).kept r h held) (hTainted : p.2.tainted = true) :
    Reconciler.stableStatus c (r.joinOf h c) ((r.joinOf h c).uncertain r) = .unresolved := by
  obtain ⟨hOpen, hCollect⟩ := checked_some hChecked
  unfold Reconciler.stableStatus
  rcases kept_tainted hp hTainted with hStatus | hMistimed | ⟨hSame, q, hq, hOld⟩
  · rw [hStatus]
    split <;> rfl
  · rw [collect_timing hCollect, hMistimed]
    rfl
  · rw [hSame, hDoubted.uncertain hOpen q hq hOld, Bool.or_true]
    rfl

theorem Doubted.call (hDoubted : Doubted r held) (env : ReconcileEnv) (call : ReconcileCall) :
    Doubted (r.call env call).state (r.remaining env held call) := by
  refine ⟨hDoubted.tracked.call env call, fun hOpen p hp hTainted => ?_⟩
  obtain ⟨h, overlap, c, rfl, hChecked, hOk⟩ := call_open hOpen
  obtain ⟨hBefore, hCollect⟩ := checked_some hChecked
  have hPending := hDoubted.tracked.pending hBefore
  obtain ⟨n, given, kept, spacing, -, -, -, hDone⟩ :=
    accept_parcels env (hDoubted.tracked.renderable hBefore) hPending hChecked
  obtain ⟨hRemaining, hLeaves⟩ := hDone hOk
  rw [hRemaining] at hp
  have hSome : ((r.joinOf h c).tokens c.fresh).drop n ≠ [] := by
    rw [← joinOf_kept_fst hPending hCollect, ← List.map_drop]
    exact fun hNil => List.ne_nil_of_mem hp (List.map_eq_nil_iff.mp hNil)
  have hStatus := hDoubted.stableStatus hChecked (List.mem_of_mem_drop hp) hTainted
  rw [show (r.call env (.accept h overlap)).state.uncertain = _ from hLeaves.uncertain, hStatus]
  simpa using hSome

theorem Doubted.honest (hDoubted : Doubted r held) (env : ReconcileEnv) (call : ReconcileCall) :
    ∀ p ∈ r.parcels env held call, Honest p := by
  rintro p hp ⟨token, hToken, hTainted⟩
  have hOpen : r.closed = false := by
    rw [← Bool.not_eq_true]
    intro hClosed
    rw [parcels_closed env hClosed held call] at hp
    cases hp
  rcases hDoubted.tracked.parcel_cases hp with ⟨-, hTokens, hStatus⟩ | hStatus |
    ⟨h, overlap, c, n, rfl, hChecked, hTokens, hStatus⟩
  · rw [hTokens] at hToken
    exact hStatus.trans (hDoubted.flushStatus hOpen ⟨token, hToken, hTainted⟩)
  · exact hStatus
  · rw [hTokens] at hToken
    exact hStatus.trans (hDoubted.stableStatus hChecked (List.mem_of_mem_take hToken) hTainted)

end Reconciler

/-- In every run, a final segment made of a token in doubt says UNRESOLVED. -/
theorem uncertainty_never_laundered (env : ReconcileEnv) (calls : List ReconcileCall) :
    (Reconciler.evidence env calls).map Prod.fst =
        finals (handed (runThrough (Reconciler.call env) Reconciler.initial calls).2) ∧
      ∀ p ∈ Reconciler.evidence env calls,
        List.Forall₂ Separated (p.2.map Prod.fst) p.1.tokens ∧
          ((∃ token ∈ p.2, token.2.tainted = true) → p.1.reconciliation = .unresolved) := by
  have hHonest : ∀ p ∈ Reconciler.evidence env calls, Reconciler.Honest p := by
    have hNone : ∀ p ∈ ([] : List (TranscriptSegment × List MarkedToken)), Reconciler.Honest p :=
      fun _ hNil => nomatch hNil
    have hStart : Reconciler.Doubted Reconciler.initial [] :=
      ⟨Reconciler.Tracked.initial, fun _ _ hNil => nomatch hNil⟩
    obtain ⟨r, held, -, hDone⟩ := Dealing.trail_keeps
      (P := fun r held done => Reconciler.Doubted r held ∧ ∀ p ∈ done, Reconciler.Honest p)
      (fun (call : ReconcileCall) (_ : call ∈ calls) _ _ _ hBefore => ⟨hBefore.1.call env call,
        List.forall_mem_append.mpr ⟨hBefore.2, hBefore.1.honest env call⟩⟩)
      ⟨hStart, hNone⟩
    exact hDone
  exact ⟨Reconciler.evidence_fst env calls, fun p hp =>
    ⟨Reconciler.evidence_separated env calls p hp, hHonest p hp⟩⟩

namespace Reconciler

/-- The call joins its window to the pending tokens by alignment. -/
def aligns (r : Reconciler) : ReconcileCall → Bool
  | .finish => false
  | .accept h overlap =>
    match r.checked h overlap with
    | none => false
    | some c => (r.joinOf h c).status = .aligned

/-- A call does not flush, as it stands, what the aligned join of the call before left pending. -/
def LeavesAligned (aligned : Bool) (r : Reconciler) (call : ReconcileCall) : Prop :=
  aligned = true → r.flushes call = true → r.pending = [] ∨ r.uncertain = true

/-- All pending tokens, or none, have been through an aligned join. -/
structure Labelled (r : Reconciler) (held : List MarkedToken) (aligned : Bool) : Prop where
  tracked : Tracked r held
  joined : r.closed = false → ∀ p ∈ held, p.2.joined = aligned

/-- A parcel that says DIRECT holds no token of an aligned join. -/
def Direct (p : TranscriptSegment × List MarkedToken) : Prop :=
  p.1.reconciliation = .direct → ∀ token ∈ p.2, token.2.joined = false

theorem kept_joined {join : Join} {r : Reconciler} {h : SpeechHypothesis} {held : List MarkedToken}
    {p : MarkedToken} (hp : p ∈ join.kept r h held) :
    p.2.joined = decide (join.status = .aligned) := by
  cases join with
  | start | flush =>
    rw [marked_mark hp]
    rfl
  | unresolved =>
    obtain ⟨q, hq, rfl⟩ := List.mem_map.mp hp
    rw [doubt, marked_mark hq]
    rfl
  | aligned merged =>
    obtain ⟨q, hq, rfl⟩ := List.mem_map.mp hp
    rfl

theorem Labelled.call {r : Reconciler} {held : List MarkedToken} {aligned : Bool}
    (hLabelled : Labelled r held aligned) (env : ReconcileEnv) (call : ReconcileCall) :
    Labelled (r.call env call).state (r.remaining env held call) (r.aligns call) := by
  refine ⟨hLabelled.tracked.call env call, fun hOpen p hp => ?_⟩
  obtain ⟨h, overlap, c, rfl, hChecked, hOk⟩ := call_open hOpen
  obtain ⟨hBefore, -⟩ := checked_some hChecked
  obtain ⟨n, given, kept, spacing, -, -, -, hDone⟩ := accept_parcels env
    (hLabelled.tracked.renderable hBefore) (hLabelled.tracked.pending hBefore) hChecked
  rw [(hDone hOk).1] at hp
  rw [kept_joined (List.mem_of_mem_drop hp), aligns, hChecked]

/-- The parcels of a call are labelled right exactly if it leaves an aligned tail alone. -/
theorem Labelled.direct_iff {r : Reconciler} {held : List MarkedToken} {aligned : Bool}
    (hLabelled : Labelled r held aligned) (env : ReconcileEnv) (call : ReconcileCall) :
    (∀ p ∈ r.parcels env held call, Direct p) ↔ LeavesAligned aligned r call := by
  constructor
  · intro hDirect hAligned hFlushes
    have hOpen := open_of_flushes hFlushes
    by_contra hLeft
    rw [not_or, Bool.not_eq_true] at hLeft
    have hSome : held ≠ [] := by
      rintro rfl
      exact hLeft.1 (hLabelled.tracked.pending hOpen).symm
    obtain ⟨p, hp, hTokens, hStatus⟩ := hLabelled.tracked.flushes_parcel env hFlushes hSome
    obtain ⟨token, hToken⟩ := List.exists_mem_of_ne_nil held hSome
    have hFlush : r.flushStatus = .direct := by
      rw [flushStatus, if_neg (by simp [hLeft.2])]
    have hNot := hDirect p hp (hStatus.trans hFlush) token (by rw [hTokens]; exact hToken)
    rw [hLabelled.joined hOpen token hToken, hAligned] at hNot
    cases hNot
  · intro hLeaves p hp hStatus token hToken
    rcases hLabelled.tracked.parcel_cases hp with ⟨hFlushes, hTokens, hSame⟩ | hUnresolved |
      ⟨h, overlap, c, n, rfl, hChecked, hTokens, hSame⟩
    · have hOpen := open_of_flushes hFlushes
      rw [hTokens] at hToken
      rw [hLabelled.joined hOpen token hToken]
      cases aligned with
      | false => rfl
      | true =>
        rcases hLeaves rfl hFlushes with hNone | hUncertain
        · rw [← hLabelled.tracked.pending hOpen, List.map_eq_nil_iff] at hNone
          rw [hNone] at hToken
          cases hToken
        · rw [hSame, flushStatus, if_pos hUncertain] at hStatus
          cases hStatus
    · rw [hUnresolved] at hStatus
      cases hStatus
    · rw [hTokens] at hToken
      rw [kept_joined (List.mem_of_mem_take hToken)]
      rw [hSame, stableStatus] at hStatus
      split at hStatus
      · cases hStatus
      · rw [hStatus]
        rfl

end Reconciler

/-- The final segments of a run that say DIRECT hold no token of an aligned join exactly if
no tail that such a join leaves pending, and not in doubt, is flushed by the next call. -/
theorem direct_unaligned_iff (env : ReconcileEnv) (calls : List ReconcileCall) :
    (∀ p ∈ Reconciler.evidence env calls,
        p.1.reconciliation = .direct → ∀ token ∈ p.2, token.2.joined = false) ↔
      (Dealing.visited (Reconciler.call env) Reconciler.initial calls).IsChain
        fun a b => a.1.aligns a.2 = true → b.1.flushes b.2 = true →
          b.1.pending = [] ∨ b.1.uncertain = true := by
  have hIff := Dealing.trail_iff (I := Reconciler.Labelled) (P := Reconciler.Direct)
    (C := Reconciler.LeavesAligned) (fun _ _ _ call h => h.call env call)
    (fun _ _ _ call h => h.direct_iff env call) calls Reconciler.initial [] false
    ⟨Reconciler.Tracked.initial, fun _ _ hNone => nomatch hNone⟩
  refine hIff.trans ⟨fun h => h.2, fun h => ⟨fun _ _ _ hFalse => (nomatch hFalse), h⟩⟩

/-- The second window is aligned, and all of it still overlaps a window to come. -/
def alignedTail : List ReconcileCall :=
  [.accept (heardWindow 1 0 0 [spoken "hello" 0 400000, spoken " world" 1200000 1500000]) 16000,
   .accept (heardWindow 2 16000 32000
     [spoken " world" 1210000 1500000, spoken " again" 2000000 2500000]) 28800,
   .finish]

theorem aligned_tail_direct :
    ∃ p ∈ Reconciler.evidence quietEnv alignedTail,
      p.1.reconciliation = .direct ∧ p.1.text = ascii " world again" ∧
        ∃ token ∈ p.2, token.2.joined = true := by
  decide +kernel

end GrpcAsr.Media
