import GrpcAsr.Media.FinalSegments

/-!
# The evidence behind a final segment

Each token carries marks through a run: whether its window or a join around it left it in
doubt, and whether an aligned join took part in the list it was pending in. The trail of a
run gives every final segment the marked tokens it was made of.
-/

namespace GrpcAsr.Media

open Emitting

set_option autoImplicit false

structure Mark where
  tainted : Bool
  joined : Bool
  deriving DecidableEq

abbrev MarkedToken := SpeechToken × Mark

def doubt (p : MarkedToken) : MarkedToken := (p.1, { p.2 with tainted := true })

def align (p : MarkedToken) : MarkedToken := (p.1, { p.2 with joined := true })

/-- Some lexical token is timed outside the window. -/
def SpeechHypothesis.mistimed (h : SpeechHypothesis) : Bool :=
  h.lexical.any fun token => token.outside h.windowStart h.windowEnd

def SpeechHypothesis.marked (h : SpeechHypothesis) : List MarkedToken :=
  h.fitted.map fun token => (token, ⟨h.mistimed, false⟩)

/-- The marked tokens that a join hands out. -/
def Join.given (held : List MarkedToken) : Join → List MarkedToken
  | .flush => held
  | .unresolved => held.map doubt
  | _ => []

/-- The marked tokens that are pending after a join. -/
def Join.kept (r : Reconciler) (h : SpeechHypothesis) (held : List MarkedToken) :
    Join → List MarkedToken
  | .aligned _ =>
    let found := anchor r.pending h.fitted r.endTime
    (held.take found.oldStart ++
      h.marked.drop (if found.oldStart = 0 then 0 else found.newStart)).map align
  | .unresolved => h.marked.map doubt
  | _ => h.marked

namespace Reconciler

/-- The marked tokens a call works through. -/
def line (r : Reconciler) (held : List MarkedToken) : ReconcileCall → List MarkedToken
  | .finish => held
  | .accept h overlap =>
    match r.checked h overlap with
    | none => held
    | some c => (r.joinOf h c).given held ++ (r.joinOf h c).kept r h held

def tokenCount (segment : TranscriptSegment) : Nat := segment.tokens.length

def parcels (env : ReconcileEnv) : Reconciler → List MarkedToken → ReconcileCall →
    List (TranscriptSegment × List MarkedToken) :=
  Dealing.parcels (Reconciler.call env) line TranscriptSegment.final tokenCount

def remaining (env : ReconcileEnv) : Reconciler → List MarkedToken → ReconcileCall → List MarkedToken :=
  Dealing.remaining (Reconciler.call env) line TranscriptSegment.final tokenCount

/-- The final segments of a run, each with the marked tokens it was made of. -/
def evidence (env : ReconcileEnv) (calls : List ReconcileCall) :
    List (TranscriptSegment × List MarkedToken) :=
  Dealing.trail (Reconciler.call env) line TranscriptSegment.final tokenCount initial [] calls

end Reconciler

theorem doubt_fst (tokens : List MarkedToken) :
    (tokens.map doubt).map Prod.fst = tokens.map Prod.fst := by
  rw [List.map_map]
  rfl

theorem align_fst (tokens : List MarkedToken) :
    (tokens.map align).map Prod.fst = tokens.map Prod.fst := by
  rw [List.map_map]
  rfl

theorem marked_fst (h : SpeechHypothesis) : h.marked.map Prod.fst = h.fitted := by
  rw [SpeechHypothesis.marked, List.map_map]
  exact List.map_id _

theorem collect_fresh {h : SpeechHypothesis} {c : Collected} (hOk : collect h = .ok c) :
    c.fresh = h.fitted := (collect_ok hOk).1

/-- A flag that each step may only set is set by some step. -/
theorem foldlM_any {α β : Type} {f : β → α → Except Failure β} {q : β → Bool} {sets : α → Bool}
    {xs : List α} {c c' : β} (hOk : xs.foldlM f c = .ok c')
    (hStep : ∀ c x c', f c x = .ok c' → q c' = (q c || sets x)) : q c' = (q c || xs.any sets) := by
  induction xs generalizing c with
  | nil =>
    cases hOk
    rw [List.any_nil, Bool.or_false]
  | cons x xs ih =>
    rw [List.foldlM_cons] at hOk
    obtain ⟨next, hFirst, hRest⟩ := bind_eq_ok hOk
    rw [ih hRest, hStep c x next hFirst, List.any_cons, Bool.or_assoc]

theorem collectToken_timing {low high : Int} {c c' : Collected} {token : SpeechToken}
    (hOk : collectToken low high c token = .ok c') :
    c'.invalidTiming = (c.invalidTiming || (decide (token.kind ≠ .control) && token.outside low high)) := by
  unfold collectToken at hOk
  split at hOk
  · rename_i hControl
    cases hOk
    simp [hControl]
  · rename_i hLexical
    split at hOk
    · cases hOk
    · split at hOk
      · cases hOk
      · cases hOk
        simp [hLexical]

theorem collectSegment_timing {h : SpeechHypothesis} {c c' : Collected} {segment : TranscriptSegment}
    (hOk : collectSegment h c segment = .ok c') :
    c'.invalidTiming = (c.invalidTiming ||
      segment.lexical.any fun token => token.outside h.windowStart h.windowEnd) := by
  unfold collectSegment at hOk
  split at hOk
  · cases hOk
  · dsimp only at hOk
    split at hOk
    · cases hOk
    · rename_i next hTokens
      split at hOk
      · cases hOk
      · cases hOk
        have hAny := foldlM_any (q := Collected.invalidTiming) hTokens
          fun _ _ _ hToken => collectToken_timing hToken
        rw [hAny, TranscriptSegment.lexical, List.any_filter]
        split <;> rfl

/-- The timing flag of a collected hypothesis is set by a mistimed lexical token only. -/
theorem collect_timing {h : SpeechHypothesis} {c : Collected} (hOk : collect h = .ok c) :
    c.invalidTiming = h.mistimed := by
  have hAny := foldlM_any (q := Collected.invalidTiming) hOk
    fun _ _ _ hSegment => collectSegment_timing hSegment
  rw [hAny, SpeechHypothesis.mistimed, SpeechHypothesis.lexical, List.any_flatMap]
  rfl

/-- A join flushes all that is held or nothing. -/
theorem Join.flushed_cases (join : Join) (r : Reconciler) (held : List MarkedToken) :
    join.flushed r = [] ∨
      ∃ status, join.flushed r = [(r.pending, status)] ∧ (join.given held).length = held.length := by
  cases join with
  | start | aligned merged => exact .inl rfl
  | flush => exact .inr ⟨_, rfl, rfl⟩
  | unresolved => exact .inr ⟨_, rfl, List.length_map _⟩

namespace Reconciler

theorem Finalises.count {spacing : Spacing} {source : List SpeechToken} {status : ReconciliationStatus}
    {segment : TranscriptSegment} (h : Finalises spacing source status segment) :
    tokenCount segment = source.length := h.separated.length_eq.symm

/-- The parcels of rendered parts hold the tokens of the parts. -/
theorem Renders.dealt {first last : Spacing} {parts : List (List SpeechToken × ReconciliationStatus)}
    {segments : List TranscriptSegment} (h : Renders first parts segments last)
    (tokens : List MarkedToken) (hTokens : parts.flatMap Prod.fst <+: tokens.map Prod.fst) :
    (Dealing.deal tokenCount segments tokens).map (fun p => (p.2.map Prod.fst, p.1.reconciliation)) =
        parts ∧
      Dealing.undealt tokenCount segments tokens = tokens.drop (parts.flatMap Prod.fst).length := by
  induction h generalizing tokens with
  | nil => exact ⟨rfl, rfl⟩
  | @cons spacing last source status segment parts segments hFirst _ ih =>
    obtain ⟨rest, hRest⟩ := hTokens
    rw [List.flatMap_cons, List.append_assoc] at hRest
    have hTake : (tokens.take source.length).map Prod.fst = source := by
      rw [List.map_take, ← hRest, List.take_left]
    have hDrop : (tokens.drop source.length).map Prod.fst = parts.flatMap Prod.fst ++ rest := by
      rw [List.map_drop, ← hRest, List.drop_left]
    obtain ⟨hParts, hLeft⟩ := ih (tokens.drop source.length) ⟨rest, hDrop.symm⟩
    refine ⟨?_, ?_⟩
    · rw [Dealing.deal, hFirst.count, List.map_cons, hParts, hTake, hFirst.status]
    · rw [← List.singleton_append, Dealing.undealt_append, Dealing.undealt_singleton, hFirst.count, hLeft,
        List.drop_drop, List.flatMap_cons, List.length_append]

theorem Renders.dealt_single {first last : Spacing} {source : List SpeechToken}
    {status : ReconciliationStatus} {segments : List TranscriptSegment}
    (h : Renders first [(source, status)] segments last) (tokens : List MarkedToken) :
    ∃ segment, Dealing.deal tokenCount segments tokens = [(segment, tokens.take source.length)] ∧
      segment.reconciliation = status := by
  cases h with
  | cons hFinal hNil =>
    cases hNil
    exact ⟨_, by rw [Dealing.deal_singleton, hFinal.count], hFinal.status⟩

section Joined

variable {r : Reconciler} {held : List MarkedToken} {h : SpeechHypothesis} {c : Collected}

theorem joinOf_given_fst (hPending : held.map Prod.fst = r.pending) :
    ((r.joinOf h c).given held).map Prod.fst = ((r.joinOf h c).flushed r).flatMap Prod.fst := by
  cases r.joinOf h c with
  | start | aligned merged => rfl
  | flush | unresolved =>
    simp only [Join.given, Join.flushed, doubt_fst, hPending, List.flatMap_cons, List.flatMap_nil,
      List.append_nil]

theorem joinOf_kept_fst (hPending : held.map Prod.fst = r.pending) (hCollect : collect h = .ok c) :
    ((r.joinOf h c).kept r h held).map Prod.fst = (r.joinOf h c).tokens c.fresh := by
  have hFresh := collect_fresh hCollect
  cases hJoin : r.joinOf h c with
  | start | flush | unresolved => simp only [Join.kept, Join.tokens, doubt_fst, marked_fst, hFresh]
  | aligned merged =>
    obtain ⟨-, -, rfl⟩ := joinOf_merge hJoin
    simp only [Join.kept, Join.tokens, merge, align_fst, List.map_append, List.map_take, List.map_drop,
      hPending, marked_fst, hFresh]

/-- One call in terms of marked tokens: what the join gives away, then a part of what it keeps. -/
theorem accept_parcels (env : ReconcileEnv) (hHeld : r.Renderable)
    (hPending : held.map Prod.fst = r.pending) {overlap : Nat} (hChecked : r.checked h overlap = some c) :
    ∃ n given kept spacing,
      r.parcels env held (.accept h overlap) = given ++ kept ∧
      given.map (fun p => (p.2, p.1.reconciliation)) =
        ((r.joinOf h c).flushed r).map (fun part => ((r.joinOf h c).given held, part.2)) ∧
      (∀ p ∈ kept, p.2 = ((r.joinOf h c).kept r h held).take n ∧
        p.1.reconciliation = stableStatus c (r.joinOf h c) ((r.joinOf h c).uncertain r)) ∧
      ((r.accept env h overlap).error = none →
        r.remaining env held (.accept h overlap) = ((r.joinOf h c).kept r h held).drop n ∧
        (r.accept env h overlap).state.Leaves (((r.joinOf h c).tokens c.fresh).drop n)
          (stableStatus c (r.joinOf h c) ((r.joinOf h c).uncertain r)) spacing) := by
  obtain ⟨-, hCollect⟩ := checked_some hChecked
  obtain ⟨n, stable, spacing, hRenders, hCases, hDone⟩ := accept_finals env hHeld hChecked
  obtain ⟨x, y, middle, hSplit, hFirst, hSecond⟩ := hRenders.split
  have hLine : r.line held (.accept h overlap) =
      (r.joinOf h c).given held ++ (r.joinOf h c).kept r h held := by
    rw [line, hChecked]
  have hGiven := @joinOf_given_fst r held h c hPending
  have hKept := joinOf_kept_fst hPending hCollect
  have hUndealt : Dealing.undealt tokenCount x
      ((r.joinOf h c).given held ++ (r.joinOf h c).kept r h held) = (r.joinOf h c).kept r h held := by
    rw [(hFirst.dealt _ ⟨_, by rw [List.map_append, hGiven]⟩).2, ← hGiven, List.length_map,
      List.drop_left]
  have hFlushed : (Dealing.deal tokenCount x
        ((r.joinOf h c).given held ++ (r.joinOf h c).kept r h held)).map
          (fun p => (p.2, p.1.reconciliation)) =
      ((r.joinOf h c).flushed r).map (fun part => ((r.joinOf h c).given held, part.2)) := by
    rcases (r.joinOf h c).flushed_cases r held with hNone | ⟨status, hOne, hLength⟩
    · rw [hNone] at hFirst ⊢
      cases hFirst
      rfl
    · rw [hOne] at hFirst ⊢
      obtain ⟨segment, hDeal, rfl⟩ := hFirst.dealt_single
        ((r.joinOf h c).given held ++ (r.joinOf h c).kept r h held)
      rw [hDeal, ← hPending, List.length_map, ← hLength, List.take_left]
      rfl
  have hStable : ∀ p ∈ Dealing.deal tokenCount y ((r.joinOf h c).kept r h held),
      p.2 = ((r.joinOf h c).kept r h held).take n ∧
        p.1.reconciliation = stableStatus c (r.joinOf h c) ((r.joinOf h c).uncertain r) := by
    rcases hCases with rfl | rfl
    · cases hSecond
      exact fun p hNone => nomatch hNone
    · obtain ⟨segment, hDeal, hStatus⟩ := hSecond.dealt_single ((r.joinOf h c).kept r h held)
      intro p hp
      rw [hDeal, List.mem_singleton] at hp
      rw [hp, ← hKept, ← List.map_take, List.length_map, List.length_take]
      exact ⟨List.take_eq_take_min.symm, hStatus⟩
  refine ⟨n, Dealing.deal tokenCount x _, Dealing.deal tokenCount y _, spacing, ?_, hFlushed, hStable,
    fun hOk => ⟨?_, (hDone hOk).2⟩⟩
  · change Dealing.deal tokenCount (finals (r.accept env h overlap).emitted) _ = _
    rw [hSplit, hLine, Dealing.deal_append, hUndealt]
  · have hTaken := (hDone hOk).1
    have hLeft := (hSecond.dealt _ ⟨_, by rw [hTaken, hKept, List.take_append_drop]⟩).2
    change Dealing.undealt tokenCount (finals (r.accept env h overlap).emitted) _ = _
    rw [hSplit, hLine, Dealing.undealt_append, hUndealt, hLeft, hTaken, ← hKept, ← List.map_take,
      List.length_map]
    simp

theorem finish_parcels (env : ReconcileEnv) (hOpen : r.closed = false) (hHeld : r.Renderable)
    (hPending : held.map Prod.fst = r.pending) :
    (r.parcels env held .finish).map (fun p => (p.2, p.1.reconciliation)) =
      if held = [] then [] else [(held, r.flushStatus)] := by
  obtain ⟨spacing, hRenders⟩ := finish_finals env hOpen hHeld
  have hEmpty : r.pending = [] ↔ held = [] := by
    rw [← hPending, List.map_eq_nil_iff]
  change (Dealing.deal tokenCount (finals (r.finish env).emitted) held).map _ = _
  by_cases hNone : held = []
  · rw [if_pos (hEmpty.mpr hNone)] at hRenders
    rw [if_pos hNone]
    generalize finals (r.finish env).emitted = segments at hRenders
    cases hRenders
    rfl
  · rw [if_neg (fun hNil => hNone (hEmpty.mp hNil))] at hRenders
    obtain ⟨segment, hDeal, hStatus⟩ := hRenders.dealt_single held
    rw [if_neg hNone, hDeal, ← hPending, List.length_map, List.take_length, List.map_singleton, hStatus]

/-- The parts of a call are the front of the tokens it works through. -/
theorem accept_starts_parts (hPending : held.map Prod.fst = r.pending) {overlap : Nat}
    (hChecked : r.checked h overlap = some c) {n : Nat}
    {stable : List (List SpeechToken × ReconciliationStatus)} {status : ReconciliationStatus}
    (hCases : stable = [] ∨ stable = [(((r.joinOf h c).tokens c.fresh).take n, status)]) :
    ((r.joinOf h c).flushed r ++ stable).flatMap Prod.fst <+:
      (r.line held (.accept h overlap)).map Prod.fst := by
  obtain ⟨-, hCollect⟩ := checked_some hChecked
  rw [line, hChecked, List.map_append, List.flatMap_append, joinOf_given_fst hPending,
    joinOf_kept_fst hPending hCollect, List.prefix_append_right_inj]
  rcases hCases with rfl | rfl
  · exact List.nil_prefix
  · simpa using List.take_prefix n _

end Joined

/-- The marked tokens held are the pending ones for as long as the reconciler is open. -/
structure Tracked (r : Reconciler) (held : List MarkedToken) : Prop where
  renderable : r.Held
  pending : r.closed = false → held.map Prod.fst = r.pending

theorem Tracked.initial : Tracked initial [] := ⟨fun _ => ⟨[], [], rfl, rfl⟩, fun _ => rfl⟩

theorem call_open {env : ReconcileEnv} {r : Reconciler} {call : ReconcileCall}
    (hOpen : (r.call env call).state.closed = false) :
    ∃ h overlap c, call = .accept h overlap ∧ r.checked h overlap = some c ∧
      (r.accept env h overlap).error = none := by
  have hOk : (r.call env call).error = none := by
    rw [← Option.not_isSome_iff_eq_none]
    intro hFailed
    rw [call_fails env r call hFailed] at hOpen
    cases hOpen
  cases call with
  | finish =>
    rw [show (r.call env .finish).state.closed = true from finish_closed env r] at hOpen
    cases hOpen
  | accept h overlap =>
    cases hChecked : r.checked h overlap with
    | none => exact absurd hOk (accept_unchecked env hChecked).2
    | some c => exact ⟨h, overlap, c, rfl, hChecked, hOk⟩

theorem Tracked.call {r : Reconciler} {held : List MarkedToken} (hTracked : Tracked r held)
    (env : ReconcileEnv) (call : ReconcileCall) :
    Tracked (r.call env call).state (r.remaining env held call) := by
  refine ⟨call_held env r call, fun hOpen => ?_⟩
  obtain ⟨h, overlap, c, rfl, hChecked, hOk⟩ := call_open hOpen
  obtain ⟨hBefore, hCollect⟩ := checked_some hChecked
  have hPending := hTracked.pending hBefore
  obtain ⟨n, given, kept, spacing, -, -, -, hDone⟩ :=
    accept_parcels env (hTracked.renderable hBefore) hPending hChecked
  obtain ⟨hRemaining, hLeaves⟩ := hDone hOk
  rw [hRemaining, List.map_drop, joinOf_kept_fst hPending hCollect]
  exact hLeaves.pending.symm

theorem parcels_closed (env : ReconcileEnv) {r : Reconciler} (hClosed : r.closed = true)
    (held : List MarkedToken) (call : ReconcileCall) : r.parcels env held call = [] := by
  change Dealing.deal tokenCount (finals (r.call env call).emitted) _ = _
  rw [(call_dead env r call hClosed).2.2]
  rfl

theorem parcels_unchecked (env : ReconcileEnv) {r : Reconciler} {h : SpeechHypothesis} {overlap : Nat}
    (hChecked : r.checked h overlap = none) (held : List MarkedToken) :
    r.parcels env held (.accept h overlap) = [] := by
  change Dealing.deal tokenCount (finals (r.accept env h overlap).emitted) _ = _
  rw [(accept_unchecked env hChecked).1]
  rfl

/-- The source tokens of a parcel and its status. -/
def source (p : TranscriptSegment × List MarkedToken) : List SpeechToken × ReconciliationStatus :=
  (p.2.map Prod.fst, p.1.reconciliation)

theorem Renders.dealt_sources {first last : Spacing}
    {parts : List (List SpeechToken × ReconciliationStatus)} {segments : List TranscriptSegment}
    (h : Renders first parts segments last) {tokens : List MarkedToken}
    (hTokens : parts.flatMap Prod.fst <+: tokens.map Prod.fst) :
    Renders first ((Dealing.deal tokenCount segments tokens).map source)
      ((Dealing.deal tokenCount segments tokens).map Prod.fst) last := by
  rw [Dealing.deal_fst, show (Dealing.deal tokenCount segments tokens).map source = parts from
    (h.dealt tokens hTokens).1]
  exact h

/-- The parcels of a call are rendered after the final text before it. -/
theorem Tracked.renders {r : Reconciler} {held : List MarkedToken} (hTracked : Tracked r held)
    (env : ReconcileEnv) (call : ReconcileCall) :
    ∃ spacing, Renders r.spacing ((r.parcels env held call).map source)
        ((r.parcels env held call).map Prod.fst) spacing ∧
      ((r.call env call).state.closed = false → (r.call env call).state.spacing = spacing) := by
  cases hClosed : r.closed with
  | true =>
    rw [parcels_closed env hClosed held call, (call_dead env r call hClosed).1]
    exact ⟨r.spacing, .nil _, fun hOpen => nomatch hOpen⟩
  | false =>
    have hHeld := hTracked.renderable hClosed
    have hPending := hTracked.pending hClosed
    cases call with
    | finish =>
      obtain ⟨spacing, hRenders⟩ := finish_finals env hClosed hHeld
      refine ⟨spacing, hRenders.dealt_sources ?_, fun hOpen => ?_⟩
      · rw [line, hPending]
        split
        · exact List.nil_prefix
        · simp
      · rw [show (r.call env .finish).state.closed = true from finish_closed env r] at hOpen
        cases hOpen
    | accept h overlap =>
      cases hChecked : r.checked h overlap with
      | none =>
        have hFailed := call_fails env r (.accept h overlap)
          (Option.isSome_iff_ne_none.mpr (accept_unchecked env hChecked).2)
        rw [parcels_unchecked env hChecked held, hFailed]
        exact ⟨r.spacing, .nil _, fun hOpen => nomatch hOpen⟩
      | some c =>
        obtain ⟨n, stable, spacing, hRenders, hCases, hDone⟩ := accept_finals env hHeld hChecked
        refine ⟨spacing, hRenders.dealt_sources (accept_starts_parts hPending hChecked hCases),
          fun hOpen => ?_⟩
        obtain ⟨h', overlap', -, hSame, -, hOk⟩ := call_open hOpen
        cases hSame
        exact (hDone hOk).2.spacing

/-- The parcels so far are rendered one after another, and the next one follows. -/
structure Rendered (r : Reconciler) (held : List MarkedToken)
    (done : List (TranscriptSegment × List MarkedToken)) : Prop where
  tracked : Tracked r held
  renders : ∃ spacing, Renders ⟨false, false⟩ (done.map source) (done.map Prod.fst) spacing ∧
    (r.closed = false → r.spacing = spacing)

theorem Rendered.call {r : Reconciler} {held : List MarkedToken}
    {done : List (TranscriptSegment × List MarkedToken)} (hRendered : Rendered r held done)
    (env : ReconcileEnv) (call : ReconcileCall) :
    Rendered (r.call env call).state (r.remaining env held call) (done ++ r.parcels env held call) := by
  refine ⟨hRendered.tracked.call env call, ?_⟩
  obtain ⟨spacing, hDone, hSpacing⟩ := hRendered.renders
  cases hClosed : r.closed with
  | true =>
    rw [parcels_closed env hClosed held call, List.append_nil, (call_dead env r call hClosed).1]
    exact ⟨spacing, hDone, fun hOpen => nomatch hOpen⟩
  | false =>
    obtain ⟨next, hParcels, hNext⟩ := hRendered.tracked.renders env call
    rw [hSpacing hClosed] at hParcels
    rw [List.map_append, List.map_append]
    exact ⟨next, hDone.append hParcels, hNext⟩

/-- All final segments of a run render their tokens one after another. -/
theorem evidence_renders (env : ReconcileEnv) (calls : List ReconcileCall) :
    ∃ spacing, Renders ⟨false, false⟩ ((evidence env calls).map source)
      ((evidence env calls).map Prod.fst) spacing := by
  have hStart : Rendered initial [] [] :=
    ⟨Tracked.initial, ⟨false, false⟩, .nil _, fun _ => rfl⟩
  obtain ⟨r, held, hRendered⟩ := Dealing.trail_keeps (P := Rendered)
    (fun (call : ReconcileCall) (_ : call ∈ calls) _ _ _ hBefore => hBefore.call env call) hStart
  obtain ⟨spacing, hRenders, -⟩ := hRendered.renders
  exact ⟨spacing, hRenders⟩

/-- The evidence covers the final segments of a run, in order. -/
theorem evidence_fst (env : ReconcileEnv) (calls : List ReconcileCall) :
    (evidence env calls).map Prod.fst =
      finals (Emitting.handed (runThrough (Reconciler.call env) initial calls).2) :=
  Dealing.trail_fst calls initial []

theorem Renders.separated {first last : Spacing} {entries : List (TranscriptSegment × List MarkedToken)}
    (h : Renders first (entries.map source) (entries.map Prod.fst) last) :
    ∀ p ∈ entries, List.Forall₂ Separated (p.2.map Prod.fst) p.1.tokens := by
  induction entries generalizing first with
  | nil => exact fun p hNone => nomatch hNone
  | cons entry entries ih =>
    rw [List.map_cons, List.map_cons] at h
    cases h with
    | cons hFirst hRest => exact List.forall_mem_cons.mpr ⟨hFirst.separated, ih hRest⟩

/-- Each final segment is made of the marked tokens it is given. -/
theorem evidence_separated (env : ReconcileEnv) (calls : List ReconcileCall) :
    ∀ p ∈ evidence env calls, List.Forall₂ Separated (p.2.map Prod.fst) p.1.tokens :=
  (evidence_renders env calls).choose_spec.separated

end Reconciler

end GrpcAsr.Media
