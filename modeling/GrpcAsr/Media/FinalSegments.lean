import GrpcAsr.Library.Dealing
import GrpcAsr.Media.StableCutoff

/-!
# The final segments of a call

A call finalises at most two runs of tokens: a join that is not aligned flushes what was
pending, and the cutoff step hands out the stable part of the joined tokens. Each final
segment renders its own tokens after the final text before it.
-/

namespace GrpcAsr.Media

open Emitting

set_option autoImplicit false

def finals (segments : List TranscriptSegment) : List TranscriptSegment :=
  segments.filter TranscriptSegment.final

@[simp] theorem finals_nil : finals [] = [] := rfl

@[simp] theorem finals_append (a b : List TranscriptSegment) : finals (a ++ b) = finals a ++ finals b :=
  List.filter_append a b

/-- What the final text so far means for the next separator: whether there is any, and
whether it ends in a space. -/
structure Spacing where
  text : Bool
  space : Bool
  deriving DecidableEq

def Spacing.after (spacing : Spacing) (text : Bytes) : Spacing :=
  if text = [] then spacing else ⟨true, text.getLast?.any isSpace⟩

namespace Reconciler

def spacing (r : Reconciler) : Spacing := ⟨r.haveFinalText, r.finalEndsSpace⟩

/-- A final segment that renders the source tokens. -/
structure Finalises (spacing : Spacing) (source : List SpeechToken) (status : ReconciliationStatus)
    (segment : TranscriptSegment) : Prop where
  final : segment.final = true
  status : segment.reconciliation = status
  renders : ∃ r : Reconciler, r.spacing = spacing ∧
    r.render source [] 0 = .ok (segment.tokens, segment.text)

theorem Finalises.separated {spacing : Spacing} {source : List SpeechToken}
    {status : ReconciliationStatus} {segment : TranscriptSegment}
    (h : Finalises spacing source status segment) : List.Forall₂ Separated source segment.tokens := by
  obtain ⟨r, -, hRender⟩ := h.renders
  exact (render_ok hRender).1

section Output

variable (env : ReconcileEnv) (r : Reconciler)

theorem revise_spacing : (r.revise env).spacing = r.spacing := by
  rw [spacing, spacing, revise_haveFinalText, revise_finalEndsSpace]

theorem settleFinal_spacing (count : Nat) (text : Bytes) :
    (r.settleFinal count text).spacing = r.spacing.after text := by
  rw [settleFinal, Spacing.after]
  split <;> rfl

theorem shown_finalises {count : Nat} {tokens : List SpeechToken} {text : Bytes}
    (h : r.Shows env count tokens text) (status : ReconciliationStatus) :
    Finalises r.spacing (r.pending.take count) status (r.shown env count tokens text true status) :=
  ⟨rfl, rfl, r.revise env, r.revise_spacing env, h.1⟩

theorem output_uncertain (count : Nat) (final : Bool) (status : ReconciliationStatus) :
    (r.output env count final status).state.uncertain = r.uncertain := by
  have hRevise : (r.revise env).uncertain = r.uncertain := by
    unfold revise
    split <;> rfl
  have hFinal : ∀ text, ((r.handedOut env).settleFinal count text).uncertain = r.uncertain := by
    intro text
    unfold settleFinal
    split <;> exact hRevise
  rcases output_cases env r count final status with ⟨-, hOut⟩ | ⟨-, -, e, hOut⟩ |
    ⟨-, tokens, text, -, ⟨e, hOut⟩ | hOut⟩
  · rw [hOut]
  · rw [hOut]
    exact hRevise
  · rw [hOut]
    exact hRevise
  · rw [hOut]
    cases final with
    | false => exact hRevise
    | true => exact hFinal text

/-- Nothing, or one final segment of the first tokens. -/
theorem output_final (count : Nat) (status : ReconciliationStatus) :
    ((r.output env count true status).emitted = [] ∧
      ((r.output env count true status).error = none → count = 0 ∧
        (r.output env count true status).state.spacing = r.spacing)) ∨
    ∃ segment, (r.output env count true status).emitted = [segment] ∧ count ≠ 0 ∧
      Finalises r.spacing (r.pending.take count) status segment ∧
      ((r.output env count true status).error = none →
        (r.output env count true status).state.spacing = r.spacing.after segment.text) := by
  rcases output_cases env r count true status with ⟨hZero, hOut⟩ | ⟨-, -, e, hOut⟩ |
    ⟨hCount, tokens, text, hShows, ⟨e, hOut⟩ | hOut⟩
  · rw [hOut]
    exact Or.inl ⟨rfl, fun _ => ⟨hZero, rfl⟩⟩
  · rw [hOut]
    exact Or.inl ⟨rfl, fun hNone => nomatch hNone⟩
  · rw [hOut]
    exact Or.inr ⟨_, rfl, hCount, r.shown_finalises env hShows status, fun hNone => nomatch hNone⟩
  · rw [hOut]
    refine Or.inr ⟨_, rfl, hCount, r.shown_finalises env hShows status, fun _ => ?_⟩
    rw [if_pos rfl, settleFinal_spacing]
    exact congrArg (Spacing.after · text) (r.revise_spacing env)

/-- What has been shown before is finalised whether or not the callback throws. -/
theorem output_renderable (hHeld : r.Renderable) (hSome : r.pending ≠ []) (status : ReconciliationStatus) :
    ∃ segment, (r.output env r.pending.length true status).emitted = [segment] ∧
      Finalises r.spacing r.pending status segment ∧
      ((r.output env r.pending.length true status).error = none →
        (r.output env r.pending.length true status).state.spacing = r.spacing.after segment.text) := by
  have hCount : r.pending.length ≠ 0 := fun hZero => hSome (List.eq_nil_of_length_eq_zero hZero)
  obtain ⟨tokens, text, hRender, hUtf8⟩ := hHeld
  have hShows : r.Shows env r.pending.length tokens text := by
    refine ⟨?_, hUtf8⟩
    rw [List.take_length, ← hRender]
    exact render_congr (revise_haveFinalText env r) (revise_finalEndsSpace env r) _ _ _
  rcases output_cases env r r.pending.length true status with ⟨hZero, -⟩ | ⟨-, hNot, -⟩ |
    ⟨-, tokens', text', hShown, ⟨e, hOut⟩ | hOut⟩
  · exact absurd hZero hCount
  · exact absurd hShows (hNot tokens text)
  · rw [hOut]
    refine ⟨_, rfl, ?_, fun hNone => nomatch hNone⟩
    simpa using r.shown_finalises env hShown status
  · rw [hOut]
    refine ⟨_, rfl, by simpa using r.shown_finalises env hShown status, fun _ => ?_⟩
    rw [if_pos rfl, settleFinal_spacing]
    exact congrArg (Spacing.after · text') (r.revise_spacing env)

theorem output_provisional (count : Nat) (status : ReconciliationStatus) :
    finals (r.output env count false status).emitted = [] ∧
      (r.output env count false status).state.spacing = r.spacing := by
  rcases output_cases env r count false status with ⟨-, hOut⟩ | ⟨-, -, e, hOut⟩ |
    ⟨-, tokens, text, -, ⟨e, hOut⟩ | hOut⟩
  · rw [hOut]
    exact ⟨rfl, rfl⟩
  all_goals
    rw [hOut]
    exact ⟨rfl, r.revise_spacing env⟩

end Output

/-- Final segments that render runs of source tokens one after another. -/
inductive Renders : Spacing → List (List SpeechToken × ReconciliationStatus) →
    List TranscriptSegment → Spacing → Prop
  | nil (spacing : Spacing) : Renders spacing [] [] spacing
  | cons {spacing last : Spacing} {source : List SpeechToken} {status : ReconciliationStatus}
      {segment : TranscriptSegment} {parts : List (List SpeechToken × ReconciliationStatus)}
      {segments : List TranscriptSegment} (hFirst : Finalises spacing source status segment)
      (hRest : Renders (spacing.after segment.text) parts segments last) :
      Renders spacing ((source, status) :: parts) (segment :: segments) last

theorem Renders.single {spacing : Spacing} {source : List SpeechToken} {status : ReconciliationStatus}
    {segment : TranscriptSegment} (h : Finalises spacing source status segment) :
    Renders spacing [(source, status)] [segment] (spacing.after segment.text) :=
  .cons h (.nil _)

theorem Renders.split {first last : Spacing} {a b : List (List SpeechToken × ReconciliationStatus)}
    {segments : List TranscriptSegment} (h : Renders first (a ++ b) segments last) :
    ∃ x y middle, segments = x ++ y ∧ Renders first a x middle ∧ Renders middle b y last := by
  induction a generalizing first segments with
  | nil => exact ⟨[], segments, first, rfl, .nil _, h⟩
  | cons part a ih =>
    cases h with
    | cons hFirst hRest =>
      obtain ⟨x, y, middle, rfl, hLeft, hRight⟩ := ih hRest
      exact ⟨_ :: x, y, middle, rfl, .cons hFirst hLeft, hRight⟩

theorem Renders.append {first middle last : Spacing}
    {a b : List (List SpeechToken × ReconciliationStatus)} {x y : List TranscriptSegment}
    (ha : Renders first a x middle) (hb : Renders middle b y last) :
    Renders first (a ++ b) (x ++ y) last := by
  induction ha with
  | nil => exact hb
  | cons hFirst _ ih => exact .cons hFirst (ih hb)

end Reconciler

/-- The tokens a join flushes, with their status. -/
def Join.flushed (r : Reconciler) : Join → List (List SpeechToken × ReconciliationStatus)
  | .flush => [(r.pending, r.flushStatus)]
  | .unresolved => [(r.pending, .unresolved)]
  | _ => []

/-- A flush of all that was uncertain clears the doubt. -/
def Join.uncertain (r : Reconciler) : Join → Bool
  | .flush => false
  | _ => r.uncertain

namespace Reconciler

theorem joinOf_pending {r : Reconciler} {h : SpeechHypothesis} {c : Collected}
    (hJoin : r.joinOf h c ≠ .start) : r.pending ≠ [] := by
  intro hNone
  rw [joinOf, if_pos hNone] at hJoin
  exact hJoin rfl

/-- The final segments of a join. -/
theorem applyJoin_finals (env : ReconcileEnv) {r : Reconciler} (hHeld : r.Renderable)
    (h : SpeechHypothesis) (c : Collected) :
    ∃ spacing, Renders r.spacing ((r.joinOf h c).flushed r)
        (finals (r.applyJoin env (r.joinOf h c)).emitted) spacing ∧
      ((r.applyJoin env (r.joinOf h c)).error = none →
        (r.applyJoin env (r.joinOf h c)).state.spacing = spacing ∧
        (r.applyJoin env (r.joinOf h c)).state.uncertain = (r.joinOf h c).uncertain r) := by
  have hSome := @joinOf_pending r h c
  cases hJoin : r.joinOf h c with
  | start => exact ⟨r.spacing, .nil _, fun _ => ⟨rfl, rfl⟩⟩
  | aligned merged => exact ⟨r.spacing, .nil _, fun _ => ⟨rfl, rfl⟩⟩
  | unresolved =>
    obtain ⟨segment, hOut, hFinal, hSpacing⟩ :=
      r.output_renderable env hHeld (hSome (by simp [hJoin])) .unresolved
    refine ⟨r.spacing.after segment.text, ?_, fun hOk => ⟨hSpacing hOk, r.output_uncertain env _ _ _⟩⟩
    rw [applyJoin, hOut, finals, List.filter_cons_of_pos hFinal.final]
    exact .single hFinal
  | flush =>
    obtain ⟨segment, hOut, hFinal, hSpacing⟩ :=
      r.output_renderable env hHeld (hSome (by simp [hJoin])) r.flushStatus
    refine ⟨r.spacing.after segment.text, ?_, fun hOk => ?_⟩
    · have hEmitted : (r.applyJoin env .flush).emitted = [segment] := by
        rw [applyJoin, Outcome.next]
        split
        · exact hOut
        · rw [hOut]
          rfl
      rw [hEmitted, finals, List.filter_cons_of_pos hFinal.final]
      exact .single hFinal
    · obtain ⟨hFirst, -⟩ := Outcome.next_error_none hOk
      rw [applyJoin, Outcome.next_of_none hFirst]
      exact ⟨hSpacing hFirst, rfl⟩

theorem holdTail_finals (env : ReconcileEnv) (h : SpeechHypothesis) (status : ReconciliationStatus)
    (r : Reconciler) :
    finals (r.holdTail env h status).emitted = [] ∧
      ((r.holdTail env h status).error = none →
        (r.holdTail env h status).state.spacing = r.spacing ∧
        (r.holdTail env h status).state.pending = r.pending ∧
        (r.holdTail env h status).state.uncertain =
          (r.pending != [] && status == ReconciliationStatus.unresolved)) := by
  unfold holdTail
  dsimp only
  have hShown := output_provisional env
    { r with uncertain := r.pending != [] && status == ReconciliationStatus.unresolved }
    r.pending.length .pending
  refine ⟨?_, fun hOk => ?_⟩
  · rw [Outcome.next]
    split
    · exact hShown.1
    · simpa using hShown.1
  · obtain ⟨hFirst, -⟩ := Outcome.next_error_none hOk
    rw [Outcome.next_of_none hFirst]
    exact ⟨hShown.2, by simpa using output_pending hFirst, output_uncertain env _ _ _ _⟩

/-- What a call leaves behind when it succeeds. -/
structure Leaves (r : Reconciler) (tokens : List SpeechToken) (status : ReconciliationStatus)
    (spacing : Spacing) : Prop where
  pending : r.pending = tokens
  uncertain : r.uncertain = (tokens != [] && status == ReconciliationStatus.unresolved)
  spacing : r.spacing = spacing

theorem settlePart_finals (env : ReconcileEnv) (h : SpeechHypothesis) (status : ReconciliationStatus)
    (r : Reconciler) (count : Nat) :
    ∃ stable spacing,
      Renders r.spacing stable
        (finals ((r.output env count true status).next (holdTail env h status)).emitted) spacing ∧
      (stable = [] ∨ stable = [(r.pending.take count, status)]) ∧
      (((r.output env count true status).next (holdTail env h status)).error = none →
        stable.flatMap Prod.fst = r.pending.take count ∧
        ((r.output env count true status).next (holdTail env h status)).state.Leaves
          (r.pending.drop count) status spacing) := by
  have hEmitted : finals ((r.output env count true status).next (holdTail env h status)).emitted =
      finals (r.output env count true status).emitted := by
    rw [Outcome.next]
    split
    · rfl
    · rw [finals_append, (holdTail_finals env h status _).1, List.append_nil]
  have hLeaves : ∀ spacing, ((r.output env count true status).error = none →
        (r.output env count true status).state.spacing = spacing) →
      ((r.output env count true status).next (holdTail env h status)).error = none →
      ((r.output env count true status).next (holdTail env h status)).state.Leaves
        (r.pending.drop count) status spacing := by
    intro spacing hSpacing hOk
    obtain ⟨hFirst, hRest⟩ := Outcome.next_error_none hOk
    obtain ⟨hSame, hPending, hUncertain⟩ := (holdTail_finals env h status _).2 hRest
    have hLeft : (r.output env count true status).state.pending = r.pending.drop count := by
      simpa using output_pending hFirst
    rw [Outcome.next_of_none hFirst]
    refine ⟨hPending.trans hLeft, ?_, hSame.trans (hSpacing hFirst)⟩
    rw [← hLeft]
    exact hUncertain
  rw [hEmitted]
  rcases r.output_final env count status with ⟨hNone, hSame⟩ | ⟨segment, hOne, -, hFinal, hSpacing⟩
  · refine ⟨[], r.spacing, by rw [hNone]; exact .nil _, .inl rfl, fun hOk => ⟨?_, ?_⟩⟩
    · rw [(hSame (Outcome.next_error_none hOk).1).1]
      rfl
    · exact hLeaves _ (fun hFirst => (hSame hFirst).2) hOk
  · refine ⟨[(r.pending.take count, status)], _, ?_, .inr rfl, fun hOk => ⟨by simp, hLeaves _ hSpacing hOk⟩⟩
    rw [hOne, finals, List.filter_cons_of_pos hFinal.final]
    exact .single hFinal

/-- The final segment of the cutoff step, if it gets there and finds anything stable. -/
theorem settle_finals (env : ReconcileEnv) (r : Reconciler) (h : SpeechHypothesis) (overlap : Nat)
    (c : Collected) (join : Join) :
    ∃ n stable spacing,
      Renders r.spacing stable (finals (r.settle env h overlap c join).emitted) spacing ∧
      (stable = [] ∨ stable = [((join.tokens c.fresh).take n, stableStatus c join r.uncertain)]) ∧
      ((r.settle env h overlap c join).error = none →
        stable.flatMap Prod.fst = (join.tokens c.fresh).take n ∧
        (r.settle env h overlap c join).state.Leaves ((join.tokens c.fresh).drop n)
          (stableStatus c join r.uncertain) spacing) := by
  unfold settle
  dsimp only
  split
  · exact ⟨0, [], r.spacing, .nil _, .inl rfl, fun hNone => nomatch hNone⟩
  · split
    · exact ⟨0, [], r.spacing, .nil _, .inl rfl, fun hNone => nomatch hNone⟩
    · exact ⟨_, settlePart_finals env h (stableStatus c join r.uncertain)
        { r with pending := join.tokens c.fresh, metadata := c.metadata } _⟩

/-- The final segments of a call that passes its checks: those of the join, then those of
the cutoff step. -/
theorem accept_finals (env : ReconcileEnv) {r : Reconciler} (hHeld : r.Renderable)
    {h : SpeechHypothesis} {overlap : Nat} {c : Collected} (hChecked : r.checked h overlap = some c) :
    ∃ n stable spacing,
      Renders r.spacing ((r.joinOf h c).flushed r ++ stable) (finals (r.accept env h overlap).emitted)
        spacing ∧
      (stable = [] ∨ stable = [(((r.joinOf h c).tokens c.fresh).take n,
        stableStatus c (r.joinOf h c) ((r.joinOf h c).uncertain r))]) ∧
      ((r.accept env h overlap).error = none →
        stable.flatMap Prod.fst = ((r.joinOf h c).tokens c.fresh).take n ∧
        (r.accept env h overlap).state.Leaves (((r.joinOf h c).tokens c.fresh).drop n)
          (stableStatus c (r.joinOf h c) ((r.joinOf h c).uncertain r)) spacing) := by
  obtain ⟨hEmitted, hError, hState⟩ := accept_checked env hChecked
  obtain ⟨middle, hJoin, hAfter⟩ := applyJoin_finals env hHeld h c
  rw [hEmitted, hError]
  cases hFailed : (r.applyJoin env (r.joinOf h c)).error with
  | some e =>
    have hStops : r.joinAndSettle env h overlap c = r.applyJoin env (r.joinOf h c) :=
      Outcome.next_of_error hFailed
    refine ⟨0, [], middle, ?_, .inl rfl, fun hNone => ?_⟩
    · rw [hStops, List.append_nil]
      exact hJoin
    · rw [hStops, hFailed] at hNone
      cases hNone
  | none =>
    obtain ⟨hSpacing, hUncertain⟩ := hAfter hFailed
    have hNext : r.joinAndSettle env h overlap c = _ := Outcome.next_of_none hFailed
    obtain ⟨n, stable, spacing, hStable, hCases, hDone⟩ :=
      settle_finals env (r.applyJoin env (r.joinOf h c)).state h overlap c (r.joinOf h c)
    rw [hSpacing] at hStable
    rw [hUncertain] at hCases hDone
    refine ⟨n, stable, spacing, ?_, hCases, fun hOk => ?_⟩
    · rw [hNext, finals_append]
      exact hJoin.append hStable
    · rw [hState hOk]
      rw [hNext] at hOk ⊢
      exact hDone hOk

/-- `finish` flushes all that is pending. -/
theorem finish_finals (env : ReconcileEnv) {r : Reconciler} (hOpen : r.closed = false)
    (hHeld : r.Renderable) :
    ∃ spacing, Renders r.spacing (if r.pending = [] then [] else [(r.pending, r.flushStatus)])
      (finals (r.finish env).emitted) spacing := by
  have hFinish : r.finish env =
      ({ r with closed := true } : Reconciler).output env r.pending.length true r.flushStatus := by
    rw [finish, if_neg (by simp [hOpen])]
  rw [hFinish]
  by_cases hNone : r.pending = []
  · rw [if_pos hNone, hNone]
    exact ⟨r.spacing, .nil _⟩
  · rw [if_neg hNone]
    obtain ⟨segment, hOut, hFinal, -⟩ :=
      output_renderable env { r with closed := true } (hHeld.congr rfl rfl rfl) hNone r.flushStatus
    refine ⟨r.spacing.after segment.text, ?_⟩
    rw [hOut, finals, List.filter_cons_of_pos hFinal.final]
    exact .single hFinal

end Reconciler

end GrpcAsr.Media
