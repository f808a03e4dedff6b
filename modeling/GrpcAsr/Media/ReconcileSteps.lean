import Mathlib.Data.List.Forall2
import GrpcAsr.Media.ReconcileAnchor

/-!
# What one reconciliation step can do

One lemma for each operation of the reconciler: rendering, output, the collection of a
window's tokens, and `accept`. Later proofs cite these and never unfold the operations.
-/

namespace GrpcAsr.Media

open Emitting

set_option autoImplicit false

/-- A token as emitted: unchanged, or with one leading space in its rendering. -/
def Separated (token emitted : SpeechToken) : Prop :=
  emitted = token ∨ emitted = { token with renderedText := some (32 :: token.rendered) }

theorem Separated.tokenKey {token emitted : SpeechToken} (h : Separated token emitted) :
    tokenKey emitted = tokenKey token := by
  rcases h with rfl | rfl
  · rfl
  · simp [GrpcAsr.Media.tokenKey, SpeechToken.rendered, key, keyByte]

theorem key_append (a b : Bytes) : key (a ++ b) = key a ++ key b := List.filterMap_append

theorem key_flatMap_rendered (tokens : List SpeechToken) :
    key (tokens.flatMap SpeechToken.rendered) = tokens.flatMap tokenKey := by
  induction tokens with
  | nil => rfl
  | cons token tokens ih =>
    rw [List.flatMap_cons, key_append, ih, List.flatMap_cons]
    rfl

namespace Reconciler

section Output

variable (env : ReconcileEnv) (r : Reconciler)

theorem separate_separated (text : Bytes) (token : SpeechToken) :
    Separated token (r.separate text token) := by
  unfold separate
  split
  · exact Or.inr rfl
  · exact Or.inl rfl

theorem render_ok {r : Reconciler} {source tokens : List SpeechToken} {text whole : Bytes}
    {outputBytes : Nat} (h : r.render source text outputBytes = .ok (tokens, whole)) :
    List.Forall₂ Separated source tokens ∧ whole = text ++ tokens.flatMap SpeechToken.rendered := by
  induction source generalizing tokens text outputBytes with
  | nil =>
    cases h
    exact ⟨.nil, by simp⟩
  | cons token source ih =>
    rw [render] at h
    split at h
    · cases h
    · split at h
      · rename_i rest whole' hRest
        cases h
        obtain ⟨hSeparated, hWhole⟩ := ih hRest
        refine ⟨.cons (r.separate_separated text token) hSeparated, ?_⟩
        rw [hWhole, List.flatMap_cons, List.append_assoc]
      · cases h

/-- Rendering reads nothing of the reconciler but how the final text ends. -/
theorem render_congr {r r' : Reconciler} (hText : r.haveFinalText = r'.haveFinalText)
    (hSpace : r.finalEndsSpace = r'.finalEndsSpace) (source : List SpeechToken) (text : Bytes)
    (outputBytes : Nat) : r.render source text outputBytes = r'.render source text outputBytes := by
  have hNeeds : r.needsSeparator = r'.needsSeparator := by
    funext text
    unfold needsSeparator
    rw [hText, hSpace]
  have hSeparate : r.separate = r'.separate := by
    funext text token
    unfold separate
    rw [hNeeds]
  induction source generalizing text outputBytes with
  | nil => rfl
  | cons token source ih => simp only [render, hSeparate, ih]

@[simp] theorem revise_pending : (r.revise env).pending = r.pending := by
  unfold revise
  split <;> rfl

@[simp] theorem revise_handed : (r.revise env).handed = r.handed := by
  unfold revise
  split <;> rfl

@[simp] theorem revise_metadata : (r.revise env).metadata = r.metadata := by
  unfold revise
  split <;> rfl

@[simp] theorem revise_haveFinalText : (r.revise env).haveFinalText = r.haveFinalText := by
  unfold revise
  split <;> rfl

@[simp] theorem revise_finalEndsSpace : (r.revise env).finalEndsSpace = r.finalEndsSpace := by
  unfold revise
  split <;> rfl

/-- The tokens and the text that `output` computes for the first `count` pending tokens. -/
def Shows (count : Nat) (tokens : List SpeechToken) (text : Bytes) : Prop :=
  (r.revise env).render (r.pending.take count) [] 0 = .ok (tokens, text) ∧ utf8 text = true

def shown (count : Nat) (tokens : List SpeechToken) (text : Bytes) (final : Bool)
    (status : ReconciliationStatus) : TranscriptSegment :=
  (r.revise env).segment (r.pending.take count) tokens text final status

def handedOut : Reconciler := { r.revise env with handed := r.handed + 1 }

/-- Nothing to output, a failure before the callback, or one segment handed out. -/
theorem output_cases (count : Nat) (final : Bool) (status : ReconciliationStatus) :
    (count = 0 ∧ r.output env count final status = ⟨r, [], none⟩) ∨
    (count ≠ 0 ∧ (∀ tokens text, ¬r.Shows env count tokens text) ∧
      ∃ e, r.output env count final status = ⟨r.revise env, [], some e⟩) ∨
    (count ≠ 0 ∧ ∃ tokens text, r.Shows env count tokens text ∧
      ((∃ e, r.output env count final status =
          ⟨r.handedOut env, [r.shown env count tokens text final status], some e⟩) ∨
        r.output env count final status =
          ⟨if final then (r.handedOut env).settleFinal count text else r.handedOut env,
            [r.shown env count tokens text final status], none⟩)) := by
  by_cases hCount : count = 0
  · exact Or.inl ⟨hCount, by rw [output, if_pos hCount]⟩
  · refine Or.inr ?_
    rw [output, if_neg hCount]
    dsimp only
    rw [revise_pending]
    cases hRender : (r.revise env).render (r.pending.take count) [] 0 with
    | error failure =>
      refine Or.inl ⟨hCount, ?_, .failure failure, rfl⟩
      rintro tokens text ⟨hShown, -⟩
      rw [hRender] at hShown
      cases hShown
    | ok result =>
      obtain ⟨tokens, text⟩ := result
      dsimp only
      cases hUtf8 : utf8 text with
      | false =>
        refine Or.inl ⟨hCount, ?_, _, rfl⟩
        rintro tokens' text' ⟨hShown, hShownUtf8⟩
        rw [hRender] at hShown
        cases hShown
        rw [hUtf8] at hShownUtf8
        cases hShownUtf8
      | true =>
        refine Or.inr ⟨hCount, tokens, text, ⟨hRender, hUtf8⟩, ?_⟩
        rw [if_neg (by simp)]
        cases hThrown : env.emit (r.revise env).handed
            ((r.revise env).segment (r.pending.take count) tokens text final status) with
        | some e =>
          refine Or.inl ⟨e, ?_⟩
          rw [if_pos Option.isSome_some]
          simp only [handedOut, shown, revise_handed, revise_pending]
        | none =>
          refine Or.inr ?_
          rw [if_neg (by simp)]
          cases final <;> simp [handedOut, shown, revise_handed]

theorem output_ok {env : ReconcileEnv} {r : Reconciler} {count : Nat} {final : Bool}
    {status : ReconciliationStatus} (h : (r.output env count final status).error = none) :
    (count = 0 ∧ r.output env count final status = ⟨r, [], none⟩) ∨
    (count ≠ 0 ∧ ∃ tokens text, r.Shows env count tokens text ∧
      r.output env count final status =
        ⟨if final then (r.handedOut env).settleFinal count text else r.handedOut env,
          [r.shown env count tokens text final status], none⟩) := by
  rcases r.output_cases env count final status with hZero | ⟨-, -, e, hFail⟩ | ⟨hCount, tokens, text,
    hShows, ⟨e, hThrow⟩ | hDone⟩
  · exact Or.inl hZero
  · rw [hFail] at h
    cases h
  · rw [hThrow] at h
    cases h
  · exact Or.inr ⟨hCount, tokens, text, hShows, hDone⟩

theorem settleFinal_pending (count : Nat) (text : Bytes) :
    (r.settleFinal count text).pending = r.pending.drop count := by
  unfold settleFinal
  split <;> rfl

theorem handedOut_pending : (r.handedOut env).pending = r.pending := revise_pending env r

theorem output_pending {env : ReconcileEnv} {r : Reconciler} {count : Nat} {final : Bool}
    {status : ReconciliationStatus} (h : (r.output env count final status).error = none) :
    (r.output env count final status).state.pending =
      if final then r.pending.drop count else r.pending := by
  rcases output_ok h with ⟨rfl, hNone⟩ | ⟨-, tokens, text, -, hDone⟩
  · rw [hNone]
    cases final <;> simp
  · rw [hDone]
    cases final with
    | false => exact handedOut_pending env r
    | true =>
      simp only [if_true]
      rw [settleFinal_pending, handedOut_pending]

/-- What `output` leaves alone, failed or not. -/
theorem output_frame (count : Nat) (final : Bool) (status : ReconciliationStatus) :
    (r.output env count final status).state.closed = r.closed ∧
      (r.output env count final status).state.window = r.window ∧
      (r.output env count final status).state.track = r.track := by
  have hRevise : (r.revise env).closed = r.closed ∧ (r.revise env).window = r.window ∧
      (r.revise env).track = r.track := by
    unfold revise
    split <;> exact ⟨rfl, rfl, rfl⟩
  have hFinal : ∀ text, ((r.handedOut env).settleFinal count text).closed = r.closed ∧
      ((r.handedOut env).settleFinal count text).window = r.window ∧
      ((r.handedOut env).settleFinal count text).track = r.track := by
    intro text
    unfold settleFinal
    split <;> exact hRevise
  rcases output_cases env r count final status with ⟨-, hOut⟩ | ⟨-, -, e, hOut⟩ |
    ⟨-, tokens, text, -, ⟨e, hOut⟩ | hOut⟩
  · rw [hOut]
    exact ⟨rfl, rfl, rfl⟩
  · rw [hOut]
    exact hRevise
  · rw [hOut]
    exact hRevise
  · rw [hOut]
    cases final with
    | false => exact hRevise
    | true => exact hFinal text

end Output

end Reconciler

def SpeechHypothesis.lexical (h : SpeechHypothesis) : List SpeechToken :=
  h.segments.flatMap TranscriptSegment.lexical

def SpeechHypothesis.fitted (h : SpeechHypothesis) : List SpeechToken :=
  h.lexical.map fun token => token.fit h.windowStart h.windowEnd

theorem collectToken_fresh {low high : Int} {c c' : Collected} {token : SpeechToken}
    (h : collectToken low high c token = .ok c') :
    c'.fresh = c.fresh ++ (if token.kind = .control then [] else [token.fit low high]) ∧
      c'.metadata = c.metadata ∧ c'.hasMetadata = c.hasMetadata := by
  unfold collectToken at h
  split at h
  · rename_i hControl
    cases h
    simp [hControl]
  · rename_i hControl
    split at h
    · cases h
    · split at h
      · cases h
      · cases h
        simp [hControl]

theorem collectTokens_fresh {low high : Int} {c c' : Collected} {tokens : List SpeechToken}
    (h : tokens.foldlM (collectToken low high) c = .ok c') :
    c'.fresh = c.fresh ++ (tokens.filter fun token => token.kind ≠ .control).map
        (fun token => token.fit low high) ∧
      c'.metadata = c.metadata ∧ c'.hasMetadata = c.hasMetadata := by
  induction tokens generalizing c with
  | nil =>
    cases h
    simp
  | cons token tokens ih =>
    rw [List.foldlM_cons] at h
    cases hToken : collectToken low high c token with
    | error failure =>
      rw [hToken] at h
      cases h
    | ok next =>
      rw [hToken] at h
      obtain ⟨hFresh, hMeta, hHas⟩ := ih h
      obtain ⟨hFirst, hFirstMeta, hFirstHas⟩ := collectToken_fresh hToken
      refine ⟨?_, hMeta.trans hFirstMeta, hHas.trans hFirstHas⟩
      rw [hFresh, hFirst, List.append_assoc]
      by_cases hControl : token.kind = .control <;> simp [hControl]

theorem collectSegment_ok {h : SpeechHypothesis} {c c' : Collected} {segment : TranscriptSegment}
    (hOk : collectSegment h c segment = .ok c') :
    c'.fresh = c.fresh ++ segment.lexical.map (fun token => token.fit h.windowStart h.windowEnd) ∧
      c'.hasMetadata = true ∧ segment.trackId = h.trackId ∧
      c'.metadata = (if c.hasMetadata then c.metadata else segment) := by
  unfold collectSegment at hOk
  split at hOk
  · cases hOk
  · rename_i hIdentity
    simp only [not_or, not_not] at hIdentity
    dsimp only at hOk
    split at hOk
    · cases hOk
    · rename_i next hTokens
      split at hOk
      · cases hOk
      · cases hOk
        obtain ⟨hFresh, hMeta, hHas⟩ := collectTokens_fresh hTokens
        rw [hFresh, hMeta, hHas]
        cases hKnown : c.hasMetadata <;> simp [hKnown, hIdentity.1, TranscriptSegment.lexical]

/-- The collected metadata is of the hypothesis' track as soon as there is a token. -/
theorem collect_ok {h : SpeechHypothesis} {c : Collected} (hOk : collect h = .ok c) :
    c.fresh = h.fitted ∧ (c.fresh ≠ [] → c.metadata.trackId = h.trackId) := by
  have hGeneral : ∀ (segments : List TranscriptSegment) (start final : Collected),
      segments.foldlM (collectSegment h) start = .ok final →
      (start.hasMetadata = true → start.metadata.trackId = h.trackId) →
      final.fresh = start.fresh ++ (segments.flatMap TranscriptSegment.lexical).map
          (fun token => token.fit h.windowStart h.windowEnd) ∧
        (segments ≠ [] ∨ start.hasMetadata = true → final.metadata.trackId = h.trackId) := by
    intro segments
    induction segments with
    | nil =>
      intro start final hFold hStart
      cases hFold
      refine ⟨by simp, ?_⟩
      rintro (hNil | hKnown)
      · exact absurd rfl hNil
      · exact hStart hKnown
    | cons segment segments ih =>
      intro start final hFold hStart
      rw [List.foldlM_cons] at hFold
      cases hSegment : collectSegment h start segment with
      | error failure =>
        rw [hSegment] at hFold
        cases hFold
      | ok next =>
        rw [hSegment] at hFold
        obtain ⟨hFresh, hHas, hTrack, hMeta⟩ := collectSegment_ok hSegment
        have hNext : next.metadata.trackId = h.trackId := by
          rw [hMeta]
          split
          · exact hStart ‹_›
          · exact hTrack
        obtain ⟨hFinal, hFinalTrack⟩ := ih next final hFold (fun _ => hNext)
        refine ⟨?_, fun _ => hFinalTrack (Or.inr hHas)⟩
        rw [hFinal, hFresh, List.flatMap_cons, List.map_append, List.append_assoc]
  obtain ⟨hFresh, hTrack⟩ := hGeneral h.segments default c hOk (fun hKnown => nomatch hKnown)
  refine ⟨hFresh, fun hSome => hTrack (Or.inl fun hNil => hSome ?_)⟩
  rw [hFresh, hNil]
  rfl

namespace Reconciler

theorem joinOf_start {r : Reconciler} {h : SpeechHypothesis} {c : Collected}
    (hJoin : r.joinOf h c = .start) : r.pending = [] := by
  unfold joinOf at hJoin
  split at hJoin
  · assumption
  · split at hJoin
    · cases hJoin
    · dsimp only at hJoin
      split at hJoin <;> cases hJoin

theorem joinOf_merge {r : Reconciler} {h : SpeechHypothesis} {c : Collected}
    {merged : List SpeechToken} (hJoin : r.joinOf h c = .aligned merged) :
    r.pending ≠ [] ∧ r.joinSafe c (anchor r.pending c.fresh r.endTime) = true ∧
      merged = r.merge c (anchor r.pending c.fresh r.endTime) := by
  unfold joinOf at hJoin
  split at hJoin
  · cases hJoin
  · rename_i hPending
    split at hJoin
    · cases hJoin
    · dsimp only at hJoin
      split at hJoin
      · rename_i hSafe
        cases hJoin
        exact ⟨hPending, hSafe, rfl⟩
      · cases hJoin

/-- An aligned join has fresh tokens, and its merge is not empty. -/
theorem joinOf_aligned_ne_nil {r : Reconciler} {h : SpeechHypothesis} {c : Collected}
    {merged : List SpeechToken} (hJoin : r.joinOf h c = .aligned merged) :
    c.fresh ≠ [] ∧ merged ≠ [] := by
  obtain ⟨hPending, hSafe, rfl⟩ := joinOf_merge hJoin
  simp only [joinSafe, Bool.and_eq_true, bne_iff_ne, ne_eq] at hSafe
  have hFresh : c.fresh ≠ [] := hSafe.1.1.1.2
  refine ⟨hFresh, ?_⟩
  rw [merge]
  split
  · simp [hFresh]
  · rename_i hStart
    simp [hPending, hStart]

theorem accept_ok {env : ReconcileEnv} {r : Reconciler} {h : SpeechHypothesis} {overlap : Nat}
    (hOk : (r.accept env h overlap).error = none) :
    r.closed = false ∧ r.trackChanged h = false ∧ r.windowValid h overlap = true ∧
      ∃ c, collect h = .ok c ∧ (r.applyJoin env (r.joinOf h c)).error = none ∧
        ((r.applyJoin env (r.joinOf h c)).state.settle env h overlap c (r.joinOf h c)).error = none ∧
        r.accept env h overlap =
          (r.applyJoin env (r.joinOf h c)).next fun next => next.settle env h overlap c (r.joinOf h c) := by
  unfold accept at hOk ⊢
  split at hOk
  · cases hOk
  · rename_i hOpen
    dsimp only at hOk ⊢
    split at hOk
    · rename_i hFail
      simp only at hOk
      rw [hOk] at hFail
      cases hFail
    · rename_i hDone
      rw [if_neg hOpen, if_neg hDone]
      unfold reconcile at hOk ⊢
      split at hOk
      · cases hOk
      · rename_i hTrack
        split at hOk
        · cases hOk
        · rename_i hWindow
          split at hOk
          · cases hOk
          · rename_i hTime
            rw [if_neg hTrack, if_neg hWindow, if_neg hTime]
            cases hCollect : collect h with
            | error failure =>
              rw [hCollect] at hOk
              cases hOk
            | ok c =>
              rw [hCollect] at hOk
              obtain ⟨hJoin, hSettle⟩ := Outcome.next_error_none hOk
              exact ⟨by simpa using hOpen, by simpa using hTrack, by simpa using hWindow, c, rfl,
                hJoin, hSettle, rfl⟩

/-- The position in the window sequence changes at the very end of a successful call only. -/
structure Turned (r : Reconciler) (h : SpeechHypothesis) (o : ReconcileOutcome) : Prop where
  done : o.error = none → o.state.window = r.window + 1 ∧ o.state.track = h.trackId ∧
    o.state.endSample = h.firstSample + h.sampleCount
  failed : o.error ≠ none → o.state.window = r.window ∧ o.state.track = r.track

section Turns

variable {r : Reconciler} {h : SpeechHypothesis}

theorem Turned.error {o : ReconcileOutcome} {e : Exception} (hError : o.error = some e)
    (hSame : o.state.window = r.window ∧ o.state.track = r.track) : Turned r h o :=
  ⟨fun hNone => absurd (hError.symm.trans hNone) (Option.some_ne_none e), fun _ => hSame⟩

theorem Turned.next {o : ReconcileOutcome} {f : Reconciler → ReconcileOutcome}
    (hSame : o.state.window = r.window ∧ o.state.track = r.track)
    (hNext : Turned o.state h (f o.state)) : Turned r h (o.next f) := by
  cases hError : o.error with
  | some e =>
    rw [Outcome.next_of_error hError]
    exact Turned.error hError hSame
  | none =>
    rw [Outcome.next_of_none hError]
    refine ⟨fun hDone => ?_, fun hFail => ?_⟩
    · obtain ⟨hWindow, hRest⟩ := hNext.done hDone
      exact ⟨hWindow.trans (congrArg (· + 1) hSame.1), hRest⟩
    · obtain ⟨hWindow, hTrack⟩ := hNext.failed hFail
      exact ⟨hWindow.trans hSame.1, hTrack.trans hSame.2⟩

theorem holdTail_turned (env : ReconcileEnv) (h : SpeechHypothesis) (status : ReconciliationStatus)
    (r : Reconciler) : Turned r h (r.holdTail env h status) := by
  unfold holdTail
  dsimp only
  refine Turned.next (output_frame env _ _ _ _).2 ⟨fun _ => ⟨rfl, rfl, rfl⟩, ?_⟩
  intro hFail
  exact absurd rfl hFail

theorem settle_turned (env : ReconcileEnv) (h : SpeechHypothesis) (overlap : Nat) (c : Collected)
    (join : Join) (r : Reconciler) : Turned r h (r.settle env h overlap c join) := by
  unfold settle
  dsimp only
  split
  · exact Turned.error rfl ⟨rfl, rfl⟩
  · split
    · exact Turned.error rfl ⟨rfl, rfl⟩
    · exact Turned.next (output_frame env _ _ _ _).2 (holdTail_turned env h _ _)

/-- What a step that ends without an error hands out: what is stable, and the rest as pending. -/
theorem settle_ok {env : ReconcileEnv} {overlap : Nat} {c : Collected} {join : Join}
    (hOk : (r.settle env h overlap c join).error = none) :
    ∃ boundary status, r.settle env h overlap c join =
      (output env { r with pending := join.tokens c.fresh, metadata := c.metadata } boundary true
        status).next (holdTail env h status) := by
  unfold settle at hOk ⊢
  dsimp only at hOk ⊢
  split at hOk
  · cases hOk
  · rename_i hTokens
    split at hOk
    · cases hOk
    · rename_i hText
      rw [if_neg hTokens, if_neg hText]
      exact ⟨_, _, rfl⟩

theorem applyJoin_frame (env : ReconcileEnv) (r : Reconciler) (join : Join) :
    (r.applyJoin env join).state.window = r.window ∧ (r.applyJoin env join).state.track = r.track := by
  cases join with
  | start => exact ⟨rfl, rfl⟩
  | aligned merged => exact ⟨rfl, rfl⟩
  | unresolved => exact (output_frame env r _ _ _).2
  | flush =>
    rw [applyJoin, Outcome.next]
    split <;> exact (output_frame env r _ _ _).2

theorem reconcile_turned (env : ReconcileEnv) (r : Reconciler) (h : SpeechHypothesis) (overlap : Nat) :
    Turned r h (r.reconcile env h overlap) := by
  unfold reconcile
  split
  · exact Turned.error rfl ⟨rfl, rfl⟩
  · split
    · exact Turned.error rfl ⟨rfl, rfl⟩
    · split
      · exact Turned.error rfl ⟨rfl, rfl⟩
      · split
        · exact Turned.error rfl ⟨rfl, rfl⟩
        · exact Turned.next (applyJoin_frame env r _) (settle_turned env h overlap _ _ _)

theorem accept_turned (env : ReconcileEnv) (r : Reconciler) (h : SpeechHypothesis) (overlap : Nat) :
    Turned r h (r.accept env h overlap) := by
  have hTurned := reconcile_turned env r h overlap
  unfold accept
  split
  · exact Turned.error rfl ⟨rfl, rfl⟩
  · dsimp only
    split
    · rename_i hFail
      exact ⟨fun hNone => absurd hNone (Option.isSome_iff_ne_none.mp hFail), hTurned.failed⟩
    · exact hTurned

end Turns

end Reconciler

end GrpcAsr.Media
