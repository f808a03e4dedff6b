import GrpcAsr.Library.OverlapJoin
import GrpcAsr.Media.ReconcileSteps

/-!
# Reconciliation conserves the recognised text

A run of the reconciler is a run of the token ledger of `OverlapJoin`: a window either
follows the flushed pending tokens or is spliced into them at the anchor. The final
segments render the settled tokens.
-/

namespace GrpcAsr.Media

open Emitting OverlapJoin

set_option autoImplicit false

def finalTokens (segments : List TranscriptSegment) : List SpeechToken :=
  (segments.filter fun segment => segment.final).flatMap fun segment => segment.tokens

def finalText (segments : List TranscriptSegment) : Bytes :=
  (segments.filter fun segment => segment.final).flatMap fun segment => segment.text

@[simp] theorem finalTokens_append (a b : List TranscriptSegment) :
    finalTokens (a ++ b) = finalTokens a ++ finalTokens b := by
  simp [finalTokens]

@[simp] theorem finalText_append (a b : List TranscriptSegment) :
    finalText (a ++ b) = finalText a ++ finalText b := by
  simp [finalText]

theorem letters_separated {source emitted : List SpeechToken}
    (h : List.Forall₂ Separated source emitted) :
    letters tokenKey emitted = letters tokenKey source := by
  induction h with
  | nil => rfl
  | cons hFirst _ ih =>
    rw [letters, letters, List.flatMap_cons, List.flatMap_cons, hFirst.tokenKey]
    exact congrArg _ ih

/-- The final segments carry exactly the given tokens, and their texts are the renderings. -/
structure Settles (source : List SpeechToken) (segments : List TranscriptSegment) : Prop where
  tokens : List.Forall₂ Separated source (finalTokens segments)
  text : finalText segments = (finalTokens segments).flatMap SpeechToken.rendered

namespace Settles

theorem nil : Settles [] [] := ⟨.nil, rfl⟩

theorem append {a b : List SpeechToken} {x y : List TranscriptSegment} (ha : Settles a x)
    (hb : Settles b y) : Settles (a ++ b) (x ++ y) := by
  refine ⟨?_, ?_⟩
  · rw [finalTokens_append]
    exact List.rel_append ha.tokens hb.tokens
  · rw [finalTokens_append, finalText_append, ha.text, hb.text, List.flatMap_append]

theorem key_finalText {source : List SpeechToken} {segments : List TranscriptSegment}
    (h : Settles source segments) : key (finalText segments) = letters tokenKey source := by
  rw [h.text, key_flatMap_rendered]
  exact letters_separated h.tokens

end Settles

theorem joinedKey_eq_letters (tokens : List SpeechToken) :
    joinedKey tokens = letters tokenKey tokens := rfl

theorem Aligned.letters {old fresh : List SpeechToken} {n : Nat} (h : Aligned old fresh n) :
    letters tokenKey (old.take n) = letters tokenKey (fresh.take n) := by
  rw [OverlapJoin.letters, OverlapJoin.letters, List.flatMap_def, List.flatMap_def, h.keys]

namespace Reconciler

/-- The letters before, in and after the anchor all survive in the merged tokens. -/
theorem letters_merge {r : Reconciler} {c : Collected} {found : Match}
    (hSafe : r.joinSafe c found = true)
    (hAligned : Aligned (r.pending.drop found.oldStart) (c.fresh.drop found.newStart) found.run.count) :
    (letters tokenKey r.pending).Sublist (letters tokenKey (r.merge c found)) ∧
      (letters tokenKey c.fresh).Sublist (letters tokenKey (r.merge c found)) := by
  simp only [joinSafe, Bool.and_eq_true, Bool.or_eq_true, beq_iff_eq, decide_eq_true_eq,
    Bool.not_eq_true', decide_eq_false_iff_not, bne_iff_ne, ne_eq] at hSafe
  obtain ⟨⟨-, hBefore⟩, hAfter⟩ := hSafe
  have hTail : (letters tokenKey (r.pending.drop found.oldStart)).Sublist
      (letters tokenKey (c.fresh.drop found.newStart)) := by
    rw [← List.take_append_drop found.run.count (r.pending.drop found.oldStart),
      ← List.take_append_drop found.run.count (c.fresh.drop found.newStart), letters_append,
      letters_append, hAligned.letters, List.drop_drop, List.drop_drop]
    refine List.Sublist.append_left ?_ _
    rcases hAfter with hEnd | ⟨⟨-, hPrefix⟩, -⟩
    · rw [List.drop_eq_nil_of_le (by omega)]
      exact List.nil_sublist _
    · exact (List.isPrefixOf_iff_prefix.mp hPrefix).sublist
  have hOld := List.take_append_drop found.oldStart r.pending
  have hNew := List.take_append_drop found.newStart c.fresh
  unfold merge
  by_cases hStart : found.oldStart = 0
  · rw [if_pos hStart, hStart, List.take_zero, List.nil_append, List.drop_zero]
    rw [hStart, List.drop_zero] at hTail
    refine ⟨hTail.trans ?_, List.Sublist.refl _⟩
    conv_rhs => rw [← hNew, letters_append]
    exact List.sublist_append_right _ _
  · rw [if_neg hStart, letters_append]
    refine ⟨?_, ?_⟩
    · conv_lhs => rw [← hOld, letters_append]
      exact hTail.append_left _
    · rcases hBefore with (hZero | hFirst) | hEqual
      · exact absurd hZero hStart
      · rw [hFirst, List.drop_zero]
        exact List.sublist_append_right _ _
      · conv_lhs => rw [← hNew, letters_append]
        rw [joinedKey_eq_letters, joinedKey_eq_letters] at hEqual
        rw [hEqual]

/-- An aligned join is a splice that keeps the letters of both sides. -/
theorem joinOf_aligned {r : Reconciler} {h : SpeechHypothesis} {c : Collected}
    {merged : List SpeechToken} (hJoin : r.joinOf h c = .aligned merged) :
    ∃ i j, merged = splice r.pending c.fresh i j ∧
      (letters tokenKey r.pending).Sublist (letters tokenKey merged) ∧
      (letters tokenKey c.fresh).Sublist (letters tokenKey merged) := by
  obtain ⟨-, hSafe, rfl⟩ := joinOf_merge hJoin
  exact ⟨_, _, rfl, letters_merge hSafe (anchor_aligned _ _ _)⟩

theorem shown_settles {env : ReconcileEnv} {r : Reconciler} {count : Nat}
    {tokens : List SpeechToken} {text : Bytes} (hShows : r.Shows env count tokens text)
    (status : ReconciliationStatus) :
    Settles (r.pending.take count) [r.shown env count tokens text true status] := by
  obtain ⟨hSeparated, hText⟩ := render_ok hShows.1
  refine ⟨?_, ?_⟩
  · simpa [finalTokens, shown, segment] using hSeparated
  · simpa [finalText, finalTokens, shown, segment] using hText

theorem output_settles {env : ReconcileEnv} {r : Reconciler} {count : Nat} {final : Bool}
    {status : ReconciliationStatus} (h : (r.output env count final status).error = none) :
    Settles (if final then r.pending.take count else [])
      (r.output env count final status).emitted := by
  rcases output_ok h with ⟨rfl, hNone⟩ | ⟨-, tokens, text, hShows, hDone⟩
  · rw [hNone]
    cases final <;> exact Settles.nil
  · rw [hDone]
    cases final with
    | false =>
      refine ⟨?_, ?_⟩
      · simp [finalTokens, shown, segment]
      · simp [finalText, finalTokens, shown, segment]
    | true => exact shown_settles hShows status

/-- What `finish` would render does render. -/
def Renderable (r : Reconciler) : Prop :=
  ∃ tokens text, r.render r.pending [] 0 = .ok (tokens, text) ∧ utf8 text = true

theorem renderable_of_output {env : ReconcileEnv} {r : Reconciler} {status : ReconciliationStatus}
    (h : (r.output env r.pending.length false status).error = none) :
    (r.output env r.pending.length false status).state.Renderable := by
  rcases output_ok h with ⟨hZero, hNone⟩ | ⟨-, tokens, text, ⟨hRender, hUtf8⟩, hDone⟩
  · rw [hNone]
    refine ⟨[], [], ?_, rfl⟩
    rw [List.eq_nil_of_length_eq_zero hZero]
    rfl
  · rw [hDone]
    refine ⟨tokens, text, ?_, hUtf8⟩
    rw [List.take_length] at hRender
    simp only [Bool.false_eq_true, if_false]
    rw [handedOut_pending]
    rw [← hRender]
    apply render_congr <;> rfl

theorem Renderable.congr {r r' : Reconciler} (h : r.Renderable) (hPending : r'.pending = r.pending)
    (hText : r.haveFinalText = r'.haveFinalText) (hSpace : r.finalEndsSpace = r'.finalEndsSpace) :
    r'.Renderable := by
  obtain ⟨tokens, text, hRender, hUtf8⟩ := h
  refine ⟨tokens, text, ?_, hUtf8⟩
  rw [hPending, ← render_congr hText hSpace]
  exact hRender

theorem settle_settles {env : ReconcileEnv} {r : Reconciler} {h : SpeechHypothesis} {overlap : Nat}
    {c : Collected} {join : Join} (hOk : (r.settle env h overlap c join).error = none) :
    ∃ n, Settles ((join.tokens c.fresh).take n) (r.settle env h overlap c join).emitted ∧
      (r.settle env h overlap c join).state.pending = (join.tokens c.fresh).drop n ∧
      (r.settle env h overlap c join).state.closed = r.closed ∧
      (r.settle env h overlap c join).state.Renderable := by
  obtain ⟨boundary, status, hSettle⟩ := settle_ok hOk
  rw [hSettle] at hOk ⊢
  obtain ⟨hFinal, hRest⟩ := Outcome.next_error_none hOk
  rw [Outcome.next_of_none hFinal]
  unfold holdTail at hRest ⊢
  dsimp only at hRest ⊢
  obtain ⟨hPending, -⟩ := Outcome.next_error_none hRest
  rw [Outcome.next_of_none hPending]
  have hSettles := (output_settles hFinal).append (output_settles hPending)
  have hLeft := output_pending hFinal
  have hSame := output_pending hPending
  simp only [if_true, Bool.false_eq_true, if_false] at hSettles hLeft hSame
  refine ⟨_, by simpa using hSettles, hSame.trans hLeft, ?_, ?_⟩
  · exact (output_frame env _ _ _ _).1.trans (output_frame env _ _ _ _).1
  · exact (renderable_of_output hPending).congr rfl rfl rfl

/-- Unless the join is aligned, everything pending is settled before the new window. -/
theorem applyJoin_settles {env : ReconcileEnv} {r : Reconciler} {h : SpeechHypothesis} {c : Collected}
    (hJoin : (r.applyJoin env (r.joinOf h c)).error = none) :
    (r.applyJoin env (r.joinOf h c)).state.closed = r.closed ∧
      ((r.joinOf h c).status ≠ .aligned →
        Settles r.pending (r.applyJoin env (r.joinOf h c)).emitted) ∧
      ((r.joinOf h c).status = .aligned → (r.applyJoin env (r.joinOf h c)).emitted = []) := by
  cases hKind : r.joinOf h c with
  | start =>
    refine ⟨rfl, fun _ => ?_, fun _ => rfl⟩
    rw [joinOf_start hKind]
    exact Settles.nil
  | flush =>
    rw [hKind] at hJoin
    obtain ⟨hOut, -⟩ := Outcome.next_error_none hJoin
    rw [applyJoin, Outcome.next_of_none hOut]
    refine ⟨(output_frame env r _ _ _).1, fun _ => ?_, fun hAligned => ReconciliationStatus.noConfusion hAligned⟩
    simpa using output_settles hOut
  | aligned merged => exact ⟨rfl, fun hNot => absurd rfl hNot, fun _ => rfl⟩
  | unresolved =>
    rw [hKind] at hJoin
    refine ⟨(output_frame env r _ _ _).1, fun _ => ?_, fun hAligned => ReconciliationStatus.noConfusion hAligned⟩
    simpa [applyJoin] using output_settles hJoin

/-- A window either follows what was pending, all of which is settled, or is spliced into it. -/
theorem accept_settles {env : ReconcileEnv} {r : Reconciler} {h : SpeechHypothesis} {overlap : Nat}
    (hOk : (r.accept env h overlap).error = none) :
    ∃ c n, collect h = .ok c ∧
      (((r.joinOf h c).status ≠ .aligned ∧
          Settles (r.pending ++ c.fresh.take n) (r.accept env h overlap).emitted ∧
          (r.accept env h overlap).state.pending = c.fresh.drop n) ∨
        (∃ merged, r.joinOf h c = .aligned merged ∧
          Settles (merged.take n) (r.accept env h overlap).emitted ∧
          (r.accept env h overlap).state.pending = merged.drop n)) ∧
      (r.accept env h overlap).state.Renderable ∧ (r.accept env h overlap).state.closed = false := by
  obtain ⟨hOpen, -, -, c, hCollect, hJoin, hSettle, hEq⟩ := accept_ok hOk
  obtain ⟨n, hSettles, hPending, hClosed, hRenders⟩ := settle_settles hSettle
  have hNext := Outcome.next_of_none (f := fun next => next.settle env h overlap c (r.joinOf h c)) hJoin
  rw [hEq, hNext]
  obtain ⟨hSame, hFollow, hSplice⟩ := applyJoin_settles hJoin
  refine ⟨c, n, hCollect, ?_, hRenders, hClosed.trans (hSame.trans hOpen)⟩
  cases hKind : r.joinOf h c with
  | aligned merged =>
    rw [hKind] at hSettles hPending hSplice
    refine Or.inr ⟨merged, rfl, ?_, hPending⟩
    rw [hSplice rfl, List.nil_append]
    exact hSettles
  | start =>
    rw [hKind] at hSettles hPending hFollow
    exact Or.inl ⟨nofun, (hFollow nofun).append hSettles, hPending⟩
  | flush =>
    rw [hKind] at hSettles hPending hFollow
    exact Or.inl ⟨nofun, (hFollow nofun).append hSettles, hPending⟩
  | unresolved =>
    rw [hKind] at hSettles hPending hFollow
    exact Or.inl ⟨nofun, (hFollow nofun).append hSettles, hPending⟩

def acceptCall (env : ReconcileEnv) (r : Reconciler) (call : SpeechHypothesis × Nat) :
    ReconcileOutcome := r.accept env call.1 call.2

/-- The joins the reconciler makes of a sequence of hypotheses. -/
def joins (env : ReconcileEnv) : Reconciler → List (SpeechHypothesis × Nat) → List Join
  | _, [] => []
  | r, call :: calls =>
    match collect call.1 with
    | .error _ => []
    | .ok c => r.joinOf call.1 c :: joins env (r.acceptCall env call).state calls

/-- The run so far as a run of the ledger: settled tokens are in final segments, and an
aligned join was made if the ledger was ever spliced. -/
structure Joined (env : ReconcileEnv) (calls : List (SpeechHypothesis × Nat)) (r : Reconciler)
    (segments : List TranscriptSegment) : Prop where
  ledger : ∃ spliced settled,
    OverlapJoin.Run tokenKey (calls.map fun call => call.1.fitted) spliced ⟨settled, r.pending⟩ ∧
      Settles settled segments ∧
      (spliced = true → ∀ rest, ∃ join ∈ joins env initial (calls ++ rest), join.status = .aligned)
  joins : ∀ rest, joins env r rest <:+ joins env initial (calls ++ rest)
  renderable : r.Renderable
  closed : r.closed = false

theorem Joined.initial (env : ReconcileEnv) : Joined env [] initial [] where
  ledger := ⟨false, [], .empty, Settles.nil, nofun⟩
  joins := fun _ => List.suffix_refl _
  renderable := ⟨[], [], rfl, rfl⟩
  closed := rfl

theorem Joined.acceptCall {env : ReconcileEnv} {calls : List (SpeechHypothesis × Nat)}
    {r : Reconciler} {segments : List TranscriptSegment} (h : Joined env calls r segments)
    (call : SpeechHypothesis × Nat) (hOk : (r.acceptCall env call).error = none) :
    Joined env (calls ++ [call]) (r.acceptCall env call).state
      (segments ++ (r.acceptCall env call).emitted) := by
  obtain ⟨c, n, hCollect, hCases, hRenderable, hClosed⟩ := accept_settles hOk
  obtain ⟨spliced, settled, hRun, hSettles, hAligned⟩ := h.ledger
  have hFitted : call.1.fitted = c.fresh := (collect_ok hCollect).1.symm
  have hJoins : ∀ rest, r.joinOf call.1 c :: Reconciler.joins env (r.acceptCall env call).state rest <:+
      Reconciler.joins env Reconciler.initial (calls ++ [call] ++ rest) := by
    intro rest
    have hSuffix := h.joins (call :: rest)
    rw [Reconciler.joins, hCollect] at hSuffix
    simpa using hSuffix
  refine ⟨?_, fun rest => (List.suffix_cons _ _).trans (hJoins rest), hRenderable, hClosed⟩
  rw [List.map_append, List.map_singleton, hFitted]
  rcases hCases with ⟨-, hEmitted, hPending⟩ | ⟨merged, hJoin, hEmitted, hPending⟩
  · refine ⟨spliced, settled ++ r.pending ++ c.fresh.take n, ?_, ?_, ?_⟩
    · rw [Reconciler.acceptCall, hPending]
      exact .follow c.fresh n hRun
    · rw [List.append_assoc]
      exact hSettles.append hEmitted
    · intro hSpliced rest
      rw [List.append_assoc]
      exact hAligned hSpliced _
  · obtain ⟨i, j, rfl, hOld, hNew⟩ := joinOf_aligned hJoin
    refine ⟨true, settled ++ (splice r.pending c.fresh i j).take n, ?_, hSettles.append hEmitted, ?_⟩
    · rw [Reconciler.acceptCall, hPending]
      exact .splice c.fresh i j n hRun hOld hNew
    · intro _ rest
      refine ⟨_, (hJoins rest).subset List.mem_cons_self, ?_⟩
      rw [hJoin]
      rfl

theorem Joined.run {env : ReconcileEnv} (calls : List (SpeechHypothesis × Nat))
    (hOk : (runAll (Reconciler.acceptCall env) Reconciler.initial calls).error = none) :
    Joined env calls (runAll (Reconciler.acceptCall env) Reconciler.initial calls).state
      (runAll (Reconciler.acceptCall env) Reconciler.initial calls).emitted := by
  have hTracks := runAll_tracks (P := Joined env)
    (fun _ _ call _ h hStep => h.acceptCall call hStep) calls [] Reconciler.initial []
    (Joined.initial env) hOk
  simpa using hTracks

/-- Whether or not the callback throws, `finish` hands out all that is pending. -/
theorem finish_settles {env : ReconcileEnv} {r : Reconciler} (hOpen : r.closed = false)
    (hRenderable : r.Renderable) : Settles r.pending (r.finish env).emitted := by
  obtain ⟨tokens, text, hRender, hUtf8⟩ := hRenderable
  have hShown : (({ r with closed := true } : Reconciler).revise env).render
      (r.pending.take r.pending.length) [] 0 = .ok (tokens, text) := by
    rw [List.take_length, ← hRender]
    apply render_congr
    · exact revise_haveFinalText env _
    · exact revise_finalEndsSpace env _
  rw [finish, if_neg (by simp [hOpen])]
  rcases output_cases env { r with closed := true } r.pending.length true r.flushStatus with
    ⟨hZero, hNone⟩ | ⟨-, hNot, -⟩ | ⟨-, tokens', text', hShows, ⟨e, hThrow⟩ | hDone⟩
  · rw [hNone, List.eq_nil_of_length_eq_zero hZero]
    exact Settles.nil
  · exact absurd ⟨hShown, hUtf8⟩ (hNot tokens text)
  · rw [hThrow]
    simpa using shown_settles hShows r.flushStatus
  · rw [hDone]
    simpa using shown_settles hShows r.flushStatus

/-- All segments handed out for a sequence of hypotheses and the closing `finish`. -/
def transcript (env : ReconcileEnv) (calls : List (SpeechHypothesis × Nat)) :
    List TranscriptSegment :=
  let accepted := runAll (acceptCall env) initial calls
  accepted.emitted ++ (accepted.state.finish env).emitted

end Reconciler

/-- The emitted token is the given lexical token of the given hypothesis, moved into its
window and with at most one leading space. -/
def Emits (calls : List (SpeechHypothesis × Nat)) (origin : Nat × Nat) (emitted : SpeechToken) : Prop :=
  ∃ call token, calls[origin.1]? = some call ∧ call.1.lexical[origin.2]? = some token ∧
    Separated (token.fit call.1.windowStart call.1.windowEnd) emitted

theorem Emits.of_from {calls : List (SpeechHypothesis × Nat)} {origin : Nat × Nat}
    {token emitted : SpeechToken} (h : From (calls.map fun call => call.1.fitted) origin token)
    (hSeparated : Separated token emitted) : Emits calls origin emitted := by
  obtain ⟨fitted, hCall, hToken⟩ := h
  rw [List.getElem?_map, Option.map_eq_some_iff] at hCall
  obtain ⟨call, hCall, rfl⟩ := hCall
  rw [SpeechHypothesis.fitted, List.getElem?_map, Option.map_eq_some_iff] at hToken
  obtain ⟨lexical, hLexical, rfl⟩ := hToken
  exact ⟨call, lexical, hCall, hLexical, hSeparated⟩

theorem emits_of_origins {calls : List (SpeechHypothesis × Nat)} {origins : List (Nat × Nat)}
    {tokens emitted : List SpeechToken}
    (hFrom : List.Forall₂ (From (calls.map fun call => call.1.fitted)) origins tokens)
    (hSeparated : List.Forall₂ Separated tokens emitted) :
    List.Forall₂ (Emits calls) origins emitted := by
  induction hFrom generalizing emitted with
  | nil =>
    cases hSeparated
    exact .nil
  | cons hFirst _ ih =>
    cases hSeparated with
    | cons hSep hRest => exact .cons (Emits.of_from hFirst hSep) (ih hRest)

theorem tokenKey_fit (token : SpeechToken) (low high : Int) :
    tokenKey (token.fit low high) = tokenKey token := by
  unfold SpeechToken.fit
  split <;> rfl

theorem letters_fitted (h : SpeechHypothesis) : letters tokenKey h.fitted = letters tokenKey h.lexical := by
  simp only [letters, SpeechHypothesis.fitted, List.flatMap_map, tokenKey_fit]

/-- Every lexical token is emitted at most once, and exactly once and in order when no join
was aligned; no letter of any window is lost. -/
theorem reconciled_text_conserved (env : ReconcileEnv) (calls : List (SpeechHypothesis × Nat))
    (hOk : (runAll (Reconciler.acceptCall env) Reconciler.initial calls).error = none) :
    (∃ origins : List (Nat × Nat), origins.Nodup ∧
      List.Forall₂ (Emits calls) origins (finalTokens (Reconciler.transcript env calls))) ∧
    ((∀ join ∈ Reconciler.joins env Reconciler.initial calls, join.status ≠ .aligned) →
      List.Forall₂ Separated (calls.flatMap fun call => call.1.fitted)
        (finalTokens (Reconciler.transcript env calls))) ∧
    (∀ call ∈ calls, (call.1.lexical.flatMap fun token => key token.rendered).Sublist
      (key (finalText (Reconciler.transcript env calls)))) := by
  obtain ⟨⟨spliced, settled, hRun, hSettles, hAligned⟩, -, hRenderable, hClosed⟩ :=
    Reconciler.Joined.run calls hOk
  have hAll : Settles (Ledger.kept ⟨settled, _⟩) (Reconciler.transcript env calls) :=
    hSettles.append (Reconciler.finish_settles hClosed hRenderable)
  refine ⟨?_, ?_, ?_⟩
  · obtain ⟨origins, hNodup, hFrom⟩ := hRun.origins
    exact ⟨origins, hNodup, emits_of_origins hFrom hAll.tokens⟩
  · intro hNone
    have hDirect : spliced = false := by
      rw [← Bool.not_eq_true]
      intro hSpliced
      obtain ⟨join, hMem, hStatus⟩ := hAligned hSpliced []
      rw [List.append_nil] at hMem
      exact hNone join hMem hStatus
    have hKept := hRun.kept_eq_flatten hDirect
    rw [List.flatMap_def, ← hKept]
    exact hAll.tokens
  · intro call hCall
    have hLetters := hRun.letters_sublist _ (List.mem_map_of_mem hCall)
    rw [hAll.key_finalText]
    rw [letters_fitted] at hLetters
    exact hLetters

theorem reconciled_text_conserved_overlap :
    ((Reconciler.joins quietEnv Reconciler.initial overlapping).map Join.status = [.direct, .aligned]) ∧
      ∀ call ∈ overlapping, (call.1.lexical.flatMap fun token => key token.rendered).Sublist
        (key (finalText (Reconciler.transcript quietEnv overlapping))) :=
  ⟨by decide +kernel, (reconciled_text_conserved quietEnv overlapping (by decide +kernel)).2.2⟩

end GrpcAsr.Media
