import GrpcAsr.Media.ReconcileRevisions
import GrpcAsr.Media.ReconcileUtf8

/-!
# The stable cutoff between native words

The pending tokens of every reachable open reconciler render complete UTF-8, and so do
the joined ones. The walk to the cutoff marks each complete prefix, so the boundary
falls on a word start.
-/

namespace GrpcAsr.Media

open Emitting

set_option autoImplicit false

namespace Reconciler

/-- A restored separator is no part of a character, so the tokens alone are complete. -/
theorem render_plain {r : Reconciler} {source tokens : List SpeechToken} {text whole plain : Bytes}
    {outputBytes : Nat} (h : r.render source text outputBytes = .ok (tokens, whole))
    (hSame : ∀ rest, utf8 (text ++ rest) = true → utf8 (plain ++ rest) = true)
    (hWhole : utf8 whole = true) : utf8 (plain ++ plainText source) = true := by
  induction source generalizing plain tokens text outputBytes with
  | nil =>
    cases h
    have hPlain := hSame []
    simp only [List.append_nil] at hPlain
    rw [plainText_nil, List.append_nil]
    exact hPlain hWhole
  | cons token source ih =>
    rw [render] at h
    split at h
    · cases h
    · split at h
      · rename_i others whole' hRest
        cases h
        have hToken : ∀ rest, utf8 (text ++ (r.separate text token).rendered ++ rest) = true →
            utf8 (plain ++ token.rendered ++ rest) = true := by
          intro rest hRead
          unfold separate at hRead
          split at hRead
          · rw [List.append_assoc] at hRead
            have hSpace : utf8 (text ++ 32 :: (token.rendered ++ rest)) = true := hRead
            have hText : utf8 text = true := by
              refine utf8_of_boundary hSpace fun c tail hFirst => ?_
              obtain rfl := (List.cons.inj hFirst).1
              decide
            have hPlain := hSame []
            simp only [List.append_nil] at hPlain
            rw [utf8_append hText, utf8_ascii (by decide)] at hSpace
            rw [List.append_assoc, utf8_append (hPlain hText)]
            exact hSpace
          · rw [List.append_assoc] at hRead ⊢
            exact hSame _ hRead
        have hAll := ih hRest hToken
        simpa using hAll
      · cases h

theorem Renderable.complete {r : Reconciler} (h : r.Renderable) :
    utf8 (plainText r.pending) = true := by
  obtain ⟨tokens, text, hRender, hUtf8⟩ := h
  exact @render_plain r r.pending tokens [] text [] 0 hRender (fun _ hRead => hRead) hUtf8

theorem joinOf_complete {r : Reconciler} {h : SpeechHypothesis} {c : Collected}
    (hPending : utf8 (plainText r.pending) = true) (hCollect : collect h = .ok c) :
    utf8 (plainText ((r.joinOf h c).tokens c.fresh)) = true := by
  have hFresh := collect_complete hCollect
  cases hJoin : r.joinOf h c with
  | start | flush | unresolved => exact hFresh
  | aligned merged =>
    obtain ⟨-, hSafe, rfl⟩ := joinOf_merge hJoin
    exact merge_complete hSafe hPending hFresh

/-- An open reconciler has shown its pending tokens, so they would render again. -/
def Held (r : Reconciler) : Prop := r.closed = false → r.Renderable

theorem call_held (env : ReconcileEnv) (r : Reconciler) (c : ReconcileCall) :
    (r.call env c).state.Held := by
  intro hOpen
  cases hError : (r.call env c).error with
  | some e =>
    rw [call_fails env r c (by rw [hError]; rfl)] at hOpen
    cases hOpen
  | none =>
    cases c with
    | accept hypothesis overlap =>
      obtain ⟨c, n, -, -, hRenderable, -⟩ := accept_settles hError
      exact hRenderable
    | finish =>
      rw [show (r.call env .finish).state.closed = true from finish_closed env r] at hOpen
      cases hOpen

theorem run_held (env : ReconcileEnv) (calls : List ReconcileCall) :
    (after (Reconciler.call env) initial calls).Held :=
  runThrough_keeps (Reconciler.call env) (P := fun r _ => r.Held) (fun r c _ _ => call_held env r c)
    calls initial [] fun _ => ⟨[], [], rfl, rfl⟩

/-- The tokens of a hypothesis that passes the checks of a call. -/
def checked (r : Reconciler) (h : SpeechHypothesis) (overlap : Nat) : Option Collected :=
  if r.closed || r.trackChanged h || !r.windowValid h overlap || !timestampValid h then none
  else (collect h).toOption

/-- A join of the tokens of a call and the cutoff step behind it. -/
def joinAndSettle (env : ReconcileEnv) (r : Reconciler) (h : SpeechHypothesis) (overlap : Nat)
    (c : Collected) : ReconcileOutcome :=
  (r.applyJoin env (r.joinOf h c)).next fun next => next.settle env h overlap c (r.joinOf h c)

theorem checked_some {r : Reconciler} {h : SpeechHypothesis} {overlap : Nat} {c : Collected}
    (hChecked : r.checked h overlap = some c) : r.closed = false ∧ collect h = .ok c := by
  unfold checked at hChecked
  split at hChecked
  · cases hChecked
  · rename_i hValid
    simp only [Bool.or_eq_true, not_or, Bool.not_eq_true] at hValid
    refine ⟨hValid.1.1.1, ?_⟩
    cases hCollect : collect h with
    | error failure =>
      rw [hCollect] at hChecked
      cases hChecked
    | ok found =>
      rw [hCollect] at hChecked
      cases hChecked
      rfl

/-- A call that passes its checks joins and settles; only a failure closes the reconciler. -/
theorem accept_checked (env : ReconcileEnv) {r : Reconciler} {h : SpeechHypothesis} {overlap : Nat}
    {c : Collected} (hChecked : r.checked h overlap = some c) :
    (r.accept env h overlap).emitted = (r.joinAndSettle env h overlap c).emitted ∧
      (r.accept env h overlap).error = (r.joinAndSettle env h overlap c).error ∧
      ((r.joinAndSettle env h overlap c).error = none →
        (r.accept env h overlap).state = (r.joinAndSettle env h overlap c).state) := by
  obtain ⟨hOpen, hCollect⟩ := checked_some hChecked
  unfold checked at hChecked
  split at hChecked
  · cases hChecked
  · rename_i hValid
    simp only [Bool.or_eq_true, not_or, Bool.not_eq_true] at hValid
    obtain ⟨⟨⟨-, hTrack⟩, hWindow⟩, hTime⟩ := hValid
    have hSame : r.reconcile env h overlap = r.joinAndSettle env h overlap c := by
      rw [reconcile, if_neg (by simp [hTrack]), if_neg (by simp [hWindow]), if_neg (by simp [hTime]),
        hCollect]
      rfl
    rw [accept, if_neg (by simp [hOpen])]
    dsimp only
    rw [hSame]
    split
    · rename_i hFailed
      exact ⟨rfl, rfl, fun hNone => absurd hNone (Option.isSome_iff_ne_none.mp hFailed)⟩
    · exact ⟨rfl, rfl, fun _ => rfl⟩

theorem accept_unchecked (env : ReconcileEnv) {r : Reconciler} {h : SpeechHypothesis} {overlap : Nat}
    (hChecked : r.checked h overlap = none) :
    (r.accept env h overlap).emitted = [] ∧ (r.accept env h overlap).error ≠ none := by
  have hReconcile : r.closed = false → (r.reconcile env h overlap).emitted = [] ∧
      (r.reconcile env h overlap).error ≠ none := by
    intro hOpen
    unfold checked at hChecked
    unfold reconcile
    split
    · exact ⟨rfl, by simp⟩
    · rename_i hTrack
      split
      · exact ⟨rfl, by simp⟩
      · rename_i hWindow
        split
        · exact ⟨rfl, by simp⟩
        · rename_i hTime
          rw [if_neg (by simp_all)] at hChecked
          cases hCollect : collect h with
          | error failure => exact ⟨rfl, by simp⟩
          | ok c =>
            rw [hCollect] at hChecked
            cases hChecked
  unfold accept
  split
  · exact ⟨rfl, by simp⟩
  · rename_i hOpen
    obtain ⟨hNone, hFailed⟩ := hReconcile (by simpa using hOpen)
    dsimp only
    rw [if_pos (Option.isSome_iff_ne_none.mpr hFailed)]
    exact ⟨hNone, hFailed⟩

/-- The state in which a call reaches the cutoff: the join is made, and the joined tokens
are pending and within the limits. -/
def atCutoff (env : ReconcileEnv) (r : Reconciler) (h : SpeechHypothesis) (overlap : Nat) :
    Option Reconciler :=
  match r.checked h overlap with
  | none => none
  | some c =>
    let o := r.applyJoin env (r.joinOf h c)
    let joined := { o.state with pending := (r.joinOf h c).tokens c.fresh, metadata := c.metadata }
    if o.error.isSome || tokenLimit < joined.pending.length ||
        textLimit < (joined.pending.map SpeechToken.tokenBytes).sum then none
    else some joined

def stableStatus (c : Collected) (join : Join) (uncertain : Bool) : ReconciliationStatus :=
  if c.invalidTiming || uncertain then .unresolved else join.status

/-- The number of pending tokens that the cutoff step finalises. -/
def boundaryAt (r : Reconciler) (h : SpeechHypothesis) (overlap : Nat) : Nat :=
  stableBoundary r.pending overlap (h.windowEnd - micros overlap)

/-- From the cutoff on, a call hands out the stable part and holds the rest. -/
theorem accept_atCutoff {env : ReconcileEnv} {r joined : Reconciler} {h : SpeechHypothesis}
    {overlap : Nat} (hCut : r.atCutoff env h overlap = some joined) :
    ∃ c status, r.checked h overlap = some c ∧ joined.pending = (r.joinOf h c).tokens c.fresh ∧
      (r.accept env h overlap).emitted = (r.applyJoin env (r.joinOf h c)).emitted ++
        ((joined.output env (joined.boundaryAt h overlap) true status).next
          (holdTail env h status)).emitted := by
  unfold atCutoff at hCut
  cases hChecked : r.checked h overlap with
  | none =>
    rw [hChecked] at hCut
    cases hCut
  | some c =>
    rw [hChecked] at hCut
    dsimp only at hCut
    split at hCut
    · cases hCut
    · rename_i hLimits
      simp only [Bool.or_eq_true, decide_eq_true_eq, not_or, Bool.not_eq_true,
        Option.isSome_eq_false_iff, Option.isNone_iff_eq_none] at hLimits
      obtain ⟨⟨hJoin, hTokens⟩, hText⟩ := hLimits
      cases hCut
      refine ⟨c, stableStatus c (r.joinOf h c) (r.applyJoin env (r.joinOf h c)).state.uncertain, rfl, rfl,
        ?_⟩
      rw [(accept_checked env hChecked).1, joinAndSettle, Outcome.next_of_none hJoin, settle]
      dsimp only
      rw [if_neg hTokens, if_neg hText]
      rfl

/-- What the walk over tokens that end in time has found: its marks are the last complete
prefix and the last word start. -/
structure Scanned (tokens : List SpeechToken) (overlap : Nat) (cutoff : Int)
    (done : List SpeechToken) (b : Boundary) : Prop where
  text : b.pre = plainText done
  stable : b.stable = done.length
  safe_le : b.safe ≤ done.length
  last : ∀ n ≤ done.length, utf8 (plainText (tokens.take n)) = true → n ≤ b.safe
  word : b.wordStart = 0 ∨
    b.wordStart < done.length ∧ tokens[b.wordStart]?.any SpeechToken.isWordStart = true
  early : overlap ≠ 0 → ∀ token ∈ done, token.end ≤ cutoff

theorem Scanned.step {tokens done rest : List SpeechToken} {token : SpeechToken} {overlap : Nat}
    {cutoff : Int} {b : Boundary} (hSplit : tokens = done ++ token :: rest)
    (hEnd : overlap ≠ 0 → token.end ≤ cutoff) (h : Scanned tokens overlap cutoff done b) :
    Scanned tokens overlap cutoff (done ++ [token])
      { stable := b.stable + 1
        safe := if utf8 (b.pre ++ token.rendered) then b.stable + 1 else b.safe
        wordStart := if token.isWordStart then b.stable else b.wordStart
        pre := b.pre ++ token.rendered } := by
  have hLength : (done ++ [token]).length = done.length + 1 := by simp
  have hSafe := h.safe_le
  have hStable := h.stable
  have hText : b.pre ++ token.rendered = plainText (done ++ [token]) := by
    rw [h.text, plainText_append]
    simp
  refine ⟨hText, by rw [hLength]; dsimp only; omega, ?_, fun n hn hComplete => ?_, ?_, fun hOverlap => ?_⟩
  · rw [hLength]
    dsimp only
    split <;> omega
  · rw [hLength] at hn
    dsimp only
    rcases Nat.lt_or_eq_of_le hn with hBefore | rfl
    · have hOld := h.last n (by omega) hComplete
      split <;> omega
    · have hTake : tokens.take (done.length + 1) = done ++ [token] := by
        rw [hSplit, List.take_append, List.take_of_length_le (by omega)]
        simp
      rw [hTake, ← hText] at hComplete
      rw [if_pos hComplete]
      omega
  · dsimp only
    rw [hLength]
    split
    · rename_i hStart
      refine Or.inr ⟨by omega, ?_⟩
      rw [hSplit, hStable]
      simpa using hStart
    · exact h.word.imp_right fun hWord => ⟨by omega, hWord.2⟩
  · intro other hOther
    rcases List.mem_append.mp hOther with hOld | hNew
    · exact h.early hOverlap other hOld
    · rw [List.mem_singleton.mp hNew]
      exact hEnd hOverlap

theorem stableWalk_scanned (tokens : List SpeechToken) (overlap : Nat) (cutoff : Int) :
    ∃ done rest, tokens = done ++ rest ∧
      Scanned tokens overlap cutoff done (stableWalk overlap cutoff tokens default) := by
  refine stableWalk_induction (P := Scanned tokens overlap cutoff)
    (fun _ _ _ _ hSplit hEnd h => h.step hSplit hEnd) tokens [] default rfl ?_
  exact ⟨rfl, rfl, Nat.le_refl 0, fun n hn _ => hn, .inl rfl, fun _ _ hNone => nomatch hNone⟩

/-- The boundary is one of the walk's marks, so everything before it ends in time. -/
theorem stableBoundary_early (tokens : List SpeechToken) {overlap : Nat} (hOverlap : overlap ≠ 0)
    (cutoff : Int) :
    ∀ token ∈ tokens.take (stableBoundary tokens overlap cutoff), token.end ≤ cutoff := by
  obtain ⟨done, rest, hSplit, hScan⟩ := stableWalk_scanned tokens overlap cutoff
  have hBefore : stableBoundary tokens overlap cutoff ≤ done.length := by
    have hSafe := hScan.safe_le
    unfold stableBoundary
    dsimp only
    split
    · split <;> omega
    · exact hSafe
  intro token hToken
  refine hScan.early hOverlap token ?_
  generalize stableBoundary tokens overlap cutoff = n at hBefore hToken
  rw [hSplit, List.take_append_of_le_length hBefore] at hToken
  exact List.mem_of_mem_take hToken

/-- Of complete native tokens, the first one behind the boundary is a word start. -/
theorem stableBoundary_word {tokens : List SpeechToken}
    (hNative : ∀ token ∈ tokens, token.parakeet.isSome = true)
    (hComplete : utf8 (plainText tokens) = true) (hWords : WordsAligned tokens) {overlap : Nat}
    {cutoff : Int} (hSome : 0 < stableBoundary tokens overlap cutoff)
    (hPart : stableBoundary tokens overlap cutoff < tokens.length) :
    tokens[stableBoundary tokens overlap cutoff]?.any SpeechToken.isWordStart = true := by
  obtain ⟨done, rest, hSplit, hScan⟩ := stableWalk_scanned tokens overlap cutoff
  have hBoundary := (wordsAligned_iff tokens).mp hWords
  have hDone : done.length ≤ tokens.length := by
    rw [hSplit, List.length_append]
    omega
  have hSafe := hScan.safe_le
  have hStable := hScan.stable
  unfold stableBoundary at hSome hPart ⊢
  dsimp only at hSome hPart ⊢
  generalize stableWalk overlap cutoff tokens default = b at hScan hSome hPart hSafe hStable ⊢
  cases hNext : tokens[b.stable]? with
  | none =>
    have hAll : done.length = tokens.length := by
      have hBeyond := List.getElem?_eq_none_iff.mp hNext
      omega
    rw [hNext] at hPart
    have hLast := hScan.last tokens.length (by omega) (by rw [List.take_length]; exact hComplete)
    dsimp only at hPart
    omega
  | some token =>
    rw [hNext] at hSome hPart
    obtain ⟨hBefore, hToken⟩ := List.getElem?_eq_some_iff.mp hNext
    have hHas : token.parakeet.isSome = true := hNative token (List.mem_of_getElem? hNext)
    dsimp only at hSome hPart ⊢
    rw [hHas] at hSome hPart ⊢
    cases hStart : token.isWordStart with
    | true =>
      rw [hStart] at hSome hPart
      have hAt : tokens[b.stable]?.any SpeechToken.isWordStart = true := by
        rw [hNext]
        exact hStart
      have hLast := hScan.last b.stable (by omega) (hBoundary b.stable hBefore hAt)
      have hEq : b.safe = b.stable := by omega
      simpa [hEq] using hAt
    | false =>
      rw [hStart] at hSome hPart
      simp only [Bool.not_false, Bool.and_self, if_true] at hSome hPart ⊢
      rcases hScan.word with hZero | ⟨hLater, hWord⟩
      · omega
      · have hLast := hScan.last b.wordStart (by omega)
          (hBoundary b.wordStart (by omega) hWord)
        rw [Nat.min_eq_right hLast]
        exact hWord

end Reconciler

/-- In any run, the cutoff step of a call splits its pending tokens in front of a native
word, and what it hands out ends before the overlap. -/
theorem stable_cutoff_keeps_words (env : ReconcileEnv) (calls : List ReconcileCall)
    (h : SpeechHypothesis) (overlap : Nat) (joined : Reconciler)
    (hCut : (after (Reconciler.call env) Reconciler.initial calls).atCutoff env h overlap = some joined)
    (hNative : ∀ token ∈ joined.pending, token.parakeet.isSome = true)
    (hWords : WordsAligned joined.pending) :
    (∃ flushed status,
      ((after (Reconciler.call env) Reconciler.initial calls).accept env h overlap).emitted =
        flushed ++ ((joined.output env (joined.boundaryAt h overlap) true status).next
          (Reconciler.holdTail env h status)).emitted ∧
      ((joined.output env (joined.boundaryAt h overlap) true status).error = none →
        Settles (joined.pending.take (joined.boundaryAt h overlap))
          (joined.output env (joined.boundaryAt h overlap) true status).emitted ∧
        (joined.output env (joined.boundaryAt h overlap) true status).state.pending =
          joined.pending.drop (joined.boundaryAt h overlap))) ∧
    (0 < joined.boundaryAt h overlap → joined.boundaryAt h overlap < joined.pending.length →
      joined.pending[joined.boundaryAt h overlap]?.any SpeechToken.isWordStart = true) ∧
    (overlap ≠ 0 → ∀ token ∈ joined.pending.take (joined.boundaryAt h overlap),
      token.end ≤ h.windowEnd - micros overlap) := by
  obtain ⟨c, status, hChecked, hPending, hEmitted⟩ := Reconciler.accept_atCutoff hCut
  obtain ⟨hOpen, hCollect⟩ := Reconciler.checked_some hChecked
  have hComplete : utf8 (plainText joined.pending) = true := by
    rw [hPending]
    exact Reconciler.joinOf_complete (Reconciler.run_held env calls hOpen).complete hCollect
  refine ⟨⟨_, _, hEmitted, fun hOk => ⟨?_, ?_⟩⟩, Reconciler.stableBoundary_word hNative hComplete hWords,
    fun hOverlap => Reconciler.stableBoundary_early joined.pending hOverlap _⟩
  · simpa using Reconciler.output_settles hOk
  · simpa using Reconciler.output_pending hOk

/-- A word whose second half ends behind the cutoff. -/
def wordAcrossCutoff : SpeechHypothesis :=
  heardWindow 1 0 0 [piece [97] true 0 400000, piece [99, 0xc3] true 1200000 1300000,
    piece [0xa9] false 1300000 1500000]

theorem wordAcrossCutoff_reached :
    ((after (Reconciler.call quietEnv) Reconciler.initial []).atCutoff quietEnv wordAcrossCutoff
      10400).isSome = true := by decide +kernel

theorem stable_cutoff_keeps_words_across :
    ∃ joined,
      (after (Reconciler.call quietEnv) Reconciler.initial []).atCutoff quietEnv wordAcrossCutoff 10400 =
        some joined ∧
      joined.boundaryAt wordAcrossCutoff 10400 = 1 ∧ joined.pending.length = 3 ∧
      joined.pending[joined.boundaryAt wordAcrossCutoff 10400]?.any SpeechToken.isWordStart = true := by
  have hCut := (Option.some_get wordAcrossCutoff_reached).symm
  have hKeeps := stable_cutoff_keeps_words quietEnv [] wordAcrossCutoff 10400
    (Option.get _ wordAcrossCutoff_reached) hCut (by decide +kernel) (by decide +kernel)
  exact ⟨_, hCut, by decide +kernel, by decide +kernel,
    hKeeps.2.1 (by decide +kernel) (by decide +kernel)⟩

end GrpcAsr.Media
