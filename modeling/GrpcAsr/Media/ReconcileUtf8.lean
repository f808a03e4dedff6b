import GrpcAsr.Media.ReconcileText
import GrpcAsr.Media.Utf8

/-!
# Reconciled text is complete UTF-8

The pending tokens always render complete UTF-8, and native word starts stand at
character boundaries, where a space may be inserted. A merge keeps this: before the
anchor both sides have the same letters, so they end in the same unfinished character.
-/

namespace GrpcAsr.Media

open Emitting

set_option autoImplicit false

/-- The text of the tokens without restored separators. -/
def plainText (tokens : List SpeechToken) : Bytes := tokens.flatMap SpeechToken.rendered

@[simp] theorem plainText_nil : plainText [] = [] := rfl

@[simp] theorem plainText_append (a b : List SpeechToken) :
    plainText (a ++ b) = plainText a ++ plainText b := List.flatMap_append

@[simp] theorem plainText_cons (token : SpeechToken) (tokens : List SpeechToken) :
    plainText (token :: tokens) = token.rendered ++ plainText tokens := List.flatMap_cons

/-- Native word starts stand at character boundaries. -/
def WordsAligned (tokens : List SpeechToken) : Prop :=
  ∀ before token after, tokens = before ++ token :: after → token.isWordStart = true →
    utf8 (plainText before) = true

theorem wordsAligned_iff (tokens : List SpeechToken) : WordsAligned tokens ↔
    ∀ n < tokens.length, tokens[n]?.any SpeechToken.isWordStart = true →
      utf8 (plainText (tokens.take n)) = true := by
  refine ⟨fun h n hn hStart => ?_, ?_⟩
  · rw [List.getElem?_eq_getElem hn, Option.any_some] at hStart
    exact h (tokens.take n) tokens[n] (tokens.drop (n + 1)) (by simp) hStart
  · rintro h before token after rfl hStart
    have hTake := h before.length (by simp) (by simpa using hStart)
    rw [List.take_left] at hTake
    exact hTake

instance (tokens : List SpeechToken) : Decidable (WordsAligned tokens) :=
  decidable_of_iff _ (wordsAligned_iff tokens).symm

/-- Complete UTF-8 with native word starts at character boundaries. -/
structure Whole (tokens : List SpeechToken) : Prop where
  complete : utf8 (plainText tokens) = true
  words : WordsAligned tokens

theorem Whole.nil : Whole [] := ⟨rfl, fun before token after hNil => by cases before <;> cases hNil⟩

theorem WordsAligned.left {a b : List SpeechToken} (h : WordsAligned (a ++ b)) : WordsAligned a := by
  rintro before token after rfl hStart
  exact h before token (after ++ b) (by simp) hStart

theorem Whole.append {a b : List SpeechToken} (ha : Whole a) (hb : Whole b) : Whole (a ++ b) := by
  refine ⟨?_, fun before token after hSplit hStart => ?_⟩
  · rw [plainText_append, utf8_append ha.complete, hb.complete]
  · rcases List.append_eq_append_iff.mp hSplit with ⟨more, rfl, hRest⟩ | ⟨more, rfl, hRest⟩
    · rw [plainText_append, utf8_append ha.complete]
      exact hb.words more token after hRest hStart
    · cases more with
      | nil =>
        rw [List.append_nil] at ha
        exact ha.complete
      | cons first more =>
        obtain ⟨rfl, rfl⟩ := List.cons.inj hRest
        exact ha.words before token more rfl hStart

/-- What is left behind a complete part is complete. -/
theorem Whole.right {a b : List SpeechToken} (h : Whole (a ++ b))
    (ha : utf8 (plainText a) = true) : Whole b := by
  have hComplete := h.complete
  rw [plainText_append, utf8_append ha] at hComplete
  refine ⟨hComplete, ?_⟩
  rintro before token after rfl hStart
  have hBefore := h.words (a ++ before) token after (by simp) hStart
  rw [plainText_append, utf8_append ha] at hBefore
  exact hBefore

theorem Whole.drop {tokens : List SpeechToken} (h : Whole tokens) {n : Nat}
    (hTake : utf8 (plainText (tokens.take n)) = true) : Whole (tokens.drop n) := by
  rw [← List.take_append_drop n tokens] at h
  exact h.right hTake

theorem WordsAligned.take {tokens : List SpeechToken} (h : WordsAligned tokens) (n : Nat) :
    WordsAligned (tokens.take n) := by
  rw [← List.take_append_drop n tokens] at h
  exact h.left

/-- Replacing what stands before the tokens by a text that reads the same keeps them whole. -/
theorem Whole.replace {a a' b : List SpeechToken} (ha : WordsAligned a)
    (hb : Whole (a' ++ b)) (hSame : ∀ rest, utf8 (plainText a ++ rest) = utf8 (plainText a' ++ rest)) :
    Whole (a ++ b) := by
  refine ⟨?_, fun before token after hSplit hStart => ?_⟩
  · rw [plainText_append, hSame, ← plainText_append]
    exact hb.complete
  · rcases List.append_eq_append_iff.mp hSplit with ⟨more, rfl, hRest⟩ | ⟨more, rfl, hRest⟩
    · rw [plainText_append, hSame, ← plainText_append]
      exact hb.words (a' ++ more) token after (by rw [hRest]; simp) hStart
    · cases more with
      | nil =>
        have hEnd := hSame []
        simp only [List.append_nil] at hEnd
        rw [hEnd]
        exact hb.words a' token after (by rw [hRest]; rfl) hStart
      | cons first more =>
        obtain ⟨rfl, rfl⟩ := List.cons.inj hRest
        exact ha before token more rfl hStart

namespace Reconciler

/-- Restored separators stand between characters. -/
theorem render_reads {r : Reconciler} {done source tokens : List SpeechToken} {text whole : Bytes}
    {outputBytes : Nat} (h : r.render source text outputBytes = .ok (tokens, whole))
    (hWords : WordsAligned (done ++ source))
    (hSame : ∀ rest, utf8 (text ++ rest) = utf8 (plainText done ++ rest)) (rest : Bytes) :
    utf8 (whole ++ rest) = utf8 (plainText (done ++ source) ++ rest) := by
  induction source generalizing done tokens text outputBytes with
  | nil =>
    cases h
    rw [List.append_nil]
    exact hSame rest
  | cons token source ih =>
    rw [render] at h
    split at h
    · cases h
    · split at h
      · rename_i others whole' hRest
        cases h
        have hToken : ∀ rest, utf8 (text ++ (r.separate text token).rendered ++ rest) =
            utf8 (plainText (done ++ [token]) ++ rest) := by
          intro rest
          unfold separate
          split
          · rename_i hSeparates
            simp only [Bool.and_eq_true] at hSeparates
            have hBoundary := hWords done token source rfl hSeparates.1.1.1
            have hText := hSame []
            simp only [List.append_nil] at hText
            rw [hBoundary] at hText
            rw [plainText_append, List.append_assoc, List.append_assoc, utf8_append hText,
              utf8_append hBoundary]
            show utf8 (32 :: (token.rendered ++ rest)) = _
            rw [utf8_ascii (by decide)]
            simp
          · rw [List.append_assoc, hSame, plainText_append]
            simp
        have hAll := ih hRest (by simpa using hWords) hToken
        simpa using hAll
      · cases h

theorem render_complete {r : Reconciler} {source tokens : List SpeechToken} {text : Bytes}
    (h : r.render source [] 0 = .ok (tokens, text)) (hWords : WordsAligned source)
    (hComplete : utf8 (plainText source) = true) : utf8 text = true := by
  have hSame := @render_reads r [] source tokens [] text 0 h hWords (fun _ => rfl) []
  simp only [List.append_nil, List.nil_append] at hSame
  rw [hSame]
  exact hComplete

/-- The failure of `output` when a text is cut inside a character. -/
def incompleteText : Exception := .failure ⟨.dataLoss, "reconciled text is not complete UTF-8"⟩

/-- Only complete texts are handed out, and it is never `output` that finds one incomplete:
if that exception appears, the callback threw it. -/
structure Complete (env : ReconcileEnv) (o : ReconcileOutcome) : Prop where
  texts : ∀ segment ∈ o.emitted, utf8 segment.text = true
  thrown : o.error = some incompleteText →
    ∃ number, ∃ segment ∈ o.emitted, env.emit number segment = some incompleteText

theorem Complete.quiet {env : ReconcileEnv} {r : Reconciler} {error : Option Exception}
    (h : error ≠ some incompleteText) : Complete env ⟨r, [], error⟩ :=
  ⟨by simp, fun hError => absurd hError h⟩

theorem Complete.done {env : ReconcileEnv} (r : Reconciler) : Complete env ⟨r, [], none⟩ :=
  .quiet (by simp)

theorem Complete.next {env : ReconcileEnv} {o : ReconcileOutcome} {f : Reconciler → ReconcileOutcome}
    (h : Complete env o) (hNext : o.error = none → Complete env (f o.state)) :
    Complete env (o.next f) := by
  cases hError : o.error with
  | some e =>
    rw [Outcome.next_of_error hError]
    exact h
  | none =>
    obtain ⟨hTexts, hThrown⟩ := hNext hError
    rw [Outcome.next_of_none hError]
    refine ⟨fun segment hMem => ?_, fun hLast => ?_⟩
    · rcases List.mem_append.mp hMem with hMem | hMem
      · exact h.texts segment hMem
      · exact hTexts segment hMem
    · obtain ⟨number, segment, hMem, hEmit⟩ := hThrown hLast
      exact ⟨number, segment, List.mem_append_right _ hMem, hEmit⟩

theorem render_error {r : Reconciler} {source : List SpeechToken} {text : Bytes}
    {outputBytes : Nat} {failure : Failure} (h : r.render source text outputBytes = .error failure) :
    failure = ⟨.resourceExhausted, "reconciled token text limit exceeded"⟩ := by
  induction source generalizing text outputBytes with
  | nil => cases h
  | cons token source ih =>
    rw [render] at h
    split at h
    · cases h
      rfl
    · split at h
      · cases h
      · rename_i hRest
        cases h
        exact ih hRest

theorem output_complete {env : ReconcileEnv} {r : Reconciler} {count : Nat}
    (hWords : WordsAligned r.pending) (hCount : utf8 (plainText (r.pending.take count)) = true)
    (final : Bool) (status : ReconciliationStatus) :
    Complete env (r.output env count final status) := by
  unfold output
  split
  · exact .quiet (by simp)
  · dsimp only
    rw [revise_pending]
    split
    · rename_i failure hRender
      rw [render_error hRender]
      exact .quiet (by simp [incompleteText])
    · rename_i tokens text hRender
      have hText := render_complete hRender (hWords.take count) hCount
      rw [hText, Bool.not_true, if_neg (by simp)]
      have hSegment : ∀ segment ∈ [(r.revise env).segment (r.pending.take count) tokens text final
          status], utf8 segment.text = true := by
        intro segment hMem
        rw [List.mem_singleton.mp hMem]
        exact hText
      split
      · exact ⟨hSegment, fun hThrown => ⟨_, _, List.mem_singleton.mpr rfl, hThrown⟩⟩
      · split
        · exact ⟨hSegment, fun hNone => nomatch hNone⟩
        · exact ⟨hSegment, fun hNone => nomatch hNone⟩

theorem plainText_key (tokens : List SpeechToken) : key (plainText tokens) = joinedKey tokens :=
  key_flatMap_rendered tokens

/-- The anchor starts at a character boundary of the old tokens when it opens the fresh
ones: its letters cannot start inside a character there. -/
theorem anchor_boundary {old fresh : List SpeechToken} {n : Nat} {before : Bytes}
    (hOld : utf8 (before ++ plainText old) = true) (hFresh : utf8 (plainText fresh) = true)
    (hKeys : joinedKey (old.take n) = joinedKey (fresh.take n))
    (hLetters : joinedKey (old.take n) ≠ []) : utf8 before = true := by
  refine utf8_of_boundary hOld fun c tail hFirst => ?_
  rw [← List.take_append_drop n old, plainText_append] at hFirst
  rw [← List.take_append_drop n fresh, plainText_append] at hFresh
  cases hRun : plainText (old.take n) with
  | nil =>
    rw [← plainText_key, hRun] at hLetters
    exact absurd rfl hLetters
  | cons first more =>
    rw [hRun] at hFirst
    obtain rfl := (List.cons.inj hFirst).1
    by_contra hInside
    rw [Bool.not_eq_false, isContinuation_iff] at hInside
    have hKey : key (plainText (fresh.take n)) = first :: key more := by
      rw [plainText_key, ← hKeys, ← plainText_key, hRun, key_cons, keyByte_high hInside.1]
      rfl
    have hNot := key_head hFresh hKey
    rw [Bool.eq_false_iff, ne_eq, isContinuation_iff] at hNot
    exact hNot hInside

/-- Before the anchor of a safe join both sides read the same. -/
theorem merge_reads {r : Reconciler} {c : Collected}
    (hSafe : r.joinSafe c (anchor r.pending c.fresh r.endTime) = true)
    (hStart : (anchor r.pending c.fresh r.endTime).oldStart ≠ 0)
    (hPending : utf8 (plainText r.pending) = true) (hFresh : utf8 (plainText c.fresh) = true)
    (rest : Bytes) :
    utf8 (plainText (r.pending.take (anchor r.pending c.fresh r.endTime).oldStart) ++ rest) =
      utf8 (plainText (c.fresh.take (anchor r.pending c.fresh r.endTime).newStart) ++ rest) := by
  have hAligned := anchor_aligned r.pending c.fresh r.endTime
  have hScored := anchor_scored r.pending c.fresh r.endTime
  generalize anchor r.pending c.fresh r.endTime = found at hSafe hStart hAligned hScored ⊢
  simp only [joinSafe, Bool.and_eq_true, Bool.or_eq_true, beq_iff_eq, decide_eq_true_eq] at hSafe
  obtain ⟨⟨⟨⟨⟨hScore, -⟩, -⟩, -⟩, hBefore⟩, -⟩ := hSafe
  have hOld := hPending
  rw [← List.take_append_drop found.oldStart r.pending, plainText_append] at hOld
  rcases hBefore with (hZero | hFirst) | hEqual
  · exact absurd hZero hStart
  · rw [hFirst, List.drop_zero] at hAligned
    have hKeys := hAligned.letters
    have hLetters : joinedKey ((r.pending.drop found.oldStart).take found.run.count) ≠ [] := by
      intro hNone
      rw [Scored, show (List.flatMap tokenKey _) = [] from hNone] at hScored
      rw [hScored] at hScore
      simp at hScore
    rw [utf8_append (anchor_boundary hOld hFresh hKeys hLetters), hFirst]
    rfl
  · have hNew := hFresh
    rw [← List.take_append_drop found.newStart c.fresh, plainText_append] at hNew
    rw [← utf8_key_append hOld, ← utf8_key_append hNew, plainText_key, plainText_key, hEqual]

/-- A safe merge of complete texts is complete. -/
theorem merge_complete {r : Reconciler} {c : Collected}
    (hSafe : r.joinSafe c (anchor r.pending c.fresh r.endTime) = true)
    (hPending : utf8 (plainText r.pending) = true) (hFresh : utf8 (plainText c.fresh) = true) :
    utf8 (plainText (r.merge c (anchor r.pending c.fresh r.endTime))) = true := by
  have hReads := merge_reads hSafe
  generalize anchor r.pending c.fresh r.endTime = found at hReads ⊢
  unfold merge
  by_cases hStart : found.oldStart = 0
  · rw [if_pos hStart, hStart]
    exact hFresh
  · rw [if_neg hStart, plainText_append, hReads hStart hPending hFresh, ← plainText_append,
      List.take_append_drop]
    exact hFresh

/-- A safe merge of whole tokens is whole. -/
theorem merge_whole {r : Reconciler} {c : Collected}
    (hSafe : r.joinSafe c (anchor r.pending c.fresh r.endTime) = true) (hPending : Whole r.pending)
    (hFresh : Whole c.fresh) : Whole (r.merge c (anchor r.pending c.fresh r.endTime)) := by
  have hReads := merge_reads hSafe
  generalize anchor r.pending c.fresh r.endTime = found at hReads ⊢
  unfold merge
  by_cases hStart : found.oldStart = 0
  · rw [if_pos hStart, hStart]
    exact hFresh
  · rw [if_neg hStart]
    have hNew := hFresh
    rw [← List.take_append_drop found.newStart c.fresh] at hNew
    exact Whole.replace (hPending.words.take _) hNew
      (hReads hStart hPending.complete hFresh.complete)

/-- What each token read before the cutoff keeps holds where the walk stops. -/
theorem stableWalk_induction {tokens : List SpeechToken} {overlap : Nat} {cutoff : Int}
    {P : List SpeechToken → Boundary → Prop}
    (hStep : ∀ done token rest b, tokens = done ++ token :: rest →
      (overlap ≠ 0 → token.end ≤ cutoff) → P done b →
      P (done ++ [token])
        { stable := b.stable + 1
          safe := if utf8 (b.pre ++ token.rendered) then b.stable + 1 else b.safe
          wordStart := if token.isWordStart then b.stable else b.wordStart
          pre := b.pre ++ token.rendered })
    (rest done : List SpeechToken) (b : Boundary) (hSplit : tokens = done ++ rest) (h : P done b) :
    ∃ done' rest', tokens = done' ++ rest' ∧ P done' (stableWalk overlap cutoff rest b) := by
  induction rest generalizing done b with
  | nil => exact ⟨done, [], hSplit, h⟩
  | cons token rest ih =>
    rw [stableWalk]
    split
    · exact ⟨done, token :: rest, hSplit, h⟩
    · rename_i hBefore
      have hEnd : overlap ≠ 0 → token.end ≤ cutoff := fun hOverlap =>
        Int.not_lt.mp fun hLate => hBefore ⟨hOverlap, hLate⟩
      exact ih (done ++ [token]) _ (by rw [hSplit]; simp) (hStep done token rest b hSplit hEnd h)

/-- What the walk up to the cutoff has found: whole texts up to both marks. -/
structure Walked (tokens done : List SpeechToken) (b : Boundary) : Prop where
  text : b.pre = plainText done
  stable : b.stable = done.length
  safe : utf8 (plainText (tokens.take b.safe)) = true
  word : utf8 (plainText (tokens.take b.wordStart)) = true

theorem stableWalk_walked {tokens : List SpeechToken} (hWords : WordsAligned tokens) (overlap : Nat)
    (cutoff : Int) : ∃ done, Walked tokens done (stableWalk overlap cutoff tokens default) := by
  have hWalk : ∃ done rest, tokens = done ++ rest ∧
      Walked tokens done (stableWalk overlap cutoff tokens default) := by
    refine stableWalk_induction (P := Walked tokens) (fun done token rest b hSplit _ h => ?_) tokens []
      default rfl ⟨rfl, rfl, rfl, rfl⟩
    have hText : b.pre ++ token.rendered = plainText (done ++ [token]) := by
      rw [h.text, plainText_append]
      simp
    have hTake : tokens.take (b.stable + 1) = done ++ [token] := by
      rw [hSplit, h.stable, List.take_append, List.take_of_length_le (by omega)]
      simp
    refine ⟨hText, by simp [h.stable], ?_, ?_⟩
    · dsimp only
      split
      · rename_i hComplete
        rw [hTake, ← hText]
        exact hComplete
      · exact h.safe
    · dsimp only
      split
      · rename_i hStart
        rw [hSplit, h.stable, List.take_left]
        exact hWords done token rest hSplit hStart
      · exact h.word
  obtain ⟨done, -, -, hWalked⟩ := hWalk
  exact ⟨done, hWalked⟩

/-- The part that becomes final is complete. -/
theorem stableBoundary_complete {tokens : List SpeechToken} (hWords : WordsAligned tokens)
    (overlap : Nat) (cutoff : Int) :
    utf8 (plainText (tokens.take (stableBoundary tokens overlap cutoff))) = true := by
  obtain ⟨done, hWalked⟩ := stableWalk_walked hWords overlap cutoff
  unfold stableBoundary
  dsimp only
  split
  · split
    · rcases Nat.le_total (stableWalk overlap cutoff tokens default).safe
        (stableWalk overlap cutoff tokens default).wordStart with hLe | hLe
      · rw [Nat.min_eq_left hLe]
        exact hWalked.safe
      · rw [Nat.min_eq_right hLe]
        exact hWalked.word
    · exact hWalked.safe
  · exact hWalked.safe

end Reconciler

theorem fit_rendered (token : SpeechToken) (low high : Int) :
    (token.fit low high).rendered = token.rendered ∧
      (token.fit low high).isWordStart = token.isWordStart := by
  unfold SpeechToken.fit
  split <;> exact ⟨rfl, rfl⟩

theorem plainText_fit (tokens : List SpeechToken) (low high : Int) :
    plainText (tokens.map fun token => token.fit low high) = plainText tokens := by
  simp only [plainText, List.flatMap_map, (fit_rendered _ low high).1]

theorem Whole.fit {tokens : List SpeechToken} (h : Whole tokens) (low high : Int) :
    Whole (tokens.map fun token => token.fit low high) := by
  refine ⟨by rw [plainText_fit, h.complete], fun before token after hSplit hStart => ?_⟩
  obtain ⟨before', rest, rfl, rfl, hRest⟩ := List.map_eq_append_iff.mp hSplit
  obtain ⟨token', after', rfl, rfl, rfl⟩ := List.map_eq_cons_iff.mp hRest
  rw [plainText_fit]
  rw [(fit_rendered ..).2] at hStart
  exact h.words before' token' after' rfl hStart

theorem collectSegment_complete {h : SpeechHypothesis} {c c' : Collected}
    {segment : TranscriptSegment} (hOk : collectSegment h c segment = .ok c') :
    utf8 (plainText segment.lexical) = true := by
  unfold collectSegment at hOk
  split at hOk
  · cases hOk
  · dsimp only at hOk
    split at hOk
    · cases hOk
    · split at hOk
      · cases hOk
      · rename_i hText
        simp only [not_or, Bool.not_eq_false] at hText
        exact hText.2

theorem foldlM_eq_error {α β : Type} {f : β → α → Except Failure β} {P : Failure → Prop}
    (hStep : ∀ b a failure, f b a = .error failure → P failure) {xs : List α} {b : β}
    {failure : Failure} (h : xs.foldlM f b = .error failure) : P failure := by
  induction xs generalizing b with
  | nil => cases h
  | cons x xs ih =>
    rw [List.foldlM_cons] at h
    cases hFirst : f b x with
    | error first =>
      rw [hFirst] at h
      cases h
      exact hStep b x _ hFirst
    | ok next =>
      rw [hFirst] at h
      exact ih h

/-- The checks of a window fail in their own words. -/
theorem collect_error {h : SpeechHypothesis} {failure : Failure}
    (hError : collect h = .error failure) :
    failure.message ≠ "reconciled text is not complete UTF-8" := by
  refine foldlM_eq_error (P := fun failure =>
    failure.message ≠ "reconciled text is not complete UTF-8") ?_ hError
  intro c segment failure hSegment
  unfold collectSegment at hSegment
  split at hSegment
  · cases hSegment
    simp
  · dsimp only at hSegment
    split at hSegment
    · rename_i hTokens
      cases hSegment
      refine foldlM_eq_error (P := fun failure =>
        failure.message ≠ "reconciled text is not complete UTF-8") ?_ hTokens
      intro c token failure hToken
      unfold collectToken at hToken
      split at hToken
      · cases hToken
      · split at hToken
        · cases hToken
          simp
        · split at hToken
          · cases hToken
            simp
          · cases hToken
    · split at hSegment
      · cases hSegment
        simp
      · cases hSegment

/-- What each segment's lexical tokens keep holds of all the tokens collected. -/
theorem collect_induction {h : SpeechHypothesis} {c : Collected} (hOk : collect h = .ok c)
    {P : List SpeechToken → Prop} (hNil : P [])
    (hStep : ∀ tokens, ∀ segment ∈ h.segments, utf8 (plainText segment.lexical) = true → P tokens →
      P (tokens ++ segment.lexical.map fun token => token.fit h.windowStart h.windowEnd)) :
    P c.fresh := by
  have hGeneral : ∀ (segments : List TranscriptSegment) (start : Collected),
      segments.foldlM (collectSegment h) start = .ok c → (∀ segment ∈ segments, segment ∈ h.segments) →
      P start.fresh → P c.fresh := by
    intro segments
    induction segments with
    | nil =>
      intro start hFold _ hStart
      cases hFold
      exact hStart
    | cons segment segments ih =>
      intro start hFold hAll hStart
      rw [List.foldlM_cons] at hFold
      obtain ⟨next, hSegment, hFold⟩ := bind_eq_ok hFold
      obtain ⟨hHere, hLater⟩ := List.forall_mem_cons.mp hAll
      refine ih next hFold hLater ?_
      rw [(collectSegment_ok hSegment).1]
      exact hStep _ segment hHere (collectSegment_complete hSegment) hStart
  exact hGeneral h.segments default hOk (fun _ hMem => hMem) hNil

/-- An accepted window's tokens are whole if its segments' words are aligned. -/
theorem collect_whole {h : SpeechHypothesis} {c : Collected} (hOk : collect h = .ok c)
    (hWords : ∀ segment ∈ h.segments, WordsAligned segment.lexical) : Whole c.fresh :=
  collect_induction hOk Whole.nil fun _ segment hMem hComplete hTokens =>
    hTokens.append (Whole.fit ⟨hComplete, hWords segment hMem⟩ _ _)

theorem collect_complete {h : SpeechHypothesis} {c : Collected} (hOk : collect h = .ok c) :
    utf8 (plainText c.fresh) = true := by
  refine collect_induction (P := fun tokens => utf8 (plainText tokens) = true) hOk rfl
    fun tokens segment _ hComplete hTokens => ?_
  rw [plainText_append, utf8_append hTokens, plainText_fit]
  exact hComplete

namespace Reconciler

theorem applyJoin_complete {env : ReconcileEnv} {r : Reconciler} (h : Whole r.pending)
    (join : Join) : Complete env (r.applyJoin env join) := by
  have hAll : utf8 (plainText (r.pending.take r.pending.length)) = true := by
    rw [List.take_length]
    exact h.complete
  cases join with
  | start | aligned => exact .quiet (by simp)
  | flush =>
    rw [applyJoin]
    refine Complete.next (output_complete h.words hAll _ _) fun _ => ?_
    exact .done _
  | unresolved => exact output_complete h.words hAll _ _

theorem holdTail_complete {env : ReconcileEnv} {r : Reconciler} (h : Whole r.pending)
    (hypothesis : SpeechHypothesis) (status : ReconciliationStatus) :
    Complete env (r.holdTail env hypothesis status) ∧
      ((r.holdTail env hypothesis status).error = none →
        Whole (r.holdTail env hypothesis status).state.pending) := by
  unfold holdTail
  dsimp only
  refine ⟨?_, fun hOk => ?_⟩
  · refine Complete.next (output_complete (by exact h.words) ?_ _ _) fun _ => ?_
    · rw [List.take_length]
      exact h.complete
    · exact .done _
  · obtain ⟨hOutput, -⟩ := Outcome.next_error_none hOk
    rw [Outcome.next_of_none hOutput]
    simp only
    rw [output_pending hOutput]
    exact h

/-- Settling a complete part leaves the rest whole. -/
theorem settlePart_complete {env : ReconcileEnv} {r : Reconciler} (h : Whole r.pending) {count : Nat}
    (hCount : utf8 (plainText (r.pending.take count)) = true) (hypothesis : SpeechHypothesis)
    (status : ReconciliationStatus) :
    Complete env ((r.output env count true status).next (holdTail env hypothesis status)) ∧
      (((r.output env count true status).next (holdTail env hypothesis status)).error = none →
        Whole ((r.output env count true status).next
          (holdTail env hypothesis status)).state.pending) := by
  have hRest : (r.output env count true status).error = none →
      Whole (r.output env count true status).state.pending := by
    intro hOutput
    rw [output_pending hOutput]
    exact h.drop hCount
  refine ⟨(output_complete h.words hCount _ _).next fun hOutput =>
    (holdTail_complete (hRest hOutput) hypothesis status).1, fun hOk => ?_⟩
  obtain ⟨hOutput, hTail⟩ := Outcome.next_error_none hOk
  rw [Outcome.next_of_none hOutput]
  exact (holdTail_complete (hRest hOutput) hypothesis status).2 hTail

theorem settle_complete {env : ReconcileEnv} {r : Reconciler} {c : Collected} {join : Join}
    (h : Whole (join.tokens c.fresh)) (hypothesis : SpeechHypothesis) (overlap : Nat) :
    Complete env (r.settle env hypothesis overlap c join) ∧
      ((r.settle env hypothesis overlap c join).error = none →
        Whole (r.settle env hypothesis overlap c join).state.pending) := by
  unfold settle
  dsimp only
  split
  · exact ⟨.quiet (by simp [incompleteText]), fun hOk => nomatch hOk⟩
  · split
    · exact ⟨.quiet (by simp [incompleteText]), fun hOk => nomatch hOk⟩
    · exact settlePart_complete h (stableBoundary_complete h.words overlap _) hypothesis _

theorem joinOf_whole {r : Reconciler} {h : SpeechHypothesis} {c : Collected}
    (hPending : Whole r.pending) (hFresh : Whole c.fresh) :
    Whole ((r.joinOf h c).tokens c.fresh) := by
  cases hJoin : r.joinOf h c with
  | start | flush | unresolved => exact hFresh
  | aligned merged =>
    obtain ⟨-, hSafe, rfl⟩ := joinOf_merge hJoin
    exact merge_whole hSafe hPending hFresh

theorem reconcile_complete {env : ReconcileEnv} {r : Reconciler} (hPending : Whole r.pending)
    {h : SpeechHypothesis} (hWords : ∀ segment ∈ h.segments, WordsAligned segment.lexical)
    (overlap : Nat) :
    Complete env (r.reconcile env h overlap) ∧
      ((r.reconcile env h overlap).error = none → Whole (r.reconcile env h overlap).state.pending) := by
  unfold reconcile
  split
  · exact ⟨.quiet (by simp [incompleteText]), fun hOk => nomatch hOk⟩
  · split
    · exact ⟨.quiet (by simp [incompleteText]), fun hOk => nomatch hOk⟩
    · split
      · exact ⟨.quiet (by simp [incompleteText]), fun hOk => nomatch hOk⟩
      · split
        · rename_i failure hCollect
          refine ⟨.quiet fun hSame => ?_, fun hOk => nomatch hOk⟩
          refine collect_error hCollect ?_
          rw [incompleteText, Option.some.injEq, Exception.failure.injEq] at hSame
          rw [hSame]
        · rename_i c hCollect
          have hTokens := joinOf_whole (h := h) hPending (collect_whole hCollect hWords)
          refine ⟨Complete.next (applyJoin_complete hPending _) fun _ =>
            (settle_complete hTokens h overlap).1, fun hOk => ?_⟩
          obtain ⟨hJoin, hSettle⟩ := Outcome.next_error_none hOk
          rw [Outcome.next_of_none hJoin]
          exact (settle_complete hTokens h overlap).2 hSettle

/-- A call keeps the pending tokens whole and never cuts a character. -/
theorem accept_complete {env : ReconcileEnv} {r : Reconciler}
    (hState : r.closed = true ∨ Whole r.pending) {h : SpeechHypothesis}
    (hWords : ∀ segment ∈ h.segments, WordsAligned segment.lexical) (overlap : Nat) :
    Complete env (r.accept env h overlap) ∧
      ((r.accept env h overlap).state.closed = true ∨
        Whole (r.accept env h overlap).state.pending) := by
  unfold accept
  split
  · exact ⟨.quiet (by simp [incompleteText]), .inl ‹_›⟩
  · rename_i hOpen
    obtain ⟨hComplete, hWhole⟩ :=
      @reconcile_complete env r (hState.resolve_left hOpen) h hWords overlap
    dsimp only
    split
    · exact ⟨⟨hComplete.texts, hComplete.thrown⟩, .inl rfl⟩
    · rename_i hDone
      exact ⟨hComplete, .inr (hWhole (by simpa using hDone))⟩

theorem finish_complete {env : ReconcileEnv} {r : Reconciler}
    (hState : r.closed = true ∨ Whole r.pending) : Complete env (r.finish env) := by
  unfold finish
  split
  · exact .quiet (by simp [incompleteText])
  · rename_i hOpen
    have hPending := hState.resolve_left hOpen
    refine output_complete (by exact hPending.words) ?_ _ _
    rw [List.take_length]
    exact hPending.complete

end Reconciler

/-- However the windows overlap, no segment is cut inside a character: every text handed
out is complete UTF-8, and `output` never fails for an incomplete one. -/
theorem joins_keep_characters (env : ReconcileEnv) (calls : List (SpeechHypothesis × Nat))
    (hWords : ∀ call ∈ calls, ∀ segment ∈ call.1.segments, WordsAligned segment.lexical) :
    (∀ o ∈ (runThrough (Reconciler.acceptCall env) Reconciler.initial calls).2,
      Reconciler.Complete env o) ∧
    Reconciler.Complete env
      ((after (Reconciler.acceptCall env) Reconciler.initial calls).finish env) := by
  have hRun : ∀ (calls : List (SpeechHypothesis × Nat)) (r : Reconciler),
      (∀ call ∈ calls, ∀ segment ∈ call.1.segments, WordsAligned segment.lexical) →
      (r.closed = true ∨ Whole r.pending) →
      (∀ o ∈ (runThrough (Reconciler.acceptCall env) r calls).2, Reconciler.Complete env o) ∧
        ((after (Reconciler.acceptCall env) r calls).closed = true ∨
          Whole (after (Reconciler.acceptCall env) r calls).pending) := by
    intro calls
    induction calls with
    | nil => exact fun r _ hState => ⟨by simp [runThrough], hState⟩
    | cons call calls ih =>
      intro r hAll hState
      obtain ⟨hFirst, hRest⟩ := List.forall_mem_cons.mp hAll
      obtain ⟨hComplete, hNext⟩ := @Reconciler.accept_complete env r hState call.1 hFirst call.2
      obtain ⟨hOthers, hLast⟩ := ih _ hRest hNext
      exact ⟨List.forall_mem_cons.mpr ⟨hComplete, hOthers⟩, hLast⟩
  obtain ⟨hAll, hLast⟩ := hRun calls Reconciler.initial hWords (.inr Whole.nil)
  exact ⟨hAll, Reconciler.finish_complete hLast⟩

def piece (text : Bytes) (wordStart : Bool) (startUs endUs : Int) : SpeechToken :=
  { (default : SpeechToken) with
    text := text, startUs := some startUs, endUs := some endUs, kind := .text
    parakeet := some ⟨wordStart, []⟩ }

/-- Two windows that share a word whose last character is split over its tokens. -/
def splitCharacter : List (SpeechHypothesis × Nat) :=
  [(heardWindow 1 0 0 [piece [97] true 0 400000, piece [99, 0xc3] true 1200000 1300000,
      piece [0xa9] false 1300000 1500000], 16000),
   (heardWindow 2 16000 32000 [piece [99, 0xc3] true 1210000 1300000,
      piece [0xa9] false 1310000 1500000, piece [98] true 2000000 2500000], 0)]

theorem joins_keep_characters_split :
    ((Reconciler.joins quietEnv Reconciler.initial splitCharacter).map Join.status =
      [.direct, .aligned]) ∧
    ∀ o ∈ (runThrough (Reconciler.acceptCall quietEnv) Reconciler.initial splitCharacter).2,
      Reconciler.Complete quietEnv o :=
  ⟨by decide +kernel, (joins_keep_characters quietEnv splitCharacter (by decide +kernel)).1⟩

end GrpcAsr.Media
