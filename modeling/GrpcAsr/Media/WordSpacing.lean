import GrpcAsr.Media.JoinEvidence

/-!
# Spaces between native words

A space is restored in front of a native word start when the text before it, in the same
segment or in the final segments before, does not end in one. The space goes with the piece
that starts the word, so a word whose first piece renders empty gets none.
-/

namespace GrpcAsr.Media

open Emitting

set_option autoImplicit false

/-- A source token beside the token emitted for it. -/
abbrev EmittedToken := SpeechToken × SpeechToken

/-- The text of the emitted tokens. -/
def shownText (pairs : List EmittedToken) : Bytes := plainText (pairs.map Prod.snd)

@[simp] theorem shownText_nil : shownText [] = [] := rfl

@[simp] theorem shownText_cons (pair : EmittedToken) (pairs : List EmittedToken) :
    shownText (pair :: pairs) = pair.2.rendered ++ shownText pairs := plainText_cons _ _

@[simp] theorem shownText_append (a b : List EmittedToken) :
    shownText (a ++ b) = shownText a ++ shownText b := by
  rw [shownText, List.map_append, plainText_append]
  rfl

def endsVisible (text : Bytes) : Bool := text.getLast?.any fun c => !isSpace c

/-- The space restored in front of a token after the text. -/
def gap (text : Bytes) (token : SpeechToken) : Bytes :=
  if token.isWordStart && endsVisible text && token.rendered != [] &&
      !(token.rendered.head?.any isSpace) then [32]
  else []

/-- Each token is emitted behind the space it needs after all the text before it. -/
def Spaced (before : Bytes) : List EmittedToken → Prop
  | [] => True
  | pair :: pairs =>
    pair.2.rendered = gap before pair.1 ++ pair.1.rendered ∧ Spaced (before ++ pair.2.rendered) pairs

theorem Spaced.append {before : Bytes} {a b : List EmittedToken} :
    Spaced before (a ++ b) ↔ Spaced before a ∧ Spaced (before ++ shownText a) b := by
  induction a generalizing before with
  | nil => simp [Spaced]
  | cons pair a ih =>
    rw [List.cons_append, Spaced, Spaced, ih, shownText_cons, List.append_assoc, and_assoc]

/-- What a reconciler remembers of the final text. -/
def Spacing.of (text : Bytes) : Spacing := ⟨text != [], text.getLast?.any isSpace⟩

theorem Spacing.of_after (before text : Bytes) :
    (Spacing.of before).after text = Spacing.of (before ++ text) := by
  unfold Spacing.after
  split
  · rename_i hNone
    rw [hNone, List.append_nil]
  · rename_i hSome
    have hLast : (before ++ text).getLast? = text.getLast? := List.getLast?_append_of_ne_nil before hSome
    rw [Spacing.of, hLast]
    simp [hSome]

namespace Reconciler

theorem needsSeparator_of {r : Reconciler} {before : Bytes} (hSpacing : r.spacing = Spacing.of before)
    (text : Bytes) : r.needsSeparator text = endsVisible (before ++ text) := by
  have hText : r.haveFinalText = (before != []) := congrArg Spacing.text hSpacing
  have hSpace : r.finalEndsSpace = before.getLast?.any isSpace := congrArg Spacing.space hSpacing
  unfold needsSeparator endsVisible
  cases hLast : text.getLast? with
  | some c =>
    have hSome : text ≠ [] := by
      rintro rfl
      cases hLast
    rw [List.getLast?_append_of_ne_nil before hSome, hLast]
    rfl
  | none =>
    rw [List.getLast?_eq_none_iff.mp hLast, List.append_nil, hText, hSpace]
    cases hBefore : before.getLast? with
    | none =>
      rw [List.getLast?_eq_none_iff.mp hBefore]
      rfl
    | some c =>
      have hSome : before ≠ [] := by
        rintro rfl
        cases hBefore
      simp [hSome]

theorem separate_gap {r : Reconciler} {before : Bytes} (hSpacing : r.spacing = Spacing.of before)
    (text : Bytes) (token : SpeechToken) :
    (r.separate text token).rendered = gap (before ++ text) token ++ token.rendered := by
  unfold separate gap
  rw [needsSeparator_of hSpacing]
  split <;> rfl

theorem render_spaced {r : Reconciler} {before : Bytes} (hSpacing : r.spacing = Spacing.of before)
    {source tokens : List SpeechToken} {text whole : Bytes} {outputBytes : Nat}
    (h : r.render source text outputBytes = .ok (tokens, whole)) :
    Spaced (before ++ text) (source.zip tokens) := by
  induction source generalizing tokens text outputBytes with
  | nil =>
    cases h
    exact trivial
  | cons token source ih =>
    rw [render] at h
    split at h
    · cases h
    · split at h
      · rename_i rest whole' hRest
        cases h
        refine ⟨separate_gap hSpacing text token, ?_⟩
        rw [List.append_assoc]
        exact ih hRest
      · cases h

/-- The tokens of a parcel beside those of its segment. -/
def pairs (p : TranscriptSegment × List MarkedToken) : List EmittedToken :=
  (p.2.map Prod.fst).zip p.1.tokens

/-- All source tokens of a run's final segments beside the tokens emitted for them. -/
def renderings (env : ReconcileEnv) (calls : List ReconcileCall) : List EmittedToken :=
  (evidence env calls).flatMap pairs

/-- The source tokens that a run finalises, in order. -/
def finalised (env : ReconcileEnv) (calls : List ReconcileCall) : List SpeechToken :=
  (evidence env calls).flatMap fun p => p.2.map Prod.fst

/-- The texts of rendered segments are the texts of their tokens, spaced as one text. -/
theorem Renders.spaced {before : Bytes} {last : Spacing}
    {entries : List (TranscriptSegment × List MarkedToken)}
    (h : Renders (Spacing.of before) (entries.map source) (entries.map Prod.fst) last) :
    Spaced before (entries.flatMap pairs) ∧
      (entries.flatMap fun p => p.1.text) = shownText (entries.flatMap pairs) := by
  induction entries generalizing before with
  | nil => exact ⟨trivial, rfl⟩
  | cons entry entries ih =>
    rw [List.map_cons, List.map_cons] at h
    cases h with
    | cons hFirst hRest =>
      obtain ⟨r, hSpacing, hRender⟩ := hFirst.renders
      have hSpaced := render_spaced hSpacing hRender
      rw [List.append_nil] at hSpaced
      have hText : entry.1.text = shownText (pairs entry) := by
        have hWhole := (render_ok hRender).2
        rw [List.nil_append] at hWhole
        rw [hWhole, shownText, pairs, List.map_snd_zip hFirst.separated.length_eq.ge]
        rfl
      rw [Spacing.of_after] at hRest
      obtain ⟨hOthers, hTexts⟩ := ih hRest
      rw [List.flatMap_cons, List.flatMap_cons, shownText_append, ← hText, hTexts]
      exact ⟨Spaced.append.mpr ⟨hSpaced, hText ▸ hOthers⟩, rfl⟩

end Reconciler

/-- A word start with all the tokens up to the next one, and some text in them. -/
structure IsWord (first : SpeechToken) (rest after : List SpeechToken) : Prop where
  start : first.isWordStart = true
  inner : ∀ token ∈ rest, token.isWordStart = false
  next : ∀ token ∈ after.head?, token.isWordStart = true
  visible : plainText (first :: rest) ≠ []

/-- Every word behind some text starts with a space or follows one. -/
def WordsSpaced (pairs : List EmittedToken) : Prop :=
  ∀ before first rest after, pairs = before ++ first :: rest ++ after →
    IsWord first.1 (rest.map Prod.fst) (after.map Prod.fst) → shownText before ≠ [] →
    (shownText (first :: rest)).head?.any isSpace = true ∨
      (shownText before).getLast?.any isSpace = true

/-- No word is left without a space because its first piece renders empty. -/
def WordsBegun (tokens : List SpeechToken) : Prop :=
  ∀ before first rest after, tokens = before ++ first :: rest ++ after → IsWord first rest after →
    plainText before ≠ [] → first.rendered = [] →
    (plainText rest).head?.any isSpace = true ∨ (plainText before).getLast?.any isSpace = true

/-- A restored space is in front of some text, so it never ends the whole. -/
theorem Spaced.getLast? {before : Bytes} {pairs : List EmittedToken} (h : Spaced before pairs) :
    (before ++ shownText pairs).getLast? = (before ++ plainText (pairs.map Prod.fst)).getLast? := by
  induction pairs generalizing before with
  | nil => rfl
  | cons pair pairs ih =>
    obtain ⟨hFirst, hRest⟩ := h
    have hTail := ih hRest
    rw [shownText_cons, List.map_cons, plainText_cons, ← List.append_assoc, hTail, hFirst]
    by_cases hEmpty : pair.1.rendered = []
    · simp [gap, hEmpty]
    · have hSome : pair.1.rendered ++ plainText (pairs.map Prod.fst) ≠ [] := by simp [hEmpty]
      have hShift : before ++ (gap before pair.1 ++ pair.1.rendered) ++ plainText (pairs.map Prod.fst) =
          (before ++ gap before pair.1) ++ (pair.1.rendered ++ plainText (pairs.map Prod.fst)) := by
        simp
      rw [hShift, List.getLast?_append_of_ne_nil _ hSome, List.getLast?_append_of_ne_nil _ hSome]

theorem Spaced.nil_iff {pairs : List EmittedToken} (h : Spaced [] pairs) :
    shownText pairs = [] ↔ plainText (pairs.map Prod.fst) = [] := by
  have hLast := h.getLast?
  rw [List.nil_append, List.nil_append] at hLast
  rw [← List.getLast?_eq_none_iff, ← List.getLast?_eq_none_iff, hLast]

/-- Only a word start gets a space. -/
theorem Spaced.rest {before : Bytes} {pairs : List EmittedToken} (h : Spaced before pairs)
    (hRest : ∀ token ∈ pairs.map Prod.fst, token.isWordStart = false) :
    shownText pairs = plainText (pairs.map Prod.fst) := by
  induction pairs generalizing before with
  | nil => rfl
  | cons pair pairs ih =>
    rw [List.map_cons, List.forall_mem_cons] at hRest
    obtain ⟨hFirst, hOthers⟩ := h
    have hGap : gap before pair.1 = [] := by
      rw [gap, hRest.1]
      rfl
    rw [shownText_cons, hFirst, hGap, ih hOthers hRest.2, List.map_cons, plainText_cons, List.nil_append]

/-- A word behind some text is spaced unless its first piece is empty. -/
theorem Spaced.word_iff {before first : Bytes} {token : SpeechToken} {rest : Bytes}
    (hFirst : first = gap before token ++ token.rendered) (hStart : token.isWordStart = true)
    (hSome : before ≠ []) :
    ((first ++ rest).head?.any isSpace = true ∨ before.getLast?.any isSpace = true) ↔
      (token.rendered = [] → rest.head?.any isSpace = true ∨ before.getLast?.any isSpace = true) := by
  cases hPiece : token.rendered with
  | nil =>
    have hGap : gap before token = [] := by simp [gap, hPiece]
    rw [hFirst, hGap, hPiece]
    simp
  | cons c piece =>
    refine ⟨fun _ hNil => (nomatch hNil), fun _ => ?_⟩
    cases hLast : before.getLast? with
    | none => exact absurd (List.getLast?_eq_none_iff.mp hLast) hSome
    | some last =>
      cases hSpace : isSpace last with
      | true => exact .inr hSpace
      | false =>
        refine .inl ?_
        have hVisible : endsVisible before = true := by simp [endsVisible, hLast, hSpace]
        rw [hFirst, gap, hStart, hVisible, hPiece]
        cases hHead : isSpace c <;> simp [hHead]
        decide

theorem Spaced.words_iff {pairs : List EmittedToken} (h : Spaced [] pairs) :
    WordsSpaced pairs ↔ WordsBegun (pairs.map Prod.fst) := by
  have hWord : ∀ before first rest after, pairs = before ++ first :: rest ++ after →
      IsWord first.1 (rest.map Prod.fst) (after.map Prod.fst) → shownText before ≠ [] →
      (((shownText (first :: rest)).head?.any isSpace = true ∨
          (shownText before).getLast?.any isSpace = true) ↔
        (first.1.rendered = [] → (plainText (rest.map Prod.fst)).head?.any isSpace = true ∨
          (plainText (before.map Prod.fst)).getLast?.any isSpace = true)) := by
    rintro before first rest after rfl hIs hSome
    rw [List.append_assoc, Spaced.append] at h
    obtain ⟨hBefore, hFirst, hOthers⟩ := h
    obtain ⟨hRest, -⟩ := Spaced.append.mp hOthers
    have hLast := hBefore.getLast?
    rw [List.nil_append, List.nil_append] at hLast
    rw [List.nil_append] at hFirst
    rw [shownText_cons, hRest.rest hIs.inner, Spaced.word_iff hFirst hIs.start hSome, hLast]
  have hNil : ∀ before rest, pairs = before ++ rest →
      (shownText before = [] ↔ plainText (before.map Prod.fst) = []) := by
    rintro before rest rfl
    exact (Spaced.append.mp h).1.nil_iff
  constructor
  · intro hSpaced before first rest after hSplit hIs hSome
    obtain ⟨front, after', hPairs, hFront, rfl⟩ := List.map_eq_append_iff.mp hSplit
    obtain ⟨before', word, rfl, rfl, hTokens⟩ := List.map_eq_append_iff.mp hFront
    obtain ⟨first', rest', rfl, rfl, rfl⟩ := List.map_eq_cons_iff.mp hTokens
    have hShown : shownText before' ≠ [] := fun hNone =>
      hSome ((hNil before' (first' :: rest' ++ after') (by rw [hPairs]; simp)).mp hNone)
    exact (hWord before' first' rest' after' hPairs hIs hShown).mp
      (hSpaced before' first' rest' after' hPairs hIs hShown)
  · intro hBegun before first rest after hSplit hIs hSome
    refine (hWord before first rest after hSplit hIs hSome).mpr fun hEmpty => ?_
    refine hBegun _ _ _ (after.map Prod.fst) (by rw [hSplit]; simp) hIs (fun hNone => hSome ?_) hEmpty
    exact (hNil before (first :: rest ++ after) (by rw [hSplit]; simp)).mpr hNone

/-- The space in front of an emitted token, if one was inserted. -/
def insertedSpace (pair : EmittedToken) : Bytes :=
  if pair.2.rendered = pair.1.rendered then [] else [32]

theorem Separated.insertedSpace {token emitted : SpeechToken} (h : Separated token emitted) :
    emitted.rendered = GrpcAsr.Media.insertedSpace (token, emitted) ++ token.rendered := by
  unfold GrpcAsr.Media.insertedSpace
  rcases h with rfl | rfl
  · simp
  · rw [if_neg (fun hSame => absurd (congrArg List.length hSame) (by simp [SpeechToken.rendered]))]
    rfl

/-- The words of a whole text stay apart, and without the inserted spaces it is the text of
the tokens. -/
structure KeepsWords (text : Bytes) (pairs : List EmittedToken) : Prop where
  words : WordsSpaced pairs
  text : text = pairs.flatMap fun pair => insertedSpace pair ++ pair.1.rendered

namespace Reconciler

theorem renderings_fst (env : ReconcileEnv) (calls : List ReconcileCall) :
    (renderings env calls).map Prod.fst = finalised env calls := by
  have hEntry : ∀ p ∈ evidence env calls, (pairs p).map Prod.fst = p.2.map Prod.fst := by
    intro p hp
    exact List.map_fst_zip (evidence_separated env calls p hp).length_eq.le
  rw [renderings, finalised, List.map_flatMap]
  exact List.flatMap_congr hEntry

theorem renderings_separated (env : ReconcileEnv) (calls : List ReconcileCall) :
    ∀ pair ∈ renderings env calls, Separated pair.1 pair.2 := by
  intro pair hPair
  obtain ⟨p, hp, hZip⟩ := List.mem_flatMap.mp hPair
  exact List.forall₂_zip (evidence_separated env calls p hp) hZip

/-- The final text of a run is the text of its emitted tokens, spaced as one text. -/
theorem renderings_spaced (env : ReconcileEnv) (calls : List ReconcileCall) :
    Spaced [] (renderings env calls) ∧
      finalText (Emitting.handed (runThrough (Reconciler.call env) initial calls).2) =
        shownText (renderings env calls) := by
  obtain ⟨last, hRenders⟩ := evidence_renders env calls
  obtain ⟨hSpaced, hText⟩ := @Renders.spaced [] last _ hRenders
  refine ⟨hSpaced, ?_⟩
  have hFinals := evidence_fst env calls
  rw [finalText, show (Emitting.handed _).filter _ = _ from hFinals.symm, List.flatMap_map]
  exact hText

/-- A call works through tokens it holds and tokens of its own hypothesis. -/
theorem line_tokens {P : SpeechToken → Prop} {r : Reconciler} {held : List MarkedToken}
    {call : ReconcileCall}
    (hFresh : ∀ h overlap, call = .accept h overlap → ∀ token ∈ h.fitted, P token)
    (hHeld : ∀ p ∈ held, P p.1) : ∀ p ∈ r.line held call, P p.1 := by
  cases call with
  | finish => exact hHeld
  | accept h overlap =>
    have hMarked : ∀ p ∈ h.marked, P p.1 := by
      intro p hp
      obtain ⟨token, hToken, rfl⟩ := List.mem_map.mp hp
      exact hFresh h overlap rfl token hToken
    have hMap : ∀ (f : MarkedToken → MarkedToken) (tokens : List MarkedToken),
        (∀ p, (f p).1 = p.1) → (∀ p ∈ tokens, P p.1) → ∀ p ∈ tokens.map f, P p.1 := by
      intro f tokens hSame hAll p hp
      obtain ⟨q, hq, rfl⟩ := List.mem_map.mp hp
      rw [hSame]
      exact hAll q hq
    rw [line]
    split
    · exact hHeld
    · rename_i c hChecked
      rw [List.forall_mem_append]
      cases r.joinOf h c with
      | start => exact ⟨fun _ hNone => absurd hNone List.not_mem_nil, hMarked⟩
      | flush => exact ⟨hHeld, hMarked⟩
      | unresolved => exact ⟨hMap doubt held (fun _ => rfl) hHeld, hMap doubt h.marked (fun _ => rfl) hMarked⟩
      | aligned merged =>
        refine ⟨fun _ hNone => absurd hNone List.not_mem_nil, hMap align _ (fun _ => rfl) ?_⟩
        rw [List.forall_mem_append]
        exact ⟨fun p hp => hHeld p (List.mem_of_mem_take hp), fun p hp => hMarked p (List.mem_of_mem_drop hp)⟩

/-- Every finalised token is a token of some accepted hypothesis. -/
theorem finalised_tokens {P : SpeechToken → Prop} (env : ReconcileEnv) {calls : List ReconcileCall}
    (h : ∀ h overlap, .accept h overlap ∈ calls → ∀ token ∈ h.fitted, P token) :
    ∀ token ∈ finalised env calls, P token := by
  intro token hToken
  obtain ⟨p, hp, hMem⟩ := List.mem_flatMap.mp hToken
  obtain ⟨item, hItem, rfl⟩ := List.mem_map.mp hMem
  have hLine : ∀ call ∈ calls, ∀ (r : Reconciler) (held : List MarkedToken),
      (∀ p ∈ held, P p.1) → ∀ p ∈ r.line held call, P p.1 := by
    intro call hCall r held hHeld
    exact line_tokens (fun hypothesis overlap hSame => h hypothesis overlap (hSame ▸ hCall)) hHeld
  have hNone : ∀ p ∈ ([] : List MarkedToken), P p.1 := fun _ hNil => absurd hNil List.not_mem_nil
  exact Dealing.trail_items (Q := fun p : MarkedToken => P p.1) hLine hNone p hp item hItem

theorem finalised_lexical {P : SpeechToken → Prop} (env : ReconcileEnv) {calls : List ReconcileCall}
    (hFit : ∀ token low high, P token → P (token.fit low high))
    (h : ∀ h overlap, .accept h overlap ∈ calls → ∀ token ∈ h.lexical, P token) :
    ∀ token ∈ finalised env calls, P token := by
  refine finalised_tokens env fun hypothesis overlap hCall token hToken => ?_
  obtain ⟨lexical, hLexical, rfl⟩ := List.mem_map.mp hToken
  exact hFit lexical _ _ (h hypothesis overlap hCall lexical hLexical)

end Reconciler

theorem WordsBegun.of_pieces {tokens : List SpeechToken}
    (h : ∀ token ∈ tokens, token.isWordStart = true → token.rendered ≠ []) : WordsBegun tokens := by
  rintro before first rest after rfl hIs - hEmpty
  exact absurd hEmpty (h first (by simp) hIs.start)

/-- In every run, native words stay separated in the final text exactly if no word has an
empty first piece where it needs a space. They do if all word starts render some text. -/
theorem native_words_kept_iff (env : ReconcileEnv) (calls : List ReconcileCall) :
    (KeepsWords (finalText (handed (runThrough (Reconciler.call env) Reconciler.initial calls).2))
        (Reconciler.renderings env calls) ↔
      WordsBegun (Reconciler.finalised env calls)) ∧
    ((∀ h overlap, .accept h overlap ∈ calls → ∀ token ∈ h.lexical,
        token.isWordStart = true → token.rendered ≠ []) →
      WordsBegun (Reconciler.finalised env calls)) := by
  obtain ⟨hSpaced, hText⟩ := Reconciler.renderings_spaced env calls
  have hInserted : shownText (Reconciler.renderings env calls) =
      (Reconciler.renderings env calls).flatMap fun pair => insertedSpace pair ++ pair.1.rendered := by
    rw [shownText, plainText, List.flatMap_map]
    exact List.flatMap_congr fun pair hPair =>
      (Reconciler.renderings_separated env calls pair hPair).insertedSpace
  have hWords := hSpaced.words_iff
  rw [Reconciler.renderings_fst] at hWords
  refine ⟨⟨fun hKeeps => hWords.mp hKeeps.words, fun hBegun => ⟨hWords.mpr hBegun, hText.trans hInserted⟩⟩,
    fun hPieces => WordsBegun.of_pieces (Reconciler.finalised_lexical env ?_ hPieces)⟩
  intro token low high hToken hStart
  obtain ⟨hRendered, hSame⟩ := fit_rendered token low high
  rw [hRendered]
  exact hToken (hSame.symm.trans hStart)

/-- The first piece of the second window is a word start that renders empty, as the native
model renders a lone word marker at the start of a segment. -/
def emptyWordStart : List ReconcileCall :=
  [.accept (heardWindow 1 0 0 [piece (ascii "hello") true 0 400000]) 0,
   .accept (heardWindow 2 32000 32000
     [{ piece (ascii "_") true 2100000 2200000 with renderedText := some [] },
      piece (ascii "world") false 2200000 2600000]) 0,
   .finish]

theorem empty_word_start_unspaced :
    finalText (handed (runThrough (Reconciler.call quietEnv) Reconciler.initial emptyWordStart).2) =
        ascii "helloworld" ∧
      ¬WordsSpaced (Reconciler.renderings quietEnv emptyWordStart) := by
  refine ⟨by decide +kernel, fun hSpaced => ?_⟩
  have hSplit : Reconciler.renderings quietEnv emptyWordStart =
      (Reconciler.renderings quietEnv emptyWordStart).take 1 ++
        (Reconciler.renderings quietEnv emptyWordStart).get ⟨1, by decide +kernel⟩ ::
          (Reconciler.renderings quietEnv emptyWordStart).drop 2 ++ [] := by decide +kernel
  have hWord := hSpaced _ _ _ _ hSplit
    ⟨by decide +kernel, by decide +kernel, by decide +kernel, by decide +kernel⟩ (by decide +kernel)
  revert hWord
  decide +kernel

end GrpcAsr.Media
