import Mathlib.Data.List.TakeWhile
import GrpcAsr.Library.Utf8
import GrpcAsr.Asr.DocumentItems

/-!
# Charspans of words

The walk over the words of a final keeps a byte cursor and a code point cursor on the item's
text. Behind the cursors lies a front of the text; a word that is found lies behind a gap.
Words of valid UTF-8 are found at characters, and where the text is the words one after
another, each is found where it stands: the gap before it is blank and it is not.
-/

namespace GrpcAsr.Asr

set_option autoImplicit false

open Media (Bytes ascii)
open Utf8 (encode)
open AsrDocumentFold (WordCursor locateWord wordProvenance)

def points (text : Bytes) : Nat := text.countP Utf8.isLead

def Blank (text : Bytes) : Prop := ∀ c ∈ text, isBlank c = true

/-- The blank bytes at the beginning of a text. -/
def leading (text : Bytes) : Bytes := text.takeWhile isBlank

@[simp] theorem points_append (front back : Bytes) : points (front ++ back) = points front + points back :=
  List.countP_append

@[simp] theorem points_encode (chars : List Char) : points (encode chars) = chars.length :=
  Utf8.countP_isLead_encode chars

theorem codePoints_middle (front gap back : Bytes) :
    codePoints (front ++ gap ++ back) front.length (front ++ gap).length = points gap := by
  have hCount : codePoints (front ++ gap ++ back) front.length (front ++ gap).length =
      (((front ++ gap ++ back).take (front ++ gap).length).drop front.length).countP Utf8.isLead := rfl
  rw [hCount, List.take_left, List.drop_left, points]

theorem isBlank_ascii {c : UInt8} (h : isBlank c = true) : c < 128 := by
  simp only [isBlank, Bool.or_eq_true, beq_iff_eq] at h
  rcases h with ((rfl | rfl) | rfl) | rfl <;> decide

theorem Blank.append {front back : Bytes} (hFront : Blank front) (hBack : Blank back) :
    Blank (front ++ back) := List.forall_mem_append.mpr ⟨hFront, hBack⟩

theorem Blank.points {text : Bytes} (h : Blank text) : points text = text.length :=
  List.countP_eq_length.mpr fun c hc => Utf8.isLead_ascii (isBlank_ascii (h c hc))

theorem leading_blank (text : Bytes) : Blank (leading text) := fun _ hc => List.mem_takeWhile_imp hc

/-- A blank front of a text that goes on with something else is all of its leading blanks. -/
theorem leading_eq {front back : Bytes} {c : UInt8} (hFront : Blank front) (hc : isBlank c = false) :
    leading (front ++ c :: back) = front := by
  rw [leading, List.takeWhile_append_of_pos hFront, List.takeWhile_cons_of_neg (by simp [hc]),
    List.append_nil]

section Trimmed

variable (text : Bytes)

theorem trimmed_split : ∃ after, text = leading text ++ trimmed text ++ after ∧ Blank after := by
  have hBack : text.dropWhile isBlank = trimmed text ++
      ((text.dropWhile isBlank).reverse.takeWhile isBlank).reverse := by
    rw [trimmed, ← List.reverse_append, List.takeWhile_append_dropWhile, List.reverse_reverse]
  refine ⟨((text.dropWhile isBlank).reverse.takeWhile isBlank).reverse, ?_, ?_⟩
  · rw [List.append_assoc, ← hBack, leading, List.takeWhile_append_dropWhile]
  · intro c hc
    exact List.mem_takeWhile_imp (List.mem_reverse.mp hc)

variable {text}

theorem trimmed_last {front : Bytes} {c : UInt8} (h : trimmed text = front ++ [c]) :
    isBlank c = false := by
  have hReverse : (text.dropWhile isBlank).reverse.dropWhile isBlank = c :: front.reverse := by
    rw [← List.reverse_inj, List.reverse_cons, List.reverse_reverse]
    exact h
  have hHead := List.head?_dropWhile_not isBlank (text.dropWhile isBlank).reverse
  rw [hReverse] at hHead
  simpa using hHead

theorem trimmed_head {rest : Bytes} {c : UInt8} (h : trimmed text = c :: rest) : isBlank c = false := by
  obtain ⟨after, hSplit, -⟩ := trimmed_split text
  have hHead := List.head?_dropWhile_not isBlank text
  have hDrop : text.dropWhile isBlank = c :: (rest ++ after) := by
    have hBoth : leading text ++ text.dropWhile isBlank = leading text ++ c :: (rest ++ after) := by
      rw [leading, List.takeWhile_append_dropWhile]
      rw [h, List.append_assoc, List.cons_append] at hSplit
      exact hSplit
    exact List.append_cancel_left hBoth
  rw [hDrop] at hHead
  simpa using hHead

theorem trimmed_nil (h : trimmed text = []) : Blank text := by
  obtain ⟨after, hSplit, hAfter⟩ := trimmed_split text
  rw [h, List.append_nil] at hSplit
  rw [hSplit]
  exact (leading_blank text).append hAfter

/-- Trimming takes whole characters. -/
theorem trimmed_encode (chars : List Char) : ∃ inner, trimmed (encode chars) = encode inner := by
  obtain ⟨after, hSplit, hAfter⟩ := trimmed_split (encode chars)
  rw [List.append_assoc] at hSplit
  obtain ⟨-, right, -, -, hRight⟩ := Utf8.encode_ascii_append hSplit fun c hc =>
    isBlank_ascii (leading_blank _ c hc)
  cases after with
  | nil => exact ⟨right, by rw [hRight, List.append_nil]⟩
  | cons c after =>
    obtain ⟨inner, -, -, hInner, -⟩ :=
      Utf8.encode_eq_append hRight (Utf8.isLead_ascii (isBlank_ascii (hAfter c List.mem_cons_self)))
    exact ⟨inner, hInner.symm⟩

end Trimmed

/-- The cursors of the walk behind a front of the text. -/
def cursorAfter (front : Bytes) : WordCursor := ⟨front.length, points front⟩

section Search

variable {front rest needle : Bytes}

theorem drop_behind {place : Nat} (h : front.length ≤ place) :
    (front ++ rest).drop place = rest.drop (place - front.length) := by
  rw [List.drop_append, List.drop_of_length_le h, List.nil_append]

theorem findFrom_some {found : Nat} (h : findFrom (front ++ rest) needle front.length = some found) :
    ∃ gap back, rest = gap ++ needle ++ back ∧ found = (front ++ gap).length := by
  have hFound := List.find?_some h
  have hRange := List.mem_of_find?_eq_some h
  rw [List.mem_range'_1, List.length_append] at hRange
  obtain ⟨back, hBack⟩ := List.isPrefixOf_iff_prefix.mp hFound
  rw [drop_behind hRange.1] at hBack
  refine ⟨rest.take (found - front.length), back, ?_, ?_⟩
  · rw [List.append_assoc, hBack, List.take_append_drop]
  · rw [List.length_append, List.length_take]
    omega

/-- Behind blanks a text that does not begin with one is found where it stands. -/
theorem findFrom_blank {gap back : Bytes} {c : UInt8} (hGap : Blank gap) (hc : isBlank c = false) :
    findFrom (front ++ (gap ++ (c :: needle ++ back))) (c :: needle) front.length =
      some (front ++ gap).length := by
  rw [findFrom, List.find?_range'_eq_some]
  constructor
  · rw [← List.append_assoc, List.drop_left]
    exact List.isPrefixOf_iff_prefix.mpr (List.prefix_append _ _)
  constructor
  · rw [List.mem_range'_1, List.length_append, List.length_append, List.length_append]
    omega
  · intro place hAfter hBefore
    rw [List.length_append] at hBefore
    have hInside : place - front.length < gap.length := by omega
    rw [drop_behind hAfter, List.drop_append_of_le_length hInside.le, List.drop_eq_getElem_cons hInside]
    have hBlank := hGap _ (List.getElem_mem hInside)
    have hNot : c ≠ gap[place - front.length] := by
      rintro rfl
      rw [hc] at hBlank
      cases hBlank
    rw [List.cons_append, List.cons_append, List.isPrefixOf_cons_cons, beq_false_of_ne hNot]
    rfl

end Search

section Locate

variable {front rest : Bytes} {segment : Segment} {word : Word}

/-- The entry of a word found behind a gap, in code points of the text. -/
def foundEntry (front gap : Bytes) (segment : Segment) (word : Word) : ProvenanceItem :=
  ⟨timeSpan word.startMs word.endMs segment.speakerId,
    some ⟨points (front ++ gap), points (front ++ gap ++ trimmed word.text)⟩⟩

theorem locateWord_blank (h : trimmed word.text = []) :
    locateWord (front ++ rest) segment (cursorAfter front) word =
      (cursorAfter front, ⟨timeSpan word.startMs word.endMs segment.speakerId, none⟩) := by
  rw [locateWord]
  simp [h]

theorem locateWord_found {gap back : Bytes} (hWord : trimmed word.text ≠ [])
    (hRest : rest = gap ++ trimmed word.text ++ back)
    (hFound : findFrom (front ++ rest) (trimmed word.text) front.length = some (front ++ gap).length) :
    locateWord (front ++ rest) segment (cursorAfter front) word =
      (cursorAfter (front ++ gap ++ trimmed word.text), foundEntry front gap segment word) := by
  have hGap : codePoints (front ++ rest) front.length (front ++ gap).length = points gap := by
    rw [hRest, List.append_assoc, ← List.append_assoc front]
    exact codePoints_middle front gap _
  have hOwn : codePoints (front ++ rest) (front ++ gap).length
      ((front ++ gap).length + (trimmed word.text).length) = points (trimmed word.text) := by
    rw [hRest, ← List.length_append, ← List.append_assoc, ← List.append_assoc]
    exact codePoints_middle (front ++ gap) _ back
  have hEmpty : (trimmed word.text).isEmpty = false := by
    rw [List.isEmpty_eq_false_iff]
    exact hWord
  simp only [locateWord, hEmpty, cursorAfter, hFound, hGap, hOwn]
  rw [foundEntry, points_append (front ++ gap), points_append, @List.length_append _ (front ++ gap)]
  rfl

theorem locateWord_cases :
    locateWord (front ++ rest) segment (cursorAfter front) word =
        (cursorAfter front, ⟨timeSpan word.startMs word.endMs segment.speakerId, none⟩) ∨
      ∃ gap back, rest = gap ++ trimmed word.text ++ back ∧ trimmed word.text ≠ [] ∧
        locateWord (front ++ rest) segment (cursorAfter front) word =
          (cursorAfter (front ++ gap ++ trimmed word.text), foundEntry front gap segment word) := by
  by_cases hWord : trimmed word.text = []
  · exact .inl (locateWord_blank hWord)
  · cases hFound : findFrom (front ++ rest) (trimmed word.text) front.length with
    | none =>
      left
      have hEmpty : (trimmed word.text).isEmpty = false := List.isEmpty_eq_false_iff.mpr hWord
      simp only [locateWord, hEmpty, cursorAfter, hFound]
      rfl
    | some found =>
      obtain ⟨gap, back, hRest, rfl⟩ := findFrom_some hFound
      exact .inr ⟨gap, back, hRest, hWord, locateWord_found hWord hRest hFound⟩

end Locate

section Walk

variable {segment : Segment} {words : List Word}

/-- An entry of a word: its time, and a charspan that cuts the word out of the item's text. -/
structure Locates (segment : Segment) (chars : List Char) (word : Word) (entry : ProvenanceItem) :
    Prop where
  time : entry.time = timeSpan word.startMs word.endMs segment.speakerId
  nonempty : ∀ span ∈ entry.charspan, span.start < span.stop
  inside : ∀ span ∈ entry.charspan, span.stop ≤ chars.length
  slice : ∀ span ∈ entry.charspan,
    encode ((chars.drop span.start).take (span.stop - span.start)) = trimmed word.text

theorem foundEntry_locates {chars : List Char} {front gap back : Bytes} {word : Word}
    (hWord : trimmed word.text ≠ []) (hValid : ∃ own, word.text = encode own)
    (hChars : encode chars = front ++ (gap ++ trimmed word.text ++ back)) :
    Locates segment chars word (foundEntry front gap segment word) := by
  obtain ⟨own, hOwn⟩ := hValid
  obtain ⟨inner, hInner⟩ := trimmed_encode own
  rw [← hOwn] at hInner
  have hNonempty : inner ≠ [] := by
    rintro rfl
    exact hWord hInner
  have hSplit : encode chars = (front ++ gap) ++ encode inner ++ back := by
    rw [hChars, hInner]
    simp
  obtain ⟨left, right, rfl, hLeft, -⟩ := Utf8.encode_occurrence hSplit hNonempty
  have hStart : points (front ++ gap) = left.length := by rw [← hLeft, points_encode]
  have hStop : points (front ++ gap ++ trimmed word.text) = left.length + inner.length := by
    rw [points_append, hStart, hInner, points_encode]
  have hPositive := List.length_pos_of_ne_nil hNonempty
  refine ⟨rfl, ?_, ?_, ?_⟩
  · rintro span ⟨⟩
    show points (front ++ gap) < points (front ++ gap ++ trimmed word.text)
    omega
  · rintro span ⟨⟩
    show points (front ++ gap ++ trimmed word.text) ≤ (left ++ inner ++ right).length
    rw [hStop, List.length_append, List.length_append]
    omega
  · rintro span ⟨⟩
    rw [hStart, hStop, List.append_assoc, List.drop_left, Nat.add_sub_cancel_left, List.take_left,
      hInner]

theorem wordProvenance_locates {chars : List Char} {front rest : Bytes}
    (hWords : ∀ word ∈ words, ∃ own, word.text = encode own) (hChars : encode chars = front ++ rest) :
    List.Forall₂ (Locates segment chars) words
      (wordProvenance (front ++ rest) segment (cursorAfter front) words) := by
  induction words generalizing front rest with
  | nil => exact .nil
  | cons word words ih =>
    have hRest := fun other hOther => hWords other (List.mem_cons_of_mem word hOther)
    rcases @locateWord_cases front rest segment word with hNone | ⟨gap, back, rfl, hWord, hFound⟩
    · rw [wordProvenance, hNone]
      apply List.Forall₂.cons
      · constructor <;> simp
      · exact ih hRest hChars
    · rw [wordProvenance, hFound]
      apply List.Forall₂.cons
      · exact foundEntry_locates hWord (hWords word List.mem_cons_self) hChars
      · have hNext : front ++ (gap ++ trimmed word.text ++ back) =
            front ++ gap ++ trimmed word.text ++ back := by simp
        rw [hNext] at hChars ⊢
        exact ih hRest hChars

theorem wordProvenance_ordered (front rest : Bytes) :
    (∀ span ∈ (wordProvenance (front ++ rest) segment (cursorAfter front) words).filterMap
      ProvenanceItem.charspan, points front ≤ span.start) ∧
    ((wordProvenance (front ++ rest) segment (cursorAfter front) words).filterMap
      ProvenanceItem.charspan).Pairwise fun earlier later => earlier.stop ≤ later.start := by
  induction words generalizing front rest with
  | nil => exact ⟨List.forall_mem_nil _, .nil⟩
  | cons word words ih =>
    rcases @locateWord_cases front rest segment word with hNone | ⟨gap, back, rfl, hWord, hFound⟩
    · rw [wordProvenance, hNone, List.filterMap_cons_none rfl]
      exact ih front rest
    · have hNext : front ++ (gap ++ trimmed word.text ++ back) =
          front ++ gap ++ trimmed word.text ++ back := by simp
      have hCharspan : (foundEntry front gap segment word).charspan =
          some ⟨points (front ++ gap), points (front ++ gap ++ trimmed word.text)⟩ := rfl
      rw [wordProvenance, hFound, List.filterMap_cons_some hCharspan, hNext, List.forall_mem_cons,
        List.pairwise_cons]
      obtain ⟨hAfter, hPairwise⟩ := ih (front ++ gap ++ trimmed word.text) back
      have hFront : points front ≤ points (front ++ gap ++ trimmed word.text) := by
        rw [points_append, points_append]
        omega
      refine ⟨⟨?_, fun span hSpan => hFront.trans (hAfter span hSpan)⟩, hAfter, hPairwise⟩
      show points front ≤ points (front ++ gap)
      rw [points_append]
      omega

end Walk

section OwnPlace

variable {text passed front rest : Bytes}

/-- What ends with no blank lies before the blanks at the end. -/
theorem before_blanks {word after back : Bytes} {c : UInt8} (hBoth : word ++ [c] ++ back = rest ++ after)
    (hc : isBlank c = false) (hAfter : Blank after) : ∃ more, rest = word ++ [c] ++ more := by
  rcases List.append_eq_append_iff.mp hBoth with ⟨more, hMore, -⟩ | ⟨more, hMore, rfl⟩
  · exact ⟨more, hMore⟩
  · rcases List.eq_nil_or_concat more with rfl | ⟨init, last, rfl⟩
    · exact ⟨[], by rw [hMore, List.append_nil, List.append_nil]⟩
    · rw [List.concat_eq_append, ← List.append_assoc] at hMore
      obtain ⟨-, hLast⟩ := List.append_inj' hMore rfl
      obtain rfl := List.singleton_inj.mp hLast
      have hBlank := hAfter c (by simp)
      rw [hc] at hBlank
      cases hBlank

/-- The words passed are the blanks in front of the item's text, the front the walk has behind it
and blanks; before the first word that is not blank they are blanks only. -/
def InStep (text passed front : Bytes) : Prop :=
  front = [] ∧ Blank passed ∨ ∃ pad, passed = leading text ++ front ++ pad ∧ Blank pad

theorem InStep.blank {word : Bytes} (h : InStep text passed front) (hWord : Blank word) :
    InStep text (passed ++ word) front := by
  rcases h with ⟨rfl, hPassed⟩ | ⟨pad, rfl, hPad⟩
  · exact .inl ⟨rfl, hPassed.append hWord⟩
  · exact .inr ⟨pad ++ word, by rw [List.append_assoc], hPad.append hWord⟩

/-- In step, the next word that is not blank stands in the rest behind blanks. -/
theorem InStep.gap {word after : Bytes} (h : InStep text passed front)
    (hText : text = passed ++ word ++ after) (hItem : trimmed text = front ++ rest)
    (hWord : trimmed word ≠ []) :
    ∃ gap back, rest = gap ++ trimmed word ++ back ∧ Blank gap ∧
      passed ++ leading word = leading text ++ front ++ gap := by
  obtain ⟨behind, hBehind, -⟩ := trimmed_split word
  obtain ⟨tail, hTail, hBlank⟩ := trimmed_split text
  obtain ⟨c, cs, hc⟩ := List.exists_cons_of_ne_nil hWord
  obtain ⟨init, last, hLast⟩ := (List.eq_nil_or_concat (trimmed word)).resolve_left hWord
  rw [List.concat_eq_append] at hLast
  have hWhole : text = passed ++ leading word ++ trimmed word ++ (behind ++ after) := by
    conv_lhs => rw [hText, hBehind]
    simp
  have hGap : ∃ gap, Blank gap ∧ passed ++ leading word = leading text ++ front ++ gap := by
    rcases h with ⟨rfl, hPassed⟩ | ⟨pad, rfl, hPad⟩
    · have hLead : leading text = passed ++ leading word := by
        rw [hWhole, hc, List.append_assoc _ (c :: cs), List.cons_append]
        exact leading_eq (hPassed.append (leading_blank word)) (trimmed_head hc)
      exact ⟨[], List.forall_mem_nil _, by rw [hLead, List.append_nil, List.append_nil]⟩
    · exact ⟨pad ++ leading word, hPad.append (leading_blank word), by rw [List.append_assoc]⟩
  obtain ⟨gap, hGapBlank, hGap⟩ := hGap
  have hBoth : (gap ++ init) ++ [last] ++ (behind ++ after) = rest ++ tail := by
    refine @List.append_cancel_left _ (leading text ++ front) _ _ ?_
    calc leading text ++ front ++ (gap ++ init ++ [last] ++ (behind ++ after))
        = leading text ++ front ++ gap ++ (init ++ [last]) ++ (behind ++ after) := by simp
      _ = passed ++ leading word ++ trimmed word ++ (behind ++ after) := by rw [hGap, hLast]
      _ = text := hWhole.symm
      _ = leading text ++ trimmed text ++ tail := hTail
      _ = leading text ++ front ++ (rest ++ tail) := by rw [hItem]; simp
  obtain ⟨back, hBack⟩ := before_blanks hBoth (trimmed_last hLast) hBlank
  exact ⟨gap, back, by rw [hBack, hLast]; simp, hGapBlank, hGap⟩

theorem InStep.next {gap word : Bytes} (hGap : passed ++ leading word = leading text ++ front ++ gap) :
    InStep text (passed ++ word) (front ++ gap ++ trimmed word) := by
  obtain ⟨behind, hBehind, hBlank⟩ := trimmed_split word
  refine .inr ⟨behind, ?_, hBlank⟩
  conv_lhs => rw [hBehind, ← List.append_assoc, ← List.append_assoc, hGap]
  simp

/-- The charspan of a word behind the words passed, in code points of the trimmed text. -/
structure OwnSpan (text passed word : Bytes) (span : IntSpan) : Prop where
  start : points (leading text) + span.start = points (passed ++ leading word)
  stop : points (leading text) + span.stop = points (passed ++ leading word ++ trimmed word)

theorem InStep.locate (segment : Segment) {word : Word} {after : Bytes} (h : InStep text passed front)
    (hText : text = passed ++ word.text ++ after) (hItem : trimmed text = front ++ rest)
    (hWord : trimmed word.text ≠ []) :
    ∃ gap back, rest = gap ++ trimmed word.text ++ back ∧
      passed ++ leading word.text = leading text ++ front ++ gap ∧
      locateWord (front ++ rest) segment (cursorAfter front) word =
        (cursorAfter (front ++ gap ++ trimmed word.text), foundEntry front gap segment word) := by
  obtain ⟨gap, back, rfl, hBlank, hGap⟩ := h.gap hText hItem hWord
  refine ⟨gap, back, rfl, hGap, locateWord_found hWord rfl ?_⟩
  obtain ⟨c, cs, hc⟩ := List.exists_cons_of_ne_nil hWord
  rw [hc, List.append_assoc]
  exact findFrom_blank hBlank (trimmed_head hc)

theorem wordProvenance_own {segment : Segment} {words before after : List Word} {word : Word}
    (hText : text = passed ++ words.flatMap Word.text) (hItem : trimmed text = front ++ rest)
    (hStep : InStep text passed front) (hSplit : words = before ++ word :: after)
    (hWord : ¬ Blank word.text) :
    ∃ entry span,
      (wordProvenance (front ++ rest) segment (cursorAfter front) words)[before.length]? = some entry ∧
      entry.charspan = some span ∧
      OwnSpan text (passed ++ before.flatMap Word.text) word.text span := by
  induction before generalizing words passed front rest with
  | nil =>
    obtain rfl : words = word :: after := hSplit
    rw [List.flatMap_cons, ← List.append_assoc] at hText
    obtain ⟨gap, back, -, hGap, hFound⟩ := hStep.locate segment hText hItem (mt trimmed_nil hWord)
    rw [wordProvenance, hFound]
    refine ⟨foundEntry front gap segment word, _, rfl, rfl, ?_⟩
    rw [List.flatMap_nil, List.append_nil]
    constructor
    · show points (leading text) + points (front ++ gap) = _
      rw [hGap, ← points_append, List.append_assoc]
    · show points (leading text) + points (front ++ gap ++ trimmed word.text) = _
      rw [hGap, ← points_append]
      simp only [List.append_assoc]
  | cons first before ih =>
    obtain rfl : words = first :: (before ++ word :: after) := hSplit
    rw [List.flatMap_cons, ← List.append_assoc] at hText
    rw [List.flatMap_cons, ← List.append_assoc, wordProvenance, List.length_cons, List.getElem?_cons_succ]
    by_cases hFirst : trimmed first.text = []
    · rw [locateWord_blank hFirst]
      exact ih hText hItem (hStep.blank (trimmed_nil hFirst)) rfl
    · obtain ⟨gap, back, rfl, hGap, hFound⟩ := hStep.locate segment hText hItem hFirst
      have hNext : front ++ (gap ++ trimmed first.text ++ back) =
          front ++ gap ++ trimmed first.text ++ back := by simp
      rw [hFound, hNext]
      exact ih hText (by rw [hItem, hNext]) (InStep.next hGap) rfl

end OwnPlace

theorem word_charspans (parse : Bytes → Option Nat) {fold : AsrDocumentFold} {segment : Segment}
    {chars : List Char} (hOpen : fold.finished = false) (hText : segment.text = encode chars)
    (hWords : ∀ word ∈ segment.words, ∃ own, word.text = encode own) :
    ∃ item whole entries inner,
      (fold.consume parse (.finalSegment segment)).document.texts = fold.document.texts ++ [item] ∧
      item.text = trimmed segment.text ∧ item.text = encode inner ∧ item.prov = whole :: entries ∧
      List.Forall₂ (Locates segment inner)
        (if fold.options.wordProvenance then segment.words else []) entries ∧
      (entries.filterMap ProvenanceItem.charspan).Pairwise
        (fun earlier later => earlier.stop ≤ later.start) ∧
      (fold.options.wordProvenance = true → segment.text = segment.words.flatMap Word.text →
        ∀ before word after, segment.words = before ++ word :: after → ¬ Blank word.text →
          ∃ entry span, entries[before.length]? = some entry ∧ entry.charspan = some span ∧
            OwnSpan segment.text (before.flatMap Word.text) word.text span) := by
  obtain ⟨inner, hInner⟩ := trimmed_encode chars
  rw [← hText] at hInner
  have hTaken : fold.consume parse (.finalSegment segment) = fold.onFinalSegment segment := by
    rw [AsrDocumentFold.consume, hOpen]
    rfl
  refine ⟨fold.textItem segment, _, _, inner, ?_, rfl, hInner, rfl, ?_⟩
  · rw [hTaken]
    exact (AsrDocumentFold.takes_final fold hOpen segment).texts
  · cases hOption : fold.options.wordProvenance with
    | false => exact ⟨.nil, .nil, fun h => by cases h⟩
    | true =>
      refine ⟨?_, ?_, ?_⟩
      · exact @wordProvenance_locates segment _ inner [] _ hWords hInner.symm
      · exact (wordProvenance_ordered [] (trimmed segment.text)).2
      · intro _ hWhole before word after hSplit hWord
        exact @wordProvenance_own _ [] [] _ segment _ before after word hWhole rfl
          (.inl ⟨rfl, List.forall_mem_nil _⟩) hSplit hWord

def nestedWords : Segment where
  index := 0
  startMs := 0
  endMs := 2000
  text := [32, 97, 98, 32, 98]
  words := [⟨[32, 97, 98], 0, 1000, 1⟩, ⟨[32, 98], 1000, 2000, 1⟩]
  avgLogprob := none
  speakerTurnNext := false
  speakerId := []

theorem nestedWords_encode : ∀ word ∈ nestedWords.words, ∃ own, word.text = encode own := by
  rintro word (_ | ⟨_, _ | ⟨_, ⟨⟩⟩⟩)
  · exact ⟨[' ', 'a', 'b'], by decide⟩
  · exact ⟨[' ', 'b'], by decide⟩

theorem word_charspans_nested :
    ∃ item, ((AsrDocumentFold.create [] [] ⟨true⟩).consume (fun _ => none)
        (.finalSegment nestedWords)).document.texts = [item] ∧
      ∃ entry ∈ item.prov, entry.charspan = some ⟨3, 4⟩ := by
  obtain ⟨item, whole, entries, inner, hTexts, -, -, hProv, -, -, hOwn⟩ :=
    @word_charspans (fun _ => none) (AsrDocumentFold.create [] [] ⟨true⟩) nestedWords
      [' ', 'a', 'b', ' ', 'b'] rfl (by decide) nestedWords_encode
  refine ⟨item, hTexts, ?_⟩
  obtain ⟨entry, ⟨start, stop⟩, hEntry, hSpan, hOwnSpan⟩ :=
    hOwn rfl rfl [⟨[32, 97, 98], 0, 1000, 1⟩] ⟨[32, 98], 1000, 2000, 1⟩ [] rfl (by
      intro hBlank
      have hLast := hBlank 98 (by decide)
      revert hLast
      decide)
  have hStart : 1 + start = 4 := hOwnSpan.start
  have hStop : 1 + stop = 5 := hOwnSpan.stop
  obtain rfl : start = 3 := by omega
  obtain rfl : stop = 4 := by omega
  rw [hProv]
  exact ⟨entry, List.mem_cons_of_mem _ (List.mem_of_getElem? hEntry), hSpan⟩

/-- Without word provenance the words of a final get no entries. -/
theorem words_without_entries :
    ¬ ∀ (fold : AsrDocumentFold) (segment : Segment) (chars : List Char), fold.finished = false →
        segment.text = encode chars → (∀ word ∈ segment.words, ∃ own, word.text = encode own) →
        ∃ item whole entries,
          (fold.consume (fun _ => none) (.finalSegment segment)).document.texts =
            fold.document.texts ++ [item] ∧
          item.prov = whole :: entries ∧ entries.length = segment.words.length := by
  intro h
  obtain ⟨item, whole, entries, hTexts, hProv, hLength⟩ :=
    h (AsrDocumentFold.create [] [] ⟨false⟩) nestedWords [' ', 'a', 'b', ' ', 'b'] rfl (by decide)
      nestedWords_encode
  obtain rfl := (List.cons.inj hTexts).1
  have hCount := congrArg List.length hProv
  rw [List.length_cons, hLength] at hCount
  cases hCount

end GrpcAsr.Asr
