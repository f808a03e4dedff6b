import GrpcAsr.Media.ReconcileSteps

/-!
# Complete UTF-8 and the letters of a text

A text is complete UTF-8 when it splits into encoded characters. What is read of a
text so far matters for the rest only through the unfinished character at its end, and
the letters of a text keep that character: they differ from the text in ASCII only.
-/

namespace GrpcAsr.Media

set_option autoImplicit false

/-- The bytes behind a lead byte that complete its character. -/
def completes (lead : UInt8) (continuation : Bytes) : Bool :=
  continuation.all isContinuation &&
    if 0xc2 ≤ lead ∧ lead ≤ 0xdf then
      continuation.length == 1 && scalarInRange 0x80 (codePoint (lead &&& 31).toNat continuation)
    else if 0xe0 ≤ lead ∧ lead ≤ 0xef then
      continuation.length == 2 && scalarInRange 0x800 (codePoint (lead &&& 15).toNat continuation)
    else if 0xf0 ≤ lead ∧ lead ≤ 0xf4 then
      continuation.length == 3 && scalarInRange 0x10000 (codePoint (lead &&& 7).toNat continuation)
    else false

theorem utf8_ascii {lead : UInt8} (h : lead < 128) (rest : Bytes) :
    utf8 (lead :: rest) = utf8 rest := by
  conv_lhs => unfold utf8
  simp [h]

theorem isContinuation_iff (c : UInt8) : isContinuation c = true ↔ 128 ≤ c ∧ c < 192 := by
  obtain ⟨bits⟩ := c
  revert bits
  decide +kernel

theorem completes_lead {lead : UInt8} {continuation : Bytes}
    (h : completes lead continuation = true) : 192 ≤ lead := by
  simp only [completes, Bool.and_eq_true] at h
  obtain ⟨-, h⟩ := h
  split at h
  · grind
  · split at h
    · grind
    · split at h
      · grind
      · cases h

theorem completes_all {lead : UInt8} {continuation : Bytes}
    (h : completes lead continuation = true) : ∀ c ∈ continuation, isContinuation c = true := by
  simp only [completes, Bool.and_eq_true, List.all_eq_true] at h
  exact h.1

/-- A character is read as a whole. -/
theorem utf8_completes {lead : UInt8} {continuation : Bytes}
    (h : completes lead continuation = true) (rest : Bytes) :
    utf8 (lead :: (continuation ++ rest)) = utf8 rest := by
  have hLead : ¬lead < 128 := by
    have hBound := completes_lead h
    grind
  simp only [completes, Bool.and_eq_true] at h
  obtain ⟨hAll, h⟩ := h
  conv_lhs => unfold utf8
  simp only [hLead, if_false]
  split at h
  · rename_i hTwo
    simp only [Bool.and_eq_true, beq_iff_eq] at h
    obtain ⟨a, rfl⟩ := List.length_eq_one_iff.mp h.1
    simp only [List.all_cons, List.all_nil, Bool.and_true] at hAll
    simp only [hTwo, and_self, if_true, List.singleton_append, hAll, h.2, Bool.true_and]
  · rename_i hTwo
    split at h
    · rename_i hThree
      simp only [Bool.and_eq_true, beq_iff_eq] at h
      obtain ⟨a, b, rfl⟩ := List.length_eq_two.mp h.1
      simp only [List.all_cons, List.all_nil, Bool.and_true, Bool.and_eq_true] at hAll
      simp only [hTwo, hThree, and_self, if_true, if_false, List.cons_append, List.nil_append, hAll,
        h.2, Bool.true_and]
    · rename_i hThree
      split at h
      · rename_i hFour
        simp only [Bool.and_eq_true, beq_iff_eq] at h
        obtain ⟨a, b, c, rfl⟩ := List.length_eq_three.mp h.1
        simp only [List.all_cons, List.all_nil, Bool.and_true, Bool.and_eq_true] at hAll
        simp only [hTwo, hThree, hFour, and_self, if_true, if_false, List.cons_append,
          List.nil_append, hAll, h.2, Bool.true_and]
      · cases h

/-- Complete UTF-8 starts with an ASCII character or a longer one. -/
theorem utf8_cons {lead : UInt8} {rest : Bytes} (h : utf8 (lead :: rest) = true) :
    lead < 128 ∧ utf8 rest = true ∨
      ∃ continuation tail, rest = continuation ++ tail ∧ completes lead continuation = true ∧
        utf8 tail = true := by
  unfold utf8 at h
  split at h
  · exact .inl ⟨‹_›, h⟩
  · refine .inr ?_
    split at h
    · rename_i hTwo
      split at h
      · rename_i a rest
        simp only [Bool.and_eq_true] at h
        exact ⟨[a], rest, rfl, by simp [completes, hTwo, h, -UInt8.toNat_and], h.2⟩
      · cases h
    · rename_i hTwo
      split at h
      · rename_i hThree
        split at h
        · rename_i a b rest
          simp only [Bool.and_eq_true] at h
          exact ⟨[a, b], rest, rfl, by simp [completes, hTwo, hThree, h, -UInt8.toNat_and], h.2⟩
        · cases h
      · rename_i hThree
        split at h
        · rename_i hFour
          split at h
          · rename_i a b c rest
            simp only [Bool.and_eq_true] at h
            exact ⟨[a, b, c], rest, rfl,
              by simp [completes, hTwo, hThree, hFour, h, -UInt8.toNat_and], h.2⟩
          · cases h
        · cases h

/-- Induction over the characters of a complete text. -/
theorem utf8_induction {P : (text : Bytes) → utf8 text = true → Prop} (nil : P [] rfl)
    (ascii : ∀ lead rest (hLead : lead < 128) (hRest : utf8 rest = true), P rest hRest →
      P (lead :: rest) ((utf8_ascii hLead rest).trans hRest))
    (character : ∀ lead continuation rest (hCharacter : completes lead continuation = true)
      (hRest : utf8 rest = true), P rest hRest →
      P (lead :: (continuation ++ rest)) ((utf8_completes hCharacter rest).trans hRest))
    (text : Bytes) (h : utf8 text = true) : P text h := by
  induction hLength : text.length using Nat.strong_induction_on generalizing text with
  | _ n ih =>
    subst hLength
    cases text with
    | nil => exact nil
    | cons lead rest =>
      rcases utf8_cons h with ⟨hAscii, hRest⟩ | ⟨continuation, tail, rfl, hCharacter, hTail⟩
      · exact ascii lead rest hAscii hRest (ih _ (by simp) rest hRest rfl)
      · have hShorter : tail.length < (lead :: (continuation ++ tail)).length := by
          rw [List.length_cons, List.length_append]
          omega
        exact character lead continuation tail hCharacter hTail (ih _ hShorter tail hTail rfl)

/-- Behind a complete text the rest counts alone. -/
theorem utf8_append {text : Bytes} (h : utf8 text = true) (rest : Bytes) :
    utf8 (text ++ rest) = utf8 rest := by
  induction text, h using utf8_induction with
  | nil => rfl
  | ascii lead tail hAscii _ ih => rw [List.cons_append, utf8_ascii hAscii, ih]
  | character lead continuation tail hCharacter _ ih =>
    rw [List.cons_append, List.append_assoc, utf8_completes hCharacter, ih]

theorem utf8_head {lead : UInt8} {rest : Bytes} (h : utf8 (lead :: rest) = true) :
    isContinuation lead = false := by
  rw [Bool.eq_false_iff, ne_eq, isContinuation_iff]
  rcases utf8_cons h with ⟨hAscii, -⟩ | ⟨continuation, tail, -, hCharacter, -⟩
  · grind
  · have hLead := completes_lead hCharacter
    grind

/-- What has been read of a complete text: whole characters, and perhaps the start of one
that the rest goes on with. -/
theorem utf8_split {text : Bytes} (h : utf8 text = true) :
    ∀ read rest, text = read ++ rest → ∃ whole unfinished, read = whole ++ unfinished ∧
      utf8 whole = true ∧ (∀ c ∈ unfinished, 128 ≤ c) ∧
      (unfinished ≠ [] → ∃ c tail, rest = c :: tail ∧ isContinuation c = true) := by
  induction text, h using utf8_induction with
  | nil =>
    intro read rest hText
    obtain ⟨rfl, rfl⟩ := List.append_eq_nil_iff.mp hText.symm
    exact ⟨[], [], rfl, rfl, by simp, by simp⟩
  | ascii lead tail hAscii hTail ih =>
    intro read rest hText
    cases read with
    | nil => exact ⟨[], [], rfl, rfl, by simp, by simp⟩
    | cons first read =>
      obtain ⟨rfl, hBehind⟩ := List.cons.inj hText
      obtain ⟨whole, unfinished, rfl, hWhole, hHigh, hNext⟩ := ih read rest hBehind
      exact ⟨lead :: whole, unfinished, rfl, by rw [utf8_ascii hAscii, hWhole], hHigh, hNext⟩
  | character lead continuation tail hCharacter hTail ih =>
    intro read rest hText
    cases read with
    | nil => exact ⟨[], [], rfl, rfl, by simp, by simp⟩
    | cons first read =>
      obtain ⟨rfl, hBehind⟩ := List.cons.inj hText
      have hContinue := completes_all hCharacter
      rcases List.append_eq_append_iff.mp hBehind with ⟨more, rfl, rfl⟩ | ⟨more, rfl, rfl⟩
      · obtain ⟨whole, unfinished, rfl, hWhole, hHigh, hNext⟩ := ih more rest rfl
        exact ⟨lead :: (continuation ++ whole), unfinished, by simp,
          by rw [utf8_completes hCharacter, hWhole], hHigh, hNext⟩
      · cases more with
        | nil =>
          rw [List.append_nil] at hCharacter
          have hWhole := utf8_completes hCharacter []
          rw [List.append_nil] at hWhole
          exact ⟨lead :: read, [], by simp, hWhole, by simp, by simp⟩
        | cons c more =>
          refine ⟨[], lead :: read, rfl, rfl, ?_, fun _ => ⟨c, more ++ tail, rfl, hContinue c (by simp)⟩⟩
          intro byte hByte
          rcases List.mem_cons.mp hByte with rfl | hByte
          · have hLead := completes_lead hCharacter
            grind
          · exact ((isContinuation_iff byte).mp (hContinue byte (by simp [hByte]))).1

/-- A text is complete where the next byte does not continue a character. -/
theorem utf8_of_boundary {read rest : Bytes} (h : utf8 (read ++ rest) = true)
    (hNext : ∀ c tail, rest = c :: tail → isContinuation c = false) : utf8 read = true := by
  obtain ⟨whole, unfinished, rfl, hWhole, -, hContinue⟩ := utf8_split h _ _ rfl
  have hNone : unfinished = [] := by
    by_contra hSome
    obtain ⟨c, tail, hRest, hByte⟩ := hContinue hSome
    rw [hNext c tail hRest] at hByte
    cases hByte
  rw [hNone, List.append_nil]
  exact hWhole

theorem keyByte_high {c : UInt8} (h : 128 ≤ c) : keyByte c = some c := by
  have hNotUpper : ¬c ≤ 90 := by grind
  simp [keyByte, h, hNotUpper]

theorem keyByte_ascii {c : UInt8} (h : c < 128) : ∀ letter ∈ keyByte c, letter < 128 := by
  obtain ⟨bits⟩ := c
  revert bits
  decide +kernel

theorem key_high {text : Bytes} (h : ∀ c ∈ text, 128 ≤ c) : key text = text := by
  rw [key, List.filterMap_congr (g := some) fun c hc => keyByte_high (h c hc), List.filterMap_some]

theorem key_cons (c : UInt8) (text : Bytes) : key (c :: text) = (keyByte c).toList ++ key text := by
  rw [key, List.filterMap_cons]
  cases keyByte c <;> rfl

/-- The letters of a complete text are complete. -/
theorem utf8_key {text : Bytes} (h : utf8 text = true) : utf8 (key text) = true := by
  induction text, h using utf8_induction with
  | nil => rfl
  | ascii lead tail hAscii _ ih =>
    rw [key_cons]
    cases hLetter : keyByte lead with
    | none => exact ih
    | some letter =>
      have hLow := keyByte_ascii hAscii letter hLetter
      rw [Option.toList_some, List.singleton_append, utf8_ascii hLow, ih]
  | character lead continuation tail hCharacter _ ih =>
    have hHigh : ∀ c ∈ continuation, 128 ≤ c := fun c hc =>
      ((isContinuation_iff c).mp (completes_all hCharacter c hc)).1
    have hLead : 128 ≤ lead := by
      have hBound := completes_lead hCharacter
      grind
    rw [key_cons, keyByte_high hLead, key_append, key_high hHigh, Option.toList_some,
      List.singleton_append, utf8_completes hCharacter, ih]

/-- What is read so far can be replaced by its letters. -/
theorem utf8_key_append {read rest : Bytes} (h : utf8 (read ++ rest) = true) (tail : Bytes) :
    utf8 (key read ++ tail) = utf8 (read ++ tail) := by
  obtain ⟨whole, unfinished, rfl, hWhole, hHigh, -⟩ := utf8_split h _ _ rfl
  rw [key_append, key_high hHigh, List.append_assoc, List.append_assoc, utf8_append (utf8_key hWhole),
    utf8_append hWhole]

/-- Letters never start inside a character. -/
theorem key_head {read rest : Bytes} (h : utf8 (read ++ rest) = true) {letter : UInt8}
    {letters : Bytes} (hKey : key read = letter :: letters) : isContinuation letter = false := by
  have hLetters := utf8_key_append h rest
  rw [h, hKey] at hLetters
  exact utf8_head hLetters

end GrpcAsr.Media
