import GrpcAsr.Library.Utf8
import GrpcAsr.Media.Utf8

/-!
# Complete UTF-8 is what encodes characters

A `Char` is a Unicode scalar value. A lead byte and its continuation are complete exactly when
they are the encoding of one beyond ASCII, so a text is accepted exactly when it is the
encoding of a list of characters, and an accepted text stays accepted in front of another.
-/

namespace GrpcAsr.Media

set_option autoImplicit false

section Bytes

variable {lead a b c : UInt8}

theorem codePoint_cons (value : Nat) (c : UInt8) (continuation : Bytes) :
    codePoint value (c :: continuation) = codePoint (value * 64 + c.toNat % 64) continuation := by
  have hSix : (c &&& 63).toNat = c.toNat % 64 := by
    rw [UInt8.toNat_and]
    exact Nat.and_two_pow_sub_one_eq_mod c.toNat 6
  have hSmall : c.toNat % 64 < 2 ^ 6 := Nat.mod_lt _ (by decide)
  rw [codePoint, List.foldl_cons, hSix, ← Nat.shiftLeft_add_eq_or_of_lt hSmall, Nat.shiftLeft_eq]
  rfl

theorem lead_payload (lead : UInt8) : (lead &&& 31).toNat = lead.toNat % 32 ∧
    (lead &&& 15).toNat = lead.toNat % 16 ∧ (lead &&& 7).toNat = lead.toNat % 8 := by
  simp only [UInt8.toNat_and]
  exact ⟨Nat.and_two_pow_sub_one_eq_mod _ 5, Nat.and_two_pow_sub_one_eq_mod _ 4,
    Nat.and_two_pow_sub_one_eq_mod _ 3⟩

theorem scalarInRange_iff {minimum value : Nat} :
    scalarInRange minimum value = true ↔ minimum ≤ value ∧ value.isValidChar := by
  simp only [scalarInRange, Bool.not_eq_true', Bool.or_eq_false_iff, Bool.and_eq_false_iff,
    decide_eq_false_iff_not, Nat.isValidChar]
  omega

theorem isContinuation_toNat : isContinuation c = true ↔ 128 ≤ c.toNat ∧ c.toNat < 192 := by
  rw [isContinuation_iff, UInt8.le_iff_toNat_le, UInt8.lt_iff_toNat_lt]
  rfl

theorem lead_classes (lead : UInt8) :
    ((0xc2 ≤ lead ∧ lead ≤ 0xdf) ↔ 194 ≤ lead.toNat ∧ lead.toNat ≤ 223) ∧
      ((0xe0 ≤ lead ∧ lead ≤ 0xef) ↔ 224 ≤ lead.toNat ∧ lead.toNat ≤ 239) ∧
      ((0xf0 ≤ lead ∧ lead ≤ 0xf4) ↔ 240 ≤ lead.toNat ∧ lead.toNat ≤ 244) := by
  simp only [UInt8.le_iff_toNat_le]
  exact ⟨Iff.rfl, Iff.rfl, Iff.rfl⟩

theorem completes_two : completes lead [a] = true ↔
    (194 ≤ lead.toNat ∧ lead.toNat ≤ 223) ∧ (128 ≤ a.toNat ∧ a.toNat < 192) ∧
      (lead.toNat % 32 * 64 + a.toNat % 64).isValidChar := by
  obtain ⟨hTwo, -, -⟩ := lead_classes lead
  have hValue : codePoint (lead &&& 31).toNat [a] = lead.toNat % 32 * 64 + a.toNat % 64 := by
    rw [codePoint_cons, (lead_payload lead).1]
    rfl
  rw [completes, Bool.and_eq_true, List.all_cons, List.all_nil, Bool.and_true, isContinuation_toNat]
  by_cases hLead : 0xc2 ≤ lead ∧ lead ≤ 0xdf
  · rw [if_pos hLead, Bool.and_eq_true, hValue, scalarInRange_iff]
    have hRange := hTwo.mp hLead
    constructor
    · rintro ⟨ha, -, -, hValid⟩
      exact ⟨hRange, ha, hValid⟩
    · rintro ⟨⟨hLow, hHigh⟩, ha, hValid⟩
      exact ⟨ha, rfl, by omega, hValid⟩
  · rw [if_neg hLead]
    refine iff_of_false ?_ fun hAll => hLead (hTwo.mpr hAll.1)
    rintro ⟨-, hOther⟩
    split at hOther
    · cases hOther
    · split at hOther <;> cases hOther

theorem completes_three : completes lead [a, b] = true ↔
    (224 ≤ lead.toNat ∧ lead.toNat ≤ 239) ∧ (128 ≤ a.toNat ∧ a.toNat < 192) ∧
      (128 ≤ b.toNat ∧ b.toNat < 192) ∧
      2048 ≤ (lead.toNat % 16 * 64 + a.toNat % 64) * 64 + b.toNat % 64 ∧
      ((lead.toNat % 16 * 64 + a.toNat % 64) * 64 + b.toNat % 64).isValidChar := by
  obtain ⟨hTwo, hThree, -⟩ := lead_classes lead
  have hValue : codePoint (lead &&& 15).toNat [a, b] =
      (lead.toNat % 16 * 64 + a.toNat % 64) * 64 + b.toNat % 64 := by
    rw [codePoint_cons, codePoint_cons, (lead_payload lead).2.1]
    rfl
  rw [completes, Bool.and_eq_true, List.all_cons, List.all_cons, List.all_nil, Bool.and_true,
    Bool.and_eq_true, isContinuation_toNat, isContinuation_toNat]
  by_cases hOther : 0xc2 ≤ lead ∧ lead ≤ 0xdf
  · rw [if_pos hOther]
    have hRange := hTwo.mp hOther
    refine iff_of_false (fun hAll => Bool.false_ne_true hAll.2) ?_
    rintro ⟨⟨hLow, -⟩, -⟩
    omega
  · rw [if_neg hOther]
    by_cases hLead : 0xe0 ≤ lead ∧ lead ≤ 0xef
    · rw [if_pos hLead, Bool.and_eq_true, hValue, scalarInRange_iff]
      constructor
      · rintro ⟨⟨ha, hb⟩, -, hMinimum, hValid⟩
        exact ⟨hThree.mp hLead, ha, hb, hMinimum, hValid⟩
      · rintro ⟨-, ha, hb, hMinimum, hValid⟩
        exact ⟨⟨ha, hb⟩, rfl, hMinimum, hValid⟩
    · rw [if_neg hLead]
      refine iff_of_false ?_ fun hAll => hLead (hThree.mpr hAll.1)
      rintro ⟨-, hFour⟩
      split at hFour <;> cases hFour

theorem completes_four : completes lead [a, b, c] = true ↔
    (240 ≤ lead.toNat ∧ lead.toNat ≤ 244) ∧ (128 ≤ a.toNat ∧ a.toNat < 192) ∧
      (128 ≤ b.toNat ∧ b.toNat < 192) ∧ (128 ≤ c.toNat ∧ c.toNat < 192) ∧
      65536 ≤ ((lead.toNat % 8 * 64 + a.toNat % 64) * 64 + b.toNat % 64) * 64 + c.toNat % 64 ∧
      (((lead.toNat % 8 * 64 + a.toNat % 64) * 64 + b.toNat % 64) * 64 + c.toNat % 64).isValidChar := by
  obtain ⟨hTwo, hThree, hFour⟩ := lead_classes lead
  have hValue : codePoint (lead &&& 7).toNat [a, b, c] =
      ((lead.toNat % 8 * 64 + a.toNat % 64) * 64 + b.toNat % 64) * 64 + c.toNat % 64 := by
    rw [codePoint_cons, codePoint_cons, codePoint_cons, (lead_payload lead).2.2]
    rfl
  rw [completes, Bool.and_eq_true, List.all_cons, List.all_cons, List.all_cons, List.all_nil,
    Bool.and_true, Bool.and_eq_true, Bool.and_eq_true, isContinuation_toNat, isContinuation_toNat,
    isContinuation_toNat]
  by_cases hOther : 0xc2 ≤ lead ∧ lead ≤ 0xdf
  · rw [if_pos hOther]
    have hRange := hTwo.mp hOther
    refine iff_of_false (fun hAll => Bool.false_ne_true hAll.2) ?_
    rintro ⟨⟨hLow, -⟩, -⟩
    omega
  · rw [if_neg hOther]
    by_cases hOther' : 0xe0 ≤ lead ∧ lead ≤ 0xef
    · rw [if_pos hOther']
      have hRange := hThree.mp hOther'
      refine iff_of_false (fun hAll => Bool.false_ne_true hAll.2) ?_
      rintro ⟨⟨hLow, -⟩, -⟩
      omega
    · rw [if_neg hOther']
      by_cases hLead : 0xf0 ≤ lead ∧ lead ≤ 0xf4
      · rw [if_pos hLead, Bool.and_eq_true, hValue, scalarInRange_iff]
        constructor
        · rintro ⟨⟨ha, hb, hc⟩, -, hMinimum, hValid⟩
          exact ⟨hFour.mp hLead, ha, hb, hc, hMinimum, hValid⟩
        · rintro ⟨-, ha, hb, hc, hMinimum, hValid⟩
          exact ⟨⟨ha, hb, hc⟩, rfl, hMinimum, hValid⟩
      · rw [if_neg hLead]
        exact iff_of_false (fun hAll => Bool.false_ne_true hAll.2) fun hAll => hLead (hFour.mpr hAll.1)

theorem completes_length {continuation : Bytes} (h : completes lead continuation = true) :
    (∃ a, continuation = [a]) ∨ (∃ a b, continuation = [a, b]) ∨
      ∃ a b c, continuation = [a, b, c] := by
  simp only [completes, Bool.and_eq_true] at h
  obtain ⟨-, h⟩ := h
  split at h
  · rw [Bool.and_eq_true, beq_iff_eq] at h
    exact Or.inl (List.length_eq_one_iff.mp h.1)
  · split at h
    · rw [Bool.and_eq_true, beq_iff_eq] at h
      exact Or.inr (Or.inl (List.length_eq_two.mp h.1))
    · split at h
      · rw [Bool.and_eq_true, beq_iff_eq] at h
        exact Or.inr (Or.inr (List.length_eq_three.mp h.1))
      · cases h

end Bytes

section Characters

theorem encodeChar_ascii {c : Char} (h : c.val.toNat < 128) :
    String.utf8EncodeChar c = [UInt8.ofNat c.val.toNat] := by
  rw [String.utf8EncodeChar, if_pos (by omega)]

theorem encodeChar_two {c : Char} (hLow : 128 ≤ c.val.toNat) (hHigh : c.val.toNat < 2048) :
    String.utf8EncodeChar c =
      [UInt8.ofNat (c.val.toNat / 64 + 192), UInt8.ofNat (c.val.toNat % 64 + 128)] := by
  rw [String.utf8EncodeChar, if_neg (by omega), if_pos (by omega),
    Nat.mod_eq_of_lt (by omega : c.val.toNat / 64 < 0x20)]

theorem encodeChar_three {c : Char} (hLow : 2048 ≤ c.val.toNat) (hHigh : c.val.toNat < 65536) :
    String.utf8EncodeChar c =
      [UInt8.ofNat (c.val.toNat / 4096 + 224), UInt8.ofNat (c.val.toNat / 64 % 64 + 128),
        UInt8.ofNat (c.val.toNat % 64 + 128)] := by
  rw [String.utf8EncodeChar, if_neg (by omega), if_neg (by omega), if_pos (by omega),
    Nat.mod_eq_of_lt (by omega : c.val.toNat / 4096 < 0x10)]

theorem encodeChar_four {c : Char} (hLow : 65536 ≤ c.val.toNat) :
    String.utf8EncodeChar c =
      [UInt8.ofNat (c.val.toNat / 262144 + 240), UInt8.ofNat (c.val.toNat / 4096 % 64 + 128),
        UInt8.ofNat (c.val.toNat / 64 % 64 + 128), UInt8.ofNat (c.val.toNat % 64 + 128)] := by
  have hValid : c.val.toNat < 0xd800 ∨ (0xdfff < c.val.toNat ∧ c.val.toNat < 0x110000) := c.valid
  rw [String.utf8EncodeChar, if_neg (by omega), if_neg (by omega), if_neg (by omega),
    Nat.mod_eq_of_lt (by omega : c.val.toNat / 262144 < 0x08)]

/-- The character of a value. -/
theorem exists_char {value : Nat} (h : value.isValidChar) : ∃ c : Char, c.val.toNat = value :=
  ⟨Char.ofNatAux value h, rfl⟩

/-- What completes a lead byte makes it the encoding of a character. -/
theorem encodes_of_completes {lead : UInt8} {continuation : Bytes}
    (h : completes lead continuation = true) :
    ∃ c : Char, String.utf8EncodeChar c = lead :: continuation := by
  rcases completes_length h with ⟨a, rfl⟩ | ⟨a, b, rfl⟩ | ⟨a, b, d, rfl⟩
  · obtain ⟨hLead, ha, hValid⟩ := completes_two.mp h
    obtain ⟨c, hc⟩ := exists_char hValid
    refine ⟨c, ?_⟩
    have hFirst : c.val.toNat / 64 + 192 = lead.toNat := by omega
    have hLast : c.val.toNat % 64 + 128 = a.toNat := by omega
    rw [encodeChar_two (by omega) (by omega), hFirst, hLast, UInt8.ofNat_toNat, UInt8.ofNat_toNat]
  · obtain ⟨hLead, ha, hb, hMinimum, hValid⟩ := completes_three.mp h
    obtain ⟨c, hc⟩ := exists_char hValid
    refine ⟨c, ?_⟩
    have hFirst : c.val.toNat / 4096 + 224 = lead.toNat := by omega
    have hSecond : c.val.toNat / 64 % 64 + 128 = a.toNat := by omega
    have hLast : c.val.toNat % 64 + 128 = b.toNat := by omega
    rw [encodeChar_three (by omega) (by omega), hFirst, hSecond, hLast, UInt8.ofNat_toNat,
      UInt8.ofNat_toNat, UInt8.ofNat_toNat]
  · obtain ⟨hLead, ha, hb, hd, hMinimum, hValid⟩ := completes_four.mp h
    obtain ⟨c, hc⟩ := exists_char hValid
    refine ⟨c, ?_⟩
    have hFirst : c.val.toNat / 262144 + 240 = lead.toNat := by omega
    have hSecond : c.val.toNat / 4096 % 64 + 128 = a.toNat := by omega
    have hThird : c.val.toNat / 64 % 64 + 128 = b.toNat := by omega
    have hLast : c.val.toNat % 64 + 128 = d.toNat := by omega
    rw [encodeChar_four (by omega), hFirst, hSecond, hThird, hLast, UInt8.ofNat_toNat,
      UInt8.ofNat_toNat, UInt8.ofNat_toNat, UInt8.ofNat_toNat]

theorem toNat_byte {value : Nat} (h : value < 256) : (UInt8.ofNat value).toNat = value := by
  rw [UInt8.toNat_ofNat', Nat.mod_eq_of_lt h]

/-- A character beyond ASCII is a lead byte and what completes it. -/
theorem completes_of_encodes {c : Char} (h : 128 ≤ c.val.toNat) :
    ∃ lead continuation, String.utf8EncodeChar c = lead :: continuation ∧
      completes lead continuation = true := by
  have hValid : c.val.toNat.isValidChar := c.valid
  by_cases hTwo : c.val.toNat < 2048
  · refine ⟨_, _, encodeChar_two h hTwo, completes_two.mpr ?_⟩
    have hValue : (c.val.toNat / 64 + 192) % 32 * 64 + (c.val.toNat % 64 + 128) % 64 = c.val.toNat := by
      omega
    rw [toNat_byte (by omega), toNat_byte (by omega), hValue]
    exact ⟨by omega, by omega, hValid⟩
  · by_cases hThree : c.val.toNat < 65536
    · refine ⟨_, _, encodeChar_three (by omega) hThree, completes_three.mpr ?_⟩
      have hValue : ((c.val.toNat / 4096 + 224) % 16 * 64 + (c.val.toNat / 64 % 64 + 128) % 64) * 64 +
          (c.val.toNat % 64 + 128) % 64 = c.val.toNat := by omega
      rw [toNat_byte (by omega), toNat_byte (by omega), toNat_byte (by omega), hValue]
      exact ⟨by omega, by omega, by omega, by omega, hValid⟩
    · have hBound : c.val.toNat < 0xd800 ∨ (0xdfff < c.val.toNat ∧ c.val.toNat < 0x110000) := hValid
      refine ⟨_, _, encodeChar_four (by omega), completes_four.mpr ?_⟩
      have hValue : (((c.val.toNat / 262144 + 240) % 8 * 64 + (c.val.toNat / 4096 % 64 + 128) % 64) * 64 +
          (c.val.toNat / 64 % 64 + 128) % 64) * 64 + (c.val.toNat % 64 + 128) % 64 = c.val.toNat := by
        omega
      rw [toNat_byte (by omega), toNat_byte (by omega), toNat_byte (by omega), toNat_byte (by omega), hValue]
      exact ⟨by omega, by omega, by omega, by omega, by omega, hValid⟩

/-- The encoding of a character is read as a whole. -/
theorem utf8_encodeChar (c : Char) (rest : Bytes) :
    utf8 (String.utf8EncodeChar c ++ rest) = utf8 rest := by
  by_cases hAscii : c.val.toNat < 128
  · rw [encodeChar_ascii hAscii, List.singleton_append]
    apply utf8_ascii
    rw [UInt8.lt_iff_toNat_lt, toNat_byte (by omega)]
    exact hAscii
  · obtain ⟨lead, continuation, hEncodes, hCompletes⟩ := completes_of_encodes (Nat.le_of_not_lt hAscii)
    rw [hEncodes, List.cons_append]
    exact utf8_completes hCompletes rest

theorem utf8_encode (chars : List Char) : utf8 (Utf8.encode chars) = true := by
  induction chars with
  | nil => rfl
  | cons c chars ih => rw [Utf8.encode_cons, utf8_encodeChar, ih]

/-- Complete UTF-8 is the encoding of its characters. -/
theorem encode_of_utf8 {text : Bytes} (h : utf8 text = true) :
    ∃ chars, text = Utf8.encode chars := by
  induction text, h using utf8_induction with
  | nil => exact ⟨[], rfl⟩
  | ascii lead rest hLead _ ih =>
    obtain ⟨chars, rfl⟩ := ih
    have hSmall : lead.toNat < 128 := UInt8.lt_iff_toNat_lt.mp hLead
    have hScalar : lead.toNat.isValidChar := Or.inl (by omega)
    obtain ⟨c, hc⟩ := exists_char hScalar
    refine ⟨c :: chars, ?_⟩
    rw [Utf8.encode_cons, encodeChar_ascii (by omega), hc, UInt8.ofNat_toNat]
    rfl
  | character lead continuation rest hCompletes _ ih =>
    obtain ⟨chars, rfl⟩ := ih
    obtain ⟨c, hc⟩ := encodes_of_completes hCompletes
    exact ⟨c :: chars, by rw [Utf8.encode_cons, hc, List.cons_append]⟩

/-- `utf8` accepts the encodings of lists of characters, and nothing else; behind an accepted
text exactly the accepted texts go on. -/
theorem utf8_well_formed :
    (∀ text, utf8 text = true ↔ ∃ chars : List Char, text = Utf8.encode chars) ∧
      (∀ a b, utf8 a = true → utf8 (a ++ b) = true → utf8 b = true) ∧
      ∀ a b, utf8 a = true → utf8 b = true → utf8 (a ++ b) = true := by
  refine ⟨?_, ?_, ?_⟩
  · intro text
    constructor
    · exact encode_of_utf8
    · rintro ⟨chars, rfl⟩
      exact utf8_encode chars
  · intro a b ha hBoth
    rwa [utf8_append ha] at hBoth
  · intro a b ha hb
    rwa [utf8_append ha]

end Characters

end GrpcAsr.Media
