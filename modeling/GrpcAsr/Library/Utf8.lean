import Mathlib.Data.List.Basic

/-!
# Texts as UTF-8 bytes

A text is a list of characters, which stand for themselves as bytes one after another.
A character begins with the only lead byte it has, so lead bytes count the characters, and
a text can occur in the bytes of another only at the beginning of a character.
-/

namespace Utf8

def encode (chars : List Char) : List UInt8 := chars.flatMap String.utf8EncodeChar

def isLead (c : UInt8) : Bool := c &&& 0xC0 != 0x80

@[simp] theorem encode_nil : encode [] = [] := rfl

@[simp] theorem encode_cons (c : Char) (chars : List Char) :
    encode (c :: chars) = String.utf8EncodeChar c ++ encode chars := rfl

@[simp] theorem encode_append (left right : List Char) :
    encode (left ++ right) = encode left ++ encode right := List.flatMap_append

theorem isLead_ascii {c : UInt8} (h : c < 128) : isLead c = true := by
  obtain ⟨bits⟩ := c
  revert h
  revert bits
  decide +kernel

theorem isLead_tail (x : UInt8) : isLead (x &&& 0x3f ||| 0x80) = false := by
  obtain ⟨bits⟩ := x
  revert bits
  decide +kernel

theorem isLead_long (x : UInt8) :
    isLead (x &&& 0x1f ||| 0xc0) = true ∧ isLead (x &&& 0x0f ||| 0xe0) = true ∧
      isLead (x &&& 0x07 ||| 0xf0) = true := by
  obtain ⟨bits⟩ := x
  revert bits
  decide +kernel

theorem ascii_of_long (x : UInt8) :
    ¬ (x &&& 0x1f ||| 0xc0) < 128 ∧ ¬ (x &&& 0x0f ||| 0xe0) < 128 ∧ ¬ (x &&& 0x07 ||| 0xf0) < 128 := by
  obtain ⟨bits⟩ := x
  revert bits
  decide +kernel

/-- A character is a lead byte and bytes that are none; an ASCII byte stands alone. -/
theorem encodeChar_split (c : Char) :
    ∃ lead rest, String.utf8EncodeChar c = lead :: rest ∧ isLead lead = true ∧
      (∀ other ∈ rest, isLead other = false) ∧ (lead < 128 → rest = []) := by
  match hSize : c.utf8Size, c.utf8Size_pos, c.utf8Size_le_four with
  | 1, _, _ =>
    refine ⟨_, _, String.utf8EncodeChar_eq_singleton hSize, isLead_ascii ?_, by simp, fun _ => rfl⟩
    have hLess := Char.utf8Size_eq_one_iff.mp hSize
    have hNat : c.val.toNat ≤ 127 := UInt32.le_iff_toNat_le.mp hLess
    rw [UInt8.lt_iff_toNat_lt, UInt32.toNat_toUInt8]
    have hBound : (128 : UInt8).toNat = 128 := rfl
    omega
  | 2, _, _ =>
    refine ⟨_, _, String.utf8EncodeChar_eq_cons_cons hSize, (isLead_long _).1, ?_, fun hLess => ?_⟩
    · simp [isLead_tail]
    · exact absurd hLess (ascii_of_long _).1
  | 3, _, _ =>
    refine ⟨_, _, String.utf8EncodeChar_eq_cons_cons_cons hSize, (isLead_long _).2.1, ?_,
      fun hLess => ?_⟩
    · simp [isLead_tail]
    · exact absurd hLess (ascii_of_long _).2.1
  | 4, _, _ =>
    refine ⟨_, _, String.utf8EncodeChar_eq_cons_cons_cons_cons hSize, (isLead_long _).2.2, ?_,
      fun hLess => ?_⟩
    · simp [isLead_tail]
    · exact absurd hLess (ascii_of_long _).2.2

/-- Lead bytes count the characters. -/
@[simp] theorem countP_isLead_encode (chars : List Char) :
    (encode chars).countP isLead = chars.length := by
  induction chars with
  | nil => rfl
  | cons c chars ih =>
    obtain ⟨lead, rest, hBytes, hLead, hRest, -⟩ := encodeChar_split c
    have hNone : rest.countP isLead = 0 := List.countP_eq_zero.mpr fun other hOther => by
      simp [hRest other hOther]
    rw [encode_cons, hBytes, List.countP_append, ih, List.countP_cons_of_pos hLead, hNone,
      List.length_cons, Nat.zero_add, Nat.add_comm]

/-- A lead byte begins a character. -/
theorem encode_eq_append {chars : List Char} {front back : List UInt8} {lead : UInt8}
    (h : encode chars = front ++ lead :: back) (hLead : isLead lead = true) :
    ∃ left right, chars = left ++ right ∧ encode left = front ∧ encode right = lead :: back := by
  induction chars generalizing front with
  | nil =>
    rw [encode_nil] at h
    simp at h
  | cons c chars ih =>
    cases front with
    | nil => exact ⟨[], c :: chars, rfl, rfl, h⟩
    | cons first front =>
      obtain ⟨own, rest, hBytes, -, hRest, -⟩ := encodeChar_split c
      rw [encode_cons, hBytes, List.cons_append, List.cons_append, List.cons.injEq] at h
      obtain ⟨rfl, hTail⟩ := h
      rcases List.append_eq_append_iff.mp hTail with ⟨more, rfl, hMore⟩ | ⟨more, rfl, hMore⟩
      · obtain ⟨left, right, rfl, hLeft, hRight⟩ := ih hMore
        exact ⟨c :: left, right, rfl, by rw [encode_cons, hBytes, hLeft, List.cons_append], hRight⟩
      · cases more with
        | nil =>
          obtain ⟨left, right, rfl, hLeft, hRight⟩ := @ih [] hMore.symm
          refine ⟨c :: left, right, rfl, ?_, hRight⟩
          rw [encode_cons, hBytes, hLeft, List.append_nil, List.append_nil]
        | cons other more =>
          obtain ⟨rfl, -⟩ := List.cons.inj hMore
          have hNot := hRest lead (by simp)
          rw [hLead] at hNot
          cases hNot

/-- ASCII bytes in front are characters of their own. -/
theorem encode_ascii_append {chars : List Char} {front back : List UInt8}
    (h : encode chars = front ++ back) (hFront : ∀ c ∈ front, c < 128) :
    ∃ left right, chars = left ++ right ∧ encode left = front ∧ encode right = back := by
  induction front generalizing chars with
  | nil => exact ⟨[], chars, rfl, rfl, h⟩
  | cons lead front ih =>
    cases chars with
    | nil => cases h
    | cons c chars =>
      obtain ⟨own, rest, hBytes, -, -, hAlone⟩ := encodeChar_split c
      rw [encode_cons, hBytes, List.cons_append, List.cons_append, List.cons.injEq] at h
      obtain ⟨rfl, hTail⟩ := h
      rw [hAlone (hFront own List.mem_cons_self), List.nil_append] at hTail
      obtain ⟨left, right, rfl, hLeft, hRight⟩ :=
        ih hTail fun other hOther => hFront other (List.mem_cons_of_mem _ hOther)
      refine ⟨c :: left, right, rfl, ?_, hRight⟩
      rw [encode_cons, hBytes, hAlone (hFront own List.mem_cons_self), hLeft]
      rfl

theorem encodeChar_append_inj {c d : Char} {left right : List UInt8}
    (h : String.utf8EncodeChar c ++ left = String.utf8EncodeChar d ++ right) : c = d ∧ left = right := by
  have hDecode := congrArg (fun bytes => ByteArray.utf8DecodeChar? bytes.toByteArray 0) h
  simp only [List.toByteArray_append, ByteArray.utf8DecodeChar?_utf8EncodeChar_append,
    Option.some.injEq] at hDecode
  subst hDecode
  exact ⟨rfl, List.append_cancel_left h⟩

/-- A text in front of the bytes of another is in front of the other. -/
theorem encode_front {chars word : List Char} {back : List UInt8}
    (h : encode chars = encode word ++ back) : ∃ rest, chars = word ++ rest ∧ encode rest = back := by
  induction word generalizing chars with
  | nil => exact ⟨chars, rfl, h⟩
  | cons c word ih =>
    cases chars with
    | nil =>
      obtain ⟨lead, rest, hBytes, -⟩ := encodeChar_split c
      rw [encode_nil, encode_cons, hBytes] at h
      simp at h
    | cons d chars =>
      rw [encode_cons, encode_cons, List.append_assoc] at h
      obtain ⟨rfl, hRest⟩ := encodeChar_append_inj h
      obtain ⟨rest, rfl, hBack⟩ := ih hRest
      exact ⟨rest, rfl, hBack⟩

/-- A text that occurs in the bytes of another occurs in the other. -/
theorem encode_occurrence {chars word : List Char} {front back : List UInt8}
    (h : encode chars = front ++ encode word ++ back) (hWord : word ≠ []) :
    ∃ left right, chars = left ++ word ++ right ∧ encode left = front ∧ encode right = back := by
  obtain ⟨c, word, rfl⟩ := List.exists_cons_of_ne_nil hWord
  obtain ⟨lead, tail, hBytes, hLead, -⟩ := encodeChar_split c
  have hSplit : encode chars = front ++ lead :: (tail ++ (encode word ++ back)) := by
    rw [h, encode_cons, hBytes]
    simp
  obtain ⟨left, rest, rfl, hLeft, hRest⟩ := encode_eq_append hSplit hLead
  have hPrefix : encode rest = encode (c :: word) ++ back := by
    rw [hRest, encode_cons, hBytes]
    simp
  obtain ⟨right, rfl, hRight⟩ := encode_front hPrefix
  exact ⟨left, right, by rw [List.append_assoc], hLeft, hRight⟩

end Utf8
