import Mathlib.Algebra.Order.Field.Rat
import Mathlib.Algebra.Order.Ring.Rat
import Mathlib.Data.Rat.Cast.Order
import Mathlib.Tactic.FieldSimp
import GrpcAsr.Asr.RemoteOptions

/-!
# Python's text of a float

The shortest digits of a double and its decimal exponent, laid out as Python lays them out:
the text denotes the number, its notation follows the exponent, and no two numbers share one.
-/

namespace GrpcAsr.Asr

open Media (Bytes ascii)
open StdText

set_option autoImplicit false

/-- What `std::to_chars` writes in scientific format: a sign, decimal digits that start with
zero for zero only, and an exponent that is a C++ `int`. -/
structure Scientific where
  negative : Bool
  first : UInt8
  rest : Bytes
  exponent : Int
  first_digit : isDigit first = true
  rest_digits : rest.all isDigit = true
  leading : first = 48 → ∀ c ∈ rest, c = 48
  above : -2 ^ 31 < exponent
  below : exponent < 2 ^ 31

namespace Scientific

def digits (s : Scientific) : Bytes := s.first :: s.rest

def sign (s : Scientific) : Bytes := if s.negative then [45] else []

def mantissa (s : Scientific) : Bytes := s.first :: (if s.rest = [] then [] else 46 :: s.rest)

/-- At least two digits, the first of which may be a padding zero. -/
def magnitude (s : Scientific) : Bytes :=
  (if s.exponent.natAbs < 10 then [48] else []) ++ decimal s.exponent.natAbs

def text (s : Scientific) : Bytes :=
  s.sign ++ s.mantissa ++ 101 :: (if s.exponent < 0 then 45 else 43) :: s.magnitude

/-- The number `d1.d2..dn * 10 ^ e`, with its sign. -/
def value (s : Scientific) : ℚ :=
  (if s.negative then -1 else 1) * readNat s.digits * 10 ^ (s.exponent - s.rest.length)

/-- The digits before the decimal point in fixed notation. -/
def whole (s : Scientific) : Bytes :=
  if s.exponent + 1 ≤ 0 then [48]
  else
    s.digits.take (s.exponent + 1).toNat ++
      List.replicate (s.exponent + 1 - s.digits.length).toNat 48

def fraction (s : Scientific) : Bytes :=
  if s.exponent + 1 ≤ 0 then List.replicate (-(s.exponent + 1)).toNat 48 ++ s.digits
  else if (s.digits.length : Int) ≤ s.exponent + 1 then [48]
  else s.digits.drop (s.exponent + 1).toNat

def Fixed (s : Scientific) : Prop := -4 ≤ s.exponent ∧ s.exponent < 16

instance (s : Scientific) : Decidable s.Fixed := inferInstanceAs (Decidable (_ ∧ _))

def shown (s : Scientific) : Bytes :=
  if s.Fixed then s.sign ++ s.whole ++ 46 :: s.fraction else s.text

theorem digits_all (s : Scientific) : s.digits.all isDigit = true := by
  rw [digits, List.all_cons, s.first_digit, s.rest_digits]
  rfl

theorem isDigit_ne {c : UInt8} (h : isDigit c = true) : c ≠ 45 ∧ c ≠ 46 ∧ c ≠ 101 := by
  refine ⟨?_, ?_, ?_⟩ <;> rintro rfl <;> exact absurd h (by decide)

theorem all_ne {text : Bytes} (h : text.all isDigit = true) :
    ∀ c ∈ text, c ≠ 45 ∧ c ≠ 46 ∧ c ≠ 101 := by
  intro c hc
  exact isDigit_ne (List.all_eq_true.mp h c hc)

theorem magnitude_digits (s : Scientific) : s.magnitude.all isDigit = true := by
  rw [magnitude, List.all_append, decimal_isDigit, Bool.and_true]
  split <;> decide

theorem magnitude_read (s : Scientific) : readNat s.magnitude = s.exponent.natAbs := by
  rw [magnitude, readNat_append, readNat_decimal]
  have hZero : readNat (if s.exponent.natAbs < 10 then [48] else []) = 0 := by
    split <;> decide
  rw [hZero, Nat.zero_mul, Nat.zero_add]

theorem magnitude_length (s : Scientific) : 2 ≤ s.magnitude.length := by
  have hSome := List.length_pos_iff.mpr (decimal_ne_nil s.exponent.natAbs)
  rw [magnitude, List.length_append]
  split
  · rw [List.length_singleton]
    omega
  · rename_i hLarge
    by_contra hShort
    have hOne : (decimal s.exponent.natAbs).length = 1 := by
      rw [List.length_nil] at hShort
      omega
    have hSmall := readNat_lt (decimal_isDigit s.exponent.natAbs)
    rw [readNat_decimal, hOne] at hSmall
    omega

theorem stoi_magnitude (s : Scientific) :
    stoi ((if s.exponent < 0 then 45 else 43) :: s.magnitude) = .ok s.exponent := by
  have hAbove := s.above
  have hBelow := s.below
  have hSome : s.magnitude ≠ [] := by
    apply List.ne_nil_of_length_pos
    have := s.magnitude_length
    omega
  split
  · rename_i hNegative
    rw [stoi_minus s.magnitude_digits hSome (by rw [magnitude_read]; omega), magnitude_read]
    congr 1
    omega
  · rename_i hPositive
    rw [stoi_plus s.magnitude_digits hSome (by rw [magnitude_read]; omega), magnitude_read]
    congr 1
    omega

theorem mantissa_plain (s : Scientific) : ∀ c ∈ s.sign ++ s.mantissa, (c == 101) = false := by
  have hFirst := isDigit_ne s.first_digit
  have hRest := all_ne s.rest_digits
  intro c hc
  rw [beq_eq_false_iff_ne]
  rcases List.mem_append.mp hc with hSign | hMantissa
  · rw [sign] at hSign
    split at hSign
    · rw [List.mem_singleton.mp hSign]
      decide
    · cases hSign
  · rcases List.mem_cons.mp hMantissa with rfl | hTail
    · exact hFirst.2.2
    · split at hTail
      · cases hTail
      · rcases List.mem_cons.mp hTail with rfl | hDigit
        · decide
        · exact (hRest c hDigit).2.2

theorem mantissa_digits (s : Scientific) : s.mantissa.filter (· != 46) = s.digits := by
  have hRest : s.rest.filter (· != 46) = s.rest := by
    apply List.filter_eq_self.mpr
    intro c hc
    simpa using (all_ne s.rest_digits c hc).2.1
  have hFirst : (s.first != 46) = true := by simpa using (isDigit_ne s.first_digit).2.1
  rw [mantissa, digits, List.filter_cons, if_pos hFirst]
  split
  · rename_i hNone
    rw [hNone]
    rfl
  · rw [List.filter_cons, if_neg (by decide), hRest]

theorem signed_head (s : Scientific) :
    ((s.sign ++ s.mantissa).head? = some 45) ↔ s.negative = true := by
  have hFirst := (isDigit_ne s.first_digit).1
  rw [sign, mantissa]
  cases s.negative <;> simp [hFirst]

theorem signed_tail (s : Scientific) :
    (if s.negative then (s.sign ++ s.mantissa).drop 1 else s.sign ++ s.mantissa) = s.mantissa := by
  rw [sign]
  cases s.negative <;> rfl

theorem pythonFinite_text (s : Scientific) : pythonFinite s.text = .ok s.shown := by
  have hFind : find (· == 101) s.text = some (s.sign ++ s.mantissa).length :=
    find_append s.mantissa_plain (by decide)
  have hMantissa : substr s.text 0 (some (s.sign ++ s.mantissa).length) = .ok (s.sign ++ s.mantissa) :=
    substr_before _ _
  have hExponent : substr s.text ((s.sign ++ s.mantissa).length + 1) none =
      .ok ((if s.exponent < 0 then 45 else 43) :: s.magnitude) := substr_behind _ _ _
  have hSigned : (if (s.sign ++ s.mantissa).head? = some 45 then (s.sign ++ s.mantissa).drop 1
      else s.sign ++ s.mantissa) = s.mantissa := by
    simp only [s.signed_head]
    exact s.signed_tail
  have hSign : (if (s.sign ++ s.mantissa).head? = some 45 then ascii "-" else []) = s.sign := by
    simp only [s.signed_head]
    rfl
  unfold pythonFinite
  simp only [hFind, hMantissa, hExponent, s.stoi_magnitude, hSigned, hSign, s.mantissa_digits,
    bind, pure, Except.pure, Except.bind]
  have hZeroPoint : ascii "0." = [48, 46] := by decide
  have hPoint : ascii "." = [46] := by decide
  have hPointZero : ascii ".0" = [46, 48] := by decide
  have hMinus : ascii "e-" = [101, 45] := by decide
  have hPlus : ascii "e+" = [101, 43] := by decide
  have hZero : ascii "0" = [48] := by decide
  rw [shown]
  by_cases hFixed : s.Fixed
  · have hInside : -4 ≤ s.exponent ∧ s.exponent < 16 := hFixed
    rw [if_pos hInside, if_pos hFixed, whole, fraction]
    by_cases hSmall : s.exponent + 1 ≤ 0
    · simp only [if_pos hSmall, hZeroPoint, List.append_assoc, List.cons_append, List.nil_append]
    · simp only [if_neg hSmall]
      by_cases hLarge : (s.digits.length : Int) ≤ s.exponent + 1
      · have hTake : s.digits.take (s.exponent + 1).toNat = s.digits :=
          List.take_of_length_le (by omega)
        simp only [if_pos hLarge, hTake, hPointZero, List.append_assoc]
      · have hNone : (s.exponent + 1 - s.digits.length).toNat = 0 := by omega
        have hWithin : (s.exponent + 1).toNat ≤ s.digits.length := by omega
        have hLong : (s.digits.drop (s.exponent + 1).toNat).length ≤ s.digits.length := by
          rw [List.length_drop]
          omega
        simp only [if_neg hLarge, substr_of_le (Nat.zero_le _), substr_of_le hWithin, List.drop_zero,
          Option.getD_some, Option.getD_none, List.take_of_length_le hLong, hNone,
          List.replicate_zero, List.append_nil, hPoint, List.append_assoc, List.cons_append,
          List.nil_append]
  · have hOutside : ¬(-4 ≤ s.exponent ∧ s.exponent < 16) := hFixed
    rw [if_neg hOutside, if_neg hFixed, text, mantissa, magnitude, digits]
    have hFirst : substr (s.first :: s.rest) 0 (some 1) = .ok [s.first] := by
      rw [substr_of_le (Nat.zero_le _)]
      rfl
    have hRest : substr (s.first :: s.rest) 1 none = .ok s.rest := substr_behind [] s.rest s.first
    simp only [hFirst, hRest, List.length_cons]
    have hSign : (if s.exponent < 0 then ascii "e-" else ascii "e+") =
        101 :: [if s.exponent < 0 then 45 else 43] := by
      split
      · exact hMinus
      · exact hPlus
    by_cases hNone : s.rest = []
    · rw [if_neg (by rw [hNone]; decide), if_pos hNone, hSign, hZero]
      simp only [List.append_assoc, List.cons_append, List.nil_append]
    · rw [if_pos (by have := List.length_pos_iff.mpr hNone; omega), if_neg hNone, hSign, hZero, hPoint]
      simp only [List.append_assoc, List.cons_append, List.nil_append]

end Scientific

/-- The exponent of a decimal float, none for an empty part. -/
def readExponent : Bytes → Option Int
  | [] => some 0
  | mark :: sign :: digits =>
    if mark = 101 ∧ digits ≠ [] ∧ digits.all isDigit = true then
      if sign = 45 then some (-readNat digits)
      else if sign = 43 then some (readNat digits)
      else none
    else none
  | _ => none

def readUnsigned (text : Bytes) : Option ℚ :=
  let mantissa := text.takeWhile (· != 101)
  let whole := mantissa.takeWhile (· != 46)
  let fraction := (mantissa.dropWhile (· != 46)).drop 1
  if whole ≠ [] ∧ (whole ++ fraction).all isDigit = true then
    (readExponent (text.dropWhile (· != 101))).map fun exponent : Int =>
      (readNat (whole ++ fraction) : ℚ) * 10 ^ (exponent - (fraction.length : Int))
  else none

/-- The number that a decimal float denotes. -/
def readFloat (text : Bytes) : Option ℚ :=
  if text.head? = some 45 then (readUnsigned (text.drop 1)).map fun value => -value
  else readUnsigned text

section Reading

variable {whole fraction point exponentText : Bytes} {exponent : Int}

theorem readUnsigned_eq (hWhole : whole.all isDigit = true) (hSome : whole ≠ [])
    (hFraction : fraction.all isDigit = true) (hPoint : point = [] ∧ fraction = [] ∨ point = 46 :: fraction)
    (hHead : exponentText = [] ∨ exponentText.head? = some 101)
    (hExponent : readExponent exponentText = some exponent) :
    readUnsigned (whole ++ point ++ exponentText) =
      some ((readNat (whole ++ fraction) : ℚ) * 10 ^ (exponent - fraction.length)) := by
  have hPlainWhole := Scientific.all_ne hWhole
  have hPlainFraction := Scientific.all_ne hFraction
  have hMantissa : ∀ c ∈ whole ++ point, (c != 101) = true := by
    intro c hc
    rw [bne_iff_ne]
    rcases List.mem_append.mp hc with hc | hc
    · exact (hPlainWhole c hc).2.2
    · rcases hPoint with ⟨rfl, -⟩ | rfl
      · cases hc
      · rcases List.mem_cons.mp hc with rfl | hc
        · decide
        · exact (hPlainFraction c hc).2.2
  have hTake : (whole ++ point ++ exponentText).takeWhile (· != 101) = whole ++ point := by
    rw [List.takeWhile_append_of_pos hMantissa]
    rcases hHead with rfl | hHead
    · exact List.append_nil _
    · cases exponentText with
      | nil => cases hHead
      | cons c rest =>
        cases hHead
        exact List.append_nil _
  have hDrop : (whole ++ point ++ exponentText).dropWhile (· != 101) = exponentText := by
    rw [List.dropWhile_append_of_pos hMantissa]
    rcases hHead with rfl | hHead
    · rfl
    · cases exponentText with
      | nil => cases hHead
      | cons c rest =>
        cases hHead
        rfl
  have hPlain : ∀ c ∈ whole, (c != 46) = true := fun c hc => by
    simpa using (hPlainWhole c hc).2.1
  have hParts : (whole ++ point).takeWhile (· != 46) = whole ∧
      ((whole ++ point).dropWhile (· != 46)).drop 1 = fraction := by
    rw [List.takeWhile_append_of_pos hPlain, List.dropWhile_append_of_pos hPlain]
    rcases hPoint with ⟨rfl, rfl⟩ | rfl
    · exact ⟨List.append_nil _, rfl⟩
    · exact ⟨List.append_nil _, rfl⟩
  have hDigits : (whole ++ fraction).all isDigit = true := by
    rw [List.all_append, hWhole, hFraction]
    rfl
  simp only [readUnsigned, hTake, hDrop, hParts.1, hParts.2, hExponent]
  rw [if_pos ⟨hSome, hDigits⟩, Option.map_some]

theorem readFloat_sign (negative : Bool) {body : Bytes} (hBody : body.head? ≠ some 45) :
    readFloat ((if negative then [45] else []) ++ body) =
      (readUnsigned body).map fun value => (if negative then -1 else 1) * value := by
  cases negative with
  | false =>
    simp only [Bool.false_eq_true, if_false, List.nil_append, one_mul, Option.map_id']
    rw [readFloat, if_neg hBody]
  | true =>
    simp only [if_true, neg_one_mul]
    rfl

end Reading

namespace Scientific

theorem whole_digits (s : Scientific) : s.whole.all isDigit = true ∧ s.whole ≠ [] := by
  have hAll := s.digits_all
  rw [whole]
  split
  · exact ⟨by decide, List.cons_ne_nil _ _⟩
  · rename_i hPoint
    constructor
    · rw [List.all_append, Bool.and_eq_true]
      constructor
      · rw [List.all_eq_true] at hAll ⊢
        exact fun c hc => hAll c (List.mem_of_mem_take hc)
      · rw [List.all_replicate]
        split <;> decide
    · have hOne : ∃ n, (s.exponent + 1).toNat = n + 1 := ⟨(s.exponent + 1).toNat - 1, by omega⟩
      obtain ⟨n, hn⟩ := hOne
      rw [hn, digits, List.take_succ_cons]
      exact List.cons_ne_nil _ _

theorem fraction_digits (s : Scientific) : s.fraction.all isDigit = true ∧ s.fraction ≠ [] := by
  have hAll := s.digits_all
  rw [fraction]
  split
  · constructor
    · rw [List.all_append, hAll, List.all_replicate, Bool.and_true]
      split <;> decide
    · rw [digits]
      simp
  · split
    · exact ⟨by decide, List.cons_ne_nil _ _⟩
    · constructor
      · rw [List.all_eq_true] at hAll ⊢
        exact fun c hc => hAll c (List.mem_of_mem_drop hc)
      · rw [Ne, List.drop_eq_nil_iff]
        omega

/-- The point moves, the number stays. -/
theorem fixed_value (s : Scientific) :
    (readNat (s.whole ++ s.fraction) : ℚ) * 10 ^ ((0 : Int) - s.fraction.length) =
      readNat s.digits * 10 ^ (s.exponent - s.rest.length) := by
  have hLength : (s.digits.length : Int) = s.rest.length + 1 := by
    rw [digits, List.length_cons]
    rfl
  rw [whole, fraction]
  split
  · have hRead : readNat ([48] ++ (List.replicate (-(s.exponent + 1)).toNat 48 ++ s.digits)) =
        readNat s.digits := by
      rw [readNat_append, readNat_append, readNat_replicate_zero]
      have hZero : readNat [48] = 0 := rfl
      rw [hZero, Nat.zero_mul, Nat.zero_mul, Nat.zero_add, Nat.zero_add]
    rw [hRead, List.length_append, List.length_replicate]
    congr 2
    omega
  · split
    · rename_i hPoint hLarge
      have hTake : s.digits.take (s.exponent + 1).toNat = s.digits :=
        List.take_of_length_le (by omega)
      have hRead : readNat (s.digits ++ List.replicate (s.exponent + 1 - s.digits.length).toNat 48 ++ [48]) =
          readNat s.digits * 10 ^ ((s.exponent + 1 - s.digits.length).toNat + 1) := by
        rw [readNat_snoc, readNat_append, readNat_replicate_zero, List.length_replicate, pow_succ]
        have hZero : digitValue 48 = 0 := rfl
        rw [hZero]
        ring
      rw [hTake, hRead, Nat.cast_mul, Nat.cast_pow, mul_assoc, ← zpow_natCast, Nat.cast_ofNat,
        ← zpow_add₀ (by norm_num)]
      congr 2
      rw [List.length_singleton]
      omega
    · rename_i hPoint hSmall
      have hNone : (s.exponent + 1 - s.digits.length).toNat = 0 := by omega
      rw [hNone, List.replicate_zero, List.append_nil, List.take_append_drop, List.length_drop]
      congr 2
      omega

theorem readExponent_magnitude (s : Scientific) :
    readExponent (101 :: (if s.exponent < 0 then 45 else 43) :: s.magnitude) = some s.exponent := by
  have hSome : s.magnitude ≠ [] := by
    apply List.ne_nil_of_length_pos
    have := s.magnitude_length
    omega
  rw [readExponent, if_pos ⟨rfl, hSome, s.magnitude_digits⟩, magnitude_read]
  split
  · rename_i hNegative
    rw [if_pos rfl]
    congr 1
    omega
  · rename_i hPositive
    rw [if_neg (by decide), if_pos rfl]
    congr 1
    omega

theorem shown_value (s : Scientific) : readFloat s.shown = some s.value := by
  obtain ⟨hWhole, hWholeSome⟩ := s.whole_digits
  obtain ⟨hFraction, hFractionSome⟩ := s.fraction_digits
  rw [shown]
  split
  · have hRead : readUnsigned (s.whole ++ 46 :: s.fraction) =
        some ((readNat s.digits : ℚ) * 10 ^ (s.exponent - s.rest.length)) := by
      have hParts := readUnsigned_eq hWhole hWholeSome hFraction (Or.inr rfl) (Or.inl rfl)
        rfl
      rwa [List.append_nil, fixed_value] at hParts
    have hHead : (s.whole ++ 46 :: s.fraction).head? ≠ some 45 := by
      cases hText : s.whole with
      | nil => exact absurd hText hWholeSome
      | cons c rest =>
        have hFirst := (all_ne hWhole c (hText ▸ List.mem_cons_self)).1
        simpa using hFirst
    rw [sign, List.append_assoc, readFloat_sign s.negative hHead, hRead, Option.map_some, value, mul_assoc]
  · have hFirst : [s.first].all isDigit = true := by
      rw [List.all_cons, s.first_digit]
      rfl
    have hPoint : (if s.rest = [] then [] else 46 :: s.rest) = [] ∧ s.rest = [] ∨
        (if s.rest = [] then [] else 46 :: s.rest) = 46 :: s.rest := by
      by_cases hNone : s.rest = []
      · exact Or.inl ⟨if_pos hNone, hNone⟩
      · exact Or.inr (if_neg hNone)
    have hRead := readUnsigned_eq hFirst (List.cons_ne_nil _ _) s.rest_digits hPoint (Or.inr rfl)
      s.readExponent_magnitude
    have hHead : (s.mantissa ++ 101 :: (if s.exponent < 0 then 45 else 43) :: s.magnitude).head? ≠
        some 45 := by
      rw [mantissa]
      simpa using (isDigit_ne s.first_digit).1
    rw [text, sign, List.append_assoc, readFloat_sign s.negative hHead]
    have hSame : s.mantissa = [s.first] ++ (if s.rest = [] then [] else 46 :: s.rest) := rfl
    rw [hSame, hRead, Option.map_some, value, mul_assoc]
    rfl

end Scientific

/-- A sign, digits, a point and digits. -/
def FixedNotation (text : Bytes) : Prop :=
  ∃ sign whole fraction, (sign = [] ∨ sign = ascii "-") ∧
    (whole.all isDigit = true ∧ whole ≠ []) ∧ (fraction.all isDigit = true ∧ fraction ≠ []) ∧
    text = sign ++ whole ++ ascii "." ++ fraction

/-- A sign, one digit, a fraction or none, and an exponent with a sign and two digits at least. -/
def ExponentNotation (text : Bytes) : Prop :=
  ∃ sign first fraction mark exponent, (sign = [] ∨ sign = ascii "-") ∧ isDigit first = true ∧
    (fraction = [] ∨ ∃ digits, digits.all isDigit = true ∧ digits ≠ [] ∧ fraction = ascii "." ++ digits) ∧
    (mark = ascii "+" ∨ mark = ascii "-") ∧ exponent.all isDigit = true ∧ 2 ≤ exponent.length ∧
    text = sign ++ [first] ++ fraction ++ ascii "e" ++ mark ++ exponent

theorem FixedNotation.plain {text : Bytes} (h : FixedNotation text) : 101 ∉ text := by
  obtain ⟨sign, whole, fraction, hSign, ⟨hWhole, -⟩, ⟨hFraction, -⟩, rfl⟩ := h
  have hPoint : ascii "." = [46] := by decide
  have hMinus : ascii "-" = [45] := by decide
  have hDigits : ∀ digits : Bytes, digits.all isDigit = true → 101 ∉ digits :=
    fun digits hAll hMem => (Scientific.all_ne hAll 101 hMem).2.2 rfl
  simp only [hPoint, List.mem_append, List.mem_singleton, not_or]
  refine ⟨⟨⟨?_, hDigits whole hWhole⟩, by decide⟩, hDigits fraction hFraction⟩
  rcases hSign with rfl | rfl
  · exact List.not_mem_nil
  · rw [hMinus]
    decide

theorem ExponentNotation.marked {text : Bytes} (h : ExponentNotation text) : 101 ∈ text := by
  obtain ⟨sign, first, fraction, mark, exponent, -, -, -, -, -, -, rfl⟩ := h
  have hMark : ascii "e" = [101] := by decide
  simp [hMark]

namespace Scientific

theorem sign_cases (s : Scientific) : s.sign = [] ∨ s.sign = ascii "-" := by
  rw [sign]
  split
  · exact Or.inr rfl
  · exact Or.inl rfl

theorem text_exponentNotation (s : Scientific) : ExponentNotation s.text := by
  have hMark : ascii "e" = [101] := by decide
  have hPoint : ascii "." = [46] := by decide
  refine ⟨s.sign, s.first, if s.rest = [] then [] else 46 :: s.rest,
    [if s.exponent < 0 then 45 else 43], s.magnitude, s.sign_cases, s.first_digit, ?_, ?_,
    s.magnitude_digits, s.magnitude_length, ?_⟩
  · by_cases hNone : s.rest = []
    · exact Or.inl (if_pos hNone)
    · rw [if_neg hNone, hPoint]
      exact Or.inr ⟨s.rest, s.rest_digits, hNone, rfl⟩
  · split
    · exact Or.inr rfl
    · exact Or.inl rfl
  · rw [text, mantissa, hMark]
    simp only [List.append_assoc, List.cons_append, List.nil_append]

/-- Fixed notation for the exponents from -4 to 15, exponent notation for all others. -/
theorem shown_notation (s : Scientific) :
    (FixedNotation s.shown ↔ s.Fixed) ∧ (ExponentNotation s.shown ↔ ¬s.Fixed) := by
  by_cases hFixed : s.Fixed
  · have hNotation : FixedNotation s.shown := by
      rw [shown, if_pos hFixed]
      exact ⟨s.sign, s.whole, s.fraction, s.sign_cases, s.whole_digits, s.fraction_digits,
        by simp only [List.append_assoc]; rfl⟩
    exact ⟨⟨fun _ => hFixed, fun _ => hNotation⟩,
      ⟨fun hExponent => absurd hExponent.marked hNotation.plain, fun hOther => absurd hFixed hOther⟩⟩
  · have hNotation : ExponentNotation s.shown := by
      rw [shown, if_neg hFixed]
      exact s.text_exponentNotation
    exact ⟨⟨fun hPoint => absurd hNotation.marked hPoint.plain, fun hOther => absurd hOther hFixed⟩,
      ⟨fun _ => hFixed, fun _ => hNotation⟩⟩

/-- The digits end in no zero, or the value is written as zero. -/
def Shortest (s : Scientific) : Prop :=
  s.digits.getLast? ≠ some 48 ∨ (s.digits = [48] ∧ s.exponent = 0)

theorem shown_head (s : Scientific) : s.shown.head? = some 45 ↔ s.negative = true := by
  have hBody : ∀ body : Bytes, body.head? ≠ some 45 →
      ((s.sign ++ body).head? = some 45 ↔ s.negative = true) := by
    intro body hPlain
    rw [sign]
    cases s.negative <;> simp [hPlain]
  obtain ⟨hWhole, hSome⟩ := s.whole_digits
  rw [shown]
  split
  · rw [List.append_assoc]
    apply hBody
    cases hText : s.whole with
    | nil => exact absurd hText hSome
    | cons c rest => simpa using (all_ne hWhole c (hText ▸ List.mem_cons_self)).1
  · rw [text, List.append_assoc]
    apply hBody
    rw [mantissa]
    simpa using (isDigit_ne s.first_digit).1

theorem read_eq_zero (s : Scientific) : readNat s.digits = 0 ↔ s.first = 48 := by
  constructor
  · intro hZero
    by_contra hFirst
    have hPos := @readNat_pos s.first s.rest s.first_digit hFirst
    rw [digits] at hZero
    omega
  · intro hFirst
    have hAll : s.digits = List.replicate (s.rest.length + 1) 48 := by
      rw [digits, hFirst, List.replicate_succ]
      congr 1
      exact List.eq_replicate_iff.mpr ⟨rfl, s.leading hFirst⟩
    rw [hAll, readNat_replicate_zero]

theorem Shortest.zero {s : Scientific} (h : s.Shortest) (hFirst : s.first = 48) :
    s.digits = [48] ∧ s.exponent = 0 := by
  apply h.resolve_left
  rw [not_not, digits, hFirst]
  cases hLast : s.rest.getLast? with
  | none =>
    rw [List.getLast?_eq_none_iff.mp hLast]
    rfl
  | some c =>
    rw [List.getLast?_cons, hLast, Option.getD_some,
      s.leading hFirst c (List.mem_of_getLast? hLast)]

theorem Shortest.last {s : Scientific} (h : s.Shortest) (hFirst : s.first ≠ 48) :
    readNat s.digits % 10 ≠ 0 := by
  have hLast : s.digits.getLast? ≠ some 48 := by
    apply h.resolve_right
    rintro ⟨hZero, -⟩
    rw [digits] at hZero
    exact hFirst (List.cons.inj hZero).1
  have hAll := s.digits_all
  rcases List.eq_nil_or_concat s.digits with hNone | ⟨front, c, hSplit⟩
  · exact absurd hNone (List.cons_ne_nil _ _)
  · rw [List.concat_eq_append] at hSplit
    rw [hSplit, List.getLast?_concat] at hLast
    rw [hSplit, List.all_append, Bool.and_eq_true, List.all_cons, List.all_nil, Bool.and_true] at hAll
    rw [hSplit, readNat_snoc]
    have hSmall := digitValue_lt hAll.2
    intro hZero
    have hDigit : digitValue c = digitValue 48 := by
      have hNone : digitValue 48 = 0 := rfl
      omega
    exact hLast (congrArg some (digitValue_injective hAll.2 (by decide) hDigit))

end Scientific

/-- Of two ways to write a number by a power of ten, the finer one is divisible by ten. -/
theorem scaled_of_le {m n : Nat} {x y : Int} (hLe : x ≤ y) (h : (m : ℚ) * 10 ^ x = n * 10 ^ y) :
    m = n * 10 ^ (y - x).toNat := by
  have hShift : (10 : ℚ) ^ y = 10 ^ (y - x).toNat * 10 ^ x := by
    rw [← zpow_natCast, ← zpow_add₀ (by norm_num)]
    congr 1
    omega
  rw [hShift, ← mul_assoc] at h
  have hCancel := mul_right_cancel₀ (zpow_ne_zero x (by norm_num)) h
  exact_mod_cast hCancel

theorem scaled_injective {m n : Nat} {x y : Int} (hm : m % 10 ≠ 0) (hn : n % 10 ≠ 0)
    (h : (m : ℚ) * 10 ^ x = n * 10 ^ y) : m = n ∧ x = y := by
  have hFiner : ∀ {m n : Nat} {x y : Int}, m % 10 ≠ 0 → (m : ℚ) * 10 ^ x = n * 10 ^ y → ¬x < y := by
    intro m n x y hm h hLess
    obtain ⟨k, hk⟩ : ∃ k, (y - x).toNat = k + 1 := ⟨(y - x).toNat - 1, by omega⟩
    have hScaled := scaled_of_le (Int.le_of_lt hLess) h
    rw [hk, pow_succ, ← Nat.mul_assoc] at hScaled
    omega
  have hEq : x = y :=
    Int.le_antisymm (Int.not_lt.mp (hFiner hn h.symm)) (Int.not_lt.mp (hFiner hm h))
  subst hEq
  have hSame := scaled_of_le (Int.le_refl x) h
  rw [Int.sub_self] at hSame
  exact ⟨by simpa using hSame, rfl⟩

namespace Scientific

theorem ext_of {a b : Scientific} (hSign : a.negative = b.negative) (hDigits : a.digits = b.digits)
    (hExponent : a.exponent = b.exponent) : a = b := by
  cases a
  cases b
  cases hSign
  cases hDigits
  cases hExponent
  rfl

theorem shown_injective {a b : Scientific} (ha : a.Shortest) (hb : b.Shortest)
    (h : a.shown = b.shown) : a = b := by
  have hSign : a.negative = b.negative := by
    rw [Bool.eq_iff_iff, ← a.shown_head, ← b.shown_head, h]
  have hValue : a.value = b.value := by
    have hRead := a.shown_value
    rw [h, b.shown_value] at hRead
    exact (Option.some.inj hRead).symm
  have hScaled : (readNat a.digits : ℚ) * 10 ^ (a.exponent - a.rest.length) =
      readNat b.digits * 10 ^ (b.exponent - b.rest.length) := by
    rw [value, value, hSign, mul_assoc, mul_assoc] at hValue
    apply mul_left_cancel₀ ?_ hValue
    split <;> norm_num
  by_cases hZero : readNat a.digits = 0
  · have hZero' : readNat b.digits = 0 := by
      rw [hZero, Nat.cast_zero, zero_mul, eq_comm, mul_eq_zero] at hScaled
      rcases hScaled with hNone | hPower
      · exact_mod_cast hNone
      · exact absurd hPower (zpow_ne_zero _ (by norm_num))
    obtain ⟨hDigits, hExponent⟩ := ha.zero (a.read_eq_zero.mp hZero)
    obtain ⟨hDigits', hExponent'⟩ := hb.zero (b.read_eq_zero.mp hZero')
    exact ext_of hSign (hDigits.trans hDigits'.symm) (hExponent.trans hExponent'.symm)
  · have hFirst : a.first ≠ 48 := fun hLead => hZero (a.read_eq_zero.mpr hLead)
    have hFirst' : b.first ≠ 48 := by
      intro hLead
      rw [b.read_eq_zero.mpr hLead, Nat.cast_zero, zero_mul, mul_eq_zero] at hScaled
      rcases hScaled with hNone | hPower
      · exact hZero (by exact_mod_cast hNone)
      · exact absurd hPower (zpow_ne_zero _ (by norm_num))
    obtain ⟨hRead, hPlace⟩ := scaled_injective (ha.last hFirst) (hb.last hFirst') hScaled
    have hDigits : a.digits = b.digits := by
      apply readNat_injective a.digits_all b.digits_all ?_ ?_ hRead
      · simpa [digits] using hFirst
      · simpa [digits] using hFirst'
    have hLength : a.rest.length = b.rest.length := by
      rw [digits, digits] at hDigits
      rw [(List.cons.inj hDigits).2]
    exact ext_of hSign hDigits (by omega)

end Scientific

/-- For every sign, digits and exponent that `std::to_chars` can write. -/
theorem python_float_text (s : Scientific) :
    ∃ text, pythonFloat (.finite s.text) = .ok text ∧ readFloat text = some s.value ∧
      (FixedNotation text ↔ -4 ≤ s.exponent ∧ s.exponent < 16) ∧
      (ExponentNotation text ↔ ¬(-4 ≤ s.exponent ∧ s.exponent < 16)) ∧
      ∀ other : Scientific, s.Shortest → other.Shortest →
        pythonFloat (.finite other.text) = .ok text → other = s := by
  refine ⟨s.shown, s.pythonFinite_text, s.shown_value, s.shown_notation.1, s.shown_notation.2, ?_⟩
  intro other hShortest hOther hSame
  rw [pythonFloat, other.pythonFinite_text] at hSame
  exact Scientific.shown_injective hOther hShortest (Except.ok.inj hSame)

example : pythonFloat (.finite (ascii "1.23456789e+05")) = .ok (ascii "123456.789") ∧
    pythonFloat (.finite (ascii "-2.5e-300")) = .ok (ascii "-2.5e-300") := by
  decide

/-- A double of the value is one that `std::to_chars` can write. -/
def ScalarValue.Written : ScalarValue → Prop
  | .double (.finite text) => ∃ s : Scientific, text = s.text
  | _ => True

theorem ScalarValue.Written.formValue {value : ScalarValue} (h : value.Written) :
    ∃ text, scalarFormValue value = .ok text := by
  cases value with
  | double value =>
    cases value with
    | finite text =>
      obtain ⟨s, rfl⟩ := h
      exact ⟨s.shown, s.pythonFinite_text⟩
    | nan => exact ⟨_, rfl⟩
    | inf negative => exact ⟨_, rfl⟩
  | _ => exact ⟨_, rfl⟩

theorem sortedParams_sorted (params : List (Bytes × ScalarValue)) :
    (sortedParams params).Pairwise fun a b => a.1 ≤ b.1 := by
  have hSorted : (sortedParams params).Pairwise fun a b => decide (a.1 ≤ b.1) = true := by
    apply List.pairwise_mergeSort
    · intro a b c hFirst hSecond
      exact decide_eq_true (List.le_trans (of_decide_eq_true hFirst) (of_decide_eq_true hSecond))
    · intro a b
      rw [Bool.or_eq_true, decide_eq_true_eq, decide_eq_true_eq]
      exact List.le_total a.1 b.1
  exact hSorted.imp of_decide_eq_true

/-- The field of an entry: its key, and the text of its value. -/
def FormField (entry : Bytes × ScalarValue) (field : Bytes × Bytes) : Prop :=
  field.1 = entry.1 ∧ scalarFormValue entry.2 = .ok field.2

theorem mapM_formField (entries : List (Bytes × ScalarValue)) (h : ∀ entry ∈ entries, entry.2.Written) :
    ∃ fields, (entries.mapM fun entry => do return (entry.1, ← scalarFormValue entry.2)) = .ok fields ∧
      List.Forall₂ FormField entries fields := by
  induction entries with
  | nil => exact ⟨[], rfl, .nil⟩
  | cons entry entries ih =>
    obtain ⟨hEntry, hRest⟩ := List.forall_mem_cons.mp h
    obtain ⟨text, hText⟩ := hEntry.formValue
    obtain ⟨fields, hFields, hAll⟩ := ih hRest
    refine ⟨(entry.1, text) :: fields, ?_, .cons ⟨rfl, hText⟩ hAll⟩
    rw [List.mapM_cons, hText, hFields]
    rfl

theorem formField_keys {entries : List (Bytes × ScalarValue)} {fields : List (Bytes × Bytes)}
    (h : List.Forall₂ FormField entries fields) : fields.map Prod.fst = entries.map Prod.fst := by
  induction h with
  | nil => rfl
  | cons hField _ ih => rw [List.map_cons, List.map_cons, hField.1, ih]

/-- The form asks for the one format that is read back, whatever the params are, and sends the
others in the order of their keys. -/
theorem remoteFormFields_params (options : RemoteTranscriptionOptions)
    (hWritten : ∀ param ∈ options.params, param.2.Written) :
    ∃ own params entries, remoteFormFields options = .ok (own ++ params) ∧
      (own ++ params).filter (·.1 == ascii "response_format") =
        [(ascii "response_format", ascii "verbose_json")] ∧
      entries.Perm (options.params.filter (·.1 != ascii "response_format")) ∧
      entries.Pairwise (fun a b => a.1 ≤ b.1) ∧ List.Forall₂ FormField entries params := by
  have hSame : (sortedParams options.params).Perm options.params := List.mergeSort_perm _ _
  obtain ⟨params, hParams, hAll⟩ := mapM_formField
    ((sortedParams options.params).filter (·.1 != ascii "response_format")) fun entry hEntry =>
      hWritten entry (hSame.mem_iff.mp (List.mem_of_mem_filter hEntry))
  have hOthers : params.filter (·.1 == ascii "response_format") = [] := by
    apply List.filter_eq_nil_iff.mpr
    intro field hField
    have hKey : field.1 ∈ ((sortedParams options.params).filter (·.1 != ascii "response_format")).map
        Prod.fst := by
      rw [← formField_keys hAll]
      exact List.mem_map_of_mem hField
    obtain ⟨entry, hEntry, hSameKey⟩ := List.mem_map.mp hKey
    have hOther := (List.mem_filter.mp hEntry).2
    rw [hSameKey] at hOther
    simpa using hOther
  refine ⟨[(ascii "response_format", ascii "verbose_json")] ++
      (if options.model = [] then [] else [(ascii "model", options.model)]) ++
      (if options.language = [] then [] else [(ascii "language", options.language)]) ++
      (if options.initialPrompt = [] then [] else [(ascii "prompt", options.initialPrompt)]) ++
      (if options.wordTimestamps then
        [(ascii "timestamp_granularities[]", ascii "segment"),
          (ascii "timestamp_granularities[]", ascii "word")]
      else []), params, _, ?_, ?_, hSame.filter _, (sortedParams_sorted _).filter _, hAll⟩
  · rw [remoteFormFields, hParams]
    rfl
  · rw [List.filter_append, hOthers, List.append_nil]
    split_ifs <;> rfl

end GrpcAsr.Asr
