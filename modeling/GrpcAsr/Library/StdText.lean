import Mathlib.Data.List.TakeWhile
import Mathlib.Data.List.Induction
import Mathlib.Tactic.Ring

/-!
# Byte text as the C++ standard library handles it

Search, substrings and the conversion between text and integers, with the exceptions that
the standard functions throw. Decimal digits have a reading as a number that is injective
on texts without a leading zero.
-/

namespace StdText

set_option autoImplicit false

inductive StdError
  | outOfRange
  | invalidArgument
  deriving DecidableEq, Repr

/-- The part from a position on, of at most `count` bytes where there is a count. -/
def substr (text : List UInt8) (position : Nat) (count : Option Nat) :
    Except StdError (List UInt8) :=
  if text.length < position then .error .outOfRange
  else
    match count with
    | none => .ok (text.drop position)
    | some count => .ok ((text.drop position).take count)

/-- The first position with a byte of the set. -/
def find (p : UInt8 → Bool) (text : List UInt8) : Option Nat := text.findIdx? p

def isDigit (c : UInt8) : Bool := 48 ≤ c && c ≤ 57

def isBlank (c : UInt8) : Bool := c == 32 || (9 ≤ c && c ≤ 13)

def digitValue (c : UInt8) : Nat := c.toNat - 48

def readNat (digits : List UInt8) : Nat := digits.foldl (fun value c => 10 * value + digitValue c) 0

def decimal (n : Nat) : List UInt8 := (Nat.toDigits 10 n).map fun c => UInt8.ofNat c.toNat

def stoi (text : List UInt8) : Except StdError Int :=
  let signed := text.dropWhile isBlank
  let negative := signed.head? == some 45
  let digits :=
    (if negative || signed.head? == some 43 then signed.drop 1 else signed).takeWhile isDigit
  let value : Int := if negative then -readNat digits else readNat digits
  if digits = [] then .error .invalidArgument
  else if value < -2 ^ 31 ∨ 2 ^ 31 - 1 < value then .error .outOfRange
  else .ok value

section Search

variable {p : UInt8 → Bool} {text before after : List UInt8} {c : UInt8}

theorem substr_of_le {position : Nat} (h : position ≤ text.length) (count : Option Nat) :
    substr text position count = .ok ((text.drop position).take (count.getD text.length)) := by
  rw [substr.eq_def, if_neg (Nat.not_lt.mpr h)]
  cases count with
  | some count => rfl
  | none =>
    rw [Option.getD_none, List.take_of_length_le]
    rw [List.length_drop]
    omega

theorem substr_before (before after : List UInt8) :
    substr (before ++ after) 0 (some before.length) = .ok before := by
  rw [substr_of_le (Nat.zero_le _), List.drop_zero, Option.getD_some, List.take_left]

theorem substr_behind (before after : List UInt8) (c : UInt8) :
    substr (before ++ c :: after) (before.length + 1) none = .ok after := by
  have hLength : (before ++ c :: after).length = before.length + 1 + after.length := by
    rw [List.length_append, List.length_cons]
    omega
  rw [substr_of_le (by omega), Option.getD_none, ← List.drop_drop, List.drop_left, List.drop_one,
    List.tail_cons, List.take_of_length_le (by omega)]

theorem find_none (h : ∀ x ∈ text, p x = false) : find p text = none :=
  List.findIdx?_eq_none_iff.mpr h

theorem find_append (h : ∀ x ∈ before, p x = false) (hc : p c = true) :
    find p (before ++ c :: after) = some before.length := by
  have hNone : List.findIdx? p before = none := List.findIdx?_eq_none_iff.mpr h
  rw [find, List.findIdx?_append, hNone, List.findIdx?_cons, hc]
  simp

/-- Either no byte is of the set, or the text splits at the first one that is. -/
theorem find_cases (p : UInt8 → Bool) (text : List UInt8) :
    (find p text = none ∧ ∀ x ∈ text, p x = false) ∨
      ∃ before c after, text = before ++ c :: after ∧ p c = true ∧ (∀ x ∈ before, p x = false) ∧
        find p text = some before.length := by
  induction text with
  | nil => exact Or.inl ⟨rfl, fun _ hNone => nomatch hNone⟩
  | cons first rest ih =>
    cases hFirst : p first with
    | true =>
      have hHere : find p ([] ++ first :: rest) = some ([] : List UInt8).length :=
        find_append (fun _ hNone => nomatch hNone) hFirst
      exact Or.inr ⟨[], first, rest, rfl, hFirst, fun _ hNone => (nomatch hNone), hHere⟩
    | false =>
      rcases ih with ⟨-, hRest⟩ | ⟨before, c, after, rfl, hc, hBefore, -⟩
      · have hAll : ∀ x ∈ first :: rest, p x = false := by
          intro x hx
          rcases List.mem_cons.mp hx with rfl | hx
          · exact hFirst
          · exact hRest x hx
        exact Or.inl ⟨find_none hAll, hAll⟩
      · have hAll : ∀ x ∈ first :: before, p x = false := by
          intro x hx
          rcases List.mem_cons.mp hx with rfl | hx
          · exact hFirst
          · exact hBefore x hx
        exact Or.inr ⟨first :: before, c, after, rfl, hc, hAll, find_append hAll hc⟩

theorem find_isSome : (find p text).isSome = true ↔ ∃ x ∈ text, p x = true := by
  rcases find_cases p text with ⟨hNone, hAll⟩ | ⟨before, c, after, rfl, hc, -, hFind⟩
  · rw [hNone]
    constructor
    · intro hFalse
      cases hFalse
    · rintro ⟨x, hx, hTrue⟩
      rw [hAll x hx] at hTrue
      cases hTrue
  · rw [hFind]
    exact ⟨fun _ => ⟨c, List.mem_append_right before List.mem_cons_self, hc⟩, fun _ => rfl⟩

/-- The part in front of the first byte of the set, all of it where there is none. -/
theorem substr_find (p : UInt8 → Bool) (text : List UInt8) :
    substr text 0 (find p text) = .ok (text.takeWhile fun c => !p c) := by
  rcases find_cases p text with ⟨hNone, hAll⟩ | ⟨before, c, after, rfl, hc, hBefore, hFind⟩
  · rw [hNone, substr_of_le (Nat.zero_le _), List.drop_zero, Option.getD_none, List.take_length,
      List.takeWhile_eq_self_iff.mpr]
    intro x hx
    rw [hAll x hx]
    rfl
  · rw [hFind, substr_before, List.takeWhile_append_of_pos, List.takeWhile_cons_of_neg, List.append_nil]
    · rw [hc]
      decide
    · intro x hx
      rw [hBefore x hx]
      rfl

/-- A text that is cut at the first byte of the set is cut there only. -/
theorem takeWhile_split (hBefore : ∀ x ∈ before, p x = false)
    (hAfter : after = [] ∨ ∃ c rest, after = c :: rest ∧ p c = true) :
    (before ++ after).takeWhile (fun c => !p c) = before := by
  rw [List.takeWhile_append_of_pos fun x hx => by rw [hBefore x hx]; rfl]
  rcases hAfter with rfl | ⟨c, rest, rfl, hc⟩
  · exact List.append_nil _
  · rw [List.takeWhile_cons_of_neg (by rw [hc]; decide), List.append_nil]

end Search

section Digits

theorem readNat_snoc (digits : List UInt8) (c : UInt8) :
    readNat (digits ++ [c]) = 10 * readNat digits + digitValue c := by
  rw [readNat, List.foldl_append]
  rfl

theorem readNat_append (a b : List UInt8) :
    readNat (a ++ b) = readNat a * 10 ^ b.length + readNat b := by
  induction b using List.reverseRecOn with
  | nil => simp [readNat]
  | append_singleton b c ih =>
    rw [← List.append_assoc, readNat_snoc, readNat_snoc, ih, List.length_append,
      List.length_singleton, pow_succ]
    ring

theorem readNat_replicate_zero (count : Nat) : readNat (List.replicate count 48) = 0 := by
  induction count with
  | zero => rfl
  | succ count ih =>
    rw [List.replicate_succ', readNat_snoc, ih]
    rfl

theorem digitValue_lt {c : UInt8} (h : isDigit c = true) : digitValue c < 10 := by
  simp only [isDigit, Bool.and_eq_true, decide_eq_true_eq, UInt8.le_iff_toNat_le] at h
  have hHigh : c.toNat ≤ 57 := h.2
  rw [digitValue]
  omega

theorem digitValue_injective {c d : UInt8} (hc : isDigit c = true) (hd : isDigit d = true)
    (h : digitValue c = digitValue d) : c = d := by
  simp only [isDigit, Bool.and_eq_true, decide_eq_true_eq, UInt8.le_iff_toNat_le] at hc hd
  have hLow : 48 ≤ c.toNat := hc.1
  have hLow' : 48 ≤ d.toNat := hd.1
  simp only [digitValue] at h
  apply UInt8.toNat_inj.mp
  omega

theorem readNat_lt {digits : List UInt8} (h : digits.all isDigit = true) :
    readNat digits < 10 ^ digits.length := by
  induction digits using List.reverseRecOn with
  | nil => decide
  | append_singleton digits c ih =>
    rw [List.all_append, Bool.and_eq_true, List.all_cons, List.all_nil, Bool.and_true] at h
    have hRest := ih h.1
    have hLast := digitValue_lt h.2
    rw [readNat_snoc, List.length_append, List.length_singleton, pow_succ]
    omega

theorem readNat_pos {c : UInt8} {digits : List UInt8} (hc : isDigit c = true) (hZero : c ≠ 48) :
    0 < readNat (c :: digits) := by
  have hFirst : 0 < digitValue c := by
    rcases Nat.eq_zero_or_pos (digitValue c) with hNone | hPos
    · exact absurd (digitValue_injective hc (by decide) (hNone.trans (by decide))) hZero
    · exact hPos
  have hOne : readNat [c] = digitValue c := by simp [readNat]
  rw [← List.singleton_append, readNat_append, hOne]
  exact Nat.lt_of_lt_of_le (Nat.mul_pos hFirst (Nat.pow_pos (by decide))) (Nat.le_add_right _ _)

/-- Two digit texts without a leading zero that read the same are the same. -/
theorem readNat_injective {a b : List UInt8} (ha : a.all isDigit = true) (hb : b.all isDigit = true)
    (hLeadA : a.head? ≠ some 48) (hLeadB : b.head? ≠ some 48) (h : readNat a = readNat b) : a = b := by
  have hPos : ∀ digits : List UInt8, digits.all isDigit = true → digits.head? ≠ some 48 →
      digits ≠ [] → 0 < readNat digits := by
    intro digits hDigits hLead hSome
    cases digits with
    | nil => exact absurd rfl hSome
    | cons c digits =>
      rw [List.all_cons, Bool.and_eq_true] at hDigits
      exact readNat_pos hDigits.1 (by simpa using hLead)
  induction a using List.reverseRecOn generalizing b with
  | nil =>
    by_contra hSome
    have := hPos b hb hLeadB (Ne.symm hSome)
    rw [← h] at this
    exact absurd this (by decide)
  | append_singleton a c ih =>
    rcases List.eq_nil_or_concat b with rfl | ⟨b, d, rfl⟩
    · have := hPos (a ++ [c]) ha hLeadA (by simp)
      rw [h] at this
      exact absurd this (by decide)
    · rw [List.concat_eq_append] at hb hLeadB h ⊢
      rw [readNat_snoc, readNat_snoc] at h
      rw [List.all_append, Bool.and_eq_true, List.all_cons, List.all_nil, Bool.and_true] at ha hb
      have hc := digitValue_lt ha.2
      have hd := digitValue_lt hb.2
      have hLast := digitValue_injective ha.2 hb.2 (by omega)
      have hLead : ∀ (x : List UInt8) (e : UInt8), (x ++ [e]).head? ≠ some 48 → x.head? ≠ some 48 := by
        intro x e hHead
        cases x with
        | nil => simp
        | cons y x => simpa using hHead
      rw [hLast, ih ha.1 hb.1 (hLead a c hLeadA) (hLead b d hLeadB) (by omega)]

theorem toNat_of_mem_toDigits {n : Nat} {c : Char} (hc : c ∈ Nat.toDigits 10 n) :
    (UInt8.ofNat c.toNat).toNat = c.toNat ∧ 48 ≤ c.toNat ∧ c.toNat ≤ 57 := by
  have hDigit := Nat.isDigit_of_mem_toDigits (by decide) (by decide) hc
  simp only [Char.isDigit, Bool.and_eq_true, decide_eq_true_eq] at hDigit
  have hLow : 48 ≤ c.toNat := hDigit.1
  have hHigh : c.toNat ≤ 57 := hDigit.2
  refine ⟨?_, hLow, hHigh⟩
  rw [UInt8.toNat_ofNat']
  omega

theorem decimal_isDigit (n : Nat) : (decimal n).all isDigit = true := by
  rw [decimal, List.all_map, List.all_eq_true]
  intro c hc
  obtain ⟨hByte, hLow, hHigh⟩ := toNat_of_mem_toDigits hc
  simp only [Function.comp, isDigit, Bool.and_eq_true, decide_eq_true_eq, UInt8.le_iff_toNat_le, hByte]
  exact ⟨hLow, hHigh⟩

theorem readNat_decimal (n : Nat) : readNat (decimal n) = n := by
  have hFold : ∀ (chars : List Char) (value : Nat), (∀ c ∈ chars, c ∈ Nat.toDigits 10 n) →
      (chars.map fun c => UInt8.ofNat c.toNat).foldl (fun value c => 10 * value + digitValue c) value =
        Nat.ofDigitChars 10 chars value := by
    intro chars
    induction chars with
    | nil =>
      intro value _
      rfl
    | cons c chars ih =>
      intro value hChars
      obtain ⟨hByte, -, -⟩ := toNat_of_mem_toDigits (hChars c List.mem_cons_self)
      rw [List.map_cons, List.foldl_cons, ih _ fun c' hc' => hChars c' (List.mem_cons_of_mem c hc'),
        Nat.ofDigitChars_cons, digitValue, hByte]
      rfl
  rw [readNat, decimal, hFold _ _ fun _ hc => hc, Nat.ofDigitChars_ten_toDigits]

theorem decimal_ne_nil (n : Nat) : decimal n ≠ [] := by
  rw [decimal, Ne, List.map_eq_nil_iff]
  exact Nat.toDigits_ne_nil

end Digits

section Integers

variable {digits : List UInt8}

theorem takeWhile_isDigit (h : digits.all isDigit = true) : digits.takeWhile isDigit = digits :=
  List.takeWhile_eq_self_iff.mpr (by simpa using h)

theorem stoi_minus (h : digits.all isDigit = true) (hSome : digits ≠ [])
    (hRange : readNat digits ≤ 2 ^ 31) : stoi (45 :: digits) = .ok (-readNat digits) := by
  have hBlank : (45 :: digits).dropWhile isBlank = 45 :: digits := List.dropWhile_cons_of_neg (by decide)
  simp only [stoi, hBlank, List.head?_cons, beq_self_eq_true, Bool.true_or, if_true, List.drop_one,
    List.tail_cons, takeWhile_isDigit h, if_neg hSome]
  rw [if_neg (by omega)]

theorem stoi_plus (h : digits.all isDigit = true) (hSome : digits ≠ [])
    (hRange : readNat digits < 2 ^ 31) : stoi (43 :: digits) = .ok (readNat digits) := by
  have hBlank : (43 :: digits).dropWhile isBlank = 43 :: digits := List.dropWhile_cons_of_neg (by decide)
  have hMinus : (some (43 : UInt8) == some 45) = false := by decide
  simp only [stoi, hBlank, List.head?_cons, beq_self_eq_true, hMinus, Bool.or_true, if_true,
    List.drop_one, List.tail_cons, takeWhile_isDigit h, if_neg hSome, Bool.false_eq_true, if_false]
  rw [if_neg (by omega)]

theorem stoi_digits (h : digits.all isDigit = true) (hSome : digits ≠ [])
    (hRange : readNat digits < 2 ^ 31) : stoi digits = .ok (readNat digits) := by
  cases digits with
  | nil => exact absurd rfl hSome
  | cons c rest =>
    have hDigit : isDigit c = true := by
      rw [List.all_cons, Bool.and_eq_true] at h
      exact h.1
    have hPlain : isBlank c = false ∧ c ≠ 45 ∧ c ≠ 43 := by
      simp only [isDigit, Bool.and_eq_true, decide_eq_true_eq, UInt8.le_iff_toNat_le] at hDigit
      have hLow : 48 ≤ c.toNat := hDigit.1
      refine ⟨?_, ?_, ?_⟩
      · simp only [isBlank, Bool.or_eq_false_iff, Bool.and_eq_false_iff, beq_eq_false_iff_ne,
          decide_eq_false_iff_not, UInt8.le_iff_toNat_le]
        constructor
        · rintro rfl
          exact absurd hLow (by decide)
        · right
          have hThirteen : (13 : UInt8).toNat = 13 := rfl
          omega
      · rintro rfl
        exact absurd hLow (by decide)
      · rintro rfl
        exact absurd hLow (by decide)
    have hBlank : (c :: rest).dropWhile isBlank = c :: rest :=
      List.dropWhile_cons_of_neg (by simp [hPlain.1])
    have hMinus : (some c == some 45) = false := by simp [hPlain.2.1]
    have hPlus : (some c == some 43) = false := by simp [hPlain.2.2]
    simp only [stoi, hBlank, List.head?_cons, hMinus, hPlus, Bool.or_false, Bool.false_eq_true, if_false,
      takeWhile_isDigit h, if_neg hSome]
    rw [if_neg (by omega)]

end Integers

end StdText
