import Mathlib.Data.List.FinRange
import GrpcAsr.Media.Basic

/-!
# Version four UUIDs in lowercase text

`uuid` formats sixteen random bytes; the bytes themselves are a parameter wherever a
UUID is drawn. `validUuid` is the check applied to identifiers a caller supplies.
-/

namespace GrpcAsr.Media

set_option autoImplicit false

abbrev Entropy := Fin 16 → UInt8

def hexDigit (nibble : UInt8) : UInt8 := if nibble < 10 then 48 + nibble else 87 + nibble

def versioned (data : Entropy) (i : Fin 16) : UInt8 :=
  if i = 6 then (data i &&& 0x0f) ||| 0x40
  else if i = 8 then (data i &&& 0x3f) ||| 0x80
  else data i

def uuid (data : Entropy) : Bytes :=
  (List.finRange 16).flatMap fun i =>
    (if i = 4 ∨ i = 6 ∨ i = 8 ∨ i = 10 then [(45 : UInt8)] else []) ++
      [hexDigit (versioned data i >>> 4), hexDigit (versioned data i &&& 15)]

def isDash (i : Nat) : Bool := i == 8 || i == 13 || i == 18 || i == 23

def isHex (c : UInt8) : Bool := (48 ≤ c && c ≤ 57) || (97 ≤ c && c ≤ 102)

def validUuid (value : Bytes) : Bool :=
  value.length == 36 &&
    (value.zipIdx.all fun (c, i) => if isDash i then c == 45 else isHex c) &&
    (value.zipIdx.any fun (c, i) => !isDash i && c != 48)

theorem forall_byte {P : UInt8 → Prop} (h : ∀ i : Fin 256, P (UInt8.ofNat i.val)) (byte : UInt8) :
    P byte := by
  have hByte := h ⟨byte.toNat, byte.toNat_lt⟩
  rwa [UInt8.ofNat_toNat] at hByte

theorem isHex_hexDigit_high (byte : UInt8) : isHex (hexDigit (byte >>> 4)) = true :=
  forall_byte (P := fun b => isHex (hexDigit (b >>> 4)) = true) (by decide +kernel) byte

theorem isHex_hexDigit_low (byte : UInt8) : isHex (hexDigit (byte &&& 15)) = true :=
  forall_byte (P := fun b => isHex (hexDigit (b &&& 15)) = true) (by decide +kernel) byte

theorem hexDigit_version (byte : UInt8) : hexDigit (((byte &&& 0x0f) ||| 0x40) >>> 4) = 52 :=
  forall_byte (P := fun b => hexDigit (((b &&& 0x0f) ||| 0x40) >>> 4) = 52) (by decide +kernel) byte

/-- A generated identifier passes the check made of supplied ones. -/
theorem validUuid_uuid (data : Entropy) : validUuid (uuid data) = true := by
  have hDigit : isHex 52 = true := by decide
  simp [validUuid, uuid, List.finRange, List.ofFn, Fin.foldr, Fin.foldr.loop, versioned, isDash,
    isHex_hexDigit_high, isHex_hexDigit_low, hexDigit_version, hDigit]

theorem uuid_ne_nil (data : Entropy) : uuid data ≠ [] := by
  intro h
  have hValid := validUuid_uuid data
  rw [h] at hValid
  cases hValid

end GrpcAsr.Media
