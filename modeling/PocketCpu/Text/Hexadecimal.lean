import PocketCpu.Text.Basic

/-!
# Hexadecimal text

Numbers are printed in base sixteen, filled with zeros up to a least width
and never cut.  Messages use lower-case digits; listings and the memory dump
use upper-case ones.
-/

namespace PocketCpu.Text

/-- A number in lower-case digits, filled with zeros to `width`. -/
def hexLower (width value : Nat) : Text :=
  (Nat.toDigits 16 value).leftpad width '0'

/-- A number in upper-case digits, filled with zeros to `width`. -/
def hexUpper (width value : Nat) : Text :=
  (hexLower width value).map Char.toUpper

/-- A byte in exactly two upper-case digits. -/
theorem length_hexUpper_byte (byte : UInt8) :
    (hexUpper 2 byte.toNat).length = 2 := by
  have small := byte.toNat_lt
  have every : ∀ value : Fin 256, (hexUpper 2 value.val).length = 2 := by
    decide +kernel
  exact every ⟨byte.toNat, small⟩

/-- The lower-case digits of a number as a message part. -/
def hex (width value : Nat) : String :=
  String.ofList (hexLower width value)

end PocketCpu.Text
