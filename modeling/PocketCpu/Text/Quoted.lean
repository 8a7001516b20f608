import PocketCpu.Text.Hexadecimal

/-!
# Quoted characters

A character that came out of a byte is shown between single quotes.  The
quote, the backslash and the usual controls have short escapes; every other
character of the first 256 that has no visible form is written by its number.
-/

namespace PocketCpu.Text

/-- The short escapes, without their backslash. -/
def shortEscapes : List (Nat × Char) :=
  [(0x00, '0'), (0x09, 't'), (0x0a, 'n'), (0x0d, 'r'), (0x27, '\x27'),
   (0x5c, '\x5c')]

/-- Whether one of the first 256 characters has a visible form. -/
def isVisible (code : Nat) : Bool :=
  0x20 ≤ code && !(0x7f ≤ code && code ≤ 0xa0) && code != 0xad

/-- The inside of the quotes for the character of a byte. -/
def escape (byte : UInt8) : Text :=
  match shortEscapes.lookup byte.toNat with
  | some letter => ['\x5c', letter]
  | none =>
    if isVisible byte.toNat then
      [Char.ofNat byte.toNat]
    else
      ['\x5c', 'u', '\x7b'] ++ hexLower 1 byte.toNat ++ ['\x7d']

/-- The character of a byte between single quotes. -/
def quote (byte : UInt8) : Text :=
  '\x27' :: escape byte ++ ['\x27']

end PocketCpu.Text
