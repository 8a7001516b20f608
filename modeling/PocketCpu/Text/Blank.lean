/-!
# Blank characters

A character is blank when Unicode gives it the property White_Space.  Blank
characters separate the words of an instruction and are dropped from both
ends of a line.
-/

namespace PocketCpu.Text

/-- The first and the last code point of each run of blank characters. -/
def blankRanges : List (Nat × Nat) :=
  [(0x09, 0x0d), (0x20, 0x20), (0x85, 0x85), (0xa0, 0xa0), (0x1680, 0x1680),
   (0x2000, 0x200a), (0x2028, 0x2029), (0x202f, 0x202f), (0x205f, 0x205f),
   (0x3000, 0x3000)]

/-- Whether a character lies in one of the blank runs. -/
def isBlank (character : Char) : Bool :=
  blankRanges.any fun range =>
    range.1 ≤ character.toNat && character.toNat ≤ range.2

end PocketCpu.Text
