import PocketCpu.Text.Basic

/-!
# Registers

The machine has six register pairs, A to E and G.  A register names a whole
pair (`AX`) or one of its four-bit halves (`AH`, `AL`).  In programs a
register is a byte: the pairs come first, then the halves of each pair in
turn.
-/

namespace PocketCpu

/-- The values that registers, memory cells and operands hold. -/
abbrev Byte := UInt8

/-- The values of the program counter and of labels. -/
abbrev Word := UInt16

inductive Pair where
  | a
  | b
  | c
  | d
  | e
  | g
deriving DecidableEq, Repr

namespace Pair

def all : List Pair :=
  [.a, .b, .c, .d, .e, .g]

def index : Pair → Nat
  | .a => 0
  | .b => 1
  | .c => 2
  | .d => 3
  | .e => 4
  | .g => 5

def letter : Pair → Char
  | .a => 'A'
  | .b => 'B'
  | .c => 'C'
  | .d => 'D'
  | .e => 'E'
  | .g => 'G'

end Pair

/-- The part of a pair that a register names. -/
inductive Part where
  | full
  | high
  | low
deriving DecidableEq, Repr

namespace Part

def letter : Part → Char
  | .full => 'X'
  | .high => 'H'
  | .low => 'L'

/-- The largest value that fits into a part. -/
def mask : Part → Byte
  | .full => 0xff
  | .high => 0x0f
  | .low => 0x0f

end Part

/-- A register: a pair, or one half of it. -/
structure Register where
  pair : Pair
  part : Part
deriving DecidableEq, Repr

namespace Register

def all : List Register :=
  Pair.all.map (⟨·, .full⟩) ++
    Pair.all.flatMap fun pair => [⟨pair, .high⟩, ⟨pair, .low⟩]

/-- The byte that stands for a register in a program. -/
def code (register : Register) : Byte :=
  match register.part with
  | .full => UInt8.ofNat (0x01 + register.pair.index)
  | .high => UInt8.ofNat (0x07 + 2 * register.pair.index)
  | .low => UInt8.ofNat (0x08 + 2 * register.pair.index)

def ofCode? (byte : Byte) : Option Register :=
  all.find? fun register => register.code == byte

/-- The name of a register: the letter of its pair, then that of its part. -/
def name (register : Register) : Text :=
  [register.pair.letter, register.part.letter]

/-- The register of a name, if any; letters are upper-case. -/
def ofName? (name : Text) : Option Register :=
  all.find? fun register => register.name == name

@[simp]
theorem ofCode?_code (register : Register) :
    ofCode? register.code = some register := by
  obtain ⟨pair, part⟩ := register
  cases pair <;> cases part <;> decide

@[simp]
theorem ofName?_name (register : Register) :
    ofName? register.name = some register := by
  obtain ⟨pair, part⟩ := register
  cases pair <;> cases part <;> decide

theorem ofCode?_eq_some_iff
    {byte : Byte}
    {register : Register} :
    ofCode? byte = some register ↔ register.code = byte := by
  constructor
  · intro found
    simpa using List.find?_some found
  · rintro rfl
    exact ofCode?_code register

theorem ofName?_eq_some_iff
    {name : Text}
    {register : Register} :
    ofName? name = some register ↔ register.name = name := by
  constructor
  · intro found
    simpa using List.find?_some found
  · rintro rfl
    exact ofName?_name register

end Register

end PocketCpu
