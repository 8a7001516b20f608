import PocketCpu.Register.Basic

/-!
# Opcodes

An opcode is the first byte of an instruction and has a mnemonic.  This
module also names the operations of the arithmetic unit and the conditions
of jumps, each of which belongs to one opcode.
-/

namespace PocketCpu

/-- The operations that the first byte of an instruction selects. -/
inductive Opcode where
  | nop
  | hlt
  | int
  | mov
  | add
  | sub
  | and
  | or
  | xor
  | not
  | jmp
  | jz
  | jc
  | shl
  | shr
  | cmp
deriving DecidableEq, Repr

namespace Opcode

def all : List Opcode :=
  [.nop, .hlt, .int, .mov, .add, .sub, .and, .or, .xor, .not, .jmp, .jz,
   .jc, .shl, .shr, .cmp]

def code : Opcode → Byte
  | .nop => 0x00
  | .hlt => 0x01
  | .int => 0x02
  | .mov => 0x10
  | .add => 0x11
  | .sub => 0x12
  | .and => 0x13
  | .or => 0x14
  | .xor => 0x15
  | .not => 0x16
  | .jmp => 0x17
  | .jz => 0x18
  | .jc => 0x19
  | .shl => 0x1a
  | .shr => 0x1b
  | .cmp => 0x1c

def ofCode? (byte : Byte) : Option Opcode :=
  all.find? fun opcode => opcode.code == byte

def name : Opcode → Text
  | .nop => ['N', 'O', 'P']
  | .hlt => ['H', 'L', 'T']
  | .int => ['I', 'N', 'T']
  | .mov => ['M', 'O', 'V']
  | .add => ['A', 'D', 'D']
  | .sub => ['S', 'U', 'B']
  | .and => ['A', 'N', 'D']
  | .or => ['O', 'R']
  | .xor => ['X', 'O', 'R']
  | .not => ['N', 'O', 'T']
  | .jmp => ['J', 'M', 'P']
  | .jz => ['J', 'Z']
  | .jc => ['J', 'C']
  | .shl => ['S', 'H', 'L']
  | .shr => ['S', 'H', 'R']
  | .cmp => ['C', 'M', 'P']

/-- The opcode of a mnemonic, if any; letters are upper-case. -/
def ofName? (name : Text) : Option Opcode :=
  all.find? fun opcode => opcode.name == name

@[simp]
theorem ofCode?_code (opcode : Opcode) :
    ofCode? opcode.code = some opcode := by
  cases opcode <;> decide

@[simp]
theorem ofName?_name (opcode : Opcode) :
    ofName? opcode.name = some opcode := by
  cases opcode <;> decide

theorem ofCode?_eq_some_iff
    {byte : Byte}
    {opcode : Opcode} :
    ofCode? byte = some opcode ↔ opcode.code = byte := by
  constructor
  · intro found
    simpa using List.find?_some found
  · rintro rfl
    exact ofCode?_code opcode

theorem ofName?_eq_some_iff
    {name : Text}
    {opcode : Opcode} :
    ofName? name = some opcode ↔ opcode.name = name := by
  constructor
  · intro found
    simpa using List.find?_some found
  · rintro rfl
    exact ofName?_name opcode

end Opcode

/-- The two-operand operations of the arithmetic unit. -/
inductive BinaryOp where
  | add
  | sub
  | and
  | or
  | xor
  | shl
  | shr
  | cmp
deriving DecidableEq, Repr

namespace BinaryOp

def all : List BinaryOp :=
  [.add, .sub, .and, .or, .xor, .shl, .shr, .cmp]

def opcode : BinaryOp → Opcode
  | .add => .add
  | .sub => .sub
  | .and => .and
  | .or => .or
  | .xor => .xor
  | .shl => .shl
  | .shr => .shr
  | .cmp => .cmp

/--
The result of an operation, in signed words of thirty-two bits.

These words are wide enough that no operation on bytes wraps.  A shift uses
the low three bits of its count and keeps the sign to the right.
-/
def apply (operation : BinaryOp) (left right : Int32) : Int32 :=
  match operation with
  | .add => left + right
  | .sub => left - right
  | .and => left &&& right
  | .or => left ||| right
  | .xor => left ^^^ right
  | .shl => left <<< (right &&& 7)
  | .shr => left >>> (right &&& 7)
  | .cmp => left - right

/-- Whether the result replaces the left operand; a comparison drops it. -/
def writesBack (operation : BinaryOp) : Bool :=
  operation != .cmp

end BinaryOp

/-- When a jump is taken. -/
inductive Condition where
  | always
  | zero
  | carry
deriving DecidableEq, Repr

namespace Condition

def opcode : Condition → Opcode
  | .always => .jmp
  | .zero => .jz
  | .carry => .jc

end Condition

namespace Opcode

/-- The condition of a jump's opcode, `none` for every other opcode. -/
def condition? : Opcode → Option Condition
  | .jmp => some .always
  | .jz => some .zero
  | .jc => some .carry
  | _ => none

/-- An opcode jumps exactly if it is the opcode of a condition. -/
theorem condition?_eq_some_iff
    {opcode : Opcode}
    {condition : Condition} :
    opcode.condition? = some condition ↔ condition.opcode = opcode := by
  cases opcode <;> cases condition <;> decide

end Opcode

end PocketCpu
