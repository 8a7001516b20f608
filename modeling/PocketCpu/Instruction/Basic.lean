import PocketCpu.Instruction.Opcode
import PocketCpu.Instruction.Operand

/-!
# Instructions

An instruction is written in a program as an opcode byte, a mode byte and
the bytes of its operands, two to four bytes in all.  Every instruction has
a size, but one that would write to a constant has no mode and so no bytes.
-/

namespace PocketCpu

/-- An instruction with its operands. -/
inductive Instruction where
  | nop
  | halt
  | interrupt (number : Operand)
  | selectWidth (value : Byte)
  | move (target source : Operand)
  | compute (operation : BinaryOp) (target source : Operand)
  | invert (operand : Operand)
  | jump (condition : Condition) (address : Operand)
deriving DecidableEq, Repr

namespace Instruction

def opcode : Instruction → Opcode
  | .nop => .nop
  | .halt => .hlt
  | .interrupt _ => .int
  | .selectWidth _ => .mov
  | .move _ _ => .mov
  | .compute operation _ _ => operation.opcode
  | .invert _ => .not
  | .jump condition _ => condition.opcode

/-- The mode of an instruction, unless its target is a constant. -/
def mode? : Instruction → Option Mode
  | .nop => some .registerRegister
  | .halt => some .registerRegister
  | .interrupt number => some (Mode.ofSingle number.kind)
  | .selectWidth _ => some .width
  | .move target source => Mode.ofPair? target.kind source.kind
  | .compute _ target source => Mode.ofPair? target.kind source.kind
  | .invert operand => some (Mode.ofSingle operand.kind)
  | .jump _ address => some (Mode.ofSingle address.kind)

/-- The bytes behind the opcode and the mode. -/
def operandBytes : Instruction → List Byte
  | .nop => []
  | .halt => []
  | .interrupt number => [number.byte]
  | .selectWidth value => [value]
  | .move target source => [target.byte, source.byte]
  | .compute _ target source => [target.byte, source.byte]
  | .invert operand => [operand.byte]
  | .jump _ address => [address.byte]

/-- The number of bytes of an instruction. -/
def size (instruction : Instruction) : Nat :=
  2 + instruction.operandBytes.length

/-- The bytes of an instruction, unless its target is a constant. -/
def encode? (instruction : Instruction) : Option (List Byte) :=
  instruction.mode?.map fun mode =>
    instruction.opcode.code :: mode.code :: instruction.operandBytes

/-- An instruction takes as many bytes as its size says. -/
theorem length_of_encode?
    {instruction : Instruction}
    {bytes : List Byte}
    (encoded : instruction.encode? = some bytes) :
    bytes.length = instruction.size := by
  obtain ⟨mode, _, rfl⟩ := Option.map_eq_some_iff.1 encoded
  simp only [List.length_cons, size]
  omega

/-- A mnemonic and the operands behind it, separated by a comma. -/
def line (opcode : Opcode) (operands : List Text) : Text :=
  match operands with
  | [] => opcode.name
  | _ => opcode.name ++ ' ' :: [',', ' '].intercalate operands

/-- The word that stands for the width in place of a target. -/
def widthWord : Text :=
  ['M', 'O', 'P']

/-- How an instruction is written in a listing. -/
def text (instruction : Instruction) : Text :=
  line instruction.opcode <|
    match instruction with
    | .nop => []
    | .halt => []
    | .interrupt number => [number.text]
    | .selectWidth value => [widthWord, (Operand.immediate value).text]
    | .move target source => [target.text, source.text]
    | .compute _ target source => [target.text, source.text]
    | .invert operand => [operand.text]
    | .jump _ address => [address.text]

end Instruction

end PocketCpu
