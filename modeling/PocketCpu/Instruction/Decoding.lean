import PocketCpu.Fault
import PocketCpu.Instruction.Basic

/-!
# Decoding instructions

The opcode and the mode decide together which operands follow.  Reading
these operands gives the instruction, so the number of bytes that a mode
implies and the instruction that they form come from one description.
Decoding gives back every instruction that has bytes, save that an inverted
constant has bytes without a meaning.
-/

namespace PocketCpu

/-- The operands that follow an opcode and a mode. -/
inductive Fields where
  | bare (instruction : Instruction)
  | width
  | single (kind : OperandKind) (build : Operand → Instruction)
  | pair (target source : OperandKind)
      (build : Operand → Operand → Instruction)

namespace Fields

def count : Fields → Nat
  | .bare _ => 0
  | .width => 1
  | .single _ _ => 1
  | .pair _ _ _ => 2

/-- Read one operand byte. -/
def operand (kind : OperandKind) (byte : Byte) : Except Fault Operand :=
  match Operand.ofByte? kind byte with
  | some operand => .ok operand
  | none => .error (.unknownRegister byte)

/-- Read the instruction from its operand bytes; more bytes are ignored. -/
def read (fields : Fields) (opcode : Byte) (bytes : List Byte) :
    Except Fault Instruction :=
  match fields, bytes with
  | .bare instruction, _ => .ok instruction
  | .width, value :: _ => .ok (.selectWidth value)
  | .single kind build, byte :: _ => build <$> operand kind byte
  | .pair target source build, first :: second :: _ => do
    let left ← operand target first
    let right ← operand source second
    .ok (build left right)
  | _, _ => .error (.truncated opcode)

end Fields

/-- The operands that the instructions of an opcode have. -/
inductive Shape where
  | bare (instruction : Instruction)
  /-- One operand; only an operand that is read alone may be a constant. -/
  | single (isWritten : Bool) (build : Operand → Instruction)
  | pair (build : Operand → Operand → Instruction)

namespace Shape

def arity : Shape → Nat
  | .bare _ => 0
  | .single _ _ => 1
  | .pair _ => 2

end Shape

namespace Opcode

/-- The shape of the instructions of an opcode. -/
def shape : Opcode → Shape
  | .nop => .bare .nop
  | .hlt => .bare .halt
  | .int => .single false .interrupt
  | .mov => .pair .move
  | .add => .pair (.compute .add)
  | .sub => .pair (.compute .sub)
  | .and => .pair (.compute .and)
  | .or => .pair (.compute .or)
  | .xor => .pair (.compute .xor)
  | .not => .single true .invert
  | .jmp => .single false (.jump .always)
  | .jz => .single false (.jump .zero)
  | .jc => .single false (.jump .carry)
  | .shl => .pair (.compute .shl)
  | .shr => .pair (.compute .shr)
  | .cmp => .pair (.compute .cmp)

/--
The operands that follow an opcode under a mode.

An opcode without operands ignores its mode.  The width mode belongs to `MOV`
alone.
-/
def fieldsUnder? (opcode : Opcode) (mode : Byte) : Option Fields :=
  match opcode.shape with
  | .bare instruction => some (.bare instruction)
  | .single isWritten build => do
    let kind ← (← Mode.ofCode? mode).single?
    if isWritten ∧ kind = .immediate then none
    else some (.single kind build)
  | .pair build => do
    let mode ← Mode.ofCode? mode
    if mode = .width ∧ opcode = .mov then some .width
    else
      let (target, source) ← mode.pair?
      some (.pair target source build)

end Opcode

namespace Instruction

/-- The operands that an opcode byte and a mode byte announce. -/
def fields (opcode mode : Byte) : Except Fault Fields :=
  match Opcode.ofCode? opcode with
  | none => .error (.unknownOpcode opcode)
  | some operation =>
    match operation.fieldsUnder? mode with
    | none => .error (.unknownMode opcode mode)
    | some fields => .ok fields

/-- The number of operand bytes behind an opcode and a mode. -/
def operandCount (opcode mode : Byte) : Except Fault Nat :=
  Fields.count <$> fields opcode mode

/-- The instruction of an opcode, a mode and operand bytes. -/
def decode (opcode mode : Byte) (operands : List Byte) :
    Except Fault Instruction := do
  (← fields opcode mode).read opcode operands

@[simp]
theorem operand_byte (operand : Operand) :
    Fields.operand operand.kind operand.byte = .ok operand := by
  simp [Fields.operand]

end Instruction

end PocketCpu
