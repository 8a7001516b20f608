import PocketCpu.Register.Basic
import PocketCpu.Text.Hexadecimal

/-!
# Faults

A fault says why an instruction could not be decoded or carried out.  Most
faults only drop the instruction; three of them are fatal and stop the
machine.  A trap is a fault together with the address of its instruction.
-/

namespace PocketCpu

/-- Why an instruction could not be decoded or carried out. -/
inductive Fault where
  /-- A memory operand lies outside of memory. -/
  | outOfBounds (address : Nat)
  /-- A register operand is no register's code. -/
  | unknownRegister (code : Byte)
  | unknownOpcode (opcode : Byte)
  /-- The mode byte has no meaning for the opcode. -/
  | unknownMode (opcode mode : Byte)
  | unknownInterrupt (number : Byte)
  /-- The result would have to be written to a constant. -/
  | immediateTarget (opcode : Byte)
  /-- A jump leads out of memory. -/
  | invalidJump (address : Nat)
  /-- The program counter is past the last byte of memory. -/
  | endOfMemory
  /-- The bytes of the instruction run past the end of memory. -/
  | truncated (opcode : Byte)
deriving DecidableEq, Repr

namespace Fault

/-- Whether a fault stops the machine. -/
def isFatal : Fault → Bool
  | .invalidJump _ => true
  | .endOfMemory => true
  | .truncated _ => true
  | _ => false

def message : Fault → String
  | .outOfBounds address =>
    "memory access out of bounds: 0x" ++ Text.hex 1 address
  | .unknownRegister code =>
    "unknown register code 0x" ++ Text.hex 2 code.toNat
  | .unknownOpcode opcode =>
    "unknown opcode 0x" ++ Text.hex 2 opcode.toNat
  | .unknownMode opcode mode =>
    "unknown addressing mode 0x" ++ Text.hex 2 mode.toNat ++
      " for opcode 0x" ++ Text.hex 2 opcode.toNat
  | .unknownInterrupt number =>
    "unknown interrupt number " ++ toString number.toNat
  | .immediateTarget opcode =>
    "opcode 0x" ++ Text.hex 2 opcode.toNat ++
      " cannot write to an immediate operand"
  | .invalidJump address =>
    "jump to invalid address 0x" ++ Text.hex 1 address
  | .endOfMemory =>
    "program reached end of memory"
  | .truncated opcode =>
    "operands of opcode 0x" ++ Text.hex 2 opcode.toNat ++
      " run past the end of memory"

end Fault

/-- A fault of the instruction at an address. -/
structure Trap where
  fault : Fault
  pc : Word
deriving DecidableEq, Repr

def Trap.message (trap : Trap) : String :=
  "error [pc: 0x" ++ Text.hex 2 trap.pc.toNat ++ "]: " ++ trap.fault.message

end PocketCpu
