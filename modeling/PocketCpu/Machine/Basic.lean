import PocketCpu.Fault
import PocketCpu.Flags
import PocketCpu.Instruction.Basic
import PocketCpu.Memory.Basic
import PocketCpu.Register.File

/-!
# The machine

A machine is a register file, flags, a memory that holds instructions and
data alike, a program counter and a switch that says whether it runs.  It
also remembers the two bytes that it fetched last, for inspection only.
-/

namespace PocketCpu

/-- The opcode byte and the mode byte that were fetched last. -/
structure InstructionRegister where
  opcode : Byte
  mode : Byte
deriving DecidableEq, Repr

/-- A machine with a memory of `size` bytes. -/
structure Machine (size : Nat) where
  registers : RegisterFile
  flags : Flags
  memory : Memory size
  pc : Word
  fetched : InstructionRegister
  isRunning : Bool
deriving DecidableEq

/-- What is shown of a machine after a step, with all bytes of its memory. -/
structure Snapshot where
  registers : RegisterFile
  flags : Flags
  memory : Array Byte
  pc : Word
  fetched : InstructionRegister
deriving DecidableEq, Repr

namespace Machine

/-- The fresh machine: zeros everywhere, four bits wide, and not running. -/
def initial (size : Nat) : Machine size :=
  ⟨.zero, .initial, .zero size, 0, ⟨0, 0⟩, false⟩

variable {size : Nat}

def snapshot (machine : Machine size) : Snapshot :=
  ⟨machine.registers, machine.flags, machine.memory.bytes.toArray, machine.pc,
    machine.fetched⟩

/-- The machine that does not run any more. -/
def stop (machine : Machine size) : Machine size :=
  { machine with isRunning := false }

def load (machine : Machine size) : Operand → Except Fault Byte
  | .register register => .ok (machine.registers.read register)
  | .memory address =>
    match machine.memory.get? address.toNat with
    | some byte => .ok byte
    | none => .error (.outOfBounds address.toNat)
  | .immediate value => .ok value

/-- The machine after a write to an operand, on behalf of an opcode. -/
def store
    (machine : Machine size)
    (opcode : Opcode)
    (target : Operand)
    (value : Byte) :
    Except Fault (Machine size) :=
  match target with
  | .register register =>
    .ok { machine with registers := machine.registers.write register value }
  | .memory address =>
    if address.toNat < size then
      .ok { machine with memory := machine.memory.set address.toNat value }
    else
      .error (.outOfBounds address.toNat)
  | .immediate _ => .error (.immediateTarget opcode.code)

end Machine

/-- Whether the flags let a jump with a condition be taken. -/
def Flags.permit (flags : Flags) : Condition → Bool
  | .always => true
  | .zero => flags.zero
  | .carry => flags.carry

end PocketCpu
