import PocketCpu.Machine.Event

/-!
# Carrying out instructions

An instruction is carried out with the program counter already behind it.
It loads its operands, computes, and only then writes, so a fault leaves
registers, memory and flags as they were.  The one thing that a fault may
change is the switch: a jump out of memory stops the machine.
-/

namespace PocketCpu

/-- A byte as a word of the arithmetic unit. -/
def widen (byte : Byte) : Int32 :=
  byte.toUInt32.toInt32

/-- The low eight bits of a word of the arithmetic unit. -/
def narrow (value : Int32) : Byte :=
  value.toUInt32.toUInt8

/-- A widened byte is never negative. -/
@[simp]
theorem toInt_widen (byte : Byte) : (widen byte).toInt = byte.toNat := by
  have small := byte.toNat_lt
  rw [widen, Int32.toInt, UInt32.toBitVec_toInt32,
    BitVec.toInt_eq_toNat_of_lt]
  · simp
  · simp
    omega

namespace Machine

variable {size : Nat}

def move (machine : Machine size) (target source : Operand) :
    Except Fault (Machine size) := do
  let value ← machine.load source
  machine.store .mov target value

/--
Compute with two values, the target's first.

The flags see the whole result, of which the target keeps the low byte.
-/
def compute
    (machine : Machine size)
    (operation : BinaryOp)
    (target source : Operand) :
    Except Fault (Machine size) := do
  let left ← machine.load target
  let right ← machine.load source
  let result := operation.apply (widen left) (widen right)
  let written ←
    if operation.writesBack then
      machine.store operation.opcode target (narrow result)
    else
      .ok machine
  .ok { written with flags := machine.flags.observe result }

def invert (machine : Machine size) (operand : Operand) :
    Except Fault (Machine size) := do
  let value ← machine.load operand
  let written ← machine.store .not operand (~~~value)
  .ok { written with flags := machine.flags.observe (widen (~~~value)) }

/-- Raise an interrupt; only the numbers zero and one have a meaning. -/
def raise (machine : Machine size) (number : Byte) : Outcome size Fault :=
  let notice := (MachineNotice.raised number).event
  if number = 0 ∨ number = 1 then
    .done machine [notice, .interrupt number machine.registers.ax]
  else
    .failed machine (.unknownInterrupt number) [notice]

/-- Go to an address, or stop if it is outside of memory. -/
def jump (machine : Machine size) (target : Operand) : Outcome size Fault :=
  match machine.load target with
  | .error fault => .failed machine fault []
  | .ok address =>
    if address.toNat < size then
      .done { machine with pc := address.toUInt16 } []
    else
      .failed machine.stop (.invalidJump address.toNat) []

/-- Carry out an instruction that the program counter is already behind. -/
def perform (machine : Machine size) (instruction : Instruction) :
    Outcome size Fault :=
  match instruction with
  | .nop => .done machine []
  | .halt => .done machine.stop [MachineNotice.halted.event]
  | .interrupt number =>
    match machine.load number with
    | .ok value => machine.raise value
    | .error fault => .failed machine fault []
  | .selectWidth value =>
    let flags := machine.flags.selectWidth value
    .done { machine with flags } [(MachineNotice.widthSelected flags).event]
  | .move target source => .ofUpdate machine (machine.move target source)
  | .compute operation target source =>
    .ofUpdate machine (machine.compute operation target source)
  | .invert operand => .ofUpdate machine (machine.invert operand)
  | .jump condition target =>
    if machine.flags.permit condition then machine.jump target
    else .done machine []

end Machine

end PocketCpu
