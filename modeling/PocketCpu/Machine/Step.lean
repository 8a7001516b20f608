import PocketCpu.Instruction.Listing
import PocketCpu.Machine.Perform

/-!
# Steps

A step fetches an opcode and a mode, moves the program counter behind the
operands that they announce, and carries out the instruction.  The operand
of a jump that is not taken is skipped without being decoded.  Whatever
happens, the program counter never stops inside of the operands.
-/

namespace PocketCpu.Machine

variable {size : Nat}

/-- The byte at the program counter, and the machine behind it. -/
def fetch? (machine : Machine size) : Option (Byte × Machine size) :=
  (machine.memory.get? machine.pc.toNat).map fun byte =>
    (byte, { machine with pc := machine.pc + 1 })

/-- The opcode of a jump whose condition does not hold. -/
def skipped? (machine : Machine size) (opcode : Byte) : Option Opcode := do
  let operation ← Opcode.ofCode? opcode
  let condition ← operation.condition?
  if machine.flags.permit condition then none else some operation

/-- Carry out the instruction whose opcode and mode were just fetched. -/
def execute (machine : Machine size) (opcode mode : Byte) :
    Outcome size Fault :=
  match Instruction.operandCount opcode mode with
  | .error fault => .failed machine fault []
  | .ok count =>
    let start := machine.pc.toNat
    if size < start + count then
      .failed machine (.truncated opcode) []
    else
      let behind := { machine with pc := UInt16.ofNat (start + count) }
      match behind.skipped? opcode with
      | some operation =>
        .done behind [(MachineNotice.notTaken (start - 2) operation).event]
      | none =>
        match Instruction.decode opcode mode
            (machine.memory.slice start count) with
        | .error fault => .failed behind fault []
        | .ok instruction =>
          (behind.perform instruction).after
            [(MachineNotice.executed (start - 2) instruction).event]

/-- Fetch the two leading bytes of an instruction and carry it out. -/
def fetchAndExecute (machine : Machine size) : Outcome size Fault :=
  match machine.fetch? with
  | none => .failed machine .endOfMemory []
  | some (opcode, behindOpcode) =>
    match behindOpcode.fetch? with
    | none => .failed behindOpcode (.truncated opcode) []
    | some (mode, behindMode) =>
      let ready := { behindMode with fetched := ⟨opcode, mode⟩ }
      (ready.execute opcode mode).after
        [(MachineNotice.fetched opcode mode ready.pc).event]

def stateChanged (machine : Machine size) : Event :=
  .stateChanged machine.snapshot

/--
The machine after a trap, and the events that report it.

A fatal fault stops the machine.  The end of memory is no mistake of the
program, so it is reported without a change of state.
-/
def report (machine : Machine size) (trap : Trap) :
    Machine size × List Event :=
  let stopped := if trap.fault.isFatal then machine.stop else machine
  if trap.fault = .endOfMemory then
    (stopped, [MachineNotice.reachedEnd.event, .trapped trap])
  else
    (stopped,
      [(MachineNotice.trapped trap).event, .trapped trap,
        stopped.stateChanged])

/-- One step: carry out the instruction at the program counter. -/
def step (machine : Machine size) : Outcome size Trap :=
  let outcome := machine.fetchAndExecute
  match outcome.failure with
  | none =>
    .done outcome.machine (outcome.events ++ [outcome.machine.stateChanged])
  | some fault =>
    let trap : Trap := ⟨fault, machine.pc⟩
    let (stopped, events) := outcome.machine.report trap
    .failed stopped trap (outcome.events ++ events)

/-- Put the machine back to its initial state. -/
def reset (_machine : Machine size) : Machine size × List Event :=
  (initial size, [(initial size).stateChanged])

end PocketCpu.Machine
