import PocketCpu.Log
import PocketCpu.Machine.Basic

/-!
# Events

The machine changes nothing outside of itself.  What the world may see of
its work is a list of events: records for a log, and three notifications for
whatever is attached to the machine.  These say that the state has changed,
that an interrupt was raised, and that an instruction trapped.
-/

namespace PocketCpu

/-- What the world may see of the machine's work. -/
inductive Event where
  | log (record : Record)
  | stateChanged (snapshot : Snapshot)
  | interrupt (number accumulator : Byte)
  | trapped (trap : Trap)
deriving DecidableEq, Repr

/-- What the machine records while it works. -/
inductive MachineNotice where
  /-- Two bytes were fetched, and the program counter stands behind them. -/
  | fetched (opcode mode : Byte) (pc : Word)
  | executed (address : Nat) (instruction : Instruction)
  /-- The condition of a jump did not hold. -/
  | notTaken (address : Nat) (opcode : Opcode)
  | raised (number : Byte)
  | halted
  | widthSelected (flags : Flags)
  | reachedEnd
  | trapped (trap : Trap)
  | terminated (pc : Word) (accumulator : Byte)
deriving DecidableEq, Repr

namespace MachineNotice

def message : MachineNotice → String
  | .fetched opcode mode pc =>
    "Executing instruction: opcode=" ++ Text.hex 1 opcode.toNat ++
      ", type=" ++ Text.hex 1 mode.toNat ++ ", PC=" ++ Text.hex 1 pc.toNat
  | .executed address instruction =>
    Text.hex 2 address ++ ": " ++ String.ofList instruction.text
  | .notTaken address opcode =>
    Text.hex 2 address ++ ": " ++ String.ofList opcode.name ++ " not taken"
  | .raised number => "Handling interrupt: " ++ toString number.toNat
  | .halted => "Program halted"
  | .widthSelected flags => "MOP mode set to " ++ flags.widthText
  | .reachedEnd => "Program reached end of memory"
  | .trapped trap => trap.message
  | .terminated pc accumulator =>
    "Program terminated. PC: 0x" ++
      String.ofList (Text.hexUpper 2 pc.toNat) ++ ", AX: 0x" ++
      String.ofList (Text.hexUpper 2 accumulator.toNat)

/-- The level of a notice; a trap is an error only if it is fatal. -/
def level : MachineNotice → Level
  | .fetched _ _ _ => .trace
  | .executed _ _ => .debug
  | .notTaken _ _ => .debug
  | .raised _ => .debug
  | .halted => .info
  | .widthSelected _ => .info
  | .reachedEnd => .info
  | .trapped trap => if trap.fault.isFatal then .error else .warn
  | .terminated _ _ => .info

def event (notice : MachineNotice) : Event :=
  .log ⟨notice.level, .processor, notice.message⟩

end MachineNotice

namespace Event

/-- Whether an event is a notification for what is attached. -/
def isNotification : Event → Bool
  | .log _ => false
  | _ => true

end Event

/--
What remains after some work of the machine: the machine itself, the reason
why the work failed if it did, and the events in their order.
-/
structure Outcome (size : Nat) (Reason : Type) where
  machine : Machine size
  failure : Option Reason
  events : List Event
deriving DecidableEq

namespace Outcome

variable {size : Nat} {Reason : Type}

/-- The outcome of work that went well. -/
def done (machine : Machine size) (events : List Event) :
    Outcome size Reason :=
  ⟨machine, none, events⟩

/-- The outcome of work that failed. -/
def failed (machine : Machine size) (reason : Reason) (events : List Event) :
    Outcome size Reason :=
  ⟨machine, some reason, events⟩

/-- The outcome of an update that leaves the machine alone if it fails. -/
def ofUpdate (machine : Machine size) :
    Except Reason (Machine size) → Outcome size Reason
  | .ok updated => done updated []
  | .error reason => failed machine reason []

/-- The same outcome, with more events in front. -/
def after (events : List Event) (outcome : Outcome size Reason) :
    Outcome size Reason :=
  { outcome with events := events ++ outcome.events }

end Outcome

end PocketCpu
