import PocketCpu.Machine.Step

/-!
# Runs

A run switches the machine on and takes steps until the machine is off: at
an instruction that halts, at a fatal fault, at the end of memory, or because
it was stopped from outside.  Between two steps a cadence may look at the
machine, count, and stop it.  Faults that are not fatal never end a run, and
the end of memory ends it without a failure.

A run may go on for ever, so it is taken turn by turn, and `advance` takes a
bounded number of turns.
-/

namespace PocketCpu

/-- What happens between two steps of a run. -/
abbrev Cadence (Clock : Type) (size : Nat) :=
  Clock → Machine size → Clock × Machine size × List Event

namespace Cadence

variable {size : Nat}

/-- The cadence that lets the machine run. -/
def free {Clock : Type} : Cadence Clock size :=
  fun clock machine => (clock, machine, [])

/-- The cadence that counts and stops the machine from tick `limit` on. -/
def stopAt (limit : Nat) : Cadence Nat size :=
  fun ticks machine =>
    (ticks + 1, if limit ≤ ticks + 1 then machine.stop else machine, [])

end Cadence

/-- Whether a run goes on; once it has ended, with which failure. -/
inductive Phase where
  | active
  | ended (failure : Option Trap)
deriving DecidableEq, Repr

/-- A run between two of its turns. -/
structure Run (Clock : Type) (size : Nat) where
  machine : Machine size
  clock : Clock
  phase : Phase

namespace Run

variable {Clock : Type} {size : Nat}

def start (machine : Machine size) (clock : Clock) : Run Clock size :=
  ⟨{ machine with isRunning := true }, clock, .active⟩

/-- End a run without a failure. -/
def finish (run : Run Clock size) : Run Clock size × List Event :=
  ({ run with phase := .ended none },
    [(MachineNotice.terminated
      run.machine.pc run.machine.registers.ax).event])

/-- Let the cadence act, and end the run if the machine is off. -/
def proceed (cadence : Cadence Clock size) (run : Run Clock size) :
    Run Clock size × List Event :=
  if run.machine.isRunning then
    let (clock, machine, events) := cadence run.clock run.machine
    let ticked : Run Clock size := { run with machine, clock }
    if machine.isRunning then
      (ticked, events)
    else
      (ticked.finish.1, events ++ ticked.finish.2)
  else
    run.finish

/-- One turn of a run: a step and, while the machine is on, a tick. -/
def turn (cadence : Cadence Clock size) (run : Run Clock size) :
    Run Clock size × List Event :=
  let outcome := run.machine.step
  let stepped : Run Clock size := { run with machine := outcome.machine }
  match outcome.failure with
  | none =>
    let (next, events) := stepped.proceed cadence
    (next, outcome.events ++ events)
  | some trap =>
    if trap.fault = .endOfMemory then
      (stepped.finish.1, outcome.events ++ stepped.finish.2)
    else if trap.fault.isFatal then
      ({ stepped with phase := .ended (some trap) }, outcome.events)
    else
      let (next, events) := stepped.proceed cadence
      (next, outcome.events ++ events)

/-- At most a number of turns, with their events behind earlier ones. -/
def advance (cadence : Cadence Clock size) :
    Nat → Run Clock size → Array Event → Run Clock size × Array Event
  | 0, run, events => (run, events)
  | turns + 1, run, events =>
    match run.phase with
    | .ended _ => (run, events)
    | .active =>
      let (next, more) := run.turn cadence
      advance cadence turns next (events ++ more)

end Run

namespace Machine

variable {Clock : Type} {size : Nat}

/-- How a run of the machine ended. -/
structure RunResult (Clock : Type) (size : Nat) where
  machine : Machine size
  clock : Clock
  failure : Option Trap
  events : List Event

/-- Run the machine, unless it takes more than a number of turns. -/
def run? (machine : Machine size) (cadence : Cadence Clock size)
    (clock : Clock) (turns : Nat) : Option (RunResult Clock size) :=
  let (last, events) := (Run.start machine clock).advance cadence turns #[]
  match last.phase with
  | .active => none
  | .ended failure => some ⟨last.machine, last.clock, failure, events.toList⟩

end Machine

end PocketCpu
