import PocketCpu.Proofs.Machine.Atomicity
import PocketCpu.Proofs.Machine.Run

/-!
# What a run executes

A cadence that leaves the machine alone or stops it has no say in what the
steps of a run do, only in how many there are.  So a run that ends has
executed a number of steps of its machine, and reports the accumulator at
those of them that raise an interrupt, and at no others.  Faults that are not
fatal change none of this: the machine goes on with its next step.
-/

namespace PocketCpu

namespace Machine

variable {size : Nat} {machine : Machine size} {number : Byte}

/-! ## Interrupts of steps -/

/-- The number of the interrupt that a step raises, if it does. -/
def raised? (machine : Machine size) : Option Byte :=
  match machine.current with
  | .ok instruction => machine.interruptNumber? instruction
  | .error _ => none

/--
The accumulators at those of a number of steps that raise the interrupt of a
number, in their order.
-/
def reported (machine : Machine size) (number : Byte) (steps : Nat) :
    List Byte :=
  ((List.range steps).filter fun index =>
      (machine.afterSteps index).raised? = some number).map fun index =>
    (machine.afterSteps index).registers.ax

/-- The failure of a run that executes a number of steps: that of the last. -/
def lastFailure? (machine : Machine size) (steps : Nat) : Option Trap :=
  (machine.afterSteps (steps - 1)).step.runFailure?

/-- A step that leaves the machine on ends no run with a failure. -/
theorem runFailure?_of_isRunning
    (isOn : machine.step.machine.isRunning = true) :
    machine.step.runFailure? = none := by
  rw [Outcome.runFailure?]
  split
  · next trap failed =>
      apply if_neg
      rintro ⟨fatal, -⟩
      rw [machine.isRunning_step_of_isFatal failed fatal] at isOn
      cases isOn
  · rfl

end Machine

namespace Run

variable {Clock : Type} {size : Nat} {cadence : Cadence Clock size}
variable {machine : Machine size} {clock : Clock}

/-! ## Turns -/

end Run

end PocketCpu
