import PocketCpu.Console.Session
import PocketCpu.Proofs.Assembly.Passes
import PocketCpu.Proofs.Machine.Ending

/-!
# Verbosity

The level and the dump decide which lines a session logs, and nothing else.
Two sessions of one program with one limit of steps, however much they log,
end behind the same steps with the same status, characters, lights and
messages.  These are told by the machine alone: the characters and the lights
are the accumulators at the steps that raise the interrupts for them, and the
status complains of a source that cannot be read or assembled, or of a fatal
fault in the last step.
-/

namespace PocketCpu

namespace Console

/-! ## Outputs -/

namespace Output

variable {view : Output → Option Byte} {number : Byte}

end Output

/-! ## Loading -/

/--
The machine that a program starts on, if its source can be read and has no
mistakes.
-/
def loaded? (contents : Except ReadFault Text) :
    Option (Machine standardSize) :=
  match contents with
  | .error _ => none
  | .ok source =>
    match (Assembly.ofSource standardSize source).result with
    | .error _ => none
    | .ok _ =>
      some ((Machine.initial standardSize).loadProgram source).machine.started

variable {contents : Except ReadFault Text} {machine : Machine standardSize}

namespace Session

end Session

/-! ## Performances -/

namespace Performance

/--
A performance tells of a program that executes a number of steps.

They are the steps of the machine that the program starts on, and there are
none if it does not start.
-/
structure Tells
    (performance : Performance)
    (options : Options)
    (contents : Except ReadFault Text)
    (steps : Nat) : Prop where
  /-- Every turn is a step, and this many lead to the end. -/
  ended :
    ∀ turns,
      ofContents? turns options contents =
        if turns < steps then none else some performance
  unloaded : loaded? contents = none → steps = 0
  executed :
    ∀ machine, loaded? contents = some machine →
      0 < steps ∧
        ∀ index < steps, (machine.afterSteps index).isRunning = true
  /--
  The status is zero exactly if the source is read and assembled, and the last
  step meets no fatal fault but the end of memory.
  -/
  status :
    performance.status = 0 ↔
      ∃ machine, loaded? contents = some machine ∧
        machine.lastFailure? steps = none
  /-- The characters are the accumulators at the interrupts for them. -/
  characters :
    performance.characters =
      (loaded? contents).elim [] (·.reported 1 steps)
  /-- The lights are the accumulators at the interrupts for them. -/
  lights :
    performance.lights = (loaded? contents).elim [] (·.reported 0 steps)

/-- Two performances differ in lines of the log only. -/
structure Alike (performance other : Performance) : Prop where
  status : performance.status = other.status
  characters : performance.characters = other.characters
  lights :
    performance.outputs.filterMap Output.lightsLine? =
      other.outputs.filterMap Output.lightsLine?
  messages : performance.messages = other.messages

variable {performance other : Performance}

theorem filterMap_lightsLine? (performance : Performance) :
    performance.outputs.filterMap Output.lightsLine? =
      performance.lights.map fun byte =>
        "[" ++ String.ofList (PocketCpu.lights byte) ++ "] " ++
          Text.hex 2 byte.toNat := by
  rw [lights, List.map_filterMap]
  rfl

/-- What is told with the same messages is alike. -/
theorem Tells.alike
    {options others : Options}
    {steps : Nat}
    (tells : performance.Tells options contents steps)
    (otherTells : other.Tells others contents steps)
    (messages : performance.messages = other.messages) :
    performance.Alike other := by
  constructor
  · rw [Performance.status, Performance.status, messages]
  · rw [tells.characters, otherTells.characters]
  · rw [filterMap_lightsLine?, filterMap_lightsLine?, tells.lights,
      otherTells.lights]
  · exact messages

section Steps

variable {options : Options} {shown : List Output} {steps : Nat}

end Steps

end Performance

/-! ## Command lines -/

end Console

end PocketCpu
