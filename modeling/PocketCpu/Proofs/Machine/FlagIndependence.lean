import PocketCpu.Machine.Load
import PocketCpu.Proofs.Machine.Likeness

/-!
# Flags matter to conditional jumps only

Arithmetic writes flags and a choice of the width changes how it does so, but
nothing reads them except the condition of a jump.  So machines that differ
in their flags alone do the same as long as none of them fetches a jump with
a condition: they fail alike, raise the same interrupts and keep the same
registers and memory, whatever is computed, at either width.
-/

namespace PocketCpu

/-- What is shown of a state, with its flags cleared. -/
def Snapshot.withoutFlags (snapshot : Snapshot) : Snapshot :=
  { snapshot with flags := .initial }

namespace Machine

variable {size : Nat}

/-- The other machine differs from a machine in its flags at most. -/
def DiffersInFlags (machine other : Machine size) : Prop :=
  ∃ flags, other = { machine with flags }

/-- The opcode at the program counter is that of a jump with a condition. -/
def FetchesBranch (machine : Machine size) : Prop :=
  machine.memory.get? machine.pc.toNat = some Opcode.jz.code ∨
    machine.memory.get? machine.pc.toNat = some Opcode.jc.code

instance (machine : Machine size) : Decidable machine.FetchesBranch :=
  inferInstanceAs (Decidable (_ ∨ _))

/-- No instruction changes machines that differ in flags in another way. -/
theorem isLikeness_differsInFlags :
    IsLikeness (@DiffersInFlags size) where
  pc := by
    rintro machine other ⟨flags, rfl⟩
    rfl
  fetched := by
    rintro machine other ⟨flags, rfl⟩
    rfl
  registers := by
    rintro machine other ⟨flags, rfl⟩
    rfl
  redirect := by
    rintro machine other ⟨flags, rfl⟩ pc fetched
    exact ⟨flags, rfl⟩
  stop := by
    rintro machine other ⟨flags, rfl⟩
    exact ⟨flags, rfl⟩
  write := by
    rintro machine other ⟨flags, rfl⟩ registers
    exact ⟨flags, rfl⟩
  set := by
    rintro machine other ⟨flags, rfl⟩ address byte
    exact ⟨flags, rfl⟩
  observe := by
    rintro machine other written rewritten - ⟨flags, rfl⟩ result
    exact ⟨_, rfl⟩
  selectWidth := by
    rintro machine other ⟨flags, rfl⟩ value
    exact ⟨_, rfl⟩

/-- Without a conditional jump a step does not look at flags. -/
theorem agrees_of_differsInFlags
    {machine other : Machine size}
    (differs : machine.DiffersInFlags other)
    (branchless : ¬ machine.FetchesBranch) :
    machine.Agrees other := by
  obtain ⟨flags, rfl⟩ := differs
  refine ⟨fun _ _ => rfl, ?_, fun _ _ _ _ _ => rfl⟩
  intro condition first
  cases condition with
  | always => rfl
  | zero => exact absurd (.inl first) branchless
  | carry => exact absurd (.inr first) branchless

/--
Machines that differ in flags at most do so all along a run in which no jump
with a condition is fetched, and their steps fail alike and notify of the
same, apart from the flags.
-/
theorem stepsAlike_of_differsInFlags
    (small : size < 65536)
    {machine other : Machine size}
    (differs : machine.DiffersInFlags other)
    (steps : Nat)
    (branchless :
      ∀ index < steps, ¬ (machine.afterSteps index).FetchesBranch) :
    (∀ index ≤ steps,
        (machine.afterSteps index).DiffersInFlags
          (other.afterSteps index)) ∧
      ∀ index < steps,
        StepsAlike DiffersInFlags Snapshot.withoutFlags
          (machine.afterSteps index) (other.afterSteps index) := by
  refine stepsAlike_afterSteps isLikeness_differsInFlags ?_ small differs ?_
  · rintro _ _ ⟨flags, rfl⟩
    rfl
  · intro index inside twin alike
    exact agrees_of_differsInFlags alike (branchless index inside)

/--
A program that computes at both widths and raises an interrupt does the same
if it begins with all flags set but that of the width.
-/
theorem stepsAlike_both_widths :
    DiffersInFlags
        (((initial 16).loadProgram
            "ADD AL, #9\nMOV MOP, #1\nSUB AX, AL\nINT #0".toList
          ).machine.afterSteps 4)
        (({ initial 16 with
            flags := ⟨true, true, true, true, true, true, false⟩
          }.loadProgram
            "ADD AL, #9\nMOV MOP, #1\nSUB AX, AL\nINT #0".toList
          ).machine.afterSteps 4) ∧
      StepsAlike DiffersInFlags Snapshot.withoutFlags
        (((initial 16).loadProgram
            "ADD AL, #9\nMOV MOP, #1\nSUB AX, AL\nINT #0".toList
          ).machine.afterSteps 3)
        (({ initial 16 with
            flags := ⟨true, true, true, true, true, true, false⟩
          }.loadProgram
            "ADD AL, #9\nMOV MOP, #1\nSUB AX, AL\nINT #0".toList
          ).machine.afterSteps 3) := by
  obtain ⟨differ, alike⟩ :=
    @stepsAlike_of_differsInFlags 16 (by decide)
      ((initial 16).loadProgram
        "ADD AL, #9\nMOV MOP, #1\nSUB AX, AL\nINT #0".toList).machine _
      ⟨_, rfl⟩ 4 (by decide)
  exact ⟨differ 4 (by decide), alike 3 (by decide)⟩

end Machine

end PocketCpu
