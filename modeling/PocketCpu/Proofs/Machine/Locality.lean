import PocketCpu.Machine.Load
import PocketCpu.Proofs.Machine.Frame
import PocketCpu.Proofs.Machine.Likeness

/-!
# Memory that is not touched does not matter

A step looks at the bytes of the instruction at the program counter and, if
that instruction is decoded, at the memory that its operands name.  It
changes memory nowhere else.  So machines that differ in a single byte do the
same as long as the first of them does not touch that byte, and the byte
stays what it was in each of them.  A jump that is not taken is not decoded:
it may name the byte without touching it.
-/

namespace PocketCpu

/-- What an instruction writes to is one of its operands. -/
theorem Instruction.mem_operands_of_target?
    {instruction : Instruction}
    {target : Operand}
    (isTarget : instruction.target? = some target) :
    target ∈ instruction.operands := by
  cases instruction with
  | move own source =>
      cases isTarget
      exact .head _
  | compute operation own source =>
      rw [target?] at isTarget
      split at isTarget
      · cases isTarget
        exact .head _
      · cases isTarget
  | invert operand =>
      cases isTarget
      exact .head _
  | _ => cases isTarget

/-- The instruction of a jump's opcode writes to nothing. -/
theorem Instruction.target?_eq_none_of_opcode
    {instruction : Instruction}
    {condition : Condition}
    (jumps : instruction.opcode = condition.opcode) :
    instruction.target? = none := by
  cases instruction with
  | move target source => cases condition <;> cases jumps
  | compute operation target source =>
      cases operation <;> cases condition <;> cases jumps
  | invert operand => cases condition <;> cases jumps
  | _ => rfl

/-- What is shown of a state, with one byte of memory cleared. -/
def Snapshot.withoutByte (address : Nat) (snapshot : Snapshot) : Snapshot :=
  { snapshot with memory := snapshot.memory.setIfInBounds address 0 }

namespace Machine

variable {size : Nat} {machine other : Machine size} {address : Nat}

/-! ## Touching a byte -/

/--
The next step looks at the byte at an address: it belongs to the instruction
at the program counter, or that instruction is decoded and names it.
-/
def Touches (machine : Machine size) (address : Nat) : Prop :=
  (∃ offset < Instruction.leadingSpan machine.ahead,
      machine.pc.toNat + offset = address) ∨
    ¬ machine.IsUntaken ∧
      ∃ instruction ∈ machine.current.toOption,
        ∃ operand ∈ instruction.operands, operand.address? = some address

instance (machine : Machine size) : Decidable machine.IsUntaken :=
  decidable_of_iff
    (∃ condition ∈ [Condition.always, .zero, .carry],
      machine.memory.get? machine.pc.toNat = some condition.opcode.code ∧
        machine.flags.permit condition = false)
    ⟨fun ⟨condition, _, untaken⟩ => ⟨condition, untaken⟩,
      fun ⟨condition, untaken⟩ =>
        ⟨condition, by cases condition <;> simp, untaken⟩⟩

instance (machine : Machine size) (address : Nat) :
    Decidable (machine.Touches address) :=
  inferInstanceAs (Decidable (_ ∨ _))

/-- The other machine differs from a machine in one byte at most. -/
def DiffersAt (address : Nat) (machine other : Machine size) : Prop :=
  ∃ byte,
    other = { machine with memory := machine.memory.set address byte }

/-- Memories that differ in one byte do so after a byte is set in both. -/
theorem exists_set_set
    (memory : Memory size)
    (address index : Nat)
    (old new : Byte) :
    ∃ byte,
      (memory.set address old).set index new =
        (memory.set index new).set address byte := by
  by_cases same : index = address
  · refine ⟨new, ?_⟩
    ext other
    simp only [Memory.get?_set, same]
    split <;> rfl
  · refine ⟨old, ?_⟩
    ext other
    simp only [Memory.get?_set]
    by_cases here : index = other
    · have elsewhere : address ≠ other := by omega
      simp only [if_pos here, if_neg elsewhere]
    · simp only [if_neg here]

/-- No instruction changes machines that differ in a byte in another way. -/
theorem isLikeness_differsAt (address : Nat) :
    IsLikeness (@DiffersAt size address) where
  pc := by
    rintro machine other ⟨byte, rfl⟩
    rfl
  fetched := by
    rintro machine other ⟨byte, rfl⟩
    rfl
  registers := by
    rintro machine other ⟨byte, rfl⟩
    rfl
  redirect := by
    rintro machine other ⟨byte, rfl⟩ pc fetched
    exact ⟨byte, rfl⟩
  stop := by
    rintro machine other ⟨byte, rfl⟩
    exact ⟨byte, rfl⟩
  write := by
    rintro machine other ⟨byte, rfl⟩ registers
    exact ⟨byte, rfl⟩
  set := by
    rintro machine other ⟨byte, rfl⟩ index new
    obtain ⟨again, same⟩ :=
      exists_set_set machine.memory address index byte new
    refine ⟨again, ?_⟩
    rw [same]
  observe := by
    rintro machine other written rewritten ⟨_, rfl⟩ ⟨byte, rfl⟩ result
    exact ⟨byte, rfl⟩
  selectWidth := by
    rintro machine other ⟨byte, rfl⟩ value
    exact ⟨byte, rfl⟩

theorem DiffersAt.snapshot_withoutByte
    (differs : machine.DiffersAt address other) :
    other.snapshot.withoutByte address =
      machine.snapshot.withoutByte address := by
  obtain ⟨byte, rfl⟩ := differs
  have cleared :
      (machine.memory.bytes.toArray.setIfInBounds address byte).setIfInBounds
          address 0 =
        machine.memory.bytes.toArray.setIfInBounds address 0 :=
    Array.setIfInBounds_setIfInBounds ..
  exact congrArg (Snapshot.mk _ _ · _ _) cleared

/-! ## Steps that do not touch a byte -/

theorem DiffersAt.get?_of_ne
    (differs : machine.DiffersAt address other)
    {index : Nat}
    (elsewhere : index ≠ address) :
    other.memory.get? index = machine.memory.get? index := by
  obtain ⟨byte, rfl⟩ := differs
  exact (Memory.get?_set ..).trans (if_neg (Ne.symm elsewhere))

/-- Machines agree on all that a step looks at if it leaves the byte alone. -/
theorem DiffersAt.agrees
    (differs : machine.DiffersAt address other)
    (untouched : ¬ machine.Touches address) :
    machine.Agrees other := by
  refine ⟨?_, ?_, ?_⟩
  · intro offset belongs
    refine differs.get?_of_ne fun here => untouched ?_
    exact Or.inl ⟨offset, belongs, here⟩
  · intro condition _
    obtain ⟨byte, rfl⟩ := differs
    rfl
  · intro taken instruction current operand member
    cases operand with
    | register _ =>
        obtain ⟨byte, rfl⟩ := differs
        rfl
    | immediate _ => rfl
    | memory cell =>
        rw [load, load, differs.get?_of_ne]
        intro here
        refine untouched (Or.inr ⟨taken, instruction, ?_, _, member, ?_⟩)
        · rw [current]
          rfl
        · rw [Operand.address?, here]

/-- Machines that agree on their code have the same instruction there. -/
theorem Agrees.current_eq
    (agrees : machine.Agrees other)
    (samePc : other.pc = machine.pc) :
    other.current = machine.current := by
  refine (Instruction.leading_congr ?_ ?_).1
  · rw [length_ahead, length_ahead, samePc]
  · intro offset belongs
    rw [← get?_of_ahead, ← get?_of_ahead, samePc]
    exact agrees.code offset belongs

/-- The first byte at the program counter is the current instruction's. -/
theorem get?_pc_of_current
    {instruction : Instruction}
    (current : machine.current = .ok instruction) :
    machine.memory.get? machine.pc.toNat =
      some instruction.opcode.code := by
  rw [Machine.current] at current
  rcases leading : machine.ahead with _ | ⟨opcode, _ | ⟨mode, operands⟩⟩
  · rw [leading] at current
    cases current
  · rw [leading] at current
    cases current
  · rw [leading, Instruction.leading] at current
    rw [get?_of_ahead_cons leading,
      (Instruction.isWritten_of_decode current).opcode]

/-- An untouched byte is no target, as a jump that is not taken has none. -/
theorem address?_target?_ne_of_not_touches
    (untouched : ¬ machine.Touches address)
    {instruction : Instruction}
    (current : machine.current = .ok instruction) :
    instruction.target?.bind Operand.address? ≠ some address := by
  intro isTarget
  obtain ⟨operand, target, here⟩ := Option.bind_eq_some_iff.1 isTarget
  refine untouched (Or.inr ⟨?_, instruction, ?_, operand,
    Instruction.mem_operands_of_target? target, here⟩)
  · rintro ⟨condition, first, -⟩
    rw [get?_pc_of_current current, Option.some.injEq] at first
    have jumps := congrArg Opcode.ofCode? first
    rw [Opcode.ofCode?_code, Opcode.ofCode?_code, Option.some.injEq] at jumps
    cases (Instruction.target?_eq_none_of_opcode jumps).symm.trans target
  · rw [current]
    rfl

/-- A step leaves a byte alone that the current instruction does not target. -/
theorem get?_step_of_address?_target?_ne
    (small : size < 65536)
    (elsewhere :
      ∀ instruction, machine.current = .ok instruction →
        instruction.target?.bind Operand.address? ≠ some address) :
    machine.step.machine.memory.get? address =
      machine.memory.get? address := by
  obtain ⟨⟨stores, _⟩, _⟩ := step_changesOnly small machine
  refine Classical.byContradiction fun changed => ?_
  obtain ⟨cell, target, here⟩ := stores.memory address changed
  cases current : machine.current with
  | error fault =>
      rw [current] at target
      cases target
  | ok instruction =>
      rw [current] at target
      have own : instruction.target? = some (.memory cell) := target
      refine elsewhere instruction current ?_
      rw [own, Option.bind_some, Operand.address?, here]

/--
A step that does not touch a byte is the same on a machine that differs
there, and leaves the byte of either machine alone.
-/
theorem DiffersAt.step
    (small : size < 65536)
    (differs : machine.DiffersAt address other)
    (untouched : ¬ machine.Touches address) :
    StepsAlike (DiffersAt address) (Snapshot.withoutByte address)
        machine other ∧
      machine.step.machine.memory.get? address =
        machine.memory.get? address ∧
      other.step.machine.memory.get? address =
        other.memory.get? address := by
  have likeness := @isLikeness_differsAt size address
  have agrees := differs.agrees untouched
  have current := agrees.current_eq (likeness.pc differs)
  refine ⟨?_, ?_, ?_⟩
  · exact stepsAlike_of_agrees likeness
      (fun _ _ differs => differs.snapshot_withoutByte) small differs agrees
  · exact get?_step_of_address?_target?_ne small fun _ =>
      address?_target?_ne_of_not_touches untouched
  · refine get?_step_of_address?_target?_ne small fun instruction here => ?_
    rw [current] at here
    exact address?_target?_ne_of_not_touches untouched here

/-! ## Runs -/

/--
Machines that differ in one byte do the same all along a run that does not
touch it: they fail alike, tell of the same interrupts and traps, show the
same apart from the byte, stay equal in everything else, and each of them
keeps its byte.
-/
theorem stepsAlike_of_untouched
    (small : size < 65536)
    (differs : machine.DiffersAt address other)
    (steps : Nat)
    (untouched :
      ∀ index < steps, ¬ (machine.afterSteps index).Touches address) :
    (∀ index ≤ steps,
        (machine.afterSteps index).DiffersAt address
            (other.afterSteps index) ∧
          (machine.afterSteps index).memory.get? address =
            machine.memory.get? address ∧
          (other.afterSteps index).memory.get? address =
            other.memory.get? address) ∧
      ∀ index < steps,
        StepsAlike (DiffersAt address) (Snapshot.withoutByte address)
            (machine.afterSteps index) (other.afterSteps index) ∧
          (other.afterSteps index).step.events.filter Event.isSignal =
            (machine.afterSteps index).step.events.filter
              Event.isSignal := by
  -- Each step needs the machines to differ as they did before it.
  have stays :
      ∀ index ≤ steps,
        (machine.afterSteps index).DiffersAt address
            (other.afterSteps index) ∧
          (machine.afterSteps index).memory.get? address =
            machine.memory.get? address ∧
          (other.afterSteps index).memory.get? address =
            other.memory.get? address := by
    intro index
    induction index with
    | zero => exact fun _ => ⟨differs, rfl, rfl⟩
    | succ index inductionHypothesis =>
        intro within
        obtain ⟨before, kept, keptAgain⟩ :=
          inductionHypothesis (Nat.le_of_lt within)
        obtain ⟨alike, stepped, steppedAgain⟩ :=
          before.step small (untouched index within)
        exact ⟨alike.after, stepped.trans kept,
          steppedAgain.trans keptAgain⟩
  refine ⟨stays, fun index inside => ?_⟩
  obtain ⟨alike, _⟩ :=
    (stays index (Nat.le_of_lt inside)).1.step small
      (untouched index inside)
  exact ⟨alike, Event.filter_isSignal_congr alike.events⟩

/--
A jump that is not taken names the last byte of memory, and the instructions
behind it write and read the byte in front of that one.
-/
theorem stepsAlike_of_untouched_jump :
    DiffersAt 15
        (((initial 16).loadProgram
            "JZ [F]\nMOV [E], #7\nSUB AL, [E]".toList).machine.afterSteps 3)
        (({ initial 16 with
            memory := (Memory.zero 16).set 15 0xaa
          }.loadProgram
            "JZ [F]\nMOV [E], #7\nSUB AL, [E]".toList
          ).machine.afterSteps 3) ∧
      (({ initial 16 with
          memory := (Memory.zero 16).set 15 0xaa
        }.loadProgram
          "JZ [F]\nMOV [E], #7\nSUB AL, [E]".toList
        ).machine.afterSteps 3).memory.get? 15 =
        some 0xaa := by
  obtain ⟨stays, _⟩ :=
    @stepsAlike_of_untouched 16
      ((initial 16).loadProgram
        "JZ [F]\nMOV [E], #7\nSUB AL, [E]".toList).machine
      ({ initial 16 with
          memory := (Memory.zero 16).set 15 0xaa
        }.loadProgram
          "JZ [F]\nMOV [E], #7\nSUB AL, [E]".toList).machine
      15 (by decide) ⟨0xaa, by decide⟩ 3 (by decide)
  obtain ⟨differ, _, kept⟩ := stays 3 (by decide)
  exact ⟨differ, kept⟩

end Machine

end PocketCpu
