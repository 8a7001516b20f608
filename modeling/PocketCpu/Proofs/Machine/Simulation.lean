import PocketCpu.Machine.Load
import PocketCpu.Proofs.Assembly.Passes
import PocketCpu.Proofs.Machine.Step

/-!
# Machines that carry out programs

A program that lies at the start of memory is carried out instruction by
instruction: as long as no instruction stores into the program and every
jump leads to an instruction, each step begins at the address of one
instruction, carries it out, and ends at the address of another or at the
end of the program.  In particular this holds for assembled sources.
-/

namespace PocketCpu

namespace Program

/-- The program can be decoded from its bytes, and they fit into memory. -/
structure IsExecutable (program : Program) (size : Nat) : Prop where
  isEncodable : program.IsEncodable
  isReadable :
    ∀ instruction ∈ program, instruction.invertsConstant = false
  fits : program.bytes.length ≤ size
  small : size < 65536

variable {size : Nat}

/--
The program lies at the start of memory, and the program counter is at the
address of an instruction or at the end.
-/
structure IsLoaded (program : Program) (machine : Machine size) : Prop where
  code : machine.memory.slice 0 program.bytes.length = program.bytes
  pc :
    ∃ position ≤ program.length,
      machine.pc.toNat = program.address position

/--
If the program counter is at an instruction, then it does not store into the
program, and jumps only to instructions.
-/
def Confines (program : Program) (machine : Machine size) : Prop :=
  ∀ position, ∀ inside : position < program.length,
    machine.pc.toNat = program.address position →
    (∀ address ∈ machine.storeAddress? program[position],
        program.address program.length ≤ address) ∧
      ∀ target ∈ machine.jumpTarget? program[position],
        ∃ next < program.length, target.toNat = program.address next

instance (program : Program) (machine : Machine size) :
    Decidable (program.Confines machine) :=
  inferInstanceAs <| Decidable <|
    ∀ position, ∀ inside : position < program.length,
      machine.pc.toNat = program.address position →
      (∀ address ∈ machine.storeAddress? program[position],
          program.address program.length ≤ address) ∧
        ∀ target ∈ machine.jumpTarget? program[position],
          ∃ next < program.length, target.toNat = program.address next

/--
A step of the machine carries out the instruction at a position, and goes on
at the instruction that is jumped to or else behind it.
-/
structure StepAt
    (program : Program)
    (machine : Machine size)
    (position : Nat)
    (instruction : Instruction) : Prop where
  found : program[position]? = some instruction
  pc : machine.pc.toNat = program.address position
  stepMatches : machine.StepMatches (machine.perform instruction)
  code :
    ∀ trap, machine.step.failure = some trap →
      trap.fault.concernsCode = false
  jump :
    ∀ target, machine.jumpTarget? instruction = some target →
      ∃ next < program.length,
        target.toNat = program.address next ∧
          machine.step.machine.pc.toNat = program.address next
  next :
    machine.jumpTarget? instruction = none →
      machine.step.machine.pc.toNat = program.address (position + 1)

variable {program : Program} {machine : Machine size}

/-! ## One step -/

/-- The bytes of an instruction are found at its address in memory. -/
theorem IsLoaded.slice
    (loaded : program.IsLoaded machine)
    (encodable : program.IsEncodable)
    {position : Nat}
    {instruction : Instruction}
    (found : program[position]? = some instruction) :
    machine.memory.slice (program.address position) instruction.size =
      instruction.bytes := by
  have code := loaded.code
  have bound := address_add_size_le found
  -- Both slices are pieces of the bytes of memory, one inside of the other.
  rw [Memory.slice_eq_take_drop, List.drop_zero, encodable.length_bytes]
    at code
  rw [← encodable.take_drop_bytes found, ← code, List.drop_take,
    List.take_take, Memory.slice_eq_take_drop]
  congr 1
  omega

/-- The machine is at an instruction until it reaches the end. -/
theorem IsLoaded.exists_found
    (loaded : program.IsLoaded machine)
    (goesOn : machine.pc.toNat ≠ program.address program.length) :
    ∃ position instruction,
      program[position]? = some instruction ∧
        machine.pc.toNat = program.address position := by
  obtain ⟨position, bound, pc⟩ := loaded.pc
  have inside : position < program.length := by
    apply Nat.lt_of_le_of_ne bound
    rintro rfl
    exact goesOn pc
  exact ⟨position, program[position], List.getElem?_eq_getElem inside, pc⟩

/-- One step carries out the instruction at the program counter. -/
theorem IsLoaded.stepAt
    (loaded : program.IsLoaded machine)
    (executable : program.IsExecutable size)
    (confined : program.Confines machine)
    {position : Nat}
    {instruction : Instruction}
    (found : program[position]? = some instruction)
    (pc : machine.pc.toNat = program.address position) :
    program.StepAt machine position instruction := by
  have member := List.mem_of_getElem? found
  have present := loaded.slice executable.isEncodable found
  have bound := address_add_size_le found
  have fits := executable.fits
  have small := executable.small
  rw [executable.isEncodable.length_bytes] at fits
  rw [← pc] at present bound
  obtain ⟨bytes, encoded⟩ := executable.isEncodable instruction member
  rw [Instruction.bytes_of_encode? encoded] at present
  obtain ⟨stepMatches, after⟩ :=
    Machine.step_of_encode? encoded
      (executable.isReadable instruction member) present
      (Nat.le_trans bound fits) small
  obtain ⟨inside, rfl⟩ := List.getElem?_eq_some_iff.1 found
  refine ⟨found, pc, stepMatches, ?_, ?_, ?_⟩
  · intro trap failed
    rw [stepMatches.failure] at failed
    obtain ⟨fault, faulty, rfl⟩ := Option.map_eq_some_iff.1 failed
    exact (Machine.drops_perform _ fault faulty).1
  · intro target taken
    obtain ⟨next, bounded, reached⟩ :=
      (confined position inside pc).2 target taken
    refine ⟨next, bounded, reached, ?_⟩
    rw [after, taken, ← reached]
    exact UInt8.toNat_toUInt16 target
  · intro goesOn
    rw [after, goesOn, address_succ found, ← pc]
    exact UInt16.toNat_ofNat_of_lt' (by rw [UInt16.size]; omega)

/-- A step leaves the program in place and goes on inside of it. -/
theorem StepAt.isLoaded
    {position : Nat}
    {instruction : Instruction}
    (stepAt : program.StepAt machine position instruction)
    (encodable : program.IsEncodable)
    (loaded : program.IsLoaded machine)
    (confined : program.Confines machine) :
    program.IsLoaded machine.step.machine := by
  obtain ⟨inside, rfl⟩ := List.getElem?_eq_some_iff.1 stepAt.found
  constructor
  · have kept :
        machine.step.machine.memory.slice 0 program.bytes.length =
          machine.memory.slice 0 program.bytes.length := by
      -- The one byte that may change lies behind the program.
      apply Memory.slice_congr
      intro index _ below
      rw [Nat.zero_add, encodable.length_bytes] at below
      rw [stepAt.stepMatches.memory]
      apply Machine.get?_perform
      intro stored
      have bound :=
        (confined position inside stepAt.pc).1 index stored
      omega
    rw [kept, loaded.code]
  · cases taken : machine.jumpTarget? program[position] with
    | some target =>
        obtain ⟨next, bounded, _, reached⟩ := stepAt.jump target taken
        exact ⟨next, Nat.le_of_lt bounded, reached⟩
    | none => exact ⟨position + 1, inside, stepAt.next taken⟩

/-! ## Runs of any length -/

/-- A confined run never leaves the program, nor changes it. -/
theorem IsLoaded.afterSteps
    (loaded : program.IsLoaded machine)
    (executable : program.IsExecutable size)
    {steps : Nat}
    (confined :
      ∀ index < steps,
        (machine.afterSteps index).pc.toNat ≠
            program.address program.length ∧
          program.Confines (machine.afterSteps index)) :
    program.IsLoaded (machine.afterSteps steps) := by
  induction steps with
  | zero => exact loaded
  | succ steps inductionHypothesis =>
      have before : program.IsLoaded (machine.afterSteps steps) :=
        inductionHypothesis fun index inside =>
          confined index (Nat.lt_succ_of_lt inside)
      obtain ⟨goesOn, here⟩ := confined steps (Nat.lt_succ_self steps)
      obtain ⟨position, instruction, found, pc⟩ :=
        before.exists_found goesOn
      exact (before.stepAt executable here found pc).isLoaded
        executable.isEncodable before here

/-- Every step of a confined run carries out an instruction of the program. -/
theorem IsLoaded.exists_stepAt
    (loaded : program.IsLoaded machine)
    (executable : program.IsExecutable size)
    {steps : Nat}
    (confined :
      ∀ index < steps,
        (machine.afterSteps index).pc.toNat ≠
            program.address program.length ∧
          program.Confines (machine.afterSteps index))
    {index : Nat}
    (inside : index < steps) :
    ∃ position instruction,
      program.StepAt (machine.afterSteps index) position instruction := by
  have before : program.IsLoaded (machine.afterSteps index) :=
    loaded.afterSteps executable fun earlier below =>
      confined earlier (Nat.lt_trans below inside)
  obtain ⟨goesOn, here⟩ := confined index inside
  obtain ⟨position, instruction, found, pc⟩ := before.exists_found goesOn
  exact ⟨position, instruction, before.stepAt executable here found pc⟩

end Program

/-! ## Assembled sources -/

namespace Workspace

variable {size : Nat}

/--
The machine carries out what was assembled, from any registers and flags
and for any number of steps.
-/
theorem carriesOut_of_assemble
    {workspace : Workspace size}
    {source : Text}
    {count : Nat}
    (small : size < 65536)
    (assembled : (workspace.assemble source).2 = .ok count) :
    ∃ program,
      Program.ofLines? (workspace.assemble source).1.labels
            (SourceLine.ofSource source) =
          .ok program ∧
        program.address program.length = count ∧
        ((∀ instruction ∈ program, instruction.invertsConstant = false) →
          ∀ machine : Machine size,
            machine.memory = (workspace.assemble source).1.memory →
            machine.pc = 0 →
            ∀ steps,
              (∀ index < steps,
                (machine.afterSteps index).pc.toNat ≠ count ∧
                  program.Confines (machine.afterSteps index)) →
              ∀ index < steps, ∃ position instruction,
                program.StepAt (machine.afterSteps index)
                  position instruction) := by
  obtain ⟨sound, rfl⟩ := assemble_eq_ok_iff.1 assembled
  obtain ⟨program, read, encodable, bytes⟩ := sound.exists_program
  have fits := sound.end_le (Nat.zero_le size)
  have length := sound.length_bytes
  rw [Nat.zero_add] at fits
  rw [← bytes] at length
  have ends := encodable.length_bytes.symm.trans length
  rw [← Assembly.labels_ofSource size, ← labels_assemble workspace] at read
  refine ⟨program, read, ends, ?_⟩
  intro isReadable machine memory pc steps confined index inside
  have executable : program.IsExecutable size :=
    ⟨encodable, isReadable, Nat.le_trans (Nat.le_of_eq length) fits, small⟩
  have loaded : program.IsLoaded machine := by
    constructor
    · rw [memory, assemble_of_ok assembled, ← bytes,
        Memory.slice_eq_take_drop, List.drop_zero,
        Memory.toList_write_zero executable.fits, List.take_left]
    · exact ⟨0, Nat.zero_le _, by rw [pc, Program.address_zero]; rfl⟩
  rw [← ends] at confined
  exact loaded.exists_stepAt executable confined inside

/-- A loop that stores behind itself and does not take its first jump. -/
theorem carriesOut_loop :
    ∃ program,
      Program.ofLines?
            ((ofMemory (.zero 16)).assemble
              "a: MOV [F], AX\nJZ a\nJMP a".toList).1.labels
            (SourceLine.ofSource "a: MOV [F], AX\nJZ a\nJMP a".toList) =
          .ok program ∧
        ∀ index < 4, ∃ position instruction,
          program.StepAt
            (((Machine.initial 16).loadProgram
              "a: MOV [F], AX\nJZ a\nJMP a".toList).machine.afterSteps
                index)
            position instruction := by
  obtain ⟨program, read, _, carriesOut⟩ :=
    carriesOut_of_assemble
      (by decide : 16 < 65536)
      (rfl :
        ((ofMemory (.zero 16)).assemble
          "a: MOV [F], AX\nJZ a\nJMP a".toList).2 = .ok 10)
  obtain rfl :
      program =
        [.move (.memory 0xf) (.register ⟨.a, .full⟩),
          .jump .zero (.immediate 0), .jump .always (.immediate 0)] :=
    Except.ok.inj (read.symm.trans rfl)
  exact ⟨_, read, carriesOut (by decide) _ rfl rfl 4 (by decide +kernel)⟩

end Workspace

end PocketCpu
