import PocketCpu.Proofs.Machine.Atomicity
import PocketCpu.Proofs.Register.Writes

/-!
# What a step leaves alone

A step changes only what the instruction at the program counter names.  A
byte or a register changes only if it is the target of a move or of
arithmetic, and then nothing else of both does.  Arithmetic alone changes the
summary of the flags, a choice of the width alone the width, and no
instruction enables interrupts or switches the machine on.
-/

namespace PocketCpu

/-- Whether an instruction leaves a summary of its result in the flags. -/
def Instruction.isArithmetic : Instruction → Bool
  | .compute _ _ _ => true
  | .invert _ => true
  | _ => false

/-! ## Flags -/

namespace Flags

/-- Flags change only as an instruction makes them, if there is one. -/
structure ChangesOnly
    (flags followed : Flags)
    (instruction? : Option Instruction) : Prop where
  summary :
    (∀ instruction, instruction? = some instruction →
        instruction.isArithmetic = false) →
      followed.carry = flags.carry ∧ followed.zero = flags.zero ∧
        followed.sign = flags.sign ∧ followed.overflow = flags.overflow ∧
        followed.parity = flags.parity
  width :
    (∀ value, instruction? ≠ some (.selectWidth value)) →
      followed.fourBit = flags.fourBit
  interrupt : followed.interrupt = flags.interrupt

variable {flags : Flags} {instruction? : Option Instruction}

theorem ChangesOnly.self : flags.ChangesOnly flags instruction? :=
  ⟨fun _ => ⟨rfl, rfl, rfl, rfl, rfl⟩, fun _ => rfl, rfl⟩

theorem ChangesOnly.observe
    {instruction : Instruction}
    (result : Int32)
    (arithmetic : instruction.isArithmetic = true) :
    flags.ChangesOnly (flags.observe result) (some instruction) := by
  refine ⟨fun plain => ?_, fun _ => rfl, rfl⟩
  have none := plain instruction rfl
  rw [arithmetic] at none
  cases none

theorem ChangesOnly.selectWidth (value : Byte) :
    flags.ChangesOnly (flags.selectWidth value)
      (some (.selectWidth value)) :=
  ⟨fun _ => ⟨rfl, rfl, rfl, rfl, rfl⟩, fun other => absurd rfl (other value),
    rfl⟩

end Flags

namespace Machine

variable {size : Nat} {machine stored written : Machine size}
variable {opcode : Opcode} {target source : Operand} {value : Byte}
variable {target? : Option Operand}

/-! ## Stores -/

/-- Registers and memory change only at a target, if there is one. -/
structure StoresOnly
    (machine written : Machine size)
    (target? : Option Operand) : Prop where
  memory :
    ∀ address,
      written.memory.get? address ≠ machine.memory.get? address →
      ∃ cell, target? = some (.memory cell) ∧ cell.toNat = address
  /-- A register names the bank of a half, or both banks of a pair. -/
  registers :
    ∀ cell : Cell,
      written.registers.bank cell ≠ machine.registers.bank cell →
      ∃ register,
        target? = some (.register register) ∧ register.Names cell
  either :
    written.registers = machine.registers ∨ written.memory = machine.memory

theorem StoresOnly.of_eq
    (registers : written.registers = machine.registers)
    (memory : written.memory = machine.memory) :
    machine.StoresOnly written target? := by
  refine ⟨?_, ?_, Or.inl registers⟩
  · intro address changed
    exact absurd (by rw [memory]) changed
  · intro cell changed
    exact absurd (by rw [registers]) changed

theorem storesOnly_of_store
    (isStored : machine.store opcode target value = .ok stored)
    (registers : written.registers = stored.registers)
    (memory : written.memory = stored.memory) :
    machine.StoresOnly written (some target) := by
  cases target with
  | immediate _ => cases isStored
  | register chosen =>
      cases isStored
      refine ⟨?_, ?_, Or.inr memory⟩
      · intro address changed
        exact absurd (by rw [memory]) changed
      · intro cell changed
        refine ⟨chosen, rfl, Classical.byContradiction fun other => ?_⟩
        apply changed
        rw [registers]
        exact RegisterFile.bank_write_of_not_names value other
  | memory cell =>
      rw [store] at isStored
      split at isStored
      · cases isStored
        refine ⟨?_, ?_, Or.inl registers⟩
        · intro address changed
          refine ⟨cell, rfl, Classical.byContradiction fun other => ?_⟩
          apply changed
          rw [memory]
          exact (Memory.get?_set ..).trans (if_neg other)
        · intro _ changed
          exact absurd (by rw [registers]) changed
      · cases isStored

/-! ## Instructions -/

/--
Apart from the program counter and the fetched bytes, a machine has changed
in nothing but what an instruction names, and in nothing if there is none.
-/
structure ChangesOnly
    (machine written : Machine size)
    (instruction? : Option Instruction) : Prop where
  stores :
    machine.StoresOnly written (instruction?.bind Instruction.target?)
  flags : machine.flags.ChangesOnly written.flags instruction?

theorem ChangesOnly.of_eq
    {instruction? : Option Instruction}
    (registers : written.registers = machine.registers)
    (memory : written.memory = machine.memory)
    (flags : written.flags = machine.flags) :
    machine.ChangesOnly written instruction? := by
  refine ⟨.of_eq registers memory, ?_⟩
  rw [flags]
  exact .self

theorem changesOnly_ofUpdate
    {Reason : Type}
    {instruction? : Option Instruction}
    {update : Except Reason (Machine size)}
    (changes :
      ∀ written, update = .ok written →
        machine.ChangesOnly written instruction?) :
    machine.ChangesOnly (Outcome.ofUpdate machine update).machine
      instruction? := by
  cases update with
  | error _ => exact .of_eq rfl rfl rfl
  | ok written => exact changes written rfl

theorem changesOnly_perform (instruction : Instruction) :
    machine.ChangesOnly (machine.perform instruction).machine
      (some instruction) := by
  cases instruction with
  | nop => exact .of_eq rfl rfl rfl
  | halt => exact .of_eq rfl rfl rfl
  | selectWidth value => exact ⟨.of_eq rfl rfl, .selectWidth value⟩
  | interrupt number =>
      rw [perform]
      cases machine.load number with
      | error _ => exact .of_eq rfl rfl rfl
      | ok value =>
          simp only [raise]
          split <;> exact .of_eq rfl rfl rfl
  | move target source =>
      refine changesOnly_ofUpdate fun written moved => ?_
      obtain ⟨value, isStored⟩ := exists_store_of_move moved
      refine ⟨storesOnly_of_store isStored rfl rfl, ?_⟩
      obtain ⟨registers, memory, rfl⟩ := exists_eq_of_store isStored
      exact .self
  | compute operation target source =>
      refine changesOnly_ofUpdate fun written computed => ?_
      obtain ⟨stored, result, rfl, keeps, compares⟩ :=
        exists_store_of_compute computed
      refine ⟨?_, .observe result rfl⟩
      cases writesBack : operation.writesBack with
      | true =>
          obtain ⟨value, isStored⟩ := keeps writesBack
          rw [Option.bind_some, Instruction.target?, if_pos writesBack]
          exact storesOnly_of_store isStored rfl rfl
      | false =>
          rw [compares writesBack]
          exact .of_eq rfl rfl
  | invert operand =>
      refine changesOnly_ofUpdate fun written inverted => ?_
      obtain ⟨stored, value, result, isStored, rfl⟩ :=
        exists_store_of_invert inverted
      exact ⟨storesOnly_of_store isStored rfl rfl, .observe result rfl⟩
  | jump condition target =>
      rw [perform]
      split
      · rw [jump]
        split
        · exact .of_eq rfl rfl rfl
        · split <;> exact .of_eq rfl rfl rfl
      · exact .of_eq rfl rfl rfl

/-- An instruction does not switch the machine on. -/
theorem isRunning_perform_of_isOff
    (machine : Machine size)
    (isOff : machine.isRunning = false)
    (instruction : Instruction) :
    (machine.perform instruction).machine.isRunning = false := by
  cases failed : (machine.perform instruction).failure with
  | some fault =>
      rw [(drops_perform instruction fault failed).2, dropped_eq, isOff]
      rfl
  | none =>
      by_cases halts : instruction = .halt
      · rw [halts]
        rfl
      · rw [isRunning_perform failed halts, isOff]

/-! ## Steps -/

/-- What a step carries out changes what the current instruction names. -/
theorem CarriesOut.changesOnly
    {outcome : Outcome size Fault}
    (carriesOut : machine.CarriesOut outcome) :
    machine.ChangesOnly outcome.machine machine.current.toOption ∧
      (machine.isRunning = false → outcome.machine.isRunning = false) := by
  cases carriesOut with
  | ended _ => exact ⟨.of_eq rfl rfl rfl, id⟩
  | cut _ _ => exact ⟨.of_eq rfl rfl rfl, id⟩
  | refused _ _ _ _ => exact ⟨.of_eq rfl rfl rfl, id⟩
  | skipped _ _ _ => exact ⟨.of_eq rfl rfl rfl, id⟩
  | @performed instruction pc fetched decoded behind =>
      rw [decoded]
      obtain ⟨⟨memory, registers, either⟩, flags⟩ :=
        (changesOnly_perform instruction :
          (machine.redirect pc fetched).ChangesOnly _ _)
      exact ⟨⟨⟨memory, registers, either⟩, flags⟩,
        fun isOff =>
          isRunning_perform_of_isOff (machine.redirect pc fetched) isOff
            instruction⟩

/--
A step changes only what the instruction at the program counter names, at no
more than one address, and does not switch the machine on.
-/
theorem step_changesOnly
    (small : size < 65536)
    (machine : Machine size) :
    machine.ChangesOnly machine.step.machine machine.current.toOption ∧
      (∀ one other,
        machine.step.machine.memory.get? one ≠ machine.memory.get? one →
        machine.step.machine.memory.get? other ≠
          machine.memory.get? other →
        one = other) ∧
      (machine.isRunning = false →
        machine.step.machine.isRunning = false) := by
  obtain ⟨outcome, notices, carriesOut, executed⟩ :=
    exists_carriesOut small machine
  obtain ⟨changes, stays⟩ := carriesOut.changesOnly
  have stepped :
      machine.ChangesOnly machine.step.machine machine.current.toOption ∧
        (machine.isRunning = false →
          machine.step.machine.isRunning = false) := by
    cases failed : outcome.failure with
    | none =>
        rw [(step_of_done executed failed).2.1]
        exact ⟨changes, stays⟩
    | some fault =>
        obtain ⟨⟨memory, registers, either⟩, flags⟩ := changes
        rw [(step_of_failed executed failed).2.1, dropped_eq]
        refine ⟨⟨⟨memory, registers, either⟩, flags⟩, fun isOff => ?_⟩
        rw [stays isOff]
        rfl
  refine ⟨stepped.1, ?_, stepped.2⟩
  intro one other oneChanged otherChanged
  obtain ⟨cell, isTarget, rfl⟩ := stepped.1.stores.memory one oneChanged
  obtain ⟨same, alsoTarget, rfl⟩ :=
    stepped.1.stores.memory other otherChanged
  rw [isTarget] at alsoTarget
  cases alsoTarget
  rfl

/-- A sum into a half changes this half, and a jump out of memory nothing. -/
theorem step_changesOnly_half :
    ((initial 8).loadProgram "ADD AL, #5".toList).machine.ChangesOnly
        ((initial 8).loadProgram "ADD AL, #5".toList).machine.step.machine
        (some (.compute .add (.register ⟨.a, .low⟩) (.immediate 5))) ∧
      ((initial 8).loadProgram "JMP #80".toList).machine.ChangesOnly
        ((initial 8).loadProgram "JMP #80".toList).machine.step.machine
        (some (.jump .always (.immediate 0x80))) :=
  ⟨(step_changesOnly (by decide) _).1, (step_changesOnly (by decide) _).1⟩

end Machine

end PocketCpu
