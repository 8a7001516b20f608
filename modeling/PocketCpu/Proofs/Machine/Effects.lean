import PocketCpu.Proofs.Machine.StepCases

/-!
# The effects of instructions

Beside memory, instructions change little.  No more than one register is
written.  Flags change by arithmetic and by a choice of the width, the switch
by a halt and by a fatal fault, and only a raised interrupt is noticed by what
is attached to the machine.
-/

namespace PocketCpu

/-- How flags may change: not at all, by arithmetic or by a choice of width. -/
inductive Flags.Follow (flags : Flags) : Flags → Prop where
  | same : Follow flags flags
  | observe (result : Int32) : Follow flags (flags.observe result)
  | selectWidth (value : Byte) : Follow flags (flags.selectWidth value)

/-- How registers may change: not at all, or by a write to one of them. -/
inductive RegisterFile.Follow (file : RegisterFile) : RegisterFile → Prop where
  | same : Follow file file
  | write (register : Register) (value : Byte) :
      Follow file (file.write register value)

namespace Machine

variable {size : Nat} {machine written : Machine size}
variable {target source : Operand}

/-! ## Updates -/

/-- Registers and flags change as they may. -/
structure Alters (machine written : Machine size) : Prop where
  registers : machine.registers.Follow written.registers
  flags : machine.flags.Follow written.flags

/-- Beside memory, an update changes no more than a register and the flags. -/
structure UpdatesTo (machine written : Machine size) : Prop where
  alters : machine.Alters written
  isRunning : written.isRunning = machine.isRunning

theorem updatesTo_of_store
    {opcode : Opcode}
    {value : Byte}
    (stored : machine.store opcode target value = .ok written) :
    machine.UpdatesTo written := by
  cases target with
  | register chosen =>
      cases stored
      exact ⟨⟨.write chosen value, .same⟩, rfl⟩
  | immediate _ => cases stored
  | memory address =>
      rw [store] at stored
      split at stored
      · cases stored
        exact ⟨⟨.same, .same⟩, rfl⟩
      · cases stored

theorem updatesTo_of_move
    (moved : machine.move target source = .ok written) :
    machine.UpdatesTo written := by
  obtain ⟨value, stored⟩ := exists_store_of_move moved
  exact updatesTo_of_store stored

theorem updatesTo_of_compute
    {operation : BinaryOp}
    (computed : machine.compute operation target source = .ok written) :
    machine.UpdatesTo written := by
  obtain ⟨stored, result, rfl, keeps, compares⟩ :=
    exists_store_of_compute computed
  cases writesBack : operation.writesBack with
  | true =>
      obtain ⟨value, isStored⟩ := keeps writesBack
      obtain ⟨⟨registers, _⟩, isRunning⟩ := updatesTo_of_store isStored
      exact ⟨⟨registers, .observe result⟩, isRunning⟩
  | false =>
      rw [compares writesBack]
      exact ⟨⟨.same, .observe result⟩, rfl⟩

theorem updatesTo_of_invert
    (inverted : machine.invert target = .ok written) :
    machine.UpdatesTo written := by
  obtain ⟨stored, value, result, isStored, rfl⟩ :=
    exists_store_of_invert inverted
  obtain ⟨⟨registers, _⟩, isRunning⟩ := updatesTo_of_store isStored
  exact ⟨⟨registers, .observe result⟩, isRunning⟩

/-- What an update does that succeeds. -/
theorem updatesTo_ofUpdate
    {Reason : Type}
    {update : Except Reason (Machine size)}
    (updates :
      ∀ written, update = .ok written → machine.UpdatesTo written) :
    machine.UpdatesTo (Outcome.ofUpdate machine update).machine := by
  cases update with
  | error _ => exact ⟨⟨.same, .same⟩, rfl⟩
  | ok written => exact updates written rfl

/-! ## Instructions -/

/--
An instruction writes to one register at most, and changes flags by
arithmetic or by a choice of the width.
-/
theorem alters_perform (instruction : Instruction) :
    machine.Alters (machine.perform instruction).machine := by
  cases instruction with
  | nop => exact ⟨.same, .same⟩
  | halt => exact ⟨.same, .same⟩
  | selectWidth value => exact ⟨.same, .selectWidth value⟩
  | interrupt number =>
      rw [perform]
      cases machine.load number with
      | error _ => exact ⟨.same, .same⟩
      | ok value =>
          simp only [raise]
          split <;> exact ⟨.same, .same⟩
  | move target source =>
      exact (updatesTo_ofUpdate fun _ => updatesTo_of_move).alters
  | compute operation target source =>
      exact (updatesTo_ofUpdate fun _ => updatesTo_of_compute).alters
  | invert operand =>
      exact (updatesTo_ofUpdate fun _ => updatesTo_of_invert).alters
  | jump condition target =>
      rw [perform]
      split
      · rw [jump]
        split
        · exact ⟨.same, .same⟩
        · split <;> exact ⟨.same, .same⟩
      · exact ⟨.same, .same⟩

/-- An instruction that succeeds only stops the machine if it halts. -/
theorem isRunning_perform
    {instruction : Instruction}
    (succeeded : (machine.perform instruction).failure = none)
    (goesOn : instruction ≠ .halt) :
    (machine.perform instruction).machine.isRunning =
      machine.isRunning := by
  cases instruction with
  | nop => rfl
  | halt => exact absurd rfl goesOn
  | selectWidth value => rfl
  | interrupt number =>
      rw [perform]
      cases machine.load number with
      | error _ => rfl
      | ok value =>
          simp only [raise]
          split <;> rfl
  | move target source =>
      exact (updatesTo_ofUpdate fun _ => updatesTo_of_move).isRunning
  | compute operation target source =>
      exact (updatesTo_ofUpdate fun _ => updatesTo_of_compute).isRunning
  | invert operand =>
      exact (updatesTo_ofUpdate fun _ => updatesTo_of_invert).isRunning
  | jump condition target =>
      rw [perform] at succeeded ⊢
      split
      · next permitted =>
          rw [if_pos permitted, jump] at succeeded
          rw [jump]
          split
          · rfl
          · next address loaded =>
              simp only [loaded] at succeeded
              split
              · rfl
              · next outside =>
                  rw [if_neg outside] at succeeded
                  cases succeeded
      · rfl

/-- Only a jump that is taken moves the program counter. -/
theorem pc_perform (machine : Machine size) (instruction : Instruction) :
    (machine.perform instruction).machine.pc =
      (machine.jumpTarget? instruction).elim machine.pc
        UInt8.toUInt16 := by
  have redirected :=
    machine.perform_redirect machine.pc machine.fetched instruction
  have same : machine.redirect machine.pc machine.fetched = machine := rfl
  rw [same] at redirected
  rw [redirected]
  rfl

/-- A jump that is taken leads to an address inside of memory. -/
theorem lt_of_jumpTarget?
    {instruction : Instruction}
    {address : Byte}
    (taken : machine.jumpTarget? instruction = some address) :
    address.toNat < size := by
  cases instruction with
  | jump condition target =>
      rw [jumpTarget?] at taken
      split at taken
      · split at taken
        · split at taken
          · next inside =>
              cases taken
              exact inside
          · cases taken
        · cases taken
      · cases taken
  | _ => cases taken

/-! ## Interrupts -/

/-- The number of the interrupt that an instruction raises, if it does. -/
def interruptNumber? (machine : Machine size) :
    Instruction → Option Byte
  | .interrupt operand =>
    match machine.load operand with
    | .ok number => if number = 0 ∨ number = 1 then some number else none
    | .error _ => none
  | _ => none

theorem interruptNumber?_eq_some_iff
    {instruction : Instruction}
    {number : Byte} :
    machine.interruptNumber? instruction = some number ↔
      ∃ operand, instruction = .interrupt operand ∧
        machine.load operand = .ok number ∧
        (number = 0 ∨ number = 1) := by
  cases instruction with
  | interrupt operand =>
      rw [interruptNumber?]
      cases loaded : machine.load operand with
      | error _ => simp [loaded]
      | ok value =>
          by_cases known : value = 0 ∨ value = 1
          · simp only [if_pos known, Option.some.injEq,
              Instruction.interrupt.injEq, exists_eq_left', loaded,
              Except.ok.injEq]
            constructor
            · rintro rfl
              exact ⟨rfl, known⟩
            · exact And.left
          · simp only [if_neg known, Instruction.interrupt.injEq,
              exists_eq_left', loaded, Except.ok.injEq]
            constructor
            · nofun
            · rintro ⟨rfl, meant⟩
              exact absurd meant known
  | _ =>
      constructor
      · nofun
      · rintro ⟨_, same, _⟩
        cases same

theorem notifications_ofUpdate
    {Reason : Type}
    (update : Except Reason (Machine size)) :
    (Outcome.ofUpdate machine update).notifications = [] := by
  cases update <;> rfl

/-- What is attached to the machine is only told of interrupts. -/
theorem notifications_perform (instruction : Instruction) :
    (machine.perform instruction).notifications =
      (machine.interruptNumber? instruction).toList.map fun number =>
        .interrupt number machine.registers.ax := by
  cases instruction with
  | nop => rfl
  | halt => rfl
  | selectWidth value => rfl
  | interrupt operand =>
      rw [perform, interruptNumber?]
      cases machine.load operand with
      | error _ => rfl
      | ok value =>
          by_cases known : value = 0 ∨ value = 1
          · simp only [raise, if_pos known]
            rfl
          · simp only [raise, if_neg known]
            rfl
  | move target source => exact notifications_ofUpdate _
  | compute operation target source => exact notifications_ofUpdate _
  | invert operand => exact notifications_ofUpdate _
  | jump condition target =>
      rw [perform]
      split
      · rw [jump]
        split
        · rfl
        · split <;> rfl
      · rfl

/-- An instruction that raises an interrupt succeeds. -/
theorem interruptNumber?_of_failed
    {instruction : Instruction}
    {fault : Fault}
    (failed : (machine.perform instruction).failure = some fault) :
    machine.interruptNumber? instruction = none := by
  cases raises : machine.interruptNumber? instruction with
  | none => rfl
  | some number =>
      obtain ⟨operand, rfl, loaded, known⟩ :=
        interruptNumber?_eq_some_iff.1 raises
      rw [perform, loaded] at failed
      simp only [raise, if_pos known] at failed
      cases failed

end Machine

end PocketCpu
