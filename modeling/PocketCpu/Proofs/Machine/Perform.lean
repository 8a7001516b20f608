import PocketCpu.Machine.Perform
import PocketCpu.Proofs.Sequence

/-!
# What instructions depend on and what they change

An instruction reads registers, flags and memory, but neither the program
counter nor the bytes that were fetched: from another program counter it
does the same.  Only a jump that is taken moves the program counter, and
only an instruction that stores changes memory, at the one address that it
names.  An instruction that fails changes nothing, save that a fatal fault
stops the machine.
-/

namespace PocketCpu

/-! ## Faults of operands -/

namespace Fault

/-- Whether an operand is at fault, which is out of memory or a constant. -/
def concernsOperand : Fault → Bool
  | .outOfBounds _ => true
  | .immediateTarget _ => true
  | _ => false

/-- Whether an instruction could not be fetched or decoded. -/
def concernsCode : Fault → Bool
  | .unknownRegister _ => true
  | .unknownOpcode _ => true
  | .unknownMode _ _ => true
  | .endOfMemory => true
  | .truncated _ => true
  | _ => false

variable {fault : Fault}

theorem isFatal_of_concernsOperand
    (operand : fault.concernsOperand = true) :
    fault.isFatal = false := by
  cases fault with
  | outOfBounds _ => rfl
  | immediateTarget _ => rfl
  | _ => cases operand

theorem concernsCode_of_concernsOperand
    (operand : fault.concernsOperand = true) :
    fault.concernsCode = false := by
  cases fault with
  | outOfBounds _ => rfl
  | immediateTarget _ => rfl
  | _ => cases operand

end Fault

namespace Machine

variable {size : Nat} {machine written : Machine size}
variable {opcode : Opcode} {target source : Operand} {value : Byte}
variable {fault : Fault}

theorem concernsOperand_of_load
    (failed : machine.load source = .error fault) :
    fault.concernsOperand = true := by
  cases source with
  | register _ => cases failed
  | immediate _ => cases failed
  | memory address =>
      rw [load] at failed
      split at failed
      · cases failed
      · cases failed
        rfl

theorem concernsOperand_of_store
    (failed : machine.store opcode target value = .error fault) :
    fault.concernsOperand = true := by
  cases target with
  | register _ => cases failed
  | immediate _ =>
      cases failed
      rfl
  | memory address =>
      rw [store] at failed
      split at failed
      · cases failed
      · cases failed
        rfl

/-! ## Failures -/

theorem concernsOperand_of_move
    (failed : machine.move target source = .error fault) :
    fault.concernsOperand = true := by
  rw [move] at failed
  rcases bind_eq_error_iff.1 failed with loaded | ⟨value, _, stored⟩
  · exact concernsOperand_of_load loaded
  · exact concernsOperand_of_store stored

theorem concernsOperand_of_compute
    {operation : BinaryOp}
    (failed : machine.compute operation target source = .error fault) :
    fault.concernsOperand = true := by
  rw [compute] at failed
  rcases bind_eq_error_iff.1 failed with loaded | ⟨left, _, failed⟩
  · exact concernsOperand_of_load loaded
  rcases bind_eq_error_iff.1 failed with loaded | ⟨right, _, failed⟩
  · exact concernsOperand_of_load loaded
  dsimp only at failed
  split at failed
  · rcases bind_eq_error_iff.1 failed with stored | ⟨written, _, failed⟩
    · exact concernsOperand_of_store stored
    · cases failed
  · cases failed

theorem concernsOperand_of_invert
    (failed : machine.invert target = .error fault) :
    fault.concernsOperand = true := by
  rw [invert] at failed
  rcases bind_eq_error_iff.1 failed with loaded | ⟨value, _, failed⟩
  · exact concernsOperand_of_load loaded
  rcases bind_eq_error_iff.1 failed with stored | ⟨written, _, failed⟩
  · exact concernsOperand_of_store stored
  · cases failed

/-- What is left of a machine after it failed with a fault. -/
def dropped (machine : Machine size) (fault : Fault) : Machine size :=
  if fault.isFatal then machine.stop else machine

/--
If work on a machine fails, then not on the code, and the machine is dropped
as it was before.
-/
def Drops (machine : Machine size) (outcome : Outcome size Fault) : Prop :=
  ∀ fault, outcome.failure = some fault →
    fault.concernsCode = false ∧ outcome.machine = machine.dropped fault

variable {events : List Event}

theorem drops_done : machine.Drops (.done written events) := by
  intro fault failed
  cases failed

theorem drops_failed
    (operand : fault.concernsOperand = true) :
    machine.Drops (.failed machine fault events) := by
  intro reason failed
  cases failed
  refine ⟨Fault.concernsCode_of_concernsOperand operand, ?_⟩
  rw [dropped, Fault.isFatal_of_concernsOperand operand]
  rfl

theorem drops_ofUpdate
    {update : Except Fault (Machine size)}
    (operand :
      ∀ fault, update = .error fault → fault.concernsOperand = true) :
    machine.Drops (.ofUpdate machine update) := by
  cases update with
  | error reason => exact drops_failed (operand reason rfl)
  | ok written => exact drops_done

theorem drops_raise : machine.Drops (machine.raise value) := by
  intro fault failed
  by_cases known : value = 0 ∨ value = 1
  · rw [raise, if_pos known] at failed
    cases failed
  · rw [raise, if_neg known] at failed ⊢
    cases failed
    exact ⟨rfl, rfl⟩

theorem drops_jump : machine.Drops (machine.jump target) := by
  rw [jump]
  cases loaded : machine.load target with
  | error reason => exact drops_failed (concernsOperand_of_load loaded)
  | ok address =>
      intro fault failed
      by_cases inside : address.toNat < size
      · simp only [if_pos inside] at failed
        cases failed
      · simp only [if_neg inside] at failed ⊢
        cases failed
        exact ⟨rfl, rfl⟩

/--
A failed instruction leaves the machine alone, save that a fatal fault stops
it.
-/
theorem drops_perform (instruction : Instruction) :
    machine.Drops (machine.perform instruction) := by
  cases instruction with
  | nop => exact drops_done
  | halt => exact drops_done
  | selectWidth _ => exact drops_done
  | interrupt number =>
      rw [perform]
      cases loaded : machine.load number with
      | error reason => exact drops_failed (concernsOperand_of_load loaded)
      | ok value => exact drops_raise
  | move _ _ => exact drops_ofUpdate fun _ => concernsOperand_of_move
  | compute _ _ _ => exact drops_ofUpdate fun _ => concernsOperand_of_compute
  | invert _ => exact drops_ofUpdate fun _ => concernsOperand_of_invert
  | jump condition address =>
      rw [perform]
      split
      · exact drops_jump
      · exact drops_done

/-! ## Independence of the program counter -/

/-- The same machine with another program counter and other fetched bytes. -/
def redirect
    (machine : Machine size)
    (pc : Word)
    (fetched : InstructionRegister) : Machine size :=
  { machine with pc, fetched }

variable {pc : Word} {fetched : InstructionRegister}

@[simp]
theorem load_redirect :
    (machine.redirect pc fetched).load source = machine.load source :=
  rfl

theorem store_redirect :
    (machine.redirect pc fetched).store opcode target value =
      (machine.store opcode target value).map
        (redirect · pc fetched) := by
  cases target with
  | register _ => rfl
  | immediate _ => rfl
  | memory address =>
      rw [store, store]
      split <;> rfl

theorem move_redirect :
    (machine.redirect pc fetched).move target source =
      (machine.move target source).map (redirect · pc fetched) := by
  rw [move, move, load_redirect]
  cases machine.load source with
  | error _ => rfl
  | ok _ => exact store_redirect

theorem compute_redirect (operation : BinaryOp) :
    (machine.redirect pc fetched).compute operation target source =
      (machine.compute operation target source).map
        (redirect · pc fetched) := by
  rw [compute, compute, load_redirect, load_redirect]
  cases machine.load target with
  | error _ => rfl
  | ok left =>
      cases machine.load source with
      | error _ => rfl
      | ok right =>
          simp only [bind, Except.bind, store_redirect]
          cases operation.writesBack with
          | false => rfl
          | true =>
              rw [if_pos rfl, if_pos rfl]
              cases machine.store operation.opcode target _ <;> rfl

theorem invert_redirect :
    (machine.redirect pc fetched).invert target =
      (machine.invert target).map (redirect · pc fetched) := by
  rw [invert, invert, load_redirect]
  cases machine.load target with
  | error _ => rfl
  | ok value =>
      simp only [bind, Except.bind, store_redirect]
      cases machine.store .not target _ <;> rfl

/-- The address that an instruction jumps to, if it does. -/
def jumpTarget? (machine : Machine size) : Instruction → Option Byte
  | .jump condition target =>
    if machine.flags.permit condition then
      match machine.load target with
      | .ok address => if address.toNat < size then some address else none
      | .error _ => none
    else none
  | _ => none

end Machine

namespace Outcome

variable {size : Nat} {Reason : Type}

/-- The same outcome at another program counter. -/
def redirect
    (outcome : Outcome size Reason)
    (pc : Word)
    (fetched : InstructionRegister) : Outcome size Reason :=
  { outcome with machine := outcome.machine.redirect pc fetched }

theorem ofUpdate_redirect
    {machine : Machine size}
    {pc : Word}
    {fetched : InstructionRegister}
    (update : Except Reason (Machine size)) :
    ofUpdate (machine.redirect pc fetched)
        (update.map (Machine.redirect · pc fetched)) =
      (ofUpdate machine update).redirect pc fetched := by
  cases update <;> rfl

end Outcome

namespace Machine

variable {size : Nat} (machine : Machine size)
variable (pc : Word) (fetched : InstructionRegister)

/--
An instruction has the same outcome at another program counter, which only
a jump moves.
-/
theorem perform_redirect (instruction : Instruction) :
    (machine.redirect pc fetched).perform instruction =
      (machine.perform instruction).redirect
        ((machine.jumpTarget? instruction).elim pc UInt8.toUInt16)
        fetched := by
  cases instruction with
  | nop => rfl
  | halt => rfl
  | selectWidth _ => rfl
  | interrupt number =>
      rw [perform, perform, load_redirect]
      cases machine.load number with
      | error _ => rfl
      | ok value =>
          simp only [raise]
          split <;> rfl
  | move target source =>
      rw [perform, move_redirect, Outcome.ofUpdate_redirect]
      rfl
  | compute operation target source =>
      rw [perform, compute_redirect, Outcome.ofUpdate_redirect]
      rfl
  | invert operand =>
      rw [perform, invert_redirect, Outcome.ofUpdate_redirect]
      rfl
  | jump condition target =>
      rw [perform, perform, jumpTarget?]
      by_cases permitted : machine.flags.permit condition = true
      · have same :
            (machine.redirect pc fetched).flags.permit condition = true :=
          permitted
        rw [if_pos permitted, if_pos permitted, if_pos same, jump, jump,
          load_redirect]
        cases machine.load target with
        | error _ => rfl
        | ok address =>
            by_cases inside : address.toNat < size
            · simp only [if_pos inside]
              rfl
            · simp only [if_neg inside]
              rfl
      · have same :
            ¬ (machine.redirect pc fetched).flags.permit condition = true :=
          permitted
        rw [if_neg permitted, if_neg permitted, if_neg same]
        rfl

end Machine

/-! ## Stores -/

/-- The operand that an instruction writes its result to. -/
def Instruction.target? : Instruction → Option Operand
  | .move target _ => some target
  | .compute operation target _ =>
    if operation.writesBack then some target else none
  | .invert operand => some operand
  | _ => none

/-- The address of an operand in memory, if it has one. -/
def Operand.address? : Operand → Option Nat
  | .memory address => some address.toNat
  | _ => none

namespace Machine

variable {size : Nat} {machine written : Machine size}
variable {opcode : Opcode} {target source : Operand} {value : Byte}
variable {index : Nat}

/-- The address that an instruction stores to, if it does. -/
def storeAddress? (machine : Machine size) (instruction : Instruction) :
    Option Nat :=
  match (machine.perform instruction).failure with
  | none => instruction.target?.bind Operand.address?
  | some _ => none

theorem get?_of_store
    (stored : machine.store opcode target value = .ok written)
    (elsewhere : target.address? ≠ some index) :
    written.memory.get? index = machine.memory.get? index := by
  cases target with
  | register _ =>
      cases stored
      rfl
  | immediate _ => cases stored
  | memory address =>
      rw [store] at stored
      split at stored
      · cases stored
        have different : address.toNat ≠ index :=
          fun same => elsewhere (congrArg some same)
        exact (Memory.get?_set ..).trans (if_neg different)
      · cases stored

/-- A store changes nothing but registers and memory. -/
theorem exists_eq_of_store
    (stored : machine.store opcode target value = .ok written) :
    ∃ registers memory, written = { machine with registers, memory } := by
  cases target with
  | register _ =>
      cases stored
      exact ⟨_, machine.memory, rfl⟩
  | immediate _ => cases stored
  | memory address =>
      rw [store] at stored
      split at stored
      · cases stored
        exact ⟨machine.registers, _, rfl⟩
      · cases stored

theorem exists_store_of_move
    (moved : machine.move target source = .ok written) :
    ∃ value, machine.store .mov target value = .ok written := by
  rw [move] at moved
  obtain ⟨value, _, isStored⟩ := bind_eq_ok_iff.1 moved
  exact ⟨value, isStored⟩

/-- A result is stored to the target, unless it is only compared. -/
theorem exists_store_of_compute
    {operation : BinaryOp}
    (computed : machine.compute operation target source = .ok written) :
    ∃ stored result,
      written = { stored with flags := machine.flags.observe result } ∧
        (operation.writesBack = true →
          ∃ value,
            machine.store operation.opcode target value = .ok stored) ∧
        (operation.writesBack = false → stored = machine) := by
  rw [compute] at computed
  obtain ⟨left, _, computed⟩ := bind_eq_ok_iff.1 computed
  obtain ⟨right, _, computed⟩ := bind_eq_ok_iff.1 computed
  dsimp only at computed
  split at computed
  · next writesBack =>
      obtain ⟨stored, isStored, computed⟩ := bind_eq_ok_iff.1 computed
      cases computed
      refine ⟨stored, _, rfl, fun _ => ⟨_, isStored⟩, fun compares => ?_⟩
      rw [writesBack] at compares
      cases compares
  · next compares =>
      cases computed
      exact ⟨machine, _, rfl, fun writesBack => absurd writesBack compares,
        fun _ => rfl⟩

theorem exists_store_of_invert
    (inverted : machine.invert target = .ok written) :
    ∃ stored value result,
      machine.store .not target value = .ok stored ∧
        written = { stored with flags := machine.flags.observe result } := by
  rw [invert] at inverted
  obtain ⟨value, _, inverted⟩ := bind_eq_ok_iff.1 inverted
  obtain ⟨stored, isStored, inverted⟩ := bind_eq_ok_iff.1 inverted
  cases inverted
  exact ⟨stored, _, _, isStored, rfl⟩

theorem get?_of_compute
    {operation : BinaryOp}
    (computed : machine.compute operation target source = .ok written)
    (elsewhere :
      operation.writesBack = true → target.address? ≠ some index) :
    written.memory.get? index = machine.memory.get? index := by
  obtain ⟨stored, result, rfl, keeps, compares⟩ :=
    exists_store_of_compute computed
  cases writesBack : operation.writesBack with
  | true =>
      obtain ⟨value, isStored⟩ := keeps writesBack
      have same := get?_of_store isStored (elsewhere writesBack)
      exact same
  | false =>
      rw [compares writesBack]

theorem memory_raise :
    (machine.raise value).machine.memory = machine.memory := by
  rw [raise]
  split <;> rfl

theorem memory_jump :
    (machine.jump target).machine.memory = machine.memory := by
  rw [jump]
  split
  · rfl
  · split <;> rfl

/-- Only the byte that an instruction stores to is changed. -/
theorem get?_perform
    {instruction : Instruction}
    (elsewhere : machine.storeAddress? instruction ≠ some index) :
    (machine.perform instruction).machine.memory.get? index =
      machine.memory.get? index := by
  rw [storeAddress?] at elsewhere
  cases failed : (machine.perform instruction).failure with
  | some fault =>
      rw [(drops_perform instruction fault failed).2, dropped]
      split <;> rfl
  | none =>
      rw [failed] at elsewhere
      cases instruction with
      | nop => rfl
      | halt => rfl
      | selectWidth _ => rfl
      | interrupt number =>
          rw [perform]
          cases machine.load number with
          | error _ => rfl
          | ok value =>
              dsimp only
              rw [memory_raise]
      | move target source =>
          rw [perform]
          cases moved : machine.move target source with
          | error _ => rfl
          | ok written =>
              obtain ⟨value, stored⟩ := exists_store_of_move moved
              exact get?_of_store stored elsewhere
      | compute operation target source =>
          rw [perform]
          cases computed : machine.compute operation target source with
          | error _ => rfl
          | ok written =>
              apply get?_of_compute computed
              intro writesBack
              simpa [Instruction.target?, writesBack] using elsewhere
      | invert operand =>
          rw [perform]
          cases inverted : machine.invert operand with
          | error _ => rfl
          | ok written =>
              obtain ⟨kept, value, result, stored, rfl⟩ :=
                exists_store_of_invert inverted
              have same := get?_of_store stored elsewhere
              exact same
      | jump condition target =>
          rw [perform]
          split
          · rw [memory_jump]
          · rfl

end Machine

end PocketCpu
