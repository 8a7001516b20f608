import PocketCpu.Machine.Load
import PocketCpu.Proofs.Arithmetic.Exact
import PocketCpu.Proofs.Instruction.Rewriting
import PocketCpu.Proofs.Machine.Foretelling
import PocketCpu.Proofs.Register.Writes

/-!
# Arithmetic is exact

A step at an arithmetic instruction succeeds if its operands are inside of
memory.  Both operands are read before anything is written, so it makes no
difference whether they share a register, a half or an address, or lie among
the bytes of the instruction itself.  The target then holds what fits into it
of the exact result, and the flags are the summary of the whole of it.
-/

namespace PocketCpu

namespace Operand

/-- Whether an operand can be read in a memory. -/
def IsInside (size : Nat) : Operand → Prop
  | .memory address => address.toNat < size
  | _ => True

instance (size : Nat) : (operand : Operand) → Decidable (operand.IsInside size)
  | .register _ => .isTrue trivial
  | .memory address => inferInstanceAs (Decidable (address.toNat < size))
  | .immediate _ => .isTrue trivial

/-- The number of bits that an operand holds. -/
def bits : Operand → Nat
  | .register chosen => chosen.bits
  | .memory _ => 8
  | .immediate _ => 8

theorem bits_le (operand : Operand) : operand.bits ≤ 8 := by
  cases operand with
  | register chosen =>
      obtain ⟨pair, part⟩ := chosen
      cases part <;> simp [bits, Register.bits]
  | memory _ => exact Nat.le_refl 8
  | immediate _ => exact Nat.le_refl 8

end Operand

namespace Machine

variable {size : Nat} {machine other : Machine size}
variable {target source : Operand}

/-! ## Operands -/

theorem load_congr
    (registers : other.registers = machine.registers)
    (memory : other.memory = machine.memory)
    (operand : Operand) :
    other.load operand = machine.load operand := by
  cases operand with
  | register chosen => rw [load, load, registers]
  | memory address => rw [load, load, memory]
  | immediate value => rfl

theorem exists_load
    {operand : Operand}
    (machine : Machine size)
    (inside : operand.IsInside size) :
    ∃ value, machine.load operand = .ok value := by
  cases operand with
  | register chosen => exact ⟨_, rfl⟩
  | immediate value => exact ⟨_, rfl⟩
  | memory address =>
      rw [load]
      cases read : machine.memory.get? address.toNat with
      | some byte => exact ⟨byte, rfl⟩
      | none =>
          exact absurd inside
            (Nat.not_lt.2 (Memory.get?_eq_none_iff.1 read))

/-- An operand holds as many low bits of a result as it has. -/
def Holds (machine : Machine size) (operand : Operand) (result : Int) :
    Prop :=
  ∃ byte : Byte, machine.load operand = .ok byte ∧
    (byte.toNat : Int) = result % (2 ^ operand.bits : Nat)

/-- An operand that is no constant holds what is stored to it. -/
theorem exists_store
    {result : Int}
    {value : Byte}
    (machine : Machine size)
    (opcode : Opcode)
    (inside : target.IsInside size)
    (writable : target.kind ≠ .immediate)
    (low : (value.toNat : Int) = result % 256) :
    ∃ written, machine.store opcode target value = .ok written ∧
      written.Holds target result := by
  have kept :
      ((value.toNat % 2 ^ target.bits : Nat) : Int) =
        result % (2 ^ target.bits : Nat) := by
    have divides : 2 ^ target.bits ∣ 2 ^ 8 :=
      Nat.pow_dvd_pow 2 target.bits_le
    rw [Int.natCast_emod, low]
    exact Int.emod_emod_of_dvd result (Int.natCast_dvd_natCast.2 divides)
  cases target with
  | immediate value => exact absurd rfl writable
  | register chosen =>
      refine ⟨_, rfl, _, rfl, ?_⟩
      rw [RegisterFile.toNat_read_write]
      exact kept
  | memory address =>
      have fits : address.toNat < size := inside
      rw [store, if_pos fits]
      refine ⟨_, rfl, value, ?_, ?_⟩
      · rw [load, Memory.get?_set, if_pos rfl, if_pos fits]
      · rw [← kept]
        exact congrArg Nat.cast (Nat.mod_eq_of_lt value.toNat_lt).symm

/-- The flags do not matter to what an operand holds. -/
theorem Holds.congr
    {operand : Operand}
    {result : Int}
    (holds : machine.Holds operand result)
    (registers : other.registers = machine.registers)
    (memory : other.memory = machine.memory) :
    other.Holds operand result := by
  obtain ⟨byte, loaded, exact⟩ := holds
  exact ⟨byte, (load_congr registers memory operand).trans loaded, exact⟩

/-! ## Instructions -/

/--
What arithmetic leaves of a machine: flags that are the summary of an exact
result, and a target that holds the result unless it is only compared.
-/
structure Leaves
    (machine written : Machine size)
    (target : Operand)
    (result : Int)
    (isKept : Bool) : Prop where
  flags : written.flags.IsSummary machine.flags result
  stored : isKept = true → written.Holds target result
  dropped :
    isKept = false →
      written.registers = machine.registers ∧
        written.memory = machine.memory

theorem exists_compute
    (machine : Machine size)
    (operation : BinaryOp)
    (targetInside : target.IsInside size)
    (sourceInside : source.IsInside size)
    (writable : target.kind ≠ .immediate) :
    ∃ left right written,
      machine.load target = .ok left ∧
        machine.load source = .ok right ∧
        machine.compute operation target source = .ok written ∧
        machine.Leaves written target
          (operation.exact left.toNat right.toNat) operation.writesBack := by
  obtain ⟨left, leftLoaded⟩ := machine.exists_load targetInside
  obtain ⟨right, rightLoaded⟩ := machine.exists_load sourceInside
  let word := operation.apply (widen left) (widen right)
  have summary := machine.flags.isSummary_observe word
  have low := toNat_narrow word
  rw [BinaryOp.toInt_apply] at summary low
  cases kept : operation.writesBack with
  | true =>
      obtain ⟨stored, isStored, holds⟩ :=
        machine.exists_store operation.opcode targetInside writable low
      refine ⟨left, right,
        { stored with flags := machine.flags.observe word },
        leftLoaded, rightLoaded, ?_, summary,
        fun _ => holds.congr rfl rfl, Bool.noConfusion⟩
      rw [compute]
      refine bind_eq_ok_iff.2 ⟨left, leftLoaded,
        bind_eq_ok_iff.2 ⟨right, rightLoaded, ?_⟩⟩
      simp only [kept, if_true]
      exact bind_eq_ok_iff.2 ⟨stored, isStored, rfl⟩
  | false =>
      refine ⟨left, right,
        { machine with flags := machine.flags.observe word },
        leftLoaded, rightLoaded, ?_, summary, Bool.noConfusion,
        fun _ => ⟨rfl, rfl⟩⟩
      rw [compute, leftLoaded, rightLoaded]
      simp only [kept]
      rfl

theorem exists_invert
    (machine : Machine size)
    (inside : target.IsInside size)
    (writable : target.kind ≠ .immediate) :
    ∃ value written,
      machine.load target = .ok value ∧
        machine.invert target = .ok written ∧
        machine.Leaves written target (255 - value.toNat) true := by
  obtain ⟨value, loaded⟩ := machine.exists_load inside
  have summary := machine.flags.isSummary_observe (widen (~~~value))
  rw [toInt_widen, toNat_complement] at summary
  have low : ((~~~value).toNat : Int) = (255 - value.toNat) % 256 := by
    have small := value.toNat_lt
    rw [toNat_complement]
    omega
  obtain ⟨stored, isStored, holds⟩ :=
    machine.exists_store .not inside writable low
  refine ⟨value,
    { stored with flags := machine.flags.observe (widen (~~~value)) },
    loaded, ?_, summary, fun _ => holds.congr rfl rfl, Bool.noConfusion⟩
  rw [invert]
  exact bind_eq_ok_iff.2
    ⟨value, loaded, bind_eq_ok_iff.2 ⟨stored, isStored, rfl⟩⟩

/-! ## Steps -/

/-- A constant is never the target of arithmetic that was decoded. -/
theorem writable_of_compute
    {operation : BinaryOp}
    (decoded : machine.current = .ok (.compute operation target source)) :
    target.kind ≠ .immediate := by
  obtain ⟨_, _, _, leads⟩ := Instruction.exists_leads decoded
  obtain ⟨mode, hasMode, -⟩ :=
    Instruction.encode?_eq_some_iff.1 leads.encoded
  intro constant
  rw [Instruction.mode?, constant] at hasMode
  cases hasMode

theorem writable_of_invert
    (decoded : machine.current = .ok (.invert target)) :
    target.kind ≠ .immediate := by
  obtain ⟨_, _, _, leads⟩ := Instruction.exists_leads decoded
  have isReadable := leads.isReadable
  cases target with
  | register _ => nofun
  | memory _ => nofun
  | immediate _ => cases isReadable

/-- A step at an instruction has the outcome of carrying it out. -/
theorem stepMatches_of_current
    {instruction : Instruction}
    (small : size < 65536)
    (decoded : machine.current = .ok instruction) :
    machine.StepMatches
      ((machine.entry.behind machine).perform instruction) :=
  ((foretells_entry small machine).performed instruction decoded).1

/--
A step computes a result: it succeeds, and leaves the flags and the target as
the exact result says.
-/
structure Computes
    (machine : Machine size)
    (target : Operand)
    (result : Int)
    (isKept : Bool) : Prop where
  failure : machine.step.failure = none
  leaves : machine.Leaves machine.step.machine target result isKept

/-- A step computes what its instruction leaves of the machine. -/
theorem computes_of_leaves
    {instruction : Instruction}
    {written : Machine size}
    {result : Int}
    {isKept : Bool}
    (small : size < 65536)
    (decoded : machine.current = .ok instruction)
    (performed :
      (machine.entry.behind machine).perform instruction =
        .done written [])
    (leaves :
      (machine.entry.behind machine).Leaves written target result isKept) :
    machine.Computes target result isKept := by
  obtain ⟨failure, registers, flags, memory, _, _⟩ :=
    stepMatches_of_current small decoded
  rw [performed] at failure registers flags memory
  refine ⟨failure, ?_, ?_, ?_⟩
  · rw [flags]
    exact leaves.flags
  · intro kept
    exact (leaves.stored kept).congr registers memory
  · intro dropped
    rw [registers, memory]
    exact leaves.dropped dropped

theorem exists_computes_of_compute
    {operation : BinaryOp}
    (small : size < 65536)
    (decoded : machine.current = .ok (.compute operation target source))
    (targetInside : target.IsInside size)
    (sourceInside : source.IsInside size) :
    ∃ left right,
      machine.load target = .ok left ∧
        machine.load source = .ok right ∧
        machine.Computes target (operation.exact left.toNat right.toNat)
          operation.writesBack := by
  obtain ⟨left, right, written, leftLoaded, rightLoaded, computed, leaves⟩ :=
    (machine.entry.behind machine).exists_compute operation targetInside
      sourceInside (writable_of_compute decoded)
  refine ⟨left, right, leftLoaded, rightLoaded,
    computes_of_leaves small decoded ?_ leaves⟩
  rw [perform, computed]
  rfl

theorem exists_computes_of_invert
    (small : size < 65536)
    (decoded : machine.current = .ok (.invert target))
    (inside : target.IsInside size) :
    ∃ value,
      machine.load target = .ok value ∧
        machine.Computes target (255 - value.toNat) true := by
  obtain ⟨value, written, loaded, inverted, leaves⟩ :=
    (machine.entry.behind machine).exists_invert inside
      (writable_of_invert decoded)
  refine ⟨value, loaded, computes_of_leaves small decoded ?_ leaves⟩
  rw [perform, inverted]
  rfl

/--
An arithmetic step whose operands are inside of memory computes the exact
result of the values before the step, also if its operands overlap.
-/
theorem step_isExact
    (small : size < 65536)
    (machine : Machine size) :
    (∀ operation target source,
        machine.current = .ok (.compute operation target source) →
        target.IsInside size →
        source.IsInside size →
        ∃ left right,
          machine.load target = .ok left ∧
            machine.load source = .ok right ∧
            machine.Computes target
              (operation.exact left.toNat right.toNat)
              (operation != .cmp)) ∧
      ∀ operand,
        machine.current = .ok (.invert operand) →
        operand.IsInside size →
        ∃ value,
          machine.load operand = .ok value ∧
            machine.Computes operand (255 - value.toNat) true :=
  ⟨fun _ _ _ => exists_computes_of_compute small,
    fun _ => exists_computes_of_invert small⟩

/--
A half that is lessened by its own register, and a sum that overwrites the
mode byte of its own instruction.
-/
theorem step_isExact_overlapping :
    ((initial 8).loadProgram
          "MOV AX, #25\nSUB AL, AX".toList).machine.step.machine.Computes
        (.register ⟨.a, .low⟩) (5 - 0x25) true ∧
      ((initial 8).loadProgram "ADD [1], [3]".toList).machine.Computes
        (.memory 1) (5 + 3) true ∧
      ((initial 8).loadProgram "NOT AX".toList).machine.Computes
        (.register ⟨.a, .full⟩) (255 - 0) true := by
  refine ⟨?_, ?_, ?_⟩
  · obtain ⟨left, right, leftLoaded, rightLoaded, computes⟩ :=
      (step_isExact (by decide)
        ((initial 8).loadProgram
          "MOV AX, #25\nSUB AL, AX".toList).machine.step.machine).1
        .sub (.register ⟨.a, .low⟩) (.register ⟨.a, .full⟩) rfl
        trivial trivial
    cases leftLoaded
    cases rightLoaded
    exact computes
  · obtain ⟨left, right, leftLoaded, rightLoaded, computes⟩ :=
      (step_isExact (by decide)
        ((initial 8).loadProgram "ADD [1], [3]".toList).machine).1
        .add (.memory 1) (.memory 3) rfl (by decide) (by decide)
    cases leftLoaded
    cases rightLoaded
    exact computes
  · obtain ⟨value, loaded, computes⟩ :=
      (step_isExact (by decide)
        ((initial 8).loadProgram "NOT AX".toList).machine).2
        (.register ⟨.a, .full⟩) rfl trivial
    cases loaded
    exact computes

end Machine

end PocketCpu
