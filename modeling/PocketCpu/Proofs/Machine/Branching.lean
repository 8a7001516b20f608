import PocketCpu.Proofs.Machine.Arithmetic

/-!
# Comparing and branching

A comparison leaves nothing but flags, and a jump with a condition that
follows reads nothing but them.  So the two together branch on the values
that are compared.  With four bits the flags see the difference of two whole
bytes and not that of their low halves: such values count as equal if their
low halves are, and as ordered also if the first is much greater.
-/

namespace PocketCpu

namespace Condition

/-- Whether a jump with a condition is taken behind a comparison. -/
def Relates (fourBit : Bool) (left right : Nat) : Condition → Prop
  | .always => True
  | .zero => if fourBit then left % 16 = right % 16 else left = right
  | .carry =>
    if fourBit then left < right ∨ right + 15 < left else left < right

variable {fourBit : Bool} {left right : Nat}

/-- Values of four bits are compared alike in both widths. -/
theorem relates_iff_of_lt
    (condition : Condition)
    (leftSmall : left < 16)
    (rightSmall : right < 16) :
    condition.Relates fourBit left right ↔
      condition.Relates false left right := by
  cases fourBit with
  | false => exact Iff.rfl
  | true =>
      cases condition with
      | always => exact Iff.rfl
      | zero =>
          simp only [Relates, if_true, Bool.false_eq_true, if_false]
          omega
      | carry =>
          simp only [Relates, if_true, Bool.false_eq_true, if_false]
          omega

end Condition

namespace Flags

variable {flags before : Flags} {left right : Nat}

/-- The flags of a difference permit what relates the two values. -/
theorem IsSummary.permit_iff
    (summary : flags.IsSummary before ((left : Int) - right))
    (condition : Condition)
    (leftSmall : left < 256)
    (rightSmall : right < 256) :
    flags.permit condition = true ↔
      condition.Relates before.fourBit left right := by
  have zero := summary.zero
  have carry := summary.carry
  rw [width] at zero carry
  cases condition with
  | always => exact iff_of_true rfl trivial
  | zero =>
      refine zero.trans ?_
      cases before.fourBit with
      | true =>
          simp only [Condition.Relates, if_true]
          omega
      | false =>
          simp only [Condition.Relates, Bool.false_eq_true, if_false]
          omega
  | carry =>
      refine carry.trans ?_
      cases before.fourBit with
      | true =>
          simp only [Condition.Relates, if_true]
          omega
      | false =>
          simp only [Condition.Relates, Bool.false_eq_true, if_false]
          omega

end Flags

namespace Machine

variable {size : Nat} {machine : Machine size}
variable {first second : Operand} {left right target : Byte}
variable {condition : Condition} {isTaken : Prop}

/--
Two steps branch: they succeed, leave registers and memory as they were, and
lead to an address or else behind a comparison and a jump.
-/
structure Branches
    (machine : Machine size)
    (target : Byte)
    (isTaken : Prop) : Prop where
  first : machine.step.failure = none
  second : machine.step.machine.step.failure = none
  registers : (machine.afterSteps 2).registers = machine.registers
  memory : (machine.afterSteps 2).memory = machine.memory
  taken : isTaken → (machine.afterSteps 2).pc.toNat = target.toNat
  untaken :
    ¬isTaken → (machine.afterSteps 2).pc.toNat = machine.pc.toNat + 7

/-- The number of bytes of the current entry is the instruction's size. -/
theorem length_entry
    {instruction : Instruction}
    (decoded : machine.current = .ok instruction) :
    machine.entry.length = instruction.size := by
  obtain ⟨_, _, _, leads⟩ := Instruction.exists_leads decoded
  exact leads.span_eq

/-- A step that does not jump goes on behind its instruction. -/
theorem toNat_pc_step
    {instruction : Instruction}
    (small : size < 65536)
    (decoded : machine.current = .ok instruction)
    (remains : machine.jumpTarget? instruction = none) :
    machine.step.machine.pc.toNat =
      machine.pc.toNat + instruction.size := by
  rw [← length_entry decoded]
  refine (foretells_entry small machine).goesOn ?_ ?_
  · intro opcode cut
    cases decoded.symm.trans cut
  · intro other same
    cases decoded.symm.trans same
    exact remains

/-- A jump to an address inside of memory moves the program counter only. -/
theorem perform_jump_immediate
    (machine : Machine size)
    (condition : Condition)
    (inside : target.toNat < size) :
    machine.perform (.jump condition (.immediate target)) =
      .done
        { machine with
          pc :=
            if machine.flags.permit condition then target.toUInt16
            else machine.pc }
        [] := by
  rw [perform]
  split
  · rw [jump, load]
    exact if_pos inside
  · rfl

/-- The step at a jump to an address inside of memory. -/
theorem step_of_jump
    (small : size < 65536)
    (decoded : machine.current = .ok (.jump condition (.immediate target)))
    (inside : target.toNat < size) :
    machine.step.failure = none ∧
      machine.step.machine.registers = machine.registers ∧
      machine.step.machine.memory = machine.memory ∧
      machine.step.machine.pc.toNat =
        if machine.flags.permit condition then target.toNat
        else machine.pc.toNat + 3 := by
  obtain ⟨stepMatches, pc⟩ :=
    (foretells_entry small machine).performed _ decoded
  have performed :=
    (machine.entry.behind machine).perform_jump_immediate condition inside
  rw [performed] at stepMatches pc
  refine ⟨stepMatches.failure, stepMatches.registers, stepMatches.memory, ?_⟩
  cases permitted : machine.flags.permit condition with
  | true =>
      rw [pc]
      simp only [ListingEntry.behind, permitted, if_true]
      exact UInt8.toNat_toUInt16 target
  | false =>
      apply toNat_pc_step small decoded
      rw [jumpTarget?, permitted]
      exact if_neg Bool.false_ne_true

/-! ## Two steps -/

theorem branches_of_loaded
    (small : size < 65536)
    (decoded : machine.current = .ok (.compute .cmp first second))
    (firstLoaded : machine.load first = .ok left)
    (secondLoaded : machine.load second = .ok right)
    (followed :
      (machine.entry.behind machine).current =
        .ok (.jump condition (.immediate target)))
    (firstInside : first.IsInside size)
    (secondInside : second.IsInside size)
    (inside : target.toNat < size) :
    machine.Branches target
      (condition.Relates machine.flags.fourBit left.toNat right.toNat) := by
  obtain ⟨_, _, sameFirst, sameSecond, computes⟩ :=
    exists_computes_of_compute small decoded firstInside secondInside
  cases firstLoaded.symm.trans sameFirst
  cases secondLoaded.symm.trans sameSecond
  obtain ⟨registers, memory⟩ := computes.leaves.dropped rfl
  have permitted :=
    computes.leaves.flags.permit_iff condition left.toNat_lt right.toNat_lt
  have behind : machine.step.machine.pc.toNat = machine.pc.toNat + 4 :=
    toNat_pc_step small decoded rfl
  have atJump :
      machine.step.machine.current =
        .ok (.jump condition (.immediate target)) := by
    have samePc :
        machine.step.machine.pc = (machine.entry.behind machine).pc := by
      rw [ListingEntry.behind, length_entry decoded]
      show _ = UInt16.ofNat (machine.pc.toNat + 4)
      rw [← behind, UInt16.ofNat_toNat]
    rw [← followed, current, current, ahead, ahead, samePc, memory]
    rfl
  obtain ⟨jumpSucceeds, jumpRegisters, jumpMemory, jumpPc⟩ :=
    step_of_jump small atJump inside
  constructor
  · exact computes.failure
  · exact jumpSucceeds
  · exact jumpRegisters.trans registers
  · exact jumpMemory.trans memory
  · intro isTaken
    exact jumpPc.trans (if_pos (permitted.2 isTaken))
  · intro isUntaken
    rw [afterSteps, afterSteps, afterSteps, jumpPc,
      if_neg (mt permitted.1 isUntaken), behind]

/--
A comparison and a jump that follows it branch on the values before them, and
alike in both widths if the values are of four bits.
-/
theorem branches_of_compare
    (small : size < 65536)
    (machine : Machine size)
    (first second : Operand)
    (condition : Condition)
    (target : Byte)
    (decoded : machine.current = .ok (.compute .cmp first second))
    (firstInside : first.IsInside size)
    (secondInside : second.IsInside size)
    (followed :
      (machine.entry.behind machine).current =
        .ok (.jump condition (.immediate target)))
    (inside : target.toNat < size) :
    ∃ left right,
      machine.load first = .ok left ∧
        machine.load second = .ok right ∧
        machine.Branches target
          (condition.Relates machine.flags.fourBit
            left.toNat right.toNat) ∧
        (left.toNat < 16 → right.toNat < 16 →
          ∀ flags,
            ({ machine with flags } : Machine size).Branches target
              (condition.Relates false left.toNat right.toNat)) := by
  obtain ⟨left, firstLoaded⟩ := machine.exists_load firstInside
  obtain ⟨right, secondLoaded⟩ := machine.exists_load secondInside
  refine ⟨left, right, firstLoaded, secondLoaded, ?_, ?_⟩
  · exact branches_of_loaded small decoded firstLoaded secondLoaded followed
      firstInside secondInside inside
  · intro leftSmall rightSmall flags
    -- Only the flags differ, and neither decoding nor loading reads them.
    let other : Machine size := { machine with flags }
    have alike :
        condition.Relates flags.fourBit left.toNat right.toNat =
          condition.Relates false left.toNat right.toNat :=
      propext (condition.relates_iff_of_lt leftSmall rightSmall)
    have firstKept : other.load first = .ok left :=
      (load_congr rfl rfl first).trans firstLoaded
    have secondKept : other.load second = .ok right :=
      (load_congr rfl rfl second).trans secondLoaded
    have branches :
        other.Branches target
          (condition.Relates flags.fourBit left.toNat right.toNat) :=
      branches_of_loaded small decoded firstKept secondKept followed
        firstInside secondInside inside
    rwa [alike] at branches

/--
With four bits, a first value that is much greater counts as less, and two
values with the same low half count as equal.  Small values are compared alike
with eight bits.
-/
theorem branches_of_compare_wide :
    (((initial 16).loadProgram
          "CMP [0], #3\nJC #9".toList).machine.afterSteps 2).pc.toNat = 9 ∧
      (((initial 16).loadProgram
          "CMP [0], #C\nJZ #9".toList).machine.afterSteps 2).pc.toNat = 9 ∧
      (({ ((initial 16).loadProgram "CMP AX, #0\nJC #9".toList).machine with
          flags := Flags.initial.selectWidth 0 } :
            Machine 16).afterSteps 2).pc.toNat = 7 := by
  refine ⟨?_, ?_, ?_⟩
  · obtain ⟨left, right, leftLoaded, rightLoaded, branches, -⟩ :=
      branches_of_compare (by decide)
        ((initial 16).loadProgram "CMP [0], #3\nJC #9".toList).machine
        (.memory 0) (.immediate 3) .carry 9 rfl (by decide) trivial rfl
        (by decide)
    cases leftLoaded
    cases rightLoaded
    exact branches.taken (.inr (by decide))
  · obtain ⟨left, right, leftLoaded, rightLoaded, branches, -⟩ :=
      branches_of_compare (by decide)
        ((initial 16).loadProgram "CMP [0], #C\nJZ #9".toList).machine
        (.memory 0) (.immediate 0xc) .zero 9 rfl (by decide) trivial rfl
        (by decide)
    cases leftLoaded
    cases rightLoaded
    exact branches.taken rfl
  · obtain ⟨left, right, leftLoaded, rightLoaded, -, alike⟩ :=
      branches_of_compare (by decide)
        ((initial 16).loadProgram "CMP AX, #0\nJC #9".toList).machine
        (.register ⟨.a, .full⟩) (.immediate 0) .carry 9 rfl trivial trivial
        rfl (by decide)
    cases leftLoaded
    cases rightLoaded
    exact (alike (by decide) (by decide) (Flags.initial.selectWidth 0)).untaken
      (Nat.not_lt.2 (Nat.le_refl 0))

end Machine

end PocketCpu
