import PocketCpu.Proofs.Instruction.Concatenation
import PocketCpu.Proofs.Machine.StraightRun

/-!
# Lengths of listed entries

The length of an entry is the number of bytes that a machine leaves behind
when it stands at the entry's address and does not jump.  There is one
exception, at the end of the bytes.  If an instruction is cut off behind its
mode, its entry counts the operands that are missing, while a machine leaves
only the opcode and the mode behind.  So the lengths are right, for the bytes
and for machines, exactly if the listing does not end with such an entry.
-/

namespace PocketCpu

namespace Machine

variable {size : Nat} {machine : Machine size}

/--
A machine leaves behind what it fetched of an instruction that is cut off: a
single opcode, or an opcode and a mode, without the operands that are there.
-/
theorem step_of_isCut
    (small : size < 65536)
    (cut : machine.entry.IsCut) :
    machine.entry.length = 1 ∧
        machine.step.machine.pc.toNat = machine.pc.toNat + 1 ∨
      2 < machine.entry.length ∧
        machine.step.machine.pc.toNat = machine.pc.toNat + 2 := by
  obtain ⟨opcode, undecoded⟩ := cut
  rw [entry, current] at undecoded
  rw [entry]
  have beginning := Instruction.beginning machine.ahead
  generalize leading : machine.ahead = bytes at beginning undecoded ⊢
  cases beginning with
  | none => cases undecoded
  | single opcode =>
      have first := get?_of_ahead_cons leading
      have executed :
          machine.fetchAndExecute =
            Outcome.after (([] : List MachineNotice).map MachineNotice.event)
              (.failed (machine.redirect (machine.pc + 1) machine.fetched)
                (.truncated opcode) []) :=
        fetchAndExecute_of_ahead_singleton leading small
      obtain ⟨-, left, -⟩ := step_of_failed executed rfl
      refine Or.inl ⟨rfl, ?_⟩
      rw [left, dropped_eq]
      exact toNat_pc_add_one small first
  | unknown unknown =>
      rw [Instruction.leading, Instruction.decode_of_fields_error unknown]
        at undecoded
      cases undecoded
      rcases Instruction.fields_error unknown with same | same <;>
        cases same
  | short known few =>
      obtain ⟨pc, fetched, notice, executed, behindMode, inside, isReady⟩ :=
        fetchAndExecute_of_ahead_cons_cons leading small
      have span := Instruction.span_of_fields known
      rw [← isReady] at few
      rw [execute_of_lt known inside few] at executed
      obtain ⟨-, left, -⟩ :=
        @step_of_failed _ _ _ [notice] _ executed rfl
      refine Or.inr ⟨?_, ?_⟩
      · rw [Instruction.leadingSpan, span]
        exact Nat.lt_add_of_pos_right (Nat.zero_lt_of_lt few)
      · rw [left, dropped_eq]
        exact behindMode
  | whole known enough =>
      rw [Instruction.leading, Instruction.decode_of_fields known]
        at undecoded
      rcases Fields.read_of_le _ enough with ⟨_, read⟩ | ⟨_, read⟩
      · cases read.symm.trans undecoded
      · cases read.symm.trans undecoded

/--
A step that does not jump leaves behind as many bytes as the entry counts
exactly if the entry lacks no operands.
-/
theorem pc_step_eq_iff
    (small : size < 65536)
    (straight : machine.jumped? = none) :
    machine.step.machine.pc.toNat =
        machine.pc.toNat + machine.entry.length ↔
      ¬ machine.entry.LacksOperands := by
  by_cases cut : machine.entry.IsCut
  · rw [ListingEntry.LacksOperands, and_iff_right cut]
    rcases step_of_isCut small cut with ⟨length, left⟩ | ⟨length, left⟩ <;>
      omega
  · refine iff_of_true ?_ fun lacks => cut lacks.1
    refine (foretells_entry small machine).goesOn ?_ ?_
    · exact fun opcode undecoded => cut ⟨opcode, undecoded⟩
    · intro instruction decoded
      have isCurrent : machine.current = .ok instruction := decoded
      rw [jumped?, isCurrent] at straight
      exact straight

end Machine

namespace Instruction

/--
The lengths in the listing of bytes say what is consumed: they count the
bytes, and a machine with these bytes as its memory goes on behind the entry
at which it stands, unless it jumps.
-/
structure CountsConsumed (bytes : List Byte) : Prop where
  sum : ((listing bytes).map ListingEntry.length).sum = bytes.length
  advance :
    ∀ size < 65536, ∀ machine : Machine size,
      machine.memory.toList = bytes →
      ∀ entry ∈ listing bytes, machine.pc = entry.address →
        machine.jumped? = none →
        machine.step.machine.pc.toNat = entry.address.toNat + entry.length

/--
Listed lengths say what is consumed exactly if the bytes do not end behind a
mode whose operands are missing.
-/
theorem countsConsumed_iff (bytes : List Byte) :
    CountsConsumed bytes ↔
      ∀ entry ∈ listing bytes, ¬ entry.LacksOperands := by
  constructor
  · intro counts
    exact (sum_length_listingFrom_iff 0 bytes).1 counts.sum
  · intro complete
    refine ⟨(sum_length_listingFrom_iff 0 bytes).2 complete, ?_⟩
    rintro size small machine rfl entry member reached straight
    have same := Machine.entry_of_mem_listing small member reached
    rw [← reached, same, Machine.pc_step_eq_iff small straight, ← same]
    exact complete entry member

/-- A move without operands is listed with four bytes and left after two. -/
theorem not_countsConsumed_cut_move :
    (listing [0x10, 0x03]).map ListingEntry.length = [4] ∧
      (∀ machine : Machine 2, machine.memory.toList = [0x10, 0x03] →
        machine.pc = 0 → machine.step.machine.pc.toNat = 2) ∧
      ¬ CountsConsumed [0x10, 0x03] := by
  refine ⟨rfl, ?_, ?_⟩
  · intro machine bytes start
    have member :
        ⟨0, 4, .error (.truncated 0x10)⟩ ∈
          listing machine.memory.toList := by
      rw [bytes]
      exact List.mem_cons_self
    have same := Machine.entry_of_mem_listing (by decide) member start
    have cut : machine.entry.IsCut := by
      rw [← same]
      exact ⟨0x10, rfl⟩
    rcases Machine.step_of_isCut (by decide) cut with
      ⟨length, -⟩ | ⟨-, left⟩
    · rw [← same] at length
      cases length
    · rw [left, start]
      rfl
  · intro counts
    cases counts.sum

end Instruction

end PocketCpu
