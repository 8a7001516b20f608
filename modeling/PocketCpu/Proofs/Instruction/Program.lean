import PocketCpu.Proofs.Instruction.RoundTrip

/-!
# Programs

A program is a list of instructions.  Its bytes are those of its
instructions, one behind the other, and the address of an instruction is the
number of bytes before it.
-/

namespace PocketCpu

namespace Instruction

/-- The bytes of an instruction; there are none if its target is a constant. -/
def bytes (instruction : Instruction) : List Byte :=
  instruction.encode?.getD []

theorem bytes_of_encode?
    {instruction : Instruction}
    {bytes : List Byte}
    (encoded : instruction.encode? = some bytes) :
    instruction.bytes = bytes := by
  rw [Instruction.bytes, encoded, Option.getD_some]

end Instruction

/-- Instructions in the order of their addresses. -/
abbrev Program := List Instruction

namespace Program

/-- The bytes of all instructions, one behind the other. -/
def bytes (program : Program) : List Byte :=
  program.flatMap Instruction.bytes

/-- The number of bytes before the instruction at a position. -/
def address : Program → Nat → Nat
  | instruction :: rest, position + 1 =>
    instruction.size + address rest position
  | _, _ => 0

/-- Every instruction of the program has bytes. -/
def IsEncodable (program : Program) : Prop :=
  ∀ instruction ∈ program, ∃ bytes, instruction.encode? = some bytes

/-! ## Addresses -/

@[simp]
theorem address_zero (program : Program) : program.address 0 = 0 := by
  cases program <;> rfl

@[simp]
theorem address_cons_succ
    (instruction : Instruction)
    (rest : Program)
    (position : Nat) :
    address (instruction :: rest) (position + 1) =
      instruction.size + address rest position :=
  rfl

/-- The address behind an instruction. -/
theorem address_succ
    {program : Program}
    {position : Nat}
    {instruction : Instruction}
    (found : program[position]? = some instruction) :
    program.address (position + 1) =
      program.address position + instruction.size := by
  induction program generalizing position with
  | nil => cases found
  | cons head rest inductionHypothesis =>
      cases position with
      | zero =>
          cases found
          simp
      | succ position =>
          rw [List.getElem?_cons_succ] at found
          rw [address_cons_succ, address_cons_succ,
            inductionHypothesis found, Nat.add_assoc]

/-- No instruction lies behind the end of the program. -/
theorem address_add_size_le
    {program : Program}
    {position : Nat}
    {instruction : Instruction}
    (found : program[position]? = some instruction) :
    program.address position + instruction.size ≤
      program.address program.length := by
  induction program generalizing position with
  | nil => cases found
  | cons head rest inductionHypothesis =>
      cases position with
      | zero =>
          cases found
          simp
      | succ position =>
          rw [List.getElem?_cons_succ] at found
          have bound := inductionHypothesis found
          rw [List.length_cons, address_cons_succ, address_cons_succ]
          omega

/-! ## Bytes -/

theorem bytes_cons (instruction : Instruction) (rest : Program) :
    bytes (instruction :: rest) = instruction.bytes ++ bytes rest :=
  rfl

theorem IsEncodable.nil : IsEncodable [] :=
  fun _ member => absurd member List.not_mem_nil

theorem IsEncodable.tail
    {instruction : Instruction}
    {rest : Program}
    (encodable : IsEncodable (instruction :: rest)) :
    IsEncodable rest :=
  fun later member =>
    encodable later (List.mem_cons_of_mem instruction member)

theorem IsEncodable.length_head
    {instruction : Instruction}
    {rest : Program}
    (encodable : IsEncodable (instruction :: rest)) :
    instruction.bytes.length = instruction.size := by
  obtain ⟨bytes, encoded⟩ := encodable instruction List.mem_cons_self
  rw [Instruction.bytes_of_encode? encoded]
  exact Instruction.length_of_encode? encoded

/-- A program takes as many bytes as its instructions together. -/
theorem IsEncodable.length_bytes
    {program : Program}
    (encodable : program.IsEncodable) :
    program.bytes.length = program.address program.length := by
  induction program with
  | nil => rfl
  | cons instruction rest inductionHypothesis =>
      rw [bytes_cons, List.length_append, encodable.length_head,
        inductionHypothesis encodable.tail, List.length_cons,
        address_cons_succ]

/-- The bytes of an instruction are found at its address. -/
theorem IsEncodable.take_drop_bytes
    {program : Program}
    (encodable : program.IsEncodable)
    {position : Nat}
    {instruction : Instruction}
    (found : program[position]? = some instruction) :
    (program.bytes.drop (program.address position)).take
        instruction.size =
      instruction.bytes := by
  induction program generalizing position with
  | nil => cases found
  | cons head rest inductionHypothesis =>
      have headLength := encodable.length_head
      cases position with
      | zero =>
          cases found
          rw [address_zero, List.drop_zero, bytes_cons, ← headLength,
            List.take_left]
      | succ position =>
          rw [List.getElem?_cons_succ] at found
          rw [address_cons_succ, bytes_cons, ← headLength,
            List.drop_length_add_append]
          exact inductionHypothesis encodable.tail found

end Program

end PocketCpu
