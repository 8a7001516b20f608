import PocketCpu.Proofs.Instruction.Listing

/-!
# What bytes begin with

Bytes begin with an instruction, or with something that has no meaning, or
they end before their first instruction does.  Which of these is the case is
decided by at most four bytes, and how many of them belong together is known
even if they have no meaning.  A listing is what bytes begin with, followed
by the listing of the bytes behind.
-/

namespace PocketCpu

/-! ## Reading fields -/

namespace Fields

variable {fields : Fields} {opcode : Byte} {bytes : List Byte}

theorem operand_cases (kind : OperandKind) (byte : Byte) :
    (∃ operand, Fields.operand kind byte = .ok operand) ∨
      Fields.operand kind byte = .error (.unknownRegister byte) := by
  rw [Fields.operand]
  cases Operand.ofByte? kind byte with
  | some operand => exact Or.inl ⟨operand, rfl⟩
  | none => exact Or.inr rfl

/-- Fields read as many bytes as they count. -/
theorem read_take (fields : Fields) (opcode : Byte) (bytes : List Byte) :
    fields.read opcode (bytes.take fields.count) =
      fields.read opcode bytes := by
  cases fields with
  | bare instruction => rfl
  | width => cases bytes <;> rfl
  | single kind build => cases bytes <;> rfl
  | pair target source build =>
      cases bytes with
      | nil => rfl
      | cons first rest => cases rest <;> rfl

theorem count_le_two (fields : Fields) : fields.count ≤ 2 := by
  cases fields <;> simp [count]

/-- With too few bytes the instruction is cut off. -/
theorem read_of_lt
    (few : bytes.length < fields.count) :
    fields.read opcode bytes = .error (.truncated opcode) := by
  cases fields with
  | bare instruction => exact absurd few (Nat.not_lt_zero _)
  | width =>
      cases bytes with
      | nil => rfl
      | cons byte rest =>
          exact absurd few (Nat.not_lt.2 (Nat.succ_pos rest.length))
  | single kind build =>
      cases bytes with
      | nil => rfl
      | cons byte rest =>
          exact absurd few (Nat.not_lt.2 (Nat.succ_pos rest.length))
  | pair target source build =>
      rcases bytes with _ | ⟨first, _ | ⟨second, rest⟩⟩
      · rfl
      · rfl
      · simp only [List.length_cons, count] at few
        omega

/-- With enough bytes only a register can be at fault. -/
theorem read_of_le
    (opcode : Byte)
    (enough : fields.count ≤ bytes.length) :
    (∃ instruction, fields.read opcode bytes = .ok instruction) ∨
      ∃ code, fields.read opcode bytes =
        .error (.unknownRegister code) := by
  cases fields with
  | bare instruction => exact Or.inl ⟨instruction, rfl⟩
  | width =>
      rcases bytes with _ | ⟨value, rest⟩
      · cases enough
      · exact Or.inl ⟨.selectWidth value, rfl⟩
  | single kind build =>
      rcases bytes with _ | ⟨byte, rest⟩
      · cases enough
      rw [read]
      rcases operand_cases kind byte with ⟨operand, known⟩ | unknown
      · rw [known]
        exact Or.inl ⟨build operand, rfl⟩
      · rw [unknown]
        exact Or.inr ⟨byte, rfl⟩
  | pair target source build =>
      rcases bytes with _ | ⟨first, _ | ⟨second, rest⟩⟩
      · cases enough
      · exact absurd enough (by simp [count])
      rw [read]
      rcases operand_cases target first with ⟨left, known⟩ | unknown
      · rw [known]
        rcases operand_cases source second with ⟨right, known⟩ | unknown
        · rw [known]
          exact Or.inl ⟨build left right, rfl⟩
        · rw [unknown]
          exact Or.inr ⟨second, rfl⟩
      · rw [unknown]
        exact Or.inr ⟨first, rfl⟩

end Fields

namespace Instruction

/-- The leading bytes alone have no meaning, whatever follows them. -/
theorem fields_error
    {opcode mode : Byte}
    {fault : Fault}
    (unknown : fields opcode mode = .error fault) :
    fault = .unknownOpcode opcode ∨ fault = .unknownMode opcode mode := by
  rw [fields] at unknown
  split at unknown
  · cases unknown
    exact Or.inl rfl
  · split at unknown
    · cases unknown
      exact Or.inr rfl
    · cases unknown

/-! ## Beginnings -/

/-- What bytes begin with: an instruction, or the reason why there is none. -/
def leading : List Byte → Except Fault Instruction
  | [] => .error .endOfMemory
  | [opcode] => .error (.truncated opcode)
  | opcode :: mode :: operands => decode opcode mode operands

/-- The number of bytes that belong to what bytes begin with. -/
def leadingSpan : List Byte → Nat
  | [] => 0
  | [_] => 1
  | opcode :: mode :: _ => span opcode mode

/--
What bytes begin with, in all the ways there are.

Either there are fewer than two bytes, or the two leading bytes announce
nothing, or fewer operand bytes follow than they announce, or enough.
-/
inductive Beginning : List Byte → Prop where
  | none : Beginning []
  | single (opcode : Byte) : Beginning [opcode]
  | unknown
      {opcode mode : Byte}
      {operands : List Byte}
      {fault : Fault}
      (unknown : fields opcode mode = .error fault) :
      Beginning (opcode :: mode :: operands)
  | short
      {opcode mode : Byte}
      {operands : List Byte}
      {fields : Fields}
      (known : Instruction.fields opcode mode = .ok fields)
      (few : operands.length < fields.count) :
      Beginning (opcode :: mode :: operands)
  | whole
      {opcode mode : Byte}
      {operands : List Byte}
      {fields : Fields}
      (known : Instruction.fields opcode mode = .ok fields)
      (enough : fields.count ≤ operands.length) :
      Beginning (opcode :: mode :: operands)

theorem beginning (bytes : List Byte) : Beginning bytes := by
  rcases bytes with _ | ⟨opcode, _ | ⟨mode, operands⟩⟩
  · exact .none
  · exact .single opcode
  · cases known : fields opcode mode with
    | error fault => exact .unknown known
    | ok fields =>
        rcases Nat.lt_or_ge operands.length fields.count with few | enough
        · exact .short known few
        · exact .whole known enough

section Announced

variable {opcode mode : Byte} {operands : List Byte}
variable {fault : Fault} {fields : Fields}

theorem decode_of_fields_error
    (unknown : Instruction.fields opcode mode = .error fault) :
    decode opcode mode operands = .error fault := by
  rw [decode, unknown]
  rfl

theorem decode_of_fields
    (known : Instruction.fields opcode mode = .ok fields) :
    decode opcode mode operands = fields.read opcode operands := by
  rw [decode, known]
  rfl

theorem operandCount_of_fields
    (known : Instruction.fields opcode mode = .ok fields) :
    operandCount opcode mode = .ok fields.count := by
  rw [operandCount, known]
  rfl

theorem operandCount_of_fields_error
    (unknown : Instruction.fields opcode mode = .error fault) :
    operandCount opcode mode = .error fault := by
  rw [operandCount, unknown]
  rfl

theorem span_of_fields
    (known : Instruction.fields opcode mode = .ok fields) :
    span opcode mode = 2 + fields.count := by
  rw [span, operandCount_of_fields known]

theorem span_of_fields_error
    (unknown : Instruction.fields opcode mode = .error fault) :
    span opcode mode = 2 := by
  rw [span, operandCount_of_fields_error unknown]

/-- Both leading bytes belong to what they begin. -/
theorem two_le_span (opcode mode : Byte) : 2 ≤ span opcode mode := by
  rw [span]
  split <;> omega

/-- An instruction is decoded from the bytes that belong to it. -/
theorem decode_take_span (opcode mode : Byte) (operands : List Byte) :
    decode opcode mode (operands.take (span opcode mode - 2)) =
      decode opcode mode operands := by
  cases known : Instruction.fields opcode mode with
  | error fault =>
      rw [decode_of_fields_error known, decode_of_fields_error known]
  | ok fields =>
      rw [decode_of_fields known, decode_of_fields known,
        span_of_fields known, Nat.add_sub_cancel_left, Fields.read_take]

end Announced

variable {bytes : List Byte}

/-- Something belongs to what bytes begin with, if there are any. -/
theorem leadingSpan_pos
    (nonempty : bytes ≠ []) :
    0 < leadingSpan bytes := by
  rcases bytes with _ | ⟨opcode, _ | ⟨mode, operands⟩⟩
  · exact absurd rfl nonempty
  · exact Nat.one_pos
  · exact Nat.lt_of_lt_of_le Nat.two_pos (two_le_span opcode mode)

/-- Nothing is left behind an instruction that is cut off. -/
theorem drop_leadingSpan_of_truncated
    {opcode : Byte}
    (cut : leading bytes = .error (.truncated opcode)) :
    bytes.drop (leadingSpan bytes) = [] := by
  apply List.drop_eq_nil_of_le
  cases beginning bytes with
  | none => cases cut
  | single _ => exact Nat.le_refl 1
  | unknown unknown =>
      rw [leading, decode_of_fields_error unknown] at cut
      cases cut
      rcases fields_error unknown with same | same <;> cases same
  | short known few =>
      rw [leadingSpan, span_of_fields known, List.length_cons,
        List.length_cons]
      omega
  | whole known enough =>
      rw [leading, decode_of_fields known] at cut
      rcases Fields.read_of_le _ enough with ⟨_, read⟩ | ⟨_, read⟩
      · rw [read] at cut
        cases cut
      · rw [read] at cut
        cases cut

/--
Two to four bytes belong together if they are not cut off, even if they have
no meaning.
-/
theorem leadingSpan_bounds
    (harmless :
      ∀ fault, leading bytes = .error fault → fault.isFatal = false) :
    2 ≤ leadingSpan bytes ∧ leadingSpan bytes ≤ 4 ∧
      leadingSpan bytes ≤ bytes.length := by
  cases beginning bytes with
  | none => cases harmless _ rfl
  | single opcode => cases harmless _ rfl
  | unknown unknown =>
      rw [leadingSpan, span_of_fields_error unknown, List.length_cons,
        List.length_cons]
      omega
  | short known few =>
      rw [leading, decode_of_fields known, Fields.read_of_lt few] at harmless
      cases harmless _ rfl
  | @whole opcode mode operands fields known enough =>
      have two := fields.count_le_two
      rw [leadingSpan, span_of_fields known, List.length_cons,
        List.length_cons]
      omega

/-- What bytes begin with is decided by the bytes that belong to it. -/
theorem leading_congr
    {others : List Byte}
    (length : others.length = bytes.length)
    (same : ∀ offset < leadingSpan bytes, others[offset]? = bytes[offset]?) :
    leading others = leading bytes ∧
      leadingSpan others = leadingSpan bytes := by
  rcases bytes with _ | ⟨opcode, _ | ⟨mode, operands⟩⟩
  · rw [List.length_eq_zero_iff.1 length]
    exact ⟨rfl, rfl⟩
  · obtain ⟨byte, rfl⟩ := List.length_eq_one_iff.1 length
    cases same 0 Nat.one_pos
    exact ⟨rfl, rfl⟩
  · have two := two_le_span opcode mode
    rw [leadingSpan] at same
    rcases others with _ | ⟨first, _ | ⟨second, rest⟩⟩
    · cases length
    · cases length
    cases same 0 (by omega)
    cases same 1 (by omega)
    have taken :
        rest.take (span opcode mode - 2) =
          operands.take (span opcode mode - 2) := by
      apply List.ext_getElem?
      intro index
      rw [List.getElem?_take, List.getElem?_take]
      split
      · next inside => exact same (index + 2) (by omega)
      · rfl
    refine ⟨?_, rfl⟩
    rw [leading, ← decode_take_span, taken, decode_take_span, leading]

/-! ## Listings -/

@[simp]
theorem listingFrom_nil (skip address : Nat) :
    listingFrom skip address [] = [] := by
  cases skip <;> rfl

/-- A listing is what bytes begin with, and the listing of the rest. -/
theorem listingFrom_of_ne_nil
    (address : Nat)
    (nonempty : bytes ≠ []) :
    listingFrom 0 address bytes =
      ⟨UInt16.ofNat address, leadingSpan bytes, leading bytes⟩ ::
        listingFrom 0 (address + leadingSpan bytes)
          (bytes.drop (leadingSpan bytes)) := by
  rcases bytes with _ | ⟨opcode, _ | ⟨mode, operands⟩⟩
  · exact absurd rfl nonempty
  · rfl
  · obtain ⟨count, two⟩ := Nat.exists_eq_add_of_le (two_le_span opcode mode)
    have behind :
        (opcode :: mode :: operands).drop (span opcode mode) =
          operands.drop (span opcode mode - 2) := by
      rw [two, Nat.add_comm 2, List.drop_succ_cons, List.drop_succ_cons,
        Nat.add_sub_cancel]
    rw [listingFrom_cons_cons, decode_take_span, ← behind]
    rfl

/-- What holds of no bytes, and of bytes if of those behind, holds of all. -/
theorem leading_induction
    {motive : Nat → List Byte → Prop}
    (nil : ∀ address, motive address [])
    (behind :
      ∀ address bytes, bytes ≠ [] →
        motive (address + leadingSpan bytes)
            (bytes.drop (leadingSpan bytes)) →
          motive address bytes)
    (address : Nat)
    (bytes : List Byte) :
    motive address bytes := by
  by_cases empty : bytes = []
  · rw [empty]
    exact nil address
  · have positive := leadingSpan_pos empty
    have shorter :
        (bytes.drop (leadingSpan bytes)).length < bytes.length := by
      have some := List.length_pos_iff.2 empty
      rw [List.length_drop]
      omega
    exact behind address bytes empty
      (leading_induction nil behind _ (bytes.drop (leadingSpan bytes)))
termination_by bytes.length

end Instruction

end PocketCpu
