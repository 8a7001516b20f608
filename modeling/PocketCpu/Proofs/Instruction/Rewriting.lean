import PocketCpu.Proofs.Instruction.Inversion
import PocketCpu.Proofs.Instruction.Partition
import PocketCpu.Proofs.Instruction.Program

/-!
# Writing a listed program again

If every entry of a listing is an instruction, then these instructions are a
program with bytes of its own.  They are the bytes that were listed, save
that a mode that an instruction ignores is written as zero, and they have the
same listing.
-/

namespace PocketCpu

namespace ListingEntry

/-- Whether an address is that of a mode byte that the entry ignores. -/
def ignores (entry : ListingEntry) (address : Nat) : Bool :=
  match entry.content with
  | .ok instruction =>
    instruction.ignoresMode && address == entry.address.toNat + 1
  | .error _ => false

/-- What an entry ignores stands behind its first byte. -/
theorem lt_of_ignores
    {entry : ListingEntry}
    {address : Nat}
    (ignored : entry.ignores address = true) :
    entry.address.toNat < address := by
  rw [ignores] at ignored
  split at ignored
  · rw [Bool.and_eq_true, beq_iff_eq] at ignored
    omega
  · cases ignored

end ListingEntry

namespace Instruction

variable {address : Nat} {bytes : List Byte} {instruction : Instruction}

/-! ## Single instructions -/

/--
An instruction leads bytes: they begin with its own bytes, save a mode that
it ignores, and are listed as the instruction up to the rest.
-/
structure Leads
    (instruction : Instruction)
    (bytes : List Byte)
    (mode own : Byte)
    (rest : List Byte) : Prop where
  bytes_eq :
    bytes =
      instruction.opcode.code :: mode :: (instruction.operandBytes ++ rest)
  bytes_own :
    instruction.bytes =
      instruction.opcode.code :: own :: instruction.operandBytes
  own_eq : own = if instruction.ignoresMode then 0 else mode
  encoded : instruction.encode? = some instruction.bytes
  isReadable : instruction.invertsConstant = false
  span_eq : leadingSpan bytes = instruction.size
  behind : bytes.drop (leadingSpan bytes) = rest

theorem mode?_of_ignoresMode
    (ignored : instruction.ignoresMode = true) :
    instruction.mode? = some .registerRegister := by
  cases instruction with
  | nop => rfl
  | halt => rfl
  | _ => cases ignored

/-- What is decoded from bytes is not cut off. -/
theorem span_le_of_decode
    {opcode mode : Byte}
    {operands : List Byte}
    (decoded : decode opcode mode operands = .ok instruction) :
    span opcode mode - 2 ≤ operands.length := by
  cases known : fields opcode mode with
  | error fault =>
      rw [decode_of_fields_error known] at decoded
      cases decoded
  | ok fields =>
      rw [decode_of_fields known] at decoded
      rw [span_of_fields known, Nat.add_sub_cancel_left]
      refine Nat.le_of_not_lt fun few => ?_
      rw [Fields.read_of_lt few] at decoded
      cases decoded

/-- What is decoded from bytes leads them. -/
theorem exists_leads
    (decoded : leading bytes = .ok instruction) :
    ∃ mode own rest, instruction.Leads bytes mode own rest := by
  rcases bytes with _ | ⟨opcode, _ | ⟨mode, operands⟩⟩
  · cases decoded
  · cases decoded
  · have enough := span_le_of_decode decoded
    have two := two_le_span opcode mode
    obtain ⟨rfl, ⟨own, hasMode, kept⟩, operandBytes, isReadable⟩ :=
      isWritten_of_decode decoded
    have encoded := encode?_eq_some_iff.2 ⟨own, hasMode, rfl⟩
    have bytes_own := bytes_of_encode? encoded
    rw [← bytes_own] at encoded
    have length := congrArg List.length operandBytes
    rw [List.length_take_of_le enough] at length
    refine ⟨mode, own.code,
      operands.drop (span instruction.opcode.code mode - 2), ?_,
      bytes_own, ?_, encoded, isReadable, ?_, ?_⟩
    · rw [operandBytes, List.take_append_drop]
    · cases ignored : instruction.ignoresMode with
      | true =>
          rw [mode?_of_ignoresMode ignored] at hasMode
          cases hasMode
          rfl
      | false => exact kept ignored
    · rw [leadingSpan, size, length]
      omega
    · obtain ⟨count, spanned⟩ := Nat.exists_eq_add_of_le two
      rw [leadingSpan, spanned, Nat.add_sub_cancel_left, Nat.add_comm]
      rfl

section Leading

variable {mode own : Byte} {rest : List Byte}

theorem Leads.length_eq
    (leads : instruction.Leads bytes mode own rest) :
    bytes.length = instruction.size + rest.length := by
  rw [leads.bytes_eq, List.length_cons, List.length_cons,
    List.length_append, size]
  omega

/-- The entry for an instruction that leads bytes. -/
theorem Leads.listingFrom_eq
    (leads : instruction.Leads bytes mode own rest)
    (decoded : leading bytes = .ok instruction)
    (address : Nat) :
    listingFrom 0 address bytes =
      ⟨UInt16.ofNat address, instruction.size, .ok instruction⟩ ::
        listingFrom 0 (address + instruction.size) rest := by
  have nonempty : bytes ≠ [] := by
    rw [leads.bytes_eq]
    exact List.cons_ne_nil _ _
  rw [listingFrom_of_ne_nil address nonempty, leads.behind, leads.span_eq,
    decoded]

/-- The own bytes of an instruction differ in a mode that it ignores. -/
theorem Leads.getElem?_eq
    (leads : instruction.Leads bytes mode own rest)
    (tail : List Byte)
    {index : Nat}
    (inside : index < instruction.size) :
    (instruction.bytes ++ tail)[index]? =
      if instruction.ignoresMode && index == 1 then some 0
      else bytes[index]? := by
  rw [leads.bytes_own, leads.bytes_eq]
  rcases index with _ | _ | index
  · have notMode : (0 == 1) = false := rfl
    rw [notMode, Bool.and_false]
    rfl
  · rw [Nat.zero_add, beq_self_eq_true, Bool.and_true]
    show some own = if instruction.ignoresMode then some 0 else some mode
    rw [leads.own_eq]
    cases instruction.ignoresMode <;> rfl
  · have inOperands : index < instruction.operandBytes.length := by
      rw [size] at inside
      omega
    have notMode : (index + 1 + 1 == 1) = false :=
      beq_eq_false_iff_ne.2 (by omega)
    rw [notMode, Bool.and_false]
    show (instruction.operandBytes ++ tail)[index]? =
      (instruction.operandBytes ++ rest)[index]?
    rw [List.getElem?_append_left inOperands,
      List.getElem?_append_left inOperands]

/-- Behind an instruction come the bytes of the rest. -/
theorem Leads.getElem?_add
    (leads : instruction.Leads bytes mode own rest)
    (offset : Nat) :
    bytes[instruction.size + offset]? = rest[offset]? := by
  rw [← leads.behind, leads.span_eq, List.getElem?_drop]

end Leading

/-- The entry of an instruction ignores at most its second byte. -/
theorem ignores_entry
    (instruction : Instruction)
    (length : Nat)
    (small : address < 65536)
    (index : Nat) :
    ListingEntry.ignores
        ⟨UInt16.ofNat address, length, .ok instruction⟩
        (address + index) =
      (instruction.ignoresMode && index == 1) := by
  have exact : (UInt16.ofNat address).toNat = address :=
    UInt16.toNat_ofNat_of_lt' small
  have same : (address + index == address + 1) = (index == 1) := by
    rw [Bool.eq_iff_iff, beq_iff_eq, beq_iff_eq, Nat.add_left_cancel_iff]
  rw [← same]
  show (instruction.ignoresMode &&
      address + index == (UInt16.ofNat address).toNat + 1) = _
  rw [exact]

/-! ## Programs -/

/--
A program rewrites bytes that are listed from an address on: it consists of
the instructions that are listed, and its bytes are the same, save the modes
that are ignored, and have the same listing.
-/
structure Rewrites
    (program : Program)
    (address : Nat)
    (bytes : List Byte) : Prop where
  contents :
    (listingFrom 0 address bytes).map ListingEntry.content =
      program.map .ok
  encodable : program.IsEncodable
  length_eq : program.bytes.length = bytes.length
  getElem?_eq :
    ∀ index < bytes.length,
      program.bytes[index]? =
        if (listingFrom 0 address bytes).any
            (·.ignores (address + index)) then
          some 0
        else
          bytes[index]?
  listed :
    listingFrom 0 address program.bytes = listingFrom 0 address bytes

/-- No entry of a listing ignores anything in front of it. -/
theorem any_ignores_of_le
    {index : Nat}
    (small : address + bytes.length ≤ 65536)
    (inFront : index ≤ address) :
    (listingFrom 0 address bytes).any (·.ignores index) = false := by
  rw [List.any_eq_false]
  intro entry member ignored
  have behind := le_address_of_mem_listingFrom small member
  have inside := ListingEntry.lt_of_ignores ignored
  omega

section Cons

variable {program : Program} {mode own : Byte} {rest : List Byte}
variable (small : address + bytes.length ≤ 65536)
variable (leads : instruction.Leads bytes mode own rest)
variable (decoded : leading bytes = .ok instruction)
variable (rewrites : Rewrites program (address + instruction.size) rest)

include small leads decoded rewrites

/-- A byte belongs to the first instruction, or to those behind it. -/
theorem Rewrites.getElem?_cons
    {index : Nat}
    (inside : index < bytes.length) :
    (Program.bytes (instruction :: program))[index]? =
      if (listingFrom 0 address bytes).any
          (·.ignores (address + index)) then
        some 0
      else
        bytes[index]? := by
  have length := leads.length_eq
  have ownLength := length_of_encode? leads.encoded
  have two : 2 ≤ instruction.size := Nat.le_add_right 2 _
  have exact : address < 65536 := by omega
  have first := instruction.ignores_entry instruction.size exact index
  rw [leads.listingFrom_eq decoded, List.any_cons, Program.bytes_cons, first]
  by_cases here : index < instruction.size
  · have later :
        (listingFrom 0 (address + instruction.size) rest).any
          (·.ignores (address + index)) = false :=
      any_ignores_of_le (by omega) (by omega)
    rw [later, Bool.or_false]
    exact leads.getElem?_eq program.bytes here
  · obtain ⟨offset, rfl⟩ := Nat.exists_eq_add_of_le (Nat.not_lt.1 here)
    have notMode : (instruction.size + offset == 1) = false :=
      beq_eq_false_iff_ne.2 (by omega)
    rw [notMode, Bool.and_false, Bool.false_or, leads.getElem?_add,
      List.getElem?_append_right (by omega), ownLength,
      Nat.add_sub_cancel_left, ← Nat.add_assoc]
    exact rewrites.getElem?_eq offset (by omega)

theorem Rewrites.cons :
    Rewrites (instruction :: program) address bytes := by
  have listing := leads.listingFrom_eq decoded address
  refine ⟨?_, ?_, ?_, ?_, ?_⟩
  · rw [listing, List.map_cons, List.map_cons, rewrites.contents]
  · intro chosen member
    rcases List.mem_cons.1 member with rfl | later
    · exact ⟨_, leads.encoded⟩
    · exact rewrites.encodable chosen later
  · rw [Program.bytes_cons, List.length_append,
      length_of_encode? leads.encoded, rewrites.length_eq, leads.length_eq]
  · intro index inside
    exact rewrites.getElem?_cons small leads decoded inside
  · rw [Program.bytes_cons,
      listingFrom_bytes_append leads.encoded leads.isReadable,
      rewrites.listed, listing]

end Cons

/-- Bytes that are listed without a fault are rewritten by a program. -/
theorem exists_rewrites
    (small : address + bytes.length ≤ 65536)
    (readable :
      ∀ entry ∈ listingFrom 0 address bytes, entry.content.isOk = true) :
    ∃ program, Rewrites program address bytes := by
  induction address, bytes using leading_induction with
  | nil address =>
      refine ⟨[], rfl, Program.IsEncodable.nil, rfl, ?_, rfl⟩
      exact fun index inside => absurd inside (Nat.not_lt_zero index)
  | behind address bytes nonempty inductionHypothesis =>
      rw [listingFrom_of_ne_nil address nonempty] at readable
      obtain ⟨first, others⟩ := List.forall_mem_cons.1 readable
      cases decoded : leading bytes with
      | error fault =>
          simp only [decoded] at first
          cases first
      | ok instruction =>
          obtain ⟨mode, own, rest, leads⟩ := exists_leads decoded
          have length := leads.length_eq
          rw [leads.behind, leads.span_eq] at inductionHypothesis others
          obtain ⟨program, rewrites⟩ :=
            inductionHypothesis (by omega) others
          exact ⟨instruction :: program,
            rewrites.cons small leads decoded⟩

end Instruction

end PocketCpu
