import PocketCpu.Proofs.Instruction.RoundTrip

/-!
# Listings of encoded instructions

A listing passes from one instruction to the next.  The bytes of an
instruction are listed as that instruction and nothing else, whatever comes
behind them, unless the instruction inverts a constant: the bytes of such an
instruction are listed as a fault.
-/

namespace PocketCpu

namespace Instruction

/-- The bytes of an entry that is already listed are passed over. -/
theorem listingFrom_eq_drop
    (skip address : Nat)
    (bytes : List Byte) :
    listingFrom skip address bytes =
      listingFrom 0 (address + skip) (bytes.drop skip) := by
  induction bytes generalizing skip address with
  | nil => simp [listingFrom]
  | cons byte rest inductionHypothesis =>
      cases skip with
      | zero => rfl
      | succ skip =>
          rw [listingFrom, inductionHypothesis, List.drop_succ_cons,
            Nat.add_assoc, Nat.add_comm 1 skip]

/-- Two leading bytes are listed with the operands that they announce. -/
theorem listingFrom_cons_cons
    (address : Nat)
    (opcode mode : Byte)
    (operands : List Byte) :
    listingFrom 0 address (opcode :: mode :: operands) =
      ⟨UInt16.ofNat address, span opcode mode,
          decode opcode mode (operands.take (span opcode mode - 2))⟩ ::
        listingFrom 0 (address + span opcode mode)
          (operands.drop (span opcode mode - 2)) := by
  have leading : 2 ≤ span opcode mode := by
    rw [span]
    split <;> omega
  obtain ⟨count, counted⟩ := Nat.exists_eq_add_of_le leading
  have passed : span opcode mode - 1 = count + 1 := by omega
  have behind : address + 1 + (count + 1) = address + (2 + count) := by
    omega
  rw [listingFrom, listingFrom_eq_drop, passed, List.drop_succ_cons,
    behind, counted, Nat.add_sub_cancel_left]

/-- A readable instruction is listed first, in front of what follows it. -/
theorem listingFrom_bytes_append
    {instruction : Instruction}
    {bytes : List Byte}
    (encoded : instruction.encode? = some bytes)
    (isReadable : instruction.invertsConstant = false)
    (address : Nat)
    (rest : List Byte) :
    listingFrom 0 address (bytes ++ rest) =
      ⟨UInt16.ofNat address, instruction.size, .ok instruction⟩ ::
        listingFrom 0 (address + instruction.size) rest := by
  obtain ⟨mode, hasMode, rfl⟩ := encode?_eq_some_iff.1 encoded
  have spanned :
      span instruction.opcode.code mode.code = instruction.size := by
    rw [span, operandCount_of_mode? hasMode isReadable]
    rfl
  have operands :
      instruction.size - 2 = instruction.operandBytes.length :=
    Nat.add_sub_cancel_left 2 _
  have decoded := decode_of_mode? hasMode isReadable []
  rw [List.append_nil] at decoded
  rw [List.cons_append, List.cons_append, listingFrom_cons_cons, spanned,
    operands, List.take_left, List.drop_left, decoded]

/-- An inverted constant is listed as a fault. -/
theorem content_of_invertsConstant
    {instruction : Instruction}
    {bytes : List Byte}
    (encoded : instruction.encode? = some bytes)
    (inverts : instruction.invertsConstant = true)
    (address : Nat)
    (rest : List Byte) :
    ((listingFrom 0 address (bytes ++ rest)).head?.map
        ListingEntry.content) =
      some (.error (.unknownMode 0x16 0x03)) := by
  obtain ⟨mode, hasMode, rfl⟩ := encode?_eq_some_iff.1 encoded
  have unknown := fields_of_invertsConstant hasMode inverts
  rw [List.cons_append, List.cons_append, listingFrom_cons_cons, decode,
    unknown]
  cases instruction with
  | invert operand =>
      cases operand with
      | immediate value =>
          cases hasMode
          rfl
      | register _ => cases inverts
      | memory _ => cases inverts
  | _ => cases inverts

end Instruction

end PocketCpu
