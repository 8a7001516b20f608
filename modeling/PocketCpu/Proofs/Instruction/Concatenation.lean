import Mathlib.Algebra.GroupWithZero.Nat
import PocketCpu.Proofs.Instruction.Partition

/-!
# Listings of joined bytes

What bytes begin with does not depend on what follows them, unless it is cut
off by their end.  So if nothing is cut off in the listing of some bytes, the
listing of more bytes goes on behind it with what was put there, at higher
addresses.  The lengths of the entries are those of the bytes together, up to
an instruction that is cut off among its operands: its entry counts all of
them, also those that are missing.
-/

namespace PocketCpu

namespace ListingEntry

/-- The end of the bytes cuts off the instruction of an entry. -/
def IsCut (entry : ListingEntry) : Prop :=
  ∃ opcode, entry.content = .error (.truncated opcode)

/-- An entry is cut off behind its mode, so that operands are missing. -/
def LacksOperands (entry : ListingEntry) : Prop :=
  entry.IsCut ∧ 1 < entry.length

instance (entry : ListingEntry) : Decidable entry.IsCut :=
  decidable_of_iff
    ((match entry.content with
      | .error (.truncated _) => true
      | _ => false) = true) <| by
    rw [IsCut]
    split
    · next opcode cut => exact iff_of_true rfl ⟨opcode, cut⟩
    · next other =>
        refine iff_of_false Bool.false_ne_true ?_
        rintro ⟨opcode, cut⟩
        exact other opcode cut

/-- An entry at an address that is higher by a distance. -/
def shift (distance : Nat) (entry : ListingEntry) : ListingEntry :=
  { entry with
    address := UInt16.ofNat (entry.address.toNat + distance) }

/-- An address that stays inside of sixteen bits is higher by the distance. -/
theorem toNat_address_shift
    {distance : Nat}
    {entry : ListingEntry}
    (inside : entry.address.toNat + distance < 65536) :
    (entry.shift distance).address.toNat =
      entry.address.toNat + distance :=
  UInt16.toNat_ofNat_of_lt' inside

end ListingEntry

namespace Instruction

variable {address : Nat} {bytes front : List Byte}

/-! ## What bytes begin with -/

/-- Operands are missing exactly if fewer bytes are left than announced. -/
theorem lacksOperands_leading_iff
    (nonempty : bytes ≠ [])
    (address : Word) :
    ListingEntry.LacksOperands
        ⟨address, leadingSpan bytes, leading bytes⟩ ↔
      bytes.length < leadingSpan bytes := by
  cases beginning bytes with
  | none => exact absurd rfl nonempty
  | single opcode =>
      refine iff_of_false ?_ (Nat.lt_irrefl 1)
      rintro ⟨-, long⟩
      exact Nat.lt_irrefl 1 long
  | @unknown opcode mode operands fault unknown =>
      refine iff_of_false ?_ ?_
      · rintro ⟨⟨cut, shown⟩, -⟩
        rw [leading, decode_of_fields_error unknown] at shown
        cases shown
        rcases fields_error unknown with same | same <;> cases same
      · rw [leadingSpan, span_of_fields_error unknown, List.length_cons,
          List.length_cons]
        omega
  | @short opcode mode operands fields known few =>
      refine iff_of_true ⟨⟨opcode, ?_⟩, ?_⟩ ?_
      · show leading (opcode :: mode :: operands) = _
        rw [leading, decode_of_fields known, Fields.read_of_lt few]
      · exact Nat.lt_of_lt_of_le (Nat.lt_succ_self 1)
          (two_le_span opcode mode)
      · rw [leadingSpan, span_of_fields known, List.length_cons,
          List.length_cons]
        omega
  | @whole opcode mode operands fields known enough =>
      refine iff_of_false ?_ ?_
      · rintro ⟨⟨cut, shown⟩, -⟩
        rw [leading, decode_of_fields known] at shown
        rcases Fields.read_of_le opcode enough with ⟨_, read⟩ | ⟨_, read⟩
        · cases read.symm.trans shown
        · cases read.symm.trans shown
      · rw [leadingSpan, span_of_fields known, List.length_cons,
          List.length_cons]
        omega

/-- What bytes begin with stays, whatever follows, unless it is cut off. -/
theorem leading_append
    (nonempty : bytes ≠ [])
    (whole : ∀ opcode, leading bytes ≠ .error (.truncated opcode))
    (rest : List Byte) :
    leading (bytes ++ rest) = leading bytes ∧
      leadingSpan (bytes ++ rest) = leadingSpan bytes := by
  cases beginning bytes with
  | none => exact absurd rfl nonempty
  | single opcode => exact absurd rfl (whole opcode)
  | unknown unknown =>
      refine ⟨?_, rfl⟩
      rw [List.cons_append, List.cons_append, leading, leading,
        decode_of_fields_error unknown, decode_of_fields_error unknown]
  | @short opcode mode operands fields known few =>
      refine absurd ?_ (whole opcode)
      rw [leading, decode_of_fields known, Fields.read_of_lt few]
  | whole known enough =>
      refine ⟨?_, rfl⟩
      rw [List.cons_append, List.cons_append, leading, leading,
        decode_of_fields known, decode_of_fields known,
        ← Fields.read_take, List.take_append_of_le_length enough,
        Fields.read_take]

/-! ## Listings -/

/-- Nothing in the listing of bytes is cut off. -/
def IsWhole (bytes : List Byte) : Prop :=
  ∀ entry ∈ listing bytes, ¬ entry.IsCut

instance (bytes : List Byte) : Decidable (IsWhole bytes) :=
  inferInstanceAs (Decidable (∀ entry ∈ listing bytes, ¬ entry.IsCut))

/-- The addresses of a listing are counted from where its bytes begin. -/
theorem listingFrom_add
    (address distance : Nat)
    (bytes : List Byte) :
    listingFrom 0 (address + distance) bytes =
      (listingFrom 0 address bytes).map (ListingEntry.shift distance) := by
  induction address, bytes using leading_induction with
  | nil address => rw [listingFrom_nil, listingFrom_nil, List.map_nil]
  | behind address bytes nonempty inductionHypothesis =>
      have sum :
          UInt16.ofNat (address + distance) =
            UInt16.ofNat ((UInt16.ofNat address).toNat + distance) := by
        rw [← UInt16.toNat_inj]
        simp only [UInt16.toNat_ofNat', Nat.mod_add_mod]
      rw [listingFrom_of_ne_nil _ nonempty, listingFrom_of_ne_nil _ nonempty,
        List.map_cons, ← inductionHypothesis, Nat.add_right_comm, sum]
      rfl

/-- Behind a listing without a cut the listing of the bytes behind goes on. -/
theorem listingFrom_append
    (whole : ∀ entry ∈ listingFrom 0 address front, ¬ entry.IsCut)
    (back : List Byte) :
    listingFrom 0 address (front ++ back) =
      listingFrom 0 address front ++
        listingFrom 0 (address + front.length) back := by
  induction address, front using leading_induction with
  | nil address => rw [listingFrom_nil]; rfl
  | behind address front nonempty inductionHypothesis =>
      rw [listingFrom_of_ne_nil address nonempty, List.forall_mem_cons]
        at whole
      obtain ⟨first, later⟩ := whole
      have present : front ++ back ≠ [] :=
        List.append_ne_nil_of_left_ne_nil nonempty back
      have complete : leadingSpan front ≤ front.length := by
        refine Nat.le_of_not_lt fun short => first ?_
        exact ((lacksOperands_leading_iff nonempty _).2 short).1
      obtain ⟨same, span⟩ :=
        leading_append nonempty (fun opcode cut => first ⟨opcode, cut⟩) back
      rw [listingFrom_of_ne_nil address present,
        listingFrom_of_ne_nil address nonempty, same, span,
        List.drop_append_of_le_length complete, inductionHypothesis later,
        List.length_drop, Nat.add_assoc, Nat.add_sub_cancel' complete,
        List.cons_append]

/-- The lengths of entries count the bytes exactly if no operand is missing. -/
theorem sum_length_listingFrom_iff (address : Nat) (bytes : List Byte) :
    ((listingFrom 0 address bytes).map ListingEntry.length).sum =
        bytes.length ↔
      ∀ entry ∈ listingFrom 0 address bytes, ¬ entry.LacksOperands := by
  induction address, bytes using leading_induction with
  | nil address => simp
  | behind address bytes nonempty inductionHypothesis =>
      have first :=
        lacksOperands_leading_iff nonempty (UInt16.ofNat address)
      rw [listingFrom_of_ne_nil address nonempty, List.forall_mem_cons,
        List.map_cons, List.sum_cons, first, ← inductionHypothesis,
        List.length_drop]
      show leadingSpan bytes + _ = bytes.length ↔ _
      omega

/--
The listing of joined bytes is the listing of those in front, and behind it
that of the others at higher addresses, if nothing in front is cut off.
-/
theorem listing_append_of_isWhole
    {front back : List Byte}
    (small : front.length + back.length ≤ 65536)
    (whole : IsWhole front) :
    ((listing front).map ListingEntry.length).sum = front.length ∧
      listing (front ++ back) =
        listing front ++
          (listing back).map (ListingEntry.shift front.length) ∧
      ∀ entry ∈ listing back,
        (entry.shift front.length).address.toNat =
          entry.address.toNat + front.length := by
  refine ⟨?_, ?_, ?_⟩
  · apply (sum_length_listingFrom_iff 0 front).2
    rintro entry member ⟨cut, -⟩
    exact whole entry member cut
  · rw [listing, listingFrom_append whole back, listingFrom_add]
    rfl
  · intro entry member
    apply ListingEntry.toNat_address_shift
    obtain ⟨offset, inside, rfl⟩ := mem_listingFrom member
    have exact : (UInt16.ofNat (0 + offset)).toNat = 0 + offset :=
      UInt16.toNat_ofNat_of_lt' (by rw [UInt16.size]; omega)
    rw [exact]
    omega

/-- An unknown mode and a move are listed alike in front of a cut jump. -/
theorem listing_append_unknown_mode :
    IsWhole [0x16, 0x03, 0x10, 0x00, 0x01, 0x02] ∧
      listing ([0x16, 0x03, 0x10, 0x00, 0x01, 0x02] ++ [0x01, 0x00, 0x17]) =
        listing [0x16, 0x03, 0x10, 0x00, 0x01, 0x02] ++
          (listing [0x01, 0x00, 0x17]).map (ListingEntry.shift 6) := by
  have whole : IsWhole [0x16, 0x03, 0x10, 0x00, 0x01, 0x02] := by decide
  exact ⟨whole, (listing_append_of_isWhole (by decide) whole).2.1⟩

end Instruction

end PocketCpu
