import Mathlib.Data.List.Chain
import PocketCpu.Proofs.Instruction.Leading

/-!
# Listings partition their bytes

The entries of a listing lie one behind the other, without gaps and without
overlaps, from address zero to the end of the bytes.  Each entry shows what
the bytes at its address begin with, and only the last one can be cut off.
-/

namespace PocketCpu

namespace ListingEntry

/-- Whether an address belongs to the bytes of an entry. -/
def covers (entry : ListingEntry) (address : Nat) : Bool :=
  entry.address.toNat ≤ address &&
    address < entry.address.toNat + entry.length

/--
Entries partition the addresses below a bound: they begin at zero, each
begins where the one before it ends, every address belongs to exactly one of
them, and none but the last is cut off.
-/
structure Partition (entries : List ListingEntry) (bound : Nat) :
    Prop where
  start : ∀ entry ∈ entries.head?, entry.address = 0
  consecutive :
    entries.IsChain fun left right =>
      right.address.toNat = left.address.toNat + left.length
  exactlyOne :
    ∀ address < bound, entries.countP (covers · address) = 1
  whole :
    ∀ entry ∈ entries.dropLast, ∀ opcode,
      entry.content ≠ .error (.truncated opcode)

end ListingEntry

namespace Instruction

variable {address : Nat} {bytes : List Byte} {entry : ListingEntry}

/-- The first entry of a listing shows what the bytes begin with. -/
theorem head?_listingFrom
    (first : entry ∈ (listingFrom 0 address bytes).head?) :
    entry =
      ⟨UInt16.ofNat address, leadingSpan bytes, leading bytes⟩ := by
  by_cases empty : bytes = []
  · subst empty
    cases first
  · rw [listingFrom_of_ne_nil address empty] at first
    exact (Option.mem_some.1 first).symm

/-- Every entry of a listing shows what the bytes at its address begin with. -/
theorem mem_listingFrom
    (member : entry ∈ listingFrom 0 address bytes) :
    ∃ offset < bytes.length,
      entry =
        ⟨UInt16.ofNat (address + offset),
          leadingSpan (bytes.drop offset),
          leading (bytes.drop offset)⟩ := by
  induction address, bytes using leading_induction with
  | nil address => cases member
  | behind address bytes nonempty inductionHypothesis =>
      rw [listingFrom_of_ne_nil address nonempty] at member
      rcases List.mem_cons.1 member with rfl | later
      · exact ⟨0, List.length_pos_iff.2 nonempty, rfl⟩
      · obtain ⟨offset, inside, shown⟩ := inductionHypothesis later
        rw [List.length_drop] at inside
        refine ⟨leadingSpan bytes + offset, by omega, ?_⟩
        rw [shown, List.drop_drop, Nat.add_assoc]

/-- No entry of a listing begins in front of it. -/
theorem le_address_of_mem_listingFrom
    (small : address + bytes.length ≤ 65536)
    (member : entry ∈ listingFrom 0 address bytes) :
    address ≤ entry.address.toNat := by
  obtain ⟨offset, inside, rfl⟩ := mem_listingFrom member
  have exact : (UInt16.ofNat (address + offset)).toNat =
      address + offset :=
    UInt16.toNat_ofNat_of_lt' (by rw [UInt16.size]; omega)
  rw [exact]
  exact Nat.le_add_right address offset

theorem isChain_listingFrom
    (small : address + bytes.length ≤ 65536) :
    (listingFrom 0 address bytes).IsChain fun left right =>
      right.address.toNat = left.address.toNat + left.length := by
  induction address, bytes using leading_induction with
  | nil address =>
      rw [listingFrom_nil]
      exact List.isChain_nil
  | behind address bytes nonempty inductionHypothesis =>
      have some := List.length_pos_iff.2 nonempty
      have positive := leadingSpan_pos nonempty
      rw [listingFrom_of_ne_nil address nonempty, List.isChain_cons]
      by_cases ends : bytes.drop (leadingSpan bytes) = []
      · rw [ends, listingFrom_nil]
        refine ⟨?_, List.isChain_nil⟩
        intro right first
        cases first
      · have left := List.length_pos_iff.2 ends
        rw [List.length_drop] at left inductionHypothesis
        refine ⟨?_, inductionHypothesis (by omega)⟩
        intro right first
        rw [head?_listingFrom first]
        show (UInt16.ofNat (address + leadingSpan bytes)).toNat =
          (UInt16.ofNat address).toNat + leadingSpan bytes
        rw [UInt16.toNat_ofNat_of_lt' (by rw [UInt16.size]; omega),
          UInt16.toNat_ofNat_of_lt' (by rw [UInt16.size]; omega)]

/-- No entry of a listing covers an address in front of it. -/
theorem countP_covers_of_lt
    {index : Nat}
    (small : address + bytes.length ≤ 65536)
    (inFront : index < address) :
    (listingFrom 0 address bytes).countP
        (ListingEntry.covers · index) = 0 := by
  rw [List.countP_eq_zero]
  intro entry member covered
  have behind := le_address_of_mem_listingFrom small member
  simp only [ListingEntry.covers, Bool.and_eq_true, decide_eq_true_eq]
    at covered
  omega

/-- Every address of the bytes is covered by exactly one entry. -/
theorem countP_covers
    {index : Nat}
    (small : address + bytes.length ≤ 65536)
    (above : address ≤ index)
    (inside : index < address + bytes.length) :
    (listingFrom 0 address bytes).countP
        (ListingEntry.covers · index) = 1 := by
  induction address, bytes using leading_induction with
  | nil address => exact absurd inside (Nat.not_lt.2 above)
  | behind address bytes nonempty inductionHypothesis =>
      have positive := leadingSpan_pos nonempty
      have exact : (UInt16.ofNat address).toNat = address :=
        UInt16.toNat_ofNat_of_lt' (by rw [UInt16.size]; omega)
      rw [listingFrom_of_ne_nil address nonempty, List.countP_cons]
      simp only [ListingEntry.covers, exact, Bool.and_eq_true,
        decide_eq_true_eq]
      by_cases here : index < address + leadingSpan bytes
      · rw [if_pos ⟨above, here⟩]
        by_cases ends : bytes.length ≤ leadingSpan bytes
        · rw [List.drop_eq_nil_of_le ends]
          rfl
        · have none :
              (listingFrom 0 (address + leadingSpan bytes)
                  (bytes.drop (leadingSpan bytes))).countP
                  (ListingEntry.covers · index) = 0 :=
            countP_covers_of_lt (by rw [List.length_drop]; omega) here
          simp only [ListingEntry.covers] at none
          rw [none]
      · rw [if_neg fun covered => here covered.2]
        rw [List.length_drop] at inductionHypothesis
        exact inductionHypothesis (by omega) (by omega) (by omega)

/-- Only the last entry of a listing can be cut off. -/
theorem whole_of_mem_dropLast
    {opcode : Byte}
    (member : entry ∈ (listingFrom 0 address bytes).dropLast) :
    entry.content ≠ .error (.truncated opcode) := by
  induction address, bytes using leading_induction with
  | nil address => cases member
  | behind address bytes nonempty inductionHypothesis =>
      rw [listingFrom_of_ne_nil address nonempty] at member
      by_cases ends : bytes.drop (leadingSpan bytes) = []
      · rw [ends] at member
        cases member
      · rw [listingFrom_of_ne_nil _ ends, List.dropLast_cons_cons,
          ← listingFrom_of_ne_nil _ ends] at member
        rcases List.mem_cons.1 member with rfl | later
        · exact fun cut => ends (drop_leadingSpan_of_truncated cut)
        · exact inductionHypothesis later

/-- The listing of bytes partitions their addresses. -/
theorem partition_listing
    (small : bytes.length ≤ 65536) :
    ListingEntry.Partition (listing bytes) bytes.length where
  start entry first := by
    rw [head?_listingFrom first]
    rfl
  consecutive := isChain_listingFrom (by omega)
  exactlyOne index inside :=
    countP_covers (by omega) (Nat.zero_le index) (by omega)
  whole entry member _ := whole_of_mem_dropLast member

end Instruction

end PocketCpu
