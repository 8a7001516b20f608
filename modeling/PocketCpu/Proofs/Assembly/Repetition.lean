import PocketCpu.Proofs.Assembly.Effect

/-!
# Assembling again

What an assembly puts where depends on the source and on the size of memory
alone.  At each address it either writes one byte, whatever was there, or
leaves the byte alone, also if some lines are at fault.  So the labels and
the memory that an earlier source left behind do not matter, and assembling
the same source again changes nothing.
-/

namespace PocketCpu

/-- One of the pieces has a byte for an address. -/
def Emission.Put
    (emissions : List Emission)
    (address : Nat)
    (byte : Byte) : Prop :=
  ∃ emission ∈ emissions, ∃ offset,
    emission.bytes[offset]? = some byte ∧
      emission.address + offset = address

namespace Assembly

variable {size address : Nat} {source : Text} {byte : Byte}

/-- A written byte is found in memory, whatever was there before. -/
theorem get?_writeTo_of_put
    (put : Emission.Put (ofSource size source).emissions address byte)
    (memory : Memory size) :
    ((ofSource size source).writeTo memory).get? address = some byte := by
  obtain ⟨emission, member, offset, found, rfl⟩ := put
  obtain ⟨inside, _⟩ := List.getElem?_eq_some_iff.1 found
  have slice :
      ((ofSource size source).writeTo memory).slice
          emission.address emission.bytes.length =
        emission.bytes :=
    Emission.slice_foldl_writeTo areSpread_emissions_ofSource member
      (end_le_of_mem_emissions member)
  rw [Memory.slice_eq_take_drop] at slice
  rw [← found, ← slice, List.getElem?_take_of_lt inside,
    List.getElem?_drop, Memory.toList_getElem?]

/-- A byte that is not written stays. -/
theorem get?_writeTo_of_not_put
    (silent :
      ∀ byte, ¬ Emission.Put (ofSource size source).emissions address byte)
    (memory : Memory size) :
    ((ofSource size source).writeTo memory).get? address =
      memory.get? address := by
  apply Emission.get?_foldl_writeTo
  intro emission member
  rcases Nat.lt_or_ge address emission.address with inFront | above
  · exact Or.inl inFront
  · refine Or.inr (Nat.le_of_not_lt fun below => ?_)
    obtain ⟨offset, rfl⟩ := Nat.exists_eq_add_of_le above
    have inside : offset < emission.bytes.length := by omega
    exact silent emission.bytes[offset]
      ⟨emission, member, offset, List.getElem?_eq_getElem inside, rfl⟩

/-- Writing an assembly again changes nothing. -/
theorem writeTo_writeTo (memory : Memory size) :
    (ofSource size source).writeTo
        ((ofSource size source).writeTo memory) =
      (ofSource size source).writeTo memory := by
  apply Memory.ext_get?
  intro address
  by_cases written :
      ∃ byte, Emission.Put (ofSource size source).emissions address byte
  · obtain ⟨byte, put⟩ := written
    rw [get?_writeTo_of_put put, get?_writeTo_of_put put]
  · exact get?_writeTo_of_not_put (not_exists.1 written) _

end Assembly

/--
A source is assembled alike in two workspaces: with the same result and the
same labels, and with the same bytes at the same addresses.
-/
structure Workspace.AssemblesAlike
    {size : Nat}
    (first second : Workspace size)
    (source : Text) : Prop where
  result : (second.assemble source).2 = (first.assemble source).2
  labels :
    (second.assemble source).1.labels = (first.assemble source).1.labels
  /-- Line by line, the same bytes are put at the same addresses. -/
  emissions : second.emissions source = first.emissions source
  /-- A byte that is written is the same in both memories. -/
  written :
    ∀ address byte, Emission.Put (first.emissions source) address byte →
      (first.assemble source).1.memory.get? address = some byte ∧
        (second.assemble source).1.memory.get? address = some byte
  /-- Where nothing is written, each memory is as before. -/
  kept :
    ∀ address,
      (∀ byte, ¬ Emission.Put (first.emissions source) address byte) →
      (first.assemble source).1.memory.get? address =
          first.memory.get? address ∧
        (second.assemble source).1.memory.get? address =
          second.memory.get? address

/--
A source is assembled alike whatever memory and labels were before, and the
second time it is assembled nothing changes.
-/
theorem Workspace.assemblesAlike_and_again
    {size : Nat}
    (first second : Workspace size)
    (source : Text) :
    first.AssemblesAlike second source ∧
      (first.assemble source).1.assemble source =
        first.assemble source := by
  refine ⟨⟨?_, ?_, ?_, ?_, ?_⟩, ?_⟩
  · rw [result_assemble, result_assemble]
  · rw [labels_assemble, labels_assemble]
  · rw [emissions_eq, emissions_eq]
  · intro address byte put
    rw [emissions_eq] at put
    rw [memory_assemble, memory_assemble]
    exact ⟨Assembly.get?_writeTo_of_put put first.memory,
      Assembly.get?_writeTo_of_put put second.memory⟩
  · intro address silent
    rw [emissions_eq] at silent
    rw [memory_assemble, memory_assemble]
    exact ⟨Assembly.get?_writeTo_of_not_put silent first.memory,
      Assembly.get?_writeTo_of_not_put silent second.memory⟩
  · rw [assemble_eq, assemble_eq, Assembly.writeTo_writeTo]

end PocketCpu
