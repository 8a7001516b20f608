import PocketCpu.Proofs.Assembly.Printing
import PocketCpu.Proofs.Instruction.Rewriting

/-!
# Reassembling listings

The listing of bytes, if it shows no fault, is a source of its own.  It is
assembled to the same bytes again, save the modes that instructions without
operands ignore: these are written as zero.  From then on nothing changes
any more, however often the bytes are listed and assembled.
-/

namespace PocketCpu

/-- The texts of the entries of a listing, each on a line of its own. -/
def Instruction.listingText (entries : List ListingEntry) : Text :=
  ['\n'].intercalate (entries.map fun entry => entry.text.toList)

/-- A listing without a fault shows the text of a program. -/
theorem Instruction.listingText_eq
    {entries : List ListingEntry}
    {program : Program}
    (contents : entries.map ListingEntry.content = program.map .ok) :
    listingText entries = program.text := by
  -- What an entry shows depends on its content only.
  have shown :
      (entries.map fun entry => entry.text.toList) =
        (entries.map ListingEntry.content).map fun content =>
          (ListingEntry.text ⟨0, 0, content⟩).toList := by
    rw [List.map_map]
    rfl
  have printed (instruction : Instruction) :
      (ListingEntry.text ⟨0, 0, .ok instruction⟩).toList =
        instruction.text :=
    String.toList_ofList
  rw [listingText, shown, contents, List.map_map, Program.text]
  exact congrArg _ (List.map_congr_left fun instruction _ =>
    printed instruction)

/-- Bytes that were written to the start of memory can be written again. -/
theorem Memory.write_write_zero
    {size : Nat}
    {memory : Memory size}
    {bytes : List Byte}
    (fits : bytes.length ≤ size) :
    (memory.write 0 bytes).write 0 bytes = memory.write 0 bytes := by
  apply Memory.ext_get?
  intro address
  rw [← toList_getElem?, ← toList_getElem?, toList_write_zero fits,
    toList_write_zero fits, List.drop_left]

namespace Workspace

variable {size : Nat}

/--
Memory begins with bytes as they are written from their listing: the modes
that are ignored are zero, all other bytes are the same.
-/
structure Rewritten
    (workspace : Workspace size)
    (bytes : List Byte) : Prop where
  labels : workspace.labels = .empty
  code :
    ∀ index < bytes.length,
      workspace.memory.get? index =
        if (Instruction.listing bytes).any (·.ignores index) then some 0
        else bytes[index]?
  /-- The instructions that are listed have the same bytes by themselves. -/
  encoded :
    ∃ program : Program,
      (Instruction.listing bytes).map ListingEntry.content =
          program.map .ok ∧
        program.IsEncodable ∧
        workspace.memory.toList.take bytes.length = program.bytes
  listed :
    Instruction.listing (workspace.memory.toList.take bytes.length) =
      Instruction.listing bytes

/--
The listing of bytes, if it shows no fault, is assembled to these bytes, and
assembling the listing of the result gives the same result again.
-/
theorem assemble_listingText
    {bytes : List Byte}
    (small : size < 65536)
    (fits : bytes.length ≤ size)
    (readable :
      ∀ entry ∈ Instruction.listing bytes, entry.content.isOk = true) :
    ∃ after : Workspace size,
      (ofMemory (.zero size)).assemble
            (Instruction.listingText (Instruction.listing bytes)) =
          (after, .ok bytes.length) ∧
        after.Rewritten bytes ∧
        ∀ before, before = ofMemory (.zero size) ∨ before = after →
          before.assemble
              (Instruction.listingText
                (Instruction.listing
                  (after.memory.toList.take bytes.length))) =
            (after, .ok bytes.length) := by
  obtain ⟨program, rewrites⟩ :
      ∃ program, Instruction.Rewrites program 0 bytes :=
    Instruction.exists_rewrites (by omega) readable
  have length := rewrites.length_eq
  have ownFits : program.bytes.length ≤ size := by omega
  have assembled := assemble_text rewrites.encodable ownFits
  have written :
      ((Memory.zero size).write 0 program.bytes).toList.take
          bytes.length =
        program.bytes := by
    rw [Memory.toList_write_zero ownFits, ← length, List.take_left]
  have shown := Instruction.listingText_eq rewrites.contents
  refine ⟨⟨(Memory.zero size).write 0 program.bytes, .empty⟩,
    ?_, ⟨rfl, ?_, ?_, ?_⟩, ?_⟩
  · rw [Instruction.listing, shown, assembled, length]
    rfl
  · intro index inside
    have found :
        ((Memory.zero size).write 0 program.bytes).get? (0 + index) =
          program.bytes[index]? :=
      Memory.get?_write_add (by omega) (by omega)
    have same := rewrites.getElem?_eq index inside
    rw [Nat.zero_add] at found same
    exact found.trans same
  · exact ⟨program, rewrites.contents, rewrites.encodable, written⟩
  · show Instruction.listing (List.take _ _) = _
    rw [written]
    exact rewrites.listed
  · intro before known
    show before.assemble
        (Instruction.listingText (Instruction.listing (List.take _ _))) = _
    rw [written, Instruction.listing, rewrites.listed, shown, assembled,
      length]
    rcases known with rfl | rfl
    · rfl
    · rw [Memory.write_write_zero ownFits]

/-- The modes of two instructions without operands are written as zero. -/
theorem assemble_listingText_bare :
    Instruction.listingText
          (Instruction.listing
            [0x00, 0x07, 0x10, 0x04, 0x01, 0x18, 0x00, 0x07, 0x01, 0xff]) =
        "NOP\nMOV MOP, #01\nJZ AH\nHLT".toList ∧
      ∃ after : Workspace 12,
        (ofMemory (.zero 12)).assemble
              (Instruction.listingText
                (Instruction.listing
                  [0x00, 0x07, 0x10, 0x04, 0x01, 0x18, 0x00, 0x07, 0x01,
                    0xff])) =
            (after, .ok 10) ∧
          after.memory.get? 1 = some 0 ∧
          after.memory.get? 7 = some 0x07 ∧
          after.memory.get? 9 = some 0 := by
  refine ⟨by decide, ?_⟩
  obtain ⟨after, assembled, rewritten, _⟩ :=
    @assemble_listingText 12
      [0x00, 0x07, 0x10, 0x04, 0x01, 0x18, 0x00, 0x07, 0x01, 0xff]
      (by decide) (by decide) (by decide)
  exact ⟨after, assembled, rewritten.code 1 (by decide),
    rewritten.code 7 (by decide), rewritten.code 9 (by decide)⟩

end Workspace

end PocketCpu
