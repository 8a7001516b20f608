import Mathlib.Data.List.Forall2
import PocketCpu.Proofs.Assembly.Passes
import PocketCpu.Proofs.Instruction.Listing

/-!
# Listings of assembled sources

The listing of what a source puts into memory shows the source again: one
entry for each instruction line, at the address of the line, in its size and
with its instruction.  This holds exactly if no line inverts a constant.
Such a line has bytes, but its mode is unknown to the decoder.
-/

namespace PocketCpu

namespace PlacedLine

/-- Whether there is an instruction on a placed line. -/
def hasCode (placed : PlacedLine) : Bool :=
  placed.line.code.isSome

/--
An entry shows a placed line: it has the line's address, the size of the
line's bytes and the instruction that is read from the line.
-/
structure IsShown
    (labels : LabelTable)
    (placed : PlacedLine)
    (entry : ListingEntry) : Prop where
  address : entry.address.toNat = placed.address
  length : entry.length = (placed.line.bytes labels).length
  content :
    ∃ text instruction,
      placed.line.code = some text ∧
        Statement.instructionOf labels text = .ok instruction ∧
        entry.content = .ok instruction

end PlacedLine

namespace SourceLine

/-- The instruction of a line, if it has one, does not invert a constant. -/
def IsReadable (labels : LabelTable) (line : SourceLine) : Prop :=
  ∀ text instruction,
    line.code = some text →
    Statement.instructionOf labels text = .ok instruction →
    instruction.invertsConstant = false

variable {labels : LabelTable} {line : SourceLine}

instance (labels : LabelTable) (line : SourceLine) :
    Decidable (line.IsReadable labels) :=
  decidable_of_iff
    (∀ text ∈ line.code,
      ∀ instruction ∈ (Statement.instructionOf labels text).toOption,
        instruction.invertsConstant = false) <| by
    constructor
    · intro keeps text instruction written read
      apply keeps text written
      rw [read]
      rfl
    · intro isReadable text written instruction found
      apply isReadable text instruction written
      cases read : Statement.instructionOf labels text with
      | error _ =>
          rw [read] at found
          cases found
      | ok _ =>
          rw [read] at found
          cases found
          rfl

theorem isReadable_of_code_eq_none
    (blank : line.code = none) :
    line.IsReadable labels := by
  intro text instruction written
  rw [blank] at written
  cases written

theorem isReadable_iff
    {text : Text}
    {instruction : Instruction}
    (written : line.code = some text)
    (read : Statement.instructionOf labels text = .ok instruction) :
    line.IsReadable labels ↔ instruction.invertsConstant = false := by
  constructor
  · intro isReadable
    exact isReadable text instruction written read
  · intro keeps ownText ownInstruction ownWritten ownRead
    cases written.symm.trans ownWritten
    cases read.symm.trans ownRead
    exact keeps

end SourceLine

namespace Layout.AllSound

variable {labels : LabelTable} {size start : Nat}
variable {lines : List SourceLine}

/-- The listing of the bytes of sound lines shows the lines if they are readable. -/
theorem forall₂_isShown_iff
    (sound : AllSound labels size start lines)
    (inside : start ≤ size)
    (small : size < 65536) :
    List.Forall₂ (PlacedLine.IsShown labels)
        ((placeFrom start lines).filter PlacedLine.hasCode)
        (Instruction.listingFrom 0 start
          (lines.flatMap (SourceLine.bytes labels))) ↔
      ∀ line ∈ lines, line.IsReadable labels := by
  induction lines generalizing start with
  | nil =>
      exact iff_of_true List.Forall₂.nil (List.forall_mem_nil _)
  | cons line rest inductionHypothesis =>
      have others :=
        inductionHypothesis sound.tail (sound.head.end_le inside)
      rw [placeFrom_cons, List.flatMap_cons, List.forall_mem_cons]
      cases written : line.code with
      | none =>
          rw [SourceLine.size_of_code_eq_none written, Nat.add_zero]
            at others ⊢
          rw [List.filter_cons_of_neg (by simp [PlacedLine.hasCode, written]),
            SourceLine.bytes_of_code_eq_none written, List.nil_append,
            others, and_iff_right
              (SourceLine.isReadable_of_code_eq_none written)]
      | some text =>
          obtain ⟨bytes, encoded, _⟩ := sound.head.code text written
          obtain ⟨instruction, read, hasBytes⟩ :=
            Statement.encodeText_eq_ok_iff.1 encoded
          have ownBytes := SourceLine.bytes_of_encodeText written encoded
          rw [SourceLine.size_of_instructionOf written read] at others ⊢
          rw [List.filter_cons_of_pos (by simp [PlacedLine.hasCode, written]),
            ownBytes, SourceLine.isReadable_iff written read]
          cases inverts : instruction.invertsConstant with
          | false =>
              have exact : (UInt16.ofNat start).toNat = start :=
                UInt16.toNat_ofNat_of_lt' (Nat.lt_of_le_of_lt inside small)
              have length :
                  instruction.size = (line.bytes labels).length := by
                rw [ownBytes, Instruction.length_of_encode? hasBytes]
              have shown :
                  PlacedLine.IsShown labels ⟨line, start⟩
                    ⟨UInt16.ofNat start, instruction.size,
                      .ok instruction⟩ :=
                ⟨exact, length, text, instruction, written, read, rfl⟩
              rw [Instruction.listingFrom_bytes_append hasBytes inverts,
                List.forall₂_cons, others, and_iff_right shown,
                and_iff_right rfl]
          | true =>
              -- The entry of the line is a fault and shows no instruction.
              have fault := Instruction.content_of_invertsConstant
                hasBytes inverts start
                (rest.flatMap (SourceLine.bytes labels))
              constructor
              · intro shown
                obtain ⟨entry, entries, here, _, listed⟩ :=
                  List.forall₂_cons_left_iff.1 shown
                obtain ⟨_, found, _, _, content⟩ := here.content
                rw [listed, List.head?_cons, Option.map_some, content]
                  at fault
                cases fault
              · rintro ⟨keeps, _⟩
                cases keeps

end Layout.AllSound

/--
The listing of the first bytes of memory shows the instruction lines of a
source, in their order and without anything between them.
-/
def Workspace.Shows
    {size : Nat}
    (workspace : Workspace size)
    (source : Text)
    (count : Nat) : Prop :=
  List.Forall₂ (PlacedLine.IsShown workspace.labels)
    ((Layout.place (SourceLine.ofSource source)).filter PlacedLine.hasCode)
    (Instruction.listing (workspace.memory.toList.take count))

namespace Workspace

variable {size : Nat}

/--
The listing of what was assembled shows the source exactly if no line
inverts a constant.
-/
theorem shows_assemble_iff
    {workspace : Workspace size}
    {source : Text}
    {count : Nat}
    (small : size < 65536)
    (assembled : (workspace.assemble source).2 = .ok count) :
    (workspace.assemble source).1.Shows source count ↔
      ∀ line ∈ SourceLine.ofSource source,
        line.IsReadable (workspace.assemble source).1.labels := by
  obtain ⟨sound, rfl⟩ := assemble_eq_ok_iff.1 assembled
  have fits := sound.end_le (Nat.zero_le size)
  have length := sound.length_bytes
  rw [Nat.zero_add] at fits
  rw [Shows, assemble_of_ok assembled,
    Memory.toList_write_zero (Nat.le_trans (Nat.le_of_eq length) fits),
    ← length, List.take_left]
  exact sound.forall₂_isShown_iff (Nat.zero_le size) small

/-- A source with an inverted register is shown by its listing. -/
theorem shows_inverted_register :
    ((ofMemory (.zero 8)).assemble "a: JZ b\nNOT AX\nb:".toList).1.Shows
      "a: JZ b\nNOT AX\nb:".toList 6 :=
  (shows_assemble_iff (by decide) rfl).2 (by decide)

/-- An inverted constant is assembled without a mistake but not shown. -/
theorem not_shows_inverted_constant :
    ((ofMemory (.zero 3)).assemble "NOT #5".toList).2 = .ok 3 ∧
      ¬ ((ofMemory (.zero 3)).assemble "NOT #5".toList).1.Shows
          "NOT #5".toList 3 := by
  refine ⟨rfl, fun shown => ?_⟩
  obtain ⟨_, _, here, _, listed⟩ := List.forall₂_cons_left_iff.1 shown
  obtain ⟨_, _, _, _, content⟩ := here.content
  cases listed
  cases content

end Workspace

end PocketCpu
