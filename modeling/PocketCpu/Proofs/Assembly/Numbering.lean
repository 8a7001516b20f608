import PocketCpu.Proofs.Assembly.WrittenLine

/-!
# The numbers of lines

A line of a source is what its label and its instruction say, together with
a number that counts the written lines.  Nothing that is read from a line
depends on its number: lines that are read from a later number on are the
same lines with higher numbers.
-/

namespace PocketCpu

/-- A line with another number. -/
def SourceLine.renumber
    (number : Nat → Nat)
    (line : SourceLine) : SourceLine :=
  { line with number := number line.number }

theorem SourceLine.nonempty?_of_ne_nil
    {text : Text}
    (nonempty : text ≠ []) :
    SourceLine.nonempty? text = some text :=
  if_neg (mt List.isEmpty_iff.1 nonempty)

namespace WrittenLine

/-- What is read from a line is its label and its instruction. -/
theorem ofText?_eq (number : Nat) (raw : Text) :
    SourceLine.ofText? number raw =
      if label? raw = none ∧ code raw = [] then none
      else
        some
          ⟨number, (label? raw).elim .absent LabelPart.ofText,
            SourceLine.nonempty? (code raw)⟩ := by
  split
  · next silent =>
      obtain ⟨unlabelled, empty⟩ := silent
      have colonless : ':' ∉ content raw := by
        intro colon
        rw [label?, if_pos colon] at unlabelled
        cases unlabelled
      rw [code, Text.after?_eq_none_iff.2 colonless, Option.getD_none]
        at empty
      exact if_pos (List.isEmpty_iff.2 empty)
  · next speaking =>
      rcases ofText?_cases number raw with ⟨_, silent⟩ | ⟨line, kept, reads⟩
      · exact absurd silent speaking
      · rw [kept, ← reads.number, ← reads.label, ← reads.code]

variable {raw other : Text} {first : Nat} {lines : List Text}

/-- Lines with one label and one instruction are read alike. -/
theorem ofText?_congr
    (number : Nat)
    (label : label? other = label? raw)
    (code : code other = code raw) :
    SourceLine.ofText? number other = SourceLine.ofText? number raw := by
  rw [ofText?_eq, ofText?_eq, label, code]

theorem ofText?_renumber
    (renumber : Nat → Nat)
    (number : Nat)
    (raw : Text) :
    SourceLine.ofText? (renumber number) raw =
      (SourceLine.ofText? number raw).map
        (SourceLine.renumber renumber) := by
  rw [ofText?_eq, ofText?_eq]
  split <;> rfl

/-! ## Reading several lines -/

theorem read_append (first : Nat) (left right : List Text) :
    read first (left ++ right) =
      read first left ++ read (first + left.length) right := by
  rw [read, List.zipIdx_append, List.filterMap_append, read, read]

/-- Lines that are read from a later number on have higher numbers. -/
theorem read_add (first shift : Nat) (lines : List Text) :
    read (first + shift) lines =
      (read first lines).map (SourceLine.renumber (· + shift)) := by
  induction lines generalizing first with
  | nil => rfl
  | cons raw rest inductionHypothesis =>
      rw [read_cons, read_cons, List.map_append, ← inductionHypothesis,
        ofText?_renumber (· + shift), Option.toList_map,
        Nat.add_right_comm]

/-- A line that is read belongs to one of the numbered lines. -/
theorem exists_reads_of_mem_read
    {line : SourceLine}
    (member : line ∈ read first lines) :
    ∃ raw number, (raw, number) ∈ lines.zipIdx first ∧
      Reads number raw line := by
  obtain ⟨⟨raw, number⟩, numbered, kept⟩ := List.mem_filterMap.1 member
  rcases ofText?_cases number raw with ⟨dropped, _⟩ | ⟨own, same, reads⟩
  · cases dropped.symm.trans kept
  · cases same.symm.trans kept
    exact ⟨raw, number, numbered, reads⟩

/-- A line has one of the numbers that were counted while it was read. -/
theorem number_bounds
    {line : SourceLine}
    (member : line ∈ read first lines) :
    first ≤ line.number ∧ line.number < first + lines.length := by
  obtain ⟨raw, number, numbered, reads⟩ := exists_reads_of_mem_read member
  obtain ⟨above, below, _⟩ := List.mem_zipIdx numbered
  rw [reads.number]
  exact ⟨above, below⟩

/-- Only the numbers that were counted matter to a renumbering. -/
theorem map_renumber_congr
    {number other : Nat → Nat}
    (same :
      ∀ counted, first ≤ counted → counted < first + lines.length →
        number counted = other counted) :
    (read first lines).map (SourceLine.renumber number) =
      (read first lines).map (SourceLine.renumber other) := by
  apply List.map_congr_left
  intro line member
  obtain ⟨above, below⟩ := number_bounds member
  rw [SourceLine.renumber, same line.number above below,
    SourceLine.renumber]

end WrittenLine

end PocketCpu
