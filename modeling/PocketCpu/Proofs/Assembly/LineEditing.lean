import PocketCpu.Proofs.Assembly.Numbering
import PocketCpu.Proofs.Text.Pieces

/-!
# Editing one line

A comment may follow a line, and blanks may stand at both of its ends and
on both sides of its first colon.  None of this changes its label or its
instruction, wherever a semicolon or a colon stands in the line.  Between
the words of an instruction commas and blanks may be exchanged; then the
instruction has another text, but the same words.
-/

namespace PocketCpu

namespace WrittenLine

/-! ## Lines that are read alike -/

/-- Two lines have the same label and the same instruction. -/
structure ReadsAlike (raw other : Text) : Prop where
  label : label? other = label? raw
  code : code other = code raw

section ReadsAlike

variable {raw other left right : Text}

theorem ReadsAlike.symm
    (alike : ReadsAlike raw other) :
    ReadsAlike other raw :=
  ⟨alike.label.symm, alike.code.symm⟩

theorem ReadsAlike.of_content
    (same : content other = content raw) :
    ReadsAlike raw other :=
  ⟨by rw [label?, same, label?],
    by rw [WrittenLine.code, same, WrittenLine.code]⟩

/-- A colon in front of the comment parts a label from an instruction. -/
theorem pieces_of_colon
    (parted : content raw = left ++ ':' :: right)
    (absent : ':' ∉ left) :
    label? raw = some left.trim ∧ code raw = right.trim := by
  have colon : ':' ∈ content raw := by
    rw [parted]
    exact List.mem_append_right _ List.mem_cons_self
  rw [label?, if_pos colon, code, parted, Text.before_append_cons absent,
    Text.after?_append_cons absent, Option.getD_some]
  exact ⟨rfl, rfl⟩

theorem pieces_of_not_colon
    (absent : ':' ∉ content raw) :
    label? raw = none ∧ code raw = (content raw).trim := by
  rw [label?, if_neg absent, code, Text.after?_eq_none_iff.2 absent,
    Option.getD_none]
  exact ⟨rfl, rfl⟩

/-- Lines are read alike if they differ in the ends of their pieces. -/
theorem ReadsAlike.of_colon
    {otherLeft otherRight : Text}
    (parted : content raw = left ++ ':' :: right)
    (absent : ':' ∉ left)
    (otherParted : content other = otherLeft ++ ':' :: otherRight)
    (otherAbsent : ':' ∉ otherLeft)
    (label : otherLeft.trim = left.trim)
    (code : otherRight.trim = right.trim) :
    ReadsAlike raw other := by
  obtain ⟨first, second⟩ := pieces_of_colon parted absent
  obtain ⟨otherFirst, otherSecond⟩ :=
    pieces_of_colon otherParted otherAbsent
  exact ⟨by rw [otherFirst, first, label],
    by rw [otherSecond, second, code]⟩

theorem ReadsAlike.of_not_colon
    (absent : ':' ∉ content raw)
    (otherAbsent : ':' ∉ content other)
    (code : (content other).trim = (content raw).trim) :
    ReadsAlike raw other := by
  obtain ⟨first, second⟩ := pieces_of_not_colon absent
  obtain ⟨otherFirst, otherSecond⟩ := pieces_of_not_colon otherAbsent
  exact ⟨by rw [otherFirst, first], by rw [otherSecond, second, code]⟩

theorem read_congr
    {lines others : List Text}
    (alike : List.Forall₂ ReadsAlike lines others)
    (first : Nat) :
    read first others = read first lines := by
  induction alike generalizing first with
  | nil => rfl
  | cons same _ inductionHypothesis =>
      rw [read_cons, read_cons, inductionHypothesis,
        ofText?_congr first same.label same.code]

end ReadsAlike

/-! ## Edits of one line -/

/-- Nothing but blanks stands in front of the comment of a line. -/
def IsIdle (raw : Text) : Prop :=
  ∀ character ∈ content raw, Text.isBlank character = true

instance (raw : Text) : Decidable (IsIdle raw) :=
  decidable_of_iff ((content raw).all Text.isBlank = true)
    List.all_eq_true

/-- Two parts of a line meet at an end of it or next to its first colon. -/
inductive IsEdge : Text → Text → Prop where
  | front (line : Text) : IsEdge [] line
  | back (line : Text) : IsEdge line []
  | beforeColon
      {left : Text}
      (absent : ':' ∉ left)
      (right : Text) :
      IsEdge left (':' :: right)
  | behindColon
      {left : Text}
      (absent : ':' ∉ left)
      (right : Text) :
      IsEdge (left ++ [':']) right

/-- A line is written with a comment or with blanks, or without them. -/
inductive LineEdit : Text → Text → Prop where
  | comment (raw text : Text) : LineEdit raw (raw ++ ';' :: text)
  | blanks
      {left right gap : Text}
      (edge : IsEdge left right)
      (blank : ∀ character ∈ gap, Text.isBlank character = true) :
      LineEdit (left ++ right) (left ++ (gap ++ right))
  | undo
      {raw other : Text}
      (edit : LineEdit raw other) :
      LineEdit other raw

section LineEdit

variable {raw other left right gap : Text}

theorem IsEdge.content
    (edge : IsEdge left right) :
    IsEdge left (content right) := by
  cases edge with
  | front => exact .front _
  | back => exact .back _
  | beforeColon absent right => exact .beforeColon absent (content right)
  | behindColon absent => exact .behindColon absent _

/-- Blanks at an edge of what stands in front of a comment say nothing. -/
theorem readsAlike_of_edge
    (edge : IsEdge left right)
    (blank : ∀ character ∈ gap, Text.isBlank character = true)
    (here : content raw = left ++ right)
    (there : content other = left ++ (gap ++ right)) :
    ReadsAlike raw other := by
  have colonless : ':' ∉ gap :=
    Text.not_mem_of_forall (by decide) blank
  cases edge with
  | front =>
      rw [List.nil_append] at here there
      by_cases colon : ':' ∈ right
      · obtain ⟨label, code, rfl, absent⟩ :=
          List.eq_append_cons_of_mem colon
        rw [← List.append_assoc] at there
        exact .of_colon here absent there
          (List.mem_append.not.2 (not_or.2 ⟨colonless, absent⟩))
          (Text.trim_append_left blank label) rfl
      · refine .of_not_colon (here ▸ colon) ?_ ?_
        · rw [there]
          exact List.mem_append.not.2 (not_or.2 ⟨colonless, colon⟩)
        · rw [there, here, Text.trim_append_left blank]
  | back =>
      rw [List.append_nil] at here there
      by_cases colon : ':' ∈ left
      · obtain ⟨label, code, rfl, absent⟩ :=
          List.eq_append_cons_of_mem colon
        rw [List.append_assoc, List.cons_append] at there
        exact .of_colon here absent there absent rfl
          (Text.trim_append_right blank code)
      · refine .of_not_colon (here ▸ colon) ?_ ?_
        · rw [there]
          exact List.mem_append.not.2 (not_or.2 ⟨colon, colonless⟩)
        · rw [there, here, Text.trim_append_right blank]
  | beforeColon absent =>
      rw [← List.append_assoc] at there
      exact .of_colon here absent there
        (List.mem_append.not.2 (not_or.2 ⟨absent, colonless⟩))
        (Text.trim_append_right blank left) rfl
  | behindColon absent =>
      rw [List.append_assoc] at here there
      exact .of_colon here absent there absent rfl
        (Text.trim_append_left blank right)

/-- An edited line has the same label and the same instruction. -/
theorem LineEdit.readsAlike
    (edit : LineEdit raw other) :
    ReadsAlike raw other := by
  induction edit with
  | comment raw text =>
      apply ReadsAlike.of_content
      by_cases commented : ';' ∈ raw
      · exact Text.before_append_of_mem commented _
      · rw [content, Text.before_append_cons commented, content]
        exact (Text.before_eq_self ';' fun character member same =>
          commented (same ▸ member)).symm
  | @blanks left right gap edge blank =>
      by_cases commented : ';' ∈ left
      · apply ReadsAlike.of_content
        rw [content, Text.before_append_of_mem commented, content,
          Text.before_append_of_mem commented]
      · have uncommented : ';' ∉ gap :=
          Text.not_mem_of_forall (by decide) blank
        apply readsAlike_of_edge edge.content blank
        · exact Text.before_append_of_not_mem commented right
        · rw [content, Text.before_append_of_not_mem commented,
            Text.before_append_of_not_mem uncommented, content]
  | undo _ inductionHypothesis => exact inductionHypothesis.symm

/-- An idle line is dropped. -/
theorem IsIdle.ofText?_eq_none
    (idle : IsIdle raw)
    (number : Nat) :
    SourceLine.ofText? number raw = none := by
  have empty : (content raw).trim = [] := by
    have trimmed := Text.trim_append_left idle []
    rwa [List.append_nil] at trimmed
  exact if_pos (List.isEmpty_iff.2 empty)

end LineEdit

/-! ## Other gaps between words -/

/-- Commas and blanks, of which there are some. -/
structure IsSeparation (gap : Text) : Prop where
  nonempty : gap ≠ []
  separate : ∀ character ∈ gap, Text.isSeparator character = true

/--
Behind a part of a line there begins a word of an instruction, with the
character `first`: neither in a comment nor in a label.
-/
structure BeginsWord (left : Text) (first : Char) (right : Text) : Prop where
  joins : Text.isSeparator first = false
  uncommented : ';' ∉ left ∧ first ≠ ';'
  unlabelled : ':' ∈ left ∨ ':' ∉ content (first :: right)

/-- The separators in front of a word are replaced by others. -/
inductive GapEdit : Text → Text → Prop where
  | replace
      {left right gap other : Text}
      {first : Char}
      (word : BeginsWord left first right)
      (separates : IsSeparation gap)
      (otherSeparates : IsSeparation other) :
      GapEdit (left ++ (gap ++ first :: right))
        (left ++ (other ++ first :: right))

/-- Two instructions on lines with the same label have the same words. -/
structure HasSameWords (raw other : Text) : Prop where
  label : label? other = label? raw
  words : (code other).words = (code raw).words
  present : code raw ≠ []
  otherPresent : code other ≠ []

section GapEdit

variable {raw other left right gap : Text} {first : Char}

/-- A line has the same pieces around all gaps in front of a word. -/
theorem exists_pieces_of_gap
    (word : BeginsWord left first right) :
    ∃ label front, ∀ gap, IsSeparation gap →
      label? (left ++ (gap ++ first :: right)) = label ∧
        code (left ++ (gap ++ first :: right)) =
          Text.trim (front ++ (gap ++ content (first :: right))) := by
  have whole
      (gap : Text)
      (separates : IsSeparation gap) :
      content (left ++ (gap ++ first :: right)) =
        left ++ (gap ++ content (first :: right)) := by
    rw [content, Text.before_append_of_not_mem word.uncommented.1,
      Text.before_append_of_not_mem
        (Text.not_mem_of_forall (by decide) separates.separate),
      content]
  by_cases colon : ':' ∈ left
  · obtain ⟨label, front, rfl, absent⟩ := List.eq_append_cons_of_mem colon
    refine ⟨some (Text.trim label), front, fun gap separates => ?_⟩
    have parted := whole gap separates
    rw [List.append_assoc label, List.cons_append,
      List.append_assoc label, List.cons_append] at parted
    rw [List.append_assoc label, List.cons_append]
    exact pieces_of_colon parted absent
  · refine ⟨none, left, fun gap separates => ?_⟩
    have absent : ':' ∉ content (left ++ (gap ++ first :: right)) := by
      rw [whole gap separates]
      simp only [List.mem_append, not_or]
      exact ⟨colon,
        Text.not_mem_of_forall (by decide) separates.separate,
        word.unlabelled.resolve_left colon⟩
    rw [← whole gap separates]
    exact pieces_of_not_colon absent

theorem GapEdit.hasSameWords
    (edit : GapEdit raw other) :
    HasSameWords raw other := by
  obtain @⟨left, right, gap, otherGap, first, word, separates,
    otherSeparates⟩ := edit
  obtain ⟨label, front, pieces⟩ := exists_pieces_of_gap word
  obtain ⟨own, code⟩ := pieces gap separates
  obtain ⟨otherOwn, otherCode⟩ := pieces otherGap otherSeparates
  have visible : Text.isBlank first = false := by
    have joins := word.joins
    rw [Text.isSeparator, Bool.or_eq_false_iff] at joins
    exact joins.2
  have inside : first ∈ content (first :: right) := by
    simp [content, Text.before, word.uncommented.2]
  have kept (gap : Text) :
      Text.trim (front ++ (gap ++ content (first :: right))) ≠ [] :=
    List.ne_nil_of_mem
      ((Text.mem_trim_iff visible).2 (by simp [inside]))
  refine ⟨otherOwn.trans own.symm, ?_, ?_, ?_⟩
  · rw [otherCode, code, Text.words_trim, Text.words_trim,
      Text.words_append_gap otherSeparates.separate
        otherSeparates.nonempty,
      Text.words_append_gap separates.separate separates.nonempty]
  · exact code ▸ kept gap
  · exact otherCode ▸ kept otherGap

end GapEdit

end WrittenLine

end PocketCpu
