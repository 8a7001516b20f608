import PocketCpu.Proofs.Assembly.Sound
import PocketCpu.Proofs.Text.Trimming

/-!
# Lines as they are written

A written line is a line of a source before anything of it is read.  What
stands in front of its comment is cut at the first colon into a label and an
instruction, and the instruction takes room as soon as it can be read, even
if its label is unknown or its target is a constant.  A line of a source is
read from the written one without a change in any of this, and a written
line is dropped only if it has neither a label nor an instruction.
-/

namespace PocketCpu

namespace WrittenLine

/-- What stands in front of a comment. -/
def content (raw : Text) : Text :=
  raw.before ';'

/-- The trimmed text in front of the first colon, if there is a colon. -/
def label? (raw : Text) : Option Text :=
  if ':' ∈ content raw then some ((content raw).before ':').trim else none

/-- The trimmed text behind the first colon, or all of it without one. -/
def code (raw : Text) : Text :=
  (((content raw).after? ':').getD (content raw)).trim

/-- The number of bytes of the instruction on a line, if it can be read. -/
def room (raw : Text) : Nat :=
  match Statement.ofText (code raw) with
  | .ok statement => statement.size
  | .error _ => 0

/-- The number of bytes of all instructions on lines. -/
def roomOf : List Text → Nat
  | [] => 0
  | raw :: rest => room raw + roomOf rest

@[simp]
theorem roomOf_nil : roomOf [] = 0 :=
  rfl

@[simp]
theorem roomOf_append (left right : List Text) :
    roomOf (left ++ right) = roomOf left + roomOf right := by
  induction left with
  | nil => rw [List.nil_append, roomOf_nil, Nat.zero_add]
  | cons raw rest inductionHypothesis =>
      rw [List.cons_append, roomOf, roomOf, inductionHypothesis,
        Nat.add_assoc]

@[simp]
theorem roomOf_singleton (raw : Text) : roomOf [raw] = room raw :=
  rfl

/-- The written line behind some lines of a source. -/
def IsLineBehind (source : Text) (earlier : List Text) (raw : Text) : Prop :=
  ∃ later, source.lines = earlier ++ raw :: later

/-- A line behind more lines than another one has that one in front of it. -/
theorem IsLineBehind.exists_between
    {source raw other : Text}
    {earlier others : List Text}
    (first : IsLineBehind source earlier raw)
    (second : IsLineBehind source others other)
    (fewer : earlier.length < others.length) :
    ∃ between, others = earlier ++ raw :: between := by
  obtain ⟨later, lines⟩ := first
  obtain ⟨rest, linesAgain⟩ := second
  rcases List.append_eq_append_iff.1 (lines.symm.trans linesAgain) with
    ⟨between, rfl, behind⟩ | ⟨between, rfl, _⟩
  · cases between with
    | nil => simp at fewer
    | cons chosen between =>
        obtain ⟨rfl, _⟩ := List.cons.inj behind
        exact ⟨between, rfl⟩
  · rw [List.length_append] at fewer
    omega

/-- A line among several is the first of them or among the others. -/
theorem exists_split_cons_iff
    (holds : List Text → Text → Prop)
    {earlier rest : List Text}
    {raw : Text} :
    (∃ front chosen later, raw :: rest = front ++ chosen :: later ∧
        holds (earlier ++ front) chosen) ↔
      holds earlier raw ∨
        ∃ front chosen later, rest = front ++ chosen :: later ∧
          holds (earlier ++ [raw] ++ front) chosen := by
  constructor
  · rintro ⟨front, chosen, later, split, held⟩
    cases front with
    | nil =>
        obtain ⟨rfl, rfl⟩ := List.cons.inj split
        rw [List.append_nil] at held
        exact Or.inl held
    | cons first front =>
        obtain ⟨rfl, rfl⟩ := List.cons.inj split
        rw [List.append_cons] at held
        exact Or.inr ⟨front, chosen, later, rfl, held⟩
  · rintro (held | ⟨front, chosen, later, rfl, held⟩)
    · exact ⟨[], raw, rest, rfl, by rwa [List.append_nil]⟩
    · exact ⟨raw :: front, chosen, later, rfl, by rwa [List.append_cons]⟩

/-! ## Reading a line -/

section Reading

variable {raw : Text} {number : Nat}

theorem statement_nil :
    Statement.ofText [] = .error (.unknownMnemonic []) :=
  rfl

theorem room_of_code_eq_nil
    (empty : code raw = []) :
    room raw = 0 := by
  rw [room, empty, statement_nil]

/-- The instruction has bytes only if it takes as much room. -/
theorem room_of_encodeText
    {labels : LabelTable}
    {bytes : List Byte}
    (encoded : Statement.encodeText labels (code raw) = .ok bytes) :
    room raw = bytes.length := by
  obtain ⟨instruction, read, hasBytes⟩ :=
    Statement.encodeText_eq_ok_iff.1 encoded
  obtain ⟨statement, parsed, resolved⟩ :=
    Statement.instructionOf_eq_ok_iff.1 read
  rw [room, parsed, Instruction.length_of_encode? hasBytes]
  exact (Statement.size_of_resolve resolved).symm

/-- A line of a source is the reading of a written line. -/
structure Reads (number : Nat) (raw : Text) (line : SourceLine) : Prop where
  number : line.number = number
  label : line.label = (label? raw).elim .absent LabelPart.ofText
  code : line.code = SourceLine.nonempty? (code raw)

/-- A line that was read has an instruction unless its text is empty. -/
theorem Reads.code_cases
    {line : SourceLine}
    (reads : Reads number raw line) :
    (WrittenLine.code raw = [] ∧ line.code = none) ∨
      (WrittenLine.code raw ≠ [] ∧
        line.code = some (WrittenLine.code raw)) := by
  rw [reads.code, SourceLine.nonempty?]
  by_cases empty : WrittenLine.code raw = []
  · exact Or.inl ⟨empty, if_pos (List.isEmpty_iff.2 empty)⟩
  · exact Or.inr ⟨empty, if_neg (mt List.isEmpty_iff.1 empty)⟩

theorem Reads.size
    {line : SourceLine}
    (reads : Reads number raw line) :
    line.size = room raw := by
  rcases reads.code_cases with ⟨empty, blank⟩ | ⟨_, written⟩
  · rw [SourceLine.size_of_code_eq_none blank, room_of_code_eq_nil empty]
  · rw [SourceLine.size, SourceLine.statement?, written, Option.map_some,
      room]
    cases Statement.ofText (WrittenLine.code raw) <;> rfl

/-- A line without a label and an instruction is dropped, and no other is. -/
theorem ofText?_cases (number : Nat) (raw : Text) :
    (SourceLine.ofText? number raw = none ∧
        label? raw = none ∧ code raw = []) ∨
      ∃ line, SourceLine.ofText? number raw = some line ∧
        Reads number raw line := by
  have visible : Text.isBlank ':' = false := by decide
  rw [SourceLine.ofText?]
  by_cases colon : ':' ∈ content raw
  · -- The line has a label, so it is not blank.
    have trimmed : ':' ∈ (content raw).trim :=
      (Text.mem_trim_iff visible).2 colon
    have nonempty : ¬ (content raw).trim.isEmpty = true := by
      rw [List.isEmpty_iff]
      exact List.ne_nil_of_mem trimmed
    obtain ⟨front, behind⟩ := Text.trim_pieces_trim visible colon
    obtain ⟨rest, inside⟩ :=
      Option.ne_none_iff_exists'.1
        (mt Text.after?_eq_none_iff.1 (not_not_intro trimmed))
    obtain ⟨whole, outside⟩ :=
      Option.ne_none_iff_exists'.1
        (mt Text.after?_eq_none_iff.1 (not_not_intro colon))
    rw [inside, outside, Option.map_some, Option.map_some,
      Option.some.injEq] at behind
    refine Or.inr ⟨SourceLine.ofContent number (content raw).trim,
      if_neg nonempty, ?_⟩
    simp only [SourceLine.ofContent, inside]
    refine ⟨rfl, ?_, ?_⟩
    · rw [label?, if_pos colon, Option.elim_some, front]
    · rw [code, outside, Option.getD_some, behind]
  · have absent : (content raw).after? ':' = none :=
      Text.after?_eq_none_iff.2 colon
    have still : (content raw).trim.after? ':' = none :=
      Text.after?_eq_none_iff.2 (mt (Text.mem_trim_iff visible).1 colon)
    have none : label? raw = none := if_neg colon
    have all : code raw = (content raw).trim := by
      rw [code, absent, Option.getD_none]
    by_cases empty : (content raw).trim = []
    · exact Or.inl
        ⟨if_pos (List.isEmpty_iff.2 empty), none, all.trans empty⟩
    · refine Or.inr ⟨SourceLine.ofContent number (content raw).trim,
        if_neg (mt List.isEmpty_iff.1 empty), ?_⟩
      simp only [SourceLine.ofContent, still]
      exact ⟨rfl, by rw [none, Option.elim_none], by rw [all]⟩

end Reading

/-! ## Reading several lines -/

/-- The source lines on written lines, the first of which has a number. -/
def read (first : Nat) (lines : List Text) : List SourceLine :=
  (lines.zipIdx first).filterMap fun numbered =>
    SourceLine.ofText? numbered.2 numbered.1

theorem read_lines (source : Text) :
    read 1 source.lines = SourceLine.ofSource source :=
  rfl

theorem read_cons (first : Nat) (raw : Text) (rest : List Text) :
    read first (raw :: rest) =
      (SourceLine.ofText? first raw).toList ++ read (first + 1) rest := by
  rw [read, List.zipIdx_cons, List.filterMap_cons]
  cases SourceLine.ofText? first raw <;> rfl

/-- The lines behind some lines are placed behind their room. -/
theorem placeFrom_read_cons
    (first start : Nat)
    (raw : Text)
    (rest : List Text) :
    Layout.placeFrom start (read first (raw :: rest)) =
      ((SourceLine.ofText? first raw).map (PlacedLine.mk · start)).toList ++
        Layout.placeFrom (start + room raw) (read (first + 1) rest) := by
  rw [read_cons]
  rcases ofText?_cases first raw with
    ⟨dropped, _, empty⟩ | ⟨line, kept, reads⟩
  · rw [dropped, room_of_code_eq_nil empty]
    rfl
  · rw [kept, Option.toList_some, List.singleton_append,
      Layout.placeFrom_cons, reads.size]
    rfl

end WrittenLine

end PocketCpu
