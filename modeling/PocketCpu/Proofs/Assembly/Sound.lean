import PocketCpu.Assembly.Basic
import PocketCpu.Proofs.Assembly.Labels
import PocketCpu.Proofs.Instruction.Program
import PocketCpu.Proofs.Memory.Write
import PocketCpu.Proofs.Sequence

/-!
# Sources without mistakes

A placed line is sound if its label is well formed and its instruction, if
it has one, has bytes that end inside of memory.  A source is assembled
without a mistake exactly if all of its lines are sound.  Then its
instruction lines are a program, and what is written to memory are the bytes
of that program from address zero on.
-/

namespace PocketCpu

namespace Statement

variable {labels : LabelTable} {text : Text}

theorem instructionOf_eq_ok_iff
    {instruction : Instruction} :
    instructionOf labels text = .ok instruction ↔
      ∃ statement, ofText text = .ok statement ∧
        statement.resolve labels = .ok instruction := by
  rw [instructionOf, Pass.read_emitting, bind_eq_ok_iff]

theorem encodeText_eq_ok_iff
    {bytes : List Byte} :
    encodeText labels text = .ok bytes ↔
      ∃ instruction, instructionOf labels text = .ok instruction ∧
        instruction.encode? = some bytes := by
  rw [encodeText]
  cases instructionOf labels text with
  | error cause =>
      constructor
      · intro equal
        cases equal
      · rintro ⟨instruction, read, _⟩
        cases read
  | ok instruction =>
      simp only [bind, Except.bind, Except.ok.injEq, exists_eq_left']
      cases instruction.encode? with
      | none => simp
      | some own => simp

end Statement

namespace SourceLine

/-- The texts of the lines that hold an instruction. -/
def codes (lines : List SourceLine) : List Text :=
  lines.filterMap code

/-- The bytes of a line under labels; a faulty line has none. -/
def bytes (labels : LabelTable) (line : SourceLine) : List Byte :=
  match line.code with
  | none => []
  | some text =>
    match Statement.encodeText labels text with
    | .ok bytes => bytes
    | .error _ => []

variable {labels : LabelTable} {line : SourceLine} {text : Text}

theorem size_of_instructionOf
    {instruction : Instruction}
    (written : line.code = some text)
    (read : Statement.instructionOf labels text = .ok instruction) :
    line.size = instruction.size := by
  obtain ⟨statement, parsed, resolved⟩ :=
    Statement.instructionOf_eq_ok_iff.1 read
  rw [SourceLine.size, statement?, written, Option.map_some, parsed]
  exact (Statement.size_of_resolve resolved).symm

theorem size_of_code_eq_none
    (blank : line.code = none) :
    line.size = 0 := by
  rw [SourceLine.size, statement?, blank, Option.map_none]

theorem bytes_of_code_eq_none
    (blank : line.code = none) :
    line.bytes labels = [] := by
  rw [bytes, blank]

theorem bytes_of_encodeText
    {bytes : List Byte}
    (written : line.code = some text)
    (encoded : Statement.encodeText labels text = .ok bytes) :
    line.bytes labels = bytes := by
  rw [SourceLine.bytes, written]
  simp only [encoded]

end SourceLine

namespace Program

/-- The program on the instruction lines of a source, under labels. -/
def ofLines? (labels : LabelTable) (lines : List SourceLine) :
    Except Cause Program :=
  (SourceLine.codes lines).mapM (Statement.instructionOf labels)

variable {labels : LabelTable} {line : SourceLine} {rest : List SourceLine}

theorem ofLines?_cons_of_blank
    (blank : line.code = none) :
    ofLines? labels (line :: rest) = ofLines? labels rest := by
  rw [ofLines?, SourceLine.codes, List.filterMap_cons_none blank]
  rfl

theorem ofLines?_cons_of_code
    {text : Text}
    {instruction : Instruction}
    {program : Program}
    (written : line.code = some text)
    (read : Statement.instructionOf labels text = .ok instruction)
    (others : ofLines? labels rest = .ok program) :
    ofLines? labels (line :: rest) = .ok (instruction :: program) := by
  rw [ofLines?, SourceLine.codes] at others ⊢
  rw [List.filterMap_cons_some written, List.mapM_cons, read, others]
  rfl

end Program

/-! ## Sound lines -/

namespace PlacedLine

/--
A placed line is sound if its label is well formed and its instruction, if
it has one, has bytes that end inside of memory.
-/
structure IsSound
    (labels : LabelTable)
    (size : Nat)
    (placed : PlacedLine) : Prop where
  label : placed.labelCauses = []
  code :
    ∀ text, placed.line.code = some text →
      ∃ bytes, Statement.encodeText labels text = .ok bytes ∧
        placed.address + bytes.length ≤ size

variable {labels : LabelTable} {size : Nat} {placed : PlacedLine}

theorem emit?_of_code_eq_none
    (blank : placed.line.code = none) :
    placed.emit? labels size = none := by
  rw [emit?, blank, Option.map_none]

theorem emit?_of_encodeText
    {text : Text}
    {bytes : List Byte}
    (written : placed.line.code = some text)
    (encoded : Statement.encodeText labels text = .ok bytes) :
    placed.emit? labels size =
      some
        (if placed.address + bytes.length ≤ size then
          .ok ⟨placed.line.number, placed.address, text, bytes⟩
        else
          .error
            (.doesNotFit text (placed.address + bytes.length - 1) size)) := by
  rw [emit?, written, Option.map_some, encoded]
  rfl

theorem emit?_of_encodeText_error
    {text : Text}
    {cause : Cause}
    (written : placed.line.code = some text)
    (faulty : Statement.encodeText labels text = .error cause) :
    placed.emit? labels size = some (.error cause) := by
  rw [emit?, written, Option.map_some, faulty]
  rfl

theorem IsSound.emit?_eq
    (sound : placed.IsSound labels size) :
    placed.emit? labels size =
      placed.line.code.map fun text =>
        .ok
          ⟨placed.line.number, placed.address, text,
            placed.line.bytes labels⟩ := by
  cases written : placed.line.code with
  | none => rw [emit?_of_code_eq_none written, Option.map_none]
  | some text =>
      obtain ⟨bytes, encoded, fits⟩ := sound.code text written
      rw [emit?_of_encodeText written encoded, if_pos fits,
        Option.map_some, SourceLine.bytes_of_encodeText written encoded]

theorem IsSound.emission?_eq
    (sound : placed.IsSound labels size) :
    EmittedLine.emission? ⟨placed, placed.emit? labels size⟩ =
      placed.line.code.map fun text =>
        ⟨placed.line.number, placed.address, text,
          placed.line.bytes labels⟩ := by
  rw [EmittedLine.emission?, sound.emit?_eq]
  cases placed.line.code <;> rfl

/-- The lines without diagnostics are the sound ones. -/
theorem diagnostics_eq_nil_iff :
    EmittedLine.diagnostics ⟨placed, placed.emit? labels size⟩ = [] ↔
      placed.IsSound labels size := by
  rw [EmittedLine.diagnostics, List.map_eq_nil_iff, List.append_eq_nil_iff]
  constructor
  · rintro ⟨label, clean⟩
    refine ⟨label, fun text written => ?_⟩
    cases encoded : Statement.encodeText labels text with
    | error cause =>
        rw [EmittedLine.codeCauses,
          emit?_of_encodeText_error written encoded] at clean
        cases clean
    | ok bytes =>
        by_cases fits : placed.address + bytes.length ≤ size
        · exact ⟨bytes, rfl, fits⟩
        · rw [EmittedLine.codeCauses, emit?_of_encodeText written encoded,
            if_neg fits] at clean
          cases clean
  · intro sound
    refine ⟨sound.label, ?_⟩
    rw [EmittedLine.codeCauses, sound.emit?_eq]
    cases placed.line.code <;> rfl

theorem IsSound.length_bytes
    (sound : placed.IsSound labels size) :
    (placed.line.bytes labels).length = placed.line.size := by
  cases written : placed.line.code with
  | none =>
      rw [SourceLine.bytes_of_code_eq_none written,
        SourceLine.size_of_code_eq_none written]
      rfl
  | some text =>
      obtain ⟨bytes, encoded, _⟩ := sound.code text written
      obtain ⟨instruction, read, hasBytes⟩ :=
        Statement.encodeText_eq_ok_iff.1 encoded
      rw [SourceLine.bytes_of_encodeText written encoded,
        SourceLine.size_of_instructionOf written read,
        Instruction.length_of_encode? hasBytes]

/-- A sound line that starts inside of memory ends there. -/
theorem IsSound.end_le
    (sound : placed.IsSound labels size)
    (inside : placed.address ≤ size) :
    placed.address + placed.line.size ≤ size := by
  -- The bound is checked where bytes are emitted, but a blank line has none.
  rw [← sound.length_bytes]
  cases written : placed.line.code with
  | none =>
      rw [SourceLine.bytes_of_code_eq_none written]
      exact inside
  | some text =>
      obtain ⟨bytes, encoded, fits⟩ := sound.code text written
      rw [SourceLine.bytes_of_encodeText written encoded]
      exact fits

end PlacedLine

/-! ## Sound sources -/

namespace Layout

/-- All lines are sound when they are placed from an address on. -/
def AllSound
    (labels : LabelTable)
    (size start : Nat)
    (lines : List SourceLine) : Prop :=
  ∀ placed ∈ placeFrom start lines, placed.IsSound labels size

namespace AllSound

variable {labels : LabelTable} {size start : Nat}
variable {line : SourceLine} {rest lines : List SourceLine}

theorem head
    (sound : AllSound labels size start (line :: rest)) :
    PlacedLine.IsSound labels size ⟨line, start⟩ :=
  sound _ (by simp)

theorem tail
    (sound : AllSound labels size start (line :: rest)) :
    AllSound labels size (start + line.size) rest :=
  fun placed member => sound placed (by simp [member])

theorem left
    (sound : AllSound labels size start (lines ++ rest)) :
    AllSound labels size start lines := by
  intro placed member
  apply sound placed
  rw [placeFrom_append]
  exact List.mem_append_left _ member

theorem right
    (sound : AllSound labels size start (lines ++ rest)) :
    AllSound labels size (start + Layout.size lines) rest := by
  intro placed member
  apply sound placed
  rw [placeFrom_append]
  exact List.mem_append_right _ member

/-- Sound lines emit as many bytes as they take room. -/
theorem length_bytes
    (sound : AllSound labels size start lines) :
    (lines.flatMap (SourceLine.bytes labels)).length =
      Layout.size lines := by
  induction lines generalizing start with
  | nil => rfl
  | cons line rest inductionHypothesis =>
      rw [List.flatMap_cons, List.length_append,
        sound.head.length_bytes, inductionHypothesis sound.tail, size_cons]

theorem end_le
    (sound : AllSound labels size start lines)
    (inside : start ≤ size) :
    start + Layout.size lines ≤ size := by
  induction lines generalizing start with
  | nil => simpa using inside
  | cons line rest inductionHypothesis =>
      rw [size_cons, ← Nat.add_assoc]
      exact inductionHypothesis sound.tail (sound.head.end_le inside)

/-- The instruction lines of sound lines are a program with the same bytes. -/
theorem exists_program
    (sound : AllSound labels size start lines) :
    ∃ program, Program.ofLines? labels lines = .ok program ∧
      program.IsEncodable ∧
      program.bytes = lines.flatMap (SourceLine.bytes labels) := by
  induction lines generalizing start with
  | nil => exact ⟨[], rfl, Program.IsEncodable.nil, rfl⟩
  | cons line rest inductionHypothesis =>
      obtain ⟨program, read, encodable, bytes⟩ :=
        inductionHypothesis sound.tail
      cases written : line.code with
      | none =>
          refine ⟨program, ?_, encodable, ?_⟩
          · rw [Program.ofLines?_cons_of_blank written, read]
          · rw [List.flatMap_cons,
              SourceLine.bytes_of_code_eq_none written, bytes,
              List.nil_append]
      | some text =>
          obtain ⟨own, encoded, _⟩ := sound.head.code text written
          obtain ⟨instruction, readHere, hasBytes⟩ :=
            Statement.encodeText_eq_ok_iff.1 encoded
          refine ⟨instruction :: program,
            Program.ofLines?_cons_of_code written readHere read, ?_, ?_⟩
          · intro chosen member
            rcases List.mem_cons.1 member with rfl | later
            · exact ⟨own, hasBytes⟩
            · exact encodable chosen later
          · rw [List.flatMap_cons, Program.bytes_cons, bytes,
              SourceLine.bytes_of_encodeText written encoded,
              Instruction.bytes_of_encode? hasBytes]

/-- The emissions of sound lines write their bytes one behind the other. -/
theorem foldl_writeTo
    (sound : AllSound labels size start lines)
    (memory : Memory size) :
    ((placeFrom start lines).filterMap fun placed =>
        EmittedLine.emission? ⟨placed, placed.emit? labels size⟩).foldl
          Emission.writeTo memory =
      memory.write start (lines.flatMap (SourceLine.bytes labels)) := by
  -- The memory is generalized: every line writes behind the earlier ones.
  induction lines generalizing start memory with
  | nil => rfl
  | cons line rest inductionHypothesis =>
      have emission := sound.head.emission?_eq
      have length := sound.head.length_bytes
      simp only at emission length
      rw [placeFrom_cons, List.filterMap_cons, emission,
        List.flatMap_cons, Memory.write_append, length]
      cases written : line.code with
      | none =>
          rw [SourceLine.bytes_of_code_eq_none written]
          exact inductionHypothesis sound.tail memory
      | some text =>
          rw [Option.map_some, List.foldl_cons]
          exact inductionHypothesis sound.tail _

end AllSound

end Layout

namespace Assembly

theorem labels_ofSource (size : Nat) (source : Text) :
    (ofSource size source).labels =
      Layout.labelsOf (SourceLine.ofSource source) :=
  rfl

theorem emissions_ofSource (size : Nat) (source : Text) :
    (ofSource size source).emissions =
      (Layout.place (SourceLine.ofSource source)).filterMap fun placed =>
        EmittedLine.emission?
          ⟨placed,
            placed.emit?
              (Layout.labelsOf (SourceLine.ofSource source)) size⟩ := by
  rw [ofSource, List.filterMap_map]
  rfl

theorem diagnostics_ofSource (size : Nat) (source : Text) :
    (ofSource size source).diagnostics =
      (Layout.place (SourceLine.ofSource source)).flatMap fun placed =>
        EmittedLine.diagnostics
          ⟨placed,
            placed.emit?
              (Layout.labelsOf (SourceLine.ofSource source)) size⟩ := by
  rw [ofSource, List.flatMap_map]
  rfl

variable {size : Nat} {source : Text} {count : Nat}

/-- A source has no diagnostics exactly if all of its lines are sound. -/
theorem diagnostics_ofSource_eq_nil_iff :
    (ofSource size source).diagnostics = [] ↔
      Layout.AllSound (Layout.labelsOf (SourceLine.ofSource source)) size 0
        (SourceLine.ofSource source) := by
  rw [diagnostics_ofSource, List.flatMap_eq_nil_iff]
  exact forall₂_congr fun placed _ => PlacedLine.diagnostics_eq_nil_iff

/-- The assembly succeeds exactly if all lines are sound, with their size. -/
theorem result_ofSource_eq_ok_iff :
    (ofSource size source).result = .ok count ↔
      Layout.AllSound (Layout.labelsOf (SourceLine.ofSource source)) size 0
          (SourceLine.ofSource source) ∧
        Layout.size (SourceLine.ofSource source) = count := by
  have silent :
      (ofSource size source).diagnostics.isEmpty = true ↔
        Layout.AllSound (Layout.labelsOf (SourceLine.ofSource source)) size
          0 (SourceLine.ofSource source) :=
    List.isEmpty_iff.trans diagnostics_ofSource_eq_nil_iff
  rw [result]
  split
  · next empty =>
      rw [Except.ok.injEq]
      exact (and_iff_right (silent.1 empty)).symm
  · next faulty =>
      constructor
      · intro equal
        cases equal
      · rintro ⟨sound, _⟩
        exact absurd (silent.2 sound) faulty

end Assembly

end PocketCpu
