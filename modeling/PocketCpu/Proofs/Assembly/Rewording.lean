import PocketCpu.Proofs.Assembly.Faults
import PocketCpu.Proofs.Assembly.Numbering
import PocketCpu.Proofs.Assembly.Passes

/-!
# Rewording

A source is reworded if its lines get other numbers and its instructions
other texts with the same words.  Sizes, labels and bytes depend on words
alone, so the same bytes are put at the same addresses.  The mistakes are
the same as well, except that they name the new numbers and that two of
them quote the new text.
-/

namespace PocketCpu

/-- The same mistake on a line with another number. -/
def Diagnostic.renumber
    (number : Nat → Nat)
    (diagnostic : Diagnostic) : Diagnostic :=
  { diagnostic with line := number diagnostic.line }

/--
A change of the numbers of lines, and of the texts of instructions on lines
of given numbers; every instruction keeps its words.
-/
structure Rewording where
  number : Nat → Nat
  text : Nat → Text → Text
  words :
    ∀ line instruction, (text line instruction).words = instruction.words

namespace Rewording

/-- The change of numbers alone. -/
def renumbering (number : Nat → Nat) : Rewording :=
  ⟨number, fun _ instruction => instruction, fun _ _ => rfl⟩

variable (rewording : Rewording)

def line (line : SourceLine) : SourceLine :=
  ⟨rewording.number line.number, line.label,
    line.code.map (rewording.text line.number)⟩

def placed (placed : PlacedLine) : PlacedLine :=
  ⟨rewording.line placed.line, placed.address⟩

def emission (emission : Emission) : Emission :=
  { emission with
    line := rewording.number emission.line
    instruction := rewording.text emission.line emission.instruction }

/-- A cause on a line of a given number, with the new text quoted. -/
def cause (number : Nat) : Cause → Cause
  | .immediateTarget instruction =>
    .immediateTarget (rewording.text number instruction)
  | .doesNotFit instruction lastAddress size =>
    .doesNotFit (rewording.text number instruction) lastAddress size
  | cause => cause

def diagnostic (diagnostic : Diagnostic) : Diagnostic :=
  ⟨rewording.number diagnostic.line,
    rewording.cause diagnostic.line diagnostic.cause⟩

@[simp]
theorem complaint_cause (number : Nat) (cause : Cause) :
    (rewording.cause number cause).complaint = cause.complaint := by
  cases cause <;> rfl

/-! ## Renumbering -/

section Renumbering

variable (number : Nat → Nat)

theorem line_renumbering :
    (renumbering number).line = SourceLine.renumber number := by
  funext line
  obtain ⟨_, _, _ | _⟩ := line <;> rfl

theorem diagnostic_renumbering :
    (renumbering number).diagnostic = Diagnostic.renumber number := by
  funext diagnostic
  obtain ⟨_, cause⟩ := diagnostic
  cases cause <;> rfl

end Renumbering

/-! ## Instructions -/

section Instructions

variable (number : Nat) (instruction : Text) (labels : LabelTable)

theorem ofText_text :
    Statement.ofText (rewording.text number instruction) =
      Statement.ofText instruction := by
  rw [Statement.ofText, Reader.ofText, rewording.words, Statement.ofText,
    Reader.ofText]

/-- Causes that are found before there are bytes quote no instruction. -/
theorem cause_of_instructionOf
    {cause : Cause}
    (refused :
      Statement.instructionOf labels instruction = .error cause) :
    rewording.cause number cause = cause := by
  rcases Statement.instructionOf_eq_error_iff.1 refused with
    unread | ⟨statement, _, unresolved⟩
  · have syntactic := Statement.concernsText_of_ofText unread
    cases cause with
    | immediateTarget _ => cases syntactic
    | doesNotFit _ _ _ => cases syntactic
    | _ => rfl
  · obtain ⟨_, _, _, ⟨_, rfl⟩ | ⟨_, _, _, rfl⟩⟩ :=
      Statement.resolve_eq_error_iff.1 unresolved
    · rfl
    · rfl

/-- The same bytes, or the same cause with the new text in it. -/
theorem encodeText_text :
    Statement.encodeText labels (rewording.text number instruction) =
      (Statement.encodeText labels instruction).mapError
        (rewording.cause number) := by
  have same :
      Statement.instructionOf labels (rewording.text number instruction) =
        Statement.instructionOf labels instruction := by
    rw [Statement.instructionOf, Statement.instructionOf,
      Pass.read_emitting, Pass.read_emitting, ofText_text]
  rw [Statement.encodeText, same, Statement.encodeText]
  cases read : Statement.instructionOf labels instruction with
  | error cause =>
      exact congrArg Except.error
        (rewording.cause_of_instructionOf number instruction labels
          read).symm
  | ok complete =>
      simp only [bind, Except.bind]
      cases complete.encode? <;> rfl

end Instructions

/-! ## Lines -/

theorem size_line (line : SourceLine) :
    (rewording.line line).size = line.size := by
  rw [SourceLine.size, SourceLine.size, SourceLine.statement?,
    SourceLine.statement?, Rewording.line]
  cases line.code with
  | none => rfl
  | some instruction =>
      simp only [Option.map_some, ofText_text]

theorem size_map (lines : List SourceLine) :
    Layout.size (lines.map rewording.line) = Layout.size lines := by
  induction lines with
  | nil => rfl
  | cons line rest inductionHypothesis =>
      rw [List.map_cons, Layout.size_cons, inductionHypothesis,
        size_line, Layout.size_cons]

/-- Reworded lines are placed at the same addresses. -/
theorem placeFrom_map (start : Nat) (lines : List SourceLine) :
    Layout.placeFrom start (lines.map rewording.line) =
      (Layout.placeFrom start lines).map rewording.placed := by
  induction lines generalizing start with
  | nil => rfl
  | cons line rest inductionHypothesis =>
      rw [List.map_cons, Layout.placeFrom_cons, size_line,
        inductionHypothesis, Layout.placeFrom_cons, List.map_cons]
      rfl

/-- Reworded lines define the same labels. -/
theorem labelsOf_map (lines : List SourceLine) :
    Layout.labelsOf (lines.map rewording.line) =
      Layout.labelsOf lines := by
  rw [Layout.labelsOf, Layout.place, placeFrom_map, Layout.labels,
    List.foldl_map]
  rfl

variable (labels : LabelTable) (size : Nat) (placed : PlacedLine)

theorem emit?_placed :
    (rewording.placed placed).emit? labels size =
      (placed.emit? labels size).map fun result =>
        (result.map rewording.emission).mapError
          (rewording.cause placed.line.number) := by
  cases written : placed.line.code with
  | none =>
      have blank : (rewording.placed placed).line.code = none := by
        rw [Rewording.placed, line, written, Option.map_none]
      rw [PlacedLine.emit?_of_code_eq_none blank,
        PlacedLine.emit?_of_code_eq_none written, Option.map_none]
  | some instruction =>
      have reworded :
          (rewording.placed placed).line.code =
            some (rewording.text placed.line.number instruction) := by
        rw [Rewording.placed, line, written, Option.map_some]
      have encodedAgain :=
        rewording.encodeText_text placed.line.number instruction labels
      cases encoded : Statement.encodeText labels instruction with
      | error cause =>
          rw [encoded] at encodedAgain
          rw [PlacedLine.emit?_of_encodeText_error written encoded,
            PlacedLine.emit?_of_encodeText_error reworded encodedAgain]
          rfl
      | ok bytes =>
          rw [encoded] at encodedAgain
          rw [PlacedLine.emit?_of_encodeText written encoded,
            PlacedLine.emit?_of_encodeText reworded encodedAgain]
          by_cases fits : placed.address + bytes.length ≤ size
          · rw [if_pos fits]
            exact congrArg some (if_pos fits)
          · rw [if_neg fits]
            exact congrArg some (if_neg fits)

theorem emission?_placed :
    EmittedLine.emission?
        ⟨rewording.placed placed,
          (rewording.placed placed).emit? labels size⟩ =
      (EmittedLine.emission? ⟨placed, placed.emit? labels size⟩).map
        rewording.emission := by
  rw [EmittedLine.emission?, emit?_placed, EmittedLine.emission?]
  rcases placed.emit? labels size with _ | _ | _ <;> rfl

theorem diagnostics_placed :
    EmittedLine.diagnostics
        ⟨rewording.placed placed,
          (rewording.placed placed).emit? labels size⟩ =
      (EmittedLine.diagnostics ⟨placed, placed.emit? labels size⟩).map
        rewording.diagnostic := by
  have label :
      (rewording.placed placed).labelCauses =
        placed.labelCauses.map (rewording.cause placed.line.number) := by
    obtain ⟨⟨_, label, _⟩, _⟩ := placed
    cases label <;> rfl
  have code :
      EmittedLine.codeCauses
          ⟨rewording.placed placed,
            (rewording.placed placed).emit? labels size⟩ =
        (EmittedLine.codeCauses ⟨placed, placed.emit? labels size⟩).map
          (rewording.cause placed.line.number) := by
    rw [EmittedLine.codeCauses, emit?_placed, EmittedLine.codeCauses]
    rcases placed.emit? labels size with _ | _ | _ <;> rfl
  rw [EmittedLine.diagnostics, label, code, EmittedLine.diagnostics,
    ← List.map_append, List.map_map, List.map_map]
  rfl

/-! ## Sources -/

section Sources

variable {rewording} {size : Nat} {source other : Text}
variable
  (reworded :
    SourceLine.ofSource other =
      (SourceLine.ofSource source).map rewording.line)

include reworded

theorem labels_ofSource :
    (Assembly.ofSource size other).labels =
      (Assembly.ofSource size source).labels := by
  rw [Assembly.labels_ofSource, reworded, labelsOf_map,
    Assembly.labels_ofSource]

theorem emissions_ofSource :
    (Assembly.ofSource size other).emissions =
      (Assembly.ofSource size source).emissions.map rewording.emission := by
  rw [Assembly.emissions_ofSource, Assembly.emissions_ofSource, reworded,
    labelsOf_map, Layout.place, placeFrom_map, List.filterMap_map,
    List.map_filterMap]
  exact congrFun (congrArg List.filterMap (funext fun placed =>
    rewording.emission?_placed _ size placed)) _

theorem diagnostics_ofSource :
    (Assembly.ofSource size other).diagnostics =
      (Assembly.ofSource size source).diagnostics.map
        rewording.diagnostic := by
  rw [Assembly.diagnostics_ofSource, Assembly.diagnostics_ofSource,
    reworded, labelsOf_map, Layout.place, placeFrom_map, List.flatMap_map,
    List.map_flatMap]
  exact congrFun (congrArg List.flatMap (funext fun placed =>
    rewording.diagnostics_placed _ size placed)) _

theorem result_ofSource :
    (Assembly.ofSource size other).result =
      (Assembly.ofSource size source).result.mapError
        (List.map rewording.diagnostic) := by
  have length :
      (Assembly.ofSource size other).size =
        (Assembly.ofSource size source).size := by
    change Layout.size (SourceLine.ofSource other) = _
    rw [reworded, size_map]
    rfl
  rw [Assembly.result, diagnostics_ofSource reworded, length,
    List.isEmpty_map, Assembly.result]
  split <;> rfl

/-- A reworded source is assembled with the same labels and the same bytes. -/
theorem assemble_eq (workspace : Workspace size) :
    workspace.assemble other =
      ((workspace.assemble source).1,
        (workspace.assemble source).2.mapError
          (List.map rewording.diagnostic)) := by
  have written :
      (Assembly.ofSource size other).writeTo workspace.memory =
        (Assembly.ofSource size source).writeTo workspace.memory := by
    rw [Assembly.writeTo, emissions_ofSource reworded, List.foldl_map]
    rfl
  rw [Workspace.assemble_eq, Workspace.assemble_eq, written,
    labels_ofSource reworded, result_ofSource reworded]

end Sources

end Rewording

end PocketCpu
