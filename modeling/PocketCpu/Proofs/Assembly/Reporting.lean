import Mathlib.Data.List.Nodup
import PocketCpu.Proofs.Assembly.Faults
import PocketCpu.Proofs.Assembly.Passes

/-!
# What an assembly reports

An assembly reports every fault of every line once: the lines in their
order, and on one line the fault of the label before that of the
instruction.  Neither part of a line hides the other, and no line hides
another one.  The source is refused exactly if there is a fault to report.
-/

namespace PocketCpu

theorem LabelFault.unique
    {raw : Text}
    {cause other : Cause}
    (fault : LabelFault raw cause)
    (again : LabelFault raw other) :
    cause = other := by
  obtain ⟨found, _⟩ := fault
  obtain ⟨foundAgain, _⟩ := again
  rw [Option.some.inj (found.symm.trans foundAgain)]

/-- What is wrong with a line behind others, in its label or elsewhere. -/
def LineFault
    (labels : LabelTable)
    (size : Nat)
    (earlier : List Text)
    (raw : Text)
    (cause : Cause) : Prop :=
  LabelFault raw cause ∨
    CodeFault labels size (WrittenLine.roomOf earlier)
      (WrittenLine.code raw) cause

/-- A list holds the fault of one part of a line, or nothing without one. -/
def ListsFault (fault : Cause → Prop) (causes : List Cause) : Prop :=
  (∃ cause, fault cause ∧ causes = [cause]) ∨
    causes = [] ∧ ∀ cause, ¬ fault cause

namespace ListsFault

variable {fault : Cause → Prop} {causes others : List Cause}

theorem mem_iff
    (unique : ∀ {cause other}, fault cause → fault other → cause = other)
    (lists : ListsFault fault causes)
    {cause : Cause} :
    cause ∈ causes ↔ fault cause := by
  rcases lists with ⟨own, atFault, rfl⟩ | ⟨rfl, clean⟩
  · rw [List.mem_singleton]
    constructor
    · rintro rfl
      exact atFault
    · exact fun again => unique again atFault
  · constructor
    · intro member
      cases member
    · exact fun atFault => absurd atFault (clean cause)

theorem eq
    (unique : ∀ {cause other}, fault cause → fault other → cause = other)
    (lists : ListsFault fault causes)
    (again : ListsFault fault others) :
    causes = others := by
  rcases lists with ⟨cause, atFault, rfl⟩ | ⟨rfl, clean⟩
  · rcases again with ⟨other, otherFault, rfl⟩ | ⟨_, clean⟩
    · rw [unique atFault otherFault]
    · exact absurd atFault (clean cause)
  · rcases again with ⟨other, otherFault, rfl⟩ | ⟨rfl, _⟩
    · exact absurd otherFault (clean other)
    · rfl

end ListsFault

/--
The diagnostics of lines behind others: for one line after the other what is
wrong with its label, and behind it what is wrong with its instruction.
-/
inductive Reported (labels : LabelTable) (size : Nat) :
    List Text → List Text → List Diagnostic → Prop where
  | nil {earlier : List Text} :
      Reported labels size earlier [] []
  | cons
      {earlier rest : List Text}
      {raw : Text}
      {labelCauses codeCauses : List Cause}
      {others : List Diagnostic}
      (label : ListsFault (LabelFault raw) labelCauses)
      (code :
        ListsFault
          (CodeFault labels size (WrittenLine.roomOf earlier)
            (WrittenLine.code raw))
          codeCauses)
      (later : Reported labels size (earlier ++ [raw]) rest others) :
      Reported labels size earlier (raw :: rest)
        ((labelCauses ++ codeCauses).map
            (Diagnostic.mk (earlier.length + 1)) ++
          others)

namespace Reported

variable {labels : LabelTable} {size : Nat}
variable {earlier lines : List Text}
variable {diagnostics others : List Diagnostic}

/-- The faults of lines determine what is reported. -/
theorem unique
    (reported : Reported labels size earlier lines diagnostics)
    (again : Reported labels size earlier lines others) :
    diagnostics = others := by
  induction reported generalizing others with
  | nil =>
      cases again
      rfl
  | cons label code _ inductionHypothesis =>
      cases again with
      | cons labelAgain codeAgain laterAgain =>
          rw [ListsFault.eq LabelFault.unique label labelAgain,
            ListsFault.eq CodeFault.unique code codeAgain,
            inductionHypothesis laterAgain]

/-- A diagnostic is reported exactly if it is a fault of the line it names. -/
theorem mem_iff
    (reported : Reported labels size earlier lines diagnostics)
    {diagnostic : Diagnostic} :
    diagnostic ∈ diagnostics ↔
      ∃ front raw later, lines = front ++ raw :: later ∧
        diagnostic.line = (earlier ++ front).length + 1 ∧
        LineFault labels size (earlier ++ front) raw diagnostic.cause := by
  induction reported with
  | nil => simp
  | @cons earlier rest raw labelCauses codeCauses others label code _
      inductionHypothesis =>
      have here :
          diagnostic ∈
              (labelCauses ++ codeCauses).map
                (Diagnostic.mk (earlier.length + 1)) ↔
            diagnostic.line = earlier.length + 1 ∧
              LineFault labels size earlier raw diagnostic.cause := by
        obtain ⟨line, cause⟩ := diagnostic
        rw [LineFault, ← ListsFault.mem_iff LabelFault.unique label,
          ← ListsFault.mem_iff CodeFault.unique code, ← List.mem_append]
        rw [List.mem_map]
        constructor
        · rintro ⟨own, member, equal⟩
          cases equal
          exact ⟨rfl, member⟩
        · rintro ⟨rfl, member⟩
          exact ⟨cause, member, rfl⟩
      rw [List.mem_append, here, inductionHypothesis]
      exact (WrittenLine.exists_split_cons_iff fun front chosen =>
        diagnostic.line = front.length + 1 ∧
          LineFault labels size front chosen diagnostic.cause).symm

end Reported

/-! ## Lines of a source -/

namespace WrittenLine

variable {labels : LabelTable} {size number : Nat}
variable {raw : Text} {placed : PlacedLine}

theorem listsFault_label
    (reads : Reads number raw placed.line) :
    ListsFault (LabelFault raw) placed.labelCauses := by
  rw [PlacedLine.labelCauses, reads.label]
  cases found : label? raw with
  | none =>
      refine Or.inr ⟨rfl, ?_⟩
      rintro _ ⟨foundAgain, _⟩
      cases found.symm.trans foundAgain
  | some name =>
      rw [Option.elim_some, LabelPart.ofText]
      have refused :
          (name.isEmpty || name.any Text.isBlank) = true ↔
            name = [] ∨
              ∃ character ∈ name, Text.isBlank character = true := by
        rw [Bool.or_eq_true, List.isEmpty_iff, List.any_eq_true]
      by_cases malformed : (name.isEmpty || name.any Text.isBlank) = true
      · rw [if_pos malformed]
        exact Or.inl ⟨_, .malformed found (refused.1 malformed), rfl⟩
      · rw [if_neg malformed]
        refine Or.inr ⟨rfl, ?_⟩
        rintro _ ⟨foundAgain, refusedAgain⟩
        cases found.symm.trans foundAgain
        exact malformed (refused.2 refusedAgain)

theorem listsFault_code
    (reads : Reads number raw placed.line) :
    ListsFault (CodeFault labels size placed.address (code raw))
      (EmittedLine.codeCauses ⟨placed, placed.emit? labels size⟩) := by
  rw [EmittedLine.codeCauses]
  rcases reads.code_cases with ⟨empty, blank⟩ | ⟨present, written⟩
  · rw [PlacedLine.emit?_of_code_eq_none blank]
    exact Or.inr ⟨rfl, fun _ fault => fault.ne_nil empty⟩
  · have fault {cause : Cause} :
        CodeFault labels size placed.address (code raw) cause ↔
          placed.emit? labels size = some (.error cause) :=
      CodeFault.iff_emit? written present
    cases result : placed.emit? labels size with
    | none => exact Or.inr ⟨rfl, by simp [fault, result]⟩
    | some outcome =>
        cases outcome with
        | ok emission => exact Or.inr ⟨rfl, by simp [fault, result]⟩
        | error cause => exact Or.inl ⟨cause, fault.2 result, rfl⟩

/-- The diagnostics of placed lines are what the lines have reported. -/
theorem reported_placeFrom
    (labels : LabelTable)
    (size : Nat)
    (earlier lines : List Text) :
    Reported labels size earlier lines
      ((Layout.placeFrom (roomOf earlier)
          (read (earlier.length + 1) lines)).flatMap fun placed =>
        EmittedLine.diagnostics ⟨placed, placed.emit? labels size⟩) := by
  induction lines generalizing earlier with
  | nil => exact .nil
  | cons raw rest inductionHypothesis =>
      have later := inductionHypothesis (earlier ++ [raw])
      rw [roomOf_append, roomOf_singleton, List.length_append,
        List.length_singleton] at later
      rw [placeFrom_read_cons, List.flatMap_append]
      rcases ofText?_cases (earlier.length + 1) raw with
        ⟨dropped, unlabelled, empty⟩ | ⟨line, kept, reads⟩
      · have label : ListsFault (LabelFault raw) [] := by
          refine Or.inr ⟨rfl, ?_⟩
          rintro _ ⟨found, _⟩
          cases unlabelled.symm.trans found
        have code :
            ListsFault
              (CodeFault labels size (roomOf earlier) (code raw)) [] :=
          Or.inr ⟨rfl, fun _ fault => fault.ne_nil empty⟩
        rw [dropped]
        exact .cons label code later
      · rw [kept, Option.map_some, Option.toList_some,
          List.flatMap_singleton]
        let placed : PlacedLine := ⟨line, roomOf earlier⟩
        have label : ListsFault (LabelFault raw) placed.labelCauses :=
          listsFault_label reads
        have code :
            ListsFault (CodeFault labels size placed.address (code raw))
              (EmittedLine.codeCauses
                ⟨placed, placed.emit? labels size⟩) :=
          listsFault_code reads
        have all := Reported.cons label code later
        rw [← reads.number] at all ⊢
        exact all

end WrittenLine

namespace Assembly

/-- The diagnostics of an assembly are what its lines have reported. -/
theorem reported_diagnostics (size : Nat) (source : Text) :
    Reported (ofSource size source).labels size [] source.lines
      (ofSource size source).diagnostics := by
  rw [diagnostics_ofSource, labels_ofSource, ← WrittenLine.read_lines]
  exact WrittenLine.reported_placeFrom _ size [] source.lines

theorem mem_diagnostics_ofSource_iff
    {size : Nat}
    {source : Text}
    {diagnostic : Diagnostic} :
    diagnostic ∈ (ofSource size source).diagnostics ↔
      ∃ earlier raw, WrittenLine.IsLineBehind source earlier raw ∧
        diagnostic.line = earlier.length + 1 ∧
        LineFault (ofSource size source).labels size earlier raw
          diagnostic.cause := by
  rw [(reported_diagnostics size source).mem_iff]
  constructor
  · rintro ⟨earlier, raw, later, split, number, fault⟩
    exact ⟨earlier, raw, ⟨later, split⟩, number, fault⟩
  · rintro ⟨earlier, raw, ⟨later, split⟩, number, fault⟩
    exact ⟨earlier, raw, later, split, number, fault⟩

theorem result_eq_error_iff
    {assembly : Assembly}
    {diagnostics : List Diagnostic} :
    assembly.result = .error diagnostics ↔
      diagnostics ≠ [] ∧ assembly.diagnostics = diagnostics := by
  rw [result]
  split
  · next empty =>
      rw [List.isEmpty_iff] at empty
      rw [empty]
      constructor
      · intro equal
        cases equal
      · rintro ⟨present, rfl⟩
        exact absurd rfl present
  · next faulty =>
      rw [List.isEmpty_iff] at faulty
      rw [Except.error.injEq]
      constructor
      · rintro rfl
        exact ⟨faulty, rfl⟩
      · exact And.right

end Assembly

end PocketCpu
