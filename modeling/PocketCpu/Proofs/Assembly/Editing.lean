import Mathlib.Data.List.Forall2
import PocketCpu.Proofs.Assembly.LineEditing
import PocketCpu.Proofs.Assembly.Rewording

/-!
# Editing the layout of a source

Lines without a label and an instruction may come and go, single lines may
be laid out differently, and lines may end in a carriage return.  A source
is then assembled as before, and the mistakes name the lines by their new
numbers.  If separators between the words of an instruction are exchanged,
the mistakes are still of the same kinds on the same lines.
-/

namespace PocketCpu

namespace Diagnostic

/-- The line of a mistake and its kind. -/
def withoutContext (diagnostic : Diagnostic) : Nat × Complaint :=
  (diagnostic.line, diagnostic.cause.complaint)

end Diagnostic

/-! ## Edits of a source -/

/-- One line of a source is edited. -/
def EditsLine
    (edit : Text → Text → Prop)
    (source other : Text) : Prop :=
  ∃ front raw edited back,
    source.lines = front ++ raw :: back ∧
      other.lines = front ++ edited :: back ∧ edit raw edited

/-- An idle line is put behind the first `count` lines of a source. -/
def InsertsIdleLine (count : Nat) (source other : Text) : Prop :=
  ∃ front raw back,
    front.length = count ∧ source.lines = front ++ back ∧
      other.lines = front ++ raw :: back ∧ WrittenLine.IsIdle raw

/-- The new number of a line after one was put behind the first `count`. -/
def numberAfterInsertion (count number : Nat) : Nat :=
  if number ≤ count then number else number + 1

/-- The new number of a line after the one behind the first `count` is gone. -/
def numberAfterDeletion (count number : Nat) : Nat :=
  if number ≤ count then number else number - 1

theorem numberAfterDeletion_comp_numberAfterInsertion (count : Nat) :
    numberAfterDeletion count ∘ numberAfterInsertion count = id := by
  funext number
  rw [Function.comp_apply, numberAfterInsertion, numberAfterDeletion]
  by_cases inFront : number ≤ count
  · rw [if_pos inFront, if_pos inFront, id]
  · rw [if_neg inFront, if_neg (by omega), Nat.add_sub_cancel, id]

/-- The layout of a source is edited, and its lines get new numbers. -/
inductive LayoutEdit : (Nat → Nat) → Text → Text → Prop where
  | line
      {source other : Text}
      (edits : EditsLine WrittenLine.LineEdit source other) :
      LayoutEdit id source other
  | insert
      {count : Nat}
      {source other : Text}
      (inserts : InsertsIdleLine count source other) :
      LayoutEdit (numberAfterInsertion count) source other
  | delete
      {count : Nat}
      {source other : Text}
      (inserts : InsertsIdleLine count other source) :
      LayoutEdit (numberAfterDeletion count) source other
  | returns (source : Text) : LayoutEdit id source source.withReturns

/-- The layout of a source is edited several times. -/
inductive LayoutEdits : (Nat → Nat) → Text → Text → Prop where
  | none (source : Text) : LayoutEdits id source source
  | next
      {number next : Nat → Nat}
      {source other last : Text}
      (edits : LayoutEdits number source other)
      (edit : LayoutEdit next other last) :
      LayoutEdits (next ∘ number) source last

/-! ## Lines after an edit of the layout -/

section Lines

open WrittenLine

variable {source other : Text} {number : Nat → Nat}

theorem SourceLine.map_renumber_id (lines : List SourceLine) :
    lines.map (SourceLine.renumber id) = lines :=
  List.map_id lines

theorem ofSource_of_editsLine
    (edits : EditsLine LineEdit source other) :
    SourceLine.ofSource other = SourceLine.ofSource source := by
  obtain ⟨front, raw, edited, back, split, otherSplit, edit⟩ := edits
  have alike := edit.readsAlike
  rw [← read_lines, ← read_lines, split, otherSplit, read_append,
    read_append, read_cons, read_cons,
    ofText?_congr _ alike.label alike.code]

/-- The lines behind an inserted one are numbered one higher. -/
theorem ofSource_of_insertsIdleLine
    {count : Nat}
    (inserts : InsertsIdleLine count source other) :
    SourceLine.ofSource other =
      (SourceLine.ofSource source).map
        (SourceLine.renumber (numberAfterInsertion count)) := by
  obtain ⟨front, raw, back, rfl, split, otherSplit, idle⟩ := inserts
  have inFront :
      (read 1 front).map
          (SourceLine.renumber (numberAfterInsertion front.length)) =
        (read 1 front).map (SourceLine.renumber id) :=
    map_renumber_congr fun number _ below => if_pos (by omega)
  have behind :
      (read (1 + front.length) back).map
          (SourceLine.renumber (numberAfterInsertion front.length)) =
        (read (1 + front.length) back).map
          (SourceLine.renumber (· + 1)) :=
    map_renumber_congr fun number above _ => if_neg (by omega)
  rw [← read_lines, ← read_lines, split, otherSplit, read_append,
    read_cons, idle.ofText?_eq_none, Option.toList_none, List.nil_append,
    read_append, List.map_append, inFront, behind, read_add,
    SourceLine.map_renumber_id]

theorem ofSource_withReturns (source : Text) :
    SourceLine.ofSource source.withReturns =
      SourceLine.ofSource source := by
  refine read_congr ((Text.lines_withReturns source).imp ?_) 1
  rintro raw other (rfl | rfl)
  · exact ⟨rfl, rfl⟩
  · have edit := @LineEdit.blanks raw [] ['\r'] (.back raw)
      (List.all_eq_true.1 rfl)
    rw [List.append_nil, List.append_nil] at edit
    exact edit.readsAlike

theorem LayoutEdit.ofSource_eq
    (edit : LayoutEdit number source other) :
    SourceLine.ofSource other =
      (SourceLine.ofSource source).map (SourceLine.renumber number) := by
  cases edit with
  | line edits =>
      rw [ofSource_of_editsLine edits, SourceLine.map_renumber_id]
  | insert inserts => exact ofSource_of_insertsIdleLine inserts
  | @delete count _ _ inserts =>
      -- Deleting the line again gives every line its number back.
      have again :=
        SourceLine.map_renumber_id (SourceLine.ofSource other)
      rw [← numberAfterDeletion_comp_numberAfterInsertion count] at again
      rw [ofSource_of_insertsIdleLine inserts, List.map_map]
      exact again.symm
  | returns => rw [ofSource_withReturns, SourceLine.map_renumber_id]

theorem LayoutEdits.ofSource_eq
    (edits : LayoutEdits number source other) :
    SourceLine.ofSource other =
      (SourceLine.ofSource source).map (SourceLine.renumber number) := by
  induction edits with
  | none => rw [SourceLine.map_renumber_id]
  | next _ edit inductionHypothesis =>
      rw [edit.ofSource_eq, inductionHypothesis, List.map_map]
      rfl

end Lines

/-! ## Lines after an exchange of separators -/

section Gaps

open WrittenLine

variable {source other : Text}

/-- The change of one instruction's text, on the line of a given number. -/
def Rewording.respelling
    (changed : Nat)
    {old new : Text}
    (same : new.words = old.words) : Rewording where
  number := id
  text number instruction :=
    if number = changed ∧ instruction = old then new else instruction
  words number instruction := by
    split
    · next chosen => rw [chosen.2, same]
    · rfl

/-- Exchanging separators changes the text of one instruction. -/
theorem exists_rewording_of_gapEdit
    (edits : EditsLine GapEdit source other) :
    ∃ rewording : Rewording, rewording.number = id ∧
      SourceLine.ofSource other =
        (SourceLine.ofSource source).map rewording.line := by
  obtain ⟨front, raw, edited, back, split, otherSplit, edit⟩ := edits
  obtain ⟨label, words, present, otherPresent⟩ := edit.hasSameWords
  let rewording := Rewording.respelling (1 + front.length) words
  have here :
      SourceLine.ofText? (1 + front.length) edited =
        (SourceLine.ofText? (1 + front.length) raw).map
          rewording.line := by
    have chosen :
        rewording.text (1 + front.length) (code raw) = code edited :=
      if_pos ⟨rfl, rfl⟩
    rw [ofText?_eq, ofText?_eq, if_neg fun blank => otherPresent blank.2,
      if_neg fun blank => present blank.2, label,
      SourceLine.nonempty?_of_ne_nil present,
      SourceLine.nonempty?_of_ne_nil otherPresent, ← chosen]
    rfl
  have elsewhere
      {lines : List SourceLine}
      (different : ∀ line ∈ lines, line.number ≠ 1 + front.length) :
      lines.map rewording.line = lines := by
    refine (List.map_congr_left fun line member => ?_).trans
      (List.map_id lines)
    have kept :
        rewording.text line.number = id :=
      funext fun _ => if_neg fun chosen => different line member chosen.1
    rw [Rewording.line, kept, Option.map_id]
    rfl
  have inFront : (read 1 front).map rewording.line = read 1 front :=
    elsewhere fun line member => by
      have bounds := number_bounds member
      omega
  have behind :
      (read (1 + front.length + 1) back).map rewording.line =
        read (1 + front.length + 1) back :=
    elsewhere fun line member => by
      have bounds := number_bounds member
      omega
  refine ⟨rewording, rfl, ?_⟩
  rw [← read_lines, ← read_lines, split, otherSplit, read_append,
    read_append, read_cons, read_cons, here, List.map_append,
    List.map_append, Option.toList_map, inFront, behind]

end Gaps

/-! ## Assembling an edited source -/

namespace Rewording

/-- If no line is renumbered, mistakes differ in their contexts only. -/
theorem withoutContext_diagnostic
    {rewording : Rewording}
    (unnumbered : rewording.number = id)
    (diagnostics : List Diagnostic) :
    (diagnostics.map rewording.diagnostic).map Diagnostic.withoutContext =
      diagnostics.map Diagnostic.withoutContext := by
  rw [List.map_map]
  apply List.map_congr_left
  intro diagnostic _
  simp only [Function.comp_apply, Diagnostic.withoutContext,
    Rewording.diagnostic, complaint_cause, unnumbered, id]

end Rewording

namespace Workspace

variable {size : Nat}

/--
Edits of the layout change no more than the line numbers of mistakes, and
the exchange of separators no more than their contexts.
-/
theorem assemble_of_edited
    (workspace : Workspace size)
    (source other : Text) :
    (∀ number, LayoutEdits number source other →
      workspace.assemble other =
        ((workspace.assemble source).1,
          (workspace.assemble source).2.mapError
            (List.map (Diagnostic.renumber number)))) ∧
    (EditsLine WrittenLine.GapEdit source other →
      (workspace.assemble other).1 = (workspace.assemble source).1 ∧
        (workspace.assemble other).2.mapError
            (List.map Diagnostic.withoutContext) =
          (workspace.assemble source).2.mapError
            (List.map Diagnostic.withoutContext)) := by
  constructor
  · intro number edits
    rw [← Rewording.diagnostic_renumbering]
    apply Rewording.assemble_eq
    rw [Rewording.line_renumbering, edits.ofSource_eq]
  · intro edits
    obtain ⟨rewording, unnumbered, reworded⟩ :=
      exists_rewording_of_gapEdit edits
    rw [Rewording.assemble_eq reworded workspace]
    refine ⟨rfl, ?_⟩
    cases (workspace.assemble source).2 with
    | ok count => rfl
    | error diagnostics =>
        exact congrArg Except.error
          (Rewording.withoutContext_diagnostic unnumbered diagnostics)

/-- A jump to nowhere is still at fault, but a line further down. -/
theorem assemble_edited_jump :
    (ofMemory (.zero 4)).assemble "; jump\r\na : JMP b".toList =
        (((ofMemory (.zero 4)).assemble "a: JMP b".toList).1,
          ((ofMemory (.zero 4)).assemble "a: JMP b".toList).2.mapError
            (List.map (Diagnostic.renumber (numberAfterInsertion 0)))) ∧
      ((ofMemory (.zero 4)).assemble "a: JMP,\tb".toList).1 =
        ((ofMemory (.zero 4)).assemble "a: JMP b".toList).1 ∧
      ((ofMemory (.zero 4)).assemble "a: JMP,\tb".toList).2.mapError
          (List.map Diagnostic.withoutContext) =
        ((ofMemory (.zero 4)).assemble "a: JMP b".toList).2.mapError
          (List.map Diagnostic.withoutContext) := by
  have inserted :
      LayoutEdit (numberAfterInsertion 0)
        "a: JMP b".toList "; jump\na: JMP b".toList :=
    .insert
      ⟨[], "; jump".toList, ["a: JMP b".toList], rfl, rfl, rfl, by decide⟩
  have parted :
      LayoutEdit id
        "; jump\na: JMP b".toList "; jump\na : JMP b".toList :=
    .line
      ⟨["; jump".toList], "a: JMP b".toList, "a : JMP b".toList, [],
        rfl, rfl,
        @WrittenLine.LineEdit.blanks ['a'] ": JMP b".toList [' ']
          (.beforeColon (by decide) _) (List.all_eq_true.1 rfl)⟩
  have edits :=
    (((LayoutEdits.none _).next inserted).next parted).next (.returns _)
  have gaps :
      EditsLine WrittenLine.GapEdit
        "a: JMP b".toList "a: JMP,\tb".toList :=
    ⟨[], _, _, [], rfl, rfl,
      @WrittenLine.GapEdit.replace "a: JMP".toList [] [' '] [',', '\t'] 'b'
        ⟨by decide, by decide, by decide⟩
        ⟨by decide, List.all_eq_true.1 rfl⟩
        ⟨by decide, List.all_eq_true.1 rfl⟩⟩
  exact ⟨(assemble_of_edited _ _ _).1 _ edits,
    (assemble_of_edited _ _ _).2 gaps⟩

end Workspace

end PocketCpu
