import PocketCpu.Machine.Load
import PocketCpu.Proofs.Assembly.Merging

/-!
# What the two passes arrive at

The passes carry a table of labels, an address and the memory from line to
line.  Still, what they do on a line is said by the line, its address and the
final table alone: the first pass places lines and fills the table from empty,
whatever it held before, and the second writes the bytes that each placed line
has under that table.  So a source is assembled line by line, and the labels
and the bytes that were there before matter only where nothing is written.
-/

namespace PocketCpu

/-! ## The first pass -/

namespace SizingPass

variable {pass : SizingPass} {line : SourceLine}

theorem bindLabel_eq (pass : SizingPass) (line : SourceLine) :
    pass.bindLabel line =
      { pass with
        labels := PlacedLine.define pass.labels ⟨line, pass.address⟩
        notices :=
          pass.notices ++
            PlacedLine.labelNotices pass.labels ⟨line, pass.address⟩ } := by
  rw [bindLabel, PlacedLine.define, PlacedLine.labelNotices]
  cases line.label with
  | absent => simp
  | malformed name => simp
  | defines name =>
      dsimp only
      cases (pass.labels.exchange name (UInt16.ofNat pass.address)).2 <;>
        simp

/-- The room of a line is that of the statement on it, under any labels. -/
theorem measure_eq (pass : SizingPass) (line : SourceLine) :
    pass.measure line =
      { pass with
        sizes := pass.sizes.push line.size
        address := pass.address + line.size
        notices :=
          pass.notices ++ PlacedLine.sizeNotices ⟨line, pass.address⟩ } := by
  rw [measure, PlacedLine.sizeNotices, SourceLine.size,
    SourceLine.statement?]
  cases line.code with
  | none => simp [reserve]
  | some text =>
      simp only [Pass.read_sizing, Option.map_some]
      cases Statement.ofText text with
      | error cause => simp [reserve, Except.map]
      | ok statement => simp [reserve, Except.map, Statement.size]

theorem visit_eq (pass : SizingPass) (line : SourceLine) :
    pass.visit line =
      { labels := PlacedLine.define pass.labels ⟨line, pass.address⟩
        sizes := pass.sizes.push line.size
        address := pass.address + line.size
        notices :=
          (PlacedLine.announce (pass.labels, pass.notices)
            ⟨line, pass.address⟩).2 } := by
  rw [visit, measure_eq, bindLabel_eq]
  rfl

/-- What the first pass has found when it has gone over some more lines. -/
structure LeadsTo
    (pass : SizingPass)
    (lines : List SourceLine)
    (final : SizingPass) : Prop where
  labels :
    final.labels =
      (Layout.placeFrom pass.address lines).foldl PlacedLine.define
        pass.labels
  sizes :
    final.sizes.toList = pass.sizes.toList ++ lines.map SourceLine.size
  notices :
    final.notices =
      ((Layout.placeFrom pass.address lines).foldl PlacedLine.announce
        (pass.labels, pass.notices)).2

/-- Line after line the first pass places lines, from where it has come to. -/
theorem leadsTo_foldl_visit
    (pass : SizingPass)
    (lines : List SourceLine) :
    pass.LeadsTo lines (lines.foldl visit pass) := by
  induction lines generalizing pass with
  | nil => exact ⟨rfl, (List.append_nil _).symm, rfl⟩
  | cons line rest inductionHypothesis =>
      obtain ⟨labels, sizes, notices⟩ :=
        inductionHypothesis (pass.visit line)
      rw [List.foldl_cons]
      refine ⟨?_, ?_, ?_⟩
      · rw [labels, visit_eq, Layout.placeFrom_cons, List.foldl_cons]
      · rw [sizes, visit_eq, List.map_cons, Array.toList_push,
          List.append_assoc, List.singleton_append]
      · rw [notices, visit_eq, Layout.placeFrom_cons, List.foldl_cons]
        rfl

/-- Whatever labels were left before, the first pass finds those of its own. -/
theorem run_leadsTo (labels : LabelTable) (lines : List SourceLine) :
    (run labels lines).labels = Layout.labelsOf lines ∧
      (run labels lines).sizes.toList = lines.map SourceLine.size ∧
      (run labels lines).notices.toList =
        Layout.notices (Layout.place lines) := by
  obtain ⟨found, sizes, notices⟩ := leadsTo_foldl_visit (start labels) lines
  exact ⟨found, sizes, congrArg Array.toList notices⟩

end SizingPass

/-! ## The second pass -/

namespace Layout

/-- Lines placed from an address on, and what each puts into memory. -/
def emitFrom
    (labels : LabelTable)
    (size start : Nat)
    (lines : List SourceLine) :
    List EmittedLine :=
  (placeFrom start lines).map fun placed =>
    ⟨placed, placed.emit? labels size⟩

theorem emitFrom_cons
    (labels : LabelTable)
    (size start : Nat)
    (line : SourceLine)
    (rest : List SourceLine) :
    emitFrom labels size start (line :: rest) =
      ⟨⟨line, start⟩, PlacedLine.emit? labels size ⟨line, start⟩⟩ ::
        emitFrom labels size (start + line.size) rest := by
  rw [emitFrom, placeFrom_cons, List.map_cons]
  rfl

end Layout

/-- The mistakes in labels do not depend on where lines are placed. -/
theorem flatMap_labelDiagnostics_emitFrom
    (labels : LabelTable)
    (size start : Nat)
    (lines : List SourceLine) :
    (Layout.emitFrom labels size start lines).flatMap
        EmittedLine.labelDiagnostics =
      lines.flatMap SourceLine.labelDiagnostics := by
  induction lines generalizing start with
  | nil => rfl
  | cons line rest inductionHypothesis =>
      rw [Layout.emitFrom_cons, List.flatMap_cons, List.flatMap_cons,
        inductionHypothesis, EmittedLine.labelDiagnostics,
        PlacedLine.labelCauses, SourceLine.labelDiagnostics]
      cases line.label <;> rfl

namespace EmittingPass

variable {size : Nat}

/-- A line is emitted as it is placed where the pass has come to. -/
theorem visit_eq
    (labels : LabelTable)
    (pass : EmittingPass size)
    (line : SourceLine)
    {emitted : EmittedLine}
    (isEmitted :
      emitted =
        ⟨⟨line, pass.address⟩,
          PlacedLine.emit? labels size ⟨line, pass.address⟩⟩) :
    pass.visit labels (line, line.size) =
      { memory :=
          emitted.emission?.toList.foldl Emission.writeTo pass.memory
        address := pass.address + line.size
        diagnostics := pass.diagnostics ++ emitted.codeDiagnostics
        notices :=
          pass.notices ++ emitted.emission?.toList.map Emission.notice } := by
  subst isEmitted
  rw [visit, EmittedLine.codeDiagnostics, EmittedLine.codeCauses,
    EmittedLine.emission?]
  cases written : line.code with
  | none =>
      rw [PlacedLine.emit?_of_code_eq_none written,
        SourceLine.size_of_code_eq_none written]
      simp
  | some text =>
      simp only [put]
      cases encoded : Statement.encodeText labels text with
      | error cause =>
          rw [PlacedLine.emit?_of_encodeText_error written encoded]
          simp [reject]
      | ok bytes =>
          rw [PlacedLine.emit?_of_encodeText written encoded]
          by_cases fits : pass.address + bytes.length ≤ size
          · simp [if_pos fits, Nat.not_lt.2 fits, Emission.writeTo,
              Emission.notice]
          · simp [if_neg fits, Nat.lt_of_not_le fits, reject]

/-- What the second pass has done when it has gone over some more lines. -/
structure LeadsTo
    (labels : LabelTable)
    (pass : EmittingPass size)
    (lines : List SourceLine)
    (final : EmittingPass size) : Prop where
  memory :
    final.memory =
      ((Layout.emitFrom labels size pass.address lines).filterMap
        EmittedLine.emission?).foldl Emission.writeTo pass.memory
  address : final.address = pass.address + Layout.size lines
  diagnostics :
    final.diagnostics.toList =
      pass.diagnostics.toList ++
        (Layout.emitFrom labels size pass.address lines).flatMap
          EmittedLine.codeDiagnostics
  notices :
    final.notices.toList =
      pass.notices.toList ++
        ((Layout.emitFrom labels size pass.address lines).filterMap
          EmittedLine.emission?).map Emission.notice

/-- Line after line the second pass emits lines, from where it has come to. -/
theorem leadsTo_foldl_visit
    (labels : LabelTable)
    (pass : EmittingPass size)
    (lines : List SourceLine) :
    LeadsTo labels pass lines
      ((lines.zip (lines.map SourceLine.size)).foldl (visit labels) pass) := by
  induction lines generalizing pass with
  | nil =>
      exact ⟨rfl, rfl, (List.append_nil _).symm, (List.append_nil _).symm⟩
  | cons line rest inductionHypothesis =>
      obtain ⟨memory, address, diagnostics, notices⟩ :=
        inductionHypothesis (pass.visit labels (line, line.size))
      have visited := visit_eq labels pass line rfl
      have emissions (emitted : EmittedLine) (others : List EmittedLine) :
          (emitted :: others).filterMap EmittedLine.emission? =
            emitted.emission?.toList ++
              others.filterMap EmittedLine.emission? := by
        rw [List.filterMap_cons]
        cases emitted.emission? <;> rfl
      rw [List.map_cons, List.zip_cons_cons, List.foldl_cons]
      refine ⟨?_, ?_, ?_, ?_⟩
      · rw [memory, visited, Layout.emitFrom_cons, emissions,
          List.foldl_append]
      · rw [address, visited, Layout.size_cons, Nat.add_assoc]
      · rw [diagnostics, visited, Layout.emitFrom_cons, List.flatMap_cons,
          Array.toList_appendList, List.append_assoc]
      · rw [notices, visited, Layout.emitFrom_cons, emissions,
          Array.toList_appendList, List.map_append, List.append_assoc]

/-- Sorting mistakes neither adds nor drops one. -/
theorem isEmpty_sorted (pass : EmittingPass size) :
    pass.sorted.isEmpty = pass.diagnostics.isEmpty := by
  rw [sorted, (List.mergeSort_perm ..).isEmpty_eq, Array.isEmpty_toList]

/-- Both passes together find what the lines of a source put into memory. -/
theorem run_leadsTo
    (memory : Memory size)
    (source : Text) :
    let assembly := Assembly.ofSource size source
    let lines := SourceLine.ofSource source
    let final :=
      run assembly.labels memory (lines.flatMap SourceLine.labelDiagnostics)
        (lines.zip (lines.map SourceLine.size))
    final.memory = assembly.writeTo memory ∧
      final.sorted = assembly.diagnostics ∧
      final.result = assembly.result ∧
      final.notices.toList = assembly.emissions.map Emission.notice := by
  intro assembly lines final
  obtain ⟨written, address, diagnostics, notices⟩ :=
    leadsTo_foldl_visit assembly.labels
      (start memory (lines.flatMap SourceLine.labelDiagnostics)) lines
  have isSorted : final.sorted = assembly.diagnostics := by
    rw [Assembly.diagnostics_ofSource_eq_mergeSort]
    refine congrArg (List.mergeSort · _) (diagnostics.trans ?_)
    exact congrArg (· ++ _)
      (flatMap_labelDiagnostics_emitFrom assembly.labels size 0 lines).symm
  refine ⟨written, isSorted, ?_, notices⟩
  have reached : final.address = assembly.size :=
    address.trans (Nat.zero_add _)
  rw [result, Assembly.result, ← isSorted, isEmpty_sorted, reached]

end EmittingPass

/-! ## Both passes -/

namespace Workspace

variable {size : Nat} {source : Text} {count : Nat}

/--
What the passes leave is what the lines of the source say, whatever labels
the workspace had.
-/
theorem run_eq (workspace : Workspace size) (source : Text) :
    workspace.run source =
      { workspace :=
          ⟨(Assembly.ofSource size source).writeTo workspace.memory,
            (Assembly.ofSource size source).labels⟩
        result := (Assembly.ofSource size source).result
        notices := (Assembly.ofSource size source).notices } := by
  obtain ⟨labels, sizes, placing⟩ :=
    SizingPass.run_leadsTo workspace.labels (SourceLine.ofSource source)
  obtain ⟨memory, diagnostics, result, emitting⟩ :=
    EmittingPass.run_leadsTo workspace.memory source
  rw [← Assembly.labels_ofSource size] at labels
  simp only [run, labels, sizes, placing, memory, diagnostics, result,
    emitting]
  rfl

theorem assemble_eq (workspace : Workspace size) (source : Text) :
    workspace.assemble source =
      (⟨(Assembly.ofSource size source).writeTo workspace.memory,
          (Assembly.ofSource size source).labels⟩,
        (Assembly.ofSource size source).result) := by
  rw [assemble, run_eq]

theorem result_assemble (workspace : Workspace size) (source : Text) :
    (workspace.assemble source).2 = (Assembly.ofSource size source).result :=
  congrArg Prod.snd (workspace.assemble_eq source)

theorem labels_assemble (workspace : Workspace size) (source : Text) :
    (workspace.assemble source).1.labels =
      (Assembly.ofSource size source).labels :=
  congrArg (·.1.labels) (workspace.assemble_eq source)

theorem memory_assemble (workspace : Workspace size) (source : Text) :
    (workspace.assemble source).1.memory =
      (Assembly.ofSource size source).writeTo workspace.memory :=
  congrArg (·.1.memory) (workspace.assemble_eq source)

/-- A source is assembled exactly if all of its lines are sound. -/
theorem assemble_eq_ok_iff {workspace : Workspace size} :
    (workspace.assemble source).2 = .ok count ↔
      Layout.AllSound (Layout.labelsOf (SourceLine.ofSource source)) size 0
          (SourceLine.ofSource source) ∧
        Layout.size (SourceLine.ofSource source) = count := by
  rw [result_assemble]
  exact Assembly.result_ofSource_eq_ok_iff

/-- Assembling a sound source writes the bytes of its lines from zero on. -/
theorem assemble_of_ok
    {workspace : Workspace size}
    (assembled : (workspace.assemble source).2 = .ok count) :
    (workspace.assemble source).1 =
      ⟨workspace.memory.write 0
          ((SourceLine.ofSource source).flatMap
            (SourceLine.bytes
              (Layout.labelsOf (SourceLine.ofSource source)))),
        Layout.labelsOf (SourceLine.ofSource source)⟩ := by
  obtain ⟨sound, _⟩ := assemble_eq_ok_iff.1 assembled
  have written := sound.foldl_writeTo workspace.memory
  rw [assemble_eq, Assembly.labels_ofSource, Assembly.writeTo,
    Assembly.emissions_ofSource, Layout.place, written]

end Workspace

/-- A machine that loads a source takes what its lines put into memory. -/
theorem Machine.loadProgram_eq
    {size : Nat}
    (machine : Machine size)
    (source : Text) :
    machine.loadProgram source =
      { machine :=
          { machine with
            memory :=
              (Assembly.ofSource size source).writeTo machine.memory
            pc := 0 }
        result :=
          (Assembly.ofSource size source).result.map fun _ =>
            (Assembly.ofSource size source).labels
        events :=
          (Assembly.ofSource size source).notices.map AssemblyNotice.event ++
            [(machine.loadProgram source).machine.stateChanged] } := by
  simp only [loadProgram, Workspace.run_eq]
  rfl

/-! ## What the passes tell of -/

namespace AssemblyNotice

/-- The bytes that a notice tells of. -/
def emission? : AssemblyNotice → Option Emission
  | emitted line address instruction bytes =>
    some ⟨line, address, instruction, bytes⟩
  | _ => none

end AssemblyNotice

namespace PlacedLine

/-- Placing a line tells of no bytes. -/
theorem filterMap_emission?_announce
    (found : LabelTable × Array AssemblyNotice)
    (placed : PlacedLine) :
    (placed.announce found).2.toList.filterMap AssemblyNotice.emission? =
      found.2.toList.filterMap AssemblyNotice.emission? := by
  have label :
      (placed.labelNotices found.1).filterMap AssemblyNotice.emission? =
        [] := by
    rw [labelNotices]
    cases placed.line.label with
    | absent => rfl
    | malformed name => rfl
    | defines name =>
        dsimp only
        cases (found.1.exchange name (UInt16.ofNat placed.address)).2 <;> rfl
  have room :
      placed.sizeNotices.filterMap AssemblyNotice.emission? = [] := by
    rw [sizeNotices]
    split <;> rfl
  rw [announce, Array.toList_appendList, Array.toList_appendList,
    List.filterMap_append, List.filterMap_append, label, room,
    List.append_nil, List.append_nil]

end PlacedLine

theorem Layout.filterMap_emission?_notices (placed : List PlacedLine) :
    (notices placed).filterMap AssemblyNotice.emission? = [] := by
  have general (found : LabelTable × Array AssemblyNotice) :
      (placed.foldl PlacedLine.announce found).2.toList.filterMap
          AssemblyNotice.emission? =
        found.2.toList.filterMap AssemblyNotice.emission? := by
    induction placed generalizing found with
    | nil => rfl
    | cons line rest inductionHypothesis =>
        rw [List.foldl_cons, inductionHypothesis,
          line.filterMap_emission?_announce]
  exact general _

namespace Workspace

variable {size : Nat}

/-- What the passes over a source tell of having written. -/
def emissions (workspace : Workspace size) (source : Text) : List Emission :=
  (workspace.run source).notices.filterMap AssemblyNotice.emission?

/-- They tell of what the lines of the source put into memory. -/
theorem emissions_eq (workspace : Workspace size) (source : Text) :
    workspace.emissions source = (Assembly.ofSource size source).emissions := by
  have told (written : List Emission) :
      (written.map Emission.notice).filterMap AssemblyNotice.emission? =
        written := by
    rw [List.filterMap_map]
    exact List.filterMap_some
  have silent (mistakes : List Diagnostic) :
      (mistakes.map AssemblyNotice.rejected).filterMap
          AssemblyNotice.emission? =
        [] := by
    rw [List.filterMap_map]
    exact List.filterMap_eq_nil_iff.2 fun _ _ => rfl
  rw [emissions, run_eq]
  show
    (Layout.notices _ ++ List.map _ (Assembly.ofSource size source).emissions ++
      List.map _ (Assembly.ofSource size source).diagnostics).filterMap _ = _
  rw [List.filterMap_append, List.filterMap_append,
    Layout.filterMap_emission?_notices, told, silent, List.nil_append,
    List.append_nil]

end Workspace

end PocketCpu
