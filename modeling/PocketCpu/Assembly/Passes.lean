import PocketCpu.Assembly.Basic

/-!
# The passes of the assembler

A source is gone through twice, line after line.  The first pass forgets the
labels of an earlier source, binds each label to the address that it has come
to and notes the room that each line takes.  The second pass resolves labels
in the table of the first one and writes bytes to memory as it goes.  A line
with a mistake is noted and passed over, but its room is kept, so a mistake
neither moves the lines behind it nor keeps their bytes from being written.
-/

namespace PocketCpu

/-! ## The first pass -/

/-- What the first pass has found on the lines behind it. -/
structure SizingPass where
  labels : LabelTable
  /-- The room of each line. -/
  sizes : Array Nat
  address : Nat
  notices : Array AssemblyNotice

namespace SizingPass

/-- In front of the first line no label of an earlier source is known. -/
def start (labels : LabelTable) : SizingPass :=
  ⟨labels.clear, #[], 0, #[]⟩

/-- Bind the label of a line, if it has one, to the address reached. -/
def bindLabel (pass : SizingPass) (line : SourceLine) : SizingPass :=
  match line.label with
  | .defines name =>
    let (labels, previous?) :=
      pass.labels.exchange name (UInt16.ofNat pass.address)
    let placed := pass.notices.push (.placedLabel line.number name pass.address)
    { pass with
      labels
      notices :=
        match previous? with
        | some previous =>
          placed.push (.redefinedLabel line.number name previous)
        | none => placed }
  | _ => pass

/-- Reserve a number of bytes for a line. -/
def reserve (pass : SizingPass) (room : Nat) : SizingPass :=
  { pass with
    sizes := pass.sizes.push room
    address := pass.address + room }

/-- Reserve room for the instruction of a line, if it can be read. -/
def measure (pass : SizingPass) (line : SourceLine) : SizingPass :=
  match line.code with
  | none => pass.reserve 0
  | some text =>
    match Pass.sizing.read pass.labels text with
    | .ok instruction => pass.reserve instruction.size
    | .error cause =>
      { pass.reserve 0 with
        notices := pass.notices.push (.unsized ⟨line.number, cause⟩) }

def visit (pass : SizingPass) (line : SourceLine) : SizingPass :=
  (pass.bindLabel line).measure line

/-- The first pass over lines, after labels were left by an earlier source. -/
def run (labels : LabelTable) (lines : List SourceLine) : SizingPass :=
  lines.foldl visit (start labels)

end SizingPass

/-! ## The second pass -/

/-- What the second pass has done on the lines behind it. -/
structure EmittingPass (size : Nat) where
  memory : Memory size
  address : Nat
  diagnostics : Array Diagnostic
  notices : Array AssemblyNotice

namespace EmittingPass

variable {size : Nat}

/-- The mistakes in labels are known before the first line is emitted. -/
def start (memory : Memory size) (diagnostics : List Diagnostic) :
    EmittingPass size :=
  ⟨memory, 0, diagnostics.toArray, #[]⟩

def reject (pass : EmittingPass size) (diagnostic : Diagnostic) :
    EmittingPass size :=
  { pass with diagnostics := pass.diagnostics.push diagnostic }

/-- Write the bytes of an instruction, unless they would leave memory. -/
def put
    (labels : LabelTable)
    (pass : EmittingPass size)
    (number : Nat)
    (text : Text) :
    EmittingPass size :=
  match Statement.encodeText labels text with
  | .ok bytes =>
    if size < pass.address + bytes.length then
      pass.reject
        ⟨number, .doesNotFit text (pass.address + bytes.length - 1) size⟩
    else
      { pass with
        memory := pass.memory.write pass.address bytes
        notices :=
          pass.notices.push (.emitted number pass.address text bytes) }
  | .error cause => pass.reject ⟨number, cause⟩

/-- Emit a line, and go on behind the room that was reserved for it. -/
def visit
    (labels : LabelTable)
    (pass : EmittingPass size)
    (sized : SourceLine × Nat) :
    EmittingPass size :=
  match sized.1.code with
  | none => pass
  | some text =>
    let written := pass.put labels sized.1.number text
    { written with address := written.address + sized.2 }

/-- The second pass over lines and their room. -/
def run
    (labels : LabelTable)
    (memory : Memory size)
    (diagnostics : List Diagnostic)
    (sized : List (SourceLine × Nat)) :
    EmittingPass size :=
  sized.foldl (visit labels) (start memory diagnostics)

/-- The mistakes by line, and on one line in the order they were found. -/
def sorted (pass : EmittingPass size) : List Diagnostic :=
  pass.diagnostics.toList.mergeSort fun one other => one.line ≤ other.line

/-- The number of bytes that were gone through, or the mistakes. -/
def result (pass : EmittingPass size) : Except (List Diagnostic) Nat :=
  if pass.diagnostics.isEmpty then .ok pass.address
  else .error pass.sorted

end EmittingPass

/-- The mistake in the label of a line, if there is one. -/
def SourceLine.labelDiagnostics (line : SourceLine) : List Diagnostic :=
  match line.label with
  | .malformed name => [⟨line.number, .malformedLabel name⟩]
  | _ => []

/-! ## Assembling -/

/-- A memory and the labels of the source that was last assembled into it. -/
structure Workspace (size : Nat) where
  memory : Memory size
  labels : LabelTable

namespace Workspace

variable {size : Nat}

/-- A workspace in which nothing has been assembled yet. -/
def ofMemory (memory : Memory size) : Workspace size :=
  ⟨memory, .empty⟩

/-- What is left when a source has been assembled. -/
structure Assembled (size : Nat) where
  workspace : Workspace size
  result : Except (List Diagnostic) Nat
  notices : List AssemblyNotice

/-- Assemble a source into the memory, in two passes. -/
def run (workspace : Workspace size) (source : Text) : Assembled size :=
  let lines := SourceLine.ofSource source
  let sizing := SizingPass.run workspace.labels lines
  let emitting :=
    EmittingPass.run sizing.labels workspace.memory
      (lines.flatMap SourceLine.labelDiagnostics)
      (lines.zip sizing.sizes.toList)
  { workspace := ⟨emitting.memory, sizing.labels⟩
    result := emitting.result
    notices :=
      sizing.notices.toList ++ emitting.notices.toList ++
        emitting.sorted.map AssemblyNotice.rejected }

/--
Assemble a source into the memory.

The labels of an earlier source are forgotten, and the lines without
mistakes are written even if there are others.
-/
def assemble (workspace : Workspace size) (source : Text) :
    Workspace size × Except (List Diagnostic) Nat :=
  let assembled := workspace.run source
  (assembled.workspace, assembled.result)

/-- The bytes of one instruction outside of a source. -/
def encode (workspace : Workspace size) (instruction : Text) :
    Except Diagnostic (List Byte) :=
  match Statement.encodeText workspace.labels instruction with
  | .ok bytes => .ok bytes
  | .error cause => .error ⟨0, cause⟩

end Workspace

/-- The memory of zeros with a source assembled into it. -/
def Memory.ofSource (size : Nat) (source : Text) :
    Except (List Diagnostic) (Memory size) :=
  let assembled := (Workspace.ofMemory (.zero size)).run source
  assembled.result.map fun _ => assembled.workspace.memory

end PocketCpu
