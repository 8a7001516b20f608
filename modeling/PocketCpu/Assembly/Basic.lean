import PocketCpu.Assembly.Notice
import PocketCpu.Memory.Basic

/-!
# Assembling a source

An assembly says which bytes a source puts where in a memory of a given
size, and what is wrong with its lines.  It does not look at what memory
held before.  Every line is treated on its own: a mistake on one of them
neither hides a mistake on another nor keeps another's bytes from being
written.  The assembler comes to the same in two passes, which carry a table
of labels and the memory from line to line.
-/

namespace PocketCpu

/-- The bytes that a line puts into memory. -/
structure Emission where
  line : Nat
  address : Nat
  instruction : Text
  bytes : List Byte
deriving DecidableEq, Repr

/-- What a source puts into memory. -/
structure Assembly where
  labels : LabelTable
  emissions : List Emission
  diagnostics : List Diagnostic
  /-- The number of bytes that all lines take. -/
  size : Nat
  notices : List AssemblyNotice

namespace PlacedLine

/-- The bytes of a line in memory, or why there are none. -/
def emit? (labels : LabelTable) (size : Nat) (placed : PlacedLine) :
    Option (Except Cause Emission) :=
  placed.line.code.map fun text => do
    let bytes ← Statement.encodeText labels text
    let last := placed.address + bytes.length
    if last ≤ size then
      .ok ⟨placed.line.number, placed.address, text, bytes⟩
    else
      .error (.doesNotFit text (last - 1) size)

def labelCauses (placed : PlacedLine) : List Cause :=
  match placed.line.label with
  | .malformed name => [.malformedLabel name]
  | _ => []

end PlacedLine

/-- A placed line and what it puts into memory. -/
structure EmittedLine where
  placed : PlacedLine
  result : Option (Except Cause Emission)

namespace EmittedLine

def emission? (emitted : EmittedLine) : Option Emission :=
  match emitted.result with
  | some (.ok emission) => some emission
  | _ => none

def codeCauses (emitted : EmittedLine) : List Cause :=
  match emitted.result with
  | some (.error cause) => [cause]
  | _ => []

/-- The mistakes on a line, that of its label first. -/
def diagnostics (emitted : EmittedLine) : List Diagnostic :=
  (emitted.placed.labelCauses ++ emitted.codeCauses).map fun cause =>
    ⟨emitted.placed.line.number, cause⟩

end EmittedLine

namespace Emission

def notice (emission : Emission) : AssemblyNotice :=
  .emitted emission.line emission.address emission.instruction emission.bytes

variable {size : Nat}

def writeTo (memory : Memory size) (emission : Emission) : Memory size :=
  memory.write emission.address emission.bytes

end Emission

namespace Assembly

/-- The assembly of a source for a memory of `size` bytes. -/
def ofSource (size : Nat) (source : Text) : Assembly :=
  let lines := SourceLine.ofSource source
  let placed := Layout.place lines
  let labels := Layout.labels placed
  let emitted := placed.map fun line => EmittedLine.mk line (line.emit? labels size)
  let emissions := emitted.filterMap EmittedLine.emission?
  let diagnostics := emitted.flatMap EmittedLine.diagnostics
  { labels
    emissions
    diagnostics
    size := Layout.size lines
    notices :=
      Layout.notices placed ++ emissions.map Emission.notice ++
        diagnostics.map AssemblyNotice.rejected }

/-- The number of bytes emitted, or the mistakes in the order of the lines. -/
def result (assembly : Assembly) : Except (List Diagnostic) Nat :=
  if assembly.diagnostics.isEmpty then .ok assembly.size
  else .error assembly.diagnostics

variable {size : Nat}

/-- The memory with all emitted bytes written, line after line. -/
def writeTo (assembly : Assembly) (memory : Memory size) : Memory size :=
  assembly.emissions.foldl Emission.writeTo memory

end Assembly

end PocketCpu
