import PocketCpu.Assembly.SourceLine

/-!
# Layout of a program

Every line of a program lies behind all bytes of the lines before it.  Its
address follows from sizes alone, before any label is known, and a label
then stands for the address of the line that defines it last.  Labels hold
sixteen bits, so an address beyond that range wraps around.
-/

namespace PocketCpu

/-- A line together with the number of bytes before it. -/
structure PlacedLine where
  line : SourceLine
  address : Nat
deriving DecidableEq, Repr

namespace PlacedLine

/-- The labels after the one on this line, if there is one. -/
def define (labels : LabelTable) (placed : PlacedLine) : LabelTable :=
  match placed.line.label with
  | .defines name => labels.define name (UInt16.ofNat placed.address)
  | _ => labels

end PlacedLine

namespace Layout

/-- The lines with their addresses, from an address on. -/
def placeFrom (start : Nat) (lines : List SourceLine) : List PlacedLine :=
  List.zipWith PlacedLine.mk lines
    ((lines.map SourceLine.size).scanl (· + ·) start)

/-- The lines with their addresses. -/
def place (lines : List SourceLine) : List PlacedLine :=
  placeFrom 0 lines

@[simp]
theorem placeFrom_nil (start : Nat) : placeFrom start [] = [] :=
  rfl

@[simp]
theorem placeFrom_cons
    (start : Nat)
    (line : SourceLine)
    (rest : List SourceLine) :
    placeFrom start (line :: rest) =
      ⟨line, start⟩ :: placeFrom (start + line.size) rest := by
  simp [placeFrom]

/-- The number of bytes of all lines. -/
def size : List SourceLine → Nat
  | [] => 0
  | line :: rest => line.size + size rest

/-- The labels that placed lines define. -/
def labels (placed : List PlacedLine) : LabelTable :=
  placed.foldl PlacedLine.define .empty

end Layout

end PocketCpu
