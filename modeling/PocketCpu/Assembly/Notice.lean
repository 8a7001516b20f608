import PocketCpu.Assembly.Layout
import PocketCpu.Log

/-!
# Notices of the assembler

While it works the assembler tells where labels are placed, which bytes it
emits and what is wrong.  The notices on placing lines come first, in the
order of the lines; those on emitted bytes follow, and the mistakes end them.
-/

namespace PocketCpu

/-- What the assembler tells while it works. -/
inductive AssemblyNotice where
  | placedLabel (line : Nat) (name : Text) (address : Nat)
  | redefinedLabel (line : Nat) (name : Text) (previous : Word)
  /-- A line takes no room since it cannot be read. -/
  | unsized (diagnostic : Diagnostic)
  | emitted (line address : Nat) (instruction : Text) (bytes : List Byte)
  | rejected (diagnostic : Diagnostic)
deriving DecidableEq, Repr

namespace AssemblyNotice

def bytesText (bytes : List Byte) : String :=
  "[" ++ ", ".intercalate (bytes.map fun byte => Text.hex 2 byte.toNat) ++ "]"

/-- A label of a line, as notices mention it. -/
def labelText (line : Nat) (name : Text) : String :=
  "[" ++ toString line ++ "] Label `" ++ String.ofList name ++ "`"

def message : AssemblyNotice → String
  | .placedLabel line name address =>
    labelText line name ++ " at 0x" ++ Text.hex 2 address
  | .redefinedLabel line name previous =>
    labelText line name ++ " redefined (was 0x" ++
      Text.hex 2 previous.toNat ++ ")"
  | .unsized diagnostic =>
    "First pass: " ++ diagnostic.message
  | .emitted line address instruction bytes =>
    "[" ++ toString line ++ "] 0x" ++ Text.hex 2 address ++ ": " ++
      String.ofList instruction ++ " => " ++ bytesText bytes
  | .rejected diagnostic =>
    diagnostic.message

def level : AssemblyNotice → Level
  | .placedLabel _ _ _ => .debug
  | .redefinedLabel _ _ _ => .warn
  | .unsized _ => .debug
  | .emitted _ _ _ _ => .debug
  | .rejected _ => .error

def record (notice : AssemblyNotice) : Record :=
  ⟨notice.level, .assembler, notice.message⟩

end AssemblyNotice

namespace PlacedLine

/-- The notices on the label of a line, given the labels before it. -/
def labelNotices (labels : LabelTable) (placed : PlacedLine) :
    List AssemblyNotice :=
  match placed.line.label with
  | .defines name =>
    let (_, previous?) :=
      labels.exchange name (UInt16.ofNat placed.address)
    .placedLabel placed.line.number name placed.address ::
      previous?.toList.map (.redefinedLabel placed.line.number name)
  | _ => []

/-- The notice on a line that cannot be read. -/
def sizeNotices (placed : PlacedLine) : List AssemblyNotice :=
  match placed.line.statement? with
  | some (.error cause) => [.unsized ⟨placed.line.number, cause⟩]
  | _ => []

/-- The labels and the notices behind a line, given those in front of it. -/
def announce
    (found : LabelTable × Array AssemblyNotice)
    (placed : PlacedLine) :
    LabelTable × Array AssemblyNotice :=
  (placed.define found.1,
    found.2 ++ placed.labelNotices found.1 ++ placed.sizeNotices)

end PlacedLine

namespace Layout

/-- The notices on placing lines, in the order of the lines. -/
def notices (placed : List PlacedLine) : List AssemblyNotice :=
  (placed.foldl PlacedLine.announce (.empty, #[])).2.toList

end Layout

end PocketCpu
