import PocketCpu.Assembly.Statement

/-!
# Source lines

A line of a source may define a label, hold an instruction, or do both.  A
semicolon begins a comment and the first colon ends the label.  Blank lines
are dropped but counted, and a malformed label leaves the instruction behind
it in place.
-/

namespace PocketCpu

/-- What stands in front of the first colon of a line. -/
inductive LabelPart where
  | absent
  | defines (name : Text)
  | malformed (name : Text)
deriving DecidableEq, Repr

namespace LabelPart

/-- Read a trimmed label; it must be one word without blanks inside. -/
def ofText (name : Text) : LabelPart :=
  if name.isEmpty || name.any Text.isBlank then .malformed name
  else .defines name

end LabelPart

/-- A line of a source that is not blank. -/
structure SourceLine where
  number : Nat
  label : LabelPart
  /-- The text of the instruction, if the line has one. -/
  code : Option Text
deriving DecidableEq, Repr

namespace SourceLine

/-- The text itself, unless it is empty. -/
def nonempty? (text : Text) : Option Text :=
  if text.isEmpty then none else some text

/-- Read a line with its comment removed and its ends trimmed. -/
def ofContent (number : Nat) (content : Text) : SourceLine :=
  match content.after? ':' with
  | none => ⟨number, .absent, nonempty? content⟩
  | some rest =>
    ⟨number, .ofText (content.before ':').trim, nonempty? rest.trim⟩

/-- Read a line of a source, unless nothing but a comment is on it. -/
def ofText? (number : Nat) (raw : Text) : Option SourceLine :=
  let content := (raw.before ';').trim
  if content.isEmpty then none else some (ofContent number content)

/-- The lines of a source that are not blank, numbered from one. -/
def ofSource (source : Text) : List SourceLine :=
  (source.lines.zipIdx 1).filterMap fun numbered =>
    ofText? numbered.2 numbered.1

/-- The statement on a line, if there is an instruction and it can be read. -/
def statement? (line : SourceLine) : Option (Except Cause Statement) :=
  line.code.map Statement.ofText

/-- The number of bytes that a line takes; an unreadable one takes none. -/
def size (line : SourceLine) : Nat :=
  match line.statement? with
  | some (.ok statement) => statement.size
  | _ => 0

end SourceLine

end PocketCpu
