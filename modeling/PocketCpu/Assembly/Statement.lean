import PocketCpu.Assembly.LabelTable
import PocketCpu.Assembly.Token
import PocketCpu.Instruction.Decoding

/-!
# Statements

An instruction in a source may be a jump to a label whose address is not
known yet.  It is read twice, each time with the labels known so far.  The
first pass only asks for its size and takes zero for every label; the second
one looks labels up.  Since a jump to a label is always a jump to a constant,
both find the same size.

Apart from labels, all readings of a text are the same.  A statement is what
they have in common: the instruction itself, or a jump to a name.
-/

namespace PocketCpu

/-- What is made of an instruction, and of a jump to a label. -/
structure Reader (Result : Type) where
  complete : Instruction → Result
  jumpToLabel : Condition → Text → Except Cause Result

namespace Reader

variable {Result : Type}

/-- Read the single operand of an opcode; only a jump may go to a label. -/
def ofSingle
    (reader : Reader Result)
    (opcode : Opcode)
    (build : Operand → Instruction)
    (word : Text) :
    Except Cause Result :=
  match opcode.condition? with
  | none => do
    let operand ← Token.operandOfWord word
    .ok (reader.complete (build operand))
  | some condition => do
    match ← Token.ofWord word with
    | .operand operand => .ok (reader.complete (build operand))
    | .name name => reader.jumpToLabel condition name

/-- Read the constant that selects the width. -/
def ofWidth (reader : Reader Result) (word : Text) : Except Cause Result := do
  match ← Token.ofWord word with
  | .operand (.immediate value) => .ok (reader.complete (.selectWidth value))
  | _ => .error (.notImmediate word)

/-- Read a target and a source, the target first. -/
def ofPair
    (reader : Reader Result)
    (build : Operand → Operand → Instruction)
    (first second : Text) :
    Except Cause Result := do
  let target ← Token.operandOfWord first
  let source ← Token.operandOfWord second
  .ok (reader.complete (build target source))

/-- Read the words behind a mnemonic. -/
def ofOperands (reader : Reader Result) (opcode : Opcode) (words : List Text) :
    Except Cause Result :=
  match opcode.shape, words with
  | .bare instruction, [] => .ok (reader.complete instruction)
  | .single _ build, [word] => reader.ofSingle opcode build word
  | .pair build, [first, second] =>
    if opcode = .mov ∧ first = Instruction.widthWord then
      reader.ofWidth second
    else
      reader.ofPair build first second
  | shape, words => .error (.wrongArity opcode shape.arity words.length)

/-- Read a mnemonic and the words behind it. -/
def ofWords (reader : Reader Result) : List Text → Except Cause Result
  | [] => .error (.unknownMnemonic [])
  | mnemonic :: operands =>
    match Opcode.ofName? mnemonic with
    | some opcode => reader.ofOperands opcode operands
    | none => .error (.unknownMnemonic mnemonic)

/-- Read the text of an instruction. -/
def ofText (reader : Reader Result) (text : Text) : Except Cause Result :=
  reader.ofWords text.words

end Reader

/-! ## The two passes -/

/-- The pass over a source in which a text is read. -/
inductive Pass where
  /-- Labels may have no address yet. -/
  | sizing
  | emitting
deriving DecidableEq, Repr

/-- The operand that a label becomes; the first pass has zero for all labels. -/
def LabelTable.target (labels : LabelTable) (pass : Pass) (name : Text) :
    Except Cause Operand :=
  match pass with
  | .sizing => .ok (.immediate 0)
  | .emitting =>
    match labels.resolve name with
    | none => .error (.undefinedLabel name)
    | some address =>
      if address ≤ 0xff then .ok (.immediate address.toUInt8)
      else .error (.distantLabel name address)

namespace Pass

def reader (pass : Pass) (labels : LabelTable) : Reader Instruction where
  complete instruction := instruction
  jumpToLabel condition name := do
    let target ← labels.target pass name
    .ok (.jump condition target)

/-- The instruction in a text, with the labels that a pass knows. -/
def read (pass : Pass) (labels : LabelTable) (text : Text) :
    Except Cause Instruction :=
  (pass.reader labels).ofText text

end Pass

/-! ## Statements -/

/-- An instruction as it is written in a source. -/
inductive Statement where
  | fixed (instruction : Instruction)
  | jumpToLabel (condition : Condition) (name : Text)
deriving DecidableEq, Repr

namespace Statement

@[reducible]
def reader : Reader Statement where
  complete := fixed
  jumpToLabel condition name := .ok (jumpToLabel condition name)

/-- Read the text of an instruction, whatever its labels stand for. -/
def ofText (text : Text) : Except Cause Statement :=
  reader.ofText text

/-- What a reader makes of a statement. -/
def readBy {Result : Type} (reader : Reader Result) :
    Statement → Except Cause Result
  | fixed instruction => .ok (reader.complete instruction)
  | jumpToLabel condition name => reader.jumpToLabel condition name

/-- The instruction of a statement, with every label at address zero. -/
def provisional : Statement → Instruction
  | .fixed instruction => instruction
  | .jumpToLabel condition _ => .jump condition (.immediate 0)

/-- The number of bytes of a statement. -/
def size (statement : Statement) : Nat :=
  statement.provisional.size

/-- The instruction of a statement once labels have addresses. -/
def resolve (labels : LabelTable) : Statement → Except Cause Instruction
  | .fixed instruction => .ok instruction
  | .jumpToLabel condition name =>
    match labels.resolve name with
    | none => .error (.undefinedLabel name)
    | some address =>
      if address ≤ 0xff then
        .ok (.jump condition (.immediate address.toUInt8))
      else
        .error (.distantLabel name address)

/-- Resolving labels keeps the size of a statement. -/
theorem size_of_resolve
    {labels : LabelTable}
    {statement : Statement}
    {instruction : Instruction}
    (resolved : statement.resolve labels = .ok instruction) :
    instruction.size = statement.size := by
  cases statement with
  | fixed complete =>
      cases resolved
      rfl
  | jumpToLabel condition name =>
      rw [resolve] at resolved
      split at resolved
      · cases resolved
      · split at resolved
        · cases resolved
          rfl
        · cases resolved

/-- The instruction in a text, under the given labels. -/
def instructionOf (labels : LabelTable) (text : Text) :
    Except Cause Instruction :=
  Pass.emitting.read labels text

/-- The bytes of the instruction in a text, under the given labels. -/
def encodeText (labels : LabelTable) (text : Text) :
    Except Cause (List Byte) := do
  let instruction ← instructionOf labels text
  match instruction.encode? with
  | some bytes => .ok bytes
  | none => .error (.immediateTarget text)

end Statement

/-! ## Readings are readings of statements -/

namespace Reader

variable {Result : Type} (reader : Reader Result)

theorem ofSingle_eq
    (opcode : Opcode)
    (build : Operand → Instruction)
    (word : Text) :
    reader.ofSingle opcode build word =
      Statement.reader.ofSingle opcode build word >>=
        Statement.readBy reader := by
  rw [ofSingle, ofSingle]
  split
  · cases Token.operandOfWord word <;> rfl
  · cases Token.ofWord word with
    | error cause => rfl
    | ok token => cases token <;> rfl

theorem ofWidth_eq (word : Text) :
    reader.ofWidth word =
      Statement.reader.ofWidth word >>= Statement.readBy reader := by
  rw [ofWidth, ofWidth]
  cases Token.ofWord word with
  | error cause => rfl
  | ok token =>
      cases token with
      | name name => rfl
      | operand operand => cases operand <;> rfl

theorem ofPair_eq
    (build : Operand → Operand → Instruction)
    (first second : Text) :
    reader.ofPair build first second =
      Statement.reader.ofPair build first second >>=
        Statement.readBy reader := by
  rw [ofPair, ofPair]
  cases Token.operandOfWord first with
  | error cause => rfl
  | ok target => cases Token.operandOfWord second <;> rfl

theorem ofOperands_eq (opcode : Opcode) (words : List Text) :
    reader.ofOperands opcode words =
      Statement.reader.ofOperands opcode words >>=
        Statement.readBy reader := by
  rw [ofOperands.eq_def, ofOperands.eq_def]
  split
  · rfl
  · exact reader.ofSingle_eq ..
  · split
    · exact reader.ofWidth_eq _
    · exact reader.ofPair_eq ..
  · rfl

/-- Readers agree on everything but what they make of a statement. -/
theorem ofText_eq (text : Text) :
    reader.ofText text =
      Statement.ofText text >>= Statement.readBy reader := by
  rw [Statement.ofText, ofText, ofText]
  cases text.words with
  | nil => rfl
  | cons mnemonic operands =>
      rw [ofWords, ofWords]
      cases Opcode.ofName? mnemonic with
      | none => rfl
      | some opcode => exact reader.ofOperands_eq opcode operands

end Reader

namespace Pass

variable {labels : LabelTable} {text : Text}

/-- The first pass reads a statement with every label at address zero. -/
theorem read_sizing :
    sizing.read labels text =
      (Statement.ofText text).map Statement.provisional := by
  rw [read, Reader.ofText_eq]
  cases Statement.ofText text with
  | error cause => rfl
  | ok statement => cases statement <;> rfl

/-- The second pass reads a statement and resolves its label. -/
theorem read_emitting :
    emitting.read labels text =
      Statement.ofText text >>= Statement.resolve labels := by
  rw [read, Reader.ofText_eq]
  refine congrArg (Statement.ofText text >>= ·) (funext fun statement => ?_)
  cases statement with
  | fixed instruction => rfl
  | jumpToLabel condition name =>
      simp only [Statement.readBy, reader, LabelTable.target,
        Statement.resolve]
      cases labels.resolve name with
      | none => rfl
      | some address =>
          dsimp only
          split <;> rfl

end Pass

end PocketCpu
