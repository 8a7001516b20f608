import PocketCpu.Proofs.Assembly.WrittenLine
import PocketCpu.Proofs.Sequence

/-!
# What can be wrong with a line

Two things can be wrong with a written line, and they do not depend on each
other: its label may be malformed, and its instruction may be at fault.  An
instruction is at fault if it cannot be read, if it names a label without an
address or with one that does not fit into a byte, if the first of its two
operands is a constant, or if it has bytes that do not fit into memory.
These are exactly the reasons for which an instruction is not emitted.
-/

namespace PocketCpu

/-! ## Instructions that cannot be read -/

/-- Whether a cause is seen in the text of an instruction alone. -/
def Cause.concernsText : Cause → Bool
  | .unknownMnemonic _ => true
  | .unknownRegister _ => true
  | .notHexadecimal _ => true
  | .unterminatedAddress _ => true
  | .notImmediate _ => true
  | .wrongArity _ _ _ => true
  | _ => false

namespace Token

variable {word digits : Text} {cause : Cause}

theorem concernsText_of_byteOf
    (refused : byteOf word digits = .error cause) :
    cause.concernsText = true := by
  rw [byteOf] at refused
  split at refused
  · cases refused
  · cases refused
    rfl

theorem concernsText_of_ofWord
    (refused : ofWord word = .error cause) :
    cause.concernsText = true := by
  rw [ofWord.eq_def] at refused
  split at refused
  · rcases bind_eq_error_iff.1 refused with unread | ⟨_, _, read⟩
    · exact concernsText_of_byteOf unread
    · cases read
  · split at refused
    · cases refused
      rfl
    · rcases bind_eq_error_iff.1 refused with unread | ⟨_, _, read⟩
      · exact concernsText_of_byteOf unread
      · cases read
  · split at refused <;> cases refused

theorem concernsText_of_operandOfWord
    (refused : operandOfWord word = .error cause) :
    cause.concernsText = true := by
  rw [operandOfWord] at refused
  rcases bind_eq_error_iff.1 refused with unread | ⟨token, _, named⟩
  · exact concernsText_of_ofWord unread
  · cases token with
    | operand _ => cases named
    | name _ =>
        cases named
        rfl

end Token

namespace Statement

variable {text : Text} {cause : Cause}

theorem concernsText_of_ofSingle
    {opcode : Opcode}
    {build : Operand → Instruction}
    {word : Text}
    (refused : reader.ofSingle opcode build word = .error cause) :
    cause.concernsText = true := by
  rw [Reader.ofSingle] at refused
  split at refused
  · rcases bind_eq_error_iff.1 refused with unread | ⟨_, _, read⟩
    · exact Token.concernsText_of_operandOfWord unread
    · cases read
  · rcases bind_eq_error_iff.1 refused with unread | ⟨token, _, read⟩
    · exact Token.concernsText_of_ofWord unread
    · cases token <;> cases read

theorem concernsText_of_ofWidth
    {word : Text}
    (refused : reader.ofWidth word = .error cause) :
    cause.concernsText = true := by
  rw [Reader.ofWidth] at refused
  rcases bind_eq_error_iff.1 refused with unread | ⟨token, _, other⟩
  · exact Token.concernsText_of_ofWord unread
  · split at other
    · cases other
    · cases other
      rfl

theorem concernsText_of_ofPair
    {build : Operand → Operand → Instruction}
    {first second : Text}
    (refused : reader.ofPair build first second = .error cause) :
    cause.concernsText = true := by
  rw [Reader.ofPair] at refused
  rcases bind_eq_error_iff.1 refused with unread | ⟨_, _, refused⟩
  · exact Token.concernsText_of_operandOfWord unread
  rcases bind_eq_error_iff.1 refused with unread | ⟨_, _, read⟩
  · exact Token.concernsText_of_operandOfWord unread
  · cases read

/-- No instruction is unreadable because of a label or for its place. -/
theorem concernsText_of_ofText
    (refused : ofText text = .error cause) :
    cause.concernsText = true := by
  rw [ofText, Reader.ofText] at refused
  cases words : text.words with
  | nil =>
      rw [words] at refused
      cases refused
      rfl
  | cons mnemonic operands =>
      rw [words, Reader.ofWords] at refused
      split at refused
      · rw [Reader.ofOperands.eq_def] at refused
        split at refused
        · cases refused
        · exact concernsText_of_ofSingle refused
        · split at refused
          · exact concernsText_of_ofWidth refused
          · exact concernsText_of_ofPair refused
        · cases refused
          rfl
      · cases refused
        rfl

/-! ## Labels and constants -/

variable {labels : LabelTable}

/-- A label is at fault if it has no address, or one that is no byte. -/
theorem resolve_eq_error_iff
    {statement : Statement} :
    statement.resolve labels = .error cause ↔
      ∃ condition name, statement = .jumpToLabel condition name ∧
        (labels.resolve name = none ∧ cause = .undefinedLabel name ∨
          ∃ address, labels.resolve name = some address ∧
            255 < address.toNat ∧ cause = .distantLabel name address) := by
  cases statement with
  | fixed instruction => simp [resolve]
  | jumpToLabel condition name =>
      have near (address : Word) :
          address ≤ 0xff ↔ ¬ 255 < address.toNat := by
        rw [UInt16.le_iff_toNat_le, Nat.not_lt]
        rfl
      rw [resolve]
      cases bound : labels.resolve name with
      | none => simp [bound, eq_comm]
      | some address =>
          simp only [near]
          by_cases distant : 255 < address.toNat
          · simp [bound, distant, eq_comm]
          · simp [bound, distant]

theorem instructionOf_eq_error_iff :
    instructionOf labels text = .error cause ↔
      ofText text = .error cause ∨
        ∃ statement, ofText text = .ok statement ∧
          statement.resolve labels = .error cause := by
  rw [instructionOf, Pass.read_emitting, bind_eq_error_iff]

end Statement

namespace Instruction

/-- The first of two operands, where an instruction with two has its result. -/
def destination? : Instruction → Option Operand
  | .move target _ => some target
  | .compute _ target _ => some target
  | _ => none

/-- Only a constant as the first of two operands has no bytes. -/
theorem encode?_eq_none_iff
    {instruction : Instruction} :
    instruction.encode? = none ↔
      ∃ value, instruction.destination? = some (.immediate value) := by
  have pair (target source : Operand) :
      Mode.ofPair? target.kind source.kind = none ↔
        ∃ value, target = .immediate value := by
    cases target with
    | immediate value => simp [Operand.kind, Mode.ofPair?]
    | _ => cases source <;> simp [Operand.kind, Mode.ofPair?]
  rw [encode?, Option.map_eq_none_iff]
  cases instruction with
  | move target source => simp [mode?, destination?, pair]
  | compute operation target source => simp [mode?, destination?, pair]
  | _ => simp [mode?, destination?]

end Instruction

theorem Statement.encodeText_eq_error_iff
    {labels : LabelTable}
    {text : Text}
    {cause : Cause} :
    encodeText labels text = .error cause ↔
      instructionOf labels text = .error cause ∨
        ∃ instruction, instructionOf labels text = .ok instruction ∧
          instruction.encode? = none ∧ cause = .immediateTarget text := by
  rw [encodeText, bind_eq_error_iff]
  apply or_congr_right
  apply exists_congr
  intro instruction
  apply and_congr_right
  intro _
  cases instruction.encode? with
  | none => simp [eq_comm]
  | some bytes => simp

/-! ## Faults -/

/-- What is wrong with the label of a written line. -/
inductive LabelFault (raw : Text) : Cause → Prop where
  | malformed
      {name : Text}
      (found : WrittenLine.label? raw = some name)
      (refused :
        name = [] ∨ ∃ character ∈ name, Text.isBlank character = true) :
      LabelFault raw (.malformedLabel name)

/--
What is wrong with the text of an instruction whose bytes would begin at an
address of a memory.
-/
inductive CodeFault
    (labels : LabelTable)
    (size address : Nat)
    (text : Text) : Cause → Prop where
  | unreadable
      {cause : Cause}
      (present : text ≠ [])
      (unread : Statement.ofText text = .error cause) :
      CodeFault labels size address text cause
  | undefinedLabel
      {condition : Condition}
      {name : Text}
      (read : Statement.ofText text = .ok (.jumpToLabel condition name))
      (unbound : labels.resolve name = none) :
      CodeFault labels size address text (.undefinedLabel name)
  | distantLabel
      {condition : Condition}
      {name : Text}
      {target : Word}
      (read : Statement.ofText text = .ok (.jumpToLabel condition name))
      (bound : labels.resolve name = some target)
      (distant : 255 < target.toNat) :
      CodeFault labels size address text (.distantLabel name target)
  /-- An instruction with a constant to write to has no bytes. -/
  | immediateTarget
      {instruction : Instruction}
      {value : Byte}
      (read : Statement.instructionOf labels text = .ok instruction)
      (constant : instruction.destination? = some (.immediate value)) :
      CodeFault labels size address text (.immediateTarget text)
  /-- Only what has bytes can be too long for a memory. -/
  | doesNotFit
      {instruction : Instruction}
      {bytes : List Byte}
      {last : Nat}
      (read : Statement.instructionOf labels text = .ok instruction)
      (encoded : instruction.encode? = some bytes)
      (ends : last + 1 = address + bytes.length)
      (outside : size ≤ last) :
      CodeFault labels size address text (.doesNotFit text last size)

namespace CodeFault

variable {labels : LabelTable} {size address : Nat}
variable {text : Text} {cause : Cause}

theorem ne_nil
    (fault : CodeFault labels size address text cause) :
    text ≠ [] := by
  have unread {instruction : Instruction}
      (read : Statement.instructionOf labels text = .ok instruction) :
      text ≠ [] := by
    rintro rfl
    cases read
  cases fault with
  | unreadable present _ => exact present
  | undefinedLabel read _ =>
      rintro rfl
      cases read
  | distantLabel read _ _ =>
      rintro rfl
      cases read
  | immediateTarget read _ => exact unread read
  | doesNotFit read _ _ _ => exact unread read

/-- The faults of a text without bytes are the reasons why it has none. -/
theorem of_encodeText
    (present : text ≠ [])
    (faulty : Statement.encodeText labels text = .error cause) :
    CodeFault labels size address text cause := by
  rcases Statement.encodeText_eq_error_iff.1 faulty with
    unread | ⟨instruction, read, none, rfl⟩
  · rcases Statement.instructionOf_eq_error_iff.1 unread with
      unread | ⟨statement, read, unresolved⟩
    · exact .unreadable present unread
    · obtain ⟨condition, name, rfl, atFault⟩ :=
        Statement.resolve_eq_error_iff.1 unresolved
      rcases atFault with ⟨unbound, rfl⟩ | ⟨target, bound, distant, rfl⟩
      · exact .undefinedLabel read unbound
      · exact .distantLabel read bound distant
  · obtain ⟨value, constant⟩ := Instruction.encode?_eq_none_iff.1 none
    exact .immediateTarget read constant

/-- A fault is a reason to have no bytes, or bytes that do not fit. -/
theorem cases_encodeText
    (fault : CodeFault labels size address text cause) :
    Statement.encodeText labels text = .error cause ∨
      ∃ bytes, Statement.encodeText labels text = .ok bytes ∧
        size < address + bytes.length ∧
        cause =
          .doesNotFit text (address + bytes.length - 1) size := by
  rw [Statement.encodeText_eq_error_iff,
    Statement.instructionOf_eq_error_iff]
  cases fault with
  | unreadable _ unread => exact Or.inl (Or.inl (Or.inl unread))
  | undefinedLabel read unbound =>
      exact Or.inl (Or.inl (Or.inr ⟨_, read,
        Statement.resolve_eq_error_iff.2
          ⟨_, _, rfl, Or.inl ⟨unbound, rfl⟩⟩⟩))
  | distantLabel read bound distant =>
      exact Or.inl (Or.inl (Or.inr ⟨_, read,
        Statement.resolve_eq_error_iff.2
          ⟨_, _, rfl, Or.inr ⟨_, bound, distant, rfl⟩⟩⟩))
  | immediateTarget read constant =>
      exact Or.inl (Or.inr ⟨_, read,
        Instruction.encode?_eq_none_iff.2 ⟨_, constant⟩, rfl⟩)
  | @doesNotFit instruction bytes last read encoded ends outside =>
      refine Or.inr ⟨bytes,
        Statement.encodeText_eq_ok_iff.2 ⟨instruction, read, encoded⟩,
        by omega, ?_⟩
      have same : last = address + bytes.length - 1 := by omega
      rw [same]

/-- A line is refused with a cause exactly if this is its fault. -/
theorem iff_emit?
    {placed : PlacedLine}
    (written : placed.line.code = some text)
    (present : text ≠ []) :
    CodeFault labels size placed.address text cause ↔
      placed.emit? labels size = some (.error cause) := by
  constructor
  · intro fault
    rcases fault.cases_encodeText with
      faulty | ⟨bytes, encoded, outside, rfl⟩
    · exact PlacedLine.emit?_of_encodeText_error written faulty
    · rw [PlacedLine.emit?_of_encodeText written encoded,
        if_neg (Nat.not_le.2 outside)]
  · intro refused
    cases encoded : Statement.encodeText labels text with
    | error reason =>
        rw [PlacedLine.emit?_of_encodeText_error written encoded]
          at refused
        cases refused
        exact of_encodeText present encoded
    | ok bytes =>
        rw [PlacedLine.emit?_of_encodeText written encoded] at refused
        split at refused
        · cases refused
        · next outside =>
            cases refused
            obtain ⟨instruction, read, hasBytes⟩ :=
              Statement.encodeText_eq_ok_iff.1 encoded
            have length := Instruction.length_of_encode? hasBytes
            rw [Instruction.size] at length
            exact .doesNotFit read hasBytes (by omega) (by omega)

/-- There is at most one thing wrong with an instruction. -/
theorem unique
    {other : Cause}
    (fault : CodeFault labels size address text cause)
    (again : CodeFault labels size address text other) :
    cause = other := by
  have written :
      PlacedLine.line ⟨⟨0, .absent, some text⟩, address⟩ =
        ⟨0, .absent, some text⟩ :=
    rfl
  have refused :=
    (iff_emit? (congrArg SourceLine.code written) fault.ne_nil).1 fault
  have refusedAgain :=
    (iff_emit? (congrArg SourceLine.code written) fault.ne_nil).1 again
  cases refused.symm.trans refusedAgain
  rfl

end CodeFault

end PocketCpu
