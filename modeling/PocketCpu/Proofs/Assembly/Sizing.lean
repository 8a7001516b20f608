import PocketCpu.Proofs.Assembly.Constants
import PocketCpu.Proofs.Assembly.Faults
import PocketCpu.Proofs.Assembly.Image

/-!
# Sizes without labels

A text is read twice: first to find out how many bytes it takes, whatever
labels are known by then, and again under the labels that follow from these
numbers.  What is wrong with the text itself is found both times.  What labels
decide is only where a jump to a label goes, and whether it can: the second
reading is the first one with another target, and its bytes are as many as
were counted.
-/

namespace PocketCpu

namespace Token

/-- A word is a name if it is no constant, no address and no register. -/
theorem ofWord_eq_name_iff {word name : Text} :
    ofWord word = .ok (.name name) ↔
      name = word ∧ ¬ BeginsConstant word ∧
        ∀ register : Register, register.name ≠ word := by
  by_cases begins : BeginsConstant word
  · refine iff_of_false (fun read => ?_) fun holds => holds.2.1 begins
    rcases ofWord_of_beginsConstant begins with
      ⟨byte, known⟩ | ⟨byte, known⟩ | ⟨cause, refused, -⟩
    · cases known.symm.trans read
    · cases known.symm.trans read
    · cases refused.symm.trans read
  · have unregistered :
        Register.ofName? word = none ↔
          ∀ register : Register, register.name ≠ word := by
      rw [Option.eq_none_iff_forall_not_mem]
      exact forall_congr' fun register =>
        not_congr Register.ofName?_eq_some_iff
    rw [← unregistered, and_iff_right begins, ofWord.eq_def]
    split
    · exact absurd (Or.inl rfl) begins
    · exact absurd (Or.inr rfl) begins
    · cases Register.ofName? word with
      | none => simp [eq_comm]
      | some register => simp

end Token

namespace Statement

variable {text name : Text} {condition : Condition}

/-- A text is a mnemonic of a jump with a name behind it. -/
structure IsLabelJump
    (text : Text)
    (condition : Condition)
    (name : Text) : Prop where
  words : text.words = [condition.opcode.name, name]
  plain : ¬ Token.BeginsConstant name
  unregistered : ∀ register : Register, register.name ≠ name

theorem isLabelJump_of_ofSingle
    {opcode : Opcode}
    {build : Operand → Instruction}
    {word : Text}
    (words : text.words = [opcode.name, word])
    (read : reader.ofSingle opcode build word = .ok (.jumpToLabel condition name)) :
    IsLabelJump text condition name := by
  rw [Reader.ofSingle] at read
  split at read
  · obtain ⟨operand, -, same⟩ := bind_eq_ok_iff.1 read
    cases same
  · next jumps =>
      obtain ⟨token, known, same⟩ := bind_eq_ok_iff.1 read
      cases token with
      | operand operand => cases same
      | name other =>
          cases same
          obtain ⟨rfl, plain, unregistered⟩ :=
            Token.ofWord_eq_name_iff.1 known
          rw [← Opcode.condition?_eq_some_iff.1 jumps] at words
          exact ⟨words, plain, unregistered⟩

theorem exists_fixed_of_ofWidth
    {word : Text}
    {statement : Statement}
    (read : reader.ofWidth word = .ok statement) :
    ∃ instruction, statement = .fixed instruction := by
  rw [Reader.ofWidth] at read
  obtain ⟨token, -, same⟩ := bind_eq_ok_iff.1 read
  split at same
  · cases same
    exact ⟨_, rfl⟩
  · cases same

theorem exists_fixed_of_ofPair
    {build : Operand → Operand → Instruction}
    {first second : Text}
    {statement : Statement}
    (read : reader.ofPair build first second = .ok statement) :
    ∃ instruction, statement = .fixed instruction := by
  rw [Reader.ofPair] at read
  obtain ⟨target, -, read⟩ := bind_eq_ok_iff.1 read
  obtain ⟨source, -, same⟩ := bind_eq_ok_iff.1 read
  cases same
  exact ⟨_, rfl⟩

/-- Only a mnemonic of a jump and a name are read as a jump to a label. -/
theorem ofText_eq_jumpToLabel_iff :
    ofText text = .ok (.jumpToLabel condition name) ↔
      IsLabelJump text condition name := by
  constructor
  · intro read
    rw [ofText, Reader.ofText] at read
    cases words : text.words with
    | nil =>
        rw [words] at read
        cases read
    | cons mnemonic operands =>
        rw [words, Reader.ofWords] at read
        split at read
        · next opcode found =>
            obtain rfl := Opcode.ofName?_eq_some_iff.1 found
            rw [Reader.ofOperands.eq_def] at read
            split at read
            · cases read
            · exact isLabelJump_of_ofSingle words read
            · split at read
              · obtain ⟨_, same⟩ := exists_fixed_of_ofWidth read
                cases same
              · obtain ⟨_, same⟩ := exists_fixed_of_ofPair read
                cases same
            · cases read
        · cases read
  · rintro ⟨words, plain, unregistered⟩
    have named := Token.ofWord_eq_name_iff.2 ⟨rfl, plain, unregistered⟩
    have jumps := Opcode.condition?_eq_some_iff.2 (Eq.refl condition.opcode)
    exact ofText_of_words_jump words jumps named

/-! ## Two readings -/

variable {labels : LabelTable} {cause : Cause}
variable {first second : Instruction}

theorem read_sizing_eq_error_iff :
    Pass.sizing.read labels text = .error cause ↔
      ofText text = .error cause := by
  rw [Pass.read_sizing]
  cases ofText text <;> simp [Except.map]

theorem read_sizing_eq_ok_iff :
    Pass.sizing.read labels text = .ok first ↔
      ∃ statement, ofText text = .ok statement ∧
        statement.provisional = first := by
  rw [Pass.read_sizing]
  cases ofText text <;> simp [Except.map]

/-- The room of a line is the size of the instruction in its first reading. -/
theorem size_of_read_sizing
    {line : SourceLine}
    (written : line.code = some text)
    (labels : LabelTable) :
    line.size =
      match Pass.sizing.read labels text with
      | .ok instruction => instruction.size
      | .error _ => 0 := by
  rw [SourceLine.size, SourceLine.statement?, written, Option.map_some,
    Pass.read_sizing]
  cases ofText text <;> rfl

/-- Why there is no jump to a label: it has no address, or no byte for one. -/
inductive Misses (labels : LabelTable) (name : Text) : Cause → Prop where
  | undefined
      (unbound : labels.resolve name = none) :
      Misses labels name (.undefinedLabel name)
  | distant
      {address : Word}
      (bound : labels.resolve name = some address)
      (distant : 255 < address.toNat) :
      Misses labels name (.distantLabel name address)

/-- Labels are what a statement misses, if there is something amiss. -/
theorem resolve_eq_error_iff_misses
    {statement : Statement} :
    statement.resolve labels = .error cause ↔
      ∃ condition name, statement = .jumpToLabel condition name ∧
        Misses labels name cause := by
  rw [resolve_eq_error_iff]
  refine exists_congr fun condition => exists_congr fun name => ?_
  refine and_congr_right fun _ => ?_
  constructor
  · rintro (⟨unbound, rfl⟩ | ⟨address, bound, distant, rfl⟩)
    · exact .undefined unbound
    · exact .distant bound distant
  · rintro (unbound | ⟨bound, distant⟩)
    · exact Or.inl ⟨unbound, rfl⟩
    · exact Or.inr ⟨_, bound, distant, rfl⟩

/--
An instruction is the same as in the first reading, or it is a jump to a
label, which now has the address of the label.
-/
inductive Completes
    (labels : LabelTable)
    (text : Text)
    (first : Instruction) : Instruction → Prop where
  | same : Completes labels text first first
  | jump
      {condition : Condition}
      {name : Text}
      {address : Word}
      (jump : IsLabelJump text condition name)
      (placeholder : first = .jump condition (.immediate 0))
      (bound : labels.resolve name = some address)
      (near : address.toNat ≤ 255) :
      Completes labels text first
        (.jump condition (.immediate address.toUInt8))

theorem completes_of_resolve
    {statement : Statement}
    (read : ofText text = .ok statement)
    (resolved : statement.resolve labels = .ok second) :
    Completes labels text statement.provisional second := by
  cases statement with
  | fixed instruction =>
      cases resolved
      exact .same
  | jumpToLabel condition name =>
      obtain ⟨address, bound, near, rfl⟩ :=
        resolve_jumpToLabel_eq_ok_iff.1 resolved
      exact .jump (ofText_eq_jumpToLabel_iff.1 read) rfl bound
        (UInt16.le_iff_toNat_le.1 near)

/--
The two readings of a text agree.  The first one is the same whatever labels
are known, and says how much room a line takes.  Under any labels the second
one is refused like the first, or for a label that it misses, and otherwise
has an instruction that is the same up to the target of a jump to a label,
with as many bytes.
-/
structure ReadingsAgree (text : Text) : Prop where
  independent :
    ∀ labels others,
      Pass.sizing.read labels text = Pass.sizing.read others text
  room :
    ∀ line : SourceLine, line.code = some text →
      ∀ labels,
        line.size =
          match Pass.sizing.read labels text with
          | .ok first => first.size
          | .error _ => 0
  refused :
    ∀ labels cause, Pass.sizing.read labels text = .error cause →
      ∀ others, Pass.emitting.read others text = .error cause
  missed :
    ∀ labels first, Pass.sizing.read labels text = .ok first →
      ∀ others cause,
        Pass.emitting.read others text = .error cause ↔
          ∃ condition name,
            IsLabelJump text condition name ∧ Misses others name cause
  completed :
    ∀ labels first, Pass.sizing.read labels text = .ok first →
      ∀ others second, Pass.emitting.read others text = .ok second →
        Completes others text first second ∧
          ∀ bytes, second.encode? = some bytes →
            bytes.length = first.size

theorem readingsAgree (text : Text) : ReadingsAgree text where
  independent labels others := by
    rw [Pass.read_sizing, Pass.read_sizing]
  room line written labels := size_of_read_sizing written labels
  refused labels cause unread others :=
    instructionOf_eq_error_iff.2 (Or.inl (read_sizing_eq_error_iff.1 unread))
  missed labels first sized others cause := by
    obtain ⟨statement, read, -⟩ := read_sizing_eq_ok_iff.1 sized
    rw [← instructionOf, instructionOf_eq_error_iff, read]
    constructor
    · rintro (unread | ⟨other, same, unresolved⟩)
      · cases unread
      · cases same
        obtain ⟨condition, name, rfl, misses⟩ :=
          resolve_eq_error_iff_misses.1 unresolved
        exact ⟨condition, name, ofText_eq_jumpToLabel_iff.1 read, misses⟩
    · rintro ⟨condition, name, jump, misses⟩
      cases read.symm.trans (ofText_eq_jumpToLabel_iff.2 jump)
      exact Or.inr ⟨_, rfl,
        resolve_eq_error_iff_misses.2 ⟨condition, name, rfl, misses⟩⟩
  completed labels first sized others second complete := by
    obtain ⟨statement, read, rfl⟩ := read_sizing_eq_ok_iff.1 sized
    obtain ⟨other, again, resolved⟩ := instructionOf_eq_ok_iff.1 complete
    cases read.symm.trans again
    refine ⟨completes_of_resolve read resolved, fun bytes hasBytes => ?_⟩
    calc
      bytes.length = second.size := Instruction.length_of_encode? hasBytes
      _ = statement.size := size_of_resolve resolved

end Statement

end PocketCpu
