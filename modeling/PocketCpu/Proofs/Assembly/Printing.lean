import PocketCpu.Proofs.Assembly.Passes
import PocketCpu.Proofs.Text.Spelling

/-!
# Assembling printed programs

An instruction is printed as its mnemonic and its operands, and the
assembler reads these words back as the same instruction, under any labels.
So a program that is printed line by line is assembled to its own bytes,
unless they do not fit into memory.
-/

namespace PocketCpu

/-! ## Printed words -/

/-- What holds of all numbers below 256 holds of the number of a byte. -/
theorem of_forall_fin_byte
    (property : Nat → Prop)
    (every : ∀ value : Fin 256, property value.val)
    (byte : Byte) :
    property byte.toNat :=
  every ⟨byte.toNat, byte.toNat_lt⟩

theorem Opcode.isWord_name (opcode : Opcode) : opcode.name.IsWord := by
  cases opcode <;> decide

theorem Text.isWord_hexUpper (byte : Byte) :
    (hexUpper 2 byte.toNat).IsWord :=
  of_forall_fin_byte (fun value => IsWord (hexUpper 2 value))
    (by decide +kernel) byte

namespace Token

/-- The two digits of a byte are read as the byte. -/
theorem hexByte?_hexUpper (byte : Byte) :
    hexByte? (Text.hexUpper 2 byte.toNat) = some byte := by
  have read :
      hexByte? (Text.hexUpper 2 byte.toNat) =
        some (UInt8.ofNat byte.toNat) :=
    of_forall_fin_byte
      (fun value =>
        hexByte? (Text.hexUpper 2 value) = some (UInt8.ofNat value))
      (by decide +kernel) byte
  rw [read, UInt8.ofNat_toNat]

end Token

namespace Operand

theorem isWord_text (operand : Operand) : operand.text.IsWord := by
  cases operand with
  | register register =>
      obtain ⟨pair, part⟩ := register
      cases pair <;> cases part <;> decide
  | memory address =>
      have opens : Text.IsWord ['['] := by decide
      have closes : Text.IsWord [']'] := by decide
      exact (opens.append (Text.isWord_hexUpper address)).append closes
  | immediate value =>
      have marks : Text.IsWord ['#'] := by decide
      exact marks.append (Text.isWord_hexUpper value)

/-- A printed operand is read as the operand. -/
theorem ofWord_text (operand : Operand) :
    Token.ofWord operand.text = .ok (.operand operand) := by
  cases operand with
  | register register =>
      obtain ⟨pair, part⟩ := register
      cases pair <;> cases part <;> rfl
  | memory address =>
      have closed :
          Token.withoutBracket? (Text.hexUpper 2 address.toNat ++ [']']) =
            some (Text.hexUpper 2 address.toNat) := by
        rw [Token.withoutBracket?, List.getLast?_concat, if_pos rfl,
          List.dropLast_concat]
      rw [text, List.cons_append, Token.ofWord]
      simp only [closed, Token.byteOf, Token.hexByte?_hexUpper]
      rfl
  | immediate value =>
      rw [text, Token.ofWord]
      simp only [Token.byteOf, Token.hexByte?_hexUpper]
      rfl

theorem operandOfWord_text (operand : Operand) :
    Token.operandOfWord operand.text = .ok operand := by
  rw [Token.operandOfWord, ofWord_text]
  rfl

/-- No operand is printed as the word that stands for the width. -/
theorem text_ne_widthWord (operand : Operand) :
    operand.text ≠ Instruction.widthWord := by
  cases operand with
  | register register =>
      obtain ⟨pair, part⟩ := register
      cases pair <;> cases part <;> decide
  | memory address => exact fun same => by cases same
  | immediate value => exact fun same => by cases same

end Operand

/-! ## Printed instructions -/

namespace Instruction

/-- The words behind the mnemonic of a printed instruction. -/
def operandWords : Instruction → List Text
  | .nop => []
  | .halt => []
  | .interrupt number => [number.text]
  | .selectWidth value => [widthWord, (Operand.immediate value).text]
  | .move target source => [target.text, source.text]
  | .compute _ target source => [target.text, source.text]
  | .invert operand => [operand.text]
  | .jump _ address => [address.text]

variable (instruction : Instruction)

theorem text_eq_line :
    instruction.text =
      line instruction.opcode instruction.operandWords := by
  cases instruction <;> rfl

theorem isWord_of_mem_operandWords :
    ∀ word ∈ instruction.operandWords, word.IsWord := by
  have isWord_widthWord : widthWord.IsWord := by decide
  cases instruction <;>
    simp [operandWords, Operand.isWord_text, isWord_widthWord]

theorem spells_intercalate
    {words : List Text}
    (isWords : ∀ word ∈ words, word.IsWord)
    (nonempty : words ≠ []) :
    Text.Spells ([',', ' '].intercalate words) words := by
  induction words with
  | nil => exact absurd rfl nonempty
  | cons word rest inductionHypothesis =>
      have isWord := isWords word List.mem_cons_self
      cases rest with
      | nil =>
          rw [List.intercalate_singleton]
          exact .single isWord
      | cons next others =>
          rw [List.intercalate_cons_cons]
          refine .cons isWord (Or.inr rfl)
            (inductionHypothesis ?_ (List.cons_ne_nil next others))
          exact fun later member =>
            isWords later (List.mem_cons_of_mem word member)

/-- A printed line spells its mnemonic and its operands. -/
theorem spells_line
    (opcode : Opcode)
    {words : List Text}
    (isWords : ∀ word ∈ words, word.IsWord) :
    (line opcode words).Spells (opcode.name :: words) := by
  cases words with
  | nil => exact .single opcode.isWord_name
  | cons word rest =>
      have spells :=
        spells_intercalate isWords (List.cons_ne_nil word rest)
      have joined :=
        Text.Spells.cons opcode.isWord_name (Or.inl rfl) spells
      rwa [List.append_assoc] at joined

theorem spells_text :
    instruction.text.Spells
      (instruction.opcode.name :: instruction.operandWords) := by
  rw [text_eq_line]
  exact spells_line _ instruction.isWord_of_mem_operandWords

end Instruction

namespace Statement

theorem ofOperands_of_single
    {opcode : Opcode}
    {isWritten : Bool}
    {build : Operand → Instruction}
    (shape : opcode.shape = .single isWritten build)
    (operand : Operand) :
    reader.ofOperands opcode [operand.text] = .ok (.fixed (build operand)) := by
  simp only [Reader.ofOperands, shape, Reader.ofSingle]
  cases opcode.condition? with
  | none =>
      rw [Operand.operandOfWord_text]
      rfl
  | some condition =>
      rw [Operand.ofWord_text]
      rfl

theorem ofOperands_of_pair
    {opcode : Opcode}
    {build : Operand → Operand → Instruction}
    (shape : opcode.shape = .pair build)
    (target source : Operand) :
    reader.ofOperands opcode [target.text, source.text] =
      .ok (.fixed (build target source)) := by
  simp only [Reader.ofOperands, shape]
  rw [if_neg fun width => target.text_ne_widthWord width.2, Reader.ofPair,
    Operand.operandOfWord_text, Operand.operandOfWord_text]
  rfl

theorem ofWidth_text (value : Byte) :
    reader.ofWidth (Operand.immediate value).text =
      .ok (.fixed (.selectWidth value)) := by
  rw [Reader.ofWidth, Operand.ofWord_text]
  rfl

/-- A printed instruction is read as the instruction. -/
theorem ofText_text (instruction : Instruction) :
    ofText instruction.text = .ok (.fixed instruction) := by
  rw [ofText, Reader.ofText, instruction.spells_text.words_eq,
    Reader.ofWords, Opcode.ofName?_name]
  cases instruction with
  | nop => rfl
  | halt => rfl
  | interrupt number => exact ofOperands_of_single rfl number
  | selectWidth value => exact ofWidth_text value
  | move target source => exact ofOperands_of_pair rfl target source
  | compute operation target source =>
      exact ofOperands_of_pair operation.shape_opcode target source
  | invert operand => exact ofOperands_of_single rfl operand
  | jump condition address =>
      exact ofOperands_of_single condition.shape_opcode address

/-- A printed instruction is encoded as the instruction, under any labels. -/
theorem encodeText_text
    {instruction : Instruction}
    {bytes : List Byte}
    (labels : LabelTable)
    (encoded : instruction.encode? = some bytes) :
    encodeText labels instruction.text = .ok bytes :=
  encodeText_eq_ok_iff.2
    ⟨instruction,
      instructionOf_eq_ok_iff.2
        ⟨.fixed instruction, ofText_text instruction, rfl⟩,
      encoded⟩

end Statement

/-! ## Printed programs -/

namespace SourceLine

/-- A printed instruction stands alone on its line. -/
theorem ofText?_text (number : Nat) (instruction : Instruction) :
    ofText? number instruction.text =
      some ⟨number, .absent, some instruction.text⟩ := by
  have spells := instruction.spells_text
  have noComment :=
    Text.before_eq_self ';' fun _ member => (spells.plain member).1
  have noLabel : instruction.text.after? ':' = none :=
    Text.after?_eq_none_iff.2 fun member => (spells.plain member).2.1 rfl
  have some : ¬ instruction.text.isEmpty = true := by
    simpa using spells.nonempty
  rw [ofText?, noComment]
  simp only [spells.trim_eq, if_neg some, ofContent, noLabel, nonempty?]

end SourceLine

namespace Program

/-- A program with every instruction on a line of its own. -/
def text (program : Program) : Text :=
  ['\n'].intercalate (program.map Instruction.text)

/-- The lines of a printed program, numbered from a first one. -/
def sourceLines (program : Program) (first : Nat) : List SourceLine :=
  (program.zipIdx first).map fun numbered =>
    ⟨numbered.2, .absent, some numbered.1.text⟩

@[simp]
theorem sourceLines_cons
    (instruction : Instruction)
    (rest : Program)
    (first : Nat) :
    sourceLines (instruction :: rest) first =
      ⟨first, .absent, some instruction.text⟩ ::
        sourceLines rest (first + 1) :=
  rfl

theorem filterMap_ofText?_zipIdx (program : Program) (first : Nat) :
    ((program.map Instruction.text).zipIdx first).filterMap
        (fun numbered => SourceLine.ofText? numbered.2 numbered.1) =
      program.sourceLines first := by
  induction program generalizing first with
  | nil => rfl
  | cons instruction rest inductionHypothesis =>
      rw [List.map_cons, List.zipIdx_cons, List.filterMap_cons,
        inductionHypothesis, SourceLine.ofText?_text, sourceLines_cons]

/-- The lines of a printed program are those of its instructions. -/
theorem ofSource_text (program : Program) :
    SourceLine.ofSource program.text = program.sourceLines 1 := by
  by_cases empty : program = []
  · rw [empty]
    rfl
  · have lines : program.text.lines = program.map Instruction.text := by
      refine List.splitOn_intercalate '\n' ?_
        (fun none => empty (List.map_eq_nil_iff.1 none))
      intro line member feed
      obtain ⟨instruction, _, rfl⟩ := List.mem_map.1 member
      exact (instruction.spells_text.plain feed).2.2 rfl
    rw [SourceLine.ofSource, lines, filterMap_ofText?_zipIdx]

/-- A printed program defines no labels. -/
theorem labelsOf_sourceLines (program : Program) (first : Nat) :
    Layout.labelsOf (program.sourceLines first) = .empty := by
  have kept (start : Nat) (table : LabelTable) :
      (Layout.placeFrom start (program.sourceLines first)).foldl
          PlacedLine.define table =
        table := by
    induction program generalizing first start table with
    | nil => rfl
    | cons instruction rest inductionHypothesis =>
        rw [sourceLines_cons, Layout.placeFrom_cons, List.foldl_cons]
        exact inductionHypothesis ..
  exact kept 0 .empty

variable {size : Nat} {program : Program}

/-- The lines of a printed program put the program's bytes into memory. -/
theorem IsEncodable.flatMap_bytes_sourceLines
    (encodable : program.IsEncodable)
    (labels : LabelTable)
    (first : Nat) :
    (program.sourceLines first).flatMap (SourceLine.bytes labels) =
      program.bytes := by
  induction program generalizing first with
  | nil => rfl
  | cons instruction rest inductionHypothesis =>
      obtain ⟨bytes, encoded⟩ := encodable instruction List.mem_cons_self
      rw [sourceLines_cons, List.flatMap_cons,
        SourceLine.bytes_of_encodeText rfl
          (Statement.encodeText_text labels encoded),
        inductionHypothesis encodable.tail, bytes_cons,
        Instruction.bytes_of_encode? encoded]

/-- The lines of a printed program are sound if its bytes fit into memory. -/
theorem IsEncodable.allSound_sourceLines
    (encodable : program.IsEncodable)
    (labels : LabelTable)
    (first : Nat)
    {start : Nat}
    (fits : start + program.bytes.length ≤ size) :
    Layout.AllSound labels size start (program.sourceLines first) := by
  induction program generalizing first start with
  | nil => exact fun _ member => absurd member List.not_mem_nil
  | cons instruction rest inductionHypothesis =>
      obtain ⟨bytes, encoded⟩ := encodable instruction List.mem_cons_self
      have read := Statement.encodeText_text labels encoded
      rw [bytes_cons, List.length_append,
        Instruction.bytes_of_encode? encoded] at fits
      have sound :
          PlacedLine.IsSound labels size
            ⟨⟨first, .absent, some instruction.text⟩, start⟩ := by
        refine ⟨rfl, ?_⟩
        rintro text ⟨⟩
        exact ⟨bytes, read, by show start + bytes.length ≤ size; omega⟩
      have length := sound.length_bytes
      rw [SourceLine.bytes_of_encodeText rfl read] at length
      intro placed member
      rw [sourceLines_cons, Layout.placeFrom_cons] at member
      rcases List.mem_cons.1 member with rfl | later
      · exact sound
      · rw [← length] at later
        exact inductionHypothesis encodable.tail (first + 1) (by omega)
          placed later

end Program

/-- A printed program is assembled to its bytes and defines no labels. -/
theorem Workspace.assemble_text
    {size : Nat}
    {program : Program}
    (encodable : program.IsEncodable)
    (fits : program.bytes.length ≤ size)
    (workspace : Workspace size) :
    workspace.assemble program.text =
      (⟨workspace.memory.write 0 program.bytes, .empty⟩,
        .ok program.bytes.length) := by
  have sound :=
    encodable.allSound_sourceLines .empty 1
      (by rwa [Nat.zero_add] : 0 + program.bytes.length ≤ size)
  have bytes := encodable.flatMap_bytes_sourceLines .empty 1
  have length := sound.length_bytes
  have assembled :
      (workspace.assemble program.text).2 =
        .ok program.bytes.length := by
    refine assemble_eq_ok_iff.2 ⟨?_, ?_⟩
    · rw [Program.ofSource_text, Program.labelsOf_sourceLines]
      exact sound
    · rw [Program.ofSource_text, ← length, bytes]
  refine Prod.ext ?_ assembled
  rw [assemble_of_ok assembled, Program.ofSource_text,
    Program.labelsOf_sourceLines, bytes]

end PocketCpu
