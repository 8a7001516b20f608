import PocketCpu.Proofs.Assembly.Passes

/-!
# The image of an assembled source

After a source was assembled without mistakes, memory begins with the bytes
of its instruction lines and is otherwise as it was.  Labels resolve to the
number of bytes before their last definition, and every jump to a label
carries that number in its operand byte.
-/

namespace PocketCpu

/-! ## Jumps to labels -/

namespace Statement

theorem ofText_of_words_jump
    {text name : Text}
    {opcode : Opcode}
    {condition : Condition}
    (words : text.words = [opcode.name, name])
    (jumps : opcode.condition? = some condition)
    (named : Token.ofWord name = .ok (.name name)) :
    ofText text = .ok (.jumpToLabel condition name) := by
  obtain rfl := Opcode.condition?_eq_some_iff.1 jumps
  rw [ofText, Reader.ofText, words, Reader.ofWords, Opcode.ofName?_name]
  simp only [Reader.ofOperands, Condition.shape_opcode, Reader.ofSingle,
    jumps, named]
  rfl

/-- A jump to a label is a jump to the label's address, if that is a byte. -/
theorem resolve_jumpToLabel_eq_ok_iff
    {labels : LabelTable}
    {condition : Condition}
    {name : Text}
    {instruction : Instruction} :
    (jumpToLabel condition name).resolve labels = .ok instruction ↔
      ∃ address, labels.resolve name = some address ∧
        address ≤ 0xff ∧
        instruction = .jump condition (.immediate address.toUInt8) := by
  rw [resolve]
  cases labels.resolve name with
  | none => simp
  | some address =>
      simp only [Option.some.injEq, exists_eq_left']
      by_cases near : address ≤ 0xff
      · simp only [near, if_true, Except.ok.injEq, true_and]
        exact eq_comm
      · simp [near]

end Statement

/-! ## The image -/

/--
A source is laid out in a workspace that was another one before, and takes
a number of bytes.
-/
structure Workspace.LaidOut
    {size : Nat}
    (before after : Workspace size)
    (source : Text)
    (count : Nat) : Prop where
  fits : count ≤ size
  /-- Memory begins with the bytes of the lines. -/
  code :
    after.memory.toList.take count =
      (SourceLine.ofSource source).flatMap (SourceLine.bytes after.labels)
  /-- All other bytes of memory are as before. -/
  kept :
    after.memory.toList.drop count = before.memory.toList.drop count
  /-- A name resolves to the number of bytes before its last definition. -/
  labels :
    ∀ name address,
      after.labels.resolve name = some address ↔
        ∃ earlier,
          SourceLine.LastDefinition (SourceLine.ofSource source)
              name earlier ∧
            address.toNat =
              (earlier.flatMap
                (SourceLine.bytes after.labels)).length
  /-- The bytes of a line encode its instruction and lie at its address. -/
  lines :
    ∀ earlier line later text,
      SourceLine.ofSource source = earlier ++ line :: later →
      line.code = some text →
      ∃ instruction bytes,
        Statement.instructionOf after.labels text = .ok instruction ∧
          instruction.encode? = some bytes ∧
          line.bytes after.labels = bytes ∧
          after.encode text = .ok bytes ∧
          after.memory.slice
              (earlier.flatMap
                (SourceLine.bytes after.labels)).length
              bytes.length =
            bytes
  /-- A jump to a label holds the label's address in one byte. -/
  jumps :
    ∀ line ∈ SourceLine.ofSource source,
      ∀ text name, ∀ opcode : Opcode, ∀ condition,
      line.code = some text →
      text.words = [opcode.name, name] →
      opcode.condition? = some condition →
      Token.ofWord name = .ok (.name name) →
      ∃ address,
        after.labels.resolve name = some address ∧
          address.toNat ≤ 255 ∧
          line.bytes after.labels =
            [opcode.code, 0x03, address.toUInt8]

namespace Layout.AllSound

variable {labels : LabelTable} {size : Nat}
variable {lines : List SourceLine}

/-- A label's address fits into sixteen bits if all bytes fit into memory. -/
theorem resolve_labelsOf_iff
    (sound : AllSound labels size 0 lines)
    (small : size < 65536)
    {name : Text}
    {address : Word} :
    (labelsOf lines).resolve name = some address ↔
      ∃ earlier, SourceLine.LastDefinition lines name earlier ∧
        address.toNat =
          (earlier.flatMap (SourceLine.bytes labels)).length := by
  rw [Layout.resolve_labelsOf_iff]
  apply exists_congr
  intro earlier
  apply and_congr_right
  rintro ⟨line, later, rfl, _, _⟩
  -- The lines before the definition end inside of memory.
  have inside := sound.left.end_le (Nat.zero_le size)
  have length := sound.left.length_bytes
  have exact : (UInt16.ofNat (Layout.size earlier)).toNat =
      Layout.size earlier :=
    UInt16.toNat_ofNat_of_lt' (by
      rw [UInt16.size]
      omega)
  rw [length, ← UInt16.toNat_inj, exact]

/-- Every instruction line of sound lines holds an encodable instruction. -/
theorem exists_instruction
    {start : Nat}
    {line : SourceLine}
    {text : Text}
    (sound : AllSound labels size start lines)
    (member : line ∈ lines)
    (written : line.code = some text) :
    ∃ instruction bytes,
      Statement.instructionOf labels text = .ok instruction ∧
        instruction.encode? = some bytes ∧
        line.bytes labels = bytes ∧
        Statement.encodeText labels text = .ok bytes := by
  obtain ⟨earlier, later, rfl⟩ := List.append_of_mem member
  obtain ⟨bytes, encoded, _⟩ := sound.right.head.code text written
  obtain ⟨instruction, read, hasBytes⟩ :=
    Statement.encodeText_eq_ok_iff.1 encoded
  exact ⟨instruction, bytes, read, hasBytes,
    SourceLine.bytes_of_encodeText written encoded, encoded⟩

/-- The bytes of a sound line are found behind those of earlier lines. -/
theorem slice_bytes
    {earlier later : List SourceLine}
    {line : SourceLine}
    (sound : AllSound labels size 0 (earlier ++ line :: later))
    (memory : Memory size) :
    (memory.write 0
        ((earlier ++ line :: later).flatMap
          (SourceLine.bytes labels))).slice
        (earlier.flatMap (SourceLine.bytes labels)).length
        (line.bytes labels).length =
      line.bytes labels := by
  have fits := sound.end_le (Nat.zero_le size)
  rw [Nat.zero_add, ← sound.length_bytes, List.flatMap_append,
    List.flatMap_cons] at fits
  rw [List.flatMap_append, List.flatMap_cons]
  exact Memory.slice_write_zero fits

/-- A jump to a label is written with the address of the label. -/
theorem bytes_of_jump
    {start : Nat}
    {line : SourceLine}
    {text name : Text}
    {opcode : Opcode}
    {condition : Condition}
    (sound : AllSound labels size start lines)
    (member : line ∈ lines)
    (written : line.code = some text)
    (words : text.words = [opcode.name, name])
    (jumps : opcode.condition? = some condition)
    (named : Token.ofWord name = .ok (.name name)) :
    ∃ address,
      labels.resolve name = some address ∧ address.toNat ≤ 255 ∧
        line.bytes labels = [opcode.code, 0x03, address.toUInt8] := by
  obtain ⟨instruction, bytes, read, hasBytes, ownBytes, _⟩ :=
    sound.exists_instruction member written
  obtain ⟨statement, parsed, resolved⟩ :=
    Statement.instructionOf_eq_ok_iff.1 read
  rw [Statement.ofText_of_words_jump words jumps named] at parsed
  cases parsed
  obtain ⟨address, bound, near, rfl⟩ :=
    Statement.resolve_jumpToLabel_eq_ok_iff.1 resolved
  obtain rfl := Opcode.condition?_eq_some_iff.1 jumps
  refine ⟨address, bound, UInt16.le_iff_toNat_le.1 near, ?_⟩
  rw [ownBytes]
  cases hasBytes
  rfl

end Layout.AllSound

namespace Workspace

variable {size : Nat}

theorem encode_of_encodeText
    {workspace : Workspace size}
    {text : Text}
    {bytes : List Byte}
    (encoded : Statement.encodeText workspace.labels text = .ok bytes) :
    workspace.encode text = .ok bytes := by
  rw [encode, encoded]

/--
A source that is assembled without mistakes is laid out in memory, whatever
the memory and the labels were before.
-/
theorem laidOut_of_assemble
    {workspace : Workspace size}
    {source : Text}
    {count : Nat}
    (small : size < 65536)
    (assembled : (workspace.assemble source).2 = .ok count) :
    workspace.LaidOut (workspace.assemble source).1 source count := by
  obtain ⟨sound, rfl⟩ := assemble_eq_ok_iff.1 assembled
  have fits := sound.end_le (Nat.zero_le size)
  have length := sound.length_bytes
  rw [Nat.zero_add] at fits
  have inside := Nat.le_trans (Nat.le_of_eq length) fits
  rw [assemble_of_ok assembled]
  refine ⟨fits, ?_, ?_, ?_, ?_, ?_⟩
  · rw [Memory.toList_write_zero inside, ← length, List.take_left]
  · rw [Memory.toList_write_zero inside, ← length, List.drop_left]
  · exact fun _ _ => sound.resolve_labelsOf_iff small
  · intro earlier line later text split written
    have member : line ∈ SourceLine.ofSource source := by
      rw [split]
      exact List.mem_append_right _ List.mem_cons_self
    obtain ⟨instruction, bytes, read, hasBytes, ownBytes, encoded⟩ :=
      sound.exists_instruction member written
    refine ⟨instruction, bytes, read, hasBytes, ownBytes,
      encode_of_encodeText encoded, ?_⟩
    rw [← ownBytes]
    -- The labels belong to the whole source, so they must outlive its split.
    generalize Layout.labelsOf (SourceLine.ofSource source) = labels
      at sound ⊢
    rw [split] at sound ⊢
    exact sound.slice_bytes workspace.memory
  · intro line member text name opcode condition
    exact sound.bytes_of_jump member

/-- Jumps forward and back, to labels of which one is defined twice. -/
theorem laidOut_jumps :
    (ofMemory (.filled 8 0xaa)).LaidOut
      ((ofMemory (.filled 8 0xaa)).assemble
        "b:\na: JZ b\n JMP a ; back\nb:".toList).1
      "b:\na: JZ b\n JMP a ; back\nb:".toList 6 :=
  laidOut_of_assemble (by decide) rfl

end Workspace

end PocketCpu
