import PocketCpu.Instruction.Listing

/-!
# Decoding encoded instructions

An instruction that has bytes is decoded from them again, whatever follows
these bytes, and its opcode and mode announce exactly as many operand bytes
as it has.  There is one exception: an instruction that inverts a constant
has bytes, but its mode is unknown to the decoder.

The encoder starts from the instruction and the decoder from the shape of an
opcode.  So the proof first says which fields each shape announces under the
mode of its operands, and then looks up the shape of every instruction.
-/

namespace PocketCpu

/-! ## Fields announced by a shape -/

namespace Opcode

variable {opcode : Opcode}

/-- A single operand is announced, unless it is a constant to be written. -/
theorem fieldsUnder?_single
    {isWritten : Bool}
    {build : Operand → Instruction}
    (shape : opcode.shape = .single isWritten build)
    {kind : OperandKind}
    (allowed : isWritten = true → kind ≠ .immediate) :
    opcode.fieldsUnder? (Mode.ofSingle kind).code =
      some (.single kind build) := by
  have kindOfMode : (Mode.ofSingle kind).single? = some kind :=
    Mode.single?_eq_some_iff.2 rfl
  have accepted : ¬ (isWritten = true ∧ kind = .immediate) :=
    fun refused => allowed refused.1 refused.2
  simp [fieldsUnder?, shape, kindOfMode, accepted]

/-- Nothing is announced for a constant that would be written. -/
theorem fieldsUnder?_written_immediate
    {build : Operand → Instruction}
    (shape : opcode.shape = .single true build) :
    opcode.fieldsUnder? (Mode.ofSingle .immediate).code = none := by
  have kindOfMode :
      (Mode.ofSingle .immediate).single? = some OperandKind.immediate :=
    Mode.single?_eq_some_iff.2 rfl
  simp [fieldsUnder?, shape, kindOfMode]

/-- A pair of operands is announced by the mode of their kinds. -/
theorem fieldsUnder?_pair
    {build : Operand → Operand → Instruction}
    (shape : opcode.shape = .pair build)
    {target source : OperandKind}
    {mode : Mode}
    (paired : Mode.ofPair? target source = some mode) :
    opcode.fieldsUnder? mode.code = some (.pair target source build) := by
  have kindsOfMode : mode.pair? = some (target, source) :=
    Mode.pair?_eq_some_iff.2 paired
  have notWidth : mode ≠ .width := by
    rintro rfl
    cases kindsOfMode
  simp [fieldsUnder?, shape, kindsOfMode, notWidth]

/-- The width mode of a move announces a width. -/
theorem fieldsUnder?_width :
    Opcode.mov.fieldsUnder? Mode.width.code = some .width := by
  simp [fieldsUnder?, shape]

end Opcode

/-! ## The shape of an instruction's opcode -/

@[simp]
theorem BinaryOp.shape_opcode (operation : BinaryOp) :
    operation.opcode.shape = .pair (.compute operation) := by
  cases operation <;> rfl

@[simp]
theorem Condition.shape_opcode (condition : Condition) :
    condition.opcode.shape = .single false (.jump condition) := by
  cases condition <;> rfl

/-! ## Fields that hold an instruction -/

/--
Fields hold an instruction in some bytes if they count these bytes and read
the instruction from them, whatever comes behind.
-/
structure Fields.Hold
    (fields : Fields)
    (opcode : Byte)
    (bytes : List Byte)
    (instruction : Instruction) : Prop where
  count : fields.count = bytes.length
  read : ∀ rest, fields.read opcode (bytes ++ rest) = .ok instruction

namespace Fields

variable {opcode : Byte}

theorem hold_bare (instruction : Instruction) :
    (Fields.bare instruction).Hold opcode [] instruction where
  count := rfl
  read _ := rfl

theorem hold_width (value : Byte) :
    Fields.width.Hold opcode [value] (.selectWidth value) where
  count := rfl
  read _ := rfl

theorem hold_single
    (operand : Operand)
    (build : Operand → Instruction) :
    (Fields.single operand.kind build).Hold
      opcode [operand.byte] (build operand) where
  count := rfl
  read rest := by
    rw [List.singleton_append, read, Instruction.operand_byte]
    rfl

theorem hold_pair
    (target source : Operand)
    (build : Operand → Operand → Instruction) :
    (Fields.pair target.kind source.kind build).Hold
      opcode [target.byte, source.byte] (build target source) where
  count := rfl
  read rest := by
    rw [List.cons_append, List.singleton_append, read,
      Instruction.operand_byte, Instruction.operand_byte]
    rfl

end Fields

namespace Instruction

/-- Whether an instruction would invert a constant. -/
def invertsConstant : Instruction → Bool
  | .invert (.immediate _) => true
  | _ => false

/-- The opcode and the mode of an instruction announce its operand bytes. -/
theorem exists_fieldsUnder?_of_mode?
    {instruction : Instruction}
    {mode : Mode}
    (hasMode : instruction.mode? = some mode)
    (isReadable : instruction.invertsConstant = false) :
    ∃ fields,
      instruction.opcode.fieldsUnder? mode.code = some fields ∧
        fields.Hold instruction.opcode.code
          instruction.operandBytes instruction := by
  cases instruction with
  | nop =>
      exact ⟨.bare .nop, rfl, Fields.hold_bare .nop⟩
  | halt =>
      exact ⟨.bare .halt, rfl, Fields.hold_bare .halt⟩
  | interrupt number =>
      cases hasMode
      exact ⟨_, Opcode.fieldsUnder?_single rfl (by simp),
        Fields.hold_single number _⟩
  | selectWidth value =>
      cases hasMode
      exact ⟨_, Opcode.fieldsUnder?_width, Fields.hold_width value⟩
  | move target source =>
      exact ⟨_, Opcode.fieldsUnder?_pair rfl hasMode,
        Fields.hold_pair target source _⟩
  | compute operation target source =>
      exact ⟨_,
        Opcode.fieldsUnder?_pair operation.shape_opcode hasMode,
        Fields.hold_pair target source _⟩
  | invert operand =>
      cases hasMode
      have allowed : operand.kind ≠ .immediate := by
        cases operand with
        | register _ => exact nofun
        | memory _ => exact nofun
        | immediate _ => cases isReadable
      exact ⟨_, Opcode.fieldsUnder?_single rfl fun _ => allowed,
        Fields.hold_single operand _⟩
  | jump condition address =>
      cases hasMode
      exact ⟨_,
        Opcode.fieldsUnder?_single condition.shape_opcode (by simp),
        Fields.hold_single address _⟩

/-! ## The round trip -/

/-- The two bytes in front of the operand bytes of an encoding. -/
theorem encode?_eq_some_iff
    {instruction : Instruction}
    {bytes : List Byte} :
    instruction.encode? = some bytes ↔
      ∃ mode, instruction.mode? = some mode ∧
        bytes =
          instruction.opcode.code :: mode.code ::
            instruction.operandBytes := by
  rw [encode?, Option.map_eq_some_iff]
  exact exists_congr fun mode => and_congr_right fun _ => eq_comm

/-- The fields behind the leading bytes of an instruction that has a mode. -/
theorem exists_fields_of_mode?
    {instruction : Instruction}
    {mode : Mode}
    (hasMode : instruction.mode? = some mode)
    (isReadable : instruction.invertsConstant = false) :
    ∃ fields,
      Instruction.fields instruction.opcode.code mode.code = .ok fields ∧
        fields.Hold instruction.opcode.code
          instruction.operandBytes instruction := by
  obtain ⟨fields, announced, holds⟩ :=
    exists_fieldsUnder?_of_mode? hasMode isReadable
  refine ⟨fields, ?_, holds⟩
  rw [Instruction.fields, Opcode.ofCode?_code]
  simp only [announced]

/-- The leading bytes of an instruction count its operand bytes. -/
theorem operandCount_of_mode?
    {instruction : Instruction}
    {mode : Mode}
    (hasMode : instruction.mode? = some mode)
    (isReadable : instruction.invertsConstant = false) :
    operandCount instruction.opcode.code mode.code =
      .ok instruction.operandBytes.length := by
  obtain ⟨fields, known, holds⟩ :=
    exists_fields_of_mode? hasMode isReadable
  rw [operandCount, known, ← holds.count]
  rfl

/-- An instruction is decoded from its own bytes, whatever comes behind. -/
theorem decode_of_mode?
    {instruction : Instruction}
    {mode : Mode}
    (hasMode : instruction.mode? = some mode)
    (isReadable : instruction.invertsConstant = false)
    (rest : List Byte) :
    decode instruction.opcode.code mode.code
        (instruction.operandBytes ++ rest) =
      .ok instruction := by
  obtain ⟨fields, known, holds⟩ :=
    exists_fields_of_mode? hasMode isReadable
  rw [decode, known]
  exact holds.read rest

/-- The leading bytes of an inverted constant have no meaning. -/
theorem fields_of_invertsConstant
    {instruction : Instruction}
    {mode : Mode}
    (hasMode : instruction.mode? = some mode)
    (inverts : instruction.invertsConstant = true) :
    Instruction.fields instruction.opcode.code mode.code =
      .error (.unknownMode instruction.opcode.code mode.code) := by
  cases instruction with
  | invert operand =>
      cases operand with
      | immediate value =>
          cases hasMode
          have silent :
              Opcode.not.fieldsUnder? (Mode.ofSingle .immediate).code =
                none :=
            Opcode.fieldsUnder?_written_immediate rfl
          rw [Instruction.fields, Opcode.ofCode?_code]
          simp only [opcode, Operand.kind, silent]
      | register _ => cases inverts
      | memory _ => cases inverts
  | _ => cases inverts

end Instruction

end PocketCpu
