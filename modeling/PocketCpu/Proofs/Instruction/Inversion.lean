import PocketCpu.Proofs.Instruction.Leading

/-!
# Encoding decoded instructions

The converse of decoding encoded instructions: whatever bytes an instruction
was decoded from, it has bytes of its own, and these are the same again, save
that an opcode without operands is written with the mode zero whatever mode
was read.

An opcode and a mode byte announce operands in four ways.  For each of these
ways the instruction that is built from the operands has the same opcode, the
same mode and the operand bytes that were read.
-/

namespace PocketCpu

namespace Opcode

/-- The ways in which an opcode and a mode byte announce operands. -/
inductive Announces (operation : Opcode) : Byte → Fields → Prop where
  | bare
      {mode : Byte}
      {instruction : Instruction}
      (shape : operation.shape = .bare instruction) :
      Announces operation mode (.bare instruction)
  | single
      {isWritten : Bool}
      {kind : OperandKind}
      {build : Operand → Instruction}
      (shape : operation.shape = .single isWritten build)
      (allowed : isWritten = true → kind ≠ .immediate) :
      Announces operation (Mode.ofSingle kind).code (.single kind build)
  | width
      (isMove : operation = .mov) :
      Announces operation Mode.width.code .width
  | pair
      {own : Mode}
      {target source : OperandKind}
      {build : Operand → Operand → Instruction}
      (shape : operation.shape = .pair build)
      (paired : Mode.ofPair? target source = some own) :
      Announces operation own.code (.pair target source build)

variable {operation : Opcode} {mode : Byte} {fields : Fields}

theorem announces_of_fieldsUnder?
    (announced : operation.fieldsUnder? mode = some fields) :
    operation.Announces mode fields := by
  rw [fieldsUnder?] at announced
  cases shape : operation.shape with
  | bare instruction =>
      rw [shape] at announced
      cases announced
      exact .bare shape
  | single isWritten build =>
      rw [shape] at announced
      obtain ⟨own, isMode, known⟩ := Option.bind_eq_some_iff.1 announced
      obtain ⟨kind, isSingle, accepted⟩ := Option.bind_eq_some_iff.1 known
      obtain rfl := Mode.ofCode?_eq_some_iff.1 isMode
      obtain rfl := Mode.single?_eq_some_iff.1 isSingle
      by_cases refused : isWritten = true ∧ kind = .immediate
      · rw [if_pos refused] at accepted
        cases accepted
      · rw [if_neg refused] at accepted
        cases accepted
        exact .single shape fun written same => refused ⟨written, same⟩
  | pair build =>
      rw [shape] at announced
      obtain ⟨own, isMode, known⟩ := Option.bind_eq_some_iff.1 announced
      obtain rfl := Mode.ofCode?_eq_some_iff.1 isMode
      by_cases width : own = .width ∧ operation = .mov
      · rw [if_pos width] at known
        obtain ⟨rfl, isMove⟩ := width
        cases known
        exact .width isMove
      · rw [if_neg width] at known
        obtain ⟨⟨target, source⟩, isPair, built⟩ :=
          Option.bind_eq_some_iff.1 known
        cases built
        exact .pair shape (Mode.pair?_eq_some_iff.1 isPair)

end Opcode

namespace Instruction

/-- Whether the mode byte of an instruction has no meaning. -/
def ignoresMode : Instruction → Bool
  | .nop => true
  | .halt => true
  | _ => false

/--
An instruction is written as an opcode, a mode, unless it is ignored, and
operand bytes.
-/
structure IsWritten
    (instruction : Instruction)
    (opcode mode : Byte)
    (operands : List Byte) : Prop where
  opcode : instruction.opcode.code = opcode
  mode :
    ∃ own, instruction.mode? = some own ∧
      (instruction.ignoresMode = false → own.code = mode)
  operands : instruction.operandBytes = operands
  isReadable : instruction.invertsConstant = false

variable {operation : Opcode}

theorem isWritten_bare
    {instruction : Instruction}
    (shape : operation.shape = .bare instruction)
    (mode : Byte) :
    instruction.IsWritten operation.code mode [] := by
  cases operation <;> cases shape <;>
    exact ⟨rfl, ⟨.registerRegister, rfl, nofun⟩, rfl, rfl⟩

/-- Of the operands that are read alone, only a written one is inverted. -/
theorem invertsConstant_single
    {isWritten : Bool}
    {build : Operand → Instruction}
    (shape : operation.shape = .single isWritten build)
    (operand : Operand) :
    (build operand).invertsConstant =
      (isWritten && operand.kind == .immediate) := by
  cases operation <;> cases shape <;> cases operand <;> rfl

theorem isWritten_single
    {isWritten : Bool}
    {build : Operand → Instruction}
    (shape : operation.shape = .single isWritten build)
    (operand : Operand)
    (allowed : isWritten = true → operand.kind ≠ .immediate) :
    (build operand).IsWritten operation.code
      (Mode.ofSingle operand.kind).code [operand.byte] := by
  have isReadable : (build operand).invertsConstant = false := by
    rw [invertsConstant_single shape]
    cases isWritten with
    | false => rfl
    | true => simpa using allowed rfl
  cases operation <;> cases shape <;>
    exact ⟨rfl, ⟨Mode.ofSingle operand.kind, rfl, fun _ => rfl⟩, rfl,
      isReadable⟩

theorem isWritten_width (value : Byte) :
    (selectWidth value).IsWritten Opcode.mov.code Mode.width.code
      [value] :=
  ⟨rfl, ⟨.width, rfl, fun _ => rfl⟩, rfl, rfl⟩

theorem isWritten_pair
    {build : Operand → Operand → Instruction}
    (shape : operation.shape = .pair build)
    {target source : Operand}
    {own : Mode}
    (paired : Mode.ofPair? target.kind source.kind = some own) :
    (build target source).IsWritten operation.code own.code
      [target.byte, source.byte] := by
  cases operation <;> cases shape <;>
    exact ⟨rfl, ⟨own, paired, fun _ => rfl⟩, rfl, rfl⟩

/-! ## Reading operands back -/

theorem operand_eq_ok_iff
    {kind : OperandKind}
    {byte : Byte}
    {operand : Operand} :
    Fields.operand kind byte = .ok operand ↔
      operand.kind = kind ∧ operand.byte = byte := by
  rw [← Operand.ofByte?_eq_some_iff, Fields.operand]
  cases Operand.ofByte? kind byte <;> simp

variable {mode : Byte} {fields : Fields} {instruction : Instruction}

/-- What is read from announced fields is written as it was read. -/
theorem isWritten_of_read
    {opcode : Byte}
    {bytes : List Byte}
    (announces : operation.Announces mode fields)
    (read : fields.read opcode bytes = .ok instruction) :
    instruction.IsWritten operation.code mode (bytes.take fields.count) := by
  cases announces with
  | bare shape =>
      cases read
      exact isWritten_bare shape mode
  | single shape allowed =>
      rcases bytes with _ | ⟨byte, rest⟩
      · cases read
      rw [Fields.read] at read
      cases known : Fields.operand _ byte with
      | error fault =>
          rw [known] at read
          cases read
      | ok operand =>
          rw [known] at read
          cases read
          obtain ⟨rfl, rfl⟩ := operand_eq_ok_iff.1 known
          exact isWritten_single shape operand allowed
  | width isMove =>
      rcases bytes with _ | ⟨value, rest⟩
      · cases read
      cases read
      subst isMove
      exact isWritten_width value
  | pair shape paired =>
      rcases bytes with _ | ⟨first, _ | ⟨second, rest⟩⟩
      · cases read
      · cases read
      rw [Fields.read] at read
      cases knownTarget : Fields.operand _ first with
      | error fault =>
          rw [knownTarget] at read
          cases read
      | ok target =>
          cases knownSource : Fields.operand _ second with
          | error fault =>
              rw [knownTarget, knownSource] at read
              cases read
          | ok source =>
              rw [knownTarget, knownSource] at read
              cases read
              obtain ⟨rfl, rfl⟩ := operand_eq_ok_iff.1 knownTarget
              obtain ⟨rfl, rfl⟩ := operand_eq_ok_iff.1 knownSource
              exact isWritten_pair shape paired

/-- An instruction is written as it was decoded. -/
theorem isWritten_of_decode
    {opcode : Byte}
    {operands : List Byte}
    (decoded : decode opcode mode operands = .ok instruction) :
    instruction.IsWritten opcode mode
      (operands.take (span opcode mode - 2)) := by
  cases known : Instruction.fields opcode mode with
  | error fault =>
      rw [decode_of_fields_error known] at decoded
      cases decoded
  | ok fields =>
      rw [decode_of_fields known] at decoded
      rw [span_of_fields known, Nat.add_sub_cancel_left]
      rw [Instruction.fields] at known
      cases named : Opcode.ofCode? opcode with
      | none =>
          rw [named] at known
          cases known
      | some operation =>
          rw [named] at known
          obtain rfl := Opcode.ofCode?_eq_some_iff.1 named
          cases announced : operation.fieldsUnder? mode with
          | none =>
              simp only [announced] at known
              cases known
          | some own =>
              simp only [announced] at known
              cases known
              exact isWritten_of_read
                (Opcode.announces_of_fieldsUnder? announced) decoded

end Instruction

end PocketCpu
