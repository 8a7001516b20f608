import PocketCpu.Register.Basic
import PocketCpu.Text.Hexadecimal

/-!
# Operands and addressing modes

An operand is a register, a memory cell or a constant, and takes one byte in
a program.  That byte does not tell the three kinds apart: the mode byte
behind the opcode does, for one operand or for a pair of them.
-/

namespace PocketCpu

/-- What an operand byte stands for. -/
inductive OperandKind where
  | register
  | memory
  | immediate
deriving DecidableEq, Repr

inductive Operand where
  | register (register : Register)
  | memory (address : Byte)
  | immediate (value : Byte)
deriving DecidableEq, Repr

namespace Operand

def kind : Operand → OperandKind
  | .register _ => .register
  | .memory _ => .memory
  | .immediate _ => .immediate

/-- The byte that an operand takes in a program. -/
def byte : Operand → Byte
  | .register chosen => chosen.code
  | .memory address => address
  | .immediate value => value

/-- The operand of a kind and a byte, unless the byte is no register code. -/
def ofByte? : OperandKind → Byte → Option Operand
  | .register, byte => (Register.ofCode? byte).map .register
  | .memory, byte => some (.memory byte)
  | .immediate, byte => some (.immediate byte)

@[simp]
theorem ofByte?_byte (operand : Operand) :
    ofByte? operand.kind operand.byte = some operand := by
  cases operand <;> simp [kind, byte, ofByte?]

/-- A byte is read as an operand exactly if it is the byte of that operand. -/
theorem ofByte?_eq_some_iff
    {kind : OperandKind}
    {byte : Byte}
    {operand : Operand} :
    ofByte? kind byte = some operand ↔
      operand.kind = kind ∧ operand.byte = byte := by
  constructor
  · intro read
    cases kind with
    | register =>
        obtain ⟨chosen, found, rfl⟩ := Option.map_eq_some_iff.1 read
        exact ⟨rfl, Register.ofCode?_eq_some_iff.1 found⟩
    | memory =>
        cases read
        exact ⟨rfl, rfl⟩
    | immediate =>
        cases read
        exact ⟨rfl, rfl⟩
  · rintro ⟨rfl, rfl⟩
    exact ofByte?_byte operand

/-- How an operand is written: `AX`, `[80]` or `#0F`. -/
def text : Operand → Text
  | .register chosen => chosen.name
  | .memory address => '[' :: Text.hexUpper 2 address.toNat ++ [']']
  | .immediate value => '#' :: Text.hexUpper 2 value.toNat

end Operand

inductive Mode where
  | registerRegister
  | registerMemory
  | memoryRegister
  | registerImmediate
  | width
  | memoryMemory
  | memoryImmediate
deriving DecidableEq, Repr

namespace Mode

def all : List Mode :=
  [.registerRegister, .registerMemory, .memoryRegister, .registerImmediate,
   .width, .memoryMemory, .memoryImmediate]

def code : Mode → Byte
  | .registerRegister => 0x00
  | .registerMemory => 0x01
  | .memoryRegister => 0x02
  | .registerImmediate => 0x03
  | .width => 0x04
  | .memoryMemory => 0x05
  | .memoryImmediate => 0x06

def ofCode? (byte : Byte) : Option Mode :=
  all.find? fun mode => mode.code == byte

@[simp]
theorem ofCode?_code (mode : Mode) : ofCode? mode.code = some mode := by
  cases mode <;> decide

theorem ofCode?_eq_some_iff
    {byte : Byte}
    {mode : Mode} :
    ofCode? byte = some mode ↔ mode.code = byte := by
  constructor
  · intro found
    simpa using List.find?_some found
  · rintro rfl
    exact ofCode?_code mode

/-- The kinds of a target and a source, for a mode that has both. -/
def pair? : Mode → Option (OperandKind × OperandKind)
  | .registerRegister => some (.register, .register)
  | .registerMemory => some (.register, .memory)
  | .memoryRegister => some (.memory, .register)
  | .registerImmediate => some (.register, .immediate)
  | .width => none
  | .memoryMemory => some (.memory, .memory)
  | .memoryImmediate => some (.memory, .immediate)

/-- The mode of a target and a source; a constant is never a target. -/
def ofPair? : OperandKind → OperandKind → Option Mode
  | .register, .register => some .registerRegister
  | .register, .memory => some .registerMemory
  | .register, .immediate => some .registerImmediate
  | .memory, .register => some .memoryRegister
  | .memory, .memory => some .memoryMemory
  | .memory, .immediate => some .memoryImmediate
  | .immediate, _ => none

/-- The kind of a single operand, for a mode that has one. -/
def single? : Mode → Option OperandKind
  | .registerRegister => some .register
  | .registerMemory => some .memory
  | .registerImmediate => some .immediate
  | _ => none

/-- The mode of a single operand. -/
def ofSingle : OperandKind → Mode
  | .register => .registerRegister
  | .memory => .registerMemory
  | .immediate => .registerImmediate

/-- Modes and pairs of kinds determine each other. -/
theorem pair?_eq_some_iff
    {mode : Mode}
    {target source : OperandKind} :
    mode.pair? = some (target, source) ↔ ofPair? target source = some mode := by
  cases mode <;> cases target <;> cases source <;> decide

/-- Modes and single kinds determine each other. -/
theorem single?_eq_some_iff
    {mode : Mode}
    {kind : OperandKind} :
    mode.single? = some kind ↔ ofSingle kind = mode := by
  cases mode <;> cases kind <;> decide

end Mode

end PocketCpu
