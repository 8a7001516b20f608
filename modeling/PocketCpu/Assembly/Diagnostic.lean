import PocketCpu.Instruction.Opcode
import PocketCpu.Text.Hexadecimal

/-!
# Diagnostics

A diagnostic names what is wrong with a source line.  Its cause carries the
offending piece of text, its kind is the class that the cause belongs to,
and its message is built from both.
-/

namespace PocketCpu

/-- The classes of mistakes in a program's source. -/
inductive Complaint where
  | unknownInstruction
  | unknownRegister
  | unknownLabel
  | invalidLabel
  | invalidOperand
  | invalidInstruction
  | outOfMemory (address : Nat)
deriving DecidableEq, Repr

def Complaint.message : Complaint → String
  | .unknownInstruction => "unknown instruction"
  | .unknownRegister => "unknown register"
  | .unknownLabel => "unknown label"
  | .invalidLabel => "invalid label"
  | .invalidOperand => "invalid operand format"
  | .invalidInstruction => "invalid instruction format"
  | .outOfMemory address =>
    "memory has no address `0x" ++ Text.hex 1 address ++ "`"

/-- What is wrong with a source line. -/
inductive Cause where
  /-- The first word is no mnemonic. -/
  | unknownMnemonic (word : Text)
  /-- A name stands where only a register may. -/
  | unknownRegister (word : Text)
  | undefinedLabel (name : Text)
  /-- A label is empty or contains blanks. -/
  | malformedLabel (name : Text)
  /-- A constant or an address is no hexadecimal byte. -/
  | notHexadecimal (word : Text)
  /-- An address has no closing bracket. -/
  | unterminatedAddress (word : Text)
  /-- The width is set to something else than a constant. -/
  | notImmediate (word : Text)
  /-- A label lies too far away for a jump. -/
  | distantLabel (name : Text) (address : Word)
  /-- The instruction would write to a constant. -/
  | immediateTarget (instruction : Text)
  | wrongArity (opcode : Opcode) (expected found : Nat)
  /-- The last byte of the instruction would lie at an address past memory. -/
  | doesNotFit (instruction : Text) (lastAddress size : Nat)
deriving DecidableEq, Repr

namespace Cause

def complaint : Cause → Complaint
  | .unknownMnemonic _ => .unknownInstruction
  | .unknownRegister _ => .unknownRegister
  | .undefinedLabel _ => .unknownLabel
  | .malformedLabel _ => .invalidLabel
  | .notHexadecimal _ => .invalidOperand
  | .unterminatedAddress _ => .invalidOperand
  | .notImmediate _ => .invalidOperand
  | .distantLabel _ _ => .invalidOperand
  | .immediateTarget _ => .invalidOperand
  | .wrongArity _ _ _ => .invalidInstruction
  | .doesNotFit _ lastAddress _ => .outOfMemory lastAddress

def quoted (text : Text) : String :=
  "`" ++ String.ofList text ++ "`"

def context : Cause → String
  | .unknownMnemonic word => quoted word
  | .unknownRegister word => quoted word
  | .undefinedLabel name => quoted name
  | .malformedLabel name => quoted name
  | .notHexadecimal word => quoted word ++ " is not a hexadecimal byte"
  | .unterminatedAddress word => "unterminated memory operand " ++ quoted word
  | .notImmediate word =>
    "`MOV MOP` expects an immediate, found " ++ quoted word
  | .distantLabel name address =>
    "label " ++ quoted name ++ " at 0x" ++ Text.hex 1 address.toNat ++
      " is not a byte address"
  | .immediateTarget instruction =>
    quoted instruction ++ " cannot write to an immediate"
  | .wrongArity opcode expected found =>
    quoted opcode.name ++ " expects " ++ toString expected ++
      " operand(s), found " ++ toString found
  | .doesNotFit instruction _ size =>
    quoted instruction ++ " does not fit into " ++ toString size ++ " bytes"

end Cause

/-- A mistake in a line of a source; line zero is no line of a source. -/
structure Diagnostic where
  line : Nat
  cause : Cause
deriving DecidableEq, Repr

namespace Diagnostic

def message (diagnostic : Diagnostic) : String :=
  "error [ln: " ++ toString diagnostic.line ++ "]: " ++
    diagnostic.cause.complaint.message ++ " - " ++ diagnostic.cause.context

def report (diagnostics : List Diagnostic) : String :=
  "\n".intercalate (diagnostics.map message)

end Diagnostic

end PocketCpu
