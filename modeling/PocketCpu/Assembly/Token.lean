import PocketCpu.Assembly.Diagnostic
import PocketCpu.Instruction.Operand
import PocketCpu.Text.Number

/-!
# Operand words

A word behind a mnemonic is a constant (`#0F`), an address in brackets
(`[80]`), a register or any other name.  Constants and addresses are always
hexadecimal, with or without the marker `0x`.
-/

namespace PocketCpu

/-- What a word behind a mnemonic stands for. -/
inductive Token where
  | operand (operand : Operand)
  | name (name : Text)
deriving DecidableEq, Repr

namespace Token

/-- The digits behind one marker of base sixteen, if there is one. -/
def withoutMarker : Text → Text
  | '0' :: 'x' :: digits => digits
  | '0' :: 'X' :: digits => digits
  | digits => digits

/-- The byte that a text stands for in base sixteen. -/
def hexByte? (text : Text) : Option Byte :=
  match Text.readNumber 16 0xff (withoutMarker text) with
  | .ok value => some (UInt8.ofNat value)
  | .error _ => none

/-- The byte of the digits inside a word. -/
def byteOf (word digits : Text) : Except Cause Byte :=
  match hexByte? digits with
  | some byte => .ok byte
  | none => .error (.notHexadecimal word)

/-- The text in front of a closing bracket at the end. -/
def withoutBracket? (text : Text) : Option Text :=
  if text.getLast? = some ']' then some text.dropLast else none

/-- Read one word behind a mnemonic. -/
def ofWord (word : Text) : Except Cause Token :=
  match word with
  | '#' :: digits => do
    let value ← byteOf word digits
    .ok (.operand (.immediate value))
  | '[' :: inner =>
    match withoutBracket? inner with
    | none => .error (.unterminatedAddress word)
    | some digits => do
      let address ← byteOf word digits
      .ok (.operand (.memory address))
  | _ =>
    match Register.ofName? word with
    | some register => .ok (.operand (.register register))
    | none => .ok (.name word)

/-- Read a word that must not be a label. -/
def operandOfWord (word : Text) : Except Cause Operand := do
  match ← ofWord word with
  | .operand known => .ok known
  | .name unknown => .error (.unknownRegister unknown)

end Token

end PocketCpu
