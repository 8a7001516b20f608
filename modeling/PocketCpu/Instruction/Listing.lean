import PocketCpu.Instruction.Decoding

/-!
# Listings of machine code

A listing walks through bytes from the start, one instruction after the
other.  Bytes without a meaning still take the place of an instruction: the
two leading bytes if no operands are known for them, and the operand bytes
that the mode implies otherwise.  The walk ends with the bytes, even in the
middle of an instruction.
-/

namespace PocketCpu

/-- One line of a listing. -/
structure ListingEntry where
  address : Word
  length : Nat
  content : Except Fault Instruction

namespace ListingEntry

/-- The instruction of an entry, or what is wrong with its bytes. -/
def text (entry : ListingEntry) : String :=
  match entry.content with
  | .ok instruction => String.ofList instruction.text
  | .error fault => fault.message

end ListingEntry

namespace Instruction

/-- The number of bytes that an opcode and a mode take with their operands. -/
def span (opcode mode : Byte) : Nat :=
  match operandCount opcode mode with
  | .ok count => 2 + count
  | .error _ => 2

/--
The listing of bytes that start at an address.

The first `skip` bytes belong to an entry that is already listed.
-/
def listingFrom (skip address : Nat) : List Byte → List ListingEntry
  | [] => []
  | opcode :: rest =>
    match skip with
    | skip + 1 => listingFrom skip (address + 1) rest
    | 0 =>
      match rest with
      | [] => [⟨UInt16.ofNat address, 1, .error (.truncated opcode)⟩]
      | mode :: operands =>
        let length := span opcode mode
        ⟨UInt16.ofNat address, length,
            decode opcode mode (operands.take (length - 2))⟩ ::
          listingFrom (length - 1) (address + 1) rest

/-- The listing of bytes that start at address zero. -/
def listing (bytes : List Byte) : List ListingEntry :=
  listingFrom 0 0 bytes

end Instruction

end PocketCpu
