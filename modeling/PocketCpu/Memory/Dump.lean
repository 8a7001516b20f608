import PocketCpu.Log
import PocketCpu.Memory.Basic
import PocketCpu.Text.Hexadecimal

/-!
# Memory dumps

A dump shows memory as a table of sixteen columns.  Each row begins with its
address, each cell takes four characters, and the cell at the program
counter stands in brackets.
-/

namespace PocketCpu.Memory

/-- One cell of a dump. -/
def cell (isMarked : Bool) (byte : Byte) : Text :=
  let digits := Text.hexUpper 2 byte.toNat
  if isMarked then '[' :: digits ++ [']']
  else ' ' :: digits ++ [' ']

/-- The column numbers above the cells. -/
def dumpHeader : Text :=
  [' ', ' ', ' ', ' '] ++
    (List.range 16).flatMap fun column =>
      [' ', ' '] ++ Text.hexUpper 1 column ++ [' ']

variable {size : Nat}

/-- One row of a dump: its address and the cells from there on. -/
def dumpRow (memory : Memory size) (pc row : Nat) : Text :=
  let start := 16 * row
  Text.hexUpper 2 start ++ [':', ' '] ++
    (List.range' start 16).flatMap fun address =>
      ((memory.get? address).map (cell (address == pc))).getD []

/-- The dump of a memory, with the cell at `pc` marked. -/
def dump (memory : Memory size) (pc : Nat) : Text :=
  ['\n'].intercalate <|
    dumpHeader :: (List.range ((size + 15) / 16)).map (memory.dumpRow pc)

/-- The record of a dump. -/
def dumpRecord (memory : Memory size) (pc : Nat) : Record :=
  ⟨.info, .memory, "Memory:\n" ++ String.ofList (memory.dump pc)⟩

end PocketCpu.Memory
