/-!
# Status flags

Arithmetic leaves a summary of its exact result in five flags.  A sixth flag
selects whether the summary looks at four bits or at eight; a seventh is
kept for interrupts and set by no instruction.
-/

namespace PocketCpu

structure Flags where
  /-- The last result did not fit into the selected width. -/
  carry : Bool
  /-- The last result was zero in the selected width. -/
  zero : Bool
  /-- The top bit of the last result in the selected width. -/
  sign : Bool
  /-- The last result did not fit into the selected width. -/
  overflow : Bool
  /-- The last result had an even number of one bits in the selected width. -/
  parity : Bool
  /-- Interrupts are enabled. -/
  interrupt : Bool
  /-- The selected width is four bits and not eight. -/
  fourBit : Bool
deriving DecidableEq, Repr

namespace Flags

/-- The flags of a fresh machine: four bits wide and otherwise clear. -/
def initial : Flags :=
  ⟨false, false, false, false, false, false, true⟩

def limit (flags : Flags) : Int32 :=
  if flags.fourBit then 0x0f else 0xff

def topBit (flags : Flags) : Int32 :=
  if flags.fourBit then 0x08 else 0x80

/-- Whether a number below 256 has an even number of one bits. -/
def evenOnes (value : Nat) : Bool :=
  (List.range 8).countP value.testBit % 2 = 0

/-- The flags after arithmetic with the given exact result. -/
def observe (flags : Flags) (result : Int32) : Flags :=
  let outside := decide (flags.limit < result) || decide (result < 0)
  let kept := result &&& flags.limit
  { flags with
    carry := outside
    overflow := outside
    zero := kept == 0
    sign := kept &&& flags.topBit != 0
    parity := evenOnes kept.toInt.toNat }

/-- Select four bits by any value but zero, and eight bits by zero. -/
def selectWidth (flags : Flags) (value : UInt8) : Flags :=
  { flags with fourBit := value != 0 }

def widthText (flags : Flags) : String :=
  if flags.fourBit then "4-bit" else "8-bit"

def digit (flag : Bool) : String :=
  if flag then "1" else "0"

def text (flags : Flags) : String :=
  "CF: " ++ digit flags.carry ++ " ZF: " ++ digit flags.zero ++
    " SF: " ++ digit flags.sign ++ " OF: " ++ digit flags.overflow ++
    " PF: " ++ digit flags.parity ++ " IF: " ++ digit flags.interrupt ++
    " MOP: " ++ flags.widthText

end Flags

end PocketCpu
