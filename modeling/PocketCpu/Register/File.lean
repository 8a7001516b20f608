import PocketCpu.Log
import PocketCpu.Register.Basic
import PocketCpu.Text.Hexadecimal

/-!
# The register file

Each of the six pairs is stored as two banks, a high and a low one.  A bank is
a byte of which only the low four bits are used: whatever is written to it,
no more than these four bits are stored, and no more are read.  A pair reads
as its two banks side by side, so a write to a half shows in the pair and the
other way round.
-/

namespace PocketCpu

/-- What is stored for a pair. -/
structure Banks where
  high : Byte
  low : Byte
deriving DecidableEq, Repr

/-- The banks of the six register pairs. -/
structure RegisterFile where
  a : Banks
  b : Banks
  c : Banks
  d : Banks
  e : Banks
  g : Banks
deriving DecidableEq, Repr

namespace RegisterFile

def zero : RegisterFile :=
  ⟨⟨0, 0⟩, ⟨0, 0⟩, ⟨0, 0⟩, ⟨0, 0⟩, ⟨0, 0⟩, ⟨0, 0⟩⟩

/-- The banks of a pair as they are stored. -/
def banks (file : RegisterFile) : Pair → Banks
  | .a => file.a
  | .b => file.b
  | .c => file.c
  | .d => file.d
  | .e => file.e
  | .g => file.g

def setBanks (file : RegisterFile) (target : Pair) (banks : Banks) :
    RegisterFile :=
  match target with
  | .a => { file with a := banks }
  | .b => { file with b := banks }
  | .c => { file with c := banks }
  | .d => { file with d := banks }
  | .e => { file with e := banks }
  | .g => { file with g := banks }

@[simp]
theorem banks_setBanks
    (file : RegisterFile)
    (target source : Pair)
    (banks : Banks) :
    (file.setBanks target banks).banks source =
      if source = target then banks else file.banks source := by
  cases target <;> cases source <;> rfl

/-- The high four bits of a byte. -/
def highHalf (byte : Byte) : Byte :=
  (byte >>> 4) &&& 0x0f

/-- The low four bits of a byte. -/
def lowHalf (byte : Byte) : Byte :=
  byte &&& 0x0f

/-- The byte with the given halves; only four bits of each are used. -/
def joinHalves (high low : Byte) : Byte :=
  (lowHalf high <<< 4) ||| lowHalf low

/-- The byte that the banks of a pair make up. -/
def pair (file : RegisterFile) (source : Pair) : Byte :=
  joinHalves (file.banks source).high (file.banks source).low

/-- The value of a register; of a bank only the low four bits are read. -/
def read (file : RegisterFile) (register : Register) : Byte :=
  match register.part with
  | .full => file.pair register.pair
  | .high => lowHalf (file.banks register.pair).high
  | .low => lowHalf (file.banks register.pair).low

/-- The file after a write, which stores four bits in each bank it names. -/
def write (file : RegisterFile) (register : Register) (value : Byte) :
    RegisterFile :=
  let banks := file.banks register.pair
  file.setBanks register.pair <|
    match register.part with
    | .full => ⟨highHalf value, lowHalf value⟩
    | .high => { banks with high := lowHalf value }
    | .low => { banks with low := lowHalf value }

/-- The value of the register with the given code; an unknown code reads zero. -/
def readCode (file : RegisterFile) (code : Byte) : Byte :=
  match Register.ofCode? code with
  | some register => file.read register
  | none => 0

/-- The file after a write by code; an unknown code changes nothing. -/
def writeCode (file : RegisterFile) (code value : Byte) : RegisterFile :=
  match Register.ofCode? code with
  | some register => file.write register value
  | none => file

def accessRecords (code : Byte) : List Record :=
  match Register.ofCode? code with
  | some _ => []
  | none =>
    [⟨.warn, .registers,
      "Invalid register code: 0x" ++
        String.ofList (Text.hexUpper 2 code.toNat)⟩]

/-- The accumulator, whose value the interrupts report. -/
def ax (file : RegisterFile) : Byte :=
  file.read ⟨.a, .full⟩

/-- One line of the listing: a pair and its banks in hexadecimal digits. -/
def pairText (file : RegisterFile) (source : Pair) : String :=
  let letter := String.singleton source.letter
  let high := Text.hex 1 (file.banks source).high.toNat
  let low := Text.hex 1 (file.banks source).low.toNat
  letter ++ "X: " ++ high ++ low ++
    " (" ++ letter ++ "H: " ++ high ++ ", " ++ letter ++ "L: " ++ low ++ ")"

def text (file : RegisterFile) : String :=
  "\n".intercalate (Pair.all.map file.pairText)

end RegisterFile

end PocketCpu
