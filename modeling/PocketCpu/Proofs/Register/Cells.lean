import Mathlib.Logic.Function.Basic
import PocketCpu.Proofs.Register.Writes

/-!
# The register file as cells

Behind the eighteen register codes stand twelve cells of four bits, a high
and a low one for each pair.  The first six codes name both cells of a pair,
the others a single cell each.  A write assigns to the cells that its code
names and to no other, so after any number of writes the banks of a register
file hold what these cells do, and it reads under every code as they do.
-/

namespace PocketCpu

/-- A half names no other cell. -/
theorem Cell.eq_of_names
    {cell other : Cell}
    (names : cell.half.Names other) :
    other = cell := by
  obtain ⟨pair, side⟩ := cell
  obtain ⟨own, aim⟩ := other
  obtain ⟨samePair, full | samePart⟩ := names
  · cases side <;> cases full
  · cases side <;> cases aim <;> cases samePair <;> cases samePart <;> rfl

/-- What a register code names: both cells of a pair, or one cell. -/
inductive Extent where
  | pair (pair : Pair)
  | cell (cell : Cell)
deriving DecidableEq, Repr

namespace Extent

/-- The table of the register codes. -/
def ofCode? : Byte → Option Extent
  | 0x01 => some (.pair .a)
  | 0x02 => some (.pair .b)
  | 0x03 => some (.pair .c)
  | 0x04 => some (.pair .d)
  | 0x05 => some (.pair .e)
  | 0x06 => some (.pair .g)
  | 0x07 => some (.cell ⟨.a, .high⟩)
  | 0x08 => some (.cell ⟨.a, .low⟩)
  | 0x09 => some (.cell ⟨.b, .high⟩)
  | 0x0a => some (.cell ⟨.b, .low⟩)
  | 0x0b => some (.cell ⟨.c, .high⟩)
  | 0x0c => some (.cell ⟨.c, .low⟩)
  | 0x0d => some (.cell ⟨.d, .high⟩)
  | 0x0e => some (.cell ⟨.d, .low⟩)
  | 0x0f => some (.cell ⟨.e, .high⟩)
  | 0x10 => some (.cell ⟨.e, .low⟩)
  | 0x11 => some (.cell ⟨.g, .high⟩)
  | 0x12 => some (.cell ⟨.g, .low⟩)
  | _ => none

/-- What a register names. -/
def ofRegister (register : Register) : Extent :=
  match register.part with
  | .full => .pair register.pair
  | .high => .cell ⟨register.pair, .high⟩
  | .low => .cell ⟨register.pair, .low⟩

/-- The table lists the codes of the registers and no others. -/
theorem ofCode?_eq_map (code : Byte) :
    ofCode? code = (Register.ofCode? code).map ofRegister := by
  cases found : Register.ofCode? code with
  | some register =>
      rw [← Register.ofCode?_eq_some_iff.1 found]
      obtain ⟨pair, part⟩ := register
      cases pair <;> cases part <;> rfl
  | none =>
      -- Every code in the table is the code of a register.
      rw [ofCode?.eq_def]
      split
      case h_19 => rfl
      all_goals cases found

end Extent

/-- The contents of the cells. -/
abbrev Cells :=
  Cell → Fin 16

namespace Cells

def zero : Cells :=
  fun _ => 0

/-- The cells after an assignment; a single one takes the low four bits. -/
def assign (cells : Cells) (value : Byte) : Extent → Cells
  | .pair pair =>
    Function.update
      (Function.update cells ⟨pair, .high⟩
        (Fin.ofNat 16 (value.toNat / 16)))
      ⟨pair, .low⟩ (Fin.ofNat 16 value.toNat)
  | .cell cell => Function.update cells cell (Fin.ofNat 16 value.toNat)

/-- The cells after a write by code; an unknown code changes nothing. -/
def write (cells : Cells) (code value : Byte) : Cells :=
  match Extent.ofCode? code with
  | some extent => cells.assign value extent
  | none => cells

/-- The cells after several writes, each a code and a value. -/
def writeAll (cells : Cells) (writes : List (Byte × Byte)) : Cells :=
  writes.foldl (fun cells write => cells.write write.1 write.2) cells

/-- The number in a pair of cells, or in a single one. -/
def value (cells : Cells) : Extent → Nat
  | .pair pair =>
    16 * (cells ⟨pair, .high⟩).val + (cells ⟨pair, .low⟩).val
  | .cell cell => (cells cell).val

/-- The number under a code; an unknown code reads zero. -/
def read (cells : Cells) (code : Byte) : Nat :=
  match Extent.ofCode? code with
  | some extent => cells.value extent
  | none => 0

end Cells

namespace RegisterFile

variable {file : RegisterFile} {cells : Cells}

/-- The banks of a register file, as they are stored, hold what cells do. -/
def Keeps (file : RegisterFile) (cells : Cells) : Prop :=
  ∀ cell : Cell, (file.bank cell).toNat = (cells cell).val

theorem keeps_zero : zero.Keeps .zero := by
  rintro ⟨pair, side⟩
  cases pair <;> cases side <;> rfl

/-! ## One write -/

/-- A write to a pair assigns to both of its cells. -/
theorem Keeps.write_full
    (keeps : file.Keeps cells)
    (pair : Pair)
    (value : Byte) :
    (file.write ⟨pair, .full⟩ value).Keeps
      (cells.assign value (.pair pair)) := by
  rintro ⟨own, side⟩
  by_cases same : own = pair
  · subst same
    rw [bank_write_of_names value ⟨rfl, Or.inl rfl⟩]
    cases side with
    | low =>
        rw [Cells.assign, Function.update_self]
        exact toNat_lowHalf value
    | high =>
        have small : value.toNat / 16 < 16 :=
          Nat.div_lt_of_lt_mul value.toNat_lt
        have other : (⟨own, .high⟩ : Cell) ≠ ⟨own, .low⟩ := nofun
        rw [Cells.assign, Function.update_of_ne other,
          Function.update_self]
        exact (toNat_highHalf value).trans (Nat.mod_eq_of_lt small).symm
  · have different (side' : Side) :
        (⟨own, side⟩ : Cell) ≠ ⟨pair, side'⟩ :=
      fun equal => same (congrArg Cell.pair equal)
    rw [bank_write_of_not_names value fun names => same names.1,
      Cells.assign, Function.update_of_ne (different .low),
      Function.update_of_ne (different .high)]
    exact keeps ⟨own, side⟩

/-- A write to a half assigns the low four bits to its cell. -/
theorem Keeps.write_half
    (keeps : file.Keeps cells)
    (cell : Cell)
    (value : Byte) :
    (file.write cell.half value).Keeps
      (cells.assign value (.cell cell)) := by
  intro other
  by_cases same : other = cell
  · subst same
    have names : other.half.Names other := by
      obtain ⟨pair, side⟩ := other
      cases side <;> exact ⟨rfl, Or.inr rfl⟩
    have portion :
        other.half.portion other.side value = lowHalf value := by
      obtain ⟨pair, side⟩ := other
      cases side <;> rfl
    rw [Cells.assign, Function.update_self,
      bank_write_of_names value names, portion]
    exact toNat_lowHalf value
  · rw [Cells.assign, Function.update_of_ne same,
      bank_write_of_not_names value fun names =>
        same (Cell.eq_of_names names)]
    exact keeps other

/-- Register files and cells stay alike when the same is written to both. -/
theorem Keeps.writeCode
    (keeps : file.Keeps cells)
    (code value : Byte) :
    (file.writeCode code value).Keeps (cells.write code value) := by
  rw [RegisterFile.writeCode, Cells.write, Extent.ofCode?_eq_map]
  cases Register.ofCode? code with
  | none => exact keeps
  | some register =>
      obtain ⟨pair, part⟩ := register
      cases part with
      | full => exact keeps.write_full pair value
      | high => exact keeps.write_half ⟨pair, .high⟩ value
      | low => exact keeps.write_half ⟨pair, .low⟩ value

/-! ## Sequences of writes -/

theorem Keeps.writeAll
    (keeps : file.Keeps cells)
    (writes : List (Byte × Byte)) :
    (file.writeAll writes).Keeps (cells.writeAll writes) := by
  induction writes generalizing file cells with
  | nil => exact keeps
  | cons write writes inductionHypothesis =>
      exact inductionHypothesis (keeps.writeCode write.1 write.2)

/-- What is read under a code is what its cells hold. -/
theorem Keeps.toNat_readCode
    (keeps : file.Keeps cells)
    (isBanked : file.IsBanked)
    (code : Byte) :
    (file.readCode code).toNat = cells.read code := by
  have half (cell : Cell) :
      (file.read cell.half).toNat = (cells cell).val :=
    (congrArg UInt8.toNat (isBanked.read_half cell)).trans (keeps cell)
  rw [readCode, Cells.read, Extent.ofCode?_eq_map]
  cases Register.ofCode? code with
  | none => rfl
  | some register =>
      obtain ⟨pair, part⟩ := register
      cases part with
      | full =>
          show (file.pair pair).toNat = _
          rw [isBanked.toNat_pair pair]
          exact congrArg₂ (fun high low => 16 * high + low)
            (keeps ⟨pair, .high⟩) (keeps ⟨pair, .low⟩)
      | high => exact half ⟨pair, .high⟩
      | low => exact half ⟨pair, .low⟩

/--
A register file reads as cells do: its banks hold what the cells hold, with
no bank above four bits, so under every code, known or not, both have the
same number.  A half reads as its bank, and a pair as its two banks put
together.
-/
structure ReadsAs (file : RegisterFile) (cells : Cells) : Prop where
  codes : ∀ code, (file.readCode code).toNat = cells.read code
  banks : file.Keeps cells
  halves : ∀ cell : Cell, file.read cell.half = file.bank cell
  pairs :
    ∀ pair,
      (file.read ⟨pair, .full⟩).toNat =
        16 * (file.bank ⟨pair, .high⟩).toNat +
          (file.bank ⟨pair, .low⟩).toNat
  isBanked : file.IsBanked

/-- After any writes a new register file reads as new cells do. -/
theorem readsAs_writeAll (writes : List (Byte × Byte)) :
    ReadsAs (zero.writeAll writes) (Cells.zero.writeAll writes) := by
  have keeps := keeps_zero.writeAll writes
  have isBanked := isBanked_zero.writeAll writes
  exact ⟨keeps.toNat_readCode isBanked, keeps, isBanked.read_half,
    isBanked.toNat_pair, isBanked⟩

end RegisterFile

end PocketCpu
