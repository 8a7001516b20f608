import Mathlib.Algebra.Group.Nat.Defs
import PocketCpu.Proofs.Register.Banks

/-!
# Writing registers

A write stores four bits in every cell that its register names, both cells of
a pair or a single one, and leaves the other cells alone.  So no bank ever
holds more than four bits, and a register that was written reads as the low
bits of what was written to it, as many as it has.
-/

namespace PocketCpu

namespace Register

/-- The number of bits of a register. -/
def bits (register : Register) : Nat :=
  match register.part with
  | .full => 8
  | .high => 4
  | .low => 4

/-- Whether a register names a cell: its own, or one of its pair's. -/
def Names (register : Register) (cell : Cell) : Prop :=
  cell.pair = register.pair ∧
    (register.part = .full ∨ cell.half.part = register.part)

/-- What a write stores in a cell: a pair cuts the value into its halves. -/
def portion (register : Register) (side : Side) (value : Byte) : Byte :=
  match register.part, side with
  | .full, .high => RegisterFile.highHalf value
  | _, _ => RegisterFile.lowHalf value

theorem toNat_portion_le
    (register : Register)
    (side : Side)
    (value : Byte) :
    (register.portion side value).toNat ≤ 15 := by
  have high : (RegisterFile.highHalf value).toNat ≤ 15 := by
    have small := value.toNat_lt
    rw [RegisterFile.toNat_highHalf]
    omega
  have low : (RegisterFile.lowHalf value).toNat ≤ 15 := by
    rw [RegisterFile.toNat_lowHalf]
    omega
  obtain ⟨pair, part⟩ := register
  cases part with
  | full =>
      cases side with
      | high => exact high
      | low => exact low
  | high => exact low
  | low => exact low

end Register

namespace RegisterFile

variable {file : RegisterFile} {register : Register} {cell : Cell}

/-! ## One write -/

/-- A cell that a register names takes its portion of what is written. -/
theorem bank_write_of_names
    (value : Byte)
    (names : register.Names cell) :
    (file.write register value).bank cell =
      register.portion cell.side value := by
  obtain ⟨pair, part⟩ := register
  obtain ⟨own, side⟩ := cell
  obtain ⟨rfl, full | samePart⟩ := names
  · cases full
    cases side <;> simp [write, bank, Register.portion]
  · cases part <;> cases side <;> cases samePart <;>
      simp [write, bank, Register.portion]

/-- A cell that a register does not name stays when it is written. -/
theorem bank_write_of_not_names
    (value : Byte)
    (other : ¬ register.Names cell) :
    (file.write register value).bank cell = file.bank cell := by
  obtain ⟨pair, part⟩ := register
  obtain ⟨own, side⟩ := cell
  by_cases same : own = pair
  · -- The other cell of the same pair.
    subst same
    cases part with
    | full => exact absurd ⟨rfl, Or.inl rfl⟩ other
    | high =>
        cases side with
        | high => exact absurd ⟨rfl, Or.inr rfl⟩ other
        | low => simp [write, bank]
    | low =>
        cases side with
        | high => simp [write, bank]
        | low => exact absurd ⟨rfl, Or.inr rfl⟩ other
  · simp only [write, bank, banks_setBanks, if_neg same]

/-- A write stores no more than four bits in any bank. -/
theorem IsBanked.write
    (isBanked : file.IsBanked)
    (register : Register)
    (value : Byte) :
    (file.write register value).IsBanked := by
  intro cell
  by_cases names : register.Names cell
  · rw [bank_write_of_names value names]
    exact register.toNat_portion_le cell.side value
  · rw [bank_write_of_not_names value names]
    exact isBanked cell

theorem IsBanked.writeCode
    (isBanked : file.IsBanked)
    (code value : Byte) :
    (file.writeCode code value).IsBanked := by
  rw [RegisterFile.writeCode]
  cases Register.ofCode? code with
  | none => exact isBanked
  | some register => exact isBanked.write register value

/-- A register that was written reads as the low bits of what was written. -/
theorem toNat_read_write
    (file : RegisterFile)
    (register : Register)
    (value : Byte) :
    ((file.write register value).read register).toNat =
      value.toNat % 2 ^ register.bits := by
  have small := value.toNat_lt
  have low : (lowHalf (lowHalf value)).toNat = value.toNat % 2 ^ 4 := by
    rw [toNat_lowHalf, toNat_lowHalf]
    exact Nat.mod_mod _ _
  obtain ⟨pair, part⟩ := register
  cases part with
  | full =>
      rw [write, read, RegisterFile.pair, banks_setBanks, if_pos rfl]
      show (joinHalves (highHalf value) (lowHalf value)).toNat =
        value.toNat % 2 ^ 8
      rw [toNat_joinHalves, toNat_highHalf, toNat_lowHalf]
      omega
  | high =>
      rw [write, read, banks_setBanks, if_pos rfl]
      exact low
  | low =>
      rw [write, read, banks_setBanks, if_pos rfl]
      exact low

/-! ## Sequences of writes -/

/-- The file after several writes, each a code and a value. -/
def writeAll (file : RegisterFile) (writes : List (Byte × Byte)) :
    RegisterFile :=
  writes.foldl (fun file write => file.writeCode write.1 write.2) file

/-- However often registers are written, no bank exceeds four bits. -/
theorem IsBanked.writeAll
    (isBanked : file.IsBanked)
    (writes : List (Byte × Byte)) :
    (file.writeAll writes).IsBanked := by
  induction writes generalizing file with
  | nil => exact isBanked
  | cons write writes inductionHypothesis =>
      exact inductionHypothesis (isBanked.writeCode write.1 write.2)

end RegisterFile

end PocketCpu
