import PocketCpu.Register.File

/-!
# The banks of a register file

A register file stores twelve banks, each in a byte of its own.  If no bank
holds more than four bits, then a half reads as what is stored in its bank,
and a pair as its two banks put together.
-/

namespace PocketCpu

/-- Where a bank stands in its pair. -/
inductive Side where
  | high
  | low
deriving DecidableEq, Repr

/-- One of the twelve places that hold four bits. -/
structure Cell where
  pair : Pair
  side : Side
deriving DecidableEq, Repr

/-- The register that names a cell and nothing else. -/
def Cell.half (cell : Cell) : Register :=
  match cell.side with
  | .high => ⟨cell.pair, .high⟩
  | .low => ⟨cell.pair, .low⟩

namespace RegisterFile

/-! ## Halves of bytes -/

theorem toNat_lowHalf (byte : Byte) :
    (lowHalf byte).toNat = byte.toNat % 16 := by
  rw [lowHalf, UInt8.toNat_and]
  exact Nat.and_two_pow_sub_one_eq_mod byte.toNat 4

theorem toNat_highHalf (byte : Byte) :
    (highHalf byte).toNat = byte.toNat / 16 := by
  have small : byte.toNat / 16 < 16 := Nat.div_lt_of_lt_mul byte.toNat_lt
  have shifted : (byte >>> 4).toNat = byte.toNat / 16 := by
    rw [UInt8.toNat_shiftRight]
    exact Nat.shiftRight_eq_div_pow byte.toNat 4
  calc
    (highHalf byte).toNat = (byte >>> 4).toNat % 16 := toNat_lowHalf _
    _ = byte.toNat / 16 % 16 := by rw [shifted]
    _ = byte.toNat / 16 := Nat.mod_eq_of_lt small

theorem toNat_joinHalves (high low : Byte) :
    (joinHalves high low).toNat =
      16 * (high.toNat % 16) + low.toNat % 16 := by
  have highSmall : high.toNat % 16 < 16 := Nat.mod_lt _ (by decide)
  have lowSmall : low.toNat % 16 < 2 ^ 4 := Nat.mod_lt _ (by decide)
  have shifted :
      (high.toNat % 16) <<< 4 % 2 ^ 8 = (high.toNat % 16) <<< 4 := by
    rw [Nat.shiftLeft_eq]
    omega
  rw [joinHalves, UInt8.toNat_or, UInt8.toNat_shiftLeft, toNat_lowHalf,
    toNat_lowHalf]
  show (high.toNat % 16) <<< 4 % 2 ^ 8 ||| low.toNat % 16 = _
  rw [shifted, ← Nat.shiftLeft_add_eq_or_of_lt lowSmall, Nat.shiftLeft_eq]
  omega

/-! ## Banks -/

/-- What is stored in a cell. -/
def bank (file : RegisterFile) (cell : Cell) : Byte :=
  match cell.side with
  | .high => (file.banks cell.pair).high
  | .low => (file.banks cell.pair).low

/-- No bank of a register file holds more than four bits. -/
def IsBanked (file : RegisterFile) : Prop :=
  ∀ cell, (file.bank cell).toNat ≤ 15

theorem isBanked_zero : zero.IsBanked := by
  rintro ⟨pair, side⟩
  cases pair <;> cases side <;> decide

variable {file : RegisterFile}

/-- The low four bits of a bank are all that is stored in it. -/
theorem IsBanked.mod_bank
    (isBanked : file.IsBanked)
    (cell : Cell) :
    (file.bank cell).toNat % 16 = (file.bank cell).toNat :=
  Nat.mod_eq_of_lt (Nat.lt_succ_of_le (isBanked cell))

/-- A half reads as its bank. -/
theorem IsBanked.read_half
    (isBanked : file.IsBanked)
    (cell : Cell) :
    file.read cell.half = file.bank cell := by
  have low : lowHalf (file.bank cell) = file.bank cell :=
    UInt8.toNat_inj.1 ((toNat_lowHalf _).trans (isBanked.mod_bank cell))
  obtain ⟨pair, side⟩ := cell
  cases side <;> exact low

/-- A pair reads as its two banks put together. -/
theorem IsBanked.toNat_pair
    (isBanked : file.IsBanked)
    (pair : Pair) :
    (file.pair pair).toNat =
      16 * (file.bank ⟨pair, .high⟩).toNat +
        (file.bank ⟨pair, .low⟩).toNat := by
  calc
    (file.pair pair).toNat =
        16 * ((file.bank ⟨pair, .high⟩).toNat % 16) +
          (file.bank ⟨pair, .low⟩).toNat % 16 := toNat_joinHalves _ _
    _ = _ := by rw [isBanked.mod_bank, isBanked.mod_bank]

end RegisterFile

end PocketCpu
