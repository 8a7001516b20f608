import Mathlib.Data.Nat.Bitwise
import PocketCpu.Machine.Perform

/-!
# Exact results

The arithmetic unit works with signed words of thirty-two bits, which no
operation on bytes leaves.  Its results are therefore those of the integers.
What is kept of a result is its remainder, for eight bits or for four, and
the flags describe this remainder and whether it is the result itself.
-/

namespace PocketCpu

/-! ## Words -/

/-- A word whose bits are those of a small number is this number. -/
theorem toInt_of_toNat
    {word : Int32}
    {result : Nat}
    (bits : word.toBitVec.toNat = result)
    (small : result < 2 ^ 31) :
    word.toInt = result := by
  rw [← bits] at small ⊢
  rw [← Int32.toInt_toBitVec]
  exact BitVec.toInt_eq_toNat_of_lt (by omega)

@[simp]
theorem toNat_toBitVec_widen (byte : Byte) :
    (widen byte).toBitVec.toNat = byte.toNat := by
  have small := byte.toNat_lt
  simp [widen]

/-- A word and its bits have the same remainder. -/
theorem toInt_emod_of_dvd
    {modulus : Nat}
    (word : Int32)
    (divides : modulus ∣ 2 ^ 32) :
    word.toInt % modulus = (word.toBitVec.toNat % modulus : Nat) := by
  obtain ⟨factor, exact⟩ := divides
  rw [← Int32.toInt_toBitVec, BitVec.toInt_eq_toNat_cond]
  split
  · rfl
  · rw [exact, Int.natCast_mul, Int.sub_mul_emod_self_left]
    rfl

/-- The low byte of a word is its remainder. -/
theorem toNat_narrow (word : Int32) :
    ((narrow word).toNat : Int) = word.toInt % 256 := by
  rw [narrow, UInt32.toNat_toUInt8]
  exact (toInt_emod_of_dvd word (by decide : 256 ∣ 2 ^ 32)).symm

/-- The complement of a byte is its distance from the largest byte. -/
theorem toNat_complement (byte : Byte) :
    ((~~~byte).toNat : Int) = 255 - byte.toNat := by
  have small := byte.toNat_lt
  rw [UInt8.toNat_not, UInt8.size]
  omega

/-! ## Operations -/

namespace BinaryOp

/--
The exact result of an operation on two values.

A shift uses the remainder of its count by eight.
-/
def exact (operation : BinaryOp) (left right : Nat) : Int :=
  match operation with
  | .add => (left : Int) + right
  | .sub => (left : Int) - right
  | .and => (left &&& right : Nat)
  | .or => (left ||| right : Nat)
  | .xor => (left ^^^ right : Nat)
  | .shl => (left * 2 ^ (right % 8) : Nat)
  | .shr => (left / 2 ^ (right % 8) : Nat)
  | .cmp => (left : Int) - right

variable (left right : Byte)

theorem toInt_add_widen :
    (widen left + widen right).toInt = (left.toNat : Int) + right.toNat := by
  have leftSmall := left.toNat_lt
  have rightSmall := right.toNat_lt
  rw [Int32.toInt_add, toInt_widen, toInt_widen]
  exact Int.bmod_eq_of_le (by omega) (by omega)

theorem toInt_sub_widen :
    (widen left - widen right).toInt = (left.toNat : Int) - right.toNat := by
  have leftSmall := left.toNat_lt
  have rightSmall := right.toNat_lt
  rw [Int32.toInt_sub, toInt_widen, toInt_widen]
  exact Int.bmod_eq_of_le (by omega) (by omega)

/-- The count of a shift, in the form in which words shift by it. -/
theorem toNat_shiftCount :
    ((widen right &&& 7).toBitVec.smod 32).toNat = right.toNat % 8 := by
  have masked : (widen right &&& 7).toBitVec.toNat = right.toNat % 8 := by
    rw [Int32.toBitVec_and, BitVec.toNat_and, toNat_toBitVec_widen]
    exact Nat.and_two_pow_sub_one_eq_mod right.toNat 3
  have short :
      ∀ count < 8, ((BitVec.ofNat 32 count).smod 32).toNat = count := by
    decide
  have exact := short _ (Nat.mod_lt right.toNat (by decide))
  rwa [← masked, BitVec.ofNat_toNat, BitVec.setWidth_eq, masked] at exact

theorem toInt_shiftLeft_widen :
    (widen left <<< (widen right &&& 7)).toInt =
      (left.toNat * 2 ^ (right.toNat % 8) : Nat) := by
  have leftSmall := left.toNat_lt
  have factor : 2 ^ (right.toNat % 8) ≤ 2 ^ 7 :=
    Nat.pow_le_pow_right (by decide) (by omega)
  have product := Nat.mul_le_mul (Nat.le_of_lt_succ leftSmall) factor
  have small : left.toNat * 2 ^ (right.toNat % 8) < 2 ^ 31 := by omega
  refine toInt_of_toNat ?_ small
  rw [Int32.toBitVec_shiftLeft, BitVec.shiftLeft_eq', BitVec.toNat_shiftLeft,
    toNat_shiftCount, toNat_toBitVec_widen, Nat.shiftLeft_eq]
  exact Nat.mod_eq_of_lt (by omega)

/-- A widened byte has no sign, so that zeros are shifted in. -/
theorem toInt_shiftRight_widen :
    (widen left >>> (widen right &&& 7)).toInt =
      (left.toNat / 2 ^ (right.toNat % 8) : Nat) := by
  have leftSmall := left.toNat_lt
  have unsigned : (widen left).toBitVec.msb = false := by
    rw [BitVec.msb_eq_false_iff_two_mul_lt, toNat_toBitVec_widen]
    omega
  have quotient := Nat.div_le_self left.toNat (2 ^ (right.toNat % 8))
  refine toInt_of_toNat ?_ (by omega)
  rw [Int32.toBitVec_shiftRight, BitVec.sshiftRight_eq',
    BitVec.sshiftRight_eq_of_msb_false unsigned, BitVec.toNat_ushiftRight,
    toNat_shiftCount, toNat_toBitVec_widen, Nat.shiftRight_eq_div_pow]

/-- No operation on bytes leaves the words of the arithmetic unit. -/
theorem toInt_apply (operation : BinaryOp) :
    (operation.apply (widen left) (widen right)).toInt =
      operation.exact left.toNat right.toNat := by
  have leftSmall := left.toNat_lt
  have rightSmall := right.toNat_lt
  have fits {result : Nat} (inside : result < 2 ^ 8) : result < 2 ^ 31 :=
    Nat.lt_trans inside (by decide)
  cases operation with
  | add => exact toInt_add_widen left right
  | sub => exact toInt_sub_widen left right
  | and =>
      exact toInt_of_toNat (by simp [apply])
        (fits (Nat.and_lt_two_pow _ rightSmall))
  | or =>
      exact toInt_of_toNat (by simp [apply])
        (fits (Nat.or_lt_two_pow leftSmall rightSmall))
  | xor =>
      exact toInt_of_toNat (by simp [apply])
        (fits (Nat.xor_lt_two_pow leftSmall rightSmall))
  | shl => exact toInt_shiftLeft_widen left right
  | shr => exact toInt_shiftRight_widen left right
  | cmp => exact toInt_sub_widen left right

end BinaryOp

/-! ## Flags -/

namespace Flags

/-- The number of bits that the flags look at. -/
def width (flags : Flags) : Nat :=
  if flags.fourBit then 4 else 8

/-- What the flags look at is the remainder of the result. -/
theorem toNat_and_limit (flags : Flags) (word : Int32) :
    (word &&& flags.limit).toBitVec.toNat =
      (word.toInt % 2 ^ flags.width).toNat := by
  have bits :
      (word &&& flags.limit).toBitVec.toNat =
        word.toBitVec.toNat % 2 ^ flags.width := by
    rw [Int32.toBitVec_and, BitVec.toNat_and, limit, width]
    cases flags.fourBit with
    | true => exact Nat.and_two_pow_sub_one_eq_mod _ 4
    | false => exact Nat.and_two_pow_sub_one_eq_mod _ 8
  have divides : 2 ^ flags.width ∣ 2 ^ 32 := by
    rw [width]
    split <;> decide
  have same := toInt_emod_of_dvd word divides
  rw [Int.natCast_pow] at same
  rw [bits]
  exact (Int.toNat_natCast _).symm.trans (congrArg Int.toNat same.symm)

theorem remainder_lt (flags : Flags) (result : Int) :
    (result % 2 ^ flags.width).toNat < 2 ^ flags.width := by
  have positive : (0 : Int) < 2 ^ flags.width := Int.pow_pos (by decide)
  have below := Int.emod_lt_of_pos result positive
  have least := Int.emod_nonneg result (Int.ne_of_gt positive)
  rw [Int.toNat_lt least, Int.natCast_pow]
  exact below

/-- The bits above the width are all zero. -/
theorem evenOnes_of_lt
    (flags : Flags)
    {value : Nat}
    (small : value < 2 ^ flags.width) :
    evenOnes value =
      decide (2 ∣ (List.range flags.width).countP value.testBit) := by
  have inFour :
      ∀ value < 2 ^ 4,
        evenOnes value = decide (2 ∣ (List.range 4).countP value.testBit) := by
    decide
  rw [width] at small ⊢
  cases four : flags.fourBit with
  | true =>
      rw [four] at small
      exact inFour value small
  | false =>
      simp only [evenOnes, Nat.dvd_iff_mod_eq_zero]
      rfl

/-- A word is zero exactly if its bits are those of zero. -/
theorem eq_zero_iff_toNat {word : Int32} :
    word = 0 ↔ word.toBitVec.toNat = 0 := by
  rw [← Int32.toBitVec_inj, ← BitVec.toNat_inj]
  rfl

theorem and_topBit_ne_zero (flags : Flags) (word : Int32) :
    (word &&& flags.topBit != 0) =
      word.toBitVec.toNat.testBit (flags.width - 1) := by
  have bit :
      (word &&& flags.topBit).toBitVec.toNat =
        (word.toBitVec.toNat.testBit (flags.width - 1)).toNat *
          2 ^ (flags.width - 1) := by
    rw [← Nat.and_two_pow, Int32.toBitVec_and, BitVec.toNat_and, topBit,
      width]
    cases flags.fourBit <;> rfl
  rw [Bool.eq_iff_iff, bne_iff_ne, ne_eq, eq_zero_iff_toNat, bit]
  cases word.toBitVec.toNat.testBit (flags.width - 1) with
  | true => simp
  | false => simp

/--
Flags are the summary of an exact result: they say whether it fits into the
width, and describe the remainder that does.
-/
structure IsSummary (flags before : Flags) (result : Int) : Prop where
  carry :
    flags.carry = true ↔ result < 0 ∨ 2 ^ before.width ≤ result
  overflow : flags.overflow = flags.carry
  zero : flags.zero = true ↔ (2 : Int) ^ before.width ∣ result
  /-- The top bit of the remainder. -/
  sign :
    flags.sign =
      (result % 2 ^ before.width).toNat.testBit (before.width - 1)
  /-- The number of one bits of the remainder. -/
  parity :
    flags.parity = true ↔
      2 ∣ (List.range before.width).countP
        (result % 2 ^ before.width).toNat.testBit
  fourBit : flags.fourBit = before.fourBit
  interrupt : flags.interrupt = before.interrupt

theorem isSummary_observe (flags : Flags) (word : Int32) :
    (flags.observe word).IsSummary flags word.toInt := by
  have kept := flags.toNat_and_limit word
  have small := flags.remainder_lt word.toInt
  have narrow : 2 ^ flags.width ≤ 2 ^ 31 := by
    rw [width]
    split <;> decide
  have limited : flags.limit.toInt + 1 = 2 ^ flags.width := by
    rw [limit, width]
    cases flags.fourBit <;> rfl
  refine ⟨?_, rfl, ?_, ?_, ?_, rfl, rfl⟩
  · rw [observe, Bool.or_eq_true, decide_eq_true_iff, decide_eq_true_iff,
      Int32.lt_iff_toInt_lt, Int32.lt_iff_toInt_lt, ← limited, or_comm]
    rfl
  · have least : 0 ≤ word.toInt % 2 ^ flags.width :=
      Int.emod_nonneg _ (Int.ne_of_gt (Int.pow_pos (by decide)))
    rw [observe, beq_iff_eq, eq_zero_iff_toNat, kept, Int.toNat_eq_zero,
      Int.dvd_iff_emod_eq_zero]
    omega
  · rw [observe, and_topBit_ne_zero, kept]
  · rw [observe, toInt_of_toNat kept (Nat.lt_of_lt_of_le small narrow),
      Int.toNat_natCast, evenOnes_of_lt flags small, decide_eq_true_iff]

end Flags

end PocketCpu
