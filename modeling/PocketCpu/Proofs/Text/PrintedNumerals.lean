import PocketCpu.Proofs.Text.Numerals
import PocketCpu.Text.Hexadecimal

/-!
# Printed numerals

A number is printed in base sixteen as a numeral of itself, in capitals and
with zeros in front up to a least width.  There are no other zeros in front,
and a numeral has only one value, so a number is told from its print.
-/

namespace PocketCpu.Text

/-! ## Digits of a number -/

/-- The digits of a number in base sixteen, without zeros in front. -/
structure AreDigits (value : Nat) (digits : List Nat) : Prop where
  nonempty : digits ≠ []
  small : ∀ digit ∈ digits, digit < 16
  value_eq : value = Nat.ofDigits 16 digits.reverse
  eq_zero : digits.head? = some 0 → digits = [0]

/-- A number has digits, and these are the characters that are taken for it. -/
theorem exists_digits (value : Nat) :
    ∃ digits, AreDigits value digits ∧
      Nat.toDigits 16 value = digits.map Nat.digitChar := by
  induction value using Nat.strongRecOn with
  | ind value smaller =>
      by_cases small : value < 16
      · refine ⟨[value], ⟨List.cons_ne_nil _ _, ?_, ?_, ?_⟩, ?_⟩
        · exact List.forall_mem_singleton.2 small
        · exact Nat.ofDigits_singleton.symm
        · exact fun zero => congrArg List.singleton (Option.some.inj zero)
        · exact Nat.toDigits_of_lt_base small
      · have large : 16 ≤ value := Nat.le_of_not_lt small
        have fewer : value / 16 < value :=
          Nat.div_lt_self (Nat.zero_lt_of_lt large) (by decide)
        obtain ⟨front, areDigits, shown⟩ := smaller (value / 16) fewer
        refine ⟨front ++ [value % 16], ⟨?_, ?_, ?_, ?_⟩, ?_⟩
        · exact List.append_ne_nil_of_left_ne_nil areDigits.nonempty _
        · intro digit member
          rcases List.mem_append.1 member with inFront | last
          · exact areDigits.small digit inFront
          · rw [List.mem_singleton.1 last]
            exact Nat.mod_lt value (by decide)
        · rw [List.reverse_concat, Nat.ofDigits_cons, ← areDigits.value_eq]
          exact (Nat.mod_add_div value 16).symm
        · intro zero
          rw [List.head?_append_of_ne_nil _ areDigits.nonempty] at zero
          have empty : value / 16 = 0 := by
            rw [areDigits.value_eq, areDigits.eq_zero zero]
            rfl
          exact absurd empty (Nat.div_pos large (by decide)).ne'
        · rw [Nat.toDigits_of_base_le (by decide) large, shown,
            List.map_append, List.map_singleton]

/-! ## Printing -/

/-- The capital of a digit. -/
def capital (digit : Nat) : Char :=
  (Nat.digitChar digit).toUpper

/-- A number is printed as its digits behind some zeros. -/
theorem exists_hexUpper_eq (width value : Nat) :
    ∃ digits, AreDigits value digits ∧
      hexUpper width value =
        (List.replicate (width - digits.length) 0 ++ digits).map capital := by
  obtain ⟨digits, areDigits, shown⟩ := exists_digits value
  refine ⟨digits, areDigits, ?_⟩
  rw [hexUpper, hexLower, shown, List.leftpad, List.length_map,
    List.map_append, List.map_append, List.map_replicate,
    List.map_replicate, List.map_map]
  rfl

/--
A text is a number in capitals of base sixteen, with zeros in front only as
far as the width demands.
-/
structure IsPrinted (width value : Nat) (text : Text) : Prop where
  isNumeral : IsNumeral 16 text value
  isUpper : ∀ character ∈ text, character.toUpper = character
  width_le : width ≤ text.length
  length_le : text.head? = some '0' → text.length ≤ max width 1

theorem toUpper_capital
    {digit : Nat}
    (small : digit < 16) :
    (capital digit).toUpper = capital digit := by
  have every :
      ∀ digit : Fin 16, (capital digit).toUpper = capital digit := by
    decide
  exact every ⟨digit, small⟩

theorem eq_zero_of_capital_eq
    {digit : Nat}
    (small : digit < 16)
    (zero : capital digit = '0') :
    digit = 0 := by
  have every : ∀ digit : Fin 16, capital digit = '0' → digit.val = 0 := by
    decide
  exact every ⟨digit, small⟩ zero

section Padding

variable {value : Nat} {digits : List Nat}

theorem AreDigits.padded_small
    (areDigits : AreDigits value digits)
    (count : Nat) :
    ∀ digit ∈ List.replicate count 0 ++ digits, digit < 16 := by
  intro digit member
  rcases List.mem_append.1 member with zero | inside
  · rw [List.eq_of_mem_replicate zero]
    decide
  · exact areDigits.small digit inside

/-- Zeros in front of its digits do not change a number. -/
theorem AreDigits.isNumeral_padded
    (areDigits : AreDigits value digits)
    (count : Nat) :
    IsNumeral 16 ((List.replicate count 0 ++ digits).map capital) value := by
  refine ⟨List.replicate count 0 ++ digits, ?_, ?_, ?_⟩
  · exact List.append_ne_nil_of_right_ne_nil _ areDigits.nonempty
  · rw [List.forall₂_map_right_iff, List.forall₂_same]
    exact fun digit member =>
      ⟨areDigits.padded_small count digit member, Or.inr rfl⟩
  · rw [List.reverse_append, List.reverse_replicate, Nat.ofDigits_append,
      Nat.ofDigits_replicate_zero, Nat.mul_zero, Nat.add_zero]
    exact areDigits.value_eq

/-- Only zero is written with a zero in front. -/
theorem AreDigits.length_eq_one
    (areDigits : AreDigits value digits)
    (zero : (digits.map capital).head? = some '0') :
    digits.length = 1 := by
  rw [List.head?_map] at zero
  obtain ⟨digit, first, isZero⟩ := Option.map_eq_some_iff.1 zero
  have inside := areDigits.small digit (List.mem_of_mem_head? first)
  rw [eq_zero_of_capital_eq inside isZero] at first
  rw [areDigits.eq_zero first, List.length_singleton]

end Padding

theorem isPrinted_hexUpper (width value : Nat) :
    IsPrinted width value (hexUpper width value) := by
  obtain ⟨digits, areDigits, shown⟩ := exists_hexUpper_eq width value
  have length :
      (hexUpper width value).length = max width digits.length := by
    rw [shown, List.length_map, List.length_append, List.length_replicate]
    omega
  constructor
  · rw [shown]
    exact areDigits.isNumeral_padded _
  · rw [shown]
    intro character member
    obtain ⟨digit, inside, rfl⟩ := List.mem_map.1 member
    exact toUpper_capital (areDigits.padded_small _ digit inside)
  · rw [length]
    exact Nat.le_max_left width digits.length
  · intro zero
    rw [length]
    by_cases filled : digits.length ≤ width
    · omega
    · -- Nothing was filled in, so the zero is a digit of the number itself.
      have unfilled : width - digits.length = 0 := by omega
      rw [shown, unfilled, List.replicate_zero, List.nil_append] at zero
      rw [areDigits.length_eq_one zero]

/-! ## Reading back -/

/-- A numeral has one value. -/
theorem IsNumeral.unique
    {base value other : Nat}
    {digits : Text}
    (usual : base ≤ 16)
    (isNumeral : IsNumeral base digits value)
    (again : IsNumeral base digits other) :
    value = other := by
  have nonempty := isNumeral.ne_nil
  have first :=
    (readDigits_zero_eq_ok_iff usual nonempty).2
      ⟨Nat.le_max_left value other, isNumeral⟩
  have second :=
    (readDigits_zero_eq_ok_iff usual nonempty).2
      ⟨Nat.le_max_right value other, again⟩
  cases first.symm.trans second
  rfl

/-- What is no digit does not occur in a printed number. -/
theorem IsPrinted.not_mem
    {width value : Nat}
    {text : Text}
    (isPrinted : IsPrinted width value text)
    {character : Char}
    (noDigit : digitValue? 16 character = none) :
    character ∉ text := by
  intro member
  obtain ⟨digit, isDigit⟩ := isPrinted.isNumeral.isDigit_of_mem member
  rw [(digitValue?_eq_some_iff le_rfl).2 isDigit] at noDigit
  cases noDigit

end PocketCpu.Text
