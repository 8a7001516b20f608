import Mathlib.Data.List.Forall2
import Mathlib.Data.Nat.Digits.Defs
import Mathlib.Tactic.IntervalCases
import PocketCpu.Text.Number

/-!
# Numerals

A numeral of a base is a nonempty run of its digits, and its value is the
number that these digits have in positional notation.  A text is read as a
number exactly if it is a numeral with a value up to the limit, with at most
one plus sign in front of it.
-/

namespace PocketCpu.Text

/-! ## Digits -/

/-- A character is the digit of a value in a base, in either case. -/
def IsDigit (base value : Nat) (character : Char) : Prop :=
  value < base ∧
    (character = Nat.digitChar value ∨
      character = (Nat.digitChar value).toUpper)

variable {base limit total value : Nat}

/-- Up to base sixteen the digits are the usual ones. -/
theorem digitValue?_eq_some_iff
    (usual : base ≤ 16)
    {character : Char} :
    digitValue? base character = some value ↔
      IsDigit base value character := by
  rw [digitValue?, Option.filter_eq_some_iff, decide_eq_true_iff]
  constructor
  · rintro ⟨found, below⟩
    refine ⟨below, ?_⟩
    have small : value < 16 := below.trans_le usual
    rw [← Char.ofNat_toNat character]
    split at found
    case isTrue range =>
      have lower : 48 ≤ character.toNat := range.1
      have upper : character.toNat ≤ 57 := range.2
      cases found
      generalize character.toNat = code at lower upper ⊢
      interval_cases code <;> exact Or.inl rfl
    split at found
    case isTrue range =>
      have lower : 97 ≤ character.toNat := range.1
      cases found
      have letter : character.toNat - 97 + 10 < 16 := small
      have upper : character.toNat < 97 + 6 := by omega
      generalize character.toNat = code at lower upper ⊢
      interval_cases code <;> exact Or.inl rfl
    split at found
    case isTrue range =>
      have lower : 65 ≤ character.toNat := range.1
      cases found
      have letter : character.toNat - 65 + 10 < 16 := small
      have upper : character.toNat < 65 + 6 := by omega
      generalize character.toNat = code at lower upper ⊢
      interval_cases code <;> exact Or.inr rfl
    case isFalse => cases found
  · rintro ⟨below, same⟩
    refine ⟨?_, below⟩
    have small : value < 16 := below.trans_le usual
    rcases same with rfl | rfl <;> interval_cases value <;> rfl

/-! ## Runs of digits -/

/-- Reading further digits does not make a number smaller. -/
theorem le_foldl_digits
    (positive : 0 < base)
    (values : List Nat) :
    total ≤
      values.foldl (fun total digit => base * total + digit) total := by
  induction values generalizing total with
  | nil => exact le_rfl
  | cons digit values inductionHypothesis =>
      calc
        total ≤ base * total := Nat.le_mul_of_pos_left total positive
        _ ≤ base * total + digit := Nat.le_add_right _ digit
        _ ≤ _ := inductionHypothesis

/--
Digits are read as the number that they make up, if it is within the limit.
No digit can then have carried the number past the limit, since a number only
grows.
-/
theorem readDigits_eq_ok_iff
    (usual : base ≤ 16)
    (bounded : total ≤ limit)
    {text : Text} :
    readDigits base limit total text = .ok value ↔
      value ≤ limit ∧
        ∃ values, List.Forall₂ (IsDigit base) values text ∧
          value =
            values.foldl (fun total digit => base * total + digit)
              total := by
  induction text generalizing total with
  | nil =>
      constructor
      · rintro ⟨⟩
        exact ⟨bounded, [], .nil, rfl⟩
      · rintro ⟨-, values, run, same⟩
        cases run
        exact congrArg Except.ok same.symm
  | cons character rest inductionHypothesis =>
      constructor
      · intro read
        rw [readDigits] at read
        split at read
        case h_1 => cases read
        case h_2 digit found =>
          split at read
          case isTrue fits =>
            obtain ⟨within, values, run, same⟩ :=
              (inductionHypothesis fits).1 read
            have isDigit := (digitValue?_eq_some_iff usual).1 found
            exact ⟨within, digit :: values, .cons isDigit run, same⟩
          case isFalse => cases read
      · rintro ⟨within, values, run, same⟩
        cases run with
        | @cons digit _ values _ isDigit run =>
            have found := (digitValue?_eq_some_iff usual).2 isDigit
            have positive : 0 < base := Nat.zero_lt_of_lt isDigit.1
            have fits : base * total + digit ≤ limit :=
              calc
                base * total + digit ≤ value :=
                  (le_foldl_digits positive values).trans_eq same.symm
                _ ≤ limit := within
            simp only [readDigits, found, if_pos fits]
            exact (inductionHypothesis fits).2 ⟨within, values, run, same⟩

/-! ## Numerals -/

/-- A text is a nonempty run of digits that stand for a value in a base. -/
def IsNumeral (base : Nat) (digits : Text) (value : Nat) : Prop :=
  ∃ values ≠ [],
    List.Forall₂ (IsDigit base) values digits ∧
      value = Nat.ofDigits base values.reverse

theorem foldl_eq_ofDigits (base : Nat) (values : List Nat) :
    values.foldl (fun total digit => base * total + digit) 0 =
      Nat.ofDigits base values.reverse := by
  rw [Nat.ofDigits_eq_foldr, List.foldr_reverse]
  congr 1
  funext total digit
  exact Nat.add_comm _ _

theorem IsNumeral.ne_nil {digits : Text}
    (isNumeral : IsNumeral base digits value) :
    digits ≠ [] := by
  rintro rfl
  obtain ⟨values, nonempty, run, -⟩ := isNumeral
  cases run
  exact nonempty rfl

/-- Every character of a numeral is a digit. -/
theorem IsNumeral.isDigit_of_mem
    {digits : Text}
    (isNumeral : IsNumeral base digits value)
    {character : Char}
    (member : character ∈ digits) :
    ∃ digit, IsDigit base digit character := by
  obtain ⟨values, -, run, -⟩ := isNumeral
  induction run with
  | nil => cases member
  | cons isDigit _ inductionHypothesis =>
      cases member with
      | head => exact ⟨_, isDigit⟩
      | tail _ later => exact inductionHypothesis later

/-- The signs that may stand in front of a numeral. -/
def signs : List Text :=
  [[], ['+']]

theorem readDigits_zero_eq_ok_iff
    (usual : base ≤ 16)
    {digits : Text}
    (nonempty : digits ≠ []) :
    readDigits base limit 0 digits = .ok value ↔
      value ≤ limit ∧ IsNumeral base digits value := by
  rw [readDigits_eq_ok_iff usual (Nat.zero_le limit)]
  refine and_congr_right fun _ => exists_congr fun values => ?_
  rw [foldl_eq_ofDigits]
  refine (and_iff_right_of_imp ?_).symm
  rintro ⟨run, -⟩ rfl
  cases run
  exact nonempty rfl

/-- A sign is no digit. -/
theorem not_isNumeral_plus
    (usual : base ≤ 16)
    (digits : Text) :
    ¬ IsNumeral base ('+' :: digits) value := by
  intro isNumeral
  obtain ⟨digit, isDigit⟩ := isNumeral.isDigit_of_mem List.mem_cons_self
  cases (digitValue?_eq_some_iff usual).2 isDigit

/--
A text is read as a number exactly if it is a numeral up to the limit, behind
a plus sign or not.
-/
theorem readNumber_eq_ok_iff
    (usual : base ≤ 16)
    {text : Text} :
    readNumber base limit text = .ok value ↔
      value ≤ limit ∧
        ∃ sign ∈ signs, ∃ digits,
          text = sign ++ digits ∧ IsNumeral base digits value := by
  have signed :
      (∃ sign ∈ signs, ∃ digits,
          text = sign ++ digits ∧ IsNumeral base digits value) ↔
        IsNumeral base text value ∨
          ∃ digits, text = '+' :: digits ∧ IsNumeral base digits value := by
    simp [signs]
  rw [signed]
  fun_cases readNumber base limit text with
  | case1 =>
      refine iff_of_false (fun read => nomatch read) ?_
      rintro ⟨-, isNumeral | ⟨digits, same, -⟩⟩
      · exact isNumeral.ne_nil rfl
      · cases same
  | case2 =>
      refine iff_of_false (fun read => nomatch read) ?_
      rintro ⟨-, isNumeral | ⟨digits, same, isNumeral⟩⟩
      · exact not_isNumeral_plus usual [] isNumeral
      · cases same
        exact isNumeral.ne_nil rfl
  | case3 digits nonempty =>
      rw [readDigits_zero_eq_ok_iff usual nonempty,
        or_iff_right (not_isNumeral_plus usual digits)]
      simp
  | case4 _ nonempty _ unsigned =>
      rw [readDigits_zero_eq_ok_iff usual nonempty, or_iff_left]
      rintro ⟨digits, same, -⟩
      exact unsigned digits same

end PocketCpu.Text
