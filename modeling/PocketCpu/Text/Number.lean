import PocketCpu.Text.Basic

/-!
# Reading numbers

A written number is a nonempty run of digits, with at most one plus sign in
front of it.  It is read from the left and refused at the first character
that is no digit or that carries the number past a limit, whichever comes
first.
-/

namespace PocketCpu.Text

/-- Why a text is not a number. -/
inductive NumberFault where
  | empty
  | badDigit
  | tooLarge
deriving DecidableEq, Repr

/-- The wording of a fault in a number. -/
def NumberFault.message : NumberFault → String
  | .empty => "cannot parse integer from empty string"
  | .badDigit => "invalid digit found in string"
  | .tooLarge => "number too large to fit in target type"

/-- The value of a digit of a base up to thirty-six, in either case. -/
def digitValue? (base : Nat) (character : Char) : Option Nat :=
  let value? :=
    if '0' ≤ character ∧ character ≤ '9' then
      some (character.toNat - '0'.toNat)
    else if 'a' ≤ character ∧ character ≤ 'z' then
      some (character.toNat - 'a'.toNat + 10)
    else if 'A' ≤ character ∧ character ≤ 'Z' then
      some (character.toNat - 'A'.toNat + 10)
    else
      none
  value?.filter (· < base)

/-- Read digits behind those that made up `total`. -/
def readDigits (base limit : Nat) : Nat → Text → Except NumberFault Nat
  | total, [] => .ok total
  | total, character :: rest =>
    match digitValue? base character with
    | none => .error .badDigit
    | some digit =>
      if base * total + digit ≤ limit then
        readDigits base limit (base * total + digit) rest
      else
        .error .tooLarge

/-- Read a number of at most `limit`, allowing one plus sign before digits. -/
def readNumber (base limit : Nat) (text : Text) : Except NumberFault Nat :=
  match text with
  | [] => .error .empty
  | '+' :: [] => .error .badDigit
  | '+' :: digits => readDigits base limit 0 digits
  | digits => readDigits base limit 0 digits

/-- No number above the limit is read. -/
theorem readDigits_le
    {base limit total value : Nat}
    {text : Text}
    (bounded : total ≤ limit)
    (read : readDigits base limit total text = .ok value) :
    value ≤ limit := by
  induction text generalizing total with
  | nil =>
      cases read
      exact bounded
  | cons character rest inductionHypothesis =>
      rw [readDigits] at read
      split at read
      · cases read
      · split at read
        case isTrue fits => exact inductionHypothesis fits read
        case isFalse => cases read

end PocketCpu.Text
