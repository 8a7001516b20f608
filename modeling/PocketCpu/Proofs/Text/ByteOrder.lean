import Mathlib.Algebra.Group.Nat.Defs
import Mathlib.Data.Char
import Mathlib.Data.List.Lex
import PocketCpu.Register.Basic

/-!
# Text in the order of its bytes

In UTF-8 the number of a character is written to the base of sixty-four, one
digit a byte, and a mark on the first digit tells how many follow.  A larger
number never has a smaller first byte, so of two different characters the
smaller one has the smaller byte where their bytes part, and neither ends
before that.  Comparing text byte by byte is therefore the same as comparing
it character by character.
-/

namespace PocketCpu

namespace Text

/-- The bytes of a text in UTF-8. -/
def utf8 (text : Text) : List Byte :=
  text.flatMap String.utf8EncodeChar

@[simp]
theorem utf8_cons (character : Char) (rest : Text) :
    utf8 (character :: rest) = String.utf8EncodeChar character ++ rest.utf8 :=
  List.flatMap_cons

end Text

/-! ## Where bytes part -/

namespace Utf8

/-- Two sequences of bytes part at a byte that both have. -/
def Undercuts (left right : List Byte) : Prop :=
  ∃ shared lower leftRest higher rightRest,
    left = shared ++ lower :: leftRest ∧
      right = shared ++ higher :: rightRest ∧ lower < higher

namespace Undercuts

variable {left right : List Byte}

theorem of_lt
    {lower higher : Nat}
    (less : lower < higher)
    (small : higher < 256)
    (leftRest rightRest : List Byte) :
    Undercuts (UInt8.ofNat lower :: leftRest)
      (UInt8.ofNat higher :: rightRest) :=
  ⟨[], _, leftRest, _, rightRest, rfl, rfl,
    (UInt8.ofNat_lt_iff_lt (less.trans small) small).2 less⟩

theorem append_left
    (undercuts : Undercuts left right)
    (front : List Byte) :
    Undercuts (front ++ left) (front ++ right) := by
  obtain ⟨shared, lower, leftRest, higher, rightRest, rfl, rfl, less⟩ :=
    undercuts
  exact ⟨front ++ shared, lower, leftRest, higher, rightRest,
    (List.append_assoc ..).symm, (List.append_assoc ..).symm, less⟩

/-- What follows the place where the bytes part does not matter. -/
theorem append_right
    (undercuts : Undercuts left right)
    (leftMore rightMore : List Byte) :
    Undercuts (left ++ leftMore) (right ++ rightMore) := by
  obtain ⟨shared, lower, leftRest, higher, rightRest, rfl, rfl, less⟩ :=
    undercuts
  exact ⟨shared, lower, leftRest ++ leftMore, higher, rightRest ++ rightMore,
    List.append_assoc .., List.append_assoc .., less⟩

theorem lt (undercuts : Undercuts left right) : left < right := by
  obtain ⟨shared, lower, leftRest, higher, rightRest, rfl, rfl, less⟩ :=
    undercuts
  exact List.append_left_lt (List.Lex.rel less)

end Undercuts

/-! ## Characters -/

/-- A number as a marked first digit and several digits to the base 64. -/
def markedDigits (mark : Nat) : Nat → Nat → List Byte
  | 0, number => [UInt8.ofNat (mark + number)]
  | count + 1, number =>
    markedDigits mark count (number / 64) ++ [UInt8.ofNat (128 + number % 64)]

theorem div_div_pow (number count : Nat) :
    number / 64 / 64 ^ count = number / 64 ^ (count + 1) := by
  rw [Nat.div_div_eq_div_mul, Nat.pow_succ']

/-- The first byte holds what the digits behind it do not. -/
theorem exists_markedDigits_eq_cons (mark count number : Nat) :
    ∃ rest,
      markedDigits mark count number =
        UInt8.ofNat (mark + number / 64 ^ count) :: rest := by
  induction count generalizing number with
  | zero => exact ⟨[], by simp [markedDigits]⟩
  | succ count inductionHypothesis =>
      obtain ⟨rest, equal⟩ := inductionHypothesis (number / 64)
      rw [markedDigits, equal, div_div_pow, List.cons_append]
      exact ⟨_, rfl⟩

/-- A smaller number has the smaller digit where the digits part. -/
theorem undercuts_markedDigits
    {mark count lower higher : Nat}
    (less : lower < higher)
    (small : mark + higher / 64 ^ count < 256) :
    Undercuts (markedDigits mark count lower)
      (markedDigits mark count higher) := by
  induction count generalizing lower higher with
  | zero =>
      rw [Nat.pow_zero, Nat.div_one] at small
      exact .of_lt (Nat.add_lt_add_left less mark) small _ _
  | succ count inductionHypothesis =>
      rw [markedDigits, markedDigits]
      by_cases same : lower / 64 = higher / 64
      · -- All digits but the last one agree.
        rw [same]
        have last : 128 + lower % 64 < 128 + higher % 64 := by omega
        have lastSmall : 128 + higher % 64 < 256 := by omega
        exact (Undercuts.of_lt last lastSmall _ _).append_left _
      · have earlier : lower / 64 < higher / 64 := by omega
        rw [← div_div_pow] at small
        exact (inductionHypothesis earlier small).append_right _ _

/--
The first byte of a number in UTF-8 has a mark and is followed by a count of
bytes.
-/
inductive IsMarked : Nat → Nat → Nat → Prop where
  | one {number : Nat} : number < 0x80 → IsMarked 0 0 number
  | two {number : Nat} :
      0x80 ≤ number → number < 0x800 → IsMarked 0xc0 1 number
  | three {number : Nat} :
      0x800 ≤ number → number < 0x10000 → IsMarked 0xe0 2 number
  | four {number : Nat} :
      0x10000 ≤ number → number < 0x110000 → IsMarked 0xf0 3 number

namespace IsMarked

variable {mark count number otherMark otherCount other : Nat}

theorem first_lt
    (isMarked : IsMarked mark count number) :
    mark + number / 64 ^ count < 256 := by
  cases isMarked <;> omega

/-- A larger number that is written longer has the larger first byte. -/
theorem same_or_first_lt
    (isMarked : IsMarked mark count number)
    (otherMarked : IsMarked otherMark otherCount other)
    (less : number < other) :
    mark = otherMark ∧ count = otherCount ∨
      mark + number / 64 ^ count < otherMark + other / 64 ^ otherCount := by
  -- First bytes with different marks lie in ranges that do not meet.
  cases isMarked <;> cases otherMarked <;> omega

theorem undercuts
    (isMarked : IsMarked mark count number)
    (otherMarked : IsMarked otherMark otherCount other)
    (less : number < other) :
    Undercuts (markedDigits mark count number)
      (markedDigits otherMark otherCount other) := by
  rcases isMarked.same_or_first_lt otherMarked less with
    ⟨rfl, rfl⟩ | firstLess
  · exact undercuts_markedDigits less otherMarked.first_lt
  · obtain ⟨rest, equal⟩ := exists_markedDigits_eq_cons mark count number
    obtain ⟨otherRest, otherEqual⟩ :=
      exists_markedDigits_eq_cons otherMark otherCount other
    rw [equal, otherEqual]
    exact .of_lt firstLess otherMarked.first_lt _ _

/-- The bytes of a character are the marked digits of its number. -/
theorem utf8EncodeChar_eq
    {character : Char}
    (isMarked : IsMarked mark count character.toNat) :
    String.utf8EncodeChar character =
      markedDigits mark count character.toNat := by
  have number : character.val.toNat = character.toNat := rfl
  rw [String.utf8EncodeChar, number]
  generalize character.toNat = value at isMarked
  -- In its range a number has no more digits than the encoding keeps.
  cases isMarked with
  | one small =>
      rw [if_pos (Nat.le_of_lt_succ small), markedDigits, Nat.zero_add]
  | two large small =>
      have first : value / 64 % 0x20 = value / 64 := by omega
      rw [if_neg (Nat.not_le_of_gt large), if_pos (Nat.le_of_lt_succ small),
        first, Nat.add_comm (value / 64), Nat.add_comm (value % 64)]
      rfl
  | three large small =>
      have first : value / 4096 % 0x10 = value / 64 / 64 := by omega
      have above : ¬ value ≤ 0x7f := by omega
      rw [if_neg above, if_neg (Nat.not_le_of_gt large),
        if_pos (Nat.le_of_lt_succ small), first,
        Nat.add_comm (value / 64 / 64), Nat.add_comm (value / 64 % 64),
        Nat.add_comm (value % 64)]
      rfl
  | four large small =>
      have first : value / 262144 % 0x08 = value / 64 / 64 / 64 := by omega
      have second : value / 4096 % 0x40 = value / 64 / 64 % 64 := by omega
      have above : ¬ value ≤ 0x7f := by omega
      have higher : ¬ value ≤ 0x7ff := by omega
      rw [if_neg above, if_neg higher, if_neg (Nat.not_le_of_gt large),
        first, second, Nat.add_comm (value / 64 / 64 / 64),
        Nat.add_comm (value / 64 / 64 % 64), Nat.add_comm (value / 64 % 64),
        Nat.add_comm (value % 64)]
      rfl

end IsMarked

/-- Every character has a number that can be written in four bytes. -/
theorem exists_isMarked (character : Char) :
    ∃ mark count, IsMarked mark count character.toNat := by
  have bound : character.toNat < 0x110000 := by
    have valid : character.toNat.isValidChar := character.valid
    grind
  rcases Nat.lt_or_ge character.toNat 0x80 with one | one
  · exact ⟨_, _, .one one⟩
  rcases Nat.lt_or_ge character.toNat 0x800 with two | two
  · exact ⟨_, _, .two one two⟩
  rcases Nat.lt_or_ge character.toNat 0x10000 with three | three
  · exact ⟨_, _, .three two three⟩
  · exact ⟨_, _, .four three bound⟩

theorem undercuts_utf8EncodeChar
    {lower higher : Char}
    (less : lower < higher) :
    Undercuts (String.utf8EncodeChar lower)
      (String.utf8EncodeChar higher) := by
  obtain ⟨_, _, isMarked⟩ := exists_isMarked lower
  obtain ⟨_, _, otherMarked⟩ := exists_isMarked higher
  rw [isMarked.utf8EncodeChar_eq, otherMarked.utf8EncodeChar_eq]
  exact isMarked.undercuts otherMarked less

end Utf8

/-! ## Texts -/

namespace Text

variable {left right : Text}

theorem utf8_lt_utf8 (less : left < right) : left.utf8 < right.utf8 := by
  induction less with
  | @nil character rest =>
      obtain ⟨first, more, bytes⟩ :=
        List.exists_cons_of_ne_nil
          (@String.utf8EncodeChar_ne_nil character)
      rw [utf8_cons, bytes]
      exact List.Lex.nil
  | cons less inductionHypothesis =>
      rw [utf8_cons, utf8_cons]
      exact List.append_left_lt inductionHypothesis
  | rel less =>
      rw [utf8_cons, utf8_cons]
      exact ((Utf8.undercuts_utf8EncodeChar less).append_right _ _).lt

/-- Texts stand in the order of their bytes. -/
theorem utf8_lt_utf8_iff : left.utf8 < right.utf8 ↔ left < right := by
  constructor
  · intro less
    rcases lt_trichotomy left right with smaller | rfl | larger
    · exact smaller
    · exact absurd less (List.lt_irrefl _)
    · exact absurd less (List.lt_asymm (utf8_lt_utf8 larger))
  · exact utf8_lt_utf8

end Text

end PocketCpu
