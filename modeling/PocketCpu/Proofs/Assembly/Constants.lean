import PocketCpu.Assembly.Token
import PocketCpu.Proofs.Sequence
import PocketCpu.Proofs.Text.Numerals

/-!
# Constants and addresses

A constant is written as a hexadecimal byte behind `#`, and an address as one
in brackets.  Both may have any number of leading zeros, digits of either
case, and the marker `0x` or `0X` in front of the digits.  Words of this form
are read as what they write, and every other word that begins with `#` or `[`
is refused.  There is one exception: since the digits are read like any other
number, a plus sign in front of them is passed over.
-/

namespace PocketCpu.Token

variable {sign text word : Text} {byte : Byte}

/-! ## Hexadecimal bytes -/

/-- What may stand in front of the digits of a byte. -/
def markers : List Text :=
  [[], ['0', 'x'], ['0', 'X']]

/-- A text stands for a byte if its digits, behind a marker and a sign, do. -/
def Denotes (sign text : Text) (byte : Byte) : Prop :=
  ∃ marker ∈ markers, ∃ digits,
    text = marker ++ sign ++ digits ∧
      Text.IsNumeral 16 digits byte.toNat

theorem exists_marker (text : Text) :
    ∃ marker ∈ markers, text = marker ++ withoutMarker text := by
  fun_cases withoutMarker text with
  | case1 digits => exact ⟨['0', 'x'], by decide, rfl⟩
  | case2 digits => exact ⟨['0', 'X'], by decide, rfl⟩
  | case3 => exact ⟨[], by decide, rfl⟩

/-- No marker is taken from digits, signed or not. -/
theorem withoutMarker_of_isNumeral
    (known : sign ∈ Text.signs)
    {digits : Text}
    {value : Nat}
    (isNumeral : Text.IsNumeral 16 digits value) :
    withoutMarker (sign ++ digits) = sign ++ digits := by
  have unmarked
      {letter : Char}
      (noDigit : Text.digitValue? 16 letter = none)
      (rest : Text) :
      sign ++ digits ≠ '0' :: letter :: rest := by
    intro same
    rw [Text.signs, List.mem_pair] at known
    rcases known with rfl | rfl
    · rw [List.nil_append] at same
      subst same
      obtain ⟨digit, isDigit⟩ :=
        isNumeral.isDigit_of_mem
          (List.mem_cons_of_mem '0' List.mem_cons_self)
      rw [(Text.digitValue?_eq_some_iff le_rfl).2 isDigit] at noDigit
      cases noDigit
    · cases same
  rw [withoutMarker.eq_def]
  split
  case h_1 rest same => exact absurd same (unmarked rfl rest)
  case h_2 rest same => exact absurd same (unmarked rfl rest)
  case h_3 => rfl

theorem denotes_iff (known : sign ∈ Text.signs) :
    Denotes sign text byte ↔
      ∃ digits,
        withoutMarker text = sign ++ digits ∧
          Text.IsNumeral 16 digits byte.toNat := by
  constructor
  · rintro ⟨marker, member, digits, rfl, isNumeral⟩
    refine ⟨digits, ?_, isNumeral⟩
    rw [List.append_assoc]
    simp only [markers, List.mem_cons, List.not_mem_nil, or_false] at member
    rcases member with rfl | rfl | rfl
    · exact withoutMarker_of_isNumeral known isNumeral
    · rfl
    · rfl
  · rintro ⟨digits, same, isNumeral⟩
    obtain ⟨marker, member, marked⟩ := exists_marker text
    refine ⟨marker, member, digits, ?_, isNumeral⟩
    rwa [List.append_assoc, ← same]

/-- A text is not read with and without a sign. -/
theorem Denotes.not_signed
    {other : Byte}
    (plain : Denotes [] text byte) :
    ¬ Denotes ['+'] text other := by
  intro signed
  obtain ⟨digits, same, isNumeral⟩ := (denotes_iff (by decide)).1 plain
  obtain ⟨others, behind, -⟩ := (denotes_iff (by decide)).1 signed
  have begins : digits = '+' :: others := same.symm.trans behind
  rw [begins] at isNumeral
  exact Text.not_isNumeral_plus le_rfl others isNumeral

/-- Exactly the texts that stand for a byte, signed or not, are read as one. -/
theorem hexByte?_eq_some_iff :
    hexByte? text = some byte ↔
      Denotes [] text byte ∨ Denotes ['+'] text byte := by
  have small : byte.toNat ≤ 0xff := Nat.le_of_lt_succ byte.toNat_lt
  have read :
      hexByte? text = some byte ↔
        Text.readNumber 16 0xff (withoutMarker text) = .ok byte.toNat := by
    rw [hexByte?]
    cases number : Text.readNumber 16 0xff (withoutMarker text) with
    | error fault => exact iff_of_false (by simp) (by simp)
    | ok value =>
        have within := ((Text.readNumber_eq_ok_iff le_rfl).1 number).1
        rw [Option.some_inj, Except.ok.injEq]
        constructor
        · rintro rfl
          exact (Nat.mod_eq_of_lt (Nat.lt_succ_of_le within)).symm
        · rintro rfl
          exact UInt8.ofNat_toNat
  rw [read, Text.readNumber_eq_ok_iff le_rfl, and_iff_right small,
    denotes_iff (by decide), denotes_iff (by decide)]
  simp [Text.signs]

/-! ## Words -/

theorem byteOf_eq_ok_iff :
    byteOf word text = .ok byte ↔ hexByte? text = some byte := by
  rw [byteOf]
  cases hexByte? text <;> simp

theorem withoutBracket?_eq_some_iff {inner : Text} :
    withoutBracket? inner = some text ↔ inner = text ++ [']'] := by
  rw [withoutBracket?]
  constructor
  · intro closed
    split at closed
    case isTrue last =>
      cases closed
      exact (List.dropLast_append_getLast? ']' last).symm
    case isFalse => cases closed
  · rintro rfl
    rw [List.getLast?_concat, if_pos rfl, List.dropLast_concat]

/-- A constant is what is read behind `#`. -/
theorem ofWord_eq_immediate_iff :
    ofWord word = .ok (.operand (.immediate byte)) ↔
      ∃ text, word = '#' :: text ∧ hexByte? text = some byte := by
  constructor
  · intro read
    rw [ofWord.eq_def] at read
    split at read
    · obtain ⟨value, known, same⟩ := bind_eq_ok_iff.1 read
      cases same
      exact ⟨_, rfl, byteOf_eq_ok_iff.1 known⟩
    · split at read
      · cases read
      · obtain ⟨value, -, same⟩ := bind_eq_ok_iff.1 read
        cases same
    · split at read <;> cases read
  · rintro ⟨text, rfl, known⟩
    rw [ofWord, byteOf_eq_ok_iff.2 known]
    rfl

/-- An address is what is read inside brackets. -/
theorem ofWord_eq_memory_iff :
    ofWord word = .ok (.operand (.memory byte)) ↔
      ∃ text,
        word = '[' :: (text ++ [']']) ∧ hexByte? text = some byte := by
  constructor
  · intro read
    rw [ofWord.eq_def] at read
    split at read
    · obtain ⟨value, -, same⟩ := bind_eq_ok_iff.1 read
      cases same
    · split at read
      case h_1 => cases read
      case h_2 closed =>
        obtain ⟨value, known, same⟩ := bind_eq_ok_iff.1 read
        cases same
        rw [withoutBracket?_eq_some_iff.1 closed]
        exact ⟨_, rfl, byteOf_eq_ok_iff.1 known⟩
    · split at read <;> cases read
  · rintro ⟨text, rfl, known⟩
    have closed := withoutBracket?_eq_some_iff.2 (rfl : text ++ [']'] = _)
    simp only [ofWord, closed, byteOf_eq_ok_iff.2 known]
    rfl

/-- A word begins like a constant or like an address. -/
def BeginsConstant (word : Text) : Prop :=
  word.head? = some '#' ∨ word.head? = some '['

/-- A word that begins like a constant or an address is one, or is refused. -/
theorem ofWord_of_beginsConstant
    (begins : BeginsConstant word) :
    (∃ byte, ofWord word = .ok (.operand (.immediate byte))) ∨
      (∃ byte, ofWord word = .ok (.operand (.memory byte))) ∨
      ∃ cause,
        ofWord word = .error cause ∧ cause.complaint = .invalidOperand := by
  cases word with
  | nil => rcases begins with first | first <;> cases first
  | cons character rest =>
      rcases begins with first | first
      · cases first
        rw [ofWord, byteOf]
        cases hexByte? rest with
        | some byte => exact Or.inl ⟨byte, rfl⟩
        | none => exact Or.inr (Or.inr ⟨_, rfl, rfl⟩)
      · cases first
        rw [ofWord]
        cases withoutBracket? rest with
        | none => exact Or.inr (Or.inr ⟨_, rfl, rfl⟩)
        | some text =>
            simp only [byteOf]
            cases hexByte? text with
            | some byte => exact Or.inr (Or.inl ⟨byte, rfl⟩)
            | none => exact Or.inr (Or.inr ⟨_, rfl, rfl⟩)

/-! ## The grammar -/

/-- A word is the text of a constant or of an address. -/
def Encloses (word text : Text) : Prop :=
  word = '#' :: text ∨ word = '[' :: (text ++ [']'])

/-- A word is read as the grammar of constants and addresses says. -/
structure FollowsGrammar (word : Text) : Prop where
  immediate (byte : Byte) :
    ofWord word = .ok (.operand (.immediate byte)) ↔
      ∃ text, word = '#' :: text ∧ Denotes [] text byte
  memory (byte : Byte) :
    ofWord word = .ok (.operand (.memory byte)) ↔
      ∃ text, word = '[' :: (text ++ [']']) ∧ Denotes [] text byte
  refused :
    BeginsConstant word →
      (∀ text byte, Encloses word text → ¬ Denotes [] text byte) →
        ∃ cause,
          ofWord word = .error cause ∧ cause.complaint = .invalidOperand

/-- A word is a constant or an address with a sign in front of its digits. -/
def IsSigned (word : Text) : Prop :=
  ∃ text byte, Encloses word text ∧ Denotes ['+'] text byte

/-- The grammar is followed by all words but those with a sign. -/
theorem followsGrammar_iff (word : Text) :
    FollowsGrammar word ↔ ¬ IsSigned word := by
  constructor
  · rintro follows ⟨text, byte, encloses, signed⟩
    have known := hexByte?_eq_some_iff.2 (Or.inr signed)
    rcases encloses with rfl | rfl
    · have read := ofWord_eq_immediate_iff.2 ⟨text, rfl, known⟩
      obtain ⟨inner, same, plain⟩ := (follows.immediate byte).1 read
      cases same
      exact plain.not_signed signed
    · have read := ofWord_eq_memory_iff.2 ⟨text, rfl, known⟩
      obtain ⟨inner, same, plain⟩ := (follows.memory byte).1 read
      cases List.append_cancel_right (List.cons.inj same).2
      exact plain.not_signed signed
  · intro unsigned
    have plain
        {text : Text}
        {byte : Byte}
        (encloses : Encloses word text) :
        hexByte? text = some byte ↔ Denotes [] text byte := by
      rw [hexByte?_eq_some_iff, or_iff_left]
      exact fun signed => unsigned ⟨text, byte, encloses, signed⟩
    refine ⟨fun byte => ?_, fun byte => ?_, fun begins others => ?_⟩
    · rw [ofWord_eq_immediate_iff]
      exact exists_congr fun text =>
        and_congr_right fun same => plain (Or.inl same)
    · rw [ofWord_eq_memory_iff]
      exact exists_congr fun text =>
        and_congr_right fun same => plain (Or.inr same)
    · rcases ofWord_of_beginsConstant begins with
        ⟨byte, read⟩ | ⟨byte, read⟩ | refused
      · obtain ⟨text, same, known⟩ := ofWord_eq_immediate_iff.1 read
        have denotes := (plain (Or.inl same)).1 known
        exact absurd denotes (others text byte (Or.inl same))
      · obtain ⟨text, same, known⟩ := ofWord_eq_memory_iff.1 read
        have denotes := (plain (Or.inr same)).1 known
        exact absurd denotes (others text byte (Or.inr same))
      · exact refused

/-- A plus sign in front of the digits of a constant is passed over. -/
theorem not_followsGrammar_signed :
    ofWord "#+F".toList = .ok (.operand (.immediate 0x0f)) ∧
      ¬ FollowsGrammar "#+F".toList := by
  refine ⟨rfl, fun follows => ?_⟩
  obtain ⟨text, same, plain⟩ := (follows.immediate 0x0f).1 rfl
  cases same
  obtain ⟨digits, same, isNumeral⟩ := (denotes_iff (by decide)).1 plain
  cases same
  exact Text.not_isNumeral_plus le_rfl ['F'] isNumeral

end PocketCpu.Token
