import Mathlib.Data.List.Basic
import Mathlib.Data.List.TakeWhile
import PocketCpu.Text.Basic

/-!
# Spelling words

A text that spells words, with commas and spaces between them, is cut into
these words again.  It is free of blank ends, and if its words hold none of
the characters that begin a comment, end a label or end a line, then neither
does the text.
-/

namespace PocketCpu.Text

/-! ## Cutting words -/

section Words

variable {word rest : Text} {character : Char}

theorem words_cons_of_isSeparator
    (separates : isSeparator character = true)
    (rest : Text) :
    words (character :: rest) = rest.words := by
  have cut :=
    List.splitOnP_append_cons [] rest (p := isSeparator) separates
  rw [List.nil_append, List.splitOnP_nil] at cut
  rw [words, cut]
  rfl

variable (nonempty : word ≠ [])
variable (whole : ∀ character ∈ word, isSeparator character = false)

include nonempty whole

theorem words_of_not_isSeparator : words word = [word] := by
  have kept : (!word.isEmpty) = true := by simpa using nonempty
  rw [words, List.splitOnP_eq_singleton whole]
  exact List.filter_cons_of_pos kept

/-- A separator ends a word. -/
theorem words_append_cons
    (separates : isSeparator character = true) :
    words (word ++ character :: rest) = word :: rest.words := by
  have kept : (!word.isEmpty) = true := by simpa using nonempty
  rw [words,
    List.splitOnP_append_cons_of_forall_mem whole character separates]
  exact List.filter_cons_of_pos kept

end Words

/-! ## Whole lines -/

section Lines

variable {text : Text}

theorem before_eq_self
    (mark : Char)
    (absent : ∀ character ∈ text, character ≠ mark) :
    text.before mark = text :=
  List.takeWhile_eq_self_iff.2 fun character member =>
    bne_iff_ne.2 (absent character member)

theorem dropWhile_isBlank_eq_self
    (first : ∀ character ∈ text.head?, isBlank character = false) :
    text.dropWhile isBlank = text := by
  cases text with
  | nil => rfl
  | cons character rest =>
      exact List.dropWhile_cons_of_neg
        (Bool.eq_false_iff.1 (first character rfl))

/-- A text without blanks at its ends is not trimmed. -/
theorem trim_eq_self
    (first : ∀ character ∈ text.head?, isBlank character = false)
    (last : ∀ character ∈ text.getLast?, isBlank character = false) :
    text.trim = text := by
  rw [← List.head?_reverse] at last
  rw [trim, dropWhile_isBlank_eq_self first,
    dropWhile_isBlank_eq_self last, List.reverse_reverse]

end Lines

/-! ## Spelled words -/

/-- A text is one word, and has no other meaning on a line. -/
structure IsWord (word : Text) : Prop where
  nonempty : word ≠ []
  plain :
    ∀ character ∈ word,
      isSeparator character = false ∧ character ≠ ';' ∧ character ≠ ':'

instance (word : Text) : Decidable word.IsWord :=
  decidable_of_iff
    (word ≠ [] ∧
      word.all (fun character =>
        !isSeparator character && character != ';' && character != ':'))
    (by
      rw [List.all_eq_true]
      simp only [Bool.and_eq_true, Bool.not_eq_true', bne_iff_ne, and_assoc]
      exact ⟨fun holds => ⟨holds.1, holds.2⟩,
        fun isWord => ⟨isWord.1, isWord.2⟩⟩)

theorem IsWord.append
    {left right : Text}
    (isLeft : left.IsWord)
    (isRight : right.IsWord) :
    IsWord (left ++ right) where
  nonempty := List.append_ne_nil_of_left_ne_nil isLeft.nonempty right
  plain character member := by
    rcases List.mem_append.1 member with inLeft | inRight
    · exact isLeft.plain character inLeft
    · exact isRight.plain character inRight

/-- What stands between two words: a space, and a comma in front if need be. -/
def IsGap (gap : Text) : Prop :=
  gap = [' '] ∨ gap = [',', ' ']

/-- A text consists of words with gaps between them. -/
inductive Spells : Text → List Text → Prop where
  | single
      {word : Text}
      (isWord : word.IsWord) :
      Spells word [word]
  | cons
      {word gap text : Text}
      {words : List Text}
      (isWord : word.IsWord)
      (isGap : gap.IsGap)
      (spells : Spells text words) :
      Spells (word ++ gap ++ text) (word :: words)

variable {word gap text : Text} {words : List Text}

theorem IsWord.isBlank_eq_false
    (isWord : word.IsWord)
    {character : Char}
    (member : character ∈ word) :
    isBlank character = false := by
  have whole := (isWord.plain character member).1
  rw [isSeparator, Bool.or_eq_false_iff] at whole
  exact whole.2

/-- A text is cut into the words that it spells. -/
theorem Spells.words_eq (spells : text.Spells words) :
    text.words = words := by
  induction spells with
  | single isWord =>
      exact words_of_not_isSeparator isWord.nonempty
        fun character member => (isWord.plain character member).1
  | cons isWord isGap _ inductionHypothesis =>
      have whole :=
        fun character member => (isWord.plain character member).1
      rcases isGap with rfl | rfl
      · rw [List.append_assoc]
        rw [List.cons_append, List.nil_append,
          words_append_cons isWord.nonempty whole (by decide),
          inductionHypothesis]
      · rw [List.append_assoc]
        rw [List.cons_append, List.cons_append, List.nil_append,
          words_append_cons isWord.nonempty whole (by decide),
          words_cons_of_isSeparator (by decide), inductionHypothesis]

theorem Spells.nonempty (spells : text.Spells words) : text ≠ [] := by
  cases spells with
  | single isWord => exact isWord.nonempty
  | cons isWord _ _ =>
      rw [List.append_assoc]
      exact List.append_ne_nil_of_left_ne_nil isWord.nonempty _

/-- No character of a spelled text has another meaning. -/
theorem Spells.plain
    (spells : text.Spells words)
    {character : Char}
    (member : character ∈ text) :
    character ≠ ';' ∧ character ≠ ':' ∧ character ≠ '\n' := by
  have ofWord {word : Text} (isWord : word.IsWord)
      (inside : character ∈ word) :
      character ≠ ';' ∧ character ≠ ':' ∧ character ≠ '\n' := by
    obtain ⟨-, noComment, noLabel⟩ := isWord.plain character inside
    refine ⟨noComment, noLabel, ?_⟩
    rintro rfl
    have visible := isWord.isBlank_eq_false inside
    revert visible
    decide
  induction spells with
  | single isWord => exact ofWord isWord member
  | cons isWord isGap _ inductionHypothesis =>
      rcases List.mem_append.1 member with inFront | later
      · rcases List.mem_append.1 inFront with inWord | inGap
        · exact ofWord isWord inWord
        · have known : character = ' ' ∨ character = ',' := by
            rcases isGap with rfl | rfl
            · exact Or.inl (List.mem_singleton.1 inGap)
            · simpa [or_comm] using inGap
          rcases known with rfl | rfl <;> decide
      · exact inductionHypothesis later

theorem Spells.isBlank_head?
    (spells : text.Spells words) :
    ∀ character ∈ text.head?, isBlank character = false := by
  have ofWord {word : Text} (isWord : word.IsWord) (rest : Text) :
      ∀ character ∈ (word ++ rest).head?, isBlank character = false := by
    intro character first
    rw [List.head?_append_of_ne_nil word isWord.nonempty] at first
    exact isWord.isBlank_eq_false (List.mem_of_mem_head? first)
  cases spells with
  | single isWord =>
      have single := ofWord isWord []
      rwa [List.append_nil] at single
  | cons isWord _ _ =>
      rw [List.append_assoc]
      exact ofWord isWord _

theorem Spells.isBlank_getLast?
    (spells : text.Spells words) :
    ∀ character ∈ text.getLast?, isBlank character = false := by
  induction spells with
  | single isWord =>
      exact fun character last =>
        isWord.isBlank_eq_false (List.mem_of_getLast? last)
  | cons _ _ spells inductionHypothesis =>
      rw [List.getLast?_append_of_ne_nil _ spells.nonempty]
      exact inductionHypothesis

theorem Spells.trim_eq (spells : text.Spells words) :
    text.trim = text :=
  trim_eq_self spells.isBlank_head? spells.isBlank_getLast?

end PocketCpu.Text
