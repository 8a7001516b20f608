import Mathlib.Data.List.Basic
import PocketCpu.Proofs.Text.Spelling
import PocketCpu.Proofs.Text.Trimming

/-!
# Pieces of composed texts

A line feed in a text parts its lines, and a separator parts its words, so
that the pieces of the whole are those of the two parts.  Separators at the
ends of a text belong to no word, and neither does what trimming drops.
-/

namespace PocketCpu.Text

/-! ## In front of a mark -/

section Before

variable {mark : Char} {left : Text}

theorem before_append_of_mem
    (member : mark ∈ left)
    (right : Text) :
    (left ++ right).before mark = left.before mark := by
  obtain ⟨front, back, rfl, absent⟩ := List.eq_append_cons_of_mem member
  rw [List.append_assoc, List.cons_append, before_append_cons absent,
    before_append_cons absent]

theorem before_append_of_not_mem
    (absent : mark ∉ left)
    (right : Text) :
    (left ++ right).before mark = left ++ right.before mark :=
  List.takeWhile_append_of_pos fun _ member =>
    bne_iff_ne.2 fun same => absent (same ▸ member)

end Before

/-! ## Lines -/

theorem lines_append_cons (left right : Text) :
    lines (left ++ '\n' :: right) = left.lines ++ right.lines := by
  simp only [lines, List.splitOn_eq_splitOnP]
  exact List.splitOnP_append_cons left right (beq_self_eq_true '\n')

theorem lines_cons (character : Char) (text : Text) :
    lines (character :: text) =
      if character = '\n' then [] :: text.lines
      else text.lines.modifyHead (List.cons character) := by
  simp only [lines, List.splitOn_eq_splitOnP,
    List.splitOnP_cons_eq_if_modifyHead, beq_iff_eq]

/-- A text with a carriage return in front of every line feed. -/
def withReturns (text : Text) : Text :=
  text.flatMap fun character =>
    if character = '\n' then ['\r', '\n'] else [character]

/-- At most, a line has got a carriage return at its end. -/
theorem lines_withReturns (text : Text) :
    List.Forall₂ (fun raw other => other = raw ∨ other = raw ++ ['\r'])
      text.lines text.withReturns.lines := by
  induction text with
  | nil => exact .cons (Or.inl rfl) .nil
  | cons character rest inductionHypothesis =>
      rw [withReturns, List.flatMap_cons, ← withReturns, lines_cons]
      by_cases feed : character = '\n'
      · rw [if_pos feed, if_pos feed]
        exact .cons (Or.inr rfl) inductionHypothesis
      · rw [if_neg feed, if_neg feed, List.singleton_append, lines_cons,
          if_neg feed]
        -- The character joins the first line, on both sides the same.
        generalize lines rest = lines, lines (withReturns rest) = others
          at inductionHypothesis ⊢
        cases inductionHypothesis with
        | nil => exact .nil
        | cons first later =>
            refine .cons ?_ later
            rcases first with rfl | rfl
            · exact Or.inl rfl
            · exact Or.inr rfl

/-! ## Words -/

section Words

variable {gap left right : Text}

theorem isSeparator_of_isBlank
    {character : Char}
    (blank : isBlank character = true) :
    isSeparator character = true := by
  rw [isSeparator, blank, Bool.or_true]

/-- A separator parts the words on its two sides. -/
theorem words_append_separator
    {character : Char}
    (separates : isSeparator character = true)
    (left right : Text) :
    words (left ++ character :: right) = left.words ++ right.words := by
  rw [words, List.splitOnP_append_cons left right separates,
    List.filter_append, words, words]

theorem words_append_left
    (separate : ∀ character ∈ gap, isSeparator character = true)
    (text : Text) :
    words (gap ++ text) = text.words := by
  induction gap with
  | nil => rfl
  | cons character rest inductionHypothesis =>
      rw [List.cons_append,
        words_cons_of_isSeparator (separate _ List.mem_cons_self)]
      exact inductionHypothesis fun _ member =>
        separate _ (List.mem_cons_of_mem _ member)

/-- A gap parts the words on its two sides, whatever it consists of. -/
theorem words_append_gap
    (separate : ∀ character ∈ gap, isSeparator character = true)
    (nonempty : gap ≠ [])
    (left right : Text) :
    words (left ++ (gap ++ right)) = left.words ++ right.words := by
  obtain ⟨character, rest, rfl⟩ := List.exists_cons_of_ne_nil nonempty
  rw [List.cons_append,
    words_append_separator (separate _ List.mem_cons_self),
    words_append_left fun _ member =>
      separate _ (List.mem_cons_of_mem _ member)]

theorem words_append_right
    (separate : ∀ character ∈ gap, isSeparator character = true)
    (text : Text) :
    words (text ++ gap) = text.words := by
  by_cases empty : gap = []
  · rw [empty, List.append_nil]
  · have parted := words_append_gap separate empty text []
    rw [List.append_nil] at parted
    rw [parted]
    exact List.append_nil _

theorem words_trim (text : Text) : text.trim.words = text.words := by
  obtain ⟨front, back, inFront, inBack, parts⟩ :=
    text.exists_eq_append_trim
  conv_rhs => rw [parts]
  rw [words_append_left fun _ member =>
      isSeparator_of_isBlank (inFront _ member),
    words_append_right fun _ member =>
      isSeparator_of_isBlank (inBack _ member)]

end Words

end PocketCpu.Text
