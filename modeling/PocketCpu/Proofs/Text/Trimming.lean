import Mathlib.Data.List.Basic
import Mathlib.Data.List.TakeWhile
import PocketCpu.Text.Basic

/-!
# Trimming and cutting

A text is trimmed by dropping blanks from its ends and cut at the first
occurrence of a mark.  A mark that is not blank is not lost by trimming, so
that it does not matter which of the two is done first: the two pieces are
the same once they are trimmed themselves.
-/

namespace PocketCpu.Text

/-! ## Cutting -/

section Cutting

variable {mark : Char} {left right : Text}

theorem before_append_cons
    (absent : mark ∉ left)
    (right : Text) :
    (left ++ mark :: right).before mark = left := by
  have kept : ∀ character ∈ left, (character != mark) = true := by
    rintro character member
    exact bne_iff_ne.2 fun same => absent (same ▸ member)
  rw [before, List.takeWhile_append_of_pos kept,
    List.takeWhile_cons_of_neg (by simp), List.append_nil]

theorem after?_append_cons
    (absent : mark ∉ left)
    (right : Text) :
    (left ++ mark :: right).after? mark = some right := by
  have dropped : ∀ character ∈ left, (character != mark) = true := by
    rintro character member
    exact bne_iff_ne.2 fun same => absent (same ▸ member)
  rw [after?, List.dropWhile_append_of_pos dropped,
    List.dropWhile_cons_of_neg (by simp)]

end Cutting

/-! ## Trimming -/

section Trimming

variable {text front back : Text}

theorem trim_append_left
    (blank : ∀ character ∈ front, isBlank character = true)
    (text : Text) :
    trim (front ++ text) = text.trim := by
  rw [trim, List.dropWhile_append_of_pos blank, trim]

theorem trim_append_right
    (blank : ∀ character ∈ back, isBlank character = true)
    (text : Text) :
    trim (text ++ back) = text.trim := by
  have reversed :
      ∀ character ∈ back.reverse, isBlank character = true :=
    fun character member => blank character (List.mem_reverse.1 member)
  rw [trim, trim, List.dropWhile_append]
  split
  · next empty =>
      rw [List.isEmpty_iff.1 empty, List.dropWhile_eq_nil_iff.2 blank]
  · rw [List.reverse_append, List.dropWhile_append_of_pos reversed]

/-- A text is its trimmed part with blanks around it. -/
theorem exists_eq_append_trim (text : Text) :
    ∃ front back : Text,
      (∀ character ∈ front, isBlank character = true) ∧
        (∀ character ∈ back, isBlank character = true) ∧
        text = front ++ (text.trim ++ back) := by
  let rest := text.dropWhile isBlank
  refine ⟨text.takeWhile isBlank,
    (rest.reverse.takeWhile isBlank).reverse,
    fun _ => List.mem_takeWhile_imp, ?_, ?_⟩
  · intro character member
    exact List.mem_takeWhile_imp (List.mem_reverse.1 member)
  · rw [trim, ← List.reverse_append, List.takeWhile_append_dropWhile,
      List.reverse_reverse, List.takeWhile_append_dropWhile]

variable {mark : Char}

/-- A character of another class does not occur. -/
theorem not_mem_of_forall
    {holds : Char → Bool}
    (other : holds mark = false)
    (all : ∀ character ∈ text, holds character = true) :
    mark ∉ text := by
  intro member
  have same := all mark member
  rw [other] at same
  cases same

theorem mem_trim_iff
    (visible : isBlank mark = false) :
    mark ∈ text.trim ↔ mark ∈ text := by
  obtain ⟨front, back, inFront, inBack, parts⟩ :=
    text.exists_eq_append_trim
  constructor
  · intro member
    rw [parts]
    exact List.mem_append_right _ (List.mem_append_left _ member)
  · intro member
    rw [parts] at member
    rcases List.mem_append.1 member with early | member
    · exact absurd early (not_mem_of_forall visible inFront)
    · rcases List.mem_append.1 member with inside | late
      · exact inside
      · exact absurd late (not_mem_of_forall visible inBack)

/-- Both pieces around a mark are the same if the text is trimmed first. -/
theorem trim_pieces_trim
    (visible : isBlank mark = false)
    (member : mark ∈ text) :
    (text.trim.before mark).trim = (text.before mark).trim ∧
      (text.trim.after? mark).map trim = (text.after? mark).map trim := by
  obtain ⟨front, back, inFront, inBack, parts⟩ :=
    text.exists_eq_append_trim
  obtain ⟨left, right, pieces, absent⟩ :=
    List.eq_append_cons_of_mem ((mem_trim_iff visible).2 member)
  have split : text = (front ++ left) ++ mark :: (right ++ back) := by
    rw [pieces] at parts
    rw [parts]
    simp
  have first : mark ∉ front ++ left := by
    intro early
    rcases List.mem_append.1 early with blank | inside
    · exact not_mem_of_forall visible inFront blank
    · exact absent inside
  rw [pieces, before_append_cons absent, after?_append_cons absent]
  rw [split, before_append_cons first, after?_append_cons first]
  exact ⟨(trim_append_left inFront left).symm,
    congrArg some (trim_append_right inBack right).symm⟩

end Trimming

end PocketCpu.Text
