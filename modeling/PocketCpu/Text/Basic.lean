import PocketCpu.Text.Blank

/-!
# Text as characters

Programs, names and listings are kept as the list of their characters, so
that every function on them is a recursion on that list.  This module cuts
text into lines and words, at its first mark, and free of blank ends.
-/

namespace PocketCpu

/-- Text that is read or printed, as the list of its characters. -/
abbrev Text := List Char

namespace Text

/--
The lines of a text: its pieces between line feeds.

A text that ends in a line feed has an empty last line.
-/
def lines (text : Text) : List Text :=
  text.splitOn '\n'

/-- Whether a character separates words: a comma or a blank. -/
def isSeparator (character : Char) : Bool :=
  character == ',' || isBlank character

/-- The words of a text: its nonempty pieces between separators. -/
def words (text : Text) : List Text :=
  (text.splitOnP isSeparator).filter fun word => !word.isEmpty

/-- A text without the blanks at both of its ends. -/
def trim (text : Text) : Text :=
  ((text.dropWhile isBlank).reverse.dropWhile isBlank).reverse

/-- The text in front of the first `mark`, or all of it if there is none. -/
def before (mark : Char) (text : Text) : Text :=
  text.takeWhile (· != mark)

/-- The text behind the first `mark`, if there is one. -/
def after? (mark : Char) (text : Text) : Option Text :=
  match text.dropWhile (· != mark) with
  | [] => none
  | _ :: rest => some rest

/-- Nothing lies behind a mark exactly if the mark does not occur. -/
theorem after?_eq_none_iff
    {mark : Char}
    {text : Text} :
    text.after? mark = none ↔ mark ∉ text := by
  induction text with
  | nil => simp [after?]
  | cons character rest inductionHypothesis =>
      by_cases equal : character = mark
      · simp [after?, equal]
      · have different : mark ≠ character := fun same => equal same.symm
        simpa [after?, equal, different] using inductionHypothesis

end Text

end PocketCpu
