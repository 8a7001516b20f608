import Mathlib.Algebra.Order.Floor.Div
import Mathlib.GroupTheory.GroupAction.Ring
import PocketCpu.Memory.Dump
import PocketCpu.Proofs.Text.PrintedNumerals
import PocketCpu.Proofs.Text.Trimming

/-!
# Reading dumps back

A dump is a line of column numbers and one line for every sixteen bytes of
memory, the last of which may be shorter.  Such a line begins with the
address of its first byte and shows each byte in a cell of four characters,
with brackets around the one at the program counter.  So a dump tells every
byte of memory and where the program counter is, if it is inside at all.
-/

namespace PocketCpu.Memory

variable {size : Nat}

/-! ## The table -/

/--
A text is the cell of a byte: its two capital digits, between spaces or, if
the byte is marked, between brackets.
-/
def IsCell (isMarked : Bool) (byte : Byte) (text : Text) : Prop :=
  ∃ digits, Text.IsPrinted 2 byte.toNat digits ∧ digits.length = 2 ∧
    text =
      if isMarked then '[' :: digits ++ [']'] else ' ' :: digits ++ [' ']

/-- A text is the cell at an address, marked if this is the program counter. -/
def ShowsByte
    (memory : Memory size)
    (pc address : Nat)
    (text : Text) : Prop :=
  ∃ byte, memory.get? address = some byte ∧
    IsCell (address == pc) byte text

/-- The addresses of a row, as far as they are inside of memory. -/
def rowAddresses (size row : Nat) : List Nat :=
  List.range' (16 * row) (min 16 (size - 16 * row))

/-- A line shows the bytes of a row, behind the address of the first one. -/
def ShowsRow
    (memory : Memory size)
    (pc row : Nat)
    (line : Text) : Prop :=
  ∃ label cells,
    line = label ++ ':' :: ' ' :: List.flatten cells ∧
      Text.IsPrinted 2 (16 * row) label ∧
      List.Forall₂ (memory.ShowsByte pc) (rowAddresses size row) cells

/-- A text shows a memory row by row, below a line of its own. -/
structure IsTable
    (memory : Memory size)
    (pc : Nat)
    (text : Text) : Prop where
  count : text.lines.length = 1 + size ⌈/⌉ 16
  rows :
    ∀ row < size ⌈/⌉ 16, ∃ line,
      text.lines[row + 1]? = some line ∧ memory.ShowsRow pc row line

/-! ## Dumps are tables -/

variable {memory : Memory size} {pc address row : Nat}

theorem isCell_cell (isMarked : Bool) (byte : Byte) :
    IsCell isMarked byte (cell isMarked byte) :=
  ⟨Text.hexUpper 2 byte.toNat, Text.isPrinted_hexUpper 2 byte.toNat,
    Text.length_hexUpper_byte byte, rfl⟩

/-- The cells of a row, those outside of memory left out. -/
def rowCells (memory : Memory size) (pc row : Nat) : List Text :=
  (List.range' (16 * row) 16).filterMap fun address =>
    (memory.get? address).map (cell (address == pc))

theorem flatMap_getD_nil
    {Source Item : Type}
    (items? : Source → Option (List Item))
    (sources : List Source) :
    (sources.flatMap fun source => (items? source).getD []) =
      (sources.filterMap items?).flatten := by
  induction sources with
  | nil => rfl
  | cons source sources inductionHypothesis =>
      rw [List.flatMap_cons, inductionHypothesis]
      cases found : items? source with
      | none => rw [List.filterMap_cons_none found]; rfl
      | some items => rw [List.filterMap_cons_some found]; rfl

theorem dumpRow_eq (memory : Memory size) (pc row : Nat) :
    memory.dumpRow pc row =
      Text.hexUpper 2 (16 * row) ++
        ':' :: ' ' :: (memory.rowCells pc row).flatten := by
  rw [dumpRow, flatMap_getD_nil, List.append_assoc]
  rfl

theorem forall₂_filterMap
    {Source Item : Type}
    {relates : Source → Item → Prop}
    {item? : Source → Option Item}
    {sources : List Source}
    (found :
      ∀ source ∈ sources, ∃ item,
        item? source = some item ∧ relates source item) :
    List.Forall₂ relates sources (sources.filterMap item?) := by
  induction sources with
  | nil => exact .nil
  | cons source sources inductionHypothesis =>
      obtain ⟨⟨item, first, related⟩, others⟩ :=
        List.forall_mem_cons.1 found
      rw [List.filterMap_cons_some first]
      exact .cons related (inductionHypothesis others)

theorem mem_rowAddresses_iff :
    address ∈ rowAddresses size row ↔
      address < size ∧ address / 16 = row := by
  rw [rowAddresses, List.mem_range'_1]
  omega

/-- A row has the addresses inside of memory, then those outside of it. -/
theorem range'_row_eq (size row : Nat) :
    ∃ others,
      List.range' (16 * row) 16 = rowAddresses size row ++ others ∧
        ∀ address ∈ others, size ≤ address := by
  let inside := min 16 (size - 16 * row)
  refine ⟨List.range' (16 * row + inside) (16 - inside), ?_, ?_⟩
  · have all : 16 = inside + (16 - inside) := by omega
    rw [rowAddresses, List.range'_append_1, ← all]
  · intro address member
    rw [List.mem_range'_1] at member
    omega

/-- The cells of a row show the bytes at its addresses. -/
theorem showsByte_rowCells (memory : Memory size) (pc row : Nat) :
    List.Forall₂ (memory.ShowsByte pc) (rowAddresses size row)
      (memory.rowCells pc row) := by
  obtain ⟨others, addresses, outside⟩ := range'_row_eq size row
  have silent :
      others.filterMap
          (fun address =>
            (memory.get? address).map (cell (address == pc))) =
        [] := by
    rw [List.filterMap_eq_nil_iff]
    intro address member
    rw [get?_eq_none_iff.2 (outside address member), Option.map_none]
  rw [rowCells, addresses, List.filterMap_append, silent, List.append_nil]
  apply forall₂_filterMap
  intro address member
  have within := (mem_rowAddresses_iff.1 member).1
  obtain ⟨byte, found⟩ :=
    Option.ne_none_iff_exists'.1
      (mt get?_eq_none_iff.1 (Nat.not_le.2 within))
  exact ⟨_, congrArg _ found, byte, found, isCell_cell _ byte⟩

/-! ## Lines -/

theorem not_mem_cell (isMarked : Bool) (byte : Byte) :
    '\n' ∉ cell isMarked byte := by
  have noDigit : '\n' ∉ Text.hexUpper 2 byte.toNat :=
    (Text.isPrinted_hexUpper 2 byte.toNat).not_mem rfl
  cases isMarked <;> simp [cell, noDigit]

theorem not_mem_dumpRow (memory : Memory size) (pc row : Nat) :
    '\n' ∉ memory.dumpRow pc row := by
  have noDigit : '\n' ∉ Text.hexUpper 2 (16 * row) :=
    (Text.isPrinted_hexUpper 2 (16 * row)).not_mem rfl
  have inCells : '\n' ∉ (memory.rowCells pc row).flatten := by
    intro member
    obtain ⟨text, inRow, inside⟩ := List.mem_flatten.1 member
    obtain ⟨address, -, shown⟩ := List.mem_filterMap.1 inRow
    obtain ⟨byte, -, rfl⟩ := Option.map_eq_some_iff.1 shown
    exact not_mem_cell _ byte inside
  rw [dumpRow_eq]
  simp [noDigit, inCells]

/-- A dump consists of the column numbers and its rows. -/
theorem lines_dump (memory : Memory size) (pc : Nat) :
    (memory.dump pc).lines =
      dumpHeader :: (List.range (size ⌈/⌉ 16)).map (memory.dumpRow pc) := by
  rw [dump, Text.lines, List.splitOn_intercalate]
  · rfl
  · intro line member
    rcases List.mem_cons.1 member with rfl | inRows
    · decide
    · obtain ⟨row, -, rfl⟩ := List.mem_map.1 inRows
      exact not_mem_dumpRow memory pc row
  · exact List.cons_ne_nil _ _

theorem isTable_dump (memory : Memory size) (pc : Nat) :
    memory.IsTable pc (memory.dump pc) where
  count := by
    rw [lines_dump, List.length_cons, List.length_map, List.length_range]
    exact Nat.add_comm _ 1
  rows row inside := by
    refine ⟨memory.dumpRow pc row, ?_, Text.hexUpper 2 (16 * row),
      memory.rowCells pc row, dumpRow_eq memory pc row, ?_, ?_⟩
    · rw [lines_dump, List.getElem?_cons_succ, List.getElem?_map,
        List.getElem?_range inside, Option.map_some]
    · exact Text.isPrinted_hexUpper 2 (16 * row)
    · exact showsByte_rowCells memory pc row

/-! ## Reading back -/

variable {other : Memory size} {place : Nat}

/-- A cell tells its byte and whether it is marked. -/
theorem IsCell.unique
    {isMarked mark : Bool}
    {byte last : Byte}
    {text : Text}
    (isCell : IsCell isMarked byte text)
    (again : IsCell mark last text) :
    isMarked = mark ∧ byte = last := by
  obtain ⟨digits, isPrinted, -, shown⟩ := isCell
  obtain ⟨others, isPrintedAgain, -, rfl⟩ := again
  have marks : isMarked = mark := by
    cases isMarked with
    | true =>
        cases mark with
        | true => rfl
        | false => cases shown
    | false =>
        cases mark with
        | true => cases shown
        | false => rfl
  subst marks
  have same : others = digits := by
    cases isMarked with
    | true => exact List.append_cancel_right (List.cons.inj shown).2
    | false => exact List.append_cancel_right (List.cons.inj shown).2
  subst same
  refine ⟨rfl, UInt8.toNat_inj.1 ?_⟩
  exact isPrinted.isNumeral.unique le_rfl isPrintedAgain.isNumeral

/-- Two memories have the same byte and the same mark at an address. -/
def LooksAlike
    (memory other : Memory size)
    (pc place address : Nat) : Prop :=
  memory.get? address = other.get? address ∧
    (address = pc ↔ address = place)

theorem ShowsByte.looksAlike
    {text : Text}
    (shows : memory.ShowsByte pc address text)
    (again : other.ShowsByte place address text) :
    LooksAlike memory other pc place address := by
  obtain ⟨byte, found, isCell⟩ := shows
  obtain ⟨last, foundAgain, isCellAgain⟩ := again
  obtain ⟨marks, rfl⟩ := isCell.unique isCellAgain
  refine ⟨found.trans foundAgain.symm, ?_⟩
  calc
    address = pc ↔ (address == pc) = true := beq_iff_eq.symm
    _ ↔ (address == place) = true := Bool.eq_iff_iff.1 marks
    _ ↔ address = place := beq_iff_eq

/-- All cells have four characters. -/
theorem map_length_cells
    {addresses : List Nat}
    {cells : List Text}
    (shows : List.Forall₂ (memory.ShowsByte pc) addresses cells) :
    cells.map List.length = List.replicate addresses.length 4 := by
  induction shows with
  | nil => rfl
  | cons first _ inductionHypothesis =>
      obtain ⟨byte, -, digits, -, two, rfl⟩ := first
      rw [List.map_cons, inductionHypothesis, List.length_cons,
        List.replicate_succ]
      congr 1
      split <;> simp [two]

theorem looksAlike_of_cells
    {addresses : List Nat}
    {cells : List Text}
    (shows : List.Forall₂ (memory.ShowsByte pc) addresses cells)
    (again : List.Forall₂ (other.ShowsByte place) addresses cells) :
    ∀ address ∈ addresses, LooksAlike memory other pc place address := by
  induction shows with
  | nil => exact nofun
  | cons first _ inductionHypothesis =>
      cases again with
      | cons second others =>
          exact List.forall_mem_cons.2
            ⟨first.looksAlike second, inductionHypothesis others⟩

/-- A line tells the bytes and the mark of its row. -/
theorem ShowsRow.looksAlike
    {line : Text}
    (shows : memory.ShowsRow pc row line)
    (again : other.ShowsRow place row line) :
    ∀ address ∈ rowAddresses size row,
      LooksAlike memory other pc place address := by
  obtain ⟨label, cells, rfl, isLabel, inRow⟩ := shows
  obtain ⟨otherLabel, otherCells, same, isOtherLabel, inRowAgain⟩ := again
  -- The first colon ends the address, and cells of equal length follow.
  have behind := congrArg (Text.after? ':') same
  rw [Text.after?_append_cons (isLabel.not_mem rfl),
    Text.after?_append_cons (isOtherLabel.not_mem rfl)] at behind
  have flat : cells.flatten = otherCells.flatten :=
    (List.cons.inj (Option.some.inj behind)).2
  have lengths :=
    (map_length_cells inRow).trans (map_length_cells inRowAgain).symm
  obtain rfl := List.eq_iff_flatten_eq.2 ⟨flat, lengths⟩
  exact looksAlike_of_cells inRow inRowAgain

/-- A table tells all bytes, and which of them is marked. -/
theorem IsTable.looksAlike
    {text : Text}
    (isTable : memory.IsTable pc text)
    (again : other.IsTable place text)
    (inside : address < size) :
    LooksAlike memory other pc place address := by
  have isRow : address / 16 < size ⌈/⌉ 16 := by
    rw [Nat.ceilDiv_eq_add_pred_div]
    omega
  obtain ⟨line, found, shows⟩ := isTable.rows (address / 16) isRow
  obtain ⟨last, foundAgain, showsAgain⟩ := again.rows (address / 16) isRow
  cases found.symm.trans foundAgain
  exact shows.looksAlike showsAgain address
    (mem_rowAddresses_iff.2 ⟨inside, rfl⟩)

/-- Two program counters mark the same cell of a memory, or none of them one. -/
def MarkAlike (size pc place : Nat) : Prop :=
  pc = place ∨ size ≤ pc ∧ size ≤ place

theorem IsTable.unique
    {text : Text}
    (isTable : memory.IsTable pc text)
    (again : other.IsTable place text) :
    memory = other ∧ MarkAlike size pc place := by
  constructor
  · ext1 address
    by_cases inside : address < size
    · exact (isTable.looksAlike again inside).1
    · rw [get?_eq_none_iff.2 (Nat.le_of_not_lt inside),
        get?_eq_none_iff.2 (Nat.le_of_not_lt inside)]
  · by_cases inside : pc < size
    · exact Or.inl ((isTable.looksAlike again inside).2.1 rfl)
    by_cases insideAgain : place < size
    · exact Or.inl ((isTable.looksAlike again insideAgain).2.2 rfl).symm
    exact Or.inr
      ⟨Nat.le_of_not_lt inside, Nat.le_of_not_lt insideAgain⟩

/-- A program counter outside of memory marks no cell. -/
theorem rowCells_of_le
    (memory : Memory size)
    (outside : size ≤ pc)
    (row : Nat) :
    memory.rowCells pc row =
      (List.range' (16 * row) 16).filterMap fun address =>
        (memory.get? address).map (cell false) := by
  apply List.filterMap_congr
  intro address _
  by_cases inside : address < size
  · have other : address ≠ pc := (inside.trans_le outside).ne
    rw [beq_eq_false_iff_ne.2 other]
  · rw [get?_eq_none_iff.2 (Nat.le_of_not_lt inside)]
    rfl

theorem dump_congr
    (memory : Memory size)
    (alike : MarkAlike size pc place) :
    memory.dump pc = memory.dump place := by
  rcases alike with rfl | ⟨outside, outsideAgain⟩
  · rfl
  · have rows : memory.dumpRow pc = memory.dumpRow place := by
      funext row
      rw [dumpRow_eq, dumpRow_eq, rowCells_of_le memory outside,
        rowCells_of_le memory outsideAgain]
    rw [dump, dump, rows]

/--
A dump is the table of its memory.  Two memories of one size have the same
dump exactly if they are the same and their program counters, as far as they
are inside, are so too.
-/
theorem isTable_dump_and_dump_eq_iff (memory : Memory size) (pc : Nat) :
    memory.IsTable pc (memory.dump pc) ∧
      ∀ (other : Memory size) (place : Nat),
        memory.dump pc = other.dump place ↔
          memory = other ∧ MarkAlike size pc place := by
  refine ⟨isTable_dump memory pc, fun other place => ?_⟩
  constructor
  · intro same
    have isTable := isTable_dump memory pc
    rw [same] at isTable
    exact isTable.unique (isTable_dump other place)
  · rintro ⟨rfl, alike⟩
    exact dump_congr memory alike

end PocketCpu.Memory
