import Mathlib.Data.List.Basic
import PocketCpu.Proofs.Assembly.Image

/-!
# Lines behind other lines

Lines that are put behind others are placed behind all of their bytes, and
the labels on them move by as much.  If no label is defined on both sides,
the lines in front keep their bytes.  So do the lines behind, except that
the jumps to labels on them move along with these labels, which is possible
as long as the new addresses fit into a byte.
-/

namespace PocketCpu

namespace Statement

variable {text name : Text} {condition : Condition}

/-- Labels do not matter to an instruction without one. -/
theorem encodeText_of_fixed
    {instruction : Instruction}
    (read : ofText text = .ok (.fixed instruction))
    (labels others : LabelTable) :
    encodeText labels text = encodeText others text := by
  rw [encodeText, encodeText, instructionOf, instructionOf,
    Pass.read_emitting, Pass.read_emitting, read]
  rfl

/-- A jump to a label has the address of the label as its last byte. -/
theorem encodeText_of_jump
    (read : ofText text = .ok (.jumpToLabel condition name))
    {labels : LabelTable}
    {bytes : List Byte} :
    encodeText labels text = .ok bytes ↔
      ∃ address, labels.resolve name = some address ∧
        address.toNat ≤ 255 ∧
        bytes = [condition.opcode.code, 0x03, address.toUInt8] := by
  rw [encodeText_eq_ok_iff]
  constructor
  · rintro ⟨instruction, complete, hasBytes⟩
    obtain ⟨statement, parsed, resolved⟩ :=
      instructionOf_eq_ok_iff.1 complete
    cases parsed.symm.trans read
    obtain ⟨address, bound, near, rfl⟩ :=
      resolve_jumpToLabel_eq_ok_iff.1 resolved
    cases hasBytes
    exact ⟨address, bound, UInt16.le_iff_toNat_le.1 near, rfl⟩
  · rintro ⟨address, bound, near, rfl⟩
    exact ⟨_, instructionOf_eq_ok_iff.2 ⟨_, read,
      resolve_jumpToLabel_eq_ok_iff.2
        ⟨address, bound, UInt16.le_iff_toNat_le.2 near, rfl⟩⟩, rfl⟩

end Statement

/-- The instruction on a line is a jump to a label. -/
def SourceLine.JumpsTo (line : SourceLine) (name : Text) : Prop :=
  ∃ text condition, line.code = some text ∧
    Statement.ofText text = .ok (.jumpToLabel condition name)

/-- A placed line with a number of bytes more in front of it. -/
def PlacedLine.shift (shift : Nat) (placed : PlacedLine) : PlacedLine :=
  { placed with address := placed.address + shift }

@[simp]
theorem PlacedLine.address_shift (shift : Nat) (placed : PlacedLine) :
    (placed.shift shift).address = placed.address + shift :=
  rfl

namespace Layout

/-! ## Places -/

section Places

variable {start offset : Nat} {lines left right : List SourceLine}
variable {placed : PlacedLine} {labels : LabelTable} {size : Nat}

theorem size_append (left right : List SourceLine) :
    Layout.size (left ++ right) = Layout.size left + Layout.size right := by
  induction left with
  | nil => rw [List.nil_append, size_nil, Nat.zero_add]
  | cons line rest inductionHypothesis =>
      rw [List.cons_append, size_cons, size_cons, inductionHypothesis,
        Nat.add_assoc]

/-- A placed line lies behind the lines in front of it. -/
theorem exists_split_of_mem_placeFrom
    (member : placed ∈ placeFrom start lines) :
    ∃ earlier later, lines = earlier ++ placed.line :: later ∧
      placed.address = start + Layout.size earlier := by
  induction lines generalizing start with
  | nil => cases member
  | cons line rest inductionHypothesis =>
      rw [placeFrom_cons] at member
      rcases List.mem_cons.1 member with rfl | behind
      · exact ⟨[], rest, rfl, rfl⟩
      · obtain ⟨earlier, later, rfl, address⟩ := inductionHypothesis behind
        exact ⟨line :: earlier, later, rfl,
          by rw [address, size_cons, Nat.add_assoc]⟩

theorem end_le_of_mem_place
    (member : placed ∈ place lines) :
    placed.address + placed.line.size ≤ Layout.size lines := by
  obtain ⟨earlier, later, rfl, address⟩ :=
    exists_split_of_mem_placeFrom member
  rw [address, Nat.zero_add, size_append, size_cons]
  omega

/-- Every byte belongs to one of the lines. -/
theorem exists_placed_of_lt
    (inside : offset < Layout.size lines) :
    ∃ placed ∈ placeFrom start lines, ∃ inner < placed.line.size,
      start + offset = placed.address + inner := by
  induction lines generalizing start offset with
  | nil => cases inside
  | cons line rest inductionHypothesis =>
      rw [placeFrom_cons]
      by_cases here : offset < line.size
      · exact ⟨_, List.mem_cons_self, offset, here, rfl⟩
      · obtain ⟨beyond, rfl⟩ :=
          Nat.exists_eq_add_of_le (Nat.le_of_not_lt here)
        rw [size_cons] at inside
        obtain ⟨placed, member, inner, own, same⟩ :=
          @inductionHypothesis (start + line.size) beyond
            (Nat.lt_of_add_lt_add_left inside)
        exact ⟨placed, List.mem_cons_of_mem _ member, inner, own,
          (Nat.add_assoc _ _ _).symm.trans same⟩

theorem placeFrom_add
    (start shift : Nat)
    (lines : List SourceLine) :
    placeFrom (start + shift) lines =
      (placeFrom start lines).map (PlacedLine.shift shift) := by
  induction lines generalizing start with
  | nil => rfl
  | cons line rest inductionHypothesis =>
      rw [placeFrom_cons, placeFrom_cons, List.map_cons,
        ← inductionHypothesis, Nat.add_right_comm]
      rfl

theorem placeFrom_eq_map (shift : Nat) (lines : List SourceLine) :
    placeFrom shift lines =
      (place lines).map (PlacedLine.shift shift) := by
  rw [← Nat.zero_add shift, placeFrom_add, Nat.zero_add, place]

theorem allSound_append_iff :
    AllSound labels size start (left ++ right) ↔
      AllSound labels size start left ∧
        AllSound labels size (start + Layout.size left) right := by
  refine ⟨fun sound => ⟨sound.left, sound.right⟩, ?_⟩
  rintro ⟨inFront, behind⟩ placed member
  rw [placeFrom_append] at member
  rcases List.mem_append.1 member with early | late
  · exact inFront placed early
  · exact behind placed late

/-- The bytes of sound lines hold those of each line at its place. -/
theorem AllSound.getElem?_bytes
    {inner : Nat}
    (sound : AllSound labels size start lines)
    (member : placed ∈ place lines)
    (own : inner < placed.line.size) :
    (lines.flatMap (SourceLine.bytes labels))[placed.address + inner]? =
      (placed.line.bytes labels)[inner]? := by
  obtain ⟨earlier, later, rfl, address⟩ :=
    exists_split_of_mem_placeFrom member
  rw [Nat.zero_add, ← sound.left.length_bytes] at address
  rw [← sound.right.head.length_bytes] at own
  rw [address, List.flatMap_append, List.flatMap_cons,
    List.getElem?_append_right (Nat.le_add_right _ _),
    Nat.add_sub_cancel_left, List.getElem?_append_left own]

end Places

/-! ## Labels -/

section Labels

variable {left right : List SourceLine} {name : Text}

/-- A label that is not defined behind keeps its address. -/
theorem resolve_append_of_none
    (unbound : (labelsOf right).resolve name = none) :
    (labelsOf (left ++ right)).resolve name =
      (labelsOf left).resolve name := by
  rw [labelsOf, place, placeFrom_append, labels, List.foldl_append]
  exact resolve_foldl_define_of_not_defined
    (resolve_labelsOf_eq_none_iff.1 unbound)

/-- A label that is defined behind moves by the bytes in front. -/
theorem exists_resolve_append
    {own : Word}
    (small : size left + size right < 65536)
    (bound : (labelsOf right).resolve name = some own) :
    ∃ address, (labelsOf (left ++ right)).resolve name = some address ∧
      address.toNat = own.toNat + size left := by
  obtain ⟨before, last, rfl⟩ := resolve_labelsOf_iff.1 bound
  have inside : size before ≤ size right := by
    obtain ⟨_, _, rfl, _⟩ := last
    rw [size_append]
    exact Nat.le_add_right _ _
  refine ⟨UInt16.ofNat (0 + size left + size before), ?_, ?_⟩
  · rw [labelsOf, place, placeFrom_append, labels, List.foldl_append]
    exact resolve_foldl_define_of_lastDefinition last
  · rw [UInt16.toNat_ofNat_of_lt' (by rw [UInt16.size]; omega),
      UInt16.toNat_ofNat_of_lt' (by rw [UInt16.size]; omega)]
    omega

end Labels

/-- At an offset into the bytes of lines lies the operand of a label jump. -/
def IsLabelOperand
    (lines : List SourceLine)
    (name : Text)
    (offset : Nat) : Prop :=
  ∃ placed ∈ place lines, placed.line.JumpsTo name ∧
    offset = placed.address + 2

/--
Two groups of lines are sound, each on its own, and no label is defined in
both of them.
-/
structure AreApart (size : Nat) (left right : List SourceLine) : Prop where
  inFront : AllSound (labelsOf left) size 0 left
  behind : AllSound (labelsOf right) size 0 right
  labels :
    ∀ name, (labelsOf left).resolve name = none ∨
      (labelsOf right).resolve name = none

/-- Labels that jumps on the lines go to are still near after a move. -/
def StayNear (shift : Nat) (lines : List SourceLine) : Prop :=
  ∀ name offset, IsLabelOperand lines name offset →
    ∀ address, (labelsOf lines).resolve name = some address →
      address.toNat + shift ≤ 255

/-- What becomes of the bytes of a line when it is moved. -/
inductive Moves (shift : Nat) (line : SourceLine) :
    List Byte → List Byte → Prop where
  | still
      (bytes : List Byte)
      (jumpless : ∀ name, ¬ line.JumpsTo name) :
      Moves shift line bytes bytes
  | jump
      {name : Text}
      {own moved : Byte}
      (jumps : line.JumpsTo name)
      (code mode : Byte)
      (sum : moved.toNat = own.toNat + shift) :
      Moves shift line [code, mode, own] [code, mode, moved]

theorem Moves.length_eq
    {shift : Nat}
    {line : SourceLine}
    {bytes others : List Byte}
    (moves : Moves shift line bytes others) :
    others.length = bytes.length := by
  cases moves <;> rfl

namespace AreApart

variable {size : Nat} {left right : List SourceLine}

/-! ## The lines in front -/

section InFront

variable (apart : AreApart size left right)

include apart

theorem resolve_left
    {name : Text}
    {address : Word}
    (bound : (labelsOf left).resolve name = some address) :
    (labelsOf (left ++ right)).resolve name = some address := by
  rcases apart.labels name with unbound | unbound
  · cases unbound.symm.trans bound
  · rw [resolve_append_of_none unbound, bound]

/-- The instructions in front keep their bytes. -/
theorem encodeText_left
    {text : Text}
    {bytes : List Byte}
    (encoded : Statement.encodeText (labelsOf left) text = .ok bytes) :
    Statement.encodeText (labelsOf (left ++ right)) text = .ok bytes := by
  obtain ⟨_, complete, _⟩ := Statement.encodeText_eq_ok_iff.1 encoded
  obtain ⟨statement, read, _⟩ :=
    Statement.instructionOf_eq_ok_iff.1 complete
  cases statement with
  | fixed _ => rwa [Statement.encodeText_of_fixed read _ (labelsOf left)]
  | jumpToLabel condition name =>
      obtain ⟨address, bound, near, same⟩ :=
        (Statement.encodeText_of_jump read).1 encoded
      exact (Statement.encodeText_of_jump read).2
        ⟨address, apart.resolve_left bound, near, same⟩

theorem allSound_left :
    AllSound (labelsOf (left ++ right)) size 0 left := by
  intro placed member
  have sound := apart.inFront placed member
  refine ⟨sound.label, fun text written => ?_⟩
  obtain ⟨bytes, encoded, fits⟩ := sound.code text written
  exact ⟨bytes, apart.encodeText_left encoded, fits⟩

theorem bytes_left :
    left.flatMap (SourceLine.bytes (labelsOf (left ++ right))) =
      left.flatMap (SourceLine.bytes (labelsOf left)) := by
  apply List.flatMap_congr
  intro line member
  cases written : line.code with
  | none =>
      rw [SourceLine.bytes_of_code_eq_none written,
        SourceLine.bytes_of_code_eq_none written]
  | some text =>
      obtain ⟨_, bytes, _, _, own, encoded⟩ :=
        apart.inFront.exists_instruction member written
      rw [own, SourceLine.bytes_of_encodeText written
        (apart.encodeText_left encoded)]

end InFront

/-! ## The lines behind -/

section Behind

variable (small : Layout.size left + Layout.size right < 65536)

include small

/-- Jumps behind are sound only if their labels stay near. -/
theorem stayNear_of_allSound
    (sound :
      AllSound (labelsOf (left ++ right)) size (Layout.size left) right) :
    StayNear (Layout.size left) right := by
  rintro name _ ⟨placed, member, ⟨text, condition, written, read⟩, rfl⟩
    own bound
  have moved :
      placed.shift (Layout.size left) ∈
        placeFrom (Layout.size left) right := by
    rw [placeFrom_eq_map]
    exact List.mem_map_of_mem member
  obtain ⟨bytes, encoded, _⟩ := (sound _ moved).code text written
  obtain ⟨address, resolved, near, _⟩ :=
    (Statement.encodeText_of_jump read).1 encoded
  obtain ⟨again, resolvedAgain, sum⟩ := exists_resolve_append small bound
  cases resolved.symm.trans resolvedAgain
  rwa [← sum]

variable (near : StayNear (Layout.size left) right)

include near

/-- The instructions behind have bytes again, and only jumps change. -/
theorem exists_moves_of_encodeText
    {placed : PlacedLine}
    {text : Text}
    {bytes : List Byte}
    (member : placed ∈ place right)
    (written : placed.line.code = some text)
    (encoded : Statement.encodeText (labelsOf right) text = .ok bytes) :
    ∃ moved,
      Statement.encodeText (labelsOf (left ++ right)) text = .ok moved ∧
        Moves (Layout.size left) placed.line bytes moved := by
  obtain ⟨_, complete, _⟩ := Statement.encodeText_eq_ok_iff.1 encoded
  obtain ⟨statement, read, _⟩ :=
    Statement.instructionOf_eq_ok_iff.1 complete
  cases statement with
  | fixed _ =>
      refine ⟨bytes, ?_, .still bytes ?_⟩
      · rwa [Statement.encodeText_of_fixed read _ (labelsOf right)]
      · rintro name ⟨_, _, same, jump⟩
        cases written.symm.trans same
        cases read.symm.trans jump
  | jumpToLabel condition name =>
      have jumps : placed.line.JumpsTo name :=
        ⟨text, condition, written, read⟩
      obtain ⟨own, bound, _, rfl⟩ :=
        (Statement.encodeText_of_jump read).1 encoded
      obtain ⟨address, resolved, sum⟩ :=
        exists_resolve_append small bound
      have low := near name _ ⟨placed, member, jumps, rfl⟩ own bound
      refine ⟨_, (Statement.encodeText_of_jump read).2
        ⟨address, resolved, by omega, rfl⟩, .jump jumps _ _ ?_⟩
      rw [UInt16.toNat_toUInt8, UInt16.toNat_toUInt8]
      omega

variable (apart : AreApart size left right)

include apart

theorem moves_bytes
    {placed : PlacedLine}
    (member : placed ∈ place right) :
    Moves (Layout.size left) placed.line
      (placed.line.bytes (labelsOf right))
      (placed.line.bytes (labelsOf (left ++ right))) := by
  cases written : placed.line.code with
  | none =>
      rw [SourceLine.bytes_of_code_eq_none written,
        SourceLine.bytes_of_code_eq_none written]
      refine .still [] ?_
      rintro name ⟨_, _, same, _⟩
      cases written.symm.trans same
  | some text =>
      obtain ⟨bytes, encoded, _⟩ :=
        (apart.behind placed member).code text written
      obtain ⟨moved, encodedAgain, moves⟩ :=
        exists_moves_of_encodeText small near member written encoded
      rwa [SourceLine.bytes_of_encodeText written encoded,
        SourceLine.bytes_of_encodeText written encodedAgain]

variable (fits : Layout.size left + Layout.size right ≤ size)

include fits

theorem allSound_right :
    AllSound (labelsOf (left ++ right)) size (Layout.size left) right := by
  intro shifted behind
  rw [placeFrom_eq_map] at behind
  obtain ⟨placed, member, rfl⟩ := List.mem_map.1 behind
  have sound := apart.behind placed member
  refine ⟨sound.label, ?_⟩
  intro text (written : placed.line.code = some text)
  obtain ⟨bytes, encoded, _⟩ := sound.code text written
  obtain ⟨moved, encodedAgain, moves⟩ :=
    exists_moves_of_encodeText small near member written encoded
  refine ⟨moved, encodedAgain, ?_⟩
  have length := sound.length_bytes
  have inside := end_le_of_mem_place member
  rw [SourceLine.bytes_of_encodeText written encoded] at length
  rw [moves.length_eq, length, PlacedLine.address_shift]
  omega

/-- The operands of jumps to labels are higher by the bytes in front. -/
theorem exists_operands_moved
    {name : Text}
    {offset : Nat}
    (operand : IsLabelOperand right name offset) :
    ∃ own moved : Byte,
      (right.flatMap (SourceLine.bytes (labelsOf right)))[offset]? =
          some own ∧
        (right.flatMap
            (SourceLine.bytes (labelsOf (left ++ right))))[offset]? =
          some moved ∧
        moved.toNat = own.toNat + Layout.size left := by
  obtain ⟨placed, member, jumps, rfl⟩ := operand
  have moves := moves_bytes small near apart member
  have length := (apart.behind placed member).length_bytes
  generalize ownBytes : placed.line.bytes (labelsOf right) = bytes
    at moves length
  generalize movedBytes :
    placed.line.bytes (labelsOf (left ++ right)) = others at moves
  cases moves with
  | still _ jumpless => exact absurd jumps (jumpless name)
  | @jump _ own moved _ code mode sum =>
      have inside : 2 < placed.line.size := by
        rw [← length]
        exact Nat.lt_succ_self 2
      refine ⟨own, moved, ?_, ?_, sum⟩
      · rw [apart.behind.getElem?_bytes member inside, ownBytes]
        rfl
      · rw [(allSound_right small near apart fits).getElem?_bytes member
          inside, movedBytes]
        rfl

/-- All other bytes behind stay as they are. -/
theorem getElem?_bytes_right
    {offset : Nat}
    (inside : offset < Layout.size right)
    (other : ∀ name, ¬ IsLabelOperand right name offset) :
    (right.flatMap
        (SourceLine.bytes (labelsOf (left ++ right))))[offset]? =
      (right.flatMap (SourceLine.bytes (labelsOf right)))[offset]? := by
  obtain ⟨placed, member, inner, own, place⟩ :=
    exists_placed_of_lt inside
  rw [Nat.zero_add] at place
  subst place
  rw [apart.behind.getElem?_bytes member own,
    (allSound_right small near apart fits).getElem?_bytes member own]
  have moves := moves_bytes small near apart member
  generalize placed.line.bytes (labelsOf right) = bytes at moves
  generalize placed.line.bytes (labelsOf (left ++ right)) = others
    at moves
  cases moves with
  | still => rfl
  | jump jumps _ _ _ =>
      -- The third byte is the operand; behind it the line has ended.
      match inner with
      | 0 => rfl
      | 1 => rfl
      | 2 => exact absurd ⟨placed, member, jumps, rfl⟩ (other _)
      | _ + 3 => rfl

end Behind

/-! ## All lines together -/

variable (apart : AreApart size left right)

include apart

/-- The lines are sound together if they fit and the jumps stay near. -/
theorem allSound_iff
    (small : size < 65536) :
    AllSound (labelsOf (left ++ right)) size 0 (left ++ right) ↔
      Layout.size left + Layout.size right ≤ size ∧
        StayNear (Layout.size left) right := by
  rw [allSound_append_iff, Nat.zero_add]
  constructor
  · rintro ⟨inFront, behind⟩
    have begins := inFront.end_le (Nat.zero_le size)
    rw [Nat.zero_add] at begins
    have fits := behind.end_le begins
    exact ⟨fits,
      stayNear_of_allSound (Nat.lt_of_le_of_lt fits small) behind⟩
  · rintro ⟨fits, near⟩
    exact ⟨apart.allSound_left,
      allSound_right (Nat.lt_of_le_of_lt fits small) near apart fits⟩

/-- The labels are those in front and the moved ones behind. -/
theorem resolve_iff
    (small : Layout.size left + Layout.size right < 65536)
    {name : Text}
    {address : Word} :
    (labelsOf (left ++ right)).resolve name = some address ↔
      (labelsOf left).resolve name = some address ∨
        ∃ own, (labelsOf right).resolve name = some own ∧
          address.toNat = own.toNat + Layout.size left := by
  cases bound : (labelsOf right).resolve name with
  | none => simp [resolve_append_of_none bound]
  | some own =>
      obtain ⟨moved, resolved, sum⟩ := exists_resolve_append small bound
      have absent : (labelsOf left).resolve name = none :=
        (apart.labels name).resolve_right (by simp [bound])
      rw [resolved, absent]
      simp [← sum, UInt16.toNat_inj, eq_comm]

end AreApart

end Layout

end PocketCpu
