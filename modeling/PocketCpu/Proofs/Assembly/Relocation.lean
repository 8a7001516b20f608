import PocketCpu.Proofs.Assembly.Joining
import PocketCpu.Proofs.Assembly.Rewording
import PocketCpu.Proofs.Text.Pieces

/-!
# Putting a source behind another one

Two sources are put together with a line feed between them.  The lines of
the second one get higher numbers, but their bytes do not depend on these.
So what is assembled are the bytes of the first source and, behind them,
those of the second one, relocated: its labels and the operands of its
jumps to labels are higher by the number of bytes in front.
-/

namespace PocketCpu

/-! ## The lines of both sources -/

/-- The lines of the source behind are numbered on from those in front. -/
theorem SourceLine.ofSource_append (front back : Text) :
    SourceLine.ofSource (front ++ '\n' :: back) =
      SourceLine.ofSource front ++
        (SourceLine.ofSource back).map
          (SourceLine.renumber (· + front.lines.length)) := by
  rw [← WrittenLine.read_lines, Text.lines_append_cons,
    WrittenLine.read_append, WrittenLine.read_add,
    WrittenLine.read_lines, WrittenLine.read_lines]

namespace Layout

variable (number : Nat → Nat) (lines : List SourceLine)

theorem labelsOf_renumber :
    labelsOf (lines.map (SourceLine.renumber number)) = labelsOf lines := by
  rw [← Rewording.line_renumbering, Rewording.labelsOf_map]

theorem size_renumber :
    size (lines.map (SourceLine.renumber number)) = size lines := by
  rw [← Rewording.line_renumbering, Rewording.size_map]

theorem bytes_renumber (labels : LabelTable) :
    (lines.map (SourceLine.renumber number)).flatMap
        (SourceLine.bytes labels) =
      lines.flatMap (SourceLine.bytes labels) := by
  rw [List.flatMap_map]
  rfl

/-- Renumbered lines are placed where the lines themselves are placed. -/
theorem place_renumber :
    place (lines.map (SourceLine.renumber number)) =
      (place lines).map fun placed =>
        ⟨placed.line.renumber number, placed.address⟩ := by
  rw [← Rewording.line_renumbering, place, Rewording.placeFrom_map]
  rfl

theorem allSound_renumber
    {number : Nat → Nat}
    {lines : List SourceLine}
    {labels : LabelTable}
    {size : Nat}
    (sound : AllSound labels size 0 lines) :
    AllSound labels size 0
      (lines.map (SourceLine.renumber number)) := by
  intro renumbered inPlaces
  rw [← place, place_renumber] at inPlaces
  obtain ⟨placed, member, rfl⟩ := List.mem_map.1 inPlaces
  have own := sound placed member
  exact ⟨own.label, own.code⟩

theorem isLabelOperand_renumber_iff
    {name : Text}
    {offset : Nat} :
    IsLabelOperand (lines.map (SourceLine.renumber number)) name offset ↔
      IsLabelOperand lines name offset := by
  simp only [IsLabelOperand, place_renumber, List.mem_map]
  constructor
  · rintro ⟨_, ⟨placed, member, rfl⟩, jumps, address⟩
    exact ⟨placed, member, jumps, address⟩
  · rintro ⟨placed, member, jumps, address⟩
    exact ⟨_, ⟨placed, member, rfl⟩, jumps, address⟩

theorem stayNear_renumber_iff
    {shift : Nat} :
    StayNear shift (lines.map (SourceLine.renumber number)) ↔
      StayNear shift lines := by
  simp only [StayNear, isLabelOperand_renumber_iff, labelsOf_renumber]

end Layout

/-! ## Both sources in memory -/

namespace Layout.AllSound

variable {size : Nat} {labels : LabelTable} {lines : List SourceLine}

/-- Memory begins with the bytes of sound lines. -/
theorem get?_write_of_lt
    (sound : AllSound labels size 0 lines)
    (memory : Memory size)
    {address : Nat}
    (inside : address < Layout.size lines) :
    (memory.write 0 (lines.flatMap (SourceLine.bytes labels))).get?
        address =
      (lines.flatMap (SourceLine.bytes labels))[address]? := by
  have fits := sound.end_le (Nat.zero_le size)
  rw [← sound.length_bytes] at fits inside
  have found := @Memory.get?_write_add size memory 0 address _ fits inside
  rwa [Nat.zero_add] at found

theorem get?_write_of_le
    (sound : AllSound labels size 0 lines)
    (memory : Memory size)
    {address : Nat}
    (behind : Layout.size lines ≤ address) :
    (memory.write 0 (lines.flatMap (SourceLine.bytes labels))).get?
        address =
      memory.get? address := by
  apply Memory.get?_write_of_le
  rwa [sound.length_bytes, Nat.zero_add]

end Layout.AllSound

namespace Workspace

variable {size : Nat}

/-- A memory of zeros with the bytes of lines from its beginning on. -/
def ofLines (size : Nat) (lines : List SourceLine) : Workspace size :=
  ⟨(Memory.zero size).write 0
      (lines.flatMap (SourceLine.bytes (Layout.labelsOf lines))),
    Layout.labelsOf lines⟩

theorem ofLines_renumber
    (number : Nat → Nat)
    (lines : List SourceLine) :
    ofLines size (lines.map (SourceLine.renumber number)) =
      ofLines size lines := by
  rw [ofLines, Layout.labelsOf_renumber, Layout.bytes_renumber, ofLines]

/--
Lines of `count` bytes, which one workspace holds from its beginning on,
lie in another one behind the `shift` bytes of a first workspace.
-/
structure Relocates
    (first second joined : Workspace size)
    (lines : List SourceLine)
    (shift count : Nat) : Prop where
  /-- Memory begins with the bytes of the first workspace. -/
  inFront :
    ∀ address < shift,
      joined.memory.get? address = first.memory.get? address
  /-- The address in a jump to a label is higher. -/
  jumps :
    ∀ name offset, Layout.IsLabelOperand lines name offset →
      ∃ own moved : Byte, second.memory.get? offset = some own ∧
        joined.memory.get? (shift + offset) = some moved ∧
        moved.toNat = own.toNat + shift
  /-- All other bytes of the lines are as they were. -/
  behind :
    ∀ offset < count,
      (∀ name, ¬ Layout.IsLabelOperand lines name offset) →
      joined.memory.get? (shift + offset) = second.memory.get? offset
  /-- Nothing is written behind the lines. -/
  rest :
    ∀ address, shift + count ≤ address →
      joined.memory.get? address = (Memory.zero size).get? address
  /-- Labels are those of the first workspace and higher ones. -/
  labels :
    ∀ name address,
      joined.labels.resolve name = some address ↔
        first.labels.resolve name = some address ∨
          ∃ own, second.labels.resolve name = some own ∧
            address.toNat = own.toNat + shift

/-- Lines that are put behind others are relocated. -/
theorem relocates_ofLines
    {left right : List SourceLine}
    (small : size < 65536)
    (apart : Layout.AreApart size left right)
    (fits : Layout.size left + Layout.size right ≤ size)
    (near : Layout.StayNear (Layout.size left) right) :
    (ofLines size left).Relocates (ofLines size right)
      (ofLines size (left ++ right)) right
      (Layout.size left) (Layout.size right) := by
  have inside := Nat.lt_of_le_of_lt fits small
  have sound := (apart.allSound_iff small).2 ⟨fits, near⟩
  have total := Layout.size_append left right
  have length := apart.allSound_left.length_bytes
  -- The bytes of all lines are those in front and those behind.
  have bytesInFront
      {address : Nat}
      (early : address < Layout.size left) :
      (ofLines size (left ++ right)).memory.get? address =
        (left.flatMap (SourceLine.bytes
          (Layout.labelsOf (left ++ right))))[address]? := by
    rw [ofLines, sound.get?_write_of_lt _ (by omega), List.flatMap_append,
      List.getElem?_append_left (by omega)]
  have bytesBehind
      {offset : Nat}
      (late : offset < Layout.size right) :
      (ofLines size (left ++ right)).memory.get?
          (Layout.size left + offset) =
        (right.flatMap (SourceLine.bytes
          (Layout.labelsOf (left ++ right))))[offset]? := by
    rw [ofLines, sound.get?_write_of_lt _ (by omega), List.flatMap_append,
      List.getElem?_append_right (by omega), length,
      Nat.add_sub_cancel_left]
  refine ⟨?_, ?_, ?_, ?_, fun _ _ => apart.resolve_iff inside⟩
  · intro address early
    rw [bytesInFront early, apart.bytes_left, ofLines,
      apart.inFront.get?_write_of_lt _ early]
  · intro name offset operand
    obtain ⟨own, moved, ownFound, movedFound, sum⟩ :=
      Layout.AreApart.exists_operands_moved inside near apart fits operand
    have late : offset < Layout.size right := by
      obtain ⟨found, _⟩ := List.getElem?_eq_some_iff.1 ownFound
      rwa [apart.behind.length_bytes] at found
    refine ⟨own, moved, ?_, ?_, sum⟩
    · rw [ofLines, apart.behind.get?_write_of_lt _ late, ownFound]
    · rw [bytesBehind late, movedFound]
  · intro offset late other
    rw [bytesBehind late, ofLines, apart.behind.get?_write_of_lt _ late,
      Layout.AreApart.getElem?_bytes_right inside near apart fits late
        other]
  · intro address behind
    rw [ofLines, sound.get?_write_of_le _ (by omega)]

theorem Relocates.of_renumbered
    {first second joined : Workspace size}
    {number : Nat → Nat}
    {lines : List SourceLine}
    {shift count : Nat}
    (relocates :
      first.Relocates second joined
        (lines.map (SourceLine.renumber number)) shift count) :
    first.Relocates second joined lines shift count where
  inFront := relocates.inFront
  jumps := by
    simpa only [Layout.isLabelOperand_renumber_iff] using relocates.jumps
  behind := by
    simpa only [Layout.isLabelOperand_renumber_iff] using relocates.behind
  rest := relocates.rest
  labels := relocates.labels

/-- A source that is assembled into a memory of zeros. -/
def assembled (size : Nat) (source : Text) :
    Workspace size × Except (List Diagnostic) Nat :=
  (ofMemory (.zero size)).assemble source

theorem assembled_eq_ofLines
    {source : Text}
    {count : Nat}
    (accepted : (assembled size source).2 = .ok count) :
    (assembled size source).1 = ofLines size (SourceLine.ofSource source) :=
  assemble_of_ok accepted

/--
A source is assembled behind another one, with which it shares no label, if
both fit and the labels that its jumps go to still have byte addresses.  It
is relocated then.
-/
theorem relocates_of_assembled
    {front back : Text}
    {shift count : Nat}
    (small : size < 65536)
    (first : (assembled size front).2 = .ok shift)
    (second : (assembled size back).2 = .ok count)
    (apart :
      ∀ name, (assembled size front).1.labels.resolve name = none ∨
        (assembled size back).1.labels.resolve name = none) :
    ((∃ total,
        (assembled size (front ++ '\n' :: back)).2 = .ok total) ↔
      shift + count ≤ size ∧
        Layout.StayNear shift (SourceLine.ofSource back)) ∧
    ∀ total, (assembled size (front ++ '\n' :: back)).2 = .ok total →
      total = shift + count ∧
        (assembled size front).1.Relocates (assembled size back).1
          (assembled size (front ++ '\n' :: back)).1
          (SourceLine.ofSource back) shift count := by
  obtain ⟨soundFront, rfl⟩ := assemble_eq_ok_iff.1 first
  obtain ⟨soundBack, rfl⟩ := assemble_eq_ok_iff.1 second
  rw [assembled, assembled, labels_assemble, labels_assemble] at apart
  let left := SourceLine.ofSource front
  let number := (· + front.lines.length)
  let right := (SourceLine.ofSource back).map (SourceLine.renumber number)
  have lines :
      SourceLine.ofSource (front ++ '\n' :: back) = left ++ right :=
    SourceLine.ofSource_append front back
  have taken :
      Layout.size right = Layout.size (SourceLine.ofSource back) :=
    Layout.size_renumber number _
  have labels :
      Layout.labelsOf right =
        Layout.labelsOf (SourceLine.ofSource back) :=
    Layout.labelsOf_renumber number _
  have areApart : Layout.AreApart size left right :=
    ⟨soundFront, labels ▸ Layout.allSound_renumber soundBack,
      labels ▸ apart⟩
  have soundIff := areApart.allSound_iff small
  rw [← lines, taken, Layout.stayNear_renumber_iff] at soundIff
  constructor
  · rw [← soundIff]
    constructor
    · rintro ⟨total, accepted⟩
      exact (assemble_eq_ok_iff.1 accepted).1
    · intro sound
      exact ⟨_, assemble_eq_ok_iff.2 ⟨sound, rfl⟩⟩
  · intro total accepted
    obtain ⟨sound, rfl⟩ := assemble_eq_ok_iff.1 accepted
    obtain ⟨fits, near⟩ := soundIff.1 sound
    refine ⟨by rw [lines, Layout.size_append, taken], ?_⟩
    rw [assembled_eq_ofLines first, assembled_eq_ofLines second,
      assembled_eq_ofLines accepted, lines,
      ← ofLines_renumber number (SourceLine.ofSource back)]
    have relocates := relocates_ofLines small areApart
      (by rwa [taken]) ((Layout.stayNear_renumber_iff number _).2 near)
    rw [taken] at relocates
    exact relocates.of_renumbered

/-- A loop is put behind two bytes and jumps to its own new address. -/
theorem relocates_loop :
    (assembled 8 "start: NOP".toList).1.Relocates
      (assembled 8 "loop: JMP loop".toList).1
      (assembled 8 ("start: NOP".toList ++ '\n' :: "loop: JMP loop".toList)).1
      (SourceLine.ofSource "loop: JMP loop".toList) 2 3 := by
  have apart (name : Text) :
      (assembled 8 "start: NOP".toList).1.labels.resolve name = none ∨
        (assembled 8 "loop: JMP loop".toList).1.labels.resolve name =
          none := by
    by_cases same : name = "start".toList
    · subst same
      exact Or.inr rfl
    · refine Or.inl ?_
      change (LabelTable.empty.define "start".toList 0).resolve name = none
      rw [LabelTable.resolve_define, if_neg same, LabelTable.resolve_empty]
  have first : (assembled 8 "start: NOP".toList).2 = .ok 2 := rfl
  have second : (assembled 8 "loop: JMP loop".toList).2 = .ok 3 := rfl
  have accepted :
      (assembled 8
        ("start: NOP".toList ++ '\n' :: "loop: JMP loop".toList)).2 =
          .ok 5 :=
    rfl
  exact ((relocates_of_assembled (by decide) first second apart).2 5
    accepted).2

end Workspace

end PocketCpu
