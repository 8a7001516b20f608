import PocketCpu.Proofs.Assembly.Effect
import PocketCpu.Proofs.Assembly.Joining
import PocketCpu.Proofs.Assembly.Numbering
import PocketCpu.Proofs.Assembly.Reporting
import PocketCpu.Proofs.Text.Pieces

/-!
# Where jumps to labels go

The address of a label is the room of all lines in front of its last
definition.  A line that jumps to a label holds this address or is refused,
and it is refused if the address is no byte.  This is so in sources of any
length, for every label whose address has sixteen bits.  A longer address is
cut to sixteen bits before anything asks whether it is a byte, so a jump to
such a label may go elsewhere.
-/

namespace PocketCpu

/-! ## Last definitions -/

/-- A trimmed label defines itself if it is a name. -/
theorem LabelPart.ofText_eq_defines_iff
    {own name : Text} :
    ofText own = .defines name ↔
      own = name ∧ name ≠ [] ∧
        ∀ character ∈ name, Text.isBlank character = false := by
  have wellFormed :
      ¬ (own.isEmpty || own.any Text.isBlank) = true ↔
        own ≠ [] ∧
          ∀ character ∈ own, Text.isBlank character = false := by
    simp
  rw [ofText]
  by_cases malformed : (own.isEmpty || own.any Text.isBlank) = true
  · rw [if_pos malformed]
    refine iff_of_false LabelPart.noConfusion ?_
    rintro ⟨rfl, isName⟩
    exact wellFormed.2 isName malformed
  · rw [if_neg malformed, LabelPart.defines.injEq]
    refine (and_iff_left_of_imp ?_).symm
    rintro rfl
    exact wellFormed.1 malformed

namespace WrittenLine

variable {source name raw : Text} {earlier others lines : List Text}

/-- The label of a written line is well formed and defines a name. -/
def Defines (raw name : Text) : Prop :=
  label? raw = some name ∧ name ≠ [] ∧
    ∀ character ∈ name, Text.isBlank character = false

theorem Reads.defines_iff
    {number : Nat}
    {line : SourceLine}
    (reads : Reads number raw line) :
    line.label = .defines name ↔ Defines raw name := by
  rw [reads.label, Defines]
  cases label? raw with
  | none => simp
  | some own =>
      rw [Option.elim_some, LabelPart.ofText_eq_defines_iff,
        Option.some_inj]

/-- The last line that defines a name stands behind some lines of a source. -/
def IsLastDefinition
    (source name : Text)
    (earlier : List Text) : Prop :=
  ∃ raw later, source.lines = earlier ++ raw :: later ∧
    Defines raw name ∧ ∀ other ∈ later, ¬ Defines other name

/-- No line behind the last definition defines the name. -/
theorem IsLastDefinition.length_le
    (last : IsLastDefinition source name earlier)
    (line : IsLineBehind source others raw)
    (defines : Defines raw name) :
    others.length ≤ earlier.length := by
  obtain ⟨own, later, lines, -, final⟩ := last
  by_contra more
  obtain ⟨between, rfl⟩ :=
    IsLineBehind.exists_between ⟨later, lines⟩ line (Nat.lt_of_not_le more)
  obtain ⟨rest, linesAgain⟩ := line
  rw [lines, List.append_assoc, List.cons_append] at linesAgain
  obtain ⟨-, rfl⟩ := List.cons.inj (List.append_cancel_left linesAgain)
  exact final raw (List.mem_append_right _ List.mem_cons_self) defines

theorem IsLastDefinition.unique
    (last : IsLastDefinition source name earlier)
    (again : IsLastDefinition source name others) :
    earlier = others := by
  have ⟨raw, later, lines, defines, _⟩ := last
  have ⟨other, rest, linesAgain, definesAgain, _⟩ := again
  have same : earlier.length = others.length :=
    Nat.le_antisymm (again.length_le ⟨later, lines⟩ defines)
      (last.length_le ⟨rest, linesAgain⟩ definesAgain)
  exact (List.append_inj (lines.symm.trans linesAgain) same).1

/-- A name that some line defines has a last definition. -/
theorem exists_isLastDefinition
    (defined : ∃ raw ∈ source.lines, Defines raw name) :
    ∃ earlier, IsLastDefinition source name earlier := by
  classical
  obtain ⟨raw, member, defines⟩ := defined
  -- The last definition is the first one from behind.
  have found :
      (source.lines.reverse.find? fun raw => Defines raw name).isSome := by
    rw [List.find?_isSome]
    exact ⟨raw, List.mem_reverse.2 member, decide_eq_true defines⟩
  obtain ⟨last, found⟩ := Option.isSome_iff_exists.1 found
  obtain ⟨isDefinition, later, front, split, final⟩ :=
    List.find?_eq_some_iff_append.1 found
  refine ⟨front.reverse, last, later.reverse, ?_,
    of_decide_eq_true isDefinition, ?_⟩
  · rw [← List.reverse_inj, split]
    simp
  · intro other member
    simpa using final other (List.mem_reverse.1 member)

/-! ## Addresses of labels -/

/-- Lines take the same room before and after they are read. -/
theorem size_read (first : Nat) (lines : List Text) :
    Layout.size (read first lines) = roomOf lines := by
  induction lines generalizing first with
  | nil => rfl
  | cons raw rest inductionHypothesis =>
      rw [read_cons, Layout.size_append, inductionHypothesis, roomOf]
      rcases ofText?_cases first raw with
        ⟨dropped, -, empty⟩ | ⟨line, kept, reads⟩
      · rw [dropped, room_of_code_eq_nil empty]
        rfl
      · rw [kept, ← reads.size]
        rfl

/-- The last definition among written lines is the last one that is read. -/
theorem IsLastDefinition.lastDefinition
    (last : IsLastDefinition source name earlier) :
    SourceLine.LastDefinition (SourceLine.ofSource source) name
      (read 1 earlier) := by
  obtain ⟨raw, later, lines, defines, final⟩ := last
  rw [← read_lines, lines, read_append, read_cons]
  rcases ofText?_cases (1 + earlier.length) raw with
    ⟨-, unlabelled, -⟩ | ⟨line, kept, reads⟩
  · cases unlabelled.symm.trans defines.1
  · rw [kept]
    refine ⟨line, _, rfl, reads.defines_iff.2 defines, ?_⟩
    intro other member
    obtain ⟨otherRaw, number, numbered, otherReads⟩ :=
      exists_reads_of_mem_read member
    have inside := List.fst_mem_of_mem_zipIdx numbered
    exact mt otherReads.defines_iff.1 (final otherRaw inside)

/-- A name has the room in front of its last definition, in sixteen bits. -/
theorem resolve_ofSource_iff
    {address : Word} :
    (Layout.labelsOf (SourceLine.ofSource source)).resolve name =
        some address ↔
      ∃ target, IsLastDefinition source name target ∧
        address = UInt16.ofNat (roomOf target) := by
  constructor
  · intro bound
    by_cases defined : ∃ raw ∈ source.lines, Defines raw name
    · obtain ⟨target, last⟩ := exists_isLastDefinition defined
      have again :=
        Layout.resolve_labelsOf_iff.2 ⟨_, last.lastDefinition, rfl⟩
      rw [size_read] at again
      exact ⟨target, last, Option.some.inj (bound.symm.trans again)⟩
    · have undefined :
          ∀ line ∈ SourceLine.ofSource source,
            line.label ≠ .defines name := by
        intro line member defines
        obtain ⟨raw, number, numbered, reads⟩ :=
          exists_reads_of_mem_read member
        have inside := List.fst_mem_of_mem_zipIdx numbered
        exact defined ⟨raw, inside, reads.defines_iff.1 defines⟩
      have unbound := Layout.resolve_labelsOf_eq_none_iff.2 undefined
      cases bound.symm.trans unbound
  · rintro ⟨target, last, rfl⟩
    rw [Layout.resolve_labelsOf_iff]
    exact ⟨_, last.lastDefinition, by rw [size_read]⟩

/-- The instruction on a written line is a jump to a label. -/
def JumpsTo (raw : Text) (condition : Condition) (name : Text) : Prop :=
  Statement.ofText (code raw) = .ok (.jumpToLabel condition name)

end WrittenLine

/-! ## Jumps -/

/-- An instruction is at fault, or its bytes end inside of memory. -/
theorem CodeFault.exists_or_fits
    {text : Text}
    (present : text ≠ [])
    (labels : LabelTable)
    (size address : Nat) :
    (∃ cause, CodeFault labels size address text cause) ∨
      ∃ bytes, Statement.encodeText labels text = .ok bytes ∧
        address + bytes.length ≤ size := by
  let placed : PlacedLine := ⟨⟨0, .absent, some text⟩, address⟩
  have written : placed.line.code = some text := rfl
  cases encoded : Statement.encodeText labels text with
  | error cause => exact Or.inl ⟨cause, .of_encodeText present encoded⟩
  | ok bytes =>
      by_cases fits : address + bytes.length ≤ size
      · exact Or.inr ⟨bytes, rfl, fits⟩
      · have refused :
            placed.emit? labels size =
              some (.error
                (.doesNotFit text (address + bytes.length - 1) size)) := by
          rw [PlacedLine.emit?_of_encodeText written encoded, if_neg fits]
        exact Or.inl ⟨_, (CodeFault.iff_emit? written present).2 refused⟩

namespace Workspace

open WrittenLine

variable {size : Nat} {workspace : Workspace size}
variable {source name raw : Text} {earlier target : List Text}
variable {condition : Condition}

/-- A source is refused because of the instruction on one of its lines. -/
def Refuses
    (workspace : Workspace size)
    (source : Text)
    (earlier : List Text)
    (raw : Text) : Prop :=
  ∃ diagnostics cause,
    (workspace.assemble source).2 = .error diagnostics ∧
      ⟨earlier.length + 1, cause⟩ ∈ diagnostics ∧
      CodeFault (workspace.assemble source).1.labels size
        (roomOf earlier) (code raw) cause

/-- A jump is in memory, with the address of a label as its operand. -/
def HoldsJump
    (workspace : Workspace size)
    (source : Text)
    (earlier : List Text)
    (condition : Condition)
    (address : Nat) : Prop :=
  ∃ operand : Byte, operand.toNat = address ∧
    (workspace.assemble source).1.memory.slice (roomOf earlier) 3 =
      [condition.opcode.code, 0x03, operand]

theorem refuses_of_codeFault
    {cause : Cause}
    (line : IsLineBehind source earlier raw)
    (fault :
      CodeFault (workspace.assemble source).1.labels size
        (roomOf earlier) (code raw) cause) :
    workspace.Refuses source earlier raw := by
  have member :
      ⟨earlier.length + 1, cause⟩ ∈
        (Assembly.ofSource size source).diagnostics := by
    rw [labels_assemble] at fault
    exact Assembly.mem_diagnostics_ofSource_iff.2
      ⟨earlier, raw, line, rfl, Or.inr fault⟩
  have refused : (workspace.assemble source).2 = .error _ :=
    (workspace.result_assemble source).trans
      (Assembly.result_eq_error_iff.2 ⟨List.ne_nil_of_mem member, rfl⟩)
  exact ⟨_, cause, refused, member, fault⟩

/-- A name resolves to the room in front of its last definition. -/
theorem resolve_assemble_iff
    {address : Word} :
    (workspace.assemble source).1.labels.resolve name = some address ↔
      ∃ target, IsLastDefinition source name target ∧
        address = UInt16.ofNat (roomOf target) := by
  rw [labels_assemble, Assembly.labels_ofSource]
  exact resolve_ofSource_iff

/-- A jump to a label is refused, or holds what its label resolves to. -/
theorem refuses_or_holdsJump
    (line : IsLineBehind source earlier raw)
    (jumps : JumpsTo raw condition name) :
    workspace.Refuses source earlier raw ∨
      ∃ address : Word,
        (workspace.assemble source).1.labels.resolve name =
            some address ∧
          workspace.HoldsJump source earlier condition address.toNat := by
  have present : code raw ≠ [] := by
    intro empty
    rw [JumpsTo, empty] at jumps
    cases jumps
  rcases CodeFault.exists_or_fits present
      (workspace.assemble source).1.labels size (roomOf earlier) with
    ⟨cause, fault⟩ | ⟨bytes, encoded, fits⟩
  · exact Or.inl (refuses_of_codeFault line fault)
  · have held :=
      slice_assemble_of_writes ⟨⟨raw, line, encoded⟩, fits⟩
    obtain ⟨address, bound, near, rfl⟩ :=
      (Statement.encodeText_of_jump jumps).1 encoded
    refine Or.inr ⟨address, bound, address.toUInt8, ?_, held⟩
    rw [UInt16.toNat_toUInt8]
    exact Nat.mod_eq_of_lt (Nat.lt_succ_of_le near)

/-- Jumps to a name go to the address of its last definition. -/
structure AimsAt
    (workspace : Workspace size)
    (source name : Text) : Prop where
  /-- A name in the table has the room in front of its last definition. -/
  bound :
    ∀ address,
      (workspace.assemble source).1.labels.resolve name = some address →
      ∃ target, IsLastDefinition source name target ∧
        address.toNat = roomOf target
  /-- A line that jumps to the name is refused or holds this address. -/
  jumps :
    ∀ earlier raw condition,
      IsLineBehind source earlier raw →
      JumpsTo raw condition name →
      workspace.Refuses source earlier raw ∨
        ∃ target, IsLastDefinition source name target ∧
          workspace.HoldsJump source earlier condition (roomOf target)
  /-- A jump to an address that is no byte is refused. -/
  distant :
    ∀ earlier raw condition target,
      IsLineBehind source earlier raw →
      JumpsTo raw condition name →
      IsLastDefinition source name target →
      255 < roomOf target →
      workspace.Refuses source earlier raw

/-- Jumps to a name go right exactly if its address has sixteen bits. -/
theorem aimsAt_iff (workspace : Workspace size) (source name : Text) :
    workspace.AimsAt source name ↔
      ∀ target, IsLastDefinition source name target →
        roomOf target < 65536 := by
  constructor
  · intro aims target last
    have bound :
        (workspace.assemble source).1.labels.resolve name =
          some (UInt16.ofNat (roomOf target)) :=
      resolve_assemble_iff.2 ⟨target, last, rfl⟩
    obtain ⟨again, lastAgain, address⟩ := aims.bound _ bound
    rw [last.unique lastAgain, ← address]
    exact UInt16.toNat_lt _
  · intro short
    have bound {address : Word}
        (resolved :
          (workspace.assemble source).1.labels.resolve name =
            some address) :
        ∃ target, IsLastDefinition source name target ∧
          address.toNat = roomOf target := by
      obtain ⟨target, last, rfl⟩ := resolve_assemble_iff.1 resolved
      exact ⟨target, last, Nat.mod_eq_of_lt (short target last)⟩
    have jumps
        {earlier : List Text}
        {raw : Text}
        {condition : Condition}
        (line : IsLineBehind source earlier raw)
        (jump : JumpsTo raw condition name) :
        workspace.Refuses source earlier raw ∨
          ∃ target, IsLastDefinition source name target ∧
            workspace.HoldsJump source earlier condition
              (roomOf target) := by
      rcases refuses_or_holdsJump line jump with
        refused | ⟨address, resolved, held⟩
      · exact Or.inl refused
      · obtain ⟨target, last, same⟩ := bound resolved
        rw [same] at held
        exact Or.inr ⟨target, last, held⟩
    refine ⟨fun _ => bound, fun _ _ _ => jumps, ?_⟩
    intro earlier raw condition target line jump last far
    rcases jumps line jump with refused | ⟨again, lastAgain, held⟩
    · exact refused
    · -- No byte of memory holds the address.
      obtain ⟨operand, same, -⟩ := held
      rw [lastAgain.unique last] at same
      have small := operand.toNat_lt
      omega

/-! ## A jump that goes astray -/

/-- A jump to a label, and moves of four bytes each behind it. -/
def jumpAndMoves (count : Nat) : List Text :=
  "JMP x".toList :: List.replicate count "MOV AX, AX".toList

/-- A source that jumps over moves to the label on its last line. -/
def jumpOver (count : Nat) : Text :=
  (jumpAndMoves count).flatMap (· ++ ['\n']) ++ "x: HLT".toList

theorem lines_jumpOver (count : Nat) :
    (jumpOver count).lines = jumpAndMoves count ++ ["x: HLT".toList] := by
  have single : ∀ raw ∈ jumpAndMoves count, raw.lines = [raw] := by
    intro raw member
    rcases List.mem_cons.1 member with rfl | move
    · rfl
    · rw [List.eq_of_mem_replicate move]
      rfl
  rw [jumpOver]
  generalize jumpAndMoves count = lines at single ⊢
  induction lines with
  | nil => rfl
  | cons raw rest inductionHypothesis =>
      rw [List.flatMap_cons, List.append_assoc, List.append_assoc,
        List.singleton_append, Text.lines_append_cons,
        single raw List.mem_cons_self,
        inductionHypothesis fun later member =>
          single later (List.mem_cons_of_mem raw member)]
      rfl

theorem isLastDefinition_jumpOver (count : Nat) :
    IsLastDefinition (jumpOver count) "x".toList (jumpAndMoves count) := by
  have visible :
      ∀ character ∈ "x".toList, Text.isBlank character = false := by
    intro character member
    rw [List.mem_singleton.1 member]
    rfl
  refine ⟨"x: HLT".toList, [], lines_jumpOver count, ?_, ?_⟩
  · exact ⟨rfl, List.cons_ne_nil _ _, visible⟩
  · intro other member
    cases member

theorem roomOf_jumpAndMoves (count : Nat) :
    roomOf (jumpAndMoves count) = 3 + 4 * count := by
  have moves :
      roomOf (List.replicate count "MOV AX, AX".toList) = 4 * count := by
    induction count with
    | zero => rfl
    | succ count inductionHypothesis =>
        have room : WrittenLine.room "MOV AX, AX".toList = 4 := rfl
        rw [List.replicate_succ, roomOf, inductionHypothesis, room]
        omega
  rw [jumpAndMoves, roomOf, moves]
  rfl

/-- A label over sixteen bits away is taken for one at address three. -/
theorem not_aimsAt_distant :
    roomOf (jumpAndMoves 16384) = 65539 ∧
      ((ofMemory (.zero 3)).assemble (jumpOver 16384)).1.memory.slice 0 3 =
        [0x17, 0x03, 0x03] ∧
      ¬ (ofMemory (.zero 3)).AimsAt (jumpOver 16384) "x".toList := by
  have last := isLastDefinition_jumpOver 16384
  have room := roomOf_jumpAndMoves 16384
  have lines := lines_jumpOver 16384
  generalize jumpOver 16384 = source at last lines ⊢
  have bound :
      ((ofMemory (.zero 3)).assemble source).1.labels.resolve "x".toList =
        some 3 :=
    resolve_assemble_iff.2 ⟨_, last, by rw [room]; rfl⟩
  refine ⟨room, ?_, ?_⟩
  · have jumps : JumpsTo "JMP x".toList .always "x".toList := rfl
    have encoded :=
      (Statement.encodeText_of_jump jumps).2 ⟨3, bound, by decide, rfl⟩
    have writes :
        Writes source ((ofMemory (.zero 3)).assemble source).1.labels 3 []
          [0x17, 0x03, 0x03] :=
      ⟨⟨"JMP x".toList, ⟨_, lines⟩, encoded⟩, le_rfl⟩
    exact slice_assemble_of_writes writes
  · intro aims
    obtain ⟨target, again, same⟩ := aims.bound 3 bound
    rw [← last.unique again, room] at same
    cases same

end Workspace

end PocketCpu
