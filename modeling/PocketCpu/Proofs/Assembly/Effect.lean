import Mathlib.Data.List.Basic
import PocketCpu.Proofs.Assembly.Passes

/-!
# What an assembly writes

An assembly writes the bytes of every line that has some and that ends
inside of memory, also if other lines are at fault.  A line that cannot be
encoded keeps the room of its instruction, so the bytes of two lines never
overlap, and once a line does not fit none behind it does.  All other bytes
of memory are as before.
-/

namespace PocketCpu

/-! ## Writing pieces that do not overlap -/

namespace Emission

variable {size : Nat} {emissions : List Emission} {memory : Memory size}

/-- Every piece begins behind the end of the pieces in front of it. -/
def AreSpread (emissions : List Emission) : Prop :=
  emissions.Pairwise fun one other =>
    one.address + one.bytes.length ≤ other.address

/-- A byte that belongs to no piece stays. -/
theorem get?_foldl_writeTo
    {index : Nat}
    (outside :
      ∀ emission ∈ emissions,
        index < emission.address ∨
          emission.address + emission.bytes.length ≤ index) :
    (emissions.foldl writeTo memory).get? index = memory.get? index := by
  induction emissions generalizing memory with
  | nil => rfl
  | cons emission rest inductionHypothesis =>
      rw [List.foldl_cons, inductionHypothesis fun later member =>
        outside later (List.mem_cons_of_mem emission member), writeTo]
      rcases outside emission List.mem_cons_self with inFront | behind
      · exact Memory.get?_write_of_lt inFront
      · exact Memory.get?_write_of_le behind

/-- Every piece is read back where it was written. -/
theorem slice_foldl_writeTo
    {emission : Emission}
    (spread : AreSpread emissions)
    (member : emission ∈ emissions)
    (fits : emission.address + emission.bytes.length ≤ size) :
    (emissions.foldl writeTo memory).slice
        emission.address emission.bytes.length =
      emission.bytes := by
  induction emissions generalizing memory with
  | nil => cases member
  | cons first rest inductionHypothesis =>
      rw [List.foldl_cons]
      rcases List.mem_cons.1 member with rfl | later
      · -- The pieces behind it leave alone what it has written.
        have kept :
            ∀ index, emission.address ≤ index →
              index < emission.address + emission.bytes.length →
              (rest.foldl writeTo (emission.writeTo memory)).get? index =
                (emission.writeTo memory).get? index := by
          intro index _ below
          apply get?_foldl_writeTo
          intro other later
          have behind := List.rel_of_pairwise_cons spread later
          exact Or.inl (Nat.lt_of_lt_of_le below behind)
        rw [Memory.slice_congr kept]
        exact Memory.slice_write fits
      · exact inductionHypothesis spread.of_cons later

/--
Pieces that end inside of memory are written without leaving it, also if
their addresses are held in sixteen bits.
-/
theorem foldlM_write?
    (small : size < 65536)
    (fits :
      ∀ emission ∈ emissions,
        emission.address + emission.bytes.length ≤ size) :
    emissions.foldlM
        (fun memory emission =>
          memory.write? (UInt16.ofNat emission.address).toNat
            emission.bytes)
        memory =
      some (emissions.foldl writeTo memory) := by
  induction emissions generalizing memory with
  | nil => rfl
  | cons emission rest inductionHypothesis =>
      have inside := fits emission List.mem_cons_self
      have exact : (UInt16.ofNat emission.address).toNat = emission.address :=
        UInt16.toNat_ofNat_of_lt' (by
          rw [UInt16.size]
          omega)
      rw [List.foldlM_cons, exact, Memory.write?, if_pos inside,
        List.foldl_cons]
      exact inductionHypothesis fun later member =>
        fits later (List.mem_cons_of_mem emission member)

end Emission

/-! ## The pieces of a source -/

/-- A placed line is emitted if its instruction has bytes and they fit. -/
theorem PlacedLine.emission?_eq_some_iff
    {labels : LabelTable}
    {size : Nat}
    {placed : PlacedLine}
    {emission : Emission} :
    EmittedLine.emission? ⟨placed, placed.emit? labels size⟩ =
        some emission ↔
      ∃ text bytes, placed.line.code = some text ∧
        Statement.encodeText labels text = .ok bytes ∧
        placed.address + bytes.length ≤ size ∧
        emission = ⟨placed.line.number, placed.address, text, bytes⟩ := by
  cases written : placed.line.code with
  | none => simp [EmittedLine.emission?, emit?_of_code_eq_none written]
  | some text =>
      rw [EmittedLine.emission?]
      cases encoded : Statement.encodeText labels text with
      | error cause =>
          simp [emit?_of_encodeText_error written encoded, encoded]
      | ok bytes =>
          rw [emit?_of_encodeText written encoded]
          by_cases fits : placed.address + bytes.length ≤ size
          · simp [fits, encoded, eq_comm]
          · simp [fits, encoded]

namespace WrittenLine

variable {source raw : Text} {earlier lines : List Text}
variable {labels : LabelTable} {size : Nat} {bytes : List Byte}

/-- The line behind some lines of a source has an instruction with bytes. -/
def Encodes
    (source : Text)
    (labels : LabelTable)
    (earlier : List Text)
    (bytes : List Byte) : Prop :=
  ∃ raw, IsLineBehind source earlier raw ∧
    Statement.encodeText labels (code raw) = .ok bytes

/-- The line behind some lines has bytes that end inside of memory. -/
def Writes
    (source : Text)
    (labels : LabelTable)
    (size : Nat)
    (earlier : List Text)
    (bytes : List Byte) : Prop :=
  Encodes source labels earlier bytes ∧
    roomOf earlier + bytes.length ≤ size

/-- What a written line puts into memory, from an address on. -/
def emission?
    (labels : LabelTable)
    (size number start : Nat)
    (raw : Text) : Option Emission :=
  ((SourceLine.ofText? number raw).map (PlacedLine.mk · start)).bind
    fun placed => EmittedLine.emission? ⟨placed, placed.emit? labels size⟩

theorem emission?_eq_some_iff
    {number start : Nat}
    {emission : Emission} :
    emission? labels size number start raw = some emission ↔
      ∃ bytes, Statement.encodeText labels (code raw) = .ok bytes ∧
        start + bytes.length ≤ size ∧
        emission = ⟨number, start, code raw, bytes⟩ := by
  have silent
      (empty : code raw = []) :
      ¬ ∃ bytes, Statement.encodeText labels (code raw) = .ok bytes ∧
        start + bytes.length ≤ size ∧
        emission = ⟨number, start, code raw, bytes⟩ := by
    rw [empty]
    rintro ⟨bytes, encoded, _⟩
    cases encoded
  rw [emission?]
  rcases ofText?_cases number raw with
    ⟨dropped, _, empty⟩ | ⟨line, kept, reads⟩
  · rw [dropped]
    exact iff_of_false (by simp) (silent empty)
  · rw [kept, Option.map_some, Option.bind_some,
      PlacedLine.emission?_eq_some_iff]
    rcases reads.code_cases with ⟨empty, blank⟩ | ⟨_, written⟩
    · exact iff_of_false (by simp [blank]) (silent empty)
    · simp [written, reads.number]

/-- The emissions of lines behind others. -/
def emissions
    (labels : LabelTable)
    (size : Nat)
    (earlier lines : List Text) : List Emission :=
  (Layout.placeFrom (roomOf earlier)
      (read (earlier.length + 1) lines)).filterMap fun placed =>
    EmittedLine.emission? ⟨placed, placed.emit? labels size⟩

theorem emissions_cons (raw : Text) (rest : List Text) :
    emissions labels size earlier (raw :: rest) =
      (emission? labels size (earlier.length + 1)
          (roomOf earlier) raw).toList ++
        emissions labels size (earlier ++ [raw]) rest := by
  rw [emissions, placeFrom_read_cons, List.filterMap_append, emissions,
    roomOf_append, roomOf_singleton, List.length_append,
    List.length_singleton, emission?]
  cases SourceLine.ofText? (earlier.length + 1) raw with
  | none => rfl
  | some line =>
      rw [Option.map_some, Option.toList_some, Option.bind_some,
        List.filterMap_eq_flatMap_toList, List.flatMap_singleton]

/-- The emissions are those of the lines that have bytes and fit. -/
theorem mem_emissions_iff
    {emission : Emission} :
    emission ∈ emissions labels size earlier lines ↔
      ∃ front raw later, lines = front ++ raw :: later ∧
        emission? labels size ((earlier ++ front).length + 1)
            (roomOf (earlier ++ front)) raw =
          some emission := by
  induction lines generalizing earlier with
  | nil => simp [emissions, read]
  | cons raw rest inductionHypothesis =>
      rw [emissions_cons, List.mem_append, Option.mem_toList,
        inductionHypothesis]
      exact (exists_split_cons_iff fun front chosen =>
        emission? labels size (front.length + 1) (roomOf front) chosen =
          some emission).symm

/-- Emissions do not overlap, since each has the room of its line. -/
theorem areSpread_emissions :
    Emission.AreSpread (emissions labels size earlier lines) := by
  induction lines generalizing earlier with
  | nil => exact List.Pairwise.nil
  | cons raw rest inductionHypothesis =>
      rw [emissions_cons]
      cases here : emission? labels size (earlier.length + 1)
          (roomOf earlier) raw with
      | none => exact inductionHypothesis
      | some emission =>
          refine List.pairwise_cons.2 ⟨?_, inductionHypothesis⟩
          intro other member
          obtain ⟨front, chosen, later, _, emitted⟩ :=
            mem_emissions_iff.1 member
          obtain ⟨bytes, encoded, _, rfl⟩ := emission?_eq_some_iff.1 here
          obtain ⟨_, _, _, rfl⟩ := emission?_eq_some_iff.1 emitted
          simp only [roomOf_append, roomOf_singleton,
            room_of_encodeText encoded]
          omega

/-- Lines have different room, whether they fit into memory or not. -/
theorem Encodes.end_le
    {others : List Text}
    (encodes : Encodes source labels earlier bytes)
    (behind : IsLineBehind source others raw)
    (fewer : earlier.length < others.length) :
    roomOf earlier + bytes.length ≤ roomOf others := by
  obtain ⟨chosen, line, encoded⟩ := encodes
  obtain ⟨between, rfl⟩ := line.exists_between behind fewer
  rw [List.append_cons, roomOf_append, roomOf_append, roomOf_singleton,
    room_of_encodeText encoded]
  exact Nat.le_add_right _ _

end WrittenLine

/-! ## Assembling and loading -/

namespace Assembly

variable {size : Nat} {source : Text}

theorem emissions_ofSource_eq (size : Nat) (source : Text) :
    (ofSource size source).emissions =
      WrittenLine.emissions (ofSource size source).labels size []
        source.lines := by
  rw [emissions_ofSource, labels_ofSource, ← WrittenLine.read_lines]
  rfl

/-- What is emitted are the bytes of the lines that end inside of memory. -/
theorem exists_emission_iff
    {address : Nat}
    {bytes : List Byte} :
    (∃ emission ∈ (ofSource size source).emissions,
        emission.address = address ∧ emission.bytes = bytes) ↔
      ∃ earlier,
        WrittenLine.Writes source (ofSource size source).labels size
            earlier bytes ∧
          WrittenLine.roomOf earlier = address := by
  rw [emissions_ofSource_eq]
  constructor
  · rintro ⟨emission, member, rfl, rfl⟩
    obtain ⟨front, raw, later, split, emitted⟩ :=
      WrittenLine.mem_emissions_iff.1 member
    obtain ⟨bytes, encoded, fits, rfl⟩ :=
      WrittenLine.emission?_eq_some_iff.1 emitted
    exact ⟨front, ⟨⟨raw, ⟨later, split⟩, encoded⟩, fits⟩, rfl⟩
  · rintro ⟨front, ⟨⟨raw, ⟨later, split⟩, encoded⟩, fits⟩, rfl⟩
    refine ⟨_, WrittenLine.mem_emissions_iff.2
      ⟨front, raw, later, split,
        WrittenLine.emission?_eq_some_iff.2 ⟨bytes, encoded, fits, rfl⟩⟩,
      rfl, rfl⟩

/-- What is emitted ends inside of memory. -/
theorem end_le_of_mem_emissions
    {emission : Emission}
    (member : emission ∈ (ofSource size source).emissions) :
    emission.address + emission.bytes.length ≤ size := by
  obtain ⟨earlier, ⟨_, fits⟩, address⟩ :=
    exists_emission_iff.1 ⟨emission, member, rfl, rfl⟩
  rwa [← address]

theorem areSpread_emissions_ofSource :
    Emission.AreSpread (ofSource size source).emissions := by
  rw [emissions_ofSource_eq]
  exact WrittenLine.areSpread_emissions

end Assembly

/-- The bytes of a line are in memory if they end inside of it. -/
theorem Workspace.slice_assemble_of_writes
    {size : Nat}
    {workspace : Workspace size}
    {source : Text}
    {earlier : List Text}
    {bytes : List Byte}
    (writes :
      WrittenLine.Writes source (workspace.assemble source).1.labels size
        earlier bytes) :
    (workspace.assemble source).1.memory.slice
        (WrittenLine.roomOf earlier) bytes.length =
      bytes := by
  rw [labels_assemble] at writes
  obtain ⟨emission, member, address, rfl⟩ :=
    Assembly.exists_emission_iff.2 ⟨earlier, writes, rfl⟩
  rw [memory_assemble, ← address]
  exact Emission.slice_foldl_writeTo Assembly.areSpread_emissions_ofSource
    member (Assembly.end_le_of_mem_emissions member)

/--
A workspace is another one with the lines of a source written into it, as
far as they have bytes that end inside of memory.
-/
structure Workspace.HasLinesOf
    {size : Nat}
    (after before : Workspace size)
    (source : Text) : Prop where
  /-- The bytes of a line lie where the lines in front of it end. -/
  written :
    ∀ earlier bytes,
      WrittenLine.Writes source after.labels size earlier bytes →
      after.memory.slice (WrittenLine.roomOf earlier) bytes.length = bytes
  /-- A byte that belongs to no line is as before. -/
  kept :
    ∀ address,
      (∀ earlier bytes,
        WrittenLine.Writes source after.labels size earlier bytes →
        address < WrittenLine.roomOf earlier ∨
          WrittenLine.roomOf earlier + bytes.length ≤ address) →
      after.memory.get? address = before.memory.get? address
  /-- The bytes of a line end where those of a later line begin, or before. -/
  apart :
    ∀ earlier others bytes otherBytes,
      WrittenLine.Encodes source after.labels earlier bytes →
      WrittenLine.Encodes source after.labels others otherBytes →
      earlier.length < others.length →
      WrittenLine.roomOf earlier + bytes.length ≤
        WrittenLine.roomOf others
  /-- Behind a line that does not fit no line is written. -/
  ended :
    ∀ earlier others bytes otherBytes,
      WrittenLine.Encodes source after.labels earlier bytes →
      size < WrittenLine.roomOf earlier + bytes.length →
      earlier.length < others.length →
      ¬ WrittenLine.Writes source after.labels size others otherBytes
  /-- What is told of as written are these bytes and no others. -/
  pieces :
    ∀ address bytes,
      (∃ emission ∈ before.emissions source,
          emission.address = address ∧ emission.bytes = bytes) ↔
        ∃ earlier,
          WrittenLine.Writes source after.labels size earlier bytes ∧
            WrittenLine.roomOf earlier = address
  /-- They are written one after the other, and no write leaves memory. -/
  guarded :
    (before.emissions source).foldlM
        (fun memory emission =>
          memory.write? (UInt16.ofNat emission.address).toNat
            emission.bytes)
        before.memory =
      some after.memory

/--
Loading a source changes memory as its assembly does, puts the program
counter back to zero, and tells of it once.
-/
structure Machine.Loads
    {size : Nat}
    (machine : Machine size)
    (source : Text)
    (assembled : Workspace size × Except (List Diagnostic) Nat) :
    Prop where
  /-- Registers, flags and everything else stay. -/
  state :
    (machine.loadProgram source).machine =
      { machine with memory := assembled.1.memory, pc := 0 }
  result :
    (machine.loadProgram source).result =
      assembled.2.map fun _ => assembled.1.labels
  /-- What is shown has the new memory and, for the rest, the old state. -/
  notified :
    (machine.loadProgram source).events.filter Event.isNotification =
      [.stateChanged
        { machine.snapshot with
          memory := assembled.1.memory.bytes.toArray
          pc := 0 }]

theorem Machine.loads_of_memory_eq
    {size : Nat}
    {machine : Machine size}
    {workspace : Workspace size}
    (same : machine.memory = workspace.memory)
    (source : Text) :
    machine.Loads source (workspace.assemble source) := by
  have silent (notices : List AssemblyNotice) :
      (notices.map AssemblyNotice.event).filter Event.isNotification =
        [] := by
    rw [List.filter_eq_nil_iff]
    intro event member
    obtain ⟨notice, _, rfl⟩ := List.mem_map.1 member
    exact Bool.false_ne_true
  refine ⟨?_, ?_, ?_⟩
  · rw [loadProgram_eq, same, Workspace.assemble_eq]
  · rw [loadProgram_eq, Workspace.assemble_eq]
  · rw [loadProgram_eq, List.filter_append, silent, List.nil_append,
      loadProgram_eq, same, Workspace.assemble_eq]
    rfl

/--
Whether a source is assembled or refused, memory has the bytes of the lines
that fit and is otherwise as before, and so is a machine that loads it.
-/
theorem Workspace.hasLinesOf_assemble
    {size : Nat}
    (small : size < 65536)
    (workspace : Workspace size)
    (source : Text) :
    (workspace.assemble source).1.HasLinesOf workspace source ∧
      ∀ machine : Machine size, machine.memory = workspace.memory →
        machine.Loads source (workspace.assemble source) := by
  have pieces {address : Nat} {bytes : List Byte} :
      (∃ emission ∈ (Assembly.ofSource size source).emissions,
          emission.address = address ∧ emission.bytes = bytes) ↔
        ∃ earlier,
          WrittenLine.Writes source (workspace.assemble source).1.labels
              size earlier bytes ∧
            WrittenLine.roomOf earlier = address := by
    rw [labels_assemble]
    exact Assembly.exists_emission_iff
  refine ⟨?_, fun machine same => Machine.loads_of_memory_eq same source⟩
  refine ⟨fun _ _ => slice_assemble_of_writes, ?_, ?_, ?_, ?_, ?_⟩
  · intro index outside
    rw [memory_assemble]
    apply Emission.get?_foldl_writeTo
    intro emission member
    obtain ⟨earlier, writes, address⟩ :=
      pieces.1 ⟨emission, member, rfl, rfl⟩
    rw [← address]
    exact outside earlier emission.bytes writes
  · rintro earlier others bytes _ encodes ⟨raw, line, _⟩ fewer
    exact encodes.end_le line fewer
  · rintro earlier others bytes _ encodes long fewer ⟨⟨raw, line, _⟩, short⟩
    have behind := encodes.end_le line fewer
    omega
  · intro address bytes
    rw [emissions_eq]
    exact pieces
  · rw [emissions_eq, memory_assemble]
    exact Emission.foldlM_write? small fun _ =>
      Assembly.end_le_of_mem_emissions

/-- A jump to nowhere, half of a move, and then more than seven bytes hold. -/
def faultySource : Text :=
  "JMP far
MOV AL
NOT AX
NOT BX
HLT".toList

/--
The jump to nowhere keeps its three bytes, the half of a move has none, and
the last two lines do not fit behind the three bytes of the first negation.
A machine that loads this begins again at zero and shows these bytes.
-/
theorem Workspace.hasLinesOf_faulty :
    let before : Workspace 7 := ofMemory (.filled 7 0xaa)
    let machine : Machine 7 :=
      { Machine.initial 7 with memory := .filled 7 0xaa, pc := 3 }
    let bytes : List Byte := [0xaa, 0xaa, 0xaa, 0x16, 0x00, 0x01, 0xaa]
    (before.assemble faultySource).1.HasLinesOf before faultySource ∧
      (before.assemble faultySource).1.memory.toList = bytes ∧
      machine.Loads faultySource (before.assemble faultySource) ∧
      (machine.loadProgram faultySource).machine.pc = 0 ∧
      (machine.loadProgram faultySource).events.filter
          Event.isNotification =
        [.stateChanged ⟨.zero, .initial, bytes.toArray, 0, ⟨0, 0⟩⟩] := by
  intro before machine bytes
  have written :
      (before.assemble faultySource).1.memory = ⟨bytes.toArray.toVector⟩ := by
    rw [memory_assemble]
    rfl
  obtain ⟨hasLines, loads⟩ :=
    hasLinesOf_assemble (by decide) before faultySource
  have loaded := loads machine rfl
  refine ⟨hasLines, ?_, loaded, ?_, ?_⟩
  · rw [written]
    rfl
  · rw [loaded.state]
  · rw [loaded.notified, written]
    rfl

end PocketCpu
