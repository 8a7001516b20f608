import PocketCpu.Assembly.Layout

/-!
# What labels resolve to

Lines are placed one behind the other, so the address of a line is the size
of the lines before it.  The table of labels is filled line by line, and a
later definition replaces an earlier one: a name resolves to the address of
the last line that defines it, and to nothing if no line does.
-/

namespace PocketCpu

namespace SourceLine

/--
The lines `before` stand before the last line that defines a name.
-/
def LastDefinition
    (lines : List SourceLine)
    (name : Text)
    (before : List SourceLine) : Prop :=
  ∃ line after,
    lines = before ++ line :: after ∧
      line.label = .defines name ∧
      ∀ later ∈ after, later.label ≠ .defines name

variable {line : SourceLine} {rest before : List SourceLine} {name : Text}

theorem not_lastDefinition_nil :
    ¬ LastDefinition [] name before := by
  rintro ⟨line, after, split, _⟩
  exact List.append_ne_nil_of_right_ne_nil before
    (List.cons_ne_nil line after) split.symm

/-- The last definition is on the first line or behind it. -/
theorem lastDefinition_cons_iff :
    LastDefinition (line :: rest) name before ↔
      (before = [] ∧ line.label = .defines name ∧
        ∀ later ∈ rest, later.label ≠ .defines name) ∨
      ∃ earlier,
        before = line :: earlier ∧ LastDefinition rest name earlier := by
  constructor
  · rintro ⟨last, after, split, defines, final⟩
    cases before with
    | nil =>
        cases split
        exact Or.inl ⟨rfl, defines, final⟩
    | cons first earlier =>
        obtain ⟨rfl, restSplit⟩ := List.cons_eq_cons.1 split
        exact Or.inr
          ⟨earlier, rfl, last, after, restSplit, defines, final⟩
  · rintro (⟨rfl, defines, final⟩ |
      ⟨earlier, rfl, last, after, rfl, defines, final⟩)
    · exact ⟨line, rest, rfl, defines, final⟩
    · exact ⟨last, after, rfl, defines, final⟩

/-- A name that some line defines has a last definition. -/
theorem exists_lastDefinition
    {lines : List SourceLine}
    (defined : ∃ line ∈ lines, line.label = .defines name) :
    ∃ before, LastDefinition lines name before := by
  induction lines with
  | nil =>
      obtain ⟨line, member, _⟩ := defined
      cases member
  | cons first rest inductionHypothesis =>
      by_cases again : ∃ later ∈ rest, later.label = .defines name
      · obtain ⟨before, last⟩ := inductionHypothesis again
        exact ⟨first :: before,
          lastDefinition_cons_iff.2 (Or.inr ⟨before, rfl, last⟩)⟩
      · have final : ∀ later ∈ rest, later.label ≠ .defines name :=
          fun later member defines => again ⟨later, member, defines⟩
        obtain ⟨line, member, defines⟩ := defined
        rcases List.mem_cons.1 member with rfl | inRest
        · exact ⟨[],
            lastDefinition_cons_iff.2 (Or.inl ⟨rfl, defines, final⟩)⟩
        · exact absurd defines (final line inRest)

end SourceLine

namespace Layout

/-! ## Addresses -/

@[simp]
theorem size_nil : size [] = 0 :=
  rfl

@[simp]
theorem size_cons (line : SourceLine) (rest : List SourceLine) :
    size (line :: rest) = line.size + size rest :=
  rfl

/-- Lines are placed behind the lines in front of them. -/
theorem placeFrom_append
    (start : Nat)
    (left right : List SourceLine) :
    placeFrom start (left ++ right) =
      placeFrom start left ++ placeFrom (start + size left) right := by
  induction left generalizing start with
  | nil => simp
  | cons line rest inductionHypothesis =>
      rw [List.cons_append, placeFrom_cons, placeFrom_cons,
        inductionHypothesis, size_cons, Nat.add_assoc, List.cons_append]

/-! ## Labels -/

/-- The labels of lines, at the addresses where the lines are placed. -/
def labelsOf (lines : List SourceLine) : LabelTable :=
  labels (place lines)

/-- A placed line defines its own label and leaves the others alone. -/
theorem resolve_define
    (table : LabelTable)
    (line : SourceLine)
    (address : Nat)
    (name : Text) :
    (PlacedLine.define table ⟨line, address⟩).resolve name =
      if line.label = .defines name then some (UInt16.ofNat address)
      else table.resolve name := by
  rw [PlacedLine.define]
  cases label : line.label with
  | defines own =>
      by_cases same : name = own
      · simp [same]
      · have different : own ≠ name := fun equal => same equal.symm
        simp [same, different]
  | absent => simp
  | malformed _ => simp

/-- Lines that do not define a name do not change what it resolves to. -/
theorem resolve_foldl_define_of_not_defined
    {start : Nat}
    {lines : List SourceLine}
    {table : LabelTable}
    {name : Text}
    (undefined : ∀ line ∈ lines, line.label ≠ .defines name) :
    ((placeFrom start lines).foldl PlacedLine.define table).resolve name =
      table.resolve name := by
  induction lines generalizing start table with
  | nil => rfl
  | cons line rest inductionHypothesis =>
      have notHere : line.label ≠ .defines name :=
        undefined line List.mem_cons_self
      rw [placeFrom_cons, List.foldl_cons,
        inductionHypothesis fun later member =>
          undefined later (List.mem_cons_of_mem line member),
        resolve_define, if_neg notHere]

/-- A name resolves to the address of the last line that defines it. -/
theorem resolve_foldl_define_of_lastDefinition
    {start : Nat}
    {lines before : List SourceLine}
    {table : LabelTable}
    {name : Text}
    (last : SourceLine.LastDefinition lines name before) :
    ((placeFrom start lines).foldl PlacedLine.define table).resolve name =
      some (UInt16.ofNat (start + size before)) := by
  induction lines generalizing start table before with
  | nil => exact absurd last SourceLine.not_lastDefinition_nil
  | cons line rest inductionHypothesis =>
      rw [placeFrom_cons, List.foldl_cons]
      rcases SourceLine.lastDefinition_cons_iff.1 last with
        ⟨rfl, defines, final⟩ | ⟨earlier, rfl, lastInRest⟩
      · rw [resolve_foldl_define_of_not_defined final, resolve_define,
          if_pos defines, size_nil, Nat.add_zero]
      · rw [inductionHypothesis lastInRest, size_cons, Nat.add_assoc]

/--
A name resolves to the size of the lines before its last definition, cut to
sixteen bits, and only names that are defined resolve.
-/
theorem resolve_labelsOf_iff
    {lines : List SourceLine}
    {name : Text}
    {address : Word} :
    (labelsOf lines).resolve name = some address ↔
      ∃ before, SourceLine.LastDefinition lines name before ∧
        address = UInt16.ofNat (size before) := by
  constructor
  · intro resolved
    by_cases defined : ∃ line ∈ lines, line.label = .defines name
    · obtain ⟨before, last⟩ := SourceLine.exists_lastDefinition defined
      refine ⟨before, last, ?_⟩
      rw [labelsOf, labels, place,
        resolve_foldl_define_of_lastDefinition last, Nat.zero_add] at resolved
      exact (Option.some.inj resolved).symm
    · have undefined : ∀ line ∈ lines, line.label ≠ .defines name :=
        fun line member defines => defined ⟨line, member, defines⟩
      rw [labelsOf, labels, place,
        resolve_foldl_define_of_not_defined undefined,
        LabelTable.resolve_empty] at resolved
      cases resolved
  · rintro ⟨before, last, rfl⟩
    rw [labelsOf, labels, place, resolve_foldl_define_of_lastDefinition last,
      Nat.zero_add]

/-- A name has no address exactly if no line defines it. -/
theorem resolve_labelsOf_eq_none_iff
    {lines : List SourceLine}
    {name : Text} :
    (labelsOf lines).resolve name = none ↔
      ∀ line ∈ lines, line.label ≠ .defines name := by
  constructor
  · intro unbound line member defines
    obtain ⟨before, last⟩ :=
      SourceLine.exists_lastDefinition ⟨line, member, defines⟩
    have bound := resolve_labelsOf_iff.2 ⟨before, last, rfl⟩
    cases unbound.symm.trans bound
  · exact resolve_foldl_define_of_not_defined

end Layout

end PocketCpu
