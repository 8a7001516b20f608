import Mathlib.Data.Prod.Lex
import Mathlib.Data.Set.Card
import PocketCpu.Assembly.LabelTable
import PocketCpu.Proofs.Text.ByteOrder

/-!
# Histories of a label table

A label table changes when a name is defined and when the table is cleared.
After any such changes a name resolves to the address of its last definition
behind the last clearing, and a definition answers with what the name
resolved to before it.  The canonical listing depends on nothing but what
names resolve to: it names each of them once, in one strict order of
addresses and names, so neither the history behind a table nor the order in
which its entries are visited can be told from it.
-/

namespace PocketCpu

namespace LabelTable

/-! ## Entries in any order -/

/-- Entries name each name that resolves, once and with its address. -/
structure Enumerates
    (entries : List (Text × Word))
    (table : LabelTable) : Prop where
  once : (entries.map Prod.fst).Nodup
  mem_iff :
    ∀ name address,
      (name, address) ∈ entries ↔ table.resolve name = some address

variable {entries others : List (Text × Word)} {table : LabelTable}

/-- A look-up finds any entry if no name occurs twice. -/
theorem lookup_eq_some_iff_mem
    {name : Text}
    {address : Word}
    (once : (entries.map Prod.fst).Nodup) :
    entries.lookup name = some address ↔ (name, address) ∈ entries := by
  induction entries with
  | nil => simp
  | cons entry rest inductionHypothesis =>
      obtain ⟨key, bound⟩ := entry
      obtain ⟨absent, restOnce⟩ := List.nodup_cons.1 once
      by_cases same : name = key
      · subst same
        have notBehind : (name, address) ∉ rest :=
          fun member => absent (List.mem_map.2 ⟨_, member, rfl⟩)
        simp [notBehind, eq_comm]
      · have different : (name == key) = false := beq_eq_false_iff_ne.2 same
        rw [List.lookup_cons, different, List.mem_cons]
        simp [same, inductionHypothesis restOnce]

theorem enumerates_entries (table : LabelTable) :
    Enumerates table.entries table :=
  ⟨table.distinct, fun _ _ => (lookup_eq_some_iff_mem table.distinct).symm⟩

theorem Enumerates.of_resolve_eq
    {other : LabelTable}
    (enumerates : Enumerates entries table)
    (same : ∀ name, other.resolve name = table.resolve name) :
    Enumerates entries other :=
  ⟨enumerates.once, fun name address => by
    rw [enumerates.mem_iff, same]⟩

/-- Two enumerations of a table differ in their order alone. -/
theorem Enumerates.perm
    (enumerates : Enumerates entries table)
    (otherEnumerates : Enumerates others table) :
    entries.Perm others :=
  (List.perm_ext_iff_of_nodup enumerates.once.of_map
    otherEnumerates.once.of_map).2 fun ⟨name, address⟩ => by
      rw [enumerates.mem_iff, otherEnumerates.mem_iff]

theorem Enumerates.of_perm
    (enumerates : Enumerates entries table)
    (perm : others.Perm entries) :
    Enumerates others table where
  once := ((perm.map Prod.fst).nodup_iff).2 enumerates.once
  mem_iff name address := by
    rw [perm.mem_iff, enumerates.mem_iff]

/-- As many names resolve as an enumeration has entries. -/
theorem Enumerates.encard_eq
    (enumerates : Enumerates entries table) :
    {name | (table.resolve name).isSome}.encard = entries.length := by
  have names :
      {name | (table.resolve name).isSome} =
        ((entries.map Prod.fst).toFinset : Set Text) := by
    ext name
    simp [Option.isSome_iff_exists, ← enumerates.mem_iff]
  rw [names, Set.encard_coe_eq_coe_finsetCard,
    List.toFinset_card_of_nodup enumerates.once, List.length_map]

/-! ## The order of entries -/

/--
An entry has the lower address, or the same address and the name whose bytes
come first.
-/
def StandsBefore (left right : Text × Word) : Prop :=
  left.2 < right.2 ∨ left.2 = right.2 ∧ left.1.utf8 < right.1.utf8

/-- What an entry is ordered by. -/
def sortKey (entry : Text × Word) : ℕ ×ₗ Text :=
  toLex (entry.2.toNat, entry.1)

theorem sortKey_injective : Function.Injective sortKey := by
  intro left right same
  obtain ⟨addresses, names⟩ := Prod.mk.inj (toLex.injective same)
  exact Prod.ext names (UInt16.toNat_inj.1 addresses)

theorem standsBefore_iff
    {left right : Text × Word} :
    StandsBefore left right ↔ sortKey left < sortKey right := by
  rw [StandsBefore, sortKey, sortKey, Prod.Lex.toLex_lt_toLex,
    Text.utf8_lt_utf8_iff, UInt16.lt_iff_toNat_lt, UInt16.toNat_inj]

theorem precedes_iff
    {left right : Text × Word} :
    precedes left right ↔ sortKey left ≤ sortKey right := by
  rw [sortKey, sortKey, Prod.Lex.toLex_le_toLex]
  simp [precedes, UInt16.lt_iff_toNat_lt, UInt16.toNat_inj]

/-! ## The canonical listing -/

/-- A list enumerates a table in strictly ascending order. -/
structure IsListing
    (listing : List (Text × Word))
    (table : LabelTable) : Prop where
  enumerates : Enumerates listing table
  ascending : listing.Pairwise StandsBefore

/-- A table has one listing. -/
theorem IsListing.unique
    (isListing : IsListing entries table)
    (otherListing : IsListing others table) :
    entries = others := by
  apply List.Perm.eq_of_pairwise _ isListing.ascending otherListing.ascending
    (isListing.enumerates.perm otherListing.enumerates)
  intro left right _ _ before behind
  rw [standsBefore_iff] at before behind
  exact absurd behind before.asymm

/-- Sorting the entries yields the listing, whatever order they come in. -/
theorem Enumerates.isListing_mergeSort
    (enumerates : Enumerates entries table) :
    IsListing (entries.mergeSort precedes) table := by
  have sorted :
      (entries.mergeSort precedes).Pairwise fun left right =>
        precedes left right :=
    List.pairwise_mergeSort
      (fun one two three => by
        rw [precedes_iff, precedes_iff, precedes_iff]
        exact le_trans)
      (fun one two => by
        rw [Bool.or_eq_true, precedes_iff, precedes_iff]
        exact le_total _ _)
      entries
  have arranged := enumerates.of_perm (List.mergeSort_perm entries precedes)
  -- The order is strict since no entry occurs twice.
  refine ⟨arranged, (sorted.and arranged.once.of_map).imp ?_⟩
  rintro left right ⟨notBehind, different⟩
  rw [standsBefore_iff]
  exact lt_of_le_of_ne (precedes_iff.1 notBehind)
    fun same => different (sortKey_injective same)

theorem isListing_sorted (table : LabelTable) :
    IsListing table.sorted table :=
  (enumerates_entries table).isListing_mergeSort

/-! ## Histories -/

/-- What changes a label table. -/
inductive Change where
  | define (name : Text) (address : Word)
  | clear
deriving DecidableEq, Repr

/-- The table after a change, and the answer to the change. -/
def Change.perform (table : LabelTable) :
    Change → LabelTable × Option Word
  | .define name address => table.exchange name address
  | .clear => (table.clear, none)

/-- The table after several changes, and the answers to them. -/
def performAll (table : LabelTable) :
    List Change → LabelTable × List (Option Word)
  | [] => (table, [])
  | change :: rest =>
    let (next, answer) := change.perform table
    let (last, answers) := next.performAll rest
    (last, answer :: answers)

/-- The table that a new one becomes by several changes. -/
def tableAfter (changes : List Change) : LabelTable :=
  (empty.performAll changes).1

/-- The answers of a new table to several changes. -/
def answersTo (changes : List Change) : List (Option Word) :=
  (empty.performAll changes).2

/-- A change neither defines a name nor clears the table. -/
def Change.Spares (name : Text) : Change → Prop
  | .define other _ => other ≠ name
  | .clear => False

/--
A name is last defined at an address, and the table is not cleared behind
this definition.
-/
def LastBinds
    (changes : List Change)
    (name : Text)
    (address : Word) : Prop :=
  ∃ before after,
    changes = before ++ .define name address :: after ∧
      ∀ later ∈ after, later.Spares name

variable {change : Change} {changes rest : List Change}
variable {name : Text} {address : Word}

/-- The last definition is the first change or behind it. -/
theorem lastBinds_cons_iff :
    LastBinds (change :: rest) name address ↔
      (change = .define name address ∧
        ∀ later ∈ rest, later.Spares name) ∨
      LastBinds rest name address := by
  constructor
  · rintro ⟨before, after, split, spared⟩
    cases before with
    | nil =>
        obtain ⟨rfl, rfl⟩ := List.cons.inj split
        exact Or.inl ⟨rfl, spared⟩
    | cons first earlier =>
        obtain ⟨rfl, restSplit⟩ := List.cons.inj split
        exact Or.inr ⟨earlier, after, restSplit, spared⟩
  · rintro (⟨rfl, spared⟩ | ⟨before, after, rfl, spared⟩)
    · exact ⟨[], rest, rfl, spared⟩
    · exact ⟨change :: before, after, rfl, spared⟩

/-- After a change a name is bound by the change or as before it. -/
theorem resolve_perform_iff :
    (change.perform table).1.resolve name = some address ↔
      change = .define name address ∨
      change.Spares name ∧ table.resolve name = some address := by
  cases change with
  | clear => simp [Change.perform, Change.Spares, clear]
  | define own bound =>
      by_cases same : name = own
      · subst same
        simp [Change.perform, Change.Spares]
      · have different : own ≠ name := Ne.symm same
        simp [Change.perform, Change.Spares, same, different]

/-- After several changes a name is bound by the last of them or as before. -/
theorem resolve_performAll_iff :
    (table.performAll changes).1.resolve name = some address ↔
      LastBinds changes name address ∨
      (∀ change ∈ changes, change.Spares name) ∧
        table.resolve name = some address := by
  -- A change that is later defined over or cleared leaves no trace, so the
  -- table in front of the changes has to be an arbitrary one.
  induction changes generalizing table with
  | nil => simp [performAll, LastBinds]
  | cons change rest inductionHypothesis =>
      rw [performAll, inductionHypothesis, resolve_perform_iff,
        lastBinds_cons_iff, List.forall_mem_cons]
      tauto

/-- A change is answered by the table that the changes before it leave. -/
theorem getElem?_performAll
    {index : Nat}
    (found : changes[index]? = some change) :
    (table.performAll changes).2[index]? =
      some (change.perform (table.performAll (changes.take index)).1).2 := by
  induction changes generalizing table index with
  | nil => simp at found
  | cons first rest inductionHypothesis =>
      cases index with
      | zero =>
          cases found
          rfl
      | succ index => exact inductionHypothesis found

/--
A history shows in the table that it leaves and in the answers to it: names
resolve as they were last bound, a definition tells what it replaces, and the
names that resolve are counted and listed.
-/
structure Reflects
    (table : LabelTable)
    (answers : List (Option Word))
    (changes : List Change) : Prop where
  resolves :
    ∀ name address,
      table.resolve name = some address ↔ LastBinds changes name address
  answers :
    ∀ index name address,
      changes[index]? = some (.define name address) →
        answers[index]? =
          some ((tableAfter (changes.take index)).resolve name)
  size : {name | (table.resolve name).isSome}.encard = table.size
  listing : IsListing table.sorted table

theorem reflects_tableAfter (changes : List Change) :
    Reflects (tableAfter changes) (answersTo changes) changes where
  resolves name address := by
    rw [tableAfter, resolve_performAll_iff, resolve_empty]
    simp
  answers index name address found := by
    rw [answersTo, getElem?_performAll found, Change.perform, exchange_snd,
      tableAfter]
  size := (enumerates_entries _).encard_eq
  listing := isListing_sorted _

/--
A label table reflects its history.  Its listing is the same for every order
in which its entries are visited, and for every history after which the same
names resolve to the same addresses.
-/
theorem reflects_and_sorted_eq (changes : List Change) :
    Reflects (tableAfter changes) (answersTo changes) changes ∧
      (∀ entries, Enumerates entries (tableAfter changes) →
        entries.mergeSort precedes = (tableAfter changes).sorted) ∧
      ∀ others,
        (∀ name,
          (tableAfter others).resolve name =
            (tableAfter changes).resolve name) →
        (tableAfter others).sorted = (tableAfter changes).sorted := by
  have listing := isListing_sorted (tableAfter changes)
  refine ⟨reflects_tableAfter changes, ?_, ?_⟩
  · intro entries enumerates
    exact enumerates.isListing_mergeSort.unique listing
  · intro others same
    have alsoListing :
        IsListing (tableAfter changes).sorted (tableAfter others) :=
      ⟨listing.enumerates.of_resolve_eq same, listing.ascending⟩
    exact (isListing_sorted (tableAfter others)).unique alsoListing

/-- Neither a replaced address nor a cleared name shows in the listing. -/
theorem sorted_eq_rearranged :
    let changes : List Change :=
      [.define ['b'] 4, .define ['a'] 9, .define ['a'] 4]
    let others : List Change :=
      [.define ['b'] 7, .define ['c'] 4, .clear, .define ['a'] 4,
        .define ['b'] 4]
    (∀ name,
      (tableAfter others).resolve name =
        (tableAfter changes).resolve name) ∧
      (tableAfter others).sorted = (tableAfter changes).sorted := by
  intro changes others
  have same (name : Text) :
      (tableAfter others).resolve name =
        (tableAfter changes).resolve name := by
    simp only [changes, others, tableAfter, performAll, Change.perform,
      exchange_fst, clear, resolve_define, resolve_empty]
    grind
  exact ⟨same, (reflects_and_sorted_eq changes).2.2 others same⟩

end LabelTable

end PocketCpu
