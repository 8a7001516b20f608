import PocketCpu.Register.Basic

/-!
# Label tables

A label table binds names to addresses.  A later definition of a name
replaces an earlier one, so a table is described by what its names resolve
to.  The canonical listing goes by address and, at one address, by name.
-/

namespace PocketCpu

/-- Names bound to addresses, each name once. -/
structure LabelTable where
  entries : List (Text × Word)
  distinct : (entries.map Prod.fst).Nodup

namespace LabelTable

/-- The table without labels. -/
def empty : LabelTable :=
  ⟨[], List.nodup_nil⟩

/-- The address of a name, if it is bound. -/
def resolve (table : LabelTable) (name : Text) : Option Word :=
  table.entries.lookup name

/-- The entries for all names but one. -/
def without (table : LabelTable) (name : Text) : List (Text × Word) :=
  table.entries.filter fun entry => entry.1 != name

/-- The table in which a name is bound to an address. -/
def define (table : LabelTable) (name : Text) (address : Word) :
    LabelTable where
  entries := (name, address) :: table.without name
  distinct := by
    rw [List.map_cons, List.nodup_cons]
    constructor
    · simp [without]
    · exact table.distinct.sublist ((List.filter_sublist).map _)

/--
The table in which a name is bound to an address, and the address that gives
way to it, if the name was bound before.
-/
def exchange (table : LabelTable) (name : Text) (address : Word) :
    LabelTable × Option Word :=
  (table.define name address,
    (table.entries.find? fun entry => entry.1 == name).map Prod.snd)

/-- The table in which nothing is bound any more. -/
def clear (_ : LabelTable) : LabelTable :=
  empty

/-- The number of bound names. -/
def size (table : LabelTable) : Nat :=
  table.entries.length

/-- Whether one entry stands before another, or is the same one. -/
def precedes (left right : Text × Word) : Bool :=
  left.2 < right.2 || (left.2 == right.2 && !decide (right.1 < left.1))

/-- The bound names by address, and by name at one address. -/
def sorted (table : LabelTable) : List (Text × Word) :=
  table.entries.mergeSort precedes

@[simp]
theorem resolve_empty (name : Text) : empty.resolve name = none :=
  rfl

/-- A definition rebinds its own name and leaves the others alone. -/
@[simp]
theorem resolve_define
    (table : LabelTable)
    (name other : Text)
    (address : Word) :
    (table.define name address).resolve other =
      if other = name then some address else table.resolve other := by
  by_cases same : other = name
  · simp [resolve, define, same]
  · have kept :
        ∀ entries : List (Text × Word),
          (entries.filter fun entry => entry.1 != name).lookup other =
            entries.lookup other := by
      intro entries
      induction entries with
      | nil => rfl
      | cons entry rest inductionHypothesis =>
          obtain ⟨key, bound⟩ := entry
          by_cases dropped : key = name
          · have different : (other == key) = false := by
              simp [dropped, same]
            rw [List.filter_cons_of_neg (by simp [dropped]),
              List.lookup_cons, different, inductionHypothesis]
          · simp [dropped, List.lookup_cons, inductionHypothesis]
    have notFirst : (other == name) = false := by simp [same]
    simp only [resolve, define, without, List.lookup_cons, notFirst, same,
      if_false, kept]

@[simp]
theorem exchange_fst
    (table : LabelTable)
    (name : Text)
    (address : Word) :
    (table.exchange name address).1 = table.define name address :=
  rfl

/-- The address that gives way is what the name resolved to. -/
@[simp]
theorem exchange_snd
    (table : LabelTable)
    (name : Text)
    (address : Word) :
    (table.exchange name address).2 = table.resolve name := by
  rw [exchange, resolve]
  induction table.entries with
  | nil => rfl
  | cons entry rest inductionHypothesis =>
      obtain ⟨key, bound⟩ := entry
      by_cases same : key = name
      · simp [same]
      · have different : (name == key) = false := by
          simp [Ne.symm same]
        rw [List.find?_cons_of_neg (by simpa using same), List.lookup_cons,
          different]
        exact inductionHypothesis

end LabelTable

end PocketCpu
