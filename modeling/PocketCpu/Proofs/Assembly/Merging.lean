import Mathlib.Data.List.Basic
import PocketCpu.Proofs.Assembly.WrittenLine

/-!
# Merging two lists of mistakes

Mistakes in labels are found for all lines before any instruction is looked
at.  Appending the mistakes in instructions and sorting the whole by line,
without exchanging what is on one line, yields the mistakes line after line.
For this the sort has to be stable: a sorted list is determined by the part
of it that belongs to each key, and a stable sort changes none of the parts.
-/

namespace PocketCpu

/-! ## Stable sorting -/

namespace StableSort

variable {Entry : Type} {key : Entry → Nat} {left right : List Entry}

theorem mem_of_filter_eq
    {entry : Entry}
    (same :
      ∀ value,
        left.filter (fun entry => key entry == value) =
          right.filter fun entry => key entry == value)
    (member : entry ∈ left) :
    entry ∈ right := by
  have inPart :
      entry ∈ left.filter fun other => key other == key entry :=
    List.mem_filter.2 ⟨member, beq_self_eq_true _⟩
  rw [same] at inPart
  exact List.mem_of_mem_filter inPart

theorem key_head_le
    {head entry : Entry}
    (sorted : (head :: left).Pairwise fun one other => key one ≤ key other)
    (member : entry ∈ head :: left) :
    key head ≤ key entry := by
  rcases List.mem_cons.1 member with rfl | later
  · exact Nat.le_refl _
  · exact List.rel_of_pairwise_cons sorted later

/-- Sorted lists with the same entries of every key are the same. -/
theorem eq_of_filter_eq
    (leftSorted : left.Pairwise fun one other => key one ≤ key other)
    (rightSorted : right.Pairwise fun one other => key one ≤ key other)
    (same :
      ∀ value,
        left.filter (fun entry => key entry == value) =
          right.filter fun entry => key entry == value) :
    left = right := by
  induction left generalizing right with
  | nil =>
      cases right with
      | nil => rfl
      | cons first rest => simpa using same (key first)
  | cons first rest inductionHypothesis =>
      cases right with
      | nil => simpa using same (key first)
      | cons other others =>
          -- Each head is an entry of the other list, so their keys agree.
          have equal : key first = key other :=
            Nat.le_antisymm
              (key_head_le leftSorted
                (mem_of_filter_eq (fun value => (same value).symm)
                  List.mem_cons_self))
              (key_head_le rightSorted
                (mem_of_filter_eq same List.mem_cons_self))
          have heads := same (key first)
          rw [List.filter_cons_of_pos (by simp),
            List.filter_cons_of_pos (by simp [equal])] at heads
          obtain ⟨rfl, _⟩ := List.cons.inj heads
          rw [inductionHypothesis leftSorted.of_cons rightSorted.of_cons]
          intro value
          have parts := same value
          by_cases ofHead : key first = value
          · rw [List.filter_cons_of_pos (by simp [ofHead]),
              List.filter_cons_of_pos (by simp [ofHead])] at parts
            exact (List.cons.inj parts).2
          · rwa [List.filter_cons_of_neg (by simp [ofHead]),
              List.filter_cons_of_neg (by simp [ofHead])] at parts

theorem pairwise_of_key_eq
    {value : Nat}
    (level : ∀ entry ∈ left, key entry = value) :
    left.Pairwise fun one other => key one ≤ key other := by
  rw [List.pairwise_iff_forall_sublist]
  intro one other pair
  have first : one ∈ left := pair.subset List.mem_cons_self
  have second : other ∈ left := pair.subset (by simp)
  rw [level one first, level other second]

/-- A stable sort leaves the entries of one key in their order. -/
theorem filter_mergeSort (list : List Entry) (value : Nat) :
    (list.mergeSort fun one other => key one ≤ key other).filter
        (fun entry => key entry == value) =
      list.filter fun entry => key entry == value := by
  let part := list.filter fun entry => key entry == value
  have ofKey : ∀ entry ∈ part, (key entry == value) = true :=
    fun entry member => (List.mem_filter.1 member).2
  have level :
      part.Pairwise fun one other =>
        decide (key one ≤ key other) = true :=
    (pairwise_of_key_eq fun entry member =>
      beq_iff_eq.1 (ofKey entry member)).imp decide_eq_true
  have kept :
      part.Sublist
        (list.mergeSort fun one other => decide (key one ≤ key other)) :=
    List.sublist_mergeSort
      (by simpa using fun _ _ _ => Nat.le_trans)
      (by simpa using fun one other => Nat.le_total (key one) (key other))
      level List.filter_sublist
  have inside := kept.filter fun entry => key entry == value
  rw [List.filter_eq_self.2 ofKey] at inside
  have length :=
    ((List.mergeSort_perm list
      fun one other => decide (key one ≤ key other)).filter
        fun entry => key entry == value).length_eq
  exact (inside.eq_of_length length.symm).symm

variable {Item : Type} {rank : Item → Nat} {items : List Item}
variable {f g : Item → List Entry}

/-- The entries of one key come from the item that has this rank. -/
theorem filter_flatMap
    (increasing : items.Pairwise fun one other => rank one < rank other)
    (ranked : ∀ item ∈ items, ∀ entry ∈ f item, key entry = rank item)
    (value : Nat) :
    (items.flatMap f).filter (fun entry => key entry == value) =
      ((items.find? fun item => rank item == value).map f).getD [] := by
  induction items with
  | nil => rfl
  | cons item rest inductionHypothesis =>
      have here := ranked item List.mem_cons_self
      have others := inductionHypothesis increasing.of_cons
        fun other member => ranked other (List.mem_cons_of_mem item member)
      rw [List.flatMap_cons, List.filter_append, others]
      by_cases chosen : rank item = value
      · have absent : rest.find? (fun other => rank other == value) = none := by
          rw [List.find?_eq_none]
          intro other member equal
          have less := List.rel_of_pairwise_cons increasing member
          rw [beq_iff_eq] at equal
          omega
        rw [List.find?_cons_of_pos (by simpa using chosen), absent,
          List.filter_eq_self.2]
        · simp
        · intro entry member
          simpa [chosen] using here entry member
      · rw [List.find?_cons_of_neg (by simpa using chosen),
          List.filter_eq_nil_iff.2, List.nil_append]
        intro entry member
        simpa [here entry member] using chosen

/--
Two lists over the same items are merged item after item by a stable sort,
if the items are in order.
-/
theorem mergeSort_flatMap_append
    (increasing : items.Pairwise fun one other => rank one < rank other)
    (rankedFirst : ∀ item ∈ items, ∀ entry ∈ f item, key entry = rank item)
    (rankedSecond :
      ∀ item ∈ items, ∀ entry ∈ g item, key entry = rank item) :
    (items.flatMap f ++ items.flatMap g).mergeSort
        (fun one other => key one ≤ key other) =
      items.flatMap fun item => f item ++ g item := by
  have ranked :
      ∀ item ∈ items, ∀ entry ∈ f item ++ g item,
        key entry = rank item := by
    intro item member entry either
    rcases List.mem_append.1 either with first | second
    · exact rankedFirst item member entry first
    · exact rankedSecond item member entry second
  have leftSorted :
      ((items.flatMap f ++ items.flatMap g).mergeSort
          fun one other => key one ≤ key other).Pairwise
        fun one other => key one ≤ key other :=
    (List.pairwise_mergeSort
      (by simpa using fun _ _ _ => Nat.le_trans)
      (by simpa using fun one other => Nat.le_total (key one) (key other))
      _).imp of_decide_eq_true
  have rightSorted :
      (items.flatMap fun item => f item ++ g item).Pairwise
        fun one other => key one ≤ key other := by
    rw [List.pairwise_flatMap]
    constructor
    · exact fun item member => pairwise_of_key_eq (ranked item member)
    · apply increasing.imp_of_mem
      intro item other memberItem memberOther less one inItem two inOther
      rw [ranked item memberItem one inItem,
        ranked other memberOther two inOther]
      exact Nat.le_of_lt less
  apply eq_of_filter_eq leftSorted rightSorted
  intro value
  rw [filter_mergeSort, List.filter_append,
    filter_flatMap increasing rankedFirst,
    filter_flatMap increasing rankedSecond,
    filter_flatMap increasing ranked]
  cases items.find? fun item => rank item == value <;> rfl

end StableSort

/-! ## Mistakes of a source -/

namespace WrittenLine

variable {first start : Nat} {lines : List Text} {placed : PlacedLine}

theorem le_number
    (member : placed ∈ Layout.placeFrom start (read first lines)) :
    first ≤ placed.line.number := by
  induction lines generalizing first start with
  | nil => cases member
  | cons raw rest inductionHypothesis =>
      rw [placeFrom_read_cons] at member
      rcases List.mem_append.1 member with here | later
      · rcases ofText?_cases first raw with
          ⟨dropped, _, _⟩ | ⟨line, kept, reads⟩
        · rw [dropped] at here
          cases here
        · rw [kept] at here
          obtain rfl := List.mem_singleton.1 here
          exact Nat.le_of_eq reads.number.symm
      · exact Nat.le_of_succ_le (inductionHypothesis later)

/-- The lines of a source have different numbers and stand in order. -/
theorem pairwise_number (first start : Nat) (lines : List Text) :
    (Layout.placeFrom start (read first lines)).Pairwise
      fun one other => one.line.number < other.line.number := by
  induction lines generalizing first start with
  | nil => exact List.Pairwise.nil
  | cons raw rest inductionHypothesis =>
      rw [placeFrom_read_cons]
      rcases ofText?_cases first raw with
        ⟨dropped, _, _⟩ | ⟨line, kept, reads⟩
      · rw [dropped]
        exact inductionHypothesis (first + 1) _
      · rw [kept]
        refine List.pairwise_cons.2 ⟨?_, inductionHypothesis (first + 1) _⟩
        intro placed later
        have behind := le_number later
        rw [reads.number]
        exact behind

end WrittenLine

namespace EmittedLine

/-- The mistakes in the label of a line. -/
def labelDiagnostics (emitted : EmittedLine) : List Diagnostic :=
  emitted.placed.labelCauses.map (Diagnostic.mk emitted.placed.line.number)

/-- The mistakes in the instruction of a line. -/
def codeDiagnostics (emitted : EmittedLine) : List Diagnostic :=
  emitted.codeCauses.map (Diagnostic.mk emitted.placed.line.number)

variable {emitted : EmittedLine} {diagnostic : Diagnostic}

theorem diagnostics_eq (emitted : EmittedLine) :
    emitted.diagnostics =
      emitted.labelDiagnostics ++ emitted.codeDiagnostics :=
  List.map_append

theorem line_of_mem_labelDiagnostics
    (member : diagnostic ∈ emitted.labelDiagnostics) :
    diagnostic.line = emitted.placed.line.number := by
  obtain ⟨cause, _, rfl⟩ := List.mem_map.1 member
  rfl

theorem line_of_mem_codeDiagnostics
    (member : diagnostic ∈ emitted.codeDiagnostics) :
    diagnostic.line = emitted.placed.line.number := by
  obtain ⟨cause, _, rfl⟩ := List.mem_map.1 member
  rfl

end EmittedLine

namespace Assembly

/-- The lines of a source together with what they put into memory. -/
def emittedLines (size : Nat) (source : Text) : List EmittedLine :=
  (Layout.place (SourceLine.ofSource source)).map fun placed =>
    ⟨placed,
      placed.emit? (Layout.labelsOf (SourceLine.ofSource source)) size⟩

/--
Collecting the mistakes in all labels, then those in all instructions, and
sorting them by line gives them line after line.
-/
theorem diagnostics_ofSource_eq_mergeSort (size : Nat) (source : Text) :
    (ofSource size source).diagnostics =
      ((emittedLines size source).flatMap EmittedLine.labelDiagnostics ++
          (emittedLines size source).flatMap
            EmittedLine.codeDiagnostics).mergeSort
        fun one other => one.line ≤ other.line := by
  have ordered :
      (emittedLines size source).Pairwise fun one other =>
        one.placed.line.number < other.placed.line.number :=
    List.pairwise_map.2
      (WrittenLine.pairwise_number 1 0 source.lines)
  rw [StableSort.mergeSort_flatMap_append ordered
    (fun _ _ _ => EmittedLine.line_of_mem_labelDiagnostics)
    (fun _ _ _ => EmittedLine.line_of_mem_codeDiagnostics)]
  exact congrArg (fun mistakes => (emittedLines size source).flatMap mistakes)
    (funext EmittedLine.diagnostics_eq)

end Assembly

end PocketCpu
