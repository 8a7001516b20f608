import Mathlib.Data.List.Induction
import PocketCpu.Console.Options
import PocketCpu.Proofs.Sequence
import PocketCpu.Proofs.Text.Numerals

/-!
# Reordering options

A command line is a sequence of whole options, each of them one word, or a
count with the word that announces it.  It is accepted exactly if none of
them asks for help, every count is a number, and exactly one of them is the
program.  What it asks for is told by the program, by the last level, by the
last count, and by whether there is a dump at all.  So whole options may
change places as long as the levels and the counts keep their order.
-/

namespace PocketCpu.Console

namespace Argument

/-! ## Scanning -/

/-- The words that are options. -/
def reserved : List String :=
  ["-v", "-vv", "-q", "--dump", "--step", "-h", "--help"]

/-- The words of a whole option; a count may be any word. -/
inductive Spells : Argument → List String → Prop where
  | debug : Spells (.level .debug) ["-v"]
  | trace : Spells (.level .trace) ["-vv"]
  | quiet : Spells (.level .warn) ["-q"]
  | dump : Spells .dump ["--dump"]
  | steps (count : String) : Spells (.steps count) ["--step", count]
  | briefHelp : Spells .help ["-h"]
  | help : Spells .help ["--help"]
  | program
      {path : String}
      (free : path ∉ reserved) :
      Spells (.program path) [path]

/-- Words are whole options in a row; a last one may lack its count. -/
inductive Scans : List String → List Argument → Prop where
  | nil : Scans [] []
  | dangling : Scans ["--step"] [.dangling]
  | cons
      {argument : Argument}
      {words others : List String}
      {scanned : List Argument}
      (spells : argument.Spells words)
      (scans : Scans others scanned) :
      Scans (words ++ others) (argument :: scanned)

theorem ofWord_of_not_reserved
    {word : String}
    (free : word ∉ reserved) :
    ofWord word = .program word := by
  simp only [reserved, List.mem_cons, List.not_mem_nil, or_false, not_or]
    at free
  simp [ofWord, free]

theorem spells_ofWord
    {word : String}
    (single : word ≠ "--step") :
    (ofWord word).Spells [word] := by
  by_cases known : word ∈ reserved
  · simp only [reserved, List.mem_cons, List.not_mem_nil, or_false] at known
    rcases known with rfl | rfl | rfl | rfl | rfl | rfl | rfl
    · exact .debug
    · exact .trace
    · exact .quiet
    · exact .dump
    · exact absurd rfl single
    · exact .briefHelp
    · exact .help
  · rw [ofWord_of_not_reserved known]
    exact .program known

theorem group_cons_of_ne
    {word : String}
    (single : word ≠ "--step")
    (others : List String) :
    group (word :: others) = ofWord word :: group others := by
  rw [group.eq_def]
  exact if_neg single

theorem scans_group (arguments : List String) :
    Scans arguments (group arguments) := by
  fun_induction group arguments with
  | case1 => exact .nil
  | case2 => exact .dangling
  | case3 count others inductionHypothesis =>
      exact .cons (.steps count) inductionHypothesis
  | case4 word others single inductionHypothesis =>
      exact .cons (spells_ofWord single) inductionHypothesis

/-- The words of an option are grouped as this option. -/
theorem group_append
    {argument : Argument}
    {words : List String}
    (spells : argument.Spells words)
    (others : List String) :
    group (words ++ others) = argument :: group others := by
  cases spells with
  | steps count =>
      rw [List.cons_append, group.eq_def]
      rfl
  | @program path free =>
      have single : path ≠ "--step" := by
        rintro rfl
        exact free (by decide)
      rw [List.cons_append, group_cons_of_ne single,
        ofWord_of_not_reserved free]
      rfl
  | _ => exact group_cons_of_ne (by decide) others

/-- There is exactly one way to scan a command line. -/
theorem scans_iff
    {arguments : List String}
    {scanned : List Argument} :
    Scans arguments scanned ↔ group arguments = scanned := by
  constructor
  · intro scans
    induction scans with
    | nil => rw [group]
    | dangling => rw [group.eq_def]; rfl
    | cons spells _ inductionHypothesis =>
        rw [group_append spells, inductionHypothesis]
  · rintro rfl
    exact scans_group arguments

/-! ## What options say -/

/-- The program, if an option is none of the others. -/
def program? : Argument → Option String
  | .program path => some path
  | _ => none

/-- The level that an option sets. -/
def level? : Argument → Option Level
  | .level chosen => some chosen
  | _ => none

/-- The count that an option carries. -/
def count? : Argument → Option String
  | .steps count => some count
  | _ => none

end Argument

/-- A word is a number of steps that a count of 64 bits can hold. -/
def IsCount (word : String) (limit : Nat) : Prop :=
  limit < 2 ^ 64 ∧
    ∃ sign ∈ Text.signs, ∃ digits,
      word.toList = sign ++ digits ∧ Text.IsNumeral 10 digits limit

/-- Exactly the counts are read as such. -/
theorem readNumber_eq_ok_iff_isCount
    {word : String}
    {limit : Nat} :
    Text.readNumber 10 PartialOptions.largestCount word.toList = .ok limit ↔
      IsCount word limit := by
  have bound : limit ≤ PartialOptions.largestCount ↔ limit < 2 ^ 64 :=
    Nat.le_sub_one_iff_lt (by decide)
  rw [Text.readNumber_eq_ok_iff (by decide), bound, IsCount]

theorem IsCount.unique
    {word : String}
    {limit other : Nat}
    (isCount : IsCount word limit)
    (again : IsCount word other) :
    limit = other := by
  rw [← readNumber_eq_ok_iff_isCount] at isCount again
  cases isCount.symm.trans again
  rfl

/-- There is nothing to refuse about an option on its own. -/
def Argument.IsReadable : Argument → Prop
  | .help => False
  | .dangling => False
  | .steps count => ∃ limit, IsCount count limit
  | _ => True

/-- Options are accepted if none is refused and one of them is the program. -/
structure IsAccepted (scanned : List Argument) : Prop where
  noHelp : .help ∉ scanned
  noDangling : .dangling ∉ scanned
  counts :
    ∀ count, .steps count ∈ scanned → ∃ limit, IsCount count limit
  program : ∃ path, scanned.filterMap Argument.program? = [path]

/-- What options say together: the last of a kind counts, but for dumps. -/
structure Tells (scanned : List Argument) (options : PartialOptions) :
    Prop where
  program :
    scanned.filterMap Argument.program? = options.program.toList
  level :
    options.level = (scanned.filterMap Argument.level?).getLast?.getD .info
  limit :
    Option.Rel IsCount (scanned.filterMap Argument.count?).getLast?
      options.limit
  dump : options.dump = true ↔ .dump ∈ scanned

section Last

variable {Kind : Type} (tell : Argument → Option Kind)
variable {scanned : List Argument} {argument : Argument}

/-- An option that says nothing of a kind leaves what was said of it. -/
theorem filterMap_concat_of_eq_none (silent : tell argument = none) :
    (scanned ++ [argument]).filterMap tell = scanned.filterMap tell := by
  rw [List.filterMap_append, List.filterMap_cons_none silent,
    List.filterMap_nil, List.append_nil]

/-- What the last option says of a kind is the last of that kind. -/
theorem filterMap_concat_of_eq_some
    {told : Kind}
    (present : tell argument = some told) :
    (scanned ++ [argument]).filterMap tell =
      scanned.filterMap tell ++ [told] := by
  rw [List.filterMap_append, List.filterMap_cons_some present,
    List.filterMap_nil]

end Last

namespace PartialOptions

variable {scanned : List Argument} {argument : Argument}
variable {options last : PartialOptions}

theorem tells_initial : Tells [] initial where
  program := rfl
  level := rfl
  limit := .none
  dump := by simp [initial]

/-- One more option is taken into account as the last one. -/
theorem tells_add
    (tells : Tells scanned options)
    (added : options.add argument = .ok last) :
    Tells (scanned ++ [argument]) last := by
  obtain ⟨program, level, limit, dump⟩ := tells
  cases argument with
  | level chosen =>
      cases added
      constructor
      · rwa [filterMap_concat_of_eq_none _ rfl]
      · rw [filterMap_concat_of_eq_some Argument.level? rfl,
          List.getLast?_concat]
        rfl
      · rwa [filterMap_concat_of_eq_none _ rfl]
      · simpa using dump
  | dump =>
      cases added
      constructor
      · rwa [filterMap_concat_of_eq_none _ rfl]
      · rwa [filterMap_concat_of_eq_none _ rfl]
      · rwa [filterMap_concat_of_eq_none _ rfl]
      · simp
  | steps count =>
      rw [add] at added
      split at added
      · next chosen read =>
          cases added
          constructor
          · rwa [filterMap_concat_of_eq_none _ rfl]
          · rwa [filterMap_concat_of_eq_none _ rfl]
          · rw [filterMap_concat_of_eq_some Argument.count? rfl,
              List.getLast?_concat]
            exact .some (readNumber_eq_ok_iff_isCount.1 read)
          · simpa using dump
      · cases added
  | dangling => cases added
  | help => cases added
  | program path =>
      rw [add] at added
      split at added
      · next missing =>
          cases added
          rw [missing] at program
          constructor
          · rw [filterMap_concat_of_eq_some Argument.program? rfl, program]
            rfl
          · rwa [filterMap_concat_of_eq_none _ rfl]
          · rwa [filterMap_concat_of_eq_none _ rfl]
          · simpa using dump
      · cases added

/-- The options read so far tell what was scanned so far. -/
theorem tells_foldlM
    (folded : scanned.foldlM add initial = .ok last) :
    Tells scanned last := by
  -- From the back, since the last option of a kind is the one that counts.
  induction scanned using List.reverseRecOn generalizing last with
  | nil =>
      cases folded
      exact tells_initial
  | append_singleton scanned argument inductionHypothesis =>
      rw [List.foldlM_append] at folded
      obtain ⟨options, before, added⟩ := bind_eq_ok_iff.1 folded
      rw [List.foldlM_cons] at added
      obtain ⟨next, added, same⟩ := bind_eq_ok_iff.1 added
      cases same
      exact tells_add (inductionHypothesis before) added

/-- An option is taken unless it is unreadable or a second program. -/
theorem exists_add_iff :
    (∃ last, options.add argument = .ok last) ↔
      argument.IsReadable ∧
        (options.program.toList ++
          [argument].filterMap Argument.program?).length ≤ 1 := by
  have single : (options.program.toList ++ []).length ≤ 1 := by
    cases options.program with
    | none => exact Nat.zero_le 1
    | some path => exact le_rfl
  cases argument with
  | level chosen => exact iff_of_true ⟨_, rfl⟩ ⟨trivial, single⟩
  | dump => exact iff_of_true ⟨_, rfl⟩ ⟨trivial, single⟩
  | steps count =>
      have readable :
          (∃ last, options.add (.steps count) = .ok last) ↔
            ∃ limit, IsCount count limit := by
        simp only [← readNumber_eq_ok_iff_isCount, add]
        split <;> simp [*]
      exact readable.trans (and_iff_left single).symm
  | dangling => exact iff_of_false nofun fun holds => holds.1
  | help => exact iff_of_false nofun fun holds => holds.1
  | program path =>
      rw [add]
      cases options.program with
      | none => exact iff_of_true ⟨_, rfl⟩ ⟨trivial, le_rfl⟩
      | some other =>
          exact iff_of_false nofun fun holds =>
            Nat.not_succ_le_self 1 holds.2

/-- Options are taken if all are readable and at most one is a program. -/
theorem exists_foldlM_iff :
    (∃ last, scanned.foldlM add initial = .ok last) ↔
      (∀ argument ∈ scanned, argument.IsReadable) ∧
        (scanned.filterMap Argument.program?).length ≤ 1 := by
  induction scanned using List.reverseRecOn with
  | nil => exact iff_of_true ⟨_, rfl⟩ ⟨nofun, Nat.zero_le 1⟩
  | append_singleton scanned argument inductionHypothesis =>
      rw [List.forall_mem_append, List.forall_mem_singleton,
        List.filterMap_append, List.foldlM_append]
      constructor
      · rintro ⟨last, folded⟩
        obtain ⟨options, before, added⟩ := bind_eq_ok_iff.1 folded
        obtain ⟨next, added, -⟩ := bind_eq_ok_iff.1 added
        obtain ⟨readable, -⟩ := inductionHypothesis.1 ⟨options, before⟩
        obtain ⟨alone, single⟩ := exists_add_iff.1 ⟨next, added⟩
        -- The program read so far is the one among the options in front.
        rw [← (tells_foldlM before).program] at single
        exact ⟨⟨readable, alone⟩, single⟩
      · rintro ⟨⟨readable, alone⟩, single⟩
        have fewer : (scanned.filterMap Argument.program?).length ≤ 1 :=
          (List.length_append ▸ Nat.le_add_right _ _).trans single
        obtain ⟨options, before⟩ :=
          inductionHypothesis.2 ⟨readable, fewer⟩
        rw [(tells_foldlM before).program] at single
        obtain ⟨last, added⟩ := exists_add_iff.2 ⟨alone, single⟩
        exact ⟨last, bind_eq_ok_iff.2 ⟨options, before,
          bind_eq_ok_iff.2 ⟨last, added, rfl⟩⟩⟩

end PartialOptions

/-! ## Whole command lines -/

theorem isAccepted_iff
    {scanned : List Argument} :
    IsAccepted scanned ↔
      (∀ argument ∈ scanned, argument.IsReadable) ∧
        ∃ path, scanned.filterMap Argument.program? = [path] := by
  constructor
  · rintro ⟨noHelp, noDangling, counts, program⟩
    refine ⟨fun argument member => ?_, program⟩
    cases argument with
    | help => exact noHelp member
    | dangling => exact noDangling member
    | steps count => exact counts count member
    | _ => trivial
  · rintro ⟨readable, program⟩
    exact ⟨readable .help, readable .dangling,
      fun count member => readable (.steps count) member, program⟩

namespace Options

/-- Complete options as options read so far. -/
def asPartial (options : Options) : PartialOptions :=
  ⟨some options.program, options.level, options.limit, options.dump⟩

variable {arguments : List String} {scanned : List Argument}
variable {options : Options}

theorem complete_eq_ok_iff
    {last : PartialOptions} :
    last.complete = .ok options ↔ last = options.asPartial := by
  obtain ⟨program, level, limit, dump⟩ := last
  obtain ⟨path, level', limit', dump'⟩ := options
  cases program <;> simp [PartialOptions.complete, asPartial]

theorem ofArguments_eq_ok_iff :
    ofArguments arguments = .ok options ↔
      (Argument.group arguments).foldlM PartialOptions.add .initial =
        .ok options.asPartial := by
  rw [ofArguments, bind_eq_ok_iff]
  simp only [complete_eq_ok_iff, exists_eq_right]

/-- A command line is accepted exactly if its options are. -/
theorem exists_ofArguments_iff
    (scans : Argument.Scans arguments scanned) :
    (∃ options, ofArguments arguments = .ok options) ↔
      IsAccepted scanned := by
  rw [isAccepted_iff]
  obtain rfl := Argument.scans_iff.1 scans
  constructor
  · rintro ⟨options, parsed⟩
    have folded := ofArguments_eq_ok_iff.1 parsed
    exact ⟨(PartialOptions.exists_foldlM_iff.1 ⟨_, folded⟩).1,
      options.program, (PartialOptions.tells_foldlM folded).program⟩
  · rintro ⟨readable, path, program⟩
    obtain ⟨last, folded⟩ :=
      PartialOptions.exists_foldlM_iff.2
        ⟨readable, (congrArg List.length program).le⟩
    have told := (PartialOptions.tells_foldlM folded).program
    rw [program] at told
    obtain ⟨found, level, limit, dump⟩ := last
    cases found with
    | none => cases told
    | some found =>
        exact ⟨⟨found, level, limit, dump⟩,
          ofArguments_eq_ok_iff.2 folded⟩

end Options

/-! ## Reordering -/

theorem IsCount.rel_unique
    {count : Option String}
    {limit other : Option Nat}
    (isCount : Option.Rel IsCount count limit)
    (again : Option.Rel IsCount count other) :
    limit = other := by
  cases isCount with
  | none =>
      cases again
      rfl
  | some isCount =>
      cases again with
      | some again => rw [isCount.unique again]

/-- Options that are scanned alike are the same. -/
theorem Tells.unique
    {scanned : List Argument}
    {options other : PartialOptions}
    (tells : Tells scanned options)
    (again : Tells scanned other) :
    options = other := by
  have program : options.program = other.program := by
    have same := tells.program.symm.trans again.program
    simpa only [Option.head?_toList] using congrArg List.head? same
  have level : options.level = other.level :=
    tells.level.trans again.level.symm
  have limit : options.limit = other.limit :=
    IsCount.rel_unique tells.limit again.limit
  have dump : options.dump = other.dump :=
    Bool.eq_iff_iff.2 (tells.dump.trans again.dump.symm)
  obtain ⟨_, _, _, _⟩ := options
  obtain ⟨_, _, _, _⟩ := other
  cases program
  cases level
  cases limit
  cases dump
  rfl

/--
Whole options are put into another order, except that the levels keep theirs
among each other, and so do the counts.
-/
structure IsReordering (scanned reordered : List Argument) : Prop where
  perm : scanned.Perm reordered
  levels :
    scanned.filterMap Argument.level? = reordered.filterMap Argument.level?
  counts :
    scanned.filterMap Argument.count? = reordered.filterMap Argument.count?

namespace IsReordering

variable {scanned reordered : List Argument}

theorem symm (reorders : IsReordering scanned reordered) :
    IsReordering reordered scanned :=
  ⟨reorders.perm.symm, reorders.levels.symm, reorders.counts.symm⟩

/-- A single program is the program in every order. -/
theorem program_eq
    (reorders : IsReordering scanned reordered)
    {path : String}
    (program : scanned.filterMap Argument.program? = [path]) :
    reordered.filterMap Argument.program? = [path] := by
  apply List.perm_singleton.1
  rw [← program]
  exact (reorders.perm.filterMap Argument.program?).symm

theorem isAccepted
    (reorders : IsReordering scanned reordered)
    (accepted : IsAccepted scanned) :
    IsAccepted reordered := by
  obtain ⟨noHelp, noDangling, counts, path, program⟩ := accepted
  refine ⟨?_, ?_, ?_, path, reorders.program_eq program⟩
  · exact fun member => noHelp (reorders.perm.mem_iff.2 member)
  · exact fun member => noDangling (reorders.perm.mem_iff.2 member)
  · exact fun count member =>
      counts count (reorders.perm.mem_iff.2 member)

theorem tells
    (reorders : IsReordering scanned reordered)
    {options : Options}
    (tells : Tells scanned options.asPartial) :
    Tells reordered options.asPartial where
  program := reorders.program_eq tells.program
  level := by
    rw [← reorders.levels]
    exact tells.level
  limit := by
    rw [← reorders.counts]
    exact tells.limit
  dump := tells.dump.trans reorders.perm.mem_iff

end IsReordering

namespace Options

variable {arguments others : List String}
variable {scanned reordered : List Argument}
variable {options : Options}

theorem tells_of_ofArguments
    (scans : Argument.Scans arguments scanned)
    (parsed : ofArguments arguments = .ok options) :
    Tells scanned options.asPartial := by
  obtain rfl := Argument.scans_iff.1 scans
  exact PartialOptions.tells_foldlM (ofArguments_eq_ok_iff.1 parsed)

/-- What one order of options is read as, every other order is read as. -/
theorem ofArguments_of_isReordering
    (scans : Argument.Scans arguments scanned)
    (scansOthers : Argument.Scans others reordered)
    (reorders : IsReordering scanned reordered)
    (parsed : ofArguments arguments = .ok options) :
    ofArguments others = .ok options := by
  have accepted := (exists_ofArguments_iff scans).1 ⟨options, parsed⟩
  obtain ⟨found, parsedOthers⟩ :=
    (exists_ofArguments_iff scansOthers).2 (reorders.isAccepted accepted)
  have tells := reorders.tells (tells_of_ofArguments scans parsed)
  have same := tells.unique (tells_of_ofArguments scansOthers parsedOthers)
  obtain ⟨_, _, _, _⟩ := options
  cases same
  exact parsedOthers

/--
A command line is read as its whole options say.  It is accepted exactly if
they are, it asks for what they tell, and any reordering of them asks for the
same or is refused as well.
-/
structure IsReadAs (arguments : List String) (scanned : List Argument) :
    Prop where
  accepted :
    (∃ options, ofArguments arguments = .ok options) ↔ IsAccepted scanned
  tells :
    ∀ options, ofArguments arguments = .ok options →
      Tells scanned options.asPartial
  commutes :
    ∀ others reordered, Argument.Scans others reordered →
      IsReordering scanned reordered →
        ∀ options,
          ofArguments arguments = .ok options ↔
            ofArguments others = .ok options

/-- Every command line can be scanned, and is read as it is scanned. -/
theorem isReadAs_of_scans (arguments : List String) :
    (∃ scanned, Argument.Scans arguments scanned) ∧
      ∀ scanned, Argument.Scans arguments scanned →
        IsReadAs arguments scanned := by
  refine ⟨⟨_, Argument.scans_group arguments⟩, fun scanned scans => ?_⟩
  constructor
  · exact exists_ofArguments_iff scans
  · exact fun options parsed => tells_of_ofArguments scans parsed
  · intro others reordered scansOthers reorders options
    constructor
    · exact ofArguments_of_isReordering scans scansOthers reorders
    · exact ofArguments_of_isReordering scansOthers scans reorders.symm

/--
Of two levels and two counts the last ones are taken, wherever the program
and the dump stand.
-/
theorem isReadAs_moved_program :
    let arguments :=
      ["-q", "--step", "7", "a.asm", "--step", "+16", "-v", "--dump"]
    let others :=
      ["--dump", "a.asm", "--step", "7", "-q", "-v", "--step", "+16"]
    let scanned : List Argument :=
      [.level .warn, .steps "7", .program "a.asm", .steps "+16",
        .level .debug, .dump]
    Argument.Scans arguments scanned ∧
      Tells scanned ⟨some "a.asm", .debug, some 16, true⟩ ∧
        ofArguments others = .ok ⟨"a.asm", .debug, some 16, true⟩ := by
  intro arguments others scanned
  have scans : Argument.Scans arguments scanned :=
    Argument.scans_iff.2 rfl
  have parsed :
      ofArguments arguments = .ok ⟨"a.asm", .debug, some 16, true⟩ :=
    rfl
  have reorders :
      IsReordering scanned
        [.dump, .program "a.asm", .steps "7", .level .warn, .level .debug,
          .steps "+16"] := by
    constructor <;> decide
  have isReadAs := (isReadAs_of_scans arguments).2 scanned scans
  have commutes :=
    isReadAs.commutes others _ (Argument.scans_iff.2 rfl) reorders
  exact ⟨scans, isReadAs.tells _ parsed, (commutes _).1 parsed⟩

end Options

end PocketCpu.Console
