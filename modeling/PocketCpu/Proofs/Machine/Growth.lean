import Mathlib.Data.List.Basic
import PocketCpu.Machine.Load
import PocketCpu.Proofs.Assembly.Passes
import PocketCpu.Proofs.Machine.Likeness
import PocketCpu.Proofs.Machine.Step

/-!
# Larger memories

A program that fits into a small memory does the same in a larger one.  The
size of memory is looked at in many places, but always for the same purpose:
to refuse an address that is not below it.  So work that is not refused for
its addresses goes the same way in a larger memory, and the bytes that only
the larger one has are neither read nor written.  This holds for sources
that are assembled and for machines that take steps.
-/

namespace PocketCpu

/-! ## A memory inside of another one -/

namespace Memory

variable {small large : Nat}

/-- The larger memory with the bytes of the smaller one at its start. -/
def overlay (memory : Memory small) (beyond : Memory large) : Memory large :=
  beyond.write 0 memory.toList

variable {memory : Memory small} {beyond : Memory large}

theorem get?_overlay
    (order : small ≤ large)
    (address : Nat) :
    (memory.overlay beyond).get? address =
      if address < small then memory.get? address
      else beyond.get? address := by
  have length := memory.length_toList
  by_cases inside : address < small
  · have written :
        (beyond.write 0 memory.toList).get? (0 + address) =
          memory.toList[address]? :=
      get?_write_add (by omega) (by omega)
    rw [if_pos inside, overlay, ← toList_getElem? memory, ← written,
      Nat.zero_add]
  · rw [if_neg inside, overlay, get?_write_of_le (by omega)]

theorem set_overlay
    (order : small ≤ large)
    {address : Nat}
    (inside : address < small)
    (byte : Byte) :
    (memory.overlay beyond).set address byte =
      (memory.set address byte).overlay beyond := by
  apply ext_get?
  intro index
  rw [get?_set, get?_overlay order, get?_overlay order, get?_set]
  by_cases same : address = index
  · subst same
    rw [if_pos rfl, if_pos rfl, if_pos inside, if_pos inside,
      if_pos (Nat.lt_of_lt_of_le inside order)]
  · rw [if_neg same, if_neg same]

theorem slice_overlay
    (order : small ≤ large)
    {address count : Nat}
    (inside : address + count ≤ small) :
    (memory.overlay beyond).slice address count =
      memory.slice address count := by
  induction count generalizing address with
  | zero => rfl
  | succ count inductionHypothesis =>
      rw [slice, slice, inductionHypothesis (by omega), get?_overlay order,
        if_pos (by omega)]

theorem take_overlay (order : small ≤ large) :
    (memory.overlay beyond).bytes.toArray.take small =
      memory.bytes.toArray.take small := by
  apply Array.ext_getElem?
  intro address
  have byte :
      (memory.overlay beyond).bytes[address]? =
        if address < small then memory.bytes[address]?
        else beyond.bytes[address]? :=
    get?_overlay order address
  simp only [Array.take_eq_extract, Array.getElem?_extract,
    Vector.getElem?_toArray, Vector.size_toArray, Nat.min_eq_left order,
    Nat.min_self, Nat.sub_zero, Nat.zero_add, byte]
  split <;> rfl

/-- A memory that agrees with a smaller one has its bytes at the start. -/
theorem eq_overlay
    (order : small ≤ large)
    (same : ∀ address < small, beyond.get? address = memory.get? address) :
    beyond = memory.overlay beyond := by
  apply ext_get?
  intro address
  rw [get?_overlay order]
  split
  · next inside => exact same address inside
  · rfl

end Memory

/-- What is shown of a state, with the first bytes of memory only. -/
def Snapshot.cutTo (size : Nat) (snapshot : Snapshot) : Snapshot :=
  { snapshot with memory := snapshot.memory.take size }

/-- Whether a fault depends on the size of memory. -/
def Fault.concernsSize : Fault → Bool
  | .outOfBounds _ => true
  | .invalidJump _ => true
  | .endOfMemory => true
  | .truncated _ => true
  | _ => false

/-! ## Work that is not refused for its addresses -/

section Following

variable {Result Last Wide WideLast : Type}

/--
Work with a larger memory goes as with a smaller one, unless the smaller one
is too small for it.
-/
def Follows
    (embed : Result → Wide)
    (narrow : Except Fault Result)
    (wide : Except Fault Wide) : Prop :=
  (∃ fault, narrow = .error fault ∧ fault.concernsSize = true) ∨
    wide = narrow.map embed

theorem Follows.self
    {narrow : Except Fault Result} :
    Follows id narrow narrow := by
  refine Or.inr ?_
  cases narrow <;> rfl

theorem Follows.bind
    {embed : Result → Wide}
    {embedLast : Last → WideLast}
    {narrow : Except Fault Result}
    {wide : Except Fault Wide}
    {next : Result → Except Fault Last}
    {wideNext : Wide → Except Fault WideLast}
    (first : Follows embed narrow wide)
    (second :
      ∀ result, Follows embedLast (next result) (wideNext (embed result))) :
    Follows embedLast (narrow >>= next) (wide >>= wideNext) := by
  rcases first with ⟨fault, rfl, outside⟩ | rfl
  · exact Or.inl ⟨fault, rfl, outside⟩
  · cases narrow with
    | error fault => exact Or.inr rfl
    | ok result => exact second result

end Following

namespace Machine

variable {small large : Nat}

/-- The machine in a larger memory that it has the first bytes of. -/
def grow (machine : Machine small) (beyond : Memory large) :
    Machine large :=
  ⟨machine.registers, machine.flags, machine.memory.overlay beyond,
    machine.pc, machine.fetched, machine.isRunning⟩

end Machine

namespace Outcome

variable {small large : Nat} {Reason : Type}

/-- The same outcome in a larger memory. -/
def grow (outcome : Outcome small Reason) (beyond : Memory large) :
    Outcome large Reason :=
  ⟨outcome.machine.grow beyond, outcome.failure, outcome.events⟩

/-- An outcome in a larger memory, unless the smaller one is too small. -/
def Follows
    (beyond : Memory large)
    (narrow : Outcome small Fault)
    (wide : Outcome large Fault) : Prop :=
  (∃ fault, narrow.failure = some fault ∧ fault.concernsSize = true) ∨
    wide = narrow.grow beyond

/--
An outcome in a larger memory is the same, and shows the same as far as the
smaller memory goes.
-/
structure Extends
    (beyond : Memory large)
    (narrow : Outcome small Reason)
    (wide : Outcome large Reason) : Prop where
  machine : wide.machine = narrow.machine.grow beyond
  failure : wide.failure = narrow.failure
  events :
    wide.events.map (Event.mapSnapshot (Snapshot.cutTo small)) =
      narrow.events.map (Event.mapSnapshot (Snapshot.cutTo small))

variable {beyond : Memory large} {machine : Machine small}

theorem follows_ofUpdate
    {update : Except Fault (Machine small)}
    {wide : Except Fault (Machine large)}
    (follows : PocketCpu.Follows (Machine.grow · beyond) update wide) :
    Follows beyond (.ofUpdate machine update)
      (.ofUpdate (machine.grow beyond) wide) := by
  rcases follows with ⟨fault, rfl, outside⟩ | rfl
  · exact Or.inl ⟨fault, rfl, outside⟩
  · cases update <;> exact Or.inr rfl

theorem Follows.after
    {narrow : Outcome small Fault}
    {wide : Outcome large Fault}
    (follows : Follows beyond narrow wide)
    (events : List Event) :
    Follows beyond (narrow.after events) (wide.after events) := by
  rcases follows with outside | rfl
  · exact Or.inl outside
  · exact Or.inr rfl

end Outcome

namespace Machine

variable {small large : Nat} {machine : Machine small}
variable {beyond : Memory large} (order : small ≤ large)

include order

/-! ## Instructions -/

theorem follows_load (source : Operand) :
    Follows id (machine.load source)
      ((machine.grow beyond).load source) := by
  cases source with
  | register _ => exact .self
  | immediate _ => exact .self
  | memory address =>
      have read :
          (machine.grow beyond).memory.get? address.toNat =
            if address.toNat < small then
              machine.memory.get? address.toNat
            else beyond.get? address.toNat :=
        Memory.get?_overlay order _
      rw [load, load, read]
      by_cases inside : address.toNat < small
      · rw [if_pos inside]
        exact .self
      · rw [Memory.get?_eq_none_iff.2 (Nat.not_lt.1 inside)]
        exact Or.inl ⟨_, rfl, rfl⟩

theorem follows_store
    (opcode : Opcode)
    (target : Operand)
    (value : Byte) :
    Follows (grow · beyond) (machine.store opcode target value)
      ((machine.grow beyond).store opcode target value) := by
  cases target with
  | register _ => exact Or.inr rfl
  | immediate _ => exact Or.inr rfl
  | memory address =>
      rw [store, store]
      by_cases inside : address.toNat < small
      · have set :
            (machine.grow beyond).memory.set address.toNat value =
              (machine.memory.set address.toNat value).overlay beyond :=
          Memory.set_overlay order inside value
        rw [if_pos inside, if_pos (Nat.lt_of_lt_of_le inside order), set]
        exact Or.inr rfl
      · rw [if_neg inside]
        exact Or.inl ⟨_, rfl, rfl⟩

theorem follows_move (target source : Operand) :
    Follows (grow · beyond) (machine.move target source)
      ((machine.grow beyond).move target source) :=
  (follows_load order source).bind fun value =>
    follows_store order .mov target value

theorem follows_compute (operation : BinaryOp) (target source : Operand) :
    Follows (grow · beyond) (machine.compute operation target source)
      ((machine.grow beyond).compute operation target source) := by
  refine (follows_load order target).bind fun left => ?_
  refine (follows_load order source).bind fun right => ?_
  have finished (written : Machine small) (result : Int32) :
      Follows (grow · beyond)
        (.ok { written with flags := machine.flags.observe result })
        (.ok
          { written.grow beyond with
            flags := machine.flags.observe result }) :=
    Or.inr rfl
  dsimp only [id]
  split
  · exact (follows_store order _ target _).bind (finished · _)
  · exact finished machine _

theorem follows_invert (operand : Operand) :
    Follows (grow · beyond) (machine.invert operand)
      ((machine.grow beyond).invert operand) := by
  refine (follows_load order operand).bind fun value => ?_
  exact (follows_store order .not operand _).bind fun written => Or.inr rfl

theorem follows_jump (target : Operand) :
    Outcome.Follows beyond (machine.jump target)
      ((machine.grow beyond).jump target) := by
  rw [jump, jump]
  rcases follows_load order target with ⟨fault, failed, outside⟩ | loaded
  · rw [failed]
    exact Or.inl ⟨fault, rfl, outside⟩
  · rw [loaded]
    cases machine.load target with
    | error fault => exact Or.inr rfl
    | ok address =>
        by_cases inside : address.toNat < small
        · simp only [if_pos inside, Except.map, id,
            if_pos (Nat.lt_of_lt_of_le inside order)]
          exact Or.inr rfl
        · simp only [if_neg inside]
          exact Or.inl ⟨_, rfl, rfl⟩

theorem follows_perform (instruction : Instruction) :
    Outcome.Follows beyond (machine.perform instruction)
      ((machine.grow beyond).perform instruction) := by
  cases instruction with
  | nop => exact Or.inr rfl
  | halt => exact Or.inr rfl
  | selectWidth _ => exact Or.inr rfl
  | interrupt number =>
      rw [perform, perform]
      rcases follows_load order number with ⟨fault, failed, outside⟩ | loaded
      · rw [failed]
        exact Or.inl ⟨fault, rfl, outside⟩
      · rw [loaded]
        cases machine.load number with
        | error fault => exact Or.inr rfl
        | ok value =>
            refine Or.inr ?_
            simp only [Except.map, id, raise]
            split <;> rfl
  | move target source =>
      exact Outcome.follows_ofUpdate (follows_move order target source)
  | compute operation target source =>
      exact Outcome.follows_ofUpdate
        (follows_compute order operation target source)
  | invert operand =>
      exact Outcome.follows_ofUpdate (follows_invert order operand)
  | jump condition target =>
      rw [perform, perform]
      by_cases permitted : machine.flags.permit condition = true
      · rw [if_pos permitted]
        have same : (machine.grow beyond).flags.permit condition = true :=
          permitted
        rw [if_pos same]
        exact follows_jump order target
      · rw [if_neg permitted]
        have same : ¬ (machine.grow beyond).flags.permit condition = true :=
          permitted
        rw [if_neg same]
        exact Or.inr rfl

/-! ## Steps -/

theorem fetch?_grow
    {byte : Byte}
    {behind : Machine small}
    (fetched : machine.fetch? = some (byte, behind)) :
    (machine.grow beyond).fetch? = some (byte, behind.grow beyond) := by
  rw [fetch?] at fetched
  obtain ⟨own, read, equal⟩ := Option.map_eq_some_iff.1 fetched
  cases equal
  have inside : machine.pc.toNat < small := by
    refine Nat.lt_of_not_le fun outside => ?_
    rw [Memory.get?_eq_none_iff.2 outside] at read
    cases read
  have readAgain :
      (machine.grow beyond).memory.get? (machine.grow beyond).pc.toNat =
        some byte :=
    (Memory.get?_overlay order _).trans ((if_pos inside).trans read)
  rw [fetch?_of_get? readAgain]
  rfl

theorem follows_execute (opcode mode : Byte) :
    Outcome.Follows beyond (machine.execute opcode mode)
      ((machine.grow beyond).execute opcode mode) := by
  rw [execute, execute]
  cases Instruction.operandCount opcode mode with
  | error fault => exact Or.inr rfl
  | ok count =>
      have start : (machine.grow beyond).pc = machine.pc := rfl
      simp only [start]
      by_cases outside : small < machine.pc.toNat + count
      · rw [if_pos outside]
        exact Or.inl ⟨_, rfl, rfl⟩
      · have inside : machine.pc.toNat + count ≤ small :=
          Nat.not_lt.1 outside
        have operands :
            (machine.grow beyond).memory.slice machine.pc.toNat count =
              machine.memory.slice machine.pc.toNat count :=
          Memory.slice_overlay order inside
        have insideLarge : ¬ large < machine.pc.toNat + count :=
          Nat.not_lt.2 (Nat.le_trans inside order)
        rw [if_neg outside, if_neg insideLarge, operands]
        let behind : Machine small :=
          { machine with pc := UInt16.ofNat (machine.pc.toNat + count) }
        have same :
            { machine.grow beyond with
                pc := UInt16.ofNat (machine.pc.toNat + count) } =
              behind.grow beyond :=
          rfl
        have skips :
            (behind.grow beyond).skipped? opcode = behind.skipped? opcode :=
          rfl
        rw [same, skips]
        cases behind.skipped? opcode with
        | some operation => exact Or.inr rfl
        | none =>
            cases Instruction.decode opcode mode
                (machine.memory.slice machine.pc.toNat count) with
            | error fault => exact Or.inr rfl
            | ok instruction =>
                exact (follows_perform order instruction).after _

theorem follows_fetchAndExecute :
    Outcome.Follows beyond machine.fetchAndExecute
      (machine.grow beyond).fetchAndExecute := by
  rw [fetchAndExecute, fetchAndExecute]
  cases first : machine.fetch? with
  | none => exact Or.inl ⟨_, rfl, rfl⟩
  | some fetched =>
      obtain ⟨opcode, behindOpcode⟩ := fetched
      rw [fetch?_grow order first]
      dsimp only
      cases second : behindOpcode.fetch? with
      | none => exact Or.inl ⟨_, rfl, rfl⟩
      | some fetched =>
          obtain ⟨mode, behindMode⟩ := fetched
          rw [fetch?_grow order second]
          exact (follows_execute order opcode mode).after _

/-- A larger memory is shown with the bytes of the smaller one in front. -/
theorem mapSnapshot_stateChanged_grow :
    (machine.grow beyond).stateChanged.mapSnapshot (Snapshot.cutTo small) =
      machine.stateChanged.mapSnapshot (Snapshot.cutTo small) :=
  congrArg (fun bytes => Event.stateChanged ⟨_, _, bytes, _, _⟩)
    (Memory.take_overlay order)

theorem report_grow (trap : Trap) :
    ((machine.grow beyond).report trap).1 =
        (machine.report trap).1.grow beyond ∧
      ((machine.grow beyond).report trap).2.map
          (Event.mapSnapshot (Snapshot.cutTo small)) =
        (machine.report trap).2.map
          (Event.mapSnapshot (Snapshot.cutTo small)) := by
  have stopped :
      (if trap.fault.isFatal then (machine.grow beyond).stop
        else machine.grow beyond) =
      (if trap.fault.isFatal then machine.stop else machine).grow beyond := by
    cases trap.fault.isFatal <;> rfl
  rw [report, report, stopped]
  by_cases ends : trap.fault = .endOfMemory
  · simp only [if_pos ends, and_self]
  · simp only [if_neg ends, List.map_cons,
      mapSnapshot_stateChanged_grow order, and_self]

/-- A step whose fault does not depend on the size goes the same way. -/
theorem step_grow
    (fits :
      ∀ trap, machine.step.failure = some trap →
        trap.fault.concernsSize = false) :
    machine.step.Extends beyond (machine.grow beyond).step := by
  have follows : Outcome.Follows beyond machine.fetchAndExecute
      (machine.grow beyond).fetchAndExecute :=
    follows_fetchAndExecute order
  rcases follows with ⟨fault, failed, outside⟩ | same
  · have trapped : machine.step.failure = some ⟨fault, machine.pc⟩ := by
      rw [step, failed]
      rfl
    have small := fits _ trapped
    rw [outside] at small
    cases small
  · rw [step, step, same]
    cases failed : machine.fetchAndExecute.failure with
    | none =>
        simp only [Outcome.grow, failed]
        refine ⟨rfl, rfl, ?_⟩
        simp only [Outcome.done, List.map_append, List.map_cons,
          mapSnapshot_stateChanged_grow order]
    | some fault =>
        simp only [Outcome.grow, failed]
        refine ⟨(report_grow order _).1, rfl, ?_⟩
        simp only [Outcome.failed, List.map_append]
        exact congrArg _ (report_grow order _).2

/-! ## Runs -/

omit order in
/-- No fault of a number of steps depends on the size of memory. -/
def StaysInside (machine : Machine small) (steps : Nat) : Prop :=
  ∀ index < steps, ∀ trap,
    (machine.afterSteps index).step.failure = some trap →
    trap.fault.concernsSize = false

omit order in
/-- Whether steps stay inside can be found out by taking them. -/
instance (machine : Machine small) (steps : Nat) :
    Decidable (machine.StaysInside steps) :=
  decidable_of_iff
    (∀ index < steps,
      (machine.afterSteps index).step.failure.all
        (fun trap => !trap.fault.concernsSize) = true)
    (forall₂_congr fun index _ => by
      rw [Option.all_eq_true]
      simp only [Bool.not_eq_true'])

theorem afterSteps_grow
    {steps : Nat}
    (stays : machine.StaysInside steps) :
    (machine.grow beyond).afterSteps steps =
      (machine.afterSteps steps).grow beyond := by
  induction steps with
  | zero => rfl
  | succ steps inductionHypothesis =>
      have before :=
        inductionHypothesis fun index inside =>
          stays index (Nat.lt_succ_of_lt inside)
      rw [afterSteps, before]
      exact (step_grow order (stays steps (Nat.lt_succ_self steps))).machine

end Machine

/-- A machine is in the same state as one with a smaller memory. -/
structure Machine.MatchesSmaller
    {small large : Nat}
    (larger : Machine large)
    (machine : Machine small) : Prop where
  registers : larger.registers = machine.registers
  flags : larger.flags = machine.flags
  pc : larger.pc = machine.pc
  fetched : larger.fetched = machine.fetched
  isRunning : larger.isRunning = machine.isRunning
  memory :
    ∀ address < small,
      larger.memory.get? address = machine.memory.get? address

/-- A machine takes steps as one with a smaller memory does. -/
structure Machine.StepsLikeSmaller
    {small large : Nat}
    (larger : Machine large)
    (machine : Machine small)
    (steps : Nat) : Prop where
  failures :
    ∀ index < steps,
      (larger.afterSteps index).step.failure =
        (machine.afterSteps index).step.failure
  /-- The same interrupts and traps are told of. -/
  signals :
    ∀ index < steps,
      (larger.afterSteps index).step.events.filter Event.isSignal =
        (machine.afterSteps index).step.events.filter Event.isSignal
  /-- The same is shown, as far as the smaller memory goes. -/
  events :
    ∀ index < steps,
      (larger.afterSteps index).step.events.map
          (Event.mapSnapshot (Snapshot.cutTo small)) =
        (machine.afterSteps index).step.events.map
          (Event.mapSnapshot (Snapshot.cutTo small))
  states :
    ∀ index ≤ steps,
      (larger.afterSteps index).MatchesSmaller (machine.afterSteps index)
  /-- Bytes that the smaller memory does not have are left alone. -/
  kept :
    ∀ index ≤ steps, ∀ address, small ≤ address →
      (larger.afterSteps index).memory.get? address =
        larger.memory.get? address

namespace Machine

variable {small large : Nat} {machine : Machine small}
variable {larger : Machine large}

theorem MatchesSmaller.eq_grow
    (order : small ≤ large)
    (same : larger.MatchesSmaller machine) :
    larger = machine.grow larger.memory := by
  obtain ⟨registers, flags, memory, pc, fetched, isRunning⟩ := larger
  obtain ⟨rfl, rfl, rfl, rfl, rfl, bytes⟩ := same
  exact congrArg (Machine.mk _ _ · _ _ _) (Memory.eq_overlay order bytes)

/-- Steps that a smaller memory is large enough for go the same way. -/
theorem stepsLikeSmaller_of_staysInside
    {steps : Nat}
    (order : small ≤ large)
    (same : larger.MatchesSmaller machine)
    (stays : machine.StaysInside steps) :
    larger.StepsLikeSmaller machine steps := by
  have after :
      ∀ index ≤ steps,
        larger.afterSteps index =
          (machine.afterSteps index).grow larger.memory := by
    intro index within
    have grown :
        (machine.grow larger.memory).afterSteps index =
          (machine.afterSteps index).grow larger.memory :=
      afterSteps_grow order fun earlier inside =>
        stays earlier (Nat.lt_of_lt_of_le inside within)
    rwa [← same.eq_grow order] at grown
  have step :
      ∀ index < steps,
        (machine.afterSteps index).step.Extends larger.memory
          (larger.afterSteps index).step := by
    intro index inside
    rw [after index (Nat.le_of_lt inside)]
    exact step_grow order (stays index inside)
  have bytes (index address : Nat) :
      ((machine.afterSteps index).memory.overlay larger.memory).get? address =
        if address < small then
          (machine.afterSteps index).memory.get? address
        else larger.memory.get? address :=
    Memory.get?_overlay order address
  refine ⟨?_, ?_, ?_, ?_, ?_⟩
  · exact fun index inside => (step index inside).failure
  · exact fun index inside =>
      Event.filter_isSignal_congr (step index inside).events
  · exact fun index inside => (step index inside).events
  · intro index within
    rw [after index within]
    exact ⟨rfl, rfl, rfl, rfl, rfl, fun address inside =>
      (bytes index address).trans (if_pos inside)⟩
  · intro index within address outside
    rw [after index within]
    exact (bytes index address).trans (if_neg (Nat.not_lt.2 outside))

end Machine

/-! ## Sources -/

/-- A source is assembled as in a smaller memory, with a number of bytes. -/
structure Workspace.AssemblesLikeSmaller
    {small large : Nat}
    (larger : Workspace large)
    (workspace : Workspace small)
    (source : Text)
    (count : Nat) : Prop where
  result : (larger.assemble source).2 = .ok count
  labels :
    (larger.assemble source).1.labels =
      (workspace.assemble source).1.labels
  /-- The same bytes are emitted for the same lines. -/
  emissions :
    (Assembly.ofSource large source).emissions =
      (Assembly.ofSource small source).emissions
  bytes :
    (larger.assemble source).1.memory.toList.take count =
      (workspace.assemble source).1.memory.toList.take count

section Assembling

variable {small large : Nat} (order : small ≤ large)

include order

theorem PlacedLine.IsSound.mono
    {labels : LabelTable}
    {placed : PlacedLine}
    (sound : placed.IsSound labels small) :
    placed.IsSound labels large := by
  refine ⟨sound.label, fun text written => ?_⟩
  obtain ⟨bytes, encoded, fits⟩ := sound.code text written
  exact ⟨bytes, encoded, Nat.le_trans fits order⟩

/-- A source that fits into a small memory fits into a larger one. -/
theorem Workspace.assemblesLikeSmaller_of_ok
    {workspace : Workspace small}
    {source : Text}
    {count : Nat}
    (assembled : (workspace.assemble source).2 = .ok count)
    (larger : Workspace large) :
    larger.AssemblesLikeSmaller workspace source count := by
  obtain ⟨sound, total⟩ := assemble_eq_ok_iff.1 assembled
  have soundLarge :
      Layout.AllSound (Layout.labelsOf (SourceLine.ofSource source)) large 0
        (SourceLine.ofSource source) :=
    fun placed member => (sound placed member).mono order
  have result : (larger.assemble source).2 = .ok count :=
    assemble_eq_ok_iff.2 ⟨soundLarge, total⟩
  have fits := sound.end_le (Nat.zero_le small)
  have length := sound.length_bytes
  rw [Nat.zero_add] at fits
  refine ⟨result, rfl, ?_, ?_⟩
  · rw [Assembly.emissions_ofSource, Assembly.emissions_ofSource]
    apply List.filterMap_congr
    intro placed member
    rw [(soundLarge placed member).emission?_eq,
      (sound placed member).emission?_eq]
  · rw [assemble_of_ok assembled, assemble_of_ok result,
      Memory.toList_write_zero (by omega),
      Memory.toList_write_zero (by omega), ← total, ← length,
      List.take_left, List.take_left]

end Assembling

/--
A larger memory changes nothing for a source that fits into the smaller one,
and nothing for steps that the smaller one is large enough for.
-/
theorem Memory.alike_of_le
    {small large : Nat}
    (order : small ≤ large) :
    (∀ (workspace : Workspace small) (larger : Workspace large)
        (source : Text) (count : Nat),
      (workspace.assemble source).2 = .ok count →
      larger.AssemblesLikeSmaller workspace source count) ∧
    ∀ (machine : Machine small) (larger : Machine large) (steps : Nat),
      larger.MatchesSmaller machine →
      machine.StaysInside steps →
      larger.StepsLikeSmaller machine steps :=
  ⟨fun _ larger _ _ assembled =>
      Workspace.assemblesLikeSmaller_of_ok order assembled larger,
    fun _ _ _ same stays =>
      Machine.stepsLikeSmaller_of_staysInside order same stays⟩

/-- A fault, and then a store to the last byte of the smaller memory. -/
theorem Memory.alike_eight_sixteen :
    8 ≤ 16 ∧
      (Workspace.ofMemory (.zero 16)).AssemblesLikeSmaller
        (.ofMemory (.zero 8)) "INT #9\nMOV [7], #1\n".toList 7 ∧
      ((Machine.initial 16).loadProgram
            "INT #9\nMOV [7], #1\n".toList).machine.StepsLikeSmaller
        ((Machine.initial 8).loadProgram
          "INT #9\nMOV [7], #1\n".toList).machine 2 := by
  refine ⟨by decide, ?_, ?_⟩
  · exact (alike_of_le (by decide)).1 _ _ _ _ rfl
  · exact (alike_of_le (by decide)).2 _ _ _
      ⟨rfl, rfl, rfl, rfl, rfl, by decide⟩ (by decide)

end PocketCpu
