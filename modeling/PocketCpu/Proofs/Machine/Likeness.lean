import PocketCpu.Proofs.Machine.StepCases

/-!
# Machines that are alike

Two machines that differ only in what is not looked at do the same.  In which
parts they may differ is said by a relation, which the changes that
instructions make have to keep.  Beyond that, the two machines have to agree
on what the next step looks at: the bytes of its instruction, the values of
its operands and, at a jump, whether its condition holds.  Then the step does
the same on both and leaves machines that are alike again.
-/

namespace PocketCpu

/-- The operands that an instruction names. -/
def Instruction.operands : Instruction → List Operand
  | .interrupt number => [number]
  | .move target source => [target, source]
  | .compute _ target source => [target, source]
  | .invert operand => [operand]
  | .jump _ address => [address]
  | _ => []

/-- The same event, with a change to what it shows of a state. -/
def Event.mapSnapshot (change : Snapshot → Snapshot) : Event → Event
  | .stateChanged snapshot => .stateChanged (change snapshot)
  | event => event

@[simp]
theorem Event.mapSnapshot_id : mapSnapshot id = id := by
  funext event
  cases event <;> rfl

/-- Whether an event tells of an interrupt or of a trap. -/
def Event.isSignal : Event → Bool
  | .interrupt _ _ => true
  | .trapped _ => true
  | _ => false

/-- Interrupts and traps show nothing of a state. -/
theorem Event.filter_isSignal_map
    (change : Snapshot → Snapshot)
    (events : List Event) :
    (events.map (mapSnapshot change)).filter isSignal =
      events.filter isSignal := by
  induction events with
  | nil => rfl
  | cons event events inductionHypothesis =>
      cases event with
      | log _ => exact inductionHypothesis
      | stateChanged _ => exact inductionHypothesis
      | interrupt number accumulator =>
          exact congrArg (.interrupt number accumulator :: ·)
            inductionHypothesis
      | trapped trap => exact congrArg (.trapped trap :: ·) inductionHypothesis

/-- Events that are the same up to what is shown tell of the same signals. -/
theorem Event.filter_isSignal_congr
    {change : Snapshot → Snapshot}
    {events others : List Event}
    (same : others.map (mapSnapshot change) = events.map (mapSnapshot change)) :
    others.filter isSignal = events.filter isSignal := by
  rw [← filter_isSignal_map change others, same, filter_isSignal_map]

namespace Machine

variable {size : Nat}

/--
A relation of machines that have the same program counter, fetched bytes and
registers, and stay related through the changes that instructions make.
-/
structure IsLikeness
    (Alike : Machine size → Machine size → Prop) : Prop where
  pc {machine other} : Alike machine other → other.pc = machine.pc
  fetched {machine other} :
    Alike machine other → other.fetched = machine.fetched
  registers {machine other} :
    Alike machine other → other.registers = machine.registers
  redirect {machine other} :
    Alike machine other → ∀ pc fetched,
      Alike (machine.redirect pc fetched) (other.redirect pc fetched)
  stop {machine other} :
    Alike machine other → Alike machine.stop other.stop
  write {machine other} :
    Alike machine other → ∀ registers : RegisterFile,
      Alike { machine with registers } { other with registers }
  set {machine other} :
    Alike machine other → ∀ address byte,
      Alike { machine with memory := machine.memory.set address byte }
        { other with memory := other.memory.set address byte }
  /-- Arithmetic starts from the flags before a result is stored. -/
  observe {machine other written rewritten} :
    Alike machine other → Alike written rewritten → ∀ result,
      Alike { written with flags := machine.flags.observe result }
        { rewritten with flags := other.flags.observe result }
  selectWidth {machine other} :
    Alike machine other → ∀ value,
      Alike { machine with flags := machine.flags.selectWidth value }
        { other with flags := other.flags.selectWidth value }

end Machine

/-- Outcomes are the same, but for machines that are only alike. -/
structure Outcome.IsAlike
    {size : Nat}
    {Reason : Type}
    (Alike : Machine size → Machine size → Prop)
    (outcome other : Outcome size Reason) : Prop where
  machine : Alike outcome.machine other.machine
  failure : other.failure = outcome.failure
  events : other.events = outcome.events

theorem Outcome.IsAlike.after
    {size : Nat}
    {Reason : Type}
    {Alike : Machine size → Machine size → Prop}
    {outcome other : Outcome size Reason}
    (alike : IsAlike Alike outcome other)
    (events : List Event) :
    IsAlike Alike (outcome.after events) (other.after events) :=
  ⟨alike.machine, alike.failure, congrArg (events ++ ·) alike.events⟩

/-- Updates fail for the same reason, or leave machines that are alike. -/
inductive UpdatesAlike
    {size : Nat}
    (Alike : Machine size → Machine size → Prop) :
    Except Fault (Machine size) → Except Fault (Machine size) → Prop where
  | error (fault : Fault) : UpdatesAlike Alike (.error fault) (.error fault)
  | ok
      {written rewritten : Machine size}
      (alike : Alike written rewritten) :
      UpdatesAlike Alike (.ok written) (.ok rewritten)

namespace Machine

/-- Machines stay alike at another program counter. -/
theorem IsLikeness.moveTo
    {size : Nat}
    {machine other : Machine size}
    {Alike : Machine size → Machine size → Prop}
    (likeness : IsLikeness Alike)
    (alike : Alike machine other)
    (pc : Word) :
    Alike { machine with pc } { other with pc } := by
  have moved := likeness.redirect alike pc machine.fetched
  have same : other.redirect pc machine.fetched = { other with pc } := by
    rw [← likeness.fetched alike]
    rfl
  rwa [same] at moved

/-- Two machines agree on what an instruction looks at. -/
structure AgreesOn
    {size : Nat}
    (machine other : Machine size)
    (instruction : Instruction) : Prop where
  operands :
    ∀ operand ∈ instruction.operands,
      other.load operand = machine.load operand
  condition :
    ∀ condition address, instruction = .jump condition address →
      other.flags.permit condition = machine.flags.permit condition

section Alike

variable {size : Nat} {machine other : Machine size}
variable {Alike : Machine size → Machine size → Prop}
variable (likeness : IsLikeness Alike) (alike : Alike machine other)

include likeness alike

/-! ## Instructions -/

theorem updatesAlike_store
    (opcode : Opcode)
    (target : Operand)
    (value : Byte) :
    UpdatesAlike Alike (machine.store opcode target value)
      (other.store opcode target value) := by
  cases target with
  | register chosen =>
      rw [store, store, likeness.registers alike]
      exact .ok (likeness.write alike _)
  | memory address =>
      rw [store, store]
      split
      · exact .ok (likeness.set alike _ value)
      · exact .error _
  | immediate _ => exact .error _

theorem updatesAlike_move
    {target source : Operand}
    (sourceAgrees : other.load source = machine.load source) :
    UpdatesAlike Alike (machine.move target source)
      (other.move target source) := by
  rw [move, move, sourceAgrees]
  cases machine.load source with
  | error fault => exact .error fault
  | ok value => exact updatesAlike_store likeness alike .mov target value

/-- Flags that observe a result keep machines alike after an update. -/
theorem updatesAlike_observe
    {update reupdate : Except Fault (Machine size)}
    (updates : UpdatesAlike Alike update reupdate)
    (result : Int32) :
    UpdatesAlike Alike
      (update >>= fun written =>
        .ok { written with flags := machine.flags.observe result })
      (reupdate >>= fun written =>
        .ok { written with flags := other.flags.observe result }) := by
  cases updates with
  | error fault => exact .error fault
  | ok written => exact .ok (likeness.observe alike written result)

theorem updatesAlike_compute
    {target source : Operand}
    (operation : BinaryOp)
    (targetAgrees : other.load target = machine.load target)
    (sourceAgrees : other.load source = machine.load source) :
    UpdatesAlike Alike (machine.compute operation target source)
      (other.compute operation target source) := by
  rw [compute, compute, targetAgrees, sourceAgrees]
  cases machine.load target with
  | error fault => exact .error fault
  | ok left =>
      cases machine.load source with
      | error fault => exact .error fault
      | ok right =>
          let result := operation.apply (widen left) (widen right)
          cases operation.writesBack with
          | false =>
              exact updatesAlike_observe likeness alike (.ok alike) result
          | true =>
              exact updatesAlike_observe likeness alike
                (updatesAlike_store likeness alike operation.opcode target
                  (narrow result))
                result

theorem updatesAlike_invert
    {operand : Operand}
    (agrees : other.load operand = machine.load operand) :
    UpdatesAlike Alike (machine.invert operand) (other.invert operand) := by
  rw [invert, invert, agrees]
  cases machine.load operand with
  | error fault => exact .error fault
  | ok value =>
      exact updatesAlike_observe likeness alike
        (updatesAlike_store likeness alike .not operand (~~~value))
        (widen (~~~value))

omit likeness in
theorem isAlike_ofUpdate
    {update reupdate : Except Fault (Machine size)}
    (updates : UpdatesAlike Alike update reupdate) :
    Outcome.IsAlike Alike (.ofUpdate machine update)
      (.ofUpdate other reupdate) := by
  cases updates with
  | error fault => exact ⟨alike, rfl, rfl⟩
  | ok written => exact ⟨written, rfl, rfl⟩

theorem isAlike_raise (number : Byte) :
    Outcome.IsAlike Alike (machine.raise number) (other.raise number) := by
  rw [raise, raise, likeness.registers alike]
  split <;> exact ⟨alike, rfl, rfl⟩

theorem isAlike_jump
    {target : Operand}
    (agrees : other.load target = machine.load target) :
    Outcome.IsAlike Alike (machine.jump target) (other.jump target) := by
  rw [jump, jump, agrees]
  cases machine.load target with
  | error fault => exact ⟨alike, rfl, rfl⟩
  | ok address =>
      by_cases inside : address.toNat < size
      · simp only [if_pos inside]
        exact ⟨likeness.moveTo alike address.toUInt16, rfl, rfl⟩
      · simp only [if_neg inside]
        exact ⟨likeness.stop alike, rfl, rfl⟩

/-- An instruction that looks the same to machines does the same on them. -/
theorem isAlike_perform
    {instruction : Instruction}
    (agrees : machine.AgreesOn other instruction) :
    Outcome.IsAlike Alike (machine.perform instruction)
      (other.perform instruction) := by
  obtain ⟨operands, condition⟩ := agrees
  cases instruction with
  | nop => exact ⟨alike, rfl, rfl⟩
  | halt => exact ⟨likeness.stop alike, rfl, rfl⟩
  | selectWidth value => exact ⟨likeness.selectWidth alike value, rfl, rfl⟩
  | interrupt number =>
      rw [perform, perform, operands number (.head _)]
      cases machine.load number with
      | error fault => exact ⟨alike, rfl, rfl⟩
      | ok value => exact isAlike_raise likeness alike value
  | move target source =>
      exact isAlike_ofUpdate alike
        (updatesAlike_move likeness alike
          (operands source (.tail _ (.head _))))
  | compute operation target source =>
      exact isAlike_ofUpdate alike
        (updatesAlike_compute likeness alike operation
          (operands target (.head _)) (operands source (.tail _ (.head _))))
  | invert operand =>
      exact isAlike_ofUpdate alike
        (updatesAlike_invert likeness alike (operands operand (.head _)))
  | jump own address =>
      rw [perform, perform, condition own address rfl]
      split
      · exact isAlike_jump likeness alike (operands address (.head _))
      · exact ⟨alike, rfl, rfl⟩

end Alike

/-! ## Steps -/

/--
Two machines agree on what the next step of the first one looks at: the bytes
that belong together at the program counter, whether a jump there is taken,
and the operands of an instruction, unless it is a jump that is not taken.
-/
structure Agrees
    {size : Nat}
    (machine other : Machine size) : Prop where
  code :
    ∀ offset < Instruction.leadingSpan machine.ahead,
      other.memory.get? (machine.pc.toNat + offset) =
        machine.memory.get? (machine.pc.toNat + offset)
  condition :
    ∀ condition : Condition,
      machine.memory.get? machine.pc.toNat = some condition.opcode.code →
      other.flags.permit condition = machine.flags.permit condition
  operands :
    ¬ machine.IsUntaken →
      ∀ instruction, machine.current = .ok instruction →
        ∀ operand ∈ instruction.operands,
          other.load operand = machine.load operand

/--
The steps of two machines fail for the same reason and show the same, up to
a change of what is shown of a state, and leave machines that are alike.
-/
structure StepsAlike
    {size : Nat}
    (Alike : Machine size → Machine size → Prop)
    (change : Snapshot → Snapshot)
    (machine other : Machine size) : Prop where
  after : Alike machine.step.machine other.step.machine
  failure : other.step.failure = machine.step.failure
  events :
    other.step.events.map (Event.mapSnapshot change) =
      machine.step.events.map (Event.mapSnapshot change)

section Steps

variable {size : Nat} {machine other : Machine size}
variable {Alike : Machine size → Machine size → Prop}
variable {opcode mode : Byte}

theorem skipped?_congr
    (same :
      ∀ condition : Condition, opcode = condition.opcode.code →
        other.flags.permit condition = machine.flags.permit condition) :
    other.skipped? opcode = machine.skipped? opcode := by
  rw [skipped?, skipped?]
  cases named : Opcode.ofCode? opcode with
  | none => rfl
  | some operation =>
      obtain rfl := Opcode.ofCode?_eq_some_iff.1 named
      simp only [bind, Option.bind]
      cases jumps : operation.condition? with
      | none => rfl
      | some condition =>
          obtain rfl := Opcode.condition?_eq_some_iff.1 jumps
          dsimp only
          rw [same condition rfl]

/-- Machines agree on an instruction that is read from the bytes ahead. -/
theorem Agrees.agreesOn
    {operands : List Byte}
    {fields : Fields}
    {instruction : Instruction}
    (agrees : machine.Agrees other)
    (leading : machine.ahead = opcode :: mode :: operands)
    (unskipped : machine.skipped? opcode = none)
    (known : Instruction.fields opcode mode = .ok fields)
    (read : fields.read opcode operands = .ok instruction) :
    machine.AgreesOn other instruction := by
  have taken : ¬ machine.IsUntaken := by
    rw [isUntaken_iff leading, unskipped]
    exact Bool.false_ne_true
  have decoded :
      Instruction.decode opcode mode operands = .ok instruction := by
    rw [Instruction.decode_of_fields known, read]
  have current : machine.current = .ok instruction := by
    rw [Machine.current, leading, Instruction.leading, decoded]
  have first := get?_of_ahead_cons leading
  refine ⟨agrees.operands taken instruction current, ?_⟩
  rintro condition address rfl
  obtain rfl := (Instruction.isWritten_of_decode decoded).opcode
  exact agrees.condition condition first

section Alike

variable (likeness : IsLikeness Alike)

include likeness

/-- What was fetched is carried out alike if its operand bytes are the same. -/
theorem isAlike_execute
    (alike : Alike machine other)
    (operandBytes :
      ∀ count, Instruction.operandCount opcode mode = .ok count →
        other.memory.slice machine.pc.toNat count =
          machine.memory.slice machine.pc.toNat count)
    (skips : other.skipped? opcode = machine.skipped? opcode)
    (agrees :
      machine.skipped? opcode = none →
        ∀ fields instruction, Instruction.fields opcode mode = .ok fields →
          fields.read opcode machine.ahead = .ok instruction →
          machine.AgreesOn other instruction) :
    Outcome.IsAlike Alike (machine.execute opcode mode)
      (other.execute opcode mode) := by
  rw [execute, execute, likeness.pc alike]
  cases known : Instruction.fields opcode mode with
  | error fault =>
      rw [Instruction.operandCount_of_fields_error known]
      exact ⟨alike, rfl, rfl⟩
  | ok fields =>
      have counted := Instruction.operandCount_of_fields known
      rw [counted]
      dsimp only
      rw [operandBytes fields.count counted]
      split
      · exact ⟨alike, rfl, rfl⟩
      · have behind :=
          likeness.moveTo alike
            (UInt16.ofNat (machine.pc.toNat + fields.count))
        have skipsBehind (pc : Word) :
            ({ other with pc } : Machine size).skipped? opcode =
              ({ machine with pc } : Machine size).skipped? opcode :=
          skips
        rw [skipsBehind]
        split
        · exact ⟨behind, rfl, rfl⟩
        · next unskipped =>
            rw [decode_slice known]
            cases read : fields.read opcode machine.ahead with
            | error fault => exact ⟨behind, rfl, rfl⟩
            | ok instruction =>
                obtain ⟨sameOperands, condition⟩ :=
                  agrees unskipped fields instruction known read
                exact Outcome.IsAlike.after
                  (isAlike_perform likeness behind ⟨sameOperands, condition⟩) _

/-- With two bytes ahead, machines that agree carry out the same. -/
theorem isAlike_fetchAndExecute_of_ahead
    {operands : List Byte}
    (small : size < 65536)
    (alike : Alike machine other)
    (agrees : machine.Agrees other)
    (leading : machine.ahead = opcode :: mode :: operands) :
    Outcome.IsAlike Alike machine.fetchAndExecute other.fetchAndExecute := by
  have code := agrees.code
  rw [leading, Instruction.leadingSpan] at code
  have two := Instruction.two_le_span opcode mode
  have first := get?_of_ahead_cons leading
  have second : machine.memory.get? (machine.pc.toNat + 1) = some mode := by
    have byte := machine.get?_of_ahead 1
    rwa [leading] at byte
  have inside := lt_of_get?_eq_some second
  have samePc := likeness.pc alike
  have firstAgain : other.memory.get? other.pc.toNat = some opcode := by
    rw [samePc, ← first]
    exact code 0 (by omega)
  have secondAgain :
      other.memory.get? (other.pc.toNat + 1) = some mode := by
    rw [samePc, ← second]
    exact code 1 (by omega)
  have behind : (machine.pc + 1 + 1).toNat = machine.pc.toNat + 2 := by
    simp only [UInt16.toNat_add, UInt16.toNat_one]
    omega
  have isOperands :
      (machine.redirect (machine.pc + 1 + 1) ⟨opcode, mode⟩).ahead =
        operands := by
    show machine.memory.toList.drop (machine.pc + 1 + 1).toNat = operands
    rw [behind, ← List.drop_drop]
    exact congrArg (List.drop 2) leading
  rw [fetchAndExecute_of_get? first second (by omega),
    fetchAndExecute_of_get? firstAgain secondAgain (by rw [samePc]; omega),
    samePc]
  refine Outcome.IsAlike.after
    (isAlike_execute likeness (likeness.redirect alike _ _) ?_ ?_ ?_) _
  · intro count counted
    apply Memory.slice_congr
    intro index above below
    have above : (machine.pc + 1 + 1).toNat ≤ index := above
    have below : index < (machine.pc + 1 + 1).toNat + count := below
    rw [behind] at above below
    obtain ⟨offset, rfl⟩ :=
      Nat.exists_eq_add_of_le (Nat.le_of_add_right_le above)
    refine code offset ?_
    rw [Instruction.span, counted]
    dsimp only
    omega
  · apply skipped?_congr
    rintro condition rfl
    exact agrees.condition condition first
  · intro unskipped fields instruction known read
    rw [isOperands] at read
    obtain ⟨sameOperands, condition⟩ :=
      agrees.agreesOn leading unskipped known read
    exact ⟨sameOperands, condition⟩

theorem isAlike_fetchAndExecute
    (small : size < 65536)
    (alike : Alike machine other)
    (agrees : machine.Agrees other) :
    Outcome.IsAlike Alike machine.fetchAndExecute other.fetchAndExecute := by
  have samePc := likeness.pc alike
  -- As many bytes are ahead of the other machine, as it has the same size.
  have length : other.ahead.length = machine.ahead.length := by
    rw [length_ahead, length_ahead, samePc]
  rcases leading : machine.ahead with _ | ⟨opcode, _ | ⟨mode, operands⟩⟩
  · rw [leading] at length
    have nothing : other.ahead = [] := List.length_eq_zero_iff.1 length
    rw [fetchAndExecute_of_ahead_nil leading,
      fetchAndExecute_of_ahead_nil nothing]
    exact ⟨alike, rfl, rfl⟩
  · have single : other.ahead = [opcode] := by
      have same := agrees.code 0 (by rw [leading]; exact Nat.one_pos)
      rw [← samePc, other.get?_of_ahead 0, samePc, machine.get?_of_ahead 0,
        leading] at same
      rw [leading] at length
      obtain ⟨byte, only⟩ := List.length_eq_one_iff.1 length
      rw [only] at same ⊢
      cases same
      rfl
    rw [fetchAndExecute_of_ahead_singleton leading small,
      fetchAndExecute_of_ahead_singleton single small, samePc,
      likeness.fetched alike]
    exact ⟨likeness.redirect alike _ _, rfl, rfl⟩
  · exact isAlike_fetchAndExecute_of_ahead likeness small alike agrees leading

variable {change : Snapshot → Snapshot}
variable
  (shows :
    ∀ machine other, Alike machine other →
      change other.snapshot = change machine.snapshot)

include shows

omit likeness in
theorem mapSnapshot_stateChanged
    (alike : Alike machine other) :
    other.stateChanged.mapSnapshot change =
      machine.stateChanged.mapSnapshot change :=
  congrArg Event.stateChanged (shows machine other alike)

/-- A trap is reported alike. -/
theorem isAlike_report
    (alike : Alike machine other)
    (trap : Trap) :
    Alike (machine.report trap).1 (other.report trap).1 ∧
      (other.report trap).2.map (Event.mapSnapshot change) =
        (machine.report trap).2.map (Event.mapSnapshot change) := by
  have stopped :
      Alike (if trap.fault.isFatal then machine.stop else machine)
        (if trap.fault.isFatal then other.stop else other) := by
    split
    · exact likeness.stop alike
    · exact alike
  have changed := mapSnapshot_stateChanged shows stopped
  rw [report, report]
  by_cases ends : trap.fault = .endOfMemory
  · simp only [if_pos ends]
    exact ⟨stopped, trivial⟩
  · simp only [if_neg ends, List.map_cons, changed]
    exact ⟨stopped, trivial⟩

/-- Machines that agree on what the next step looks at step alike. -/
theorem stepsAlike_of_agrees
    (small : size < 65536)
    (alike : Alike machine other)
    (agrees : machine.Agrees other) :
    StepsAlike Alike change machine other := by
  obtain ⟨left, failure, events⟩ :=
    isAlike_fetchAndExecute likeness small alike agrees
  cases failed : machine.fetchAndExecute.failure with
  | none =>
      have failedAgain : other.fetchAndExecute.failure = none :=
        failure.trans failed
      have changed := mapSnapshot_stateChanged shows left
      constructor <;> simp only [step, failed, failedAgain]
      · exact left
      · rfl
      · simp only [Outcome.done, List.map_append, List.map_cons, events,
          changed]
  | some fault =>
      have failedAgain : other.fetchAndExecute.failure = some fault :=
        failure.trans failed
      obtain ⟨stopped, reported⟩ :=
        isAlike_report likeness shows left ⟨fault, machine.pc⟩
      constructor <;>
        simp only [step, failed, failedAgain, likeness.pc alike]
      · exact stopped
      · rfl
      · simp only [Outcome.failed, List.map_append, events, reported]

/--
Machines that agree all along on what the next step looks at stay alike, and
all their steps are.
-/
theorem stepsAlike_afterSteps
    (small : size < 65536)
    (alike : Alike machine other)
    {steps : Nat}
    (agrees :
      ∀ index < steps, ∀ twin,
        Alike (machine.afterSteps index) twin →
          (machine.afterSteps index).Agrees twin) :
    (∀ index ≤ steps,
        Alike (machine.afterSteps index) (other.afterSteps index)) ∧
      ∀ index < steps,
        StepsAlike Alike change (machine.afterSteps index)
          (other.afterSteps index) := by
  -- Each step needs agreement at the machines that the ones before it left.
  have stays :
      ∀ index ≤ steps,
        Alike (machine.afterSteps index) (other.afterSteps index) := by
    intro index
    induction index with
    | zero => exact fun _ => alike
    | succ index inductionHypothesis =>
        intro within
        have before := inductionHypothesis (Nat.le_of_lt within)
        exact (stepsAlike_of_agrees likeness shows small before
          (agrees index within _ before)).after
  refine ⟨stays, fun index inside => ?_⟩
  have before := stays index (Nat.le_of_lt inside)
  exact stepsAlike_of_agrees likeness shows small before
    (agrees index inside _ before)

end Alike

end Steps

end Machine

end PocketCpu
