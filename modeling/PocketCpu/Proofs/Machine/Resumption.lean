import PocketCpu.Proofs.Machine.Ending
import PocketCpu.Proofs.Machine.Likeness
import PocketCpu.Proofs.Machine.Stopping

/-!
# Stopping and resuming

Nothing that a step does depends on whether the machine is on; the switch only
decides whether a run takes another step.  So a program can be stepped through
by hand, run until it is stopped from outside and then be run again, and it
does the same as in one go.
-/

namespace PocketCpu

namespace Machine

variable {size : Nat} {machine other : Machine size}

/-! ## The switch -/

/-- The other machine differs from a machine in its switch at most. -/
def DiffersInSwitch (machine other : Machine size) : Prop :=
  ∃ isRunning, other = { machine with isRunning }

/-- No instruction changes machines that differ in the switch otherwise. -/
theorem isLikeness_differsInSwitch :
    IsLikeness (@DiffersInSwitch size) where
  pc := by
    rintro machine other ⟨isRunning, rfl⟩
    rfl
  fetched := by
    rintro machine other ⟨isRunning, rfl⟩
    rfl
  registers := by
    rintro machine other ⟨isRunning, rfl⟩
    rfl
  redirect := by
    rintro machine other ⟨isRunning, rfl⟩ pc fetched
    exact ⟨isRunning, rfl⟩
  stop := by
    rintro machine other ⟨isRunning, rfl⟩
    exact ⟨false, rfl⟩
  write := by
    rintro machine other ⟨isRunning, rfl⟩ registers
    exact ⟨isRunning, rfl⟩
  set := by
    rintro machine other ⟨isRunning, rfl⟩ address byte
    exact ⟨isRunning, rfl⟩
  observe := by
    rintro machine other written rewritten ⟨_, rfl⟩ ⟨isRunning, rfl⟩ result
    exact ⟨isRunning, rfl⟩
  selectWidth := by
    rintro machine other ⟨isRunning, rfl⟩ value
    exact ⟨isRunning, rfl⟩

/-- No step looks at the switch. -/
theorem DiffersInSwitch.agrees
    (differs : machine.DiffersInSwitch other) :
    machine.Agrees other := by
  obtain ⟨isRunning, rfl⟩ := differs
  exact ⟨fun _ _ => rfl, fun _ _ => rfl, fun _ _ _ _ _ => rfl⟩

theorem DiffersInSwitch.stepsAlike
    (small : size < 65536)
    (differs : machine.DiffersInSwitch other) :
    StepsAlike DiffersInSwitch id machine other := by
  refine stepsAlike_of_agrees isLikeness_differsInSwitch ?_ small differs
    differs.agrees
  rintro _ _ ⟨isRunning, rfl⟩
  rfl

/-- Machines that differ in the switch take the same steps. -/
theorem DiffersInSwitch.afterSteps
    (small : size < 65536)
    (differs : machine.DiffersInSwitch other)
    (steps : Nat) :
    (machine.afterSteps steps).DiffersInSwitch (other.afterSteps steps) ∧
      other.eventsOfSteps steps = machine.eventsOfSteps steps := by
  induction steps with
  | zero => exact ⟨differs, rfl⟩
  | succ steps inductionHypothesis =>
      obtain ⟨before, events⟩ := inductionHypothesis
      have alike := before.stepsAlike small
      have more := alike.events
      rw [Event.mapSnapshot_id, List.map_id, List.map_id] at more
      rw [eventsOfSteps, eventsOfSteps, events, more]
      exact ⟨alike.after, rfl⟩

/-- Machines that differ in the switch are stopped by the same steps. -/
theorem DiffersInSwitch.stopsItself_iff
    (small : size < 65536)
    (differs : machine.DiffersInSwitch other) :
    other.StopsItself ↔ machine.StopsItself := by
  have failure := (differs.stepsAlike small).failure
  obtain ⟨isRunning, rfl⟩ := differs
  rw [StopsItself, StopsItself, failure]
  rfl

/-! ## Runs within a limit -/

/-- A run has a result, with any number of turns from a limit on. -/
def RunsTo
    (machine : Machine size)
    (cadence : Cadence Nat size)
    (limit : Nat)
    (result : RunResult Nat size) : Prop :=
  ∀ turns, limit ≤ turns → machine.run? cadence 0 turns = some result

/-- A run whose cadence stops it at a limit is the steps within the limit. -/
theorem exists_runsTo
    {cadence : Cadence Nat size}
    {limit steps : Nat}
    (stops : cadence.StopsOn limit)
    (runs : machine.started.RunsFor limit steps) :
    ∃ ticks,
      machine.RunsTo cadence limit
        (machine.started.resultAfter steps ticks
          (machine.started.lastFailure? steps)) := by
  obtain ⟨one, within, isOn, isOff⟩ := runs
  obtain ⟨count, rfl⟩ := Nat.exists_eq_succ_of_ne_zero (Nat.ne_of_gt one)
  have before :
      ∀ index < count,
        (machine.started.afterSteps (index + 1)).isRunning = true :=
    fun index inside => isOn (index + 1) (Nat.succ_lt_succ inside)
  cases state :
      (machine.started.afterSteps count).step.machine.isRunning with
  | false =>
      refine ⟨count, fun turns enough => ?_⟩
      rw [run?_of_turn stops within before (Run.turn_of_isOff state),
        if_neg (Nat.not_lt.2 (Nat.le_trans within enough)), resultAfter,
        eventsOfSteps, List.append_assoc]
      have stopped : (machine.started.afterSteps (count + 1)).stop =
          (machine.started.afterSteps count).step.machine :=
        stop_of_isOff _ state
      rw [stopped]
      rfl
  | true =>
      have reached : count + 1 = limit := by
        refine Nat.le_antisymm within (Nat.le_of_not_lt fun below => ?_)
        have off := isOff below
        rw [afterSteps, state] at off
        cases off
      refine ⟨limit, fun turns enough => ?_⟩
      rw [run?_of_turn stops within before
          (Run.turn_of_eq stops state reached),
        if_neg (Nat.not_lt.2 (Nat.le_trans within enough)), resultAfter,
        lastFailure?, Nat.succ_sub_one, runFailure?_of_isRunning state,
        eventsOfSteps, List.append_assoc]
      rfl

/-! ## Resumed runs -/

theorem differsInSwitch_started (machine : Machine size) :
    machine.DiffersInSwitch machine.started :=
  ⟨true, rfl⟩

/-- Machines that differ in the switch are the same once it is on. -/
theorem DiffersInSwitch.started_eq
    (differs : machine.DiffersInSwitch other) :
    other.started = machine.started := by
  obtain ⟨isRunning, rfl⟩ := differs
  rfl

theorem started_of_isOn
    (isOn : machine.isRunning = true) :
    machine.started = machine := by
  rw [started, ← isOn]

theorem eventsOfSteps_started
    (small : size < 65536)
    (machine : Machine size)
    (steps : Nat) :
    machine.started.eventsOfSteps steps = machine.eventsOfSteps steps :=
  (machine.differsInSwitch_started.afterSteps small steps).2

/-- Switched on, a machine stays on as long as no step of it stops it. -/
theorem isRunning_started_afterSteps
    (small : size < 65536)
    {steps : Nat}
    (goesOn :
      ∀ index < steps, ¬ (machine.afterSteps index).StopsItself)
    {index : Nat}
    (within : index ≤ steps) :
    (machine.started.afterSteps index).isRunning = true := by
  rw [isRunning_afterSteps_iff small rfl]
  intro earlier inside stops
  obtain ⟨differs, -⟩ :=
    machine.differsInSwitch_started.afterSteps small earlier
  exact goesOn earlier (Nat.lt_of_lt_of_le inside within)
    ((differs.stopsItself_iff small).1 stops)

/-- A machine that is not stopped by steps is on behind them. -/
theorem started_afterSteps
    (small : size < 65536)
    {steps : Nat}
    (goesOn :
      ∀ index < steps, ¬ (machine.afterSteps index).StopsItself) :
    machine.started.afterSteps steps =
      (machine.afterSteps steps).started := by
  obtain ⟨differs, -⟩ :=
    machine.differsInSwitch_started.afterSteps small steps
  rw [← differs.started_eq]
  exact (started_of_isOn
    (isRunning_started_afterSteps small goesOn (Nat.le_refl steps))).symm

/-- Steps before a run within a limit are a run within a later limit. -/
theorem RunsFor.add
    {lead limit steps : Nat}
    (isOn : ∀ index < lead, (machine.afterSteps index).isRunning = true)
    (runs : (machine.afterSteps lead).RunsFor limit steps) :
    machine.RunsFor (lead + limit) (lead + steps) := by
  obtain ⟨one, within, before, isOff⟩ := runs
  refine ⟨by omega, by omega, ?_, ?_⟩
  · intro index inside
    rcases Nat.lt_or_ge index lead with early | late
    · exact isOn index early
    · obtain ⟨more, rfl⟩ := Nat.exists_eq_add_of_le late
      rw [afterSteps_add]
      exact before more (Nat.lt_of_add_lt_add_left inside)
  · intro below
    rw [afterSteps_add]
    exact isOff (Nat.lt_of_add_lt_add_left below)

theorem lastFailure?_add
    (machine : Machine size)
    (lead : Nat)
    {steps : Nat}
    (positive : 0 < steps) :
    machine.lastFailure? (lead + steps) =
      (machine.afterSteps lead).lastFailure? steps := by
  rw [lastFailure?, lastFailure?, Nat.add_sub_assoc positive, afterSteps_add]

/-- The end of a run is only recorded. -/
theorem filter_resultAfter
    (machine : Machine size)
    (steps ticks : Nat)
    (failure : Option Trap) :
    (machine.resultAfter steps ticks failure).events.filter
        Event.isNotification =
      (machine.eventsOfSteps steps).filter Event.isNotification := by
  rw [resultAfter, List.filter_append]
  cases failure <;> exact List.append_nil _

/-- A run that no step stops runs up to its limit, and without a failure. -/
theorem runsTo_of_goesOn
    (small : size < 65536)
    {cadence : Cadence Nat size}
    {limit : Nat}
    (stops : cadence.StopsOn limit)
    (positive : 0 < limit)
    (goesOn :
      ∀ index < limit, ¬ (machine.afterSteps index).StopsItself) :
    ∃ ticks,
      machine.RunsTo cadence limit
        (machine.started.resultAfter limit ticks none) := by
  have runs : machine.started.RunsFor limit limit :=
    ⟨positive, Nat.le_refl limit,
      fun _ inside =>
        isRunning_started_afterSteps small goesOn (Nat.le_of_lt inside),
      fun below => absurd below (Nat.lt_irrefl limit)⟩
  have noFailure : machine.started.lastFailure? limit = none := by
    obtain ⟨count, rfl⟩ :=
      Nat.exists_eq_succ_of_ne_zero (Nat.ne_of_gt positive)
    exact runFailure?_of_isRunning
      (isRunning_started_afterSteps small goesOn (Nat.le_refl (count + 1)))
  rw [← noFailure]
  exact exists_runsTo stops runs

/-- The switch before a step matters to nothing but the switch behind it. -/
theorem step_switched
    (small : size < 65536)
    (machine : Machine size)
    (isRunning : Bool) :
    ∃ isLeftOn,
      { machine with isRunning }.step =
        { machine.step with
          machine :=
            { machine.step.machine with isRunning := isLeftOn } } := by
  have differs : machine.DiffersInSwitch { machine with isRunning } :=
    ⟨isRunning, rfl⟩
  obtain ⟨⟨isLeftOn, left⟩, failure, events⟩ := differs.stepsAlike small
  rw [Event.mapSnapshot_id, List.map_id, List.map_id] at events
  exact ⟨isLeftOn, congr (congrArg₂ Outcome.mk left failure) events⟩

/--
Single steps, a run that is stopped and a run from there do the same as one
run, which the last call of a cadence stops, unless a step before the second
run stops the machine.  Nothing depends on whether the machine was on.
-/
theorem run?_resumed
    (small : size < 65536)
    (machine : Machine size)
    {single pauseLimit lastLimit : Nat}
    {pausing resuming through : Cadence Nat size}
    (pauses : pausing.StopsOn pauseLimit)
    (ends : resuming.StopsOn lastLimit)
    (passes : through.StopsOn (single + pauseLimit + lastLimit))
    (pausesLater : 0 < pauseLimit)
    (endsLater : 0 < lastLimit)
    (goesOn :
      ∀ index < single + pauseLimit,
        ¬ (machine.afterSteps index).StopsItself) :
    (∃ paused resumed once : RunResult Nat size,
        (machine.afterSteps single).RunsTo pausing pauseLimit paused ∧
          paused.machine.RunsTo resuming lastLimit resumed ∧
          machine.RunsTo through (single + pauseLimit + lastLimit) once ∧
          paused.failure = none ∧
          resumed.machine = once.machine ∧
          resumed.failure = once.failure ∧
          (machine.eventsOfSteps single ++ paused.events ++
                resumed.events).filter Event.isNotification =
            once.events.filter Event.isNotification) ∧
      ∀ (other : Machine size) (isRunning : Bool), ∃ isLeftOn,
        { other with isRunning }.step =
          { other.step with
            machine :=
              { other.step.machine with isRunning := isLeftOn } } := by
  refine ⟨?_, step_switched small⟩
  have behind :
      ∀ index < pauseLimit,
        ¬ ((machine.afterSteps single).afterSteps index).StopsItself := by
    intro index inside
    rw [← afterSteps_add]
    exact goesOn _ (Nat.add_lt_add_left inside single)
  obtain ⟨pauseTicks, paused⟩ :=
    runsTo_of_goesOn small pauses pausesLater behind
  -- Switched on again, the stopped machine is that of the uninterrupted run.
  have middle :
      ((machine.afterSteps single).started.afterSteps
          pauseLimit).stop.started =
        machine.started.afterSteps (single + pauseLimit) := by
    rw [started_afterSteps small goesOn, started_afterSteps small behind,
      afterSteps_add]
    rfl
  obtain ⟨steps, runs⟩ :=
    exists_runsFor
      (rfl : ((machine.afterSteps single).started.afterSteps
        pauseLimit).stop.started.isRunning = true)
      endsLater
  obtain ⟨ticks, resumed⟩ := exists_runsTo ends runs
  rw [middle] at runs resumed
  obtain ⟨lastTicks, once⟩ :=
    exists_runsTo passes
      (runs.add fun index inside =>
        isRunning_started_afterSteps small goesOn (Nat.le_of_lt inside))
  refine ⟨_, _, _, paused, resumed, once, rfl, ?_, ?_, ?_⟩
  · exact congrArg stop (afterSteps_add _ _ steps).symm
  · exact (lastFailure?_add _ _ runs.positive).symm
  · rw [List.filter_append, List.filter_append, filter_resultAfter,
      filter_resultAfter, filter_resultAfter, eventsOfSteps_add,
      eventsOfSteps_started small, eventsOfSteps_started small,
      eventsOfSteps_add, List.filter_append, List.filter_append]

/-- A loop that interrupts, taken by one step and by runs of two and three. -/
theorem run?_resumed_loop :
    ∃ paused resumed once : RunResult Nat 10,
      (((initial 10).loadProgram
            "a: INT #0\nADD AX, #1\nJMP a".toList).machine.afterSteps
          1).RunsTo (Cadence.stopAt 2) 2 paused ∧
        paused.machine.RunsTo (Cadence.stopAt 3) 3 resumed ∧
        ((initial 10).loadProgram
            "a: INT #0\nADD AX, #1\nJMP a".toList).machine.RunsTo
          (Cadence.stopAt 6) 6 once ∧
        resumed.machine = once.machine ∧
        resumed.failure = once.failure := by
  obtain ⟨paused, resumed, once, pauses, resumes, passes, -, last, failure,
      -⟩ :=
    (run?_resumed (by decide)
      ((initial 10).loadProgram
        "a: INT #0\nADD AX, #1\nJMP a".toList).machine
      (Cadence.stopsOn_stopAt 2) (Cadence.stopsOn_stopAt 3)
      (Cadence.stopsOn_stopAt (1 + 2 + 3)) (by decide) (by decide)
      (by decide)).1
  exact ⟨paused, resumed, once, pauses, resumes, passes, last, failure⟩

end Machine

end PocketCpu
