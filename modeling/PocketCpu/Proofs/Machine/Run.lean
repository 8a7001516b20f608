import PocketCpu.Machine.Load
import PocketCpu.Machine.Run
import PocketCpu.Proofs.Machine.Step

/-!
# Runs are iterated steps

A run whose cadence only counts, and stops the machine at a given tick, is
an iteration of steps.  It ends with the first step that leaves the machine
off, or with the tick that stops it, whichever comes first.  A tick follows
every step but the one that leaves the machine off, so the run takes one tick
less than steps unless it is stopped.
-/

namespace PocketCpu

/-- The cadence only counts, and stops the machine on one call. -/
def Cadence.StopsOn
    {size : Nat}
    (cadence : Cadence Nat size)
    (limit : Nat) : Prop :=
  ∀ ticks < limit, ∀ machine,
    cadence ticks machine =
      (ticks + 1,
        if ticks + 1 = limit then machine.stop else machine, [])

theorem Cadence.stopsOn_stopAt {size : Nat} (limit : Nat) :
    (stopAt limit : Cadence Nat size).StopsOn limit := by
  intro ticks below machine
  have same : limit ≤ ticks + 1 ↔ ticks + 1 = limit := by omega
  simp only [stopAt, same]

/-- Before the call that stops the machine, a cadence only counts. -/
theorem Cadence.StopsOn.quiet
    {size : Nat}
    {cadence : Cadence Nat size}
    {limit count : Nat}
    (stops : cadence.StopsOn limit)
    (below : count < limit) :
    ∀ index < count, ∀ machine,
      cadence index machine = (index + 1, machine, []) := by
  intro index inside machine
  have called := stops index (Nat.lt_trans inside below) machine
  rwa [if_neg (by omega)] at called

/-- The failure that a run returns if it ends with a step. -/
def Outcome.runFailure?
    {size : Nat}
    (outcome : Outcome size Trap) : Option Trap :=
  match outcome.failure with
  | some trap =>
    if trap.fault.isFatal ∧ trap.fault ≠ .endOfMemory then some trap
    else none
  | none => none

namespace Machine

variable {size : Nat} (machine : Machine size)

/-- The machine is switched on. -/
def started (machine : Machine size) : Machine size :=
  { machine with isRunning := true }

/-- The events of a number of steps, in their order. -/
def eventsOfSteps (machine : Machine size) : Nat → List Event
  | 0 => []
  | steps + 1 =>
    machine.eventsOfSteps steps ++ (machine.afterSteps steps).step.events

/-- The record of the end of a run, which is made unless the run fails. -/
def closing (machine : Machine size) : Option Trap → List Event
  | none =>
    [(MachineNotice.terminated machine.pc machine.registers.ax).event]
  | some _ => []

/-- The result of a run of a number of steps. -/
def resultAfter
    (machine : Machine size)
    (steps ticks : Nat)
    (failure : Option Trap) : RunResult Nat size :=
  { machine := (machine.afterSteps steps).stop
    clock := ticks
    failure := failure
    events :=
      machine.eventsOfSteps steps ++
        (machine.afterSteps steps).closing failure }

theorem stop_of_isOff
    (isOff : machine.isRunning = false) :
    machine.stop = machine := by
  rw [stop, ← isOff]

/--
The machine is on before each of a number of steps, and the last of them
leaves it off.
-/
structure EndsAfter (machine : Machine size) (steps : Nat) : Prop where
  positive : 0 < steps
  isOn : ∀ index < steps, (machine.afterSteps index).isRunning = true
  isOff : (machine.afterSteps steps).isRunning = false

/-! ## Single turns -/

/-- A step with a fatal failure leaves the machine off. -/
theorem isRunning_step_of_isFatal
    {trap : Trap}
    (failed : machine.step.failure = some trap)
    (fatal : trap.fault.isFatal = true) :
    machine.step.machine.isRunning = false := by
  rw [step] at failed ⊢
  cases faulty : machine.fetchAndExecute.failure with
  | none =>
      rw [faulty] at failed
      cases failed
  | some fault =>
      simp only [faulty] at failed ⊢
      cases failed
      simp only [report, Outcome.failed, fatal, if_true]
      split <;> rfl

end Machine

namespace Run

section Turns

variable {size : Nat} {Clock : Type} {cadence : Cadence Clock size}
variable {machine : Machine size} {clock next : Clock}

/-- After a step that leaves the machine on, the cadence acts. -/
theorem turn_of_isRunning
    (isOn : machine.step.machine.isRunning = true) :
    turn cadence ⟨machine, clock, .active⟩ =
      ((proceed cadence ⟨machine.step.machine, clock, .active⟩).1,
        machine.step.events ++
          (proceed cadence ⟨machine.step.machine, clock, .active⟩).2) := by
  rw [turn]
  cases failed : machine.step.failure with
  | none => rfl
  | some trap =>
      have harmless : trap.fault.isFatal = false := by
        cases fatal : trap.fault.isFatal with
        | false => rfl
        | true =>
            have isOff := machine.isRunning_step_of_isFatal failed fatal
            rw [isOn] at isOff
            cases isOff
      have notEnd : trap.fault ≠ .endOfMemory := by
        intro same
        rw [same] at harmless
        cases harmless
      simp only [if_neg notEnd, harmless]
      rfl

/-- After a step that leaves the machine off, the run is over. -/
theorem turn_of_isOff
    (isOff : machine.step.machine.isRunning = false) :
    turn cadence ⟨machine, clock, .active⟩ =
      (⟨machine.step.machine, clock,
          .ended machine.step.runFailure?⟩,
        machine.step.events ++
          machine.step.machine.closing machine.step.runFailure?) := by
  rw [turn, Outcome.runFailure?]
  cases failed : machine.step.failure with
  | none =>
      simp only [proceed, isOff]
      rfl
  | some trap =>
      by_cases harmful :
          trap.fault.isFatal = true ∧ trap.fault ≠ .endOfMemory
      · simp only [if_pos harmful, if_neg harmful.2, if_pos harmful.1]
        rw [Machine.closing, List.append_nil]
      · simp only [if_neg harmful]
        split
        · rfl
        · next notEnd =>
            rw [if_neg fun fatal => harmful ⟨fatal, notEnd⟩, proceed]
            simp only [isOff]
            rfl

/-- The turn of a step that leaves the machine on, if no tick stops it. -/
theorem turn_of_quiet
    (isOn : machine.step.machine.isRunning = true)
    (quiet :
      cadence clock machine.step.machine =
        (next, machine.step.machine, [])) :
    turn cadence ⟨machine, clock, .active⟩ =
      (⟨machine.step.machine, next, .active⟩, machine.step.events) := by
  rw [turn_of_isRunning isOn, proceed]
  simp only [isOn, quiet, if_true, List.append_nil]

/-- The turn of a step that leaves the machine on, if the tick stops it. -/
theorem turn_of_stop
    (isOn : machine.step.machine.isRunning = true)
    (stops :
      cadence clock machine.step.machine =
        (next, machine.step.machine.stop, [])) :
    turn cadence ⟨machine, clock, .active⟩ =
      (⟨machine.step.machine.stop, next, .ended none⟩,
        machine.step.events ++ machine.step.machine.closing none) := by
  rw [turn_of_isRunning isOn, proceed]
  simp only [isOn, stops, if_true]
  rfl

/-! ## Several turns -/

theorem advance_of_ended
    {failure : Option Trap}
    {events : Array Event}
    (turns : Nat) :
    advance cadence turns ⟨machine, clock, .ended failure⟩ events =
      (⟨machine, clock, .ended failure⟩, events) := by
  cases turns <;> rfl

/--
As long as the machine stays on and no tick stops it, every turn is a step
and a tick.
-/
theorem advance_of_quiet
    (clocks : Nat → Clock)
    {count : Nat}
    (isOn :
      ∀ index < count, (machine.afterSteps (index + 1)).isRunning = true)
    (quiet :
      ∀ index < count, ∀ machine,
        cadence (clocks index) machine = (clocks (index + 1), machine, []))
    (turns : Nat) :
    advance cadence (count + turns) ⟨machine, clocks 0, .active⟩ #[] =
      advance cadence turns
        ⟨machine.afterSteps count, clocks count, .active⟩
        (machine.eventsOfSteps count).toArray := by
  induction count generalizing turns with
  | zero =>
      rw [Nat.zero_add]
      rfl
  | succ count inductionHypothesis =>
      have before :=
        inductionHypothesis
          (fun index inside => isOn index (Nat.lt_succ_of_lt inside))
          (fun index inside => quiet index (Nat.lt_succ_of_lt inside))
          (turns + 1)
      have step :=
        turn_of_quiet (isOn count (Nat.lt_succ_self count))
          (quiet count (Nat.lt_succ_self count) _)
      rw [Nat.add_assoc, Nat.add_comm 1, before, advance]
      simp only [step]
      rw [Machine.eventsOfSteps, Machine.afterSteps]
      simp

/-- Once a turn has ended the run, no turn changes it any more. -/
theorem advance_of_turn
    (clocks : Nat → Clock)
    {count turns : Nat}
    {last : Machine size}
    {failure : Option Trap}
    {events : List Event}
    (isOn :
      ∀ index < count, (machine.afterSteps (index + 1)).isRunning = true)
    (quiet :
      ∀ index < count, ∀ machine,
        cadence (clocks index) machine = (clocks (index + 1), machine, []))
    (ends :
      turn cadence ⟨machine.afterSteps count, clocks count, .active⟩ =
        (⟨last, clock, .ended failure⟩, events))
    (enough : count < turns) :
    advance cadence turns ⟨machine, clocks 0, .active⟩ #[] =
      (⟨last, clock, .ended failure⟩,
        (machine.eventsOfSteps count ++ events).toArray) := by
  obtain ⟨extra, rfl⟩ := Nat.exists_eq_add_of_lt enough
  rw [Nat.add_assoc, advance_of_quiet clocks isOn quiet, advance]
  simp only [ends, advance_of_ended]
  simp

end Turns

variable {size : Nat} {cadence : Cadence Nat size} {limit ticks : Nat}
variable {machine : Machine size}

/-- The turn of a step that leaves the machine on, at the last tick. -/
theorem turn_of_eq
    (stops : cadence.StopsOn limit)
    (isOn : machine.step.machine.isRunning = true)
    (last : ticks + 1 = limit) :
    turn cadence ⟨machine, ticks, .active⟩ =
      (⟨machine.step.machine.stop, limit, .ended none⟩,
        machine.step.events ++ machine.step.machine.closing none) := by
  have called :=
    stops ticks (Nat.lt_of_succ_le (Nat.le_of_eq last)) machine.step.machine
  rw [if_pos last, last] at called
  exact turn_of_stop isOn called

end Run

namespace Machine

variable {size : Nat} {machine : Machine size}
variable {cadence : Cadence Nat size} {limit : Nat}

/-- A run takes as many turns as there are before and with its last one. -/
theorem run?_of_turn
    (stops : cadence.StopsOn limit)
    {count ticks : Nat}
    {last : Machine size}
    {failure : Option Trap}
    {events : List Event}
    (below : count < limit)
    (isOn :
      ∀ index < count,
        (machine.started.afterSteps (index + 1)).isRunning = true)
    (ends :
      Run.turn cadence
          ⟨machine.started.afterSteps count, count, .active⟩ =
        (⟨last, ticks, .ended failure⟩, events))
    (turns : Nat) :
    machine.run? cadence 0 turns =
      if turns < count + 1 then none
      else
        some ⟨last, ticks, failure,
          machine.started.eventsOfSteps count ++ events⟩ := by
  have begins : Run.start machine 0 = ⟨machine.started, 0, .active⟩ := rfl
  by_cases early : turns < count + 1
  · -- Too few turns leave the run active, so it has no result.
    have within := Nat.le_of_lt_succ early
    have active :=
      Run.advance_of_quiet (fun index => index)
        (fun index inside => isOn index (Nat.lt_of_lt_of_le inside within))
        (stops.quiet (Nat.lt_of_le_of_lt within below)) 0
    rw [Nat.add_zero] at active
    rw [if_pos early, run?, begins, active]
    rfl
  · have finished :=
      Run.advance_of_turn (fun index => index) isOn (stops.quiet below) ends
        (Nat.lt_of_succ_le (Nat.not_lt.1 early))
    rw [if_neg early, run?, begins, finished]

/--
A run whose cadence stops the machine at a limit is an iteration of steps.
It ends with the first step that leaves the machine off, or else with the
step before the last tick.
-/
theorem run?_of_stopsOn
    (positive : 0 < limit)
    (stops : cadence.StopsOn limit) :
    (∀ steps ≤ limit, machine.started.EndsAfter steps →
        ∀ turns,
          machine.run? cadence 0 turns =
            if turns < steps then none
            else
              some
                (machine.started.resultAfter steps (steps - 1)
                  (machine.started.afterSteps
                    (steps - 1)).step.runFailure?)) ∧
      ((∀ index ≤ limit,
          (machine.started.afterSteps index).isRunning = true) →
        ∀ turns,
          machine.run? cadence 0 turns =
            if turns < limit then none
            else some (machine.started.resultAfter limit limit none)) := by
  constructor
  · rintro steps within ⟨one, isOn, isOff⟩ turns
    obtain ⟨count, rfl⟩ := Nat.exists_eq_succ_of_ne_zero (Nat.ne_of_gt one)
    rw [run?_of_turn stops within
      (fun index inside => isOn (index + 1) (Nat.succ_lt_succ inside))
      (Run.turn_of_isOff isOff), resultAfter, stop_of_isOff _ isOff,
      eventsOfSteps, List.append_assoc]
    rfl
  · intro isOn turns
    obtain ⟨count, rfl⟩ :=
      Nat.exists_eq_succ_of_ne_zero (Nat.ne_of_gt positive)
    rw [run?_of_turn stops (Nat.lt_succ_self count)
      (fun index inside =>
        isOn (index + 1) (Nat.le_of_lt (Nat.succ_lt_succ inside)))
      (Run.turn_of_eq stops (isOn (count + 1) (Nat.le_refl _)) rfl),
      resultAfter, eventsOfSteps, List.append_assoc]
    rfl

/--
A program that halts behind a fault ends before the limit, and a loop runs
up to it.
-/
theorem run?_halts_and_loops :
    (((initial 8).loadProgram "INT #7\nHLT".toList).machine.run?
          (Cadence.stopAt 3) 0 2 =
        some
          (((initial 8).loadProgram
            "INT #7\nHLT".toList).machine.started.resultAfter 2 1 none)) ∧
      ((initial 8).loadProgram "a: JMP a".toList).machine.run?
          (Cadence.stopAt 3) 0 3 =
        some
          (((initial 8).loadProgram
            "a: JMP a".toList).machine.started.resultAfter 3 3 none) := by
  constructor
  · exact (run?_of_stopsOn (by decide) (Cadence.stopsOn_stopAt 3)).1
      2 (by decide) ⟨by decide, by decide, by decide⟩ 2
  · exact (run?_of_stopsOn (by decide) (Cadence.stopsOn_stopAt 3)).2
      (by decide) 3

end Machine

end PocketCpu
