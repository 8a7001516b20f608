import PocketCpu.Proofs.Machine.Atomicity
import PocketCpu.Proofs.Machine.Foretelling
import PocketCpu.Proofs.Machine.Run

/-!
# Machines that stop by themselves

A step stops the machine if it halts or meets a fatal fault, and otherwise
leaves the switch as it is.  So a machine that is on stays on as long as none
of its steps stops it, and steps that are taken one after the other can be
parted anywhere.
-/

namespace PocketCpu

namespace Machine

variable {size : Nat} {machine : Machine size}

/-- The next step stops the machine: it halts or meets a fatal fault. -/
def StopsItself (machine : Machine size) : Prop :=
  machine.current = .ok .halt ∨
    ∃ trap, machine.step.failure = some trap ∧ trap.fault.isFatal = true

theorem stopsItself_iff :
    machine.StopsItself ↔
      machine.current.toOption = some .halt ∨
        (machine.step.failure.any fun trap => trap.fault.isFatal) =
          true := by
  rw [StopsItself, Option.any_eq_true]
  cases machine.current <;> simp [Except.toOption]

instance (machine : Machine size) : Decidable machine.StopsItself :=
  decidable_of_iff _ stopsItself_iff.symm

/-- A step that halts succeeds and leaves the machine off. -/
theorem step_of_halt
    (small : size < 65536)
    (halts : machine.current = .ok .halt) :
    machine.step.failure = none ∧
      machine.step.machine.isRunning = false := by
  have matched :=
    ((foretells_entry small machine).performed .halt halts).1
  exact ⟨matched.failure, matched.isRunning⟩

/-- A step leaves the machine on exactly if it was on and does not stop. -/
theorem isRunning_step_iff (small : size < 65536) :
    machine.step.machine.isRunning = true ↔
      machine.isRunning = true ∧ ¬ machine.StopsItself := by
  cases failure : machine.step.failure with
  | some trap =>
      -- A halt succeeds, so only the fault can have stopped the machine.
      have stops :
          machine.StopsItself ↔ trap.fault.isFatal = true := by
        constructor
        · rintro (halts | ⟨_, failed, fatal⟩)
          · rw [(step_of_halt small halts).1] at failure
            cases failure
          · cases failure.symm.trans failed
            exact fatal
        · exact fun fatal => .inr ⟨trap, failure, fatal⟩
      rw [(failsWith_of_failure small failure).isRunning, stops,
        Bool.and_eq_true, Bool.not_eq_true', Bool.not_eq_true]
  | none =>
      have keeps := (succeeds_of_failure_none small failure).isRunning
      have stops :
          machine.StopsItself ↔ machine.current = .ok .halt := by
        constructor
        · rintro (halts | ⟨_, failed, -⟩)
          · exact halts
          · cases failure.symm.trans failed
        · exact .inl
      rw [stops]
      by_cases halts : machine.current = .ok .halt
      · rw [(step_of_halt small halts).2]
        exact ⟨nofun, fun both => absurd halts both.2⟩
      · have same :
            machine.step.machine.isRunning = machine.isRunning :=
          Decidable.not_not.1 fun changed => halts (keeps changed)
        rw [same]
        exact ⟨fun isOn => ⟨isOn, halts⟩, And.left⟩

/-! ## Several steps -/

theorem afterSteps_add (machine : Machine size) (steps more : Nat) :
    machine.afterSteps (steps + more) =
      (machine.afterSteps steps).afterSteps more := by
  induction more with
  | zero => rfl
  | succ more inductionHypothesis =>
      rw [← Nat.add_assoc, afterSteps, afterSteps, inductionHypothesis]

theorem eventsOfSteps_add (machine : Machine size) (steps more : Nat) :
    machine.eventsOfSteps (steps + more) =
      machine.eventsOfSteps steps ++
        (machine.afterSteps steps).eventsOfSteps more := by
  induction more with
  | zero => rw [eventsOfSteps, List.append_nil, Nat.add_zero]
  | succ more inductionHypothesis =>
      rw [← Nat.add_assoc, eventsOfSteps, eventsOfSteps,
        inductionHypothesis, afterSteps_add, List.append_assoc]

/-- A machine is on after steps exactly if none of them stops it. -/
theorem isRunning_afterSteps_iff
    (small : size < 65536)
    (isOn : machine.isRunning = true)
    (steps : Nat) :
    (machine.afterSteps steps).isRunning = true ↔
      ∀ index < steps, ¬ (machine.afterSteps index).StopsItself := by
  induction steps with
  | zero =>
      exact ⟨fun _ _ inside => absurd inside (Nat.not_lt_zero _),
        fun _ => isOn⟩
  | succ steps inductionHypothesis =>
      rw [afterSteps, isRunning_step_iff small, inductionHypothesis]
      constructor
      · rintro ⟨before, last⟩ index inside
        rcases Nat.lt_succ_iff_lt_or_eq.1 inside with earlier | rfl
        · exact before index earlier
        · exact last
      · intro never
        exact ⟨fun index inside => never index (Nat.lt_succ_of_lt inside),
          never steps (Nat.lt_succ_self steps)⟩

/-! ## Runs within a limit -/

/--
The machine is on before each of a number of steps within a limit, and is off
behind them unless they reach the limit.
-/
structure RunsFor (machine : Machine size) (limit steps : Nat) : Prop where
  positive : 0 < steps
  within : steps ≤ limit
  isOn : ∀ index < steps, (machine.afterSteps index).isRunning = true
  isOff : steps < limit → (machine.afterSteps steps).isRunning = false

/-- A machine that is on runs for some number of steps within a limit. -/
theorem exists_runsFor
    (isOn : machine.isRunning = true)
    {limit : Nat}
    (positive : 0 < limit) :
    ∃ steps, machine.RunsFor limit steps := by
  induction limit with
  | zero => exact absurd positive (Nat.lt_irrefl 0)
  | succ limit inductionHypothesis =>
      rcases Nat.eq_zero_or_pos limit with rfl | some
      · refine ⟨1, Nat.one_pos, Nat.le_refl 1, ?_, ?_⟩
        · intro index inside
          rwa [Nat.lt_one_iff.1 inside]
        · exact fun below => absurd below (Nat.lt_irrefl 1)
      · obtain ⟨steps, one, within, before, isOff⟩ :=
          inductionHypothesis some
        -- The run goes on with the last step only if it reached that step.
        cases state : (machine.afterSteps steps).isRunning with
        | false =>
            exact ⟨steps, one, Nat.le_succ_of_le within, before,
              fun _ => state⟩
        | true =>
            have reached : steps = limit := by
              refine Nat.le_antisymm within (Nat.le_of_not_lt fun below => ?_)
              rw [isOff below] at state
              cases state
            subst reached
            refine ⟨steps + 1, Nat.succ_pos steps, Nat.le_refl _, ?_, ?_⟩
            · intro index inside
              rcases Nat.lt_succ_iff_lt_or_eq.1 inside with earlier | rfl
              · exact before index earlier
              · exact state
            · exact fun below => absurd below (Nat.lt_irrefl _)

end Machine

end PocketCpu
