import PocketCpu.Proofs.Machine.Ending
import PocketCpu.Proofs.Machine.Stopping

/-!
# Runs without jumps

Whatever memory holds, a step that neither stops the machine nor jumps leaves
the program counter behind the two to four bytes that it looked at, even if
they have no meaning or their operands are at fault.  So a run in which no
jump is taken comes closer to the end of memory with every step, and ends by
itself after at most half as many steps as there are bytes ahead, and one.
-/

namespace PocketCpu

namespace Machine

variable {size : Nat} {machine : Machine size}

/-- The address that the next step jumps to, if it does. -/
def jumped? (machine : Machine size) : Option Byte :=
  match machine.current with
  | .ok instruction => machine.jumpTarget? instruction
  | .error _ => none

/-- The next step moves on by two to four bytes, up to the end of memory. -/
structure MovesOn (machine : Machine size) : Prop where
  two_le : machine.pc.toNat + 2 ≤ machine.step.machine.pc.toNat
  le_four : machine.step.machine.pc.toNat ≤ machine.pc.toNat + 4
  inside : machine.step.machine.pc.toNat ≤ size

/-- Bytes that are a fatal fault stop the machine. -/
theorem stopsItself_of_isFatal
    (small : size < 65536)
    {fault : Fault}
    (undecoded : machine.current = .error fault)
    (fatal : fault.isFatal = true) :
    machine.StopsItself := by
  refine .inr ⟨⟨fault, machine.pc⟩, ?_, fatal⟩
  apply (foretells_entry small machine).trapped fault undecoded
  rintro code rfl
  cases fatal

/-- A step that neither stops the machine nor jumps moves on. -/
theorem movesOn_of_goesOn
    (small : size < 65536)
    (goesOn : ¬ machine.StopsItself)
    (straight : machine.jumped? = none) :
    machine.MovesOn := by
  have harmless :
      ∀ fault, machine.current = .error fault → fault.isFatal = false := by
    intro fault undecoded
    cases fatal : fault.isFatal with
    | false => rfl
    | true =>
        exact absurd (stopsItself_of_isFatal small undecoded fatal) goesOn
  obtain ⟨two, four, ahead⟩ := Instruction.leadingSpan_bounds harmless
  have behind :
      machine.step.machine.pc.toNat =
        machine.pc.toNat + Instruction.leadingSpan machine.ahead := by
    refine (foretells_entry small machine).goesOn ?_ ?_
    · intro opcode cut
      cases harmless _ cut
    · intro instruction decoded
      have isCurrent : machine.current = .ok instruction := decoded
      rw [jumped?, isCurrent] at straight
      exact straight
  rw [length_ahead] at ahead
  exact ⟨by omega, by omega, by omega⟩

/-- Steps that move on leave behind at least two bytes of memory each. -/
theorem pc_afterSteps
    {steps : Nat}
    (moves : ∀ index ≤ steps, (machine.afterSteps index).MovesOn) :
    machine.pc.toNat + 2 * (steps + 1) ≤
        (machine.afterSteps (steps + 1)).pc.toNat ∧
      (machine.afterSteps (steps + 1)).pc.toNat ≤ size := by
  induction steps with
  | zero =>
      obtain ⟨two, -, inside⟩ := moves 0 (Nat.le_refl 0)
      exact ⟨two, inside⟩
  | succ steps inductionHypothesis =>
      obtain ⟨before, -⟩ :=
        inductionHypothesis fun index within =>
          moves index (Nat.le_succ_of_le within)
      obtain ⟨two, -, inside⟩ := moves (steps + 1) (Nat.le_refl _)
      have last :
          (machine.afterSteps (steps + 1 + 1)).pc =
            (machine.afterSteps (steps + 1)).step.machine.pc :=
        rfl
      rw [last]
      exact ⟨by omega, inside⟩

/-! ## Whole runs -/

/-- A machine that ends by itself ends a run that nothing stops. -/
theorem run?_free_of_endsAfter
    {steps : Nat}
    (ends : machine.started.EndsAfter steps)
    {Clock : Type}
    (clock : Clock)
    {turns : Nat}
    (enough : steps ≤ turns) :
    machine.run? .free clock turns =
      some
        ⟨machine.started.afterSteps steps, clock,
          machine.started.lastFailure? steps,
          machine.started.eventsOfSteps steps ++
            (machine.started.afterSteps steps).closing
              (machine.started.lastFailure? steps)⟩ := by
  obtain ⟨one, isOn, isOff⟩ := ends
  obtain ⟨count, rfl⟩ := Nat.exists_eq_succ_of_ne_zero (Nat.ne_of_gt one)
  have begins :
      Run.start machine clock = ⟨machine.started, clock, .active⟩ :=
    rfl
  have finished :
      (⟨machine.started, clock, .active⟩ : Run Clock size).advance .free
          turns #[] = _ :=
    Run.advance_of_turn (fun _ => clock)
      (fun index inside => isOn (index + 1) (Nat.succ_lt_succ inside))
      (fun _ _ _ => rfl) (Run.turn_of_isOff isOff)
      (Nat.lt_of_succ_le enough)
  rw [run?, begins, finished, lastFailure?, Nat.succ_sub_one,
    eventsOfSteps, List.append_assoc]
  rfl

/-- As long as a run without jumps is on, it moves on. -/
theorem movesOn_of_isOn
    (small : size < 65536)
    {index : Nat}
    (straight :
      (machine.afterSteps index).isRunning = true →
        (machine.afterSteps index).jumped? = none)
    (isOn : (machine.afterSteps (index + 1)).isRunning = true) :
    (machine.afterSteps index).MovesOn := by
  obtain ⟨before, goesOn⟩ := (isRunning_step_iff small).1 isOn
  exact movesOn_of_goesOn small goesOn (straight before)

/-- Behind the end of memory a run without jumps is off. -/
theorem isOff_of_straight
    (small : size < 65536)
    (straight :
      ∀ index, (machine.afterSteps index).isRunning = true →
        (machine.afterSteps index).jumped? = none)
    {count : Nat}
    (isOn : ∀ index ≤ count, (machine.afterSteps index).isRunning = true)
    (far : size < machine.pc.toNat + 2 * (count + 1)) :
    (machine.afterSteps (count + 1)).isRunning = false := by
  cases state : (machine.afterSteps (count + 1)).isRunning with
  | false => rfl
  | true =>
      -- The steps would all have moved on, and so past the end of memory.
      have moves : ∀ index ≤ count, (machine.afterSteps index).MovesOn := by
        intro index within
        refine movesOn_of_isOn small (straight index) ?_
        rcases Nat.lt_or_eq_of_le within with before | rfl
        · exact isOn (index + 1) before
        · exact state
      obtain ⟨moved, inside⟩ := pc_afterSteps moves
      omega

/--
A run in which no jump is taken stops by itself, after at most half as many
steps as there are bytes from the program counter on, and one.  Until then
every step moves on.
-/
theorem endsAfter_of_straight
    (small : size < 65536)
    (machine : Machine size)
    (straight :
      ∀ index, (machine.started.afterSteps index).isRunning = true →
        (machine.started.afterSteps index).jumped? = none) :
    ∃ steps ≤ (size - machine.pc.toNat) / 2 + 1,
      machine.started.EndsAfter steps ∧
        (machine.started.afterSteps (steps - 1)).StopsItself ∧
        (∀ index, index + 1 < steps →
          (machine.started.afterSteps index).MovesOn) ∧
        ∀ (Clock : Type) (clock : Clock) (turns : Nat), steps ≤ turns →
          machine.run? .free clock turns =
            some
              ⟨machine.started.afterSteps steps, clock,
                machine.started.lastFailure? steps,
                machine.started.eventsOfSteps steps ++
                  (machine.started.afterSteps steps).closing
                    (machine.started.lastFailure? steps)⟩ := by
  obtain ⟨steps, one, within, isOn, isOff⟩ :=
    exists_runsFor (rfl : machine.started.isRunning = true)
      (Nat.succ_pos ((size - machine.pc.toNat) / 2))
  obtain ⟨count, rfl⟩ := Nat.exists_eq_succ_of_ne_zero (Nat.ne_of_gt one)
  -- Either the run is over early, or it has no memory left at the bound.
  have ends : (machine.started.afterSteps (count + 1)).isRunning = false := by
    rcases Nat.lt_or_ge (count + 1) ((size - machine.pc.toNat) / 2 + 1)
      with below | reached
    · exact isOff below
    · refine isOff_of_straight small straight
        (fun index before => isOn index (Nat.lt_succ_of_le before)) ?_
      show size < machine.pc.toNat + 2 * (count + 1)
      omega
  have endsAfter : machine.started.EndsAfter (count + 1) :=
    ⟨one, isOn, ends⟩
  refine ⟨count + 1, within, endsAfter, ?_, ?_, ?_⟩
  · refine Decidable.not_not.1 fun goesOn => ?_
    have stillOn :=
      (isRunning_step_iff small).2
        ⟨isOn count (Nat.lt_succ_self count), goesOn⟩
    rw [← afterSteps, ends] at stillOn
    cases stillOn
  · intro index inside
    exact movesOn_of_isOn small (straight index) (isOn (index + 1) inside)
  · intro Clock clock turns enough
    exact run?_free_of_endsAfter endsAfter clock enough

/-- A program whose jump is not taken runs up to the end of memory. -/
theorem endsAfter_of_straight_untaken :
    ∃ steps ≤ 4,
      ((initial 7).loadProgram
          "ADD AX, #1\nJZ #0".toList).machine.started.EndsAfter steps ∧
        (((initial 7).loadProgram
          "ADD AX, #1\nJZ #0".toList).machine.started.afterSteps
            (steps - 1)).StopsItself := by
  obtain ⟨steps, within, ends, stops, -⟩ :=
    endsAfter_of_straight (by decide)
      ((initial 7).loadProgram "ADD AX, #1\nJZ #0".toList).machine
      (by
        intro index isOn
        rcases Nat.lt_or_ge index 3 with early | late
        · clear isOn
          revert index
          decide
        · exact absurd (by decide)
            ((isRunning_afterSteps_iff (by decide) rfl index).1 isOn 2 late))
  exact ⟨steps, within, ends, stops⟩

end Machine

end PocketCpu
