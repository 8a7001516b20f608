import PocketCpu.Machine.Load
import PocketCpu.Proofs.Machine.Effects

/-!
# Failed steps are atomic

A step that fails has no effect on registers, flags and memory, whatever it
is that fails: fetching, decoding, reading an operand, writing a result or
jumping.  It reports its trap exactly once.  A step that succeeds notifies of
the new state exactly once, and before that of an interrupt exactly if it
raises one.
-/

namespace PocketCpu

namespace Machine

variable {size : Nat} {machine : Machine size}
variable {outcome : Outcome size Fault} {fault : Fault}

/-! ## Dropped machines -/

/-- Dropping a machine switches it off if the fault is fatal, and no more. -/
theorem dropped_eq (machine : Machine size) (fault : Fault) :
    machine.dropped fault =
      { machine with isRunning := machine.isRunning && !fault.isFatal } := by
  rw [dropped]
  cases fault.isFatal with
  | true =>
      rw [Bool.not_true, Bool.and_false]
      rfl
  | false =>
      rw [Bool.not_false, Bool.and_true]
      rfl

theorem dropped_dropped (machine : Machine size) (fault : Fault) :
    (machine.dropped fault).dropped fault = machine.dropped fault := by
  rw [dropped, dropped]
  split <;> rfl

/-- What fails leaves a dropped machine, and nothing was notified before. -/
theorem CarriesOut.dropped_of_failed
    (carriesOut : machine.CarriesOut outcome)
    (failed : outcome.failure = some fault) :
    ∃ pc fetched,
      outcome.machine.dropped fault =
          (machine.redirect pc fetched).dropped fault ∧
        outcome.notifications = [] ∧
        (fault = .endOfMemory →
          pc = machine.pc ∧ fetched = machine.fetched) := by
  cases carriesOut with
  | ended nothing =>
      cases failed
      exact ⟨machine.pc, machine.fetched, rfl, rfl, fun _ => ⟨rfl, rfl⟩⟩
  | cut undecoded inside =>
      cases failed
      exact ⟨_, _, rfl, rfl, nofun⟩
  | refused undecoded harmless taken behind =>
      cases failed
      refine ⟨_, _, rfl, rfl, ?_⟩
      rintro rfl
      cases harmless
  | skipped undecoded untaken behind => cases failed
  | @performed instruction pc fetched decoded behind =>
      obtain ⟨code, left⟩ := drops_perform _ fault failed
      refine ⟨pc, fetched, ?_, ?_, ?_⟩
      · rw [left, dropped_dropped]
      · rw [notifications_perform, interruptNumber?_of_failed failed]
        rfl
      · rintro rfl
        cases code

/-! ## Failed steps -/

/--
A step fails with a trap: it has no effect but to stop the machine if the
fault is fatal, and notifies of the trap once, and then of the state.  At the
end of memory there is no new state to notify of.
-/
structure FailsWith (machine : Machine size) (trap : Trap) : Prop where
  pc : trap.pc = machine.pc
  registers : machine.step.machine.registers = machine.registers
  flags : machine.step.machine.flags = machine.flags
  memory : machine.step.machine.memory = machine.memory
  isRunning :
    machine.step.machine.isRunning =
      (machine.isRunning && !trap.fault.isFatal)
  reported :
    trap.fault ≠ .endOfMemory →
      machine.step.notifications =
        [.trapped trap, machine.step.machine.stateChanged]
  ended :
    trap.fault = .endOfMemory →
      machine.step.notifications = [.trapped trap] ∧
        machine.step.machine.pc = machine.pc ∧
        machine.step.machine.fetched = machine.fetched

theorem failsWith_of_failure
    (small : size < 65536)
    {trap : Trap}
    (failure : machine.step.failure = some trap) :
    machine.FailsWith trap := by
  obtain ⟨outcome, notices, carriesOut, executed⟩ :=
    exists_carriesOut small machine
  cases failed : outcome.failure with
  | none =>
      rw [(step_of_done executed failed).1] at failure
      cases failure
  | some fault =>
      obtain ⟨trapped, left, notified⟩ := step_of_failed executed failed
      obtain ⟨pc, fetched, same, silent, ended⟩ :=
        carriesOut.dropped_of_failed failed
      rw [trapped] at failure
      cases failure
      rw [same] at left
      rw [silent, List.nil_append, ← left.trans same.symm] at notified
      have stopped :
          machine.step.machine =
            { machine.redirect pc fetched with
              isRunning := machine.isRunning && !fault.isFatal } :=
        left.trans (dropped_eq _ fault)
      refine ⟨rfl, ?_, ?_, ?_, ?_, ?_, ?_⟩
      · rw [stopped, redirect]
      · rw [stopped, redirect]
      · rw [stopped, redirect]
      · rw [stopped]
      · intro notEnd
        rw [notified, if_neg notEnd]
      · intro atEnd
        obtain ⟨rfl, rfl⟩ := ended atEnd
        rw [notified, if_pos atEnd, stopped]
        exact ⟨rfl, rfl, rfl⟩

/-! ## Steps that succeed -/

/--
A step succeeds: it notifies of the state once, and before that of an
interrupt if there is one with a meaning, and does not stop the machine
unless it halts.
-/
structure Succeeds (machine : Machine size) : Prop where
  interrupted :
    ∀ operand number,
      machine.current = .ok (.interrupt operand) →
      machine.load operand = .ok number →
      number = 0 ∨ number = 1 →
      machine.step.notifications =
        [.interrupt number machine.registers.ax,
          machine.step.machine.stateChanged]
  silent :
    (∀ operand number,
      machine.current = .ok (.interrupt operand) →
      machine.load operand = .ok number →
      ¬ (number = 0 ∨ number = 1)) →
      machine.step.notifications = [machine.step.machine.stateChanged]
  isRunning :
    machine.step.machine.isRunning ≠ machine.isRunning →
      machine.current = .ok .halt

theorem succeeds_of_failure_none
    (small : size < 65536)
    (failure : machine.step.failure = none) :
    machine.Succeeds := by
  obtain ⟨outcome, notices, carriesOut, executed⟩ :=
    exists_carriesOut small machine
  cases failed : outcome.failure with
  | some fault =>
      rw [(step_of_failed executed failed).1] at failure
      cases failure
  | none =>
      obtain ⟨-, left, notified⟩ := step_of_done executed failed
      rw [← left] at notified
      cases carriesOut with
      | ended _ => cases failed
      | cut _ _ => cases failed
      | refused _ _ _ _ => cases failed
      | skipped undecoded untaken behind =>
          refine ⟨?_, fun _ => notified, ?_⟩
          · intro operand number decoded
            rw [undecoded] at decoded
            cases decoded
          · intro changed
            exact absurd (congrArg Machine.isRunning left) changed
      | @performed instruction pc fetched decoded behind =>
          rw [notifications_perform] at notified
          have sameNumber :
              (machine.redirect pc fetched).interruptNumber? instruction =
                machine.interruptNumber? instruction :=
            rfl
          rw [sameNumber] at notified
          refine ⟨?_, ?_, ?_⟩
          · intro operand number isInterrupt loaded known
            rw [decoded] at isInterrupt
            have raises :=
              interruptNumber?_eq_some_iff.2
                ⟨operand, Except.ok.inj isInterrupt, loaded, known⟩
            rw [notified, raises]
            rfl
          · intro quiet
            cases raises : machine.interruptNumber? instruction with
            | none =>
                rw [notified, raises]
                rfl
            | some number =>
                obtain ⟨operand, rfl, loaded, known⟩ :=
                  interruptNumber?_eq_some_iff.1 raises
                exact absurd known (quiet operand number decoded loaded)
          · intro changed
            by_cases halts : instruction = .halt
            · rw [decoded, halts]
            · have kept := isRunning_perform failed halts
              rw [← left] at kept
              exact absurd kept changed

/-! ## Steps and instructions -/

/--
A step that fails is atomic and reports once, a step that succeeds notifies
once, and an instruction that fails is atomic by itself.
-/
theorem step_isAtomic
    (small : size < 65536)
    (machine : Machine size) :
    (∀ trap, machine.step.failure = some trap →
        machine.FailsWith trap) ∧
      (machine.step.failure = none → machine.Succeeds) ∧
      ∀ instruction fault,
        (machine.perform instruction).failure = some fault →
          (machine.perform instruction).machine.registers =
              machine.registers ∧
            (machine.perform instruction).machine.flags =
              machine.flags ∧
            (machine.perform instruction).machine.memory =
              machine.memory := by
  refine ⟨fun _ => failsWith_of_failure small,
    succeeds_of_failure_none small, ?_⟩
  intro instruction fault failed
  rw [(drops_perform instruction fault failed).2, dropped_eq]
  exact ⟨rfl, rfl, rfl⟩

/--
A sum whose second operand lies outside of memory fails and reports once,
an interrupt with a meaning is notified before the state, and a move to a
constant fails.
-/
theorem step_isAtomic_sum_and_interrupt :
    ((initial 4).loadProgram
          "ADD AX, [80]".toList).machine.FailsWith
        ⟨.outOfBounds 0x80, 0⟩ ∧
      ((initial 4).loadProgram "INT #1".toList).machine.step.notifications =
        [.interrupt 1 0,
          ((initial 4).loadProgram
            "INT #1".toList).machine.step.machine.stateChanged] ∧
      ((initial 4).perform
          (.move (.immediate 5) (.immediate 6))).machine.memory =
        (initial 4).memory :=
  ⟨(step_isAtomic (by decide) _).1 _ (by decide),
    ((step_isAtomic (by decide) _).2.1 (by decide)).interrupted
      (.immediate 1) 1 (by rfl) (by rfl) (by decide),
    ((step_isAtomic (by decide) _).2.2
      (.move (.immediate 5) (.immediate 6)) (.immediateTarget 0x10)
      (by decide)).2.2⟩

end Machine

end PocketCpu
