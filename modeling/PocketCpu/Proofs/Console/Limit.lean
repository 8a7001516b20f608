import PocketCpu.Console.Session
import PocketCpu.Proofs.Machine.Run

/-!
# The limit of steps

A session with a limit of steps looks at its count only between two steps,
and the count is already one before the first of them.  So the limit is
exact if it is at least one: the session goes as without it, up to the step
at the limit or the one that ends the program, whichever comes first.  But a
limit of zero does not keep the first step from being taken.
-/

namespace PocketCpu

theorem Machine.EndsAfter.unique
    {size : Nat}
    {machine : Machine size}
    {steps others : Nat}
    (ends : machine.EndsAfter steps)
    (again : machine.EndsAfter others) :
    steps = others := by
  have notBefore {early late : Nat}
      (first : machine.EndsAfter early)
      (second : machine.EndsAfter late) :
      late ≤ early := by
    refine Nat.le_of_not_lt fun before => ?_
    have isOn := second.isOn early before
    rw [first.isOff] at isOn
    cases isOn
  exact Nat.le_antisymm (notBefore again ends) (notBefore ends again)

/-- A machine that does not end by itself stays on. -/
theorem Machine.isRunning_afterSteps
    {size : Nat}
    {machine : Machine size}
    (isOn : machine.isRunning = true)
    (never : ∀ steps, ¬ machine.EndsAfter steps)
    (steps : Nat) :
    (machine.afterSteps steps).isRunning = true := by
  induction steps using Nat.strongRecOn with
  | ind steps before =>
      cases steps with
      | zero => exact isOn
      | succ steps =>
          cases state : (machine.afterSteps (steps + 1)).isRunning with
          | true => rfl
          | false =>
              exact absurd ⟨Nat.succ_pos steps, before, state⟩
                (never (steps + 1))

/-! ## Counts on the command line -/

theorem Text.readNumber_le
    {base limit value : Nat}
    {text : Text}
    (read : readNumber base limit text = .ok value) :
    value ≤ limit := by
  rw [readNumber.eq_def] at read
  split at read
  · cases read
  · cases read
  · exact readDigits_le (Nat.zero_le limit) read
  · exact readDigits_le (Nat.zero_le limit) read

namespace Console

namespace PartialOptions

/-- No limit is larger than the largest count. -/
def IsBounded (options : PartialOptions) : Prop :=
  ∀ limit, options.limit = some limit → limit ≤ largestCount

variable {options last : PartialOptions}

theorem isBounded_add
    {argument : Argument}
    (bounded : options.IsBounded)
    (added : options.add argument = .ok last) :
    last.IsBounded := by
  cases argument with
  | level _ =>
      cases added
      exact bounded
  | dump =>
      cases added
      exact bounded
  | steps count =>
      rw [add] at added
      split at added
      · next limit read =>
          cases added
          intro _ same
          cases same
          exact Text.readNumber_le read
      · cases added
  | dangling => cases added
  | help => cases added
  | program path =>
      rw [add] at added
      split at added
      · cases added
        exact bounded
      · cases added

theorem isBounded_foldlM
    {arguments : List Argument}
    (bounded : options.IsBounded)
    (added : arguments.foldlM add options = .ok last) :
    last.IsBounded := by
  induction arguments generalizing options with
  | nil =>
      cases added
      exact bounded
  | cons argument rest inductionHypothesis =>
      rw [List.foldlM_cons] at added
      obtain ⟨next, first, others⟩ := bind_eq_ok_iff.1 added
      exact inductionHypothesis (isBounded_add bounded first) others

end PartialOptions

/-- A limit that is read from a command line is at most the largest count. -/
theorem Options.limit_le_largestCount
    {arguments : List String}
    {options : Options}
    {limit : Nat}
    (parsed : ofArguments arguments = .ok options)
    (limited : options.limit = some limit) :
    limit ≤ PartialOptions.largestCount := by
  obtain ⟨last, folded, completed⟩ := bind_eq_ok_iff.1 parsed
  have bounded :=
    PartialOptions.isBounded_foldlM (fun _ none => by cases none) folded
  rw [PartialOptions.complete] at completed
  split at completed
  · cases completed
    exact bounded limit limited
  · cases completed

namespace Session

/-! ## Sessions as runs -/

/-- The run of a session and its events after a number of turns. -/
def after (session : Session) (turns : Nat) :
    Run UInt64 standardSize × Array Event :=
  session.run.advance (cadence session.options) turns #[]

/-- The same session without a limit of steps. -/
def unlimited (session : Session) : Session :=
  { session with options := { session.options with limit := none } }

/-- A session that was just loaded has taken no step, and its count is one. -/
theorem of_load
    {options : Options}
    {source : Text}
    {session : Session}
    {outputs : List Output}
    (loaded : load options source = (.ok session, outputs)) :
    session.options = options ∧
      session.run = ⟨session.run.machine, 1, .active⟩ ∧
      session.run.machine.isRunning = true := by
  rw [load] at loaded
  split at loaded
  · cases loaded
  · cases loaded
    exact ⟨rfl, rfl, rfl⟩

/--
A session takes exactly a number of steps, and its states and events are
those of the session without a limit.
-/
structure ExecutesExactly (session : Session) (count : Nat) : Prop where
  /-- Before that a session goes on, and every turn is a step. -/
  active :
    ∀ turns < count,
      (session.after turns).1.phase = .active ∧
        (session.after turns).1.machine =
          session.run.machine.afterSteps turns
  /-- Then it is over and takes no other step. -/
  ended :
    ∀ turns, count ≤ turns →
      (session.after turns).1.phase ≠ .active ∧
        session.after turns = session.after count
  alike :
    ∀ turns < count,
      (session.after turns).1.machine =
          (session.unlimited.after turns).1.machine ∧
        (session.after turns).2 = (session.unlimited.after turns).2
  /-- The last state is the same, with the machine switched off. -/
  last :
    (session.after count).1.machine =
      (session.unlimited.after count).1.machine.stop
  /-- Only records of the end may be added to the events. -/
  events :
    ∃ closing : List Event,
      (session.after count).2.toList =
          (session.unlimited.after count).2.toList ++ closing ∧
        ∀ event ∈ closing, event.isNotification = false
  /-- If the session without a limit is over as well, the end is the same. -/
  own :
    (session.unlimited.after count).1.phase ≠ .active →
      (session.after count).1.phase =
          (session.unlimited.after count).1.phase ∧
        (session.after count).2 = (session.unlimited.after count).2

/--
A session takes as many steps as the program does before it ends by itself,
but not more than a limit.
-/
structure KeepsLimit (session : Session) (limit : Nat) : Prop where
  ending :
    ∀ steps, session.run.machine.EndsAfter steps →
      session.ExecutesExactly (min limit steps)
  endless :
    (∀ steps, ¬ session.run.machine.EndsAfter steps) →
      session.ExecutesExactly limit

/-! ## Turns of a session -/

section Turns

variable {session : Session} {limit count turns : Nat}

theorem stopPast_ofNat
    (bounded : limit < UInt64.size)
    (fits : count + 1 < UInt64.size)
    (machine : Machine standardSize) :
    stopPast (UInt64.ofNat limit) (UInt64.ofNat count) machine =
      (UInt64.ofNat (count + 1),
        if limit < count + 1 then machine.stop else machine, []) := by
  have next : UInt64.ofNat count + 1 = UInt64.ofNat (count + 1) :=
    (UInt64.ofNat_add count 1).symm
  have past :
      UInt64.ofNat limit < UInt64.ofNat (count + 1) ↔ limit < count + 1 := by
    rw [UInt64.lt_iff_toNat_lt, UInt64.toNat_ofNat_of_lt' bounded,
      UInt64.toNat_ofNat_of_lt' fits]
  rw [stopPast, next]
  simp only [past]

/-- Ticks before the one at the limit only count. -/
theorem quiet_stopPast
    (bounded : limit < UInt64.size)
    (within : count < max 1 limit) :
    ∀ index < count, ∀ machine : Machine standardSize,
      stopPast (UInt64.ofNat limit) (UInt64.ofNat (index + 1)) machine =
        (UInt64.ofNat (index + 1 + 1), machine, []) := by
  intro index inside machine
  rw [stopPast_ofNat bounded (by omega), if_neg (by omega)]

variable (fresh : session.run = ⟨session.run.machine, 1, .active⟩)
variable (limited : session.options.limit = some limit)

/-- No tick of a session without a limit does anything. -/
theorem quiet_free :
    ∀ index < count, ∀ machine : Machine standardSize,
      Cadence.free (1 : UInt64) machine = (1, machine, []) :=
  fun _ _ _ => rfl

section Unlimited

include fresh

theorem after_unlimited :
    session.unlimited.after turns =
      Run.advance .free turns ⟨session.run.machine, 1, .active⟩ #[] := by
  rw [← fresh]
  rfl

theorem after_unlimited_of_isOn
    (isOn :
      ∀ index < turns,
        (session.run.machine.afterSteps (index + 1)).isRunning = true) :
    session.unlimited.after turns =
      (⟨session.run.machine.afterSteps turns, 1, .active⟩,
        (session.run.machine.eventsOfSteps turns).toArray) := by
  rw [after_unlimited fresh]
  exact Run.advance_of_quiet (fun _ => 1) isOn quiet_free 0

end Unlimited

section Limited

include fresh limited

theorem after_limited :
    session.after turns =
      Run.advance (stopPast (UInt64.ofNat limit)) turns
        ⟨session.run.machine, 1, .active⟩ #[] := by
  rw [after, cadence, limited, ← fresh]

theorem after_of_isOn
    (bounded : limit < UInt64.size)
    (within : turns < max 1 limit)
    (isOn :
      ∀ index < turns,
        (session.run.machine.afterSteps (index + 1)).isRunning = true) :
    session.after turns =
      (⟨session.run.machine.afterSteps turns, UInt64.ofNat (turns + 1),
          .active⟩,
        (session.run.machine.eventsOfSteps turns).toArray) := by
  rw [after_limited fresh limited]
  exact Run.advance_of_quiet (fun index => UInt64.ofNat (index + 1)) isOn
    (quiet_stopPast bounded within) 0

/--
A session takes exactly a number of steps if it is over behind them, and if
the session without a limit has come as far.
-/
theorem executesExactly_of_ended
    {clock : UInt64}
    {failure : Option Trap}
    {phase : Phase}
    {events closing : List Event}
    (bounded : limit < UInt64.size)
    (within : count ≤ max 1 limit)
    (isOn :
      ∀ index < count,
        (session.run.machine.afterSteps index).isRunning = true)
    (ended :
      ∀ turns, count ≤ turns →
        session.after turns =
          (⟨(session.run.machine.afterSteps count).stop, clock,
              .ended failure⟩,
            (events ++ closing).toArray))
    (free :
      session.unlimited.after count =
        (⟨session.run.machine.afterSteps count, 1, phase⟩,
          events.toArray))
    (silent : ∀ event ∈ closing, event.isNotification = false)
    (own : phase ≠ .active → .ended failure = phase ∧ closing = []) :
    session.ExecutesExactly count := by
  have stays :
      ∀ turns < count, ∀ index < turns,
        (session.run.machine.afterSteps (index + 1)).isRunning = true :=
    fun turns early index inside => isOn (index + 1) (by omega)
  have finished := ended count (Nat.le_refl count)
  have goesOn (turns : Nat) (early : turns < count) :=
    after_of_isOn fresh limited bounded
      (Nat.lt_of_lt_of_le early within) (stays turns early)
  refine ⟨?_, ?_, ?_, ?_, ?_, ?_⟩
  · intro turns early
    rw [goesOn turns early]
    exact ⟨rfl, rfl⟩
  · intro turns late
    rw [ended turns late, finished]
    exact ⟨Phase.noConfusion, rfl⟩
  · intro turns early
    rw [goesOn turns early,
      after_unlimited_of_isOn fresh (stays turns early)]
    exact ⟨rfl, rfl⟩
  · rw [finished, free]
  · rw [finished, free]
    exact ⟨closing, rfl, silent⟩
  · rw [finished, free]
    intro isOver
    obtain ⟨same, rfl⟩ := own isOver
    exact ⟨same, by rw [List.append_nil]⟩

/-- A program that ends by itself within the limit ends as without one. -/
theorem executesExactly_of_endsAfter
    (bounded : limit < UInt64.size)
    (ends : session.run.machine.EndsAfter count)
    (within : count ≤ max 1 limit) :
    session.ExecutesExactly count := by
  obtain ⟨positive, isOn, isOff⟩ := ends
  obtain ⟨before, rfl⟩ :=
    Nat.exists_eq_succ_of_ne_zero (Nat.ne_of_gt positive)
  have stays :
      ∀ index < before,
        (session.run.machine.afterSteps (index + 1)).isRunning = true :=
    fun index inside => isOn (index + 1) (Nat.succ_lt_succ inside)
  let failure := (session.run.machine.afterSteps before).step.runFailure?
  let events :=
    session.run.machine.eventsOfSteps before ++
      ((session.run.machine.afterSteps before).step.events ++
        (session.run.machine.afterSteps (before + 1)).closing failure)
  have ended (turns : Nat) (late : before + 1 ≤ turns) :
      session.after turns =
        (⟨(session.run.machine.afterSteps (before + 1)).stop,
            UInt64.ofNat (before + 1), .ended failure⟩,
          (events ++ []).toArray) := by
    rw [after_limited fresh limited, Machine.stop_of_isOff _ isOff,
      List.append_nil]
    exact Run.advance_of_turn (fun index => UInt64.ofNat (index + 1)) stays
      (quiet_stopPast bounded within) (Run.turn_of_isOff isOff) late
  have free :
      session.unlimited.after (before + 1) =
        (⟨session.run.machine.afterSteps (before + 1), 1,
            .ended failure⟩,
          events.toArray) := by
    rw [after_unlimited fresh]
    exact Run.advance_of_turn (fun _ => 1) stays quiet_free
      (Run.turn_of_isOff isOff) (Nat.lt_succ_self before)
  exact executesExactly_of_ended fresh limited bounded within isOn ended free
    (fun _ member => by cases member) fun _ => ⟨rfl, rfl⟩

/-- A program that goes on is stopped at the limit, or behind one step. -/
theorem executesExactly_of_isOn
    (bounded : limit + 1 < UInt64.size)
    (isOn :
      ∀ index ≤ max 1 limit,
        (session.run.machine.afterSteps index).isRunning = true) :
    session.ExecutesExactly (max 1 limit) := by
  obtain ⟨before, exact⟩ :=
    Nat.exists_eq_succ_of_ne_zero (by omega : max 1 limit ≠ 0)
  have within : before < max 1 limit := by omega
  have small : limit < UInt64.size := Nat.lt_of_succ_lt bounded
  rw [exact] at isOn ⊢
  have stays :
      ∀ index < before + 1,
        (session.run.machine.afterSteps (index + 1)).isRunning = true :=
    fun index inside => isOn (index + 1) inside
  have stops (machine : Machine standardSize) :
      stopPast (UInt64.ofNat limit) (UInt64.ofNat (before + 1)) machine =
        (UInt64.ofNat (before + 1 + 1), machine.stop, []) := by
    have fits : before + 1 + 1 < UInt64.size := by
      rw [UInt64.size] at bounded ⊢
      omega
    rw [stopPast_ofNat small fits, if_pos (by omega)]
  let last := session.run.machine.afterSteps (before + 1)
  have ended (turns : Nat) (late : before + 1 ≤ turns) :
      session.after turns =
        (⟨last.stop, UInt64.ofNat (before + 1 + 1), .ended none⟩,
          (session.run.machine.eventsOfSteps (before + 1) ++
            last.closing none).toArray) := by
    rw [after_limited fresh limited, Machine.eventsOfSteps,
      List.append_assoc]
    exact Run.advance_of_turn (fun index => UInt64.ofNat (index + 1))
      (fun index inside => stays index (Nat.lt_succ_of_lt inside))
      (quiet_stopPast small within)
      (Run.turn_of_stop (stays before (Nat.lt_succ_self before)) (stops _))
      late
  have silent :
      ∀ event ∈ last.closing none, event.isNotification = false := by
    intro event member
    rw [List.mem_singleton.1 member]
    rfl
  exact executesExactly_of_ended fresh limited small
    (Nat.le_of_eq exact.symm)
    (fun index inside => isOn index (Nat.le_of_lt inside)) ended
    (after_unlimited_of_isOn fresh stays) silent
    fun isOver => absurd rfl isOver

end Limited

end Turns

/-! ## The limit -/

section Limit

variable {session : Session} {limit : Nat}
variable (fresh : session.run = ⟨session.run.machine, 1, .active⟩)

include fresh

/-- A session is not over before its first step. -/
theorem not_keepsLimit_zero : ¬ session.KeepsLimit 0 := by
  have tooLate : ¬ session.ExecutesExactly 0 := by
    intro executes
    apply (executes.ended 0 (Nat.le_refl 0)).1
    rw [after, fresh]
    rfl
  intro keeps
  by_cases ending : ∃ steps, session.run.machine.EndsAfter steps
  · obtain ⟨steps, ends⟩ := ending
    have executes := keeps.ending steps ends
    rw [Nat.zero_min] at executes
    exact tooLate executes
  · exact tooLate
      (keeps.endless fun steps ends => ending ⟨steps, ends⟩)

theorem keepsLimit_max
    (limited : session.options.limit = some limit)
    (isOn : session.run.machine.isRunning = true)
    (bounded : limit ≤ PartialOptions.largestCount)
    (counts :
      limit < PartialOptions.largestCount ∨
        ∃ steps ≤ limit, session.run.machine.EndsAfter steps) :
    session.KeepsLimit (max 1 limit) := by
  rw [PartialOptions.largestCount, UInt64.size] at bounded counts
  have small : limit < UInt64.size := by
    rw [UInt64.size]
    omega
  -- Only a program that ends by itself can have its count at the very end.
  have next
      (late : ∀ steps ≤ limit, ¬ session.run.machine.EndsAfter steps) :
      limit + 1 < UInt64.size := by
    rcases counts with below | ⟨steps, within, ends⟩
    · rw [UInt64.size]
      omega
    · exact absurd ends (late steps within)
  constructor
  · intro steps ends
    by_cases within : steps ≤ max 1 limit
    · rw [Nat.min_eq_right within]
      exact executesExactly_of_endsAfter fresh limited small ends within
    · have late := Nat.lt_of_not_le within
      rw [Nat.min_eq_left (Nat.le_of_lt late)]
      apply executesExactly_of_isOn fresh limited
      · apply next
        intro others before again
        have same := ends.unique again
        omega
      · exact fun index inside =>
          ends.isOn index (Nat.lt_of_le_of_lt inside late)
  · intro never
    exact executesExactly_of_isOn fresh limited
      (next fun steps _ => never steps)
      fun index _ => Machine.isRunning_afterSteps isOn never index

end Limit

/--
A session with a limit takes at least one step; from a limit of one on it
takes as many as it should.

The count has 64 bits, so a limit at its very end is kept only by a program
that ends by itself.
-/
theorem keepsLimit_iff
    {arguments : List String}
    {options : Options}
    {source : Text}
    {session : Session}
    {outputs : List Output}
    {limit : Nat}
    (parsed : Options.ofArguments arguments = .ok options)
    (limited : options.limit = some limit)
    (loaded : load options source = (.ok session, outputs))
    (counts :
      limit < PartialOptions.largestCount ∨
        ∃ steps ≤ limit, session.run.machine.EndsAfter steps) :
    session.KeepsLimit (max 1 limit) ∧
      (session.KeepsLimit limit ↔ 1 ≤ limit) := by
  obtain ⟨rfl, fresh, isOn⟩ := of_load loaded
  have kept :=
    keepsLimit_max fresh limited isOn
      (Options.limit_le_largestCount parsed limited) counts
  refine ⟨kept, ?_, ?_⟩
  · intro keeps
    refine Nat.pos_of_ne_zero ?_
    rintro rfl
    exact not_keepsLimit_zero fresh keeps
  · intro positive
    rwa [Nat.max_eq_right positive] at kept

/-- Two steps of a program that takes three. -/
theorem keepsLimit_two :
    ∃ session outputs,
      load ⟨"program.asm", .warn, some 2, false⟩
          "MOV AX, #1\nINT #0\nHLT".toList =
        (.ok session, outputs) ∧
      session.KeepsLimit 2 := by
  have parsed :
      Options.ofArguments ["program.asm", "--step", "2", "-q"] =
        .ok ⟨"program.asm", .warn, some 2, false⟩ :=
    rfl
  obtain ⟨session, outputs, loaded⟩ :
      ∃ session outputs,
        load ⟨"program.asm", .warn, some 2, false⟩
            "MOV AX, #1\nINT #0\nHLT".toList =
          (.ok session, outputs) :=
    ⟨_, _, rfl⟩
  exact ⟨session, outputs, loaded,
    (keepsLimit_iff parsed rfl loaded (Or.inl (by decide))).2.2
      (by decide)⟩

/-- With a limit of zero the lights are still switched once. -/
theorem not_keepsLimit_lights :
    ∃ options session outputs,
      Options.ofArguments ["program.asm", "--step", "0", "-q"] =
          .ok options ∧
        options.limit = some 0 ∧
        load options "INT #0\nHLT".toList = (.ok session, outputs) ∧
        session.ExecutesExactly 1 ∧
        ¬ session.KeepsLimit 0 := by
  obtain ⟨session, outputs, loaded, isOn⟩ :
      ∃ session outputs,
        load ⟨"program.asm", .warn, some 0, false⟩ "INT #0\nHLT".toList =
            (.ok session, outputs) ∧
          ∀ index ≤ 1,
            (session.run.machine.afterSteps index).isRunning = true :=
    ⟨_, _, rfl, by decide +kernel⟩
  obtain ⟨same, fresh, _⟩ := of_load loaded
  have limited : session.options.limit = some 0 := by rw [same]
  exact ⟨⟨"program.asm", .warn, some 0, false⟩, session, outputs, rfl, rfl,
    loaded, executesExactly_of_isOn fresh limited (by decide) isOn,
    not_keepsLimit_zero fresh⟩

end Session

end Console

end PocketCpu
