import PocketCpu.Proofs.Machine.Arithmetic
import PocketCpu.Proofs.Machine.Run

/-!
# Possible faults

Which faults a step may meet is known before memory is.  A decoded instruction
never has a constant to write to, whatever its bytes are.  All addresses that
are checked are single bytes, of operands or in them, so a memory of 256 bytes
or more has all of them.  What remains for a run to fail with is an
instruction that begins in the last three bytes of memory and is cut off.
-/

namespace PocketCpu

/-- The faults that a step may meet at an address of a memory of a size. -/
def Fault.IsPossible (size pc : Nat) : Fault → Prop
  | .outOfBounds address => size ≤ address ∧ address < 256
  | .invalidJump address => size ≤ address ∧ address < 256
  | .immediateTarget _ => False
  | .endOfMemory => size ≤ pc
  | .truncated _ => pc < size ∧ size ≤ pc + 3
  | _ => True

/-- Work that fails only with faults that are possible. -/
def FailsPossibly
    {Result : Type}
    (size pc : Nat)
    (work : Except Fault Result) : Prop :=
  ∀ fault, work = .error fault → fault.IsPossible size pc

section Sequences

variable {Result Last : Type} {size pc : Nat}

theorem FailsPossibly.ok (result : Result) :
    FailsPossibly size pc (.ok result) := by
  intro fault failed
  cases failed

theorem FailsPossibly.bind
    {work : Except Fault Result}
    {next : Result → Except Fault Last}
    (first : FailsPossibly size pc work)
    (second : ∀ result, FailsPossibly size pc (next result)) :
    FailsPossibly size pc (work >>= next) := by
  intro fault failed
  rcases bind_eq_error_iff.1 failed with early | ⟨result, -, late⟩
  · exact first fault early
  · exact second result fault late

end Sequences

namespace Machine

variable {size : Nat} {machine : Machine size} {target source : Operand}
variable {fault : Fault} {pc : Nat}

/-! ## Instructions -/

theorem failsPossibly_load (machine : Machine size) (source : Operand) :
    FailsPossibly size pc (machine.load source) := by
  cases source with
  | register chosen => exact .ok _
  | immediate value => exact .ok _
  | memory address =>
      rw [load]
      cases read : machine.memory.get? address.toNat with
      | some byte => exact .ok byte
      | none =>
          intro fault failed
          cases failed
          exact ⟨Memory.get?_eq_none_iff.1 read, address.toNat_lt⟩

theorem failsPossibly_store
    (machine : Machine size)
    (opcode : Opcode)
    (writable : target.kind ≠ .immediate)
    (value : Byte) :
    FailsPossibly size pc (machine.store opcode target value) := by
  cases target with
  | register chosen => exact .ok _
  | immediate constant => exact absurd rfl writable
  | memory address =>
      rw [store]
      split
      · exact .ok _
      · next outside =>
          intro fault failed
          cases failed
          exact ⟨Nat.le_of_not_lt outside, address.toNat_lt⟩

theorem failsPossibly_move
    (machine : Machine size)
    (writable : target.kind ≠ .immediate) :
    FailsPossibly size pc (machine.move target source) :=
  (failsPossibly_load machine source).bind fun value =>
    failsPossibly_store machine .mov writable value

theorem failsPossibly_compute
    (machine : Machine size)
    (operation : BinaryOp)
    (writable : target.kind ≠ .immediate) :
    FailsPossibly size pc (machine.compute operation target source) := by
  refine (failsPossibly_load machine target).bind fun left =>
    (failsPossibly_load machine source).bind fun right => ?_
  dsimp only
  split
  · exact (failsPossibly_store machine _ writable _).bind fun _ => .ok _
  · exact .ok _

theorem failsPossibly_invert
    (machine : Machine size)
    (writable : target.kind ≠ .immediate) :
    FailsPossibly size pc (machine.invert target) :=
  (failsPossibly_load machine target).bind fun _ =>
    (failsPossibly_store machine .not writable _).bind fun _ => .ok _

theorem isPossible_of_ofUpdate
    {update : Except Fault (Machine size)}
    (possibly : FailsPossibly size pc update)
    (failed : (Outcome.ofUpdate machine update).failure = some fault) :
    fault.IsPossible size pc := by
  cases update with
  | ok written => cases failed
  | error reason =>
      cases failed
      exact possibly fault rfl

theorem isPossible_of_jump
    (failed : (machine.jump target).failure = some fault) :
    fault.IsPossible size pc := by
  rw [jump] at failed
  cases loaded : machine.load target with
  | error reason =>
      simp only [loaded] at failed
      cases failed
      exact failsPossibly_load machine target fault loaded
  | ok address =>
      simp only [loaded] at failed
      split at failed
      · cases failed
      · next outside =>
          cases failed
          exact ⟨Nat.le_of_not_lt outside, address.toNat_lt⟩

/-- A constant is never the target of a move that was decoded. -/
theorem writable_of_move
    (decoded : machine.current = .ok (.move target source)) :
    target.kind ≠ .immediate := by
  obtain ⟨_, _, _, leads⟩ := Instruction.exists_leads decoded
  obtain ⟨mode, hasMode, -⟩ :=
    Instruction.encode?_eq_some_iff.1 leads.encoded
  intro constant
  rw [Instruction.mode?, constant] at hasMode
  cases hasMode

/-- A decoded instruction fails only with faults that are possible. -/
theorem isPossible_of_perform
    {other : Machine size}
    {instruction : Instruction}
    (decoded : machine.current = .ok instruction)
    (failed : (other.perform instruction).failure = some fault) :
    fault.IsPossible size pc := by
  cases instruction with
  | nop => cases failed
  | halt => cases failed
  | selectWidth value => cases failed
  | interrupt number =>
      rw [perform] at failed
      cases loaded : other.load number with
      | error reason =>
          simp only [loaded] at failed
          cases failed
          exact failsPossibly_load other number fault loaded
      | ok value =>
          simp only [loaded, raise] at failed
          split at failed
          · cases failed
          · cases failed
            trivial
  | move target source =>
      exact isPossible_of_ofUpdate
        (failsPossibly_move other (writable_of_move decoded)) failed
  | compute operation target source =>
      exact isPossible_of_ofUpdate
        (failsPossibly_compute other operation (writable_of_compute decoded))
        failed
  | invert operand =>
      exact isPossible_of_ofUpdate
        (failsPossibly_invert other (writable_of_invert decoded)) failed
  | jump condition address =>
      rw [perform] at failed
      split at failed
      · exact isPossible_of_jump failed
      · cases failed

/-! ## Steps -/

/-- Bytes that are no instruction are a fault that their address allows. -/
theorem isPossible_of_current
    (undecoded : machine.current = .error fault) :
    fault.IsPossible size machine.pc.toNat := by
  have length := machine.length_ahead
  rw [current] at undecoded
  generalize machine.ahead = bytes at undecoded length
  cases Instruction.beginning bytes with
  | none =>
      cases undecoded
      exact Nat.le_of_sub_eq_zero length.symm
  | single opcode =>
      cases undecoded
      rw [List.length_singleton] at length
      exact ⟨by omega, by omega⟩
  | unknown unknown =>
      rw [Instruction.leading, Instruction.decode_of_fields_error unknown]
        at undecoded
      cases undecoded
      rcases Instruction.fields_error unknown with rfl | rfl <;> trivial
  | @short opcode mode operands fields known few =>
      rw [Instruction.leading, Instruction.decode_of_fields known,
        Fields.read_of_lt few] at undecoded
      cases undecoded
      -- An operand byte is missing, so at most three bytes are left.
      have two := fields.count_le_two
      rw [List.length_cons, List.length_cons] at length
      exact ⟨by omega, by omega⟩
  | whole known enough =>
      rw [Instruction.leading, Instruction.decode_of_fields known]
        at undecoded
      rcases Fields.read_of_le _ enough with ⟨_, read⟩ | ⟨_, read⟩
      · rw [read] at undecoded
        cases undecoded
      · rw [read] at undecoded
        cases undecoded
        trivial

/-- A step only meets faults that are possible at its address. -/
theorem isPossible_of_step
    (small : size < 65536)
    {trap : Trap}
    (failure : machine.step.failure = some trap) :
    trap.pc = machine.pc ∧
      trap.fault.IsPossible size machine.pc.toNat := by
  obtain ⟨outcome, notices, carriesOut, executed⟩ :=
    exists_carriesOut small machine
  cases failed : outcome.failure with
  | none =>
      rw [(step_of_done executed failed).1] at failure
      cases failure
  | some fault =>
      rw [(step_of_failed executed failed).1] at failure
      cases failure
      refine ⟨rfl, ?_⟩
      cases carriesOut with
      | ended nothing =>
          cases failed
          apply isPossible_of_current
          rw [current, nothing]
          rfl
      | cut undecoded inside =>
          cases failed
          exact isPossible_of_current undecoded
      | refused undecoded harmless taken behind =>
          cases failed
          exact isPossible_of_current undecoded
      | skipped undecoded untaken behind => cases failed
      | performed decoded behind =>
          exact isPossible_of_perform decoded failed

end Machine

/-! ## Runs -/

/-- A run fails with the last step exactly if its trap is fatal and no end. -/
theorem Outcome.runFailure?_eq_some_iff
    {size : Nat}
    {outcome : Outcome size Trap}
    {trap : Trap} :
    outcome.runFailure? = some trap ↔
      outcome.failure = some trap ∧
        trap.fault.isFatal = true ∧ trap.fault ≠ .endOfMemory := by
  rw [runFailure?]
  cases outcome.failure with
  | none => simp
  | some own =>
      simp only [Option.ite_none_right_eq_some, Option.some.injEq]
      constructor
      · rintro ⟨fatal, rfl⟩
        exact ⟨rfl, fatal⟩
      · rintro ⟨rfl, fatal⟩
        exact ⟨fatal, rfl⟩

namespace Run

variable {Clock : Type} {size : Nat} {cadence : Cadence Clock size}
variable {machine : Machine size} {clock : Clock} {trap : Trap}

/-- A cadence does not end a run with a failure. -/
theorem phase_proceed_ne :
    (proceed cadence ⟨machine, clock, .active⟩).1.phase ≠
      .ended (some trap) := by
  intro ends
  rw [proceed] at ends
  split at ends
  · dsimp only at ends
    split at ends <;> cases ends
  · cases ends

/-- A turn that ends a run with a failure was a step with that failure. -/
theorem runFailure?_of_turn
    (ends :
      (turn cadence ⟨machine, clock, .active⟩).1.phase =
        .ended (some trap)) :
    machine.step.runFailure? = some trap := by
  cases state : machine.step.machine.isRunning with
  | true =>
      rw [turn_of_isRunning state] at ends
      exact absurd ends phase_proceed_ne
  | false =>
      rw [turn_of_isOff state] at ends
      exact Phase.ended.inj ends

/-- A run that fails does so with a step, whatever happens between steps. -/
theorem exists_runFailure?_of_advance
    {turns : Nat}
    {events : Array Event}
    (ends :
      (advance cadence turns ⟨machine, clock, .active⟩ events).1.phase =
        .ended (some trap)) :
    ∃ last : Machine size, last.step.runFailure? = some trap := by
  induction turns generalizing machine clock events with
  | zero => cases ends
  | succ turns inductionHypothesis =>
      rw [advance] at ends
      dsimp only at ends
      cases taken : turn cadence ⟨machine, clock, .active⟩ with
      | mk next more =>
          obtain ⟨left, after, phase⟩ := next
          rw [taken] at ends
          cases phase with
          | active => exact inductionHypothesis ends
          | ended failure =>
              rw [advance_of_ended] at ends
              cases ends
              exact ⟨machine, runFailure?_of_turn (by rw [taken])⟩

end Run

/-- Every byte is an address of a memory of 256 bytes. -/
theorem Fault.not_isPossible_of_le
    {size pc address : Nat}
    (large : 256 ≤ size) :
    ¬ (Fault.outOfBounds address).IsPossible size pc ∧
      ¬ (Fault.invalidJump address).IsPossible size pc := by
  constructor <;>
    exact fun both =>
      Nat.lt_irrefl 256
        (Nat.lt_of_le_of_lt (Nat.le_trans large both.1) both.2)

namespace Machine

variable {size : Nat} {machine : Machine size}

theorem phase_of_run?
    {Clock : Type}
    {cadence : Cadence Clock size}
    {clock : Clock}
    {turns : Nat}
    {result : RunResult Clock size}
    (ran : machine.run? cadence clock turns = some result) :
    ((Run.start machine clock).advance cadence turns #[]).1.phase =
      .ended result.failure := by
  rw [run?] at ran
  dsimp only at ran
  split at ran
  · cases ran
  · next phase =>
      cases ran
      exact phase

/-- A fatal fault other than the end of memory cuts off an instruction. -/
theorem truncated_of_runFailure?
    (small : size < 65536)
    (large : 256 ≤ size)
    {trap : Trap}
    (failed : machine.step.runFailure? = some trap) :
    ∃ opcode, trap.fault = .truncated opcode ∧
      trap.pc.toNat < size ∧ size ≤ trap.pc.toNat + 3 := by
  obtain ⟨failure, fatal, notEnd⟩ := Outcome.runFailure?_eq_some_iff.1 failed
  obtain ⟨here, possible⟩ := isPossible_of_step small failure
  rw [← here] at possible
  obtain ⟨fault, pc⟩ := trap
  cases fault with
  | truncated opcode => exact ⟨opcode, rfl, possible⟩
  | invalidJump address =>
      exact absurd possible (Fault.not_isPossible_of_le large).2
  | endOfMemory => exact absurd rfl notEnd
  | _ => cases fatal

/--
No step has to write to a constant.  With 256 bytes of memory or more, no step
leaves memory with an operand or a jump either, and a run only fails with an
instruction that begins in the last three bytes of memory and is cut off.
-/
theorem unreachable_faults (small : size < 65536) :
    (∀ (machine : Machine size) (trap : Trap) (opcode : Byte),
        machine.step.failure = some trap →
        trap.fault ≠ .immediateTarget opcode) ∧
      (256 ≤ size →
        (∀ (machine : Machine size) (trap : Trap) (address : Nat),
            machine.step.failure = some trap →
            trap.fault ≠ .outOfBounds address ∧
              trap.fault ≠ .invalidJump address) ∧
          ∀ (Clock : Type) (machine : Machine size)
            (cadence : Cadence Clock size) (clock : Clock) (turns : Nat)
            (result : RunResult Clock size) (trap : Trap),
            machine.run? cadence clock turns = some result →
            result.failure = some trap →
            ∃ opcode, trap.fault = .truncated opcode ∧
              trap.pc.toNat < size ∧ size ≤ trap.pc.toNat + 3) := by
  refine ⟨?_, fun large => ⟨?_, ?_⟩⟩
  · rintro machine ⟨_, pc⟩ opcode failure rfl
    exact (isPossible_of_step small failure).2
  · intro machine trap address failure
    obtain ⟨-, possible⟩ := isPossible_of_step small failure
    constructor
    · intro same
      rw [same] at possible
      exact (Fault.not_isPossible_of_le large).1 possible
    · intro same
      rw [same] at possible
      exact (Fault.not_isPossible_of_le large).2 possible
  · intro Clock machine cadence clock turns result trap ran failed
    have ends := phase_of_run? ran
    rw [failed] at ends
    obtain ⟨last, failure⟩ := Run.exists_runFailure?_of_advance ends
    exact truncated_of_runFailure? small large failure

/-- A run fails with a sum that begins three bytes before the end of memory. -/
theorem unreachable_faults_sum :
    ∃ result trap,
      ({ initial 256 with
          memory := (Memory.zero 256).write 253 [0x11, 0x00, 0x10]
          pc := 253 } : Machine 256).run? .free () 1 = some result ∧
        result.failure = some trap ∧
        ∃ opcode, trap.fault = .truncated opcode ∧
          trap.pc.toNat < 256 ∧ 256 ≤ trap.pc.toNat + 3 := by
  have failed :
      (({ initial 256 with
          memory := (Memory.zero 256).write 253 [0x11, 0x00, 0x10]
          pc := 253 } : Machine 256).run? .free () 1).bind
            RunResult.failure =
        some ⟨.truncated 0x11, 253⟩ := by
    decide +kernel
  obtain ⟨result, ran, failure⟩ := Option.bind_eq_some_iff.1 failed
  exact ⟨result, _, ran, failure,
    ((unreachable_faults (by decide)).2 (by decide)).2 _ _ _ _ _ result _ ran
      failure⟩

end Machine

end PocketCpu
