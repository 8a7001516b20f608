import PocketCpu.Machine.Run
import PocketCpu.Proofs.Machine.Atomicity
import PocketCpu.Proofs.Register.Writes

/-!
# Reachable machines are coherent

Whatever is done to a fresh machine, its program counter never goes past the
end of memory, no bank of a register stores more than four bits, and its
flags agree with each other: carry and overflow are the same, and a zero
result has an even number of ones and no sign.  What a single operation keeps
is kept by a run, and by a cadence that operates on the machine between the
steps of a run, and runs it again, to any depth.
-/

namespace PocketCpu

/-! ## Coherent flags -/

namespace Flags

/-- The flags may be those of a fresh machine, or of an exact result. -/
structure IsCoherent (flags : Flags) : Prop where
  carry_eq : flags.carry = flags.overflow
  parity_of_zero : flags.zero = true → flags.parity = true
  sign_of_zero : flags.zero = true → flags.sign = false
  interrupt_eq : flags.interrupt = false

variable {flags followed : Flags}

theorem isCoherent_initial : initial.IsCoherent :=
  ⟨rfl, nofun, nofun, rfl⟩

theorem isCoherent_observe
    (coherent : flags.IsCoherent)
    (result : Int32) :
    (flags.observe result).IsCoherent := by
  have kept
      (zero : (flags.observe result).zero = true) :
      result &&& flags.limit = 0 :=
    beq_iff_eq.1 zero
  refine ⟨rfl, ?_, ?_, coherent.interrupt_eq⟩
  · intro zero
    show evenOnes (result &&& flags.limit).toInt.toNat = true
    rw [kept zero]
    decide
  · intro zero
    show (result &&& flags.limit &&& flags.topBit != 0) = false
    rw [kept zero, Int32.zero_and]
    rfl

/-- The width is independent of the other flags. -/
theorem isCoherent_follow
    (coherent : flags.IsCoherent)
    (follow : flags.Follow followed) :
    followed.IsCoherent := by
  cases follow with
  | same => exact coherent
  | observe result => exact isCoherent_observe coherent result
  | selectWidth value =>
      obtain ⟨carry, parity, sign, interrupt⟩ := coherent
      exact ⟨carry, parity, sign, interrupt⟩

end Flags

/-- What a write keeps in a register file, an instruction keeps. -/
theorem RegisterFile.IsBanked.follow
    {file followed : RegisterFile}
    (isBanked : file.IsBanked)
    (follow : file.Follow followed) :
    followed.IsBanked := by
  cases follow with
  | same => exact isBanked
  | write register value => exact isBanked.write register value

namespace Machine

variable {size : Nat} {machine : Machine size}

/-! ## Coherent machines -/

/-- What holds of every machine that was ever a fresh one. -/
structure IsCoherent (machine : Machine size) : Prop where
  pc_le : machine.pc.toNat ≤ size
  registers : machine.registers.IsBanked
  flags : machine.flags.IsCoherent

theorem isCoherent_initial : (initial size).IsCoherent :=
  ⟨Nat.zero_le size, RegisterFile.isBanked_zero, Flags.isCoherent_initial⟩

/-- Coherence does not depend on memory, the fetched bytes and the switch. -/
theorem isCoherent_of_eq
    {other : Machine size}
    (coherent : machine.IsCoherent)
    (pc : other.pc = machine.pc)
    (registers : other.registers = machine.registers)
    (flags : other.flags = machine.flags) :
    other.IsCoherent := by
  refine ⟨?_, ?_, ?_⟩
  · rw [pc]
    exact coherent.pc_le
  · rw [registers]
    exact coherent.registers
  · rw [flags]
    exact coherent.flags

theorem isCoherent_redirect
    {pc : Word}
    {fetched : InstructionRegister}
    (coherent : machine.IsCoherent)
    (inside : pc.toNat ≤ size) :
    (machine.redirect pc fetched).IsCoherent :=
  ⟨inside, coherent.registers, coherent.flags⟩

theorem isCoherent_perform
    (coherent : machine.IsCoherent)
    (instruction : Instruction) :
    (machine.perform instruction).machine.IsCoherent := by
  have alters : machine.Alters (machine.perform instruction).machine :=
    alters_perform instruction
  refine ⟨?_, coherent.registers.follow alters.registers,
    Flags.isCoherent_follow coherent.flags alters.flags⟩
  rw [pc_perform]
  cases taken : machine.jumpTarget? instruction with
  | none => exact coherent.pc_le
  | some address =>
      have inside := Nat.le_of_lt (lt_of_jumpTarget? taken)
      rwa [← UInt8.toNat_toUInt16] at inside

theorem CarriesOut.isCoherent
    {outcome : Outcome size Fault}
    (carriesOut : machine.CarriesOut outcome)
    (coherent : machine.IsCoherent) :
    outcome.machine.IsCoherent := by
  cases carriesOut with
  | ended _ => exact coherent
  | cut _ inside => exact isCoherent_redirect coherent inside
  | refused _ _ _ behind => exact isCoherent_redirect coherent behind.2
  | skipped _ _ behind => exact isCoherent_redirect coherent behind.2
  | performed _ behind =>
      exact isCoherent_perform (isCoherent_redirect coherent behind.2) _

theorem isCoherent_step
    (small : size < 65536)
    (coherent : machine.IsCoherent) :
    machine.step.machine.IsCoherent := by
  obtain ⟨outcome, notices, carriesOut, executed⟩ :=
    exists_carriesOut small machine
  have left := carriesOut.isCoherent coherent
  cases failed : outcome.failure with
  | none =>
      rw [(step_of_done executed failed).2.1]
      exact left
  | some fault =>
      rw [(step_of_failed executed failed).2.1, dropped_eq]
      exact isCoherent_of_eq left rfl rfl rfl

end Machine

/-! ## Runs -/

namespace Run

variable {size : Nat} {Clock : Type} {cadence : Cadence Clock size}
variable {motive : Machine size → Prop} {run : Run Clock size}

theorem proceed_induction
    (tick :
      ∀ clock machine, motive machine → motive (cadence clock machine).2.1)
    (holds : motive run.machine) :
    motive (run.proceed cadence).1.machine := by
  rw [proceed]
  split
  · dsimp only
    split <;> exact tick _ _ holds
  · exact holds

theorem turn_induction
    (step : ∀ machine, motive machine → motive machine.step.machine)
    (tick :
      ∀ clock machine, motive machine → motive (cadence clock machine).2.1)
    (holds : motive run.machine) :
    motive (run.turn cadence).1.machine := by
  have stepped := step _ holds
  rw [turn]
  dsimp only
  split
  · exact proceed_induction tick stepped
  · split
    · exact stepped
    · split
      · exact stepped
      · exact proceed_induction tick stepped

/-- What every step and every tick keep, a run keeps, however long it is. -/
theorem advance_induction
    (step : ∀ machine, motive machine → motive machine.step.machine)
    (tick :
      ∀ clock machine, motive machine → motive (cadence clock machine).2.1)
    (turns : Nat)
    (events : Array Event)
    (holds : motive run.machine) :
    motive (run.advance cadence turns events).1.machine := by
  induction turns generalizing run events with
  | zero => exact holds
  | succ turns inductionHypothesis =>
      rw [advance]
      split
      · exact holds
      · exact inductionHypothesis _ (turn_induction step tick holds)

end Run

/-! ## Reachable machines -/

namespace Machine

variable {size : Nat}

/--
The machines that a machine may become when it is operated from outside.

A run may be looked at after any number of its turns.  Its cadence may
operate on the machine between two steps, by any of these operations, and
choose them by its own state and by the machine's.
-/
inductive Reaches : Machine size → Machine size → Prop where
  | refl (machine : Machine size) : Reaches machine machine
  | load
      {origin machine : Machine size}
      (reached : Reaches origin machine)
      (source : Text) :
      Reaches origin (machine.loadProgram source).machine
  | step
      {origin machine : Machine size}
      (reached : Reaches origin machine) :
      Reaches origin machine.step.machine
  | run
      {origin machine : Machine size}
      {Clock : Type}
      {cadence : Cadence Clock size}
      (reached : Reaches origin machine)
      (ticks :
        ∀ clock machine, Reaches machine (cadence clock machine).2.1)
      (clock : Clock)
      (turns : Nat) :
      Reaches origin
        ((Run.start machine clock).advance cadence turns #[]).1.machine
  | perform
      {origin machine : Machine size}
      (reached : Reaches origin machine)
      (instruction : Instruction) :
      Reaches origin (machine.perform instruction).machine
  | reset
      {origin machine : Machine size}
      (reached : Reaches origin machine) :
      Reaches origin machine.reset.1
  | stop
      {origin machine : Machine size}
      (reached : Reaches origin machine) :
      Reaches origin machine.stop

/-- Coherent machines only become coherent ones. -/
theorem Reaches.isCoherent
    {origin machine : Machine size}
    (small : size < 65536)
    (reached : Reaches origin machine)
    (coherent : origin.IsCoherent) :
    machine.IsCoherent := by
  induction reached with
  | refl machine => exact coherent
  | load _ source inductionHypothesis =>
      have before := inductionHypothesis coherent
      exact ⟨Nat.zero_le size, before.registers, before.flags⟩
  | step _ inductionHypothesis =>
      exact isCoherent_step small (inductionHypothesis coherent)
  | run _ _ clock turns inductionHypothesis ticksKeep =>
      -- A tick operates on the machine, so it keeps coherence by induction.
      refine Run.advance_induction (fun _ => isCoherent_step small)
        ticksKeep turns #[] ?_
      exact isCoherent_of_eq (inductionHypothesis coherent) rfl rfl rfl
  | perform _ instruction inductionHypothesis =>
      exact isCoherent_perform (inductionHypothesis coherent) instruction
  | reset _ _ => exact isCoherent_initial
  | stop _ inductionHypothesis =>
      exact isCoherent_of_eq (inductionHypothesis coherent) rfl rfl rfl

end Machine

end PocketCpu
