import PocketCpu.Machine.Step
import PocketCpu.Proofs.Instruction.RoundTrip
import PocketCpu.Proofs.Machine.Perform
import PocketCpu.Proofs.Memory.Write

/-!
# Steps on encoded instructions

Where the bytes of an instruction stand at the program counter, a step does
what carrying out the instruction does, and goes on behind these bytes unless
the instruction jumps.  The operand of a jump that is not taken is skipped
without being decoded, which makes no difference to the machine.
-/

namespace PocketCpu

/-- Whether an event notifies of an interrupt. -/
def Event.isInterrupt : Event → Bool
  | .interrupt _ _ => true
  | _ => false

namespace Machine

variable {size : Nat} {machine ready : Machine size}
variable {instruction : Instruction} {opcode mode : Byte} {count : Nat}

/-! ## Fetching -/

theorem fetch?_of_get?
    {byte : Byte}
    (read : machine.memory.get? machine.pc.toNat = some byte) :
    machine.fetch? = some (byte, { machine with pc := machine.pc + 1 }) := by
  rw [fetch?, read]
  rfl

/-- Both leading bytes are fetched if they are inside of memory. -/
theorem fetchAndExecute_of_get?
    (first : machine.memory.get? machine.pc.toNat = some opcode)
    (second : machine.memory.get? (machine.pc.toNat + 1) = some mode)
    (inside : machine.pc.toNat + 1 < 65536) :
    machine.fetchAndExecute =
      ((machine.redirect (machine.pc + 1 + 1) ⟨opcode, mode⟩).execute
          opcode mode).after
        [(MachineNotice.fetched opcode mode (machine.pc + 1 + 1)).event] := by
  have next : (machine.pc + 1).toNat = machine.pc.toNat + 1 := by
    rw [UInt16.toNat_add]
    exact Nat.mod_eq_of_lt inside
  have behind :
      { machine with pc := machine.pc + 1 }.fetch? =
        some (mode, { machine with pc := machine.pc + 1 + 1 }) := by
    apply fetch?_of_get?
    rw [next]
    exact second
  rw [fetchAndExecute, fetch?_of_get? first]
  simp only [behind]
  rfl

/-- A jump whose condition does not hold does nothing. -/
theorem perform_of_skipped?
    {operation : Opcode}
    (skipped : machine.skipped? instruction.opcode.code = some operation) :
    machine.perform instruction = .done machine [] := by
  rw [skipped?, Opcode.ofCode?_code] at skipped
  cases instruction with
  | jump condition target =>
      have jumps :=
        Opcode.condition?_eq_some_iff.2 (rfl : condition.opcode = _)
      simp only [Instruction.opcode, bind, Option.bind, jumps] at skipped
      split at skipped
      · cases skipped
      · next refused => rw [perform, if_neg refused]
  | compute operation target source =>
      cases operation <;> cases skipped
  | _ => cases skipped

/--
An instruction is carried out behind its operands if it can be decoded from
them.
-/
theorem execute_of_decode
    (counted :
      Instruction.operandCount instruction.opcode.code mode = .ok count)
    (fits : machine.pc.toNat + count ≤ size)
    (decoded :
      Instruction.decode instruction.opcode.code mode
          (machine.memory.slice machine.pc.toNat count) =
        .ok instruction) :
    ∃ notice : MachineNotice,
      machine.execute instruction.opcode.code mode =
        ((machine.redirect (UInt16.ofNat (machine.pc.toNat + count))
            machine.fetched).perform instruction).after [notice.event] := by
  rw [execute, counted]
  simp only [if_neg (Nat.not_lt.2 fits), decoded]
  split
  · next operation skipped =>
      -- The operand is skipped, but carrying out the jump does nothing either.
      refine ⟨.notTaken (machine.pc.toNat - 2) operation, ?_⟩
      have idle := perform_of_skipped? skipped
      rw [redirect, idle]
      rfl
  · exact ⟨.executed (machine.pc.toNat - 2) instruction, rfl⟩

/-- An instruction that can be fetched and decoded is carried out. -/
theorem fetchAndExecute_of_decode
    (first :
      machine.memory.get? machine.pc.toNat = some instruction.opcode.code)
    (second : machine.memory.get? (machine.pc.toNat + 1) = some mode)
    (counted :
      Instruction.operandCount instruction.opcode.code mode = .ok count)
    (fits : machine.pc.toNat + (2 + count) ≤ size)
    (small : size < 65536)
    (decoded :
      Instruction.decode instruction.opcode.code mode
          (machine.memory.slice (machine.pc.toNat + 2) count) =
        .ok instruction) :
    ∃ notices : List MachineNotice,
      machine.fetchAndExecute =
        ((machine.redirect
              (UInt16.ofNat (machine.pc.toNat + (2 + count)))
              ⟨instruction.opcode.code, mode⟩).perform instruction).after
          (notices.map MachineNotice.event) := by
  have behind : (machine.pc + 1 + 1).toNat = machine.pc.toNat + 2 := by
    simp only [UInt16.toNat_add, UInt16.toNat_one]
    omega
  let ready :=
    machine.redirect (machine.pc + 1 + 1) ⟨instruction.opcode.code, mode⟩
  have readyFits : ready.pc.toNat + count ≤ size := by
    show (machine.pc + 1 + 1).toNat + count ≤ size
    omega
  have readyDecoded :
      Instruction.decode instruction.opcode.code mode
          (ready.memory.slice ready.pc.toNat count) =
        .ok instruction := by
    show Instruction.decode _ _
        (machine.memory.slice (machine.pc + 1 + 1).toNat count) = _
    rw [behind]
    exact decoded
  obtain ⟨notice, executed⟩ :=
    execute_of_decode counted readyFits readyDecoded
  refine ⟨[.fetched instruction.opcode.code mode (machine.pc + 1 + 1),
    notice], ?_⟩
  rw [fetchAndExecute_of_get? first second (by omega), executed,
    ← Nat.add_assoc, ← behind]
  rfl

/-! ## Steps -/

theorem filter_isInterrupt_map_event (notices : List MachineNotice) :
    (notices.map MachineNotice.event).filter Event.isInterrupt = [] := by
  rw [List.filter_eq_nil_iff]
  intro event member
  obtain ⟨notice, _, rfl⟩ := List.mem_map.1 member
  exact Bool.false_ne_true

/-- The report of a trap leaves a machine that is already dropped. -/
theorem report_of_drops
    {outcome : Outcome size Fault}
    {fault : Fault}
    (drops : ready.Drops outcome)
    (failed : outcome.failure = some fault)
    (pc : Word) :
    ∃ events,
      outcome.machine.report ⟨fault, pc⟩ = (outcome.machine, events) ∧
        events.filter Event.isInterrupt = [] := by
  -- A fatal fault has stopped the machine before the report does.
  obtain ⟨code, dropped⟩ := drops fault failed
  have stopped :
      (if fault.isFatal then outcome.machine.stop else outcome.machine) =
        outcome.machine := by
    rw [dropped, Machine.dropped]
    cases fault.isFatal <;> rfl
  have notEnd : fault ≠ .endOfMemory := by
    rintro rfl
    cases code
  refine ⟨[(MachineNotice.trapped ⟨fault, pc⟩).event,
    .trapped ⟨fault, pc⟩, outcome.machine.stateChanged], ?_, rfl⟩
  simp only [report, stopped, if_neg notEnd]

/-- A step ends with the machine that is left of what it carried out. -/
theorem step_of_fetchAndExecute
    {outcome : Outcome size Fault}
    {notices : List MachineNotice}
    (drops : ready.Drops outcome)
    (executed :
      machine.fetchAndExecute =
        outcome.after (notices.map MachineNotice.event)) :
    machine.step.machine = outcome.machine ∧
      machine.step.failure = outcome.failure.map (Trap.mk · machine.pc) ∧
      machine.step.events.filter Event.isInterrupt =
        outcome.events.filter Event.isInterrupt := by
  have recorded :
      (notices.map MachineNotice.event ++ outcome.events).filter
          Event.isInterrupt =
        outcome.events.filter Event.isInterrupt := by
    rw [List.filter_append, filter_isInterrupt_map_event, List.nil_append]
  rw [step, executed]
  cases failed : outcome.failure with
  | none =>
      simp only [Outcome.after, failed]
      refine ⟨rfl, rfl, ?_⟩
      rw [Outcome.done, List.filter_append, recorded]
      exact List.append_nil _
  | some fault =>
      obtain ⟨events, reported, silent⟩ :=
        report_of_drops drops failed machine.pc
      simp only [Outcome.after, failed, reported]
      refine ⟨rfl, rfl, ?_⟩
      rw [Outcome.failed, List.filter_append, recorded, silent,
        List.append_nil]

/--
A step of the machine has an outcome of other work, but for the program
counter, the bytes that were fetched and what is only recorded.
-/
structure StepMatches
    (machine : Machine size)
    (outcome : Outcome size Fault) : Prop where
  failure :
    machine.step.failure = outcome.failure.map (Trap.mk · machine.pc)
  registers : machine.step.machine.registers = outcome.machine.registers
  flags : machine.step.machine.flags = outcome.machine.flags
  memory : machine.step.machine.memory = outcome.machine.memory
  isRunning : machine.step.machine.isRunning = outcome.machine.isRunning
  interrupts :
    machine.step.events.filter Event.isInterrupt =
      outcome.events.filter Event.isInterrupt

/--
Where the bytes of an instruction stand at the program counter, a step
carries it out and goes on behind these bytes unless it jumps.
-/
theorem step_of_encode?
    {bytes : List Byte}
    (encoded : instruction.encode? = some bytes)
    (isReadable : instruction.invertsConstant = false)
    (present :
      machine.memory.slice machine.pc.toNat instruction.size = bytes)
    (fits : machine.pc.toNat + instruction.size ≤ size)
    (small : size < 65536) :
    machine.StepMatches (machine.perform instruction) ∧
      machine.step.machine.pc =
        (machine.jumpTarget? instruction).elim
          (UInt16.ofNat (machine.pc.toNat + instruction.size))
          UInt8.toUInt16 := by
  obtain ⟨mode, hasMode, rfl⟩ :=
    Instruction.encode?_eq_some_iff.1 encoded
  have counted := Instruction.operandCount_of_mode? hasMode isReadable
  have decoded := Instruction.decode_of_mode? hasMode isReadable []
  have size_eq :
      instruction.size = instruction.operandBytes.length + 1 + 1 :=
    Nat.add_comm 2 _
  rw [size_eq] at present
  obtain ⟨first, present⟩ := Memory.get?_of_slice_eq_cons present
  obtain ⟨second, operands⟩ := Memory.get?_of_slice_eq_cons present
  rw [List.append_nil, ← operands] at decoded
  obtain ⟨notices, executed⟩ :=
    fetchAndExecute_of_decode first second counted fits small decoded
  obtain ⟨left, failure, interrupts⟩ :=
    step_of_fetchAndExecute (drops_perform instruction) executed
  rw [perform_redirect] at left failure interrupts
  refine ⟨⟨failure, ?_, ?_, ?_, ?_, interrupts⟩, ?_⟩ <;>
    (rw [left]; rfl)

/-! ## Several steps -/

/-- The machine after a number of steps, whether it is on or off. -/
def afterSteps (machine : Machine size) : Nat → Machine size
  | 0 => machine
  | steps + 1 => (machine.afterSteps steps).step.machine

end Machine

end PocketCpu
