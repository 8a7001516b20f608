import PocketCpu.Proofs.Instruction.Inversion
import PocketCpu.Proofs.Machine.Step

/-!
# What a step can do

Whatever memory holds, a step does one of five things.  There is nothing at
the program counter; an instruction is cut off by the end of memory; the
bytes have no meaning; they would name an unknown register, but belong to a
jump that is not taken; or they are an instruction, which is carried out.
In the last three cases the program counter stands behind all the bytes that
belong together before anything else happens.
-/

namespace PocketCpu

namespace Machine

variable {size : Nat} {machine ready : Machine size}
variable {opcode mode : Byte} {operands : List Byte}
variable {fields : Fields} {fault : Fault}

/-! ## The bytes at the program counter -/

/-- The bytes of memory from the program counter on. -/
def ahead (machine : Machine size) : List Byte :=
  machine.memory.toList.drop machine.pc.toNat

/-- The instruction at the program counter, or why there is none. -/
def current (machine : Machine size) : Except Fault Instruction :=
  Instruction.leading machine.ahead

/-- There is a jump at the program counter, and its condition does not hold. -/
def IsUntaken (machine : Machine size) : Prop :=
  ∃ condition : Condition,
    machine.memory.get? machine.pc.toNat = some condition.opcode.code ∧
      machine.flags.permit condition = false

/-- An address behind the bytes of what is at the program counter. -/
def IsBehind (machine : Machine size) (pc : Word) : Prop :=
  pc.toNat =
      machine.pc.toNat + Instruction.leadingSpan machine.ahead ∧
    pc.toNat ≤ size

theorem get?_of_ahead
    (machine : Machine size)
    (offset : Nat) :
    machine.memory.get? (machine.pc.toNat + offset) =
      machine.ahead[offset]? := by
  rw [← Memory.toList_getElem?, ahead, List.getElem?_drop]

/-- The first byte ahead is the one at the program counter. -/
theorem get?_of_ahead_cons
    {byte : Byte}
    {rest : List Byte}
    (leading : machine.ahead = byte :: rest) :
    machine.memory.get? machine.pc.toNat = some byte := by
  have read := machine.get?_of_ahead 0
  rwa [leading] at read

theorem length_ahead (machine : Machine size) :
    machine.ahead.length = size - machine.pc.toNat := by
  rw [ahead, List.length_drop, Memory.length_toList]

theorem lt_of_get?_eq_some
    {address : Nat}
    {byte : Byte}
    (read : machine.memory.get? address = some byte) :
    address < size := by
  refine Nat.lt_of_not_le fun outside => ?_
  rw [Memory.get?_eq_none_iff.2 outside] at read
  cases read

/-- Behind a byte of memory the program counter does not wrap around. -/
theorem toNat_pc_add_one
    {byte : Byte}
    (small : size < 65536)
    (read : machine.memory.get? machine.pc.toNat = some byte) :
    (machine.pc + 1).toNat = machine.pc.toNat + 1 := by
  have inside := lt_of_get?_eq_some read
  rw [UInt16.toNat_add, UInt16.toNat_one]
  exact Nat.mod_eq_of_lt (by omega)

/-! ## Carrying out what was fetched -/

theorem execute_of_fields_error
    (unknown : Instruction.fields opcode mode = .error fault) :
    ready.execute opcode mode = .failed ready fault [] := by
  rw [execute, Instruction.operandCount_of_fields_error unknown]

/-- The operands would lie behind the end of memory. -/
theorem execute_of_lt
    (known : Instruction.fields opcode mode = .ok fields)
    (inside : ready.pc.toNat ≤ size)
    (few : ready.ahead.length < fields.count) :
    ready.execute opcode mode = .failed ready (.truncated opcode) [] := by
  rw [length_ahead] at few
  have outside : size < ready.pc.toNat + fields.count := by omega
  rw [execute, Instruction.operandCount_of_fields known]
  simp only [if_pos outside]

theorem decode_slice
    (known : Instruction.fields opcode mode = .ok fields) :
    Instruction.decode opcode mode
        (ready.memory.slice ready.pc.toNat fields.count) =
      fields.read opcode ready.ahead := by
  rw [Instruction.decode_of_fields known, Memory.slice_eq_take_drop,
    Fields.read_take]
  rfl

/-- A jump is skipped exactly if its condition does not hold. -/
theorem skipped?_isSome_iff
    {opcode : Byte} :
    (machine.skipped? opcode).isSome = true ↔
      ∃ condition : Condition,
        opcode = condition.opcode.code ∧
          machine.flags.permit condition = false := by
  rw [skipped?]
  constructor
  · intro skipped
    obtain ⟨found, isSkipped⟩ := Option.isSome_iff_exists.1 skipped
    obtain ⟨operation, named, jumps⟩ := Option.bind_eq_some_iff.1 isSkipped
    obtain ⟨condition, isJump, refused⟩ := Option.bind_eq_some_iff.1 jumps
    obtain rfl := Opcode.ofCode?_eq_some_iff.1 named
    obtain rfl := Opcode.condition?_eq_some_iff.1 isJump
    refine ⟨condition, rfl, ?_⟩
    cases permitted : machine.flags.permit condition with
    | false => rfl
    | true =>
        rw [permitted] at refused
        cases refused
  · rintro ⟨condition, rfl, refused⟩
    have jumps :=
      Opcode.condition?_eq_some_iff.2 (rfl : condition.opcode = _)
    simp [jumps, refused]

/--
Operands that name an unknown register are a fault, unless they belong to a
jump that is not taken.
-/
theorem execute_of_unknownRegister
    {code : Byte}
    (known : Instruction.fields opcode mode = .ok fields)
    (enough : fields.count ≤ ready.ahead.length)
    (inside : ready.pc.toNat ≤ size)
    (read : fields.read opcode ready.ahead =
      .error (.unknownRegister code)) :
    ∃ notices : List MachineNotice,
      ready.execute opcode mode =
        Outcome.after (notices.map MachineNotice.event)
          (if (ready.skipped? opcode).isSome then
            .done
              (ready.redirect
                (UInt16.ofNat (ready.pc.toNat + fields.count))
                ready.fetched) []
          else
            .failed
              (ready.redirect
                (UInt16.ofNat (ready.pc.toNat + fields.count))
                ready.fetched)
              (.unknownRegister code) []) := by
  rw [length_ahead] at enough
  have fits : ¬ size < ready.pc.toNat + fields.count := by omega
  rw [← decode_slice known] at read
  rw [execute, Instruction.operandCount_of_fields known]
  simp only [if_neg fits, read]
  have same :
      Machine.skipped?
          { ready with pc := UInt16.ofNat (ready.pc.toNat + fields.count) }
          opcode =
        ready.skipped? opcode :=
    rfl
  rw [same]
  cases ready.skipped? opcode with
  | some operation =>
      exact ⟨[.notTaken (ready.pc.toNat - 2) operation], rfl⟩
  | none => exact ⟨[], rfl⟩

/-! ## The five cases -/

/--
What a step carries out: the outcome that it has, but for what is only
recorded.
-/
inductive CarriesOut (machine : Machine size) :
    Outcome size Fault → Prop where
  /-- There is nothing at the program counter. -/
  | ended
      (nothing : machine.ahead = []) :
      CarriesOut machine (.failed machine .endOfMemory [])
  /-- The instruction is cut off by the end of memory. -/
  | cut
      {opcode : Byte}
      {pc : Word}
      {fetched : InstructionRegister}
      (undecoded : machine.current = .error (.truncated opcode))
      (inside : pc.toNat ≤ size) :
      CarriesOut machine
        (.failed (machine.redirect pc fetched) (.truncated opcode) [])
  /-- The bytes have no meaning. -/
  | refused
      {fault : Fault}
      {pc : Word}
      {fetched : InstructionRegister}
      (undecoded : machine.current = .error fault)
      (harmless : fault.isFatal = false)
      (taken :
        ∀ code, fault = .unknownRegister code → ¬ machine.IsUntaken)
      (behind : machine.IsBehind pc) :
      CarriesOut machine (.failed (machine.redirect pc fetched) fault [])
  /-- The operand names no register, but the jump is not taken. -/
  | skipped
      {code : Byte}
      {pc : Word}
      {fetched : InstructionRegister}
      (undecoded : machine.current = .error (.unknownRegister code))
      (untaken : machine.IsUntaken)
      (behind : machine.IsBehind pc) :
      CarriesOut machine (.done (machine.redirect pc fetched) [])
  /-- The bytes are an instruction. -/
  | performed
      {instruction : Instruction}
      {pc : Word}
      {fetched : InstructionRegister}
      (decoded : machine.current = .ok instruction)
      (behind : machine.IsBehind pc) :
      CarriesOut machine
        ((machine.redirect pc fetched).perform instruction)

theorem fetchAndExecute_of_ahead_nil
    (nothing : machine.ahead = []) :
    machine.fetchAndExecute = .failed machine .endOfMemory [] := by
  have outside : machine.memory.get? machine.pc.toNat = none := by
    have read := machine.get?_of_ahead 0
    rwa [nothing] at read
  rw [fetchAndExecute, fetch?, outside]
  rfl

theorem fetchAndExecute_of_ahead_singleton
    (single : machine.ahead = [opcode])
    (small : size < 65536) :
    machine.fetchAndExecute =
      .failed (machine.redirect (machine.pc + 1) machine.fetched)
        (.truncated opcode) [] := by
  have first := get?_of_ahead_cons single
  have outside : machine.memory.get? (machine.pc + 1).toNat = none := by
    rw [toNat_pc_add_one small first, machine.get?_of_ahead 1, single]
    rfl
  rw [fetchAndExecute, fetch?_of_get? first]
  simp only [fetch?, outside]
  rfl

/-- With two bytes ahead, the operands are carried out behind them. -/
theorem fetchAndExecute_of_ahead_cons_cons
    (leading : machine.ahead = opcode :: mode :: operands)
    (small : size < 65536) :
    ∃ (pc : Word) (fetched : InstructionRegister)
      (notice : MachineNotice),
      machine.fetchAndExecute =
          ((machine.redirect pc fetched).execute opcode mode).after
            [notice.event] ∧
        pc.toNat = machine.pc.toNat + 2 ∧
        pc.toNat ≤ size ∧
        (machine.redirect pc fetched).ahead = operands := by
  have first := get?_of_ahead_cons leading
  have second : machine.memory.get? (machine.pc.toNat + 1) = some mode := by
    have read := machine.get?_of_ahead 1
    rwa [leading] at read
  have length := machine.length_ahead
  rw [leading, List.length_cons, List.length_cons] at length
  have behind : (machine.pc + 1 + 1).toNat = machine.pc.toNat + 2 := by
    simp only [UInt16.toNat_add, UInt16.toNat_one]
    omega
  refine ⟨machine.pc + 1 + 1, ⟨opcode, mode⟩,
    .fetched opcode mode (machine.pc + 1 + 1),
    fetchAndExecute_of_get? first second (by omega), behind, by omega, ?_⟩
  · show machine.memory.toList.drop (machine.pc + 1 + 1).toNat = operands
    have dropped :
        machine.memory.toList.drop machine.pc.toNat =
          opcode :: mode :: operands :=
      leading
    rw [behind, ← List.drop_drop, dropped]
    rfl

theorem isUntaken_iff
    {rest : List Byte}
    (leading : machine.ahead = opcode :: rest) :
    machine.IsUntaken ↔ (machine.skipped? opcode).isSome = true := by
  have first := get?_of_ahead_cons leading
  rw [skipped?_isSome_iff, IsUntaken, first]
  simp only [Option.some.injEq]

variable {pc : Word} {fetched : InstructionRegister}

/-- Behind two bytes with a meaning, the operands are carried out. -/
theorem exists_carriesOut_of_whole
    (small : size < 65536)
    (leading : machine.ahead = opcode :: mode :: operands)
    (known : Instruction.fields opcode mode = .ok fields)
    (enough : fields.count ≤ operands.length)
    (isReady : (machine.redirect pc fetched).ahead = operands)
    (behindMode : pc.toNat = machine.pc.toNat + 2)
    (inside : pc.toNat ≤ size) :
    ∃ (outcome : Outcome size Fault) (notices : List MachineNotice),
      machine.CarriesOut outcome ∧
        (machine.redirect pc fetched).execute opcode mode =
          outcome.after (notices.map MachineNotice.event) := by
  subst isReady
  have current :
      machine.current =
        fields.read opcode (machine.redirect pc fetched).ahead := by
    rw [Machine.current, leading, Instruction.leading,
      Instruction.decode_of_fields known]
  have fits : pc.toNat + fields.count ≤ size := by
    have length : (machine.redirect pc fetched).ahead.length =
        size - pc.toNat := length_ahead _
    omega
  have exact :
      (UInt16.ofNat (pc.toNat + fields.count)).toNat =
        pc.toNat + fields.count :=
    UInt16.toNat_ofNat_of_lt' (by rw [UInt16.size]; omega)
  have behind :
      machine.IsBehind (UInt16.ofNat (pc.toNat + fields.count)) := by
    rw [IsBehind, exact, leading, Instruction.leadingSpan,
      Instruction.span_of_fields known]
    exact ⟨by omega, fits⟩
  rcases Fields.read_of_le opcode enough with
    ⟨instruction, read⟩ | ⟨code, read⟩
  · -- The instruction has the opcode that it was decoded from.
    have decoded := (decode_slice known).trans read
    obtain rfl := (Instruction.isWritten_of_decode decoded).opcode
    obtain ⟨notice, executed⟩ :=
      execute_of_decode (Instruction.operandCount_of_fields known) fits
        decoded
    exact ⟨_, [notice], .performed (current.trans read) behind, executed⟩
  · have untaken :
        machine.IsUntaken ↔ (machine.skipped? opcode).isSome = true :=
      isUntaken_iff leading
    obtain ⟨notices, executed⟩ :=
      execute_of_unknownRegister known enough inside read
    have same :
        (machine.redirect pc fetched).skipped? opcode =
          machine.skipped? opcode :=
      rfl
    rw [same] at executed
    by_cases skips : (machine.skipped? opcode).isSome = true
    · rw [if_pos skips] at executed
      exact ⟨_, notices,
        .skipped (current.trans read) (untaken.2 skips) behind, executed⟩
    · rw [if_neg skips] at executed
      exact ⟨_, notices,
        .refused (current.trans read) rfl
          (fun _ _ isUntaken => skips (untaken.1 isUntaken)) behind,
        executed⟩

/-- A step does one of five things, whatever memory holds. -/
theorem exists_carriesOut
    (small : size < 65536)
    (machine : Machine size) :
    ∃ (outcome : Outcome size Fault) (notices : List MachineNotice),
      machine.CarriesOut outcome ∧
        machine.fetchAndExecute =
          outcome.after (notices.map MachineNotice.event) := by
  have beginning := Instruction.beginning machine.ahead
  generalize leading : machine.ahead = bytes at beginning
  cases beginning with
  | none =>
      exact ⟨_, [], .ended leading, fetchAndExecute_of_ahead_nil leading⟩
  | single opcode =>
      have undecoded : machine.current = .error (.truncated opcode) := by
        rw [current, leading]
        rfl
      have length := machine.length_ahead
      rw [leading, List.length_singleton] at length
      refine ⟨_, [], .cut undecoded ?_,
        fetchAndExecute_of_ahead_singleton leading small⟩
      rw [UInt16.toNat_add, UInt16.toNat_one]
      exact Nat.le_trans (Nat.mod_le _ _) (by omega)
  | unknown unknown =>
      obtain ⟨pc, fetched, notice, executed, behindMode, inside, -⟩ :=
        fetchAndExecute_of_ahead_cons_cons leading small
      rw [execute_of_fields_error unknown] at executed
      refine ⟨_, [notice], .refused ?_ ?_ ?_ ?_, executed⟩
      · rw [current, leading, Instruction.leading,
          Instruction.decode_of_fields_error unknown]
      · rcases Instruction.fields_error unknown with rfl | rfl <;> rfl
      · rintro code rfl
        rcases Instruction.fields_error unknown with same | same <;>
          cases same
      · rw [IsBehind, leading, Instruction.leadingSpan,
          Instruction.span_of_fields_error unknown]
        exact ⟨behindMode, inside⟩
  | short known few =>
      obtain ⟨pc, fetched, notice, executed, -, inside, isReady⟩ :=
        fetchAndExecute_of_ahead_cons_cons leading small
      rw [← isReady] at few
      rw [execute_of_lt known inside few] at executed
      refine ⟨_, [notice], .cut ?_ inside, executed⟩
      rw [isReady] at few
      rw [current, leading, Instruction.leading,
        Instruction.decode_of_fields known, Fields.read_of_lt few]
  | whole known enough =>
      obtain ⟨pc, fetched, notice, executed, behindMode, inside, isReady⟩ :=
        fetchAndExecute_of_ahead_cons_cons leading small
      obtain ⟨outcome, notices, carriesOut, done⟩ :=
        exists_carriesOut_of_whole small leading known enough isReady
          behindMode inside
      rw [done] at executed
      exact ⟨outcome, notice :: notices, carriesOut, executed⟩

end Machine

/-! ## What is left of a step -/

/-- The events of an outcome that notify what is attached to the machine. -/
def Outcome.notifications
    {size : Nat}
    {Reason : Type}
    (outcome : Outcome size Reason) : List Event :=
  outcome.events.filter Event.isNotification

namespace Machine

variable {size : Nat} {machine : Machine size}
variable {outcome : Outcome size Fault} {notices : List MachineNotice}

/-- Nothing that is only recorded is a notification. -/
theorem filter_isNotification_map_event (notices : List MachineNotice) :
    (notices.map MachineNotice.event).filter Event.isNotification = [] := by
  rw [List.filter_eq_nil_iff]
  intro event member
  obtain ⟨notice, _, rfl⟩ := List.mem_map.1 member
  exact Bool.false_ne_true

/-- A step that carries out its work without a fault notifies of its state. -/
theorem step_of_done
    (executed :
      machine.fetchAndExecute =
        outcome.after (notices.map MachineNotice.event))
    (succeeded : outcome.failure = none) :
    machine.step.failure = none ∧
      machine.step.machine = outcome.machine ∧
      machine.step.notifications =
        outcome.notifications ++ [outcome.machine.stateChanged] := by
  have finished : machine.step =
      .done outcome.machine
        (notices.map MachineNotice.event ++ outcome.events ++
          [outcome.machine.stateChanged]) := by
    rw [step, executed]
    simp only [Outcome.after, succeeded]
  rw [finished]
  refine ⟨rfl, rfl, ?_⟩
  rw [Outcome.notifications, Outcome.notifications, Outcome.done,
    List.filter_append, List.filter_append, filter_isNotification_map_event]
  rfl

/--
A step that meets a fault stops the machine if the fault is fatal, and
notifies of the trap and of its state, but not of the state at the end of
memory.
-/
theorem step_of_failed
    {fault : Fault}
    (executed :
      machine.fetchAndExecute =
        outcome.after (notices.map MachineNotice.event))
    (failed : outcome.failure = some fault) :
    machine.step.failure = some ⟨fault, machine.pc⟩ ∧
      machine.step.machine = outcome.machine.dropped fault ∧
      machine.step.notifications =
        outcome.notifications ++ .trapped ⟨fault, machine.pc⟩ ::
          if fault = .endOfMemory then []
          else [(outcome.machine.dropped fault).stateChanged] := by
  have reported :
      outcome.machine.report ⟨fault, machine.pc⟩ =
        (outcome.machine.dropped fault,
          (outcome.machine.report ⟨fault, machine.pc⟩).2) := by
    rw [report, dropped]
    split <;> rfl
  have silent :
      (outcome.machine.report ⟨fault, machine.pc⟩).2.filter
          Event.isNotification =
        .trapped ⟨fault, machine.pc⟩ ::
          if fault = .endOfMemory then []
          else [(outcome.machine.dropped fault).stateChanged] := by
    rw [report]
    by_cases ends : fault = .endOfMemory
    · simp only [if_pos ends]
      rfl
    · simp only [if_neg ends]
      rfl
  have finished : machine.step =
      .failed (outcome.machine.dropped fault) ⟨fault, machine.pc⟩
        (notices.map MachineNotice.event ++ outcome.events ++
          (outcome.machine.report ⟨fault, machine.pc⟩).2) := by
    rw [step, executed]
    simp only [Outcome.after, failed]
    rw [reported]
  rw [finished]
  refine ⟨rfl, rfl, ?_⟩
  rw [Outcome.notifications, Outcome.notifications, Outcome.failed,
    List.filter_append, List.filter_append, filter_isNotification_map_event,
    silent]
  rfl

end Machine

end PocketCpu
