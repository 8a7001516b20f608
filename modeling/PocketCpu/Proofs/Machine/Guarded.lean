import PocketCpu.Proofs.Machine.Coherence

/-!
# Steps never leave their bounds

A step adds to the program counter, narrows an address to a word, subtracts
the two leading bytes again, and looks into memory and into the bytes of its
operands by index.  Here the same step is taken with a guard in front of each
of these operations, which gives up if its result would not be exact or its
index would be out of range.  No guard ever gives up, whatever the machine
is, so the unguarded step does exactly the same.
-/

namespace PocketCpu

/-! ## Guards -/

namespace Guard

/-- The next word, unless there is none. -/
def next (word : Word) : Option Word :=
  if word.toNat + 1 < 65536 then some (word + 1) else none

/-- A number as a word, unless it is too large. -/
def word (number : Nat) : Option Word :=
  if number < 65536 then some (UInt16.ofNat number) else none

/-- The difference of two numbers, unless it is negative. -/
def difference (left right : Nat) : Option Nat :=
  if right ≤ left then some (left - right) else none

variable {size : Nat}

/-- The bytes between two addresses, unless these are out of range. -/
def slice (memory : Memory size) (first last : Nat) :
    Option (List Byte) :=
  if first ≤ last ∧ last ≤ size then
    some (memory.slice first (last - first))
  else
    none

/-- The memory with one byte replaced, unless the address is outside. -/
def set (memory : Memory size) (address : Nat) (byte : Byte) :
    Option (Memory size) :=
  if address < size then some (memory.set address byte) else none

theorem next_of_lt
    {word : Word}
    (small : size < 65536)
    (inside : word.toNat < size) :
    next word = some (word + 1) :=
  if_pos (by omega)

theorem word_of_le
    {number : Nat}
    (small : size < 65536)
    (inside : number ≤ size) :
    word number = some (UInt16.ofNat number) :=
  if_pos (Nat.lt_of_le_of_lt inside small)

theorem difference_of_le
    {left right : Nat}
    (enough : right ≤ left) :
    difference left right = some (left - right) :=
  if_pos enough

theorem slice_add
    (memory : Memory size)
    {first count : Nat}
    (inside : first + count ≤ size) :
    slice memory first (first + count) =
      some (memory.slice first count) := by
  rw [slice, if_pos ⟨Nat.le_add_right first count, inside⟩,
    Nat.add_sub_cancel_left]

theorem set_of_lt
    (memory : Memory size)
    {address : Nat}
    (inside : address < size)
    (byte : Byte) :
    set memory address byte = some (memory.set address byte) :=
  if_pos inside

end Guard

/-! ## Guarded decoding -/

/-- Read the instruction from operand bytes that are looked up by index. -/
def Fields.guardedRead (fields : Fields) (bytes : List Byte) :
    Option (Except Fault Instruction) :=
  match fields with
  | .bare instruction => some (.ok instruction)
  | .width => do
    let value ← bytes[0]?
    some (.ok (.selectWidth value))
  | .single kind build => do
    let byte ← bytes[0]?
    some (build <$> Fields.operand kind byte)
  | .pair target source build => do
    let first ← bytes[0]?
    let second ← bytes[1]?
    some do
      let left ← Fields.operand target first
      let right ← Fields.operand source second
      .ok (build left right)

/-- Decode with a look at the number of operand bytes before their indices. -/
def Instruction.guardedDecode (opcode mode : Byte) (operands : List Byte) :
    Option (Except Fault Instruction) :=
  match fields opcode mode with
  | .error fault => some (.error fault)
  | .ok fields =>
    if operands.length < fields.count then
      some (.error (.truncated opcode))
    else
      fields.guardedRead operands

theorem Fields.guardedRead_of_le
    {fields : Fields}
    {bytes : List Byte}
    (opcode : Byte)
    (enough : fields.count ≤ bytes.length) :
    fields.guardedRead bytes = some (fields.read opcode bytes) := by
  cases fields with
  | bare instruction => rfl
  | width =>
      rcases bytes with _ | ⟨value, rest⟩
      · cases enough
      · rfl
  | single kind build =>
      rcases bytes with _ | ⟨byte, rest⟩
      · cases enough
      · rfl
  | pair target source build =>
      rcases bytes with _ | ⟨first, _ | ⟨second, rest⟩⟩
      · cases enough
      · exact absurd enough (by simp [count])
      · rfl

/-- Operand bytes are only looked up where there are enough of them. -/
theorem Instruction.guardedDecode_eq
    (opcode mode : Byte)
    (operands : List Byte) :
    guardedDecode opcode mode operands =
      some (decode opcode mode operands) := by
  rw [guardedDecode]
  cases known : fields opcode mode with
  | error fault => rw [decode_of_fields_error known]
  | ok fields =>
      rw [decode_of_fields known]
      dsimp only
      split
      · next few => rw [Fields.read_of_lt few]
      · next enough =>
          exact Fields.guardedRead_of_le opcode (Nat.not_lt.1 enough)

namespace Machine

variable {size : Nat}

/-! ## Guarded instructions -/

/-- Work that may fail with a fault, or be given up by a guard. -/
abbrev Guarded (Result : Type) :=
  ExceptT Fault Option Result

/-- Work without a guard. -/
def unguarded {Result : Type} (work : Except Fault Result) :
    Guarded Result :=
  .mk (some work)

/-- A write to an operand, with a guard in front of memory. -/
def guardedStore
    (machine : Machine size)
    (opcode : Opcode)
    (target : Operand)
    (value : Byte) :
    Guarded (Machine size) :=
  match target with
  | .memory address =>
    if address.toNat < size then
      .mk <| (Guard.set machine.memory address.toNat value).map fun memory =>
        .ok { machine with memory }
    else
      unguarded (.error (.outOfBounds address.toNat))
  | _ => unguarded (machine.store opcode target value)

def guardedMove (machine : Machine size) (target source : Operand) :
    Guarded (Machine size) := do
  let value ← unguarded (machine.load source)
  machine.guardedStore .mov target value

def guardedCompute
    (machine : Machine size)
    (operation : BinaryOp)
    (target source : Operand) :
    Guarded (Machine size) := do
  let left ← unguarded (machine.load target)
  let right ← unguarded (machine.load source)
  let result := operation.apply (widen left) (widen right)
  let written ←
    if operation.writesBack then
      machine.guardedStore operation.opcode target (narrow result)
    else
      unguarded (.ok machine)
  unguarded (.ok { written with flags := machine.flags.observe result })

def guardedInvert (machine : Machine size) (operand : Operand) :
    Guarded (Machine size) := do
  let value ← unguarded (machine.load operand)
  let written ← machine.guardedStore .not operand (~~~value)
  unguarded
    (.ok { written with flags := machine.flags.observe (widen (~~~value)) })

/-- Carry out an instruction, with guards in front of every write. -/
def guardedPerform (machine : Machine size) (instruction : Instruction) :
    Option (Outcome size Fault) :=
  match instruction with
  | .move target source =>
    (machine.guardedMove target source).run.map (.ofUpdate machine)
  | .compute operation target source =>
    (machine.guardedCompute operation target source).run.map
      (.ofUpdate machine)
  | .invert operand =>
    (machine.guardedInvert operand).run.map (.ofUpdate machine)
  | _ => some (machine.perform instruction)

/-! ## Guarded steps -/

/-- The byte at the program counter, with a guard in front of the next. -/
def guardedFetch (machine : Machine size) :
    Option (Option (Byte × Machine size)) :=
  match machine.memory.get? machine.pc.toNat with
  | none => some none
  | some byte => do
    let pc ← Guard.next machine.pc
    some (some (byte, { machine with pc }))

/-- Carry out what was fetched, with guards. -/
def guardedExecute (machine : Machine size) (opcode mode : Byte) :
    Option (Outcome size Fault) :=
  match Instruction.operandCount opcode mode with
  | .error fault => some (.failed machine fault [])
  | .ok count =>
    let start := machine.pc.toNat
    if size < start + count then
      some (.failed machine (.truncated opcode) [])
    else do
      let pc ← Guard.word (start + count)
      let behind := { machine with pc }
      let address ← Guard.difference start 2
      match behind.skipped? opcode with
      | some operation =>
        some (.done behind [(MachineNotice.notTaken address operation).event])
      | none =>
        let operands ← Guard.slice machine.memory start (start + count)
        match ← Instruction.guardedDecode opcode mode operands with
        | .error fault => some (.failed behind fault [])
        | .ok instruction =>
          let outcome ← behind.guardedPerform instruction
          some <| outcome.after
            [(MachineNotice.executed address instruction).event]

/-- Fetch the two leading bytes and carry out what they begin, with guards. -/
def guardedFetchAndExecute (machine : Machine size) :
    Option (Outcome size Fault) := do
  match ← machine.guardedFetch with
  | none => some (.failed machine .endOfMemory [])
  | some (opcode, behindOpcode) =>
    match ← behindOpcode.guardedFetch with
    | none => some (.failed behindOpcode (.truncated opcode) [])
    | some (mode, behindMode) =>
      let ready := { behindMode with fetched := ⟨opcode, mode⟩ }
      let outcome ← ready.guardedExecute opcode mode
      some <| outcome.after
        [(MachineNotice.fetched opcode mode ready.pc).event]

/-- One step, with guards. -/
def guardedStep (machine : Machine size) : Option (Outcome size Trap) := do
  let outcome ← machine.guardedFetchAndExecute
  match outcome.failure with
  | none =>
    some <| .done outcome.machine
      (outcome.events ++ [outcome.machine.stateChanged])
  | some fault =>
    let trap : Trap := ⟨fault, machine.pc⟩
    let (stopped, events) := outcome.machine.report trap
    some <| .failed stopped trap (outcome.events ++ events)

/-! ## No guard gives up -/

/-- A sequence of work without guards has none. -/
theorem unguarded_bind
    {Result Last : Type}
    (first : Except Fault Result)
    (next : Result → Except Fault Last) :
    (unguarded first >>= fun result => unguarded (next result)) =
      unguarded (first >>= next) := by
  cases first <;> rfl

section Instructions

variable (machine : Machine size)

theorem guardedStore_eq
    (opcode : Opcode)
    (target : Operand)
    (value : Byte) :
    machine.guardedStore opcode target value =
      unguarded (machine.store opcode target value) := by
  cases target with
  | register _ => rfl
  | immediate _ => rfl
  | memory address =>
      rw [guardedStore, store]
      split
      · next inside =>
          rw [Guard.set_of_lt _ inside]
          rfl
      · rfl

theorem guardedMove_eq (target source : Operand) :
    machine.guardedMove target source =
      unguarded (machine.move target source) := by
  simp only [guardedMove, guardedStore_eq]
  exact unguarded_bind ..

theorem guardedCompute_eq
    (operation : BinaryOp)
    (target source : Operand) :
    machine.guardedCompute operation target source =
      unguarded (machine.compute operation target source) := by
  rw [guardedCompute, compute]
  cases operation.writesBack with
  | false => simp only [Bool.false_eq_true, if_false, unguarded_bind]
  | true => simp only [if_true, guardedStore_eq, unguarded_bind]

theorem guardedInvert_eq (operand : Operand) :
    machine.guardedInvert operand =
      unguarded (machine.invert operand) := by
  simp only [guardedInvert, guardedStore_eq, unguarded_bind]
  rfl

theorem guardedPerform_eq (instruction : Instruction) :
    machine.guardedPerform instruction =
      some (machine.perform instruction) := by
  cases instruction with
  | move target source =>
      rw [guardedPerform, guardedMove_eq]
      rfl
  | compute operation target source =>
      rw [guardedPerform, guardedCompute_eq]
      rfl
  | invert operand =>
      rw [guardedPerform, guardedInvert_eq]
      rfl
  | _ => rfl

end Instructions

section Steps

variable {machine : Machine size}

/-- A byte is only fetched in front of the last word. -/
theorem guardedFetch_eq (small : size < 65536) :
    machine.guardedFetch = some machine.fetch? := by
  rw [guardedFetch, fetch?]
  cases read : machine.memory.get? machine.pc.toNat with
  | none => rfl
  | some byte =>
      rw [Guard.next_of_lt small (lt_of_get?_eq_some read)]
      rfl

/-- What was fetched lies in front of the program counter. -/
theorem pc_of_fetch?
    {byte : Byte}
    {behind : Machine size}
    (small : size < 65536)
    (fetched : machine.fetch? = some (byte, behind)) :
    behind.pc.toNat = machine.pc.toNat + 1 := by
  obtain ⟨_, read, same⟩ := Option.map_eq_some_iff.1 fetched
  cases same
  exact toNat_pc_add_one small read

theorem guardedExecute_eq
    (small : size < 65536)
    (machine : Machine size)
    (fetched : 2 ≤ machine.pc.toNat)
    (opcode mode : Byte) :
    machine.guardedExecute opcode mode =
      some (machine.execute opcode mode) := by
  rw [guardedExecute, execute]
  cases Instruction.operandCount opcode mode with
  | error fault => rfl
  | ok count =>
      by_cases outside : size < machine.pc.toNat + count
      · simp only [if_pos outside]
      · have inside := Nat.not_lt.1 outside
        simp only [if_neg outside, Guard.word_of_le small inside,
          Guard.difference_of_le fetched, Guard.slice_add _ inside,
          Instruction.guardedDecode_eq, guardedPerform_eq,
          Option.bind_eq_bind, Option.bind_some]
        cases skipped? _ opcode with
        | some operation => rfl
        | none =>
            cases Instruction.decode opcode mode _ <;> rfl

theorem guardedFetchAndExecute_eq (small : size < 65536) :
    machine.guardedFetchAndExecute = some machine.fetchAndExecute := by
  rw [guardedFetchAndExecute, fetchAndExecute]
  simp only [guardedFetch_eq small, Option.bind_eq_bind, Option.bind_some]
  cases first : machine.fetch? with
  | none => rfl
  | some fetched =>
      obtain ⟨opcode, behindOpcode⟩ := fetched
      cases second : behindOpcode.fetch? with
      | none => simp only [second]
      | some fetched =>
          obtain ⟨mode, behindMode⟩ := fetched
          have one := pc_of_fetch? small first
          have two := pc_of_fetch? small second
          have executed :=
            guardedExecute_eq small
              { behindMode with fetched := ⟨opcode, mode⟩ }
              (show 2 ≤ behindMode.pc.toNat by omega) opcode mode
          simp only [second, executed, Option.bind_some]

/-- No guard of a step ever gives up. -/
theorem guardedStep_eq
    (small : size < 65536)
    (machine : Machine size) :
    machine.guardedStep = some machine.step := by
  rw [guardedStep, step]
  simp only [guardedFetchAndExecute_eq small, Option.bind_eq_bind,
    Option.bind_some]
  cases machine.fetchAndExecute.failure <;> rfl

end Steps

/-! ## Safety -/

/--
Whatever is done to a fresh machine, it stays coherent, and no step of any
machine leaves the bounds of memory, of its operand bytes or of its words.
-/
theorem isCoherent_and_guardedStep
    (small : size < 65536) :
    (∀ machine, (initial size).Reaches machine → machine.IsCoherent) ∧
      ∀ machine : Machine size,
        machine.guardedStep = some machine.step := by
  constructor
  · intro machine reached
    exact reached.isCoherent small isCoherent_initial
  · exact guardedStep_eq small

/--
A run whose cadence loads another program after the first step, and a step
from the last word.
-/
theorem isCoherent_and_guardedStep_reloading :
    ((Run.start
          ((initial 4).loadProgram "SUB AX, #1".toList).machine ()).advance
        (fun _ machine =>
          ((), (machine.loadProgram "HLT".toList).machine, []))
        2 #[]).1.machine.IsCoherent ∧
      ({ initial 4 with pc := 65535 } : Machine 4).guardedStep =
        some ({ initial 4 with pc := 65535 } : Machine 4).step :=
  ⟨(isCoherent_and_guardedStep (by decide)).1 _
      (.run (.load (.refl _) _) (fun _ _ => .load (.refl _) _) () 2),
    (isCoherent_and_guardedStep (by decide)).2 _⟩

end Machine

end PocketCpu
