import PocketCpu.Proofs.Instruction.Partition
import PocketCpu.Proofs.Machine.Atomicity

/-!
# Listings foretell steps

The listing of the whole memory says of every entry what a machine does that
stands at the entry's address: with which fault it traps, or which
instruction it carries out, and where it goes on.  Only one thing does not
show in a listing.  A jump that is not taken ignores its operand, so that an
operand that names no register is not noticed.
-/

namespace PocketCpu

/-- The machine with its program counter behind the bytes of an entry. -/
def ListingEntry.behind
    {size : Nat}
    (entry : ListingEntry)
    (machine : Machine size) : Machine size :=
  { machine with pc := UInt16.ofNat (entry.address.toNat + entry.length) }

/--
An entry foretells the step of a machine at its address.

A machine traps with the fault of the entry, unless a jump is not taken that
names no register.  It carries out the instruction of the entry as if it stood
behind the entry's bytes.  Whether that succeeds or not, it goes on there,
unless it takes a jump or the instruction is cut off.
-/
structure ListingEntry.Foretells
    {size : Nat}
    (entry : ListingEntry)
    (machine : Machine size) : Prop where
  trapped :
    ∀ fault, entry.content = .error fault →
      (∀ code, fault = .unknownRegister code → ¬ machine.IsUntaken) →
      machine.step.failure = some ⟨fault, entry.address⟩
  skipped :
    ∀ code, entry.content = .error (.unknownRegister code) →
      machine.IsUntaken →
      machine.step.failure = none
  performed :
    ∀ instruction, entry.content = .ok instruction →
      machine.StepMatches ((entry.behind machine).perform instruction) ∧
        machine.step.machine.pc =
          ((entry.behind machine).perform instruction).machine.pc
  goesOn :
    (∀ opcode, entry.content ≠ .error (.truncated opcode)) →
      (∀ instruction, entry.content = .ok instruction →
        machine.jumpTarget? instruction = none) →
      machine.step.machine.pc.toNat = entry.address.toNat + entry.length

namespace Machine

variable {size : Nat} {machine : Machine size}
variable {outcome : Outcome size Fault} {notices : List MachineNotice}

/-- The entry that a listing has for what is at the program counter. -/
def entry (machine : Machine size) : ListingEntry :=
  ⟨machine.pc, Instruction.leadingSpan machine.ahead, machine.current⟩

/-- A step that fails before it carries out an instruction is foretold. -/
theorem foretells_of_failed
    {fault : Fault}
    (executed :
      machine.fetchAndExecute =
        outcome.after (notices.map MachineNotice.event))
    (failed : outcome.failure = some fault)
    (undecoded : machine.current = .error fault)
    (taken : ∀ code, fault = .unknownRegister code → ¬ machine.IsUntaken)
    (behind :
      (∀ opcode, fault ≠ .truncated opcode) →
        outcome.machine.pc.toNat =
          machine.pc.toNat + Instruction.leadingSpan machine.ahead) :
    machine.entry.Foretells machine := by
  obtain ⟨failure, left, -⟩ := step_of_failed executed failed
  refine ⟨?_, ?_, ?_, ?_⟩
  · intro reason shown _
    cases undecoded.symm.trans shown
    exact failure
  · intro code shown untaken
    cases undecoded.symm.trans shown
    exact absurd untaken (taken code rfl)
  · intro instruction shown
    cases undecoded.symm.trans shown
  · intro whole _
    rw [left, dropped_eq]
    refine behind fun opcode cut => whole opcode ?_
    rw [← cut]
    exact undecoded

/-- A step that carries out an instruction is foretold. -/
theorem foretells_of_performed
    {instruction : Instruction}
    {pc : Word}
    {fetched : InstructionRegister}
    (executed :
      machine.fetchAndExecute =
        ((machine.redirect pc fetched).perform instruction).after
          (notices.map MachineNotice.event))
    (decoded : machine.current = .ok instruction)
    (behind : machine.IsBehind pc) :
    machine.entry.Foretells machine := by
  obtain ⟨left, failure, interrupts⟩ :=
    step_of_fetchAndExecute (drops_perform instruction) executed
  rw [perform_redirect] at left failure interrupts
  have same :
      machine.entry.behind machine = machine.redirect pc machine.fetched := by
    rw [ListingEntry.behind, entry, ← behind.1, UInt16.ofNat_toNat]
    rfl
  refine ⟨?_, ?_, ?_, ?_⟩
  · intro fault shown
    cases decoded.symm.trans shown
  · intro code shown
    cases decoded.symm.trans shown
  · intro other shown
    cases decoded.symm.trans shown
    rw [same, perform_redirect]
    refine ⟨⟨failure, ?_, ?_, ?_, ?_, interrupts⟩, ?_⟩ <;>
      (rw [left]; rfl)
  · intro _ remains
    rw [left, remains instruction decoded]
    exact behind.1

/-- The entry for what is at the program counter foretells the step. -/
theorem foretells_entry
    (small : size < 65536)
    (machine : Machine size) :
    machine.entry.Foretells machine := by
  obtain ⟨outcome, notices, carriesOut, executed⟩ :=
    exists_carriesOut small machine
  cases carriesOut with
  | ended nothing =>
      refine foretells_of_failed executed rfl ?_ ?_ ?_
      · rw [current, nothing]
        rfl
      · intro code same
        cases same
      · intro _
        rw [nothing]
        rfl
  | cut undecoded inside =>
      refine foretells_of_failed executed rfl undecoded ?_ ?_
      · intro code same
        cases same
      · intro whole
        exact absurd rfl (whole _)
  | refused undecoded harmless taken behind =>
      exact foretells_of_failed executed rfl undecoded taken
        fun _ => behind.1
  | skipped undecoded untaken behind =>
      obtain ⟨failure, left, -⟩ := step_of_done executed rfl
      refine ⟨?_, fun _ _ _ => failure, ?_, ?_⟩
      · intro fault shown taken
        cases undecoded.symm.trans shown
        exact absurd untaken (taken _ rfl)
      · intro instruction shown
        cases undecoded.symm.trans shown
      · intro _ _
        rw [left]
        exact behind.1
  | performed decoded behind =>
      exact foretells_of_performed executed decoded behind

/-- Every entry of the listing of memory is the entry at its address. -/
theorem entry_of_mem_listing
    (small : size < 65536)
    {shown : ListingEntry}
    (member : shown ∈ Instruction.listing machine.memory.toList)
    (reached : machine.pc = shown.address) :
    shown = machine.entry := by
  obtain ⟨offset, inside, same⟩ := Instruction.mem_listingFrom member
  rw [Memory.length_toList] at inside
  rw [Nat.zero_add] at same
  have ahead : machine.ahead = machine.memory.toList.drop offset := by
    rw [Machine.ahead, reached, same]
    show machine.memory.toList.drop (UInt16.ofNat offset).toNat = _
    rw [UInt16.toNat_ofNat_of_lt' (by rw [UInt16.size]; omega)]
  rw [entry, current, ahead, reached, same]

/--
The listing of memory partitions its addresses, and each entry foretells the
step of every machine that stands at its address, whatever else that machine
is.
-/
theorem listing_foretells
    (small : size < 65536)
    (memory : Memory size) :
    ListingEntry.Partition (Instruction.listing memory.toList) size ∧
      ∀ entry ∈ Instruction.listing memory.toList,
        ∀ machine : Machine size,
          machine.memory = memory →
          machine.pc = entry.address →
          entry.Foretells machine := by
  constructor
  · have partition :
        ListingEntry.Partition (Instruction.listing memory.toList)
          memory.toList.length :=
      Instruction.partition_listing (by rw [Memory.length_toList]; omega)
    rwa [Memory.length_toList] at partition
  · rintro entry member machine rfl reached
    rw [entry_of_mem_listing small member reached]
    exact foretells_entry small machine

/--
A jump that is not taken names no register, and the byte behind it begins an
instruction that is cut off.
-/
theorem listing_foretells_untaken_jump :
    ({ initial 4 with
        memory := (Memory.zero 4).write 0 [0x18, 0x00, 0x20, 0x10] } :
          Machine 4).step.failure = none ∧
      ({ initial 4 with
        memory := (Memory.zero 4).write 0 [0x18, 0x00, 0x20, 0x10]
        pc := 3 } : Machine 4).step.failure =
        some ⟨.truncated 0x10, 3⟩ :=
  ⟨((listing_foretells (by decide) _).2
      ⟨0, 3, .error (.unknownRegister 0x20)⟩ (.head _) _
      rfl rfl).skipped 0x20 rfl ⟨.zero, rfl, rfl⟩,
    ((listing_foretells (by decide) _).2
      ⟨3, 1, .error (.truncated 0x10)⟩ (.tail _ (.head _)) _
      rfl rfl).trapped _ rfl nofun⟩

end Machine

end PocketCpu
