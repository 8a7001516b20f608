import PocketCpu.Memory.Basic

/-!
# Reading back written bytes

Writing replaces the bytes of an interval and leaves all others alone, and a
slice is the interval of the memory's bytes that it names.  Both facts are
first stated for single addresses and then for whole lists, where a write
from address zero puts its bytes in place of as many old ones.
-/

namespace PocketCpu.Memory

variable {size : Nat}

/-! ## Single addresses -/

/-- Bytes in front of a write stay. -/
theorem get?_write_of_lt
    {memory : Memory size}
    {address index : Nat}
    {bytes : List Byte}
    (inFront : index < address) :
    (memory.write address bytes).get? index = memory.get? index := by
  induction bytes generalizing memory address with
  | nil => rfl
  | cons byte rest inductionHypothesis =>
      have different : address ≠ index := by omega
      rw [write, inductionHypothesis (by omega), get?_set,
        if_neg different]

/-- Bytes behind a write stay. -/
theorem get?_write_of_le
    {memory : Memory size}
    {address index : Nat}
    {bytes : List Byte}
    (behind : address + bytes.length ≤ index) :
    (memory.write address bytes).get? index = memory.get? index := by
  induction bytes generalizing memory address with
  | nil => rfl
  | cons byte rest inductionHypothesis =>
      rw [List.length_cons] at behind
      have different : address ≠ index := by omega
      rw [write, inductionHypothesis (by omega), get?_set,
        if_neg different]

/-- Every written byte inside of memory is read back. -/
theorem get?_write_add
    {memory : Memory size}
    {address offset : Nat}
    {bytes : List Byte}
    (fits : address + bytes.length ≤ size)
    (inside : offset < bytes.length) :
    (memory.write address bytes).get? (address + offset) =
      bytes[offset]? := by
  induction bytes generalizing memory address offset with
  | nil => exact absurd inside (Nat.not_lt_zero offset)
  | cons byte rest inductionHypothesis =>
      rw [List.length_cons] at fits inside
      cases offset with
      | zero =>
          have written : address < size := by omega
          rw [write, get?_write_of_lt (by omega), Nat.add_zero, get?_set,
            if_pos rfl, if_pos written, List.getElem?_cons_zero]
      | succ offset =>
          have next : address + (offset + 1) = address + 1 + offset := by
            omega
          rw [write, next, inductionHypothesis (by omega) (by omega),
            List.getElem?_cons_succ]

/-- Writing two pieces one behind the other is writing them at once. -/
theorem write_append
    (memory : Memory size)
    (address : Nat)
    (left right : List Byte) :
    memory.write address (left ++ right) =
      (memory.write address left).write (address + left.length) right := by
  induction left generalizing memory address with
  | nil => rfl
  | cons byte rest inductionHypothesis =>
      have behind :
          address + 1 + rest.length = address + (byte :: rest).length := by
        rw [List.length_cons]
        omega
      rw [List.cons_append, write, inductionHypothesis, write, behind]

/-! ## Whole lists -/

/-- A memory with bytes written to its start. -/
theorem toList_write_zero
    {memory : Memory size}
    {bytes : List Byte}
    (fits : bytes.length ≤ size) :
    (memory.write 0 bytes).toList =
      bytes ++ memory.toList.drop bytes.length := by
  apply List.ext_getElem?
  intro index
  rw [toList_getElem?]
  by_cases written : index < bytes.length
  · have readBack :
        (memory.write 0 bytes).get? (0 + index) = bytes[index]? :=
      get?_write_add (by omega) written
    rw [List.getElem?_append_left written, ← readBack, Nat.zero_add]
  · have kept : index = bytes.length + (index - bytes.length) := by omega
    rw [List.getElem?_append_right (by omega), List.getElem?_drop,
      ← kept, toList_getElem?, get?_write_of_le (by omega)]

/-- A slice is an interval of the bytes of memory. -/
theorem slice_eq_take_drop
    (memory : Memory size)
    (address count : Nat) :
    memory.slice address count =
      (memory.toList.drop address).take count := by
  induction count generalizing address with
  | zero => rfl
  | succ count inductionHypothesis =>
      rw [slice]
      by_cases inside : address < memory.toList.length
      · have found : memory.get? address = some memory.toList[address] := by
          rw [← toList_getElem?, List.getElem?_eq_getElem inside]
        rw [found, List.drop_eq_getElem_cons inside, List.take_succ_cons,
          ← inductionHypothesis]
      · have outside : memory.get? address = none := by
          rw [← toList_getElem?, List.getElem?_eq_none (by omega)]
        rw [outside, List.drop_eq_nil_of_le (by omega), List.take_nil]

/-- A piece of what was written to the start is read back as a slice. -/
theorem slice_write_zero
    {memory : Memory size}
    {left middle right : List Byte}
    (fits : (left ++ (middle ++ right)).length ≤ size) :
    (memory.write 0 (left ++ (middle ++ right))).slice
        left.length middle.length =
      middle := by
  rw [slice_eq_take_drop, toList_write_zero fits, List.append_assoc,
    List.drop_left, List.append_assoc, List.take_left]

/-- What was written is read back as a slice. -/
theorem slice_write
    {memory : Memory size}
    {address : Nat}
    {bytes : List Byte}
    (fits : address + bytes.length ≤ size) :
    (memory.write address bytes).slice address bytes.length = bytes := by
  induction bytes generalizing memory address with
  | nil => rfl
  | cons byte rest inductionHypothesis =>
      have first :
          (memory.write address (byte :: rest)).get? (address + 0) =
            some byte :=
        get?_write_add fits (Nat.zero_lt_succ _)
      rw [Nat.add_zero] at first
      rw [List.length_cons] at fits
      rw [List.length_cons, slice, first, write]
      exact congrArg _ (inductionHypothesis (by omega))

/-- A slice shows what memories agree on. -/
theorem slice_congr
    {left right : Memory size}
    {address count : Nat}
    (same :
      ∀ index, address ≤ index → index < address + count →
        left.get? index = right.get? index) :
    left.slice address count = right.slice address count := by
  induction count generalizing address with
  | zero => rfl
  | succ count inductionHypothesis =>
      have rest :
          left.slice (address + 1) count =
            right.slice (address + 1) count :=
        inductionHypothesis fun index above below =>
          same index (by omega) (by omega)
      rw [slice, slice, same address (by omega) (by omega), rest]

/-- The byte that a slice begins with is the byte at its address. -/
theorem get?_of_slice_eq_cons
    {memory : Memory size}
    {address count : Nat}
    {byte : Byte}
    {rest : List Byte}
    (sliced : memory.slice address (count + 1) = byte :: rest) :
    memory.get? address = some byte ∧
      memory.slice (address + 1) count = rest := by
  rw [slice] at sliced
  split at sliced
  · next found read =>
      cases sliced
      exact ⟨read, rfl⟩
  · cases sliced

end PocketCpu.Memory
