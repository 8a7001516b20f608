import PocketCpu.Register.Basic

/-!
# Memory

A memory is a fixed number of bytes at the addresses from zero on.  Reading
outside of it gives nothing and writing outside of it changes nothing, so
what a memory holds is described by `get?` alone.
-/

namespace PocketCpu

structure Memory (size : Nat) where
  bytes : Vector Byte size
deriving DecidableEq

namespace Memory

def filled (size : Nat) (byte : Byte) : Memory size :=
  ⟨Vector.replicate size byte⟩

def zero (size : Nat) : Memory size :=
  filled size 0

variable {size : Nat}

def toList (memory : Memory size) : List Byte :=
  memory.bytes.toList

/-- The byte at an address inside of memory. -/
def get? (memory : Memory size) (address : Nat) : Option Byte :=
  memory.bytes[address]?

/-- The memory with one byte replaced, if the address is inside. -/
def set (memory : Memory size) (address : Nat) (byte : Byte) : Memory size :=
  ⟨memory.bytes.setIfInBounds address byte⟩

/-- The memory with bytes replaced from an address on. -/
def write (memory : Memory size) (address : Nat) : List Byte → Memory size
  | [] => memory
  | byte :: rest => (memory.set address byte).write (address + 1) rest

/-- Replace bytes from an address on, or refuse if they leave memory. -/
def write? (memory : Memory size) (address : Nat) (bytes : List Byte) :
    Option (Memory size) :=
  if address + bytes.length ≤ size then
    some (memory.write address bytes)
  else
    none

/-- The bytes from an address on, as far as they are inside of memory. -/
def slice (memory : Memory size) (address : Nat) : Nat → List Byte
  | 0 => []
  | count + 1 =>
    match memory.get? address with
    | some byte => byte :: memory.slice (address + 1) count
    | none => []

@[ext]
theorem ext_get?
    {left right : Memory size}
    (same : ∀ address, left.get? address = right.get? address) :
    left = right := by
  obtain ⟨leftBytes⟩ := left
  obtain ⟨rightBytes⟩ := right
  congr 1
  apply Vector.ext
  intro address inside
  have equal := same address
  simpa [get?, inside] using equal

theorem get?_eq_none_iff
    {memory : Memory size}
    {address : Nat} :
    memory.get? address = none ↔ size ≤ address := by
  simp [get?]

@[simp]
theorem get?_set
    (memory : Memory size)
    (target address : Nat)
    (byte : Byte) :
    (memory.set target byte).get? address =
      if target = address then
        if target < size then some byte else none
      else
        memory.get? address := by
  simp [set, get?, Vector.getElem?_setIfInBounds]

@[simp]
theorem toList_getElem? (memory : Memory size) (address : Nat) :
    memory.toList[address]? = memory.get? address := by
  simp [toList, get?]

@[simp]
theorem length_toList (memory : Memory size) :
    memory.toList.length = size := by
  simp [toList]

end Memory

end PocketCpu
