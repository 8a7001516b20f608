import PocketCpu.Machine.Event
import PocketCpu.Text.Quoted

/-!
# Peripherals

A peripheral is attached to the machine and receives its notifications.  A
silent one makes nothing of them; a logging one turns states and interrupts
into records.  Interrupt zero shows the accumulator on eight lights, and
interrupt one as a character.
-/

namespace PocketCpu

/-- Eight lights for the bits of a byte, the highest bit first. -/
def lights (byte : Byte) : Text :=
  (List.range 8).reverse.map fun bit =>
    if byte.toNat.testBit bit then '●' else '○'

namespace LoggingPeripheral

/-- The record of a new state. -/
def stateRecord (snapshot : Snapshot) : Record :=
  ⟨.trace, .peripheral,
    "PC: " ++ Text.hex 2 snapshot.pc.toNat ++
      " IR: " ++ Text.hex 2 snapshot.fetched.opcode.toNat ++
      Text.hex 2 snapshot.fetched.mode.toNat ++
      "\n" ++ snapshot.registers.text ++ "\n" ++ snapshot.flags.text⟩

/-- The record of an interrupt. -/
def interruptRecord (number accumulator : Byte) : Record :=
  if number = 0 then
    ⟨.info, .peripheral,
      "LEDs: " ++ String.ofList (lights accumulator) ++
        " (AX = " ++ Text.hex 2 accumulator.toNat ++ ")"⟩
  else if number = 1 then
    ⟨.info, .peripheral, "Char: " ++ String.ofList (Text.quote accumulator)⟩
  else
    ⟨.debug, .peripheral, "Ignoring interrupt " ++ toString number.toNat⟩

end LoggingPeripheral

/-- What may be attached to the machine. -/
inductive Peripheral where
  | silent
  | logging
deriving DecidableEq, Repr

/-- The records that an event leads to. -/
def Peripheral.records (peripheral : Peripheral) (event : Event) :
    List Record :=
  match peripheral, event with
  | _, .log record => [record]
  | .logging, .stateChanged snapshot => [LoggingPeripheral.stateRecord snapshot]
  | .logging, .interrupt number accumulator =>
    [LoggingPeripheral.interruptRecord number accumulator]
  | _, _ => []

end PocketCpu
