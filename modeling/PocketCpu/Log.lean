import PocketCpu.Text.Basic

/-!
# Log records

While it works the machine reports what it does in records of five levels.
A record also names the component that it comes from.  Records are data:
whether one is shown is decided by the level of whoever shows it.
-/

namespace PocketCpu

/-- How important a record is; `error` is the most important level. -/
inductive Level where
  | error
  | warn
  | info
  | debug
  | trace
deriving DecidableEq, Repr

namespace Level

def rank : Level → Nat
  | .error => 0
  | .warn => 1
  | .info => 2
  | .debug => 3
  | .trace => 4

def name : Level → String
  | .error => "ERROR"
  | .warn => "WARN"
  | .info => "INFO"
  | .debug => "DEBUG"
  | .trace => "TRACE"

/-- Whether a viewer at a level is shown a record of another one. -/
def shows (viewer record : Level) : Bool :=
  record.rank ≤ viewer.rank

end Level

inductive Component where
  | program
  | memory
  | assembler
  | processor
  | registers
  | peripheral
deriving DecidableEq, Repr

def Component.path : Component → String
  | .program => "nibble_cpu"
  | .memory => "nibble_cpu::memory"
  | .assembler => "nibble_cpu::memory::assembler"
  | .processor => "nibble_cpu::processor"
  | .registers => "nibble_cpu::processor::registers"
  | .peripheral => "nibble_cpu::port"

/-- One report of what the machine does. -/
structure Record where
  level : Level
  component : Component
  message : String
deriving DecidableEq, Repr

namespace Record

def text (record : Record) : String :=
  record.level.name ++ " " ++ record.message

/-- A record as a line of output, its level filled up to five characters. -/
def line (record : Record) : String :=
  String.ofList (record.level.name.toList.rightpad 5 ' ') ++
    " [" ++ record.component.path ++ "] " ++ record.message ++ "\n"

end Record

end PocketCpu
