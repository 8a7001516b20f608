import PocketCpu.Assembly.Passes
import PocketCpu.Machine.Step

/-!
# Loading programs

A program is loaded by assembling its source into the machine's memory and
putting the program counter back to zero.  Registers and flags stay, and so
does everything in memory that the program does not cover.
-/

namespace PocketCpu

namespace AssemblyNotice

def event (notice : AssemblyNotice) : Event :=
  .log notice.record

end AssemblyNotice

namespace Machine

variable {size : Nat}

/-- What remains after a program was loaded. -/
structure Loading (size : Nat) where
  machine : Machine size
  result : Except (List Diagnostic) LabelTable
  events : List Event

/-- Load a program; lines without mistakes are written in any case. -/
def loadProgram (machine : Machine size) (source : Text) : Loading size :=
  let assembled := (Workspace.ofMemory machine.memory).run source
  let loaded : Machine size :=
    { machine with memory := assembled.workspace.memory, pc := 0 }
  { machine := loaded
    result := assembled.result.map fun _ => assembled.workspace.labels
    events :=
      assembled.notices.map AssemblyNotice.event ++ [loaded.stateChanged] }

end Machine

end PocketCpu
