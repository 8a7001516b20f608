import PocketCpu.Console.Options
import PocketCpu.Console.Source
import PocketCpu.Machine.Load
import PocketCpu.Machine.Run
import PocketCpu.Memory.Dump
import PocketCpu.Peripheral

/-!
# Sessions

A session loads one program into a machine of 256 bytes, runs it, and shows
what happens: characters and log lines on the standard output, lights on the
standard error.  The level and the dump only decide which lines are shown.
A session is a value that is taken turn by turn, so that an endless program
can be watched; a performance is all that one with an end has shown, and a
transcript is what a viewer at a level sees of it.
-/

namespace PocketCpu.Console

/-- The number of bytes of the machine that programs run on. -/
abbrev standardSize : Nat :=
  256

/-- Something that a session shows. -/
inductive Output where
  | line (record : Record)
  | character (byte : Byte)
  | lights (byte : Byte)
deriving DecidableEq, Repr

namespace Output

def ofEvent : Event → List Output
  | .interrupt number accumulator =>
    if number = 1 then [.character accumulator]
    else if number = 0 then [.lights accumulator]
    else [.line (LoggingPeripheral.interruptRecord number accumulator)]
  | event => (Peripheral.logging.records event).map .line

def text (level : Level) : Output → String
  | .line record => if level.shows record.level then record.line else ""
  | .character byte => String.singleton (Char.ofNat byte.toNat)
  | .lights _ => ""

/-- The byte shown as a character, if it is one. -/
def character? : Output → Option Byte
  | .character byte => some byte
  | _ => none

/-- The byte shown on the lights, if it is. -/
def lights? : Output → Option Byte
  | .lights byte => some byte
  | _ => none

def lightsLine? (output : Output) : Option String :=
  output.lights?.map fun byte =>
    "[" ++ String.ofList (PocketCpu.lights byte) ++ "] " ++
      Text.hex 2 byte.toNat

end Output

/-- A program on its way; its clock is a count of 64 bits. -/
structure Session where
  options : Options
  run : Run UInt64 standardSize

namespace Session

/-- The cadence that counts and stops the machine once the count is past a limit. -/
def stopPast (limit : UInt64) : Cadence UInt64 standardSize :=
  fun count machine =>
    (count + 1, if limit < count + 1 then machine.stop else machine, [])

/-- The cadence that minds the limit of steps, if there is one. -/
def cadence (options : Options) : Cadence UInt64 standardSize :=
  match options.limit with
  | some limit => stopPast (UInt64.ofNat limit)
  | none => .free

def labelRecord (label : Text × Word) : Record :=
  ⟨.debug, .program,
    String.ofList (label.1.leftpad 12 ' ') ++ ": 0x" ++
      Text.hex 2 label.2.toNat⟩

/-- The dump of a machine's memory, if it is asked for. -/
def dumpOutputs (options : Options) (machine : Machine standardSize) :
    List Output :=
  if options.dump then [.line (machine.memory.dumpRecord machine.pc.toNat)]
  else []

/-- The session of a source and the output on loading it. -/
def load (options : Options) (source : Text) :
    Except (List String) Session × List Output :=
  let loading := (Machine.initial standardSize).loadProgram source
  let shown := loading.events.flatMap Output.ofEvent
  match loading.result with
  | .error diagnostics =>
    (.error
      ["Failed to assemble `" ++ options.program ++ "`",
       Diagnostic.report diagnostics],
      shown)
  | .ok labels =>
    (.ok ⟨options, .start loading.machine 1⟩,
      shown ++ labels.sorted.map (fun label => .line (labelRecord label)) ++
        dumpOutputs options loading.machine)

def ofContents (options : Options) (contents : Except ReadFault Text) :
    Except (List String) Session × List Output :=
  match contents with
  | .error fault => (.error (readMessages options.program fault), [])
  | .ok source => load options source

def registersRecord (machine : Machine standardSize) : Record :=
  ⟨.info, .program,
    "Registers:\n" ++ machine.registers.text ++ "\n" ++ machine.flags.text⟩

/-- What is shown after a run, and the messages if it failed. -/
def conclude (session : Session) (failure : Option Trap) :
    List Output × List String :=
  match failure with
  | some trap => ([], [trap.message])
  | none =>
    (.line (registersRecord session.run.machine) ::
      dumpOutputs session.options session.run.machine, [])

def turn (session : Session) : Session × List Output :=
  let (run, events) := session.run.turn (cadence session.options)
  ({ session with run }, events.flatMap Output.ofEvent)

end Session

/-- All that was shown on the way to an end, and the messages about it. -/
structure Performance where
  outputs : List Output
  messages : List String
deriving DecidableEq, Repr

namespace Performance

/-- The rest of a session, unless it takes more than a number of turns. -/
def ofSession? (turns : Nat) (session : Session) (shown : List Output) :
    Option Performance :=
  let (run, events) :=
    session.run.advance (Session.cadence session.options) turns #[]
  match run.phase with
  | .active => none
  | .ended failure =>
    let (last, messages) := { session with run }.conclude failure
    some ⟨shown ++ events.toList.flatMap Output.ofEvent ++ last, messages⟩

def ofContents? (turns : Nat) (options : Options)
    (contents : Except ReadFault Text) : Option Performance :=
  match Session.ofContents options contents with
  | (.ok session, shown) => ofSession? turns session shown
  | (.error messages, shown) => some ⟨shown, messages⟩

def characters (performance : Performance) : List Byte :=
  performance.outputs.filterMap Output.character?

def lights (performance : Performance) : List Byte :=
  performance.outputs.filterMap Output.lights?

/-- The exit status: zero exactly if there is nothing to complain about. -/
def status (performance : Performance) : Nat :=
  if performance.messages.isEmpty then 0 else 1

end Performance

/-- What a viewer sees of a performance. -/
structure Transcript where
  status : Nat
  output : String
  lights : List String
  messages : List String
deriving DecidableEq, Repr

namespace Transcript

def ofPerformance (level : Level) (performance : Performance) :
    Transcript where
  status := performance.status
  output := String.join (performance.outputs.map (Output.text level))
  lights := performance.outputs.filterMap Output.lightsLine?
  messages := performance.messages

/-- The transcript of a command line, given a way to read files. -/
def ofArguments? (turns : Nat) (arguments : List String)
    (read : String → Except ReadFault Text) : Option Transcript :=
  match Options.ofArguments arguments with
  | .error fault => some (ofPerformance .info ⟨[], fault.messages⟩)
  | .ok options =>
    (Performance.ofContents? turns options (read options.program)).map
      (ofPerformance options.level)

end Transcript

end PocketCpu.Console
