import PocketCpu.Console.Session

/-!
# The command line program

Reads the arguments and the file that they name, and shows a session turn by
turn as it goes on.
-/

namespace PocketCpu.Console

/-- The source in a file. -/
def readSource (path : String) : IO (Except ReadFault Text) := do
  try
    return sourceOfBytes (← IO.FS.readBinFile path)
  catch fault =>
    match fault with
    | .noFileOrDirectory .. => return .error .missing
    | .inappropriateType _ 21 _ => return .error .isDirectory
    | .inappropriateType .. => return .error .notDirectory
    | other => return .error (.other (toString other))

/-- Show what belongs on the two output streams at a level. -/
def showOutputs (level : Level) (outputs : List Output) : IO Unit := do
  let stdout ← IO.getStdout
  for output in outputs do
    stdout.putStr (output.text level)
    match output.lightsLine? with
    | some line => IO.eprintln line
    | none => pure ()
  stdout.flush

/-- Show a session to its end and give back the final messages. -/
partial def watch (session : Session) : IO (List String) := do
  match session.run.phase with
  | .active =>
    let (next, outputs) := session.turn
    showOutputs session.options.level outputs
    watch next
  | .ended failure =>
    let (outputs, messages) := session.conclude failure
    showOutputs session.options.level outputs
    return messages

/-- Load the program that the options name and watch it. -/
def runProgram (options : Options) : IO (List String) := do
  let (session, outputs) :=
    Session.ofContents options (← readSource options.program)
  showOutputs options.level outputs
  match session with
  | .ok session => watch session
  | .error messages => return messages

end PocketCpu.Console

open PocketCpu.Console in
/-- The program; its status is one exactly if there are messages to show. -/
def main (arguments : List String) : IO UInt32 := do
  let messages ←
    match Options.ofArguments arguments with
    | .ok options => runProgram options
    | .error fault => pure fault.messages
  for message in messages do
    IO.eprintln ("Error: " ++ message)
  return if messages.isEmpty then 0 else 1
