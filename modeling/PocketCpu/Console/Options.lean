import PocketCpu.Log
import PocketCpu.Text.Number

/-!
# Command line options

Arguments are first grouped into whole options, an option with a count
taking the argument behind it, whatever it is.  Options may come in any
order: the last level and the last count win, and exactly one argument is
the program.
-/

namespace PocketCpu.Console

def usage : String :=
  "usage: nibble-cpu <program.asm> [-v|-q] [--step N] [--dump]"

/-- A whole option of the command line. -/
inductive Argument where
  | level (level : Level)
  | dump
  | steps (count : String)
  /-- A count is announced, but there is no further argument. -/
  | dangling
  | help
  | program (path : String)
deriving DecidableEq, Repr

namespace Argument

/-- An option that consists of one argument. -/
def ofWord (word : String) : Argument :=
  if word = "-v" then .level .debug
  else if word = "-vv" then .level .trace
  else if word = "-q" then .level .warn
  else if word = "--dump" then .dump
  else if word = "-h" ∨ word = "--help" then .help
  else .program word

/-- Group arguments into whole options. -/
def group : List String → List Argument
  | [] => []
  | word :: rest =>
    if word = "--step" then
      match rest with
      | [] => [.dangling]
      | count :: others => .steps count :: group others
    else
      ofWord word :: group rest

end Argument

/-- What the command line asks for. -/
structure Options where
  program : String
  level : Level
  /-- The number of steps after which the program is stopped. -/
  limit : Option Nat
  dump : Bool
deriving DecidableEq, Repr

inductive OptionFault where
  | usage
  | missingCount
  | badCount (count : String) (fault : Text.NumberFault)
  | unexpected (argument : String)
deriving DecidableEq, Repr

def OptionFault.messages : OptionFault → List String
  | .usage => [Console.usage]
  | .missingCount => ["--step needs a count"]
  | .badCount count fault =>
    ["invalid step count `" ++ count ++ "`", fault.message]
  | .unexpected argument =>
    ["unexpected argument `" ++ argument ++ "`\n" ++ Console.usage]

/-- The options read so far; the program may still be missing. -/
structure PartialOptions where
  program : Option String
  level : Level
  limit : Option Nat
  dump : Bool
deriving DecidableEq, Repr

namespace PartialOptions

def initial : PartialOptions :=
  ⟨none, .info, none, false⟩

/-- The largest count of steps. -/
def largestCount : Nat :=
  UInt64.size - 1

/-- Take one more option into account. -/
def add (options : PartialOptions) :
    Argument → Except OptionFault PartialOptions
  | .level level => .ok { options with level }
  | .dump => .ok { options with dump := true }
  | .steps count =>
    match Text.readNumber 10 largestCount count.toList with
    | .ok limit => .ok { options with limit := some limit }
    | .error fault => .error (.badCount count fault)
  | .dangling => .error .missingCount
  | .help => .error .usage
  | .program path =>
    match options.program with
    | none => .ok { options with program := some path }
    | some _ => .error (.unexpected path)

/-- The complete options, which need a program. -/
def complete (options : PartialOptions) : Except OptionFault Options :=
  match options.program with
  | some program => .ok ⟨program, options.level, options.limit, options.dump⟩
  | none => .error .usage

end PartialOptions

/-- The options of a command line, or the first reason to refuse it. -/
def Options.ofArguments (arguments : List String) :
    Except OptionFault Options := do
  let last ← (Argument.group arguments).foldlM PartialOptions.add .initial
  last.complete

end PocketCpu.Console
