import PocketCpu.Assembly.Passes

/-!
# Reading sources

A source comes from a file of UTF-8 text.  What went wrong with a file is
told in two messages: the one that names the file is the outer one.
-/

namespace PocketCpu.Console

/-- Why a source could not be read. -/
inductive ReadFault where
  | missing
  | isDirectory
  /-- A file stands where the path needs a directory. -/
  | notDirectory
  | notText
  | other (message : String)
deriving DecidableEq, Repr

/-- The wording of a fault in reading. -/
def ReadFault.message : ReadFault → String
  | .missing => "No such file or directory (os error 2)"
  | .isDirectory => "Is a directory (os error 21)"
  | .notDirectory => "Not a directory (os error 20)"
  | .notText => "stream did not contain valid UTF-8"
  | .other message => message

/-- The source in the bytes of a file. -/
def sourceOfBytes (bytes : ByteArray) : Except ReadFault Text :=
  match String.fromUTF8? bytes with
  | some source => .ok source.toList
  | none => .error .notText

/-- The messages on a file that could not be read. -/
def readMessages (path : String) (fault : ReadFault) : List String :=
  ["Failed to read program `" ++ path ++ "`", fault.message]

/-- The memory of the standard size with the source of a file in it. -/
def memoryOfFile (path : String) (contents : Except ReadFault Text) :
    Except (List String) (Memory 256) :=
  match contents with
  | .error fault => .error (readMessages path fault)
  | .ok source =>
    match Memory.ofSource 256 source with
    | .ok memory => .ok memory
    | .error diagnostics =>
      .error
        ["Failed to assemble program `" ++ path ++ "`",
         Diagnostic.report diagnostics]

end PocketCpu.Console
