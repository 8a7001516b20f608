import PocketCpu.Machine.Basic

/-!
# Showing a machine

The state of a machine apart from its memory on one line, field by field.
-/

namespace PocketCpu

/-- The value of a record with named fields. -/
def recordText (name : String) (fields : List (String × String)) : String :=
  name ++ " \x7b " ++
    ", ".intercalate (fields.map fun field => field.1 ++ ": " ++ field.2) ++
    " \x7d"

/-- Values between square brackets. -/
def listText (values : List String) : String :=
  "[" ++ ", ".intercalate values ++ "]"

/-- The banks of each pair, in decimal digits. -/
def RegisterFile.display (file : RegisterFile) : String :=
  recordText "RegisterFile"
    [("banks", listText (Pair.all.map fun pair =>
      listText
        [toString (file.banks pair).high.toNat,
         toString (file.banks pair).low.toNat]))]

/-- Every flag by name. -/
def Flags.display (flags : Flags) : String :=
  recordText "Flags"
    [("cf", toString flags.carry), ("zf", toString flags.zero),
     ("sf", toString flags.sign), ("of", toString flags.overflow),
     ("pf", toString flags.parity), ("interrupt", toString flags.interrupt),
     ("mop", toString flags.fourBit)]

/-- The two fetched bytes, in decimal digits. -/
def InstructionRegister.display (fetched : InstructionRegister) : String :=
  recordText "InstructionRegister"
    [("opcode", toString fetched.opcode.toNat),
     ("mode", toString fetched.mode.toNat)]

/-- The state of a machine apart from its memory. -/
def Machine.display {size : Nat} (machine : Machine size) : String :=
  recordText "Processor"
    [("registers", machine.registers.display),
     ("flags", machine.flags.display),
     ("pc", toString machine.pc.toNat),
     ("ir", machine.fetched.display),
     ("running", toString machine.isRunning)]

end PocketCpu
