import PocketCpu.Assembly.Basic
import PocketCpu.Assembly.Diagnostic
import PocketCpu.Assembly.LabelTable
import PocketCpu.Assembly.Layout
import PocketCpu.Assembly.Notice
import PocketCpu.Assembly.Passes
import PocketCpu.Assembly.SourceLine
import PocketCpu.Assembly.Statement
import PocketCpu.Assembly.Token
import PocketCpu.Console.Options
import PocketCpu.Console.Session
import PocketCpu.Console.Source
import PocketCpu.Fault
import PocketCpu.Flags
import PocketCpu.Instruction.Basic
import PocketCpu.Instruction.Decoding
import PocketCpu.Instruction.Listing
import PocketCpu.Instruction.Opcode
import PocketCpu.Instruction.Operand
import PocketCpu.Log
import PocketCpu.Machine.Basic
import PocketCpu.Machine.Display
import PocketCpu.Machine.Event
import PocketCpu.Machine.Load
import PocketCpu.Machine.Perform
import PocketCpu.Machine.Run
import PocketCpu.Machine.Step
import PocketCpu.Memory.Basic
import PocketCpu.Memory.Dump
import PocketCpu.Peripheral
import PocketCpu.Proofs.Instruction.Program
import PocketCpu.Proofs.Instruction.RoundTrip
import PocketCpu.Proofs.Memory.Write
import PocketCpu.Register.Basic
import PocketCpu.Register.File
import PocketCpu.Text.Basic
import PocketCpu.Text.Blank
import PocketCpu.Text.Hexadecimal
import PocketCpu.Text.Number
import PocketCpu.Text.Quoted
import PocketCpu.Main
import PocketCpu.Proofs.Assembly.Labels
import PocketCpu.Proofs.Assembly.Sound
import PocketCpu.Proofs.Assembly.Image
import PocketCpu.Proofs.Assembly.Listing
import PocketCpu.Proofs.Machine.Perform
import PocketCpu.Proofs.Machine.Step
import PocketCpu.Proofs.Machine.Simulation
import PocketCpu.Proofs.Machine.Run
import PocketCpu.Proofs.Instruction.Leading
import PocketCpu.Proofs.Instruction.Partition
import PocketCpu.Proofs.Instruction.Inversion
import PocketCpu.Proofs.Machine.StepCases
import PocketCpu.Proofs.Machine.Effects
import PocketCpu.Proofs.Machine.Atomicity
import PocketCpu.Proofs.Machine.Coherence
import PocketCpu.Proofs.Machine.Guarded
import PocketCpu.Proofs.Machine.Foretelling
import PocketCpu.Proofs.Assembly.Printing
import PocketCpu.Proofs.Instruction.Rewriting
import PocketCpu.Proofs.Assembly.Reassembly
import PocketCpu.Proofs.Text.Trimming
import PocketCpu.Proofs.Assembly.WrittenLine
import PocketCpu.Proofs.Sequence
import PocketCpu.Proofs.Assembly.Faults
import PocketCpu.Proofs.Assembly.Merging
import PocketCpu.Proofs.Assembly.Passes
import PocketCpu.Proofs.Assembly.Reporting
import PocketCpu.Proofs.Assembly.Effect
import PocketCpu.Proofs.Machine.Growth
import PocketCpu.Proofs.Console.Limit
import PocketCpu.Proofs.Arithmetic.Exact
import PocketCpu.Proofs.Register.Banks
import PocketCpu.Proofs.Register.Writes
import PocketCpu.Proofs.Machine.Arithmetic
import PocketCpu.Proofs.Machine.Branching
import PocketCpu.Proofs.Machine.Frame
import PocketCpu.Proofs.Console.Verbosity
import PocketCpu.Proofs.Machine.Likeness
import PocketCpu.Proofs.Machine.FlagIndependence
import PocketCpu.Proofs.Machine.Stopping
import PocketCpu.Proofs.Machine.Resumption
import PocketCpu.Proofs.Machine.StraightRun
import PocketCpu.Proofs.Machine.PossibleFaults
import PocketCpu.Proofs.Machine.Locality
import PocketCpu.Proofs.Assembly.Repetition
import PocketCpu.Proofs.Text.Pieces
import PocketCpu.Proofs.Assembly.Numbering
import PocketCpu.Proofs.Assembly.Rewording
import PocketCpu.Proofs.Assembly.LineEditing
import PocketCpu.Proofs.Assembly.Editing
import PocketCpu.Proofs.Assembly.Joining
import PocketCpu.Proofs.Assembly.Relocation
import PocketCpu.Proofs.Instruction.Concatenation
import PocketCpu.Proofs.Machine.EntryLengths
import PocketCpu.Proofs.Assembly.Constants
import PocketCpu.Proofs.Text.Numerals
import PocketCpu.Proofs.Assembly.Aiming
import PocketCpu.Proofs.Text.PrintedNumerals
import PocketCpu.Proofs.Register.Cells
import PocketCpu.Proofs.Assembly.Sizing
import PocketCpu.Proofs.Console.Reordering
import PocketCpu.Proofs.Memory.Dump
import PocketCpu.Proofs.Text.ByteOrder
import PocketCpu.Proofs.Assembly.LabelHistory
