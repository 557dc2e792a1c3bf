import Opstack.Code.Builder
import Opstack.Code.Instr
import Opstack.Code.Opcode
import Opstack.Code.Routine
import Opstack.Config
import Opstack.Console
import Opstack.Double.Basic
import Opstack.Double.Rounding
import Opstack.Double.Shortest
import Opstack.Double.Text
import Opstack.Failure
import Opstack.Frame
import Opstack.Heap
import Opstack.Heap.Tables
import Opstack.Lowering.Emission
import Opstack.Lowering.Error
import Opstack.Lowering.Expr
import Opstack.Lowering.Program
import Opstack.Lowering.Stmt
import Opstack.Machine.Execution
import Opstack.Machine.Schedule
import Opstack.Machine.Session
import Opstack.Machine.Shared
import Opstack.Machine.Step
import Opstack.Proofs.Code.Building
import Opstack.Proofs.Double.Magnitude
import Opstack.Proofs.Double.Nearest
import Opstack.Proofs.Double.Places
import Opstack.Proofs.Double.Shortest
import Opstack.Proofs.Double.Text
import Opstack.Proofs.Heap.Contents
import Opstack.Proofs.Heap.History
import Opstack.Proofs.Heap.Lengths
import Opstack.Proofs.Heap.Objects
import Opstack.Proofs.Heap.References
import Opstack.Proofs.Heap.Tables
import Opstack.Proofs.Lowering.Acceptance
import Opstack.Proofs.Lowering.CallSites
import Opstack.Proofs.Lowering.Emission
import Opstack.Proofs.Lowering.Forms
import Opstack.Proofs.Lowering.Forward
import Opstack.Proofs.Lowering.Jumps
import Opstack.Proofs.Lowering.Layout
import Opstack.Proofs.Lowering.Levels
import Opstack.Proofs.Lowering.Literals
import Opstack.Proofs.Lowering.Stores
import Opstack.Proofs.Lowering.Stretches
import Opstack.Proofs.Lowering.VariableNames
import Opstack.Proofs.Machine.Alike
import Opstack.Proofs.Machine.Assignment
import Opstack.Proofs.Machine.Balance
import Opstack.Proofs.Machine.Beneath
import Opstack.Proofs.Machine.Bounds
import Opstack.Proofs.Machine.Calls
import Opstack.Proofs.Machine.Chains
import Opstack.Proofs.Machine.Comparisons
import Opstack.Proofs.Machine.Construction
import Opstack.Proofs.Machine.Correctness
import Opstack.Proofs.Machine.Correspondence
import Opstack.Proofs.Machine.Counting
import Opstack.Proofs.Machine.Delivery
import Opstack.Proofs.Machine.Detached
import Opstack.Proofs.Machine.Effects
import Opstack.Proofs.Machine.Evaluating
import Opstack.Proofs.Machine.Expressions
import Opstack.Proofs.Machine.Faults
import Opstack.Proofs.Machine.HeldValues
import Opstack.Proofs.Machine.Hosting
import Opstack.Proofs.Machine.Initialization
import Opstack.Proofs.Machine.Inside
import Opstack.Proofs.Machine.Intact
import Opstack.Proofs.Machine.Integers
import Opstack.Proofs.Machine.Isolation
import Opstack.Proofs.Machine.Limits
import Opstack.Proofs.Machine.Loading
import Opstack.Proofs.Machine.Locations
import Opstack.Proofs.Machine.News
import Opstack.Proofs.Machine.Numbering
import Opstack.Proofs.Machine.Operands
import Opstack.Proofs.Machine.Overlap
import Opstack.Proofs.Machine.Passages
import Opstack.Proofs.Machine.Placement
import Opstack.Proofs.Machine.Reading
import Opstack.Proofs.Machine.References
import Opstack.Proofs.Machine.Renaming
import Opstack.Proofs.Machine.Rest
import Opstack.Proofs.Machine.RootCause
import Opstack.Proofs.Machine.Run
import Opstack.Proofs.Machine.Sessions
import Opstack.Proofs.Machine.Simulation
import Opstack.Proofs.Machine.Slots
import Opstack.Proofs.Machine.Sole
import Opstack.Proofs.Machine.Spawning
import Opstack.Proofs.Machine.Stacked
import Opstack.Proofs.Machine.Staffing
import Opstack.Proofs.Machine.Standalone
import Opstack.Proofs.Machine.Statements
import Opstack.Proofs.Machine.Steps
import Opstack.Proofs.Machine.Termination
import Opstack.Proofs.Machine.Texts
import Opstack.Proofs.Machine.Threads
import Opstack.Proofs.Machine.Turns
import Opstack.Proofs.Machine.Underway
import Opstack.Proofs.Source.Blocks
import Opstack.Proofs.Source.Demands
import Opstack.Proofs.Source.Evaluation
import Opstack.Proofs.Source.Rules
import Opstack.Proofs.Source.VariableNames
import Opstack.Proofs.Text.Lines
import Opstack.Proofs.Text.Numerals
import Opstack.Proofs.Text.Utf8
import Opstack.Source.Scope
import Opstack.Source.Tree
import Opstack.Text.Blank
import Opstack.Text.Combining
import Opstack.Text.Graphic
import Opstack.Text.Numeral
import Opstack.Text.Quoted
import Opstack.Text.Utf8
import Opstack.Transcript
import Opstack.Value.Basic
import Opstack.Value.Operations
