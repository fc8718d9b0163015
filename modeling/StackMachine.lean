import StackMachine.Assembly.Error
import StackMachine.Assembly.Layout
import StackMachine.Assembly.Line
import StackMachine.Assembly.Operand
import StackMachine.Builtin.Basic
import StackMachine.Builtin.Registry
import StackMachine.CallStack
import StackMachine.CommandLine.Command
import StackMachine.CommandLine.Files
import StackMachine.CommandLine.Session
import StackMachine.Config.Basic
import StackMachine.Config.Json
import StackMachine.Debugger.Basic
import StackMachine.Debugger.Breakpoint
import StackMachine.Debugger.Json
import StackMachine.Debugger.Trace
import StackMachine.Debugger.Watch
import StackMachine.Execution.Flow
import StackMachine.Execution.Step
import StackMachine.Fault
import StackMachine.Handlers
import StackMachine.Heap.Basic
import StackMachine.Heap.Dump
import StackMachine.Heap.Objects
import StackMachine.Instruction
import StackMachine.Json.Document
import StackMachine.Json.Token
import StackMachine.Json.Value
import StackMachine.Machine
import StackMachine.Main
import StackMachine.Memory
import StackMachine.Opcode
import StackMachine.OperandStack
import StackMachine.Program.Basic
import StackMachine.Program.Draft
import StackMachine.Program.Json
import StackMachine.Program.Listing
import StackMachine.Proofs.Action
import StackMachine.Proofs.Assembly.Definite
import StackMachine.Proofs.Assembly.Drafts
import StackMachine.Proofs.Assembly.Editing
import StackMachine.Proofs.Assembly.Emission
import StackMachine.Proofs.Assembly.FirstError
import StackMachine.Proofs.Assembly.Grammar
import StackMachine.Proofs.Assembly.Layout
import StackMachine.Proofs.Assembly.Lines
import StackMachine.Proofs.Assembly.Operands
import StackMachine.Proofs.Assembly.Reassembly
import StackMachine.Proofs.Assembly.Renumbering
import StackMachine.Proofs.Assembly.Writing
import StackMachine.Proofs.Bounds
import StackMachine.Proofs.CommandLine.Independence
import StackMachine.Proofs.Config.Json
import StackMachine.Proofs.Debugger.Breakpoints
import StackMachine.Proofs.Debugger.Watches
import StackMachine.Proofs.Draft.Requests
import StackMachine.Proofs.Draft.Slots
import StackMachine.Proofs.Encoding
import StackMachine.Proofs.Execution.Activation
import StackMachine.Proofs.Execution.Arithmetic
import StackMachine.Proofs.Execution.Effect
import StackMachine.Proofs.Execution.Failing
import StackMachine.Proofs.Execution.Limits
import StackMachine.Proofs.Execution.Locals
import StackMachine.Proofs.Execution.Offsets
import StackMachine.Proofs.Execution.Run
import StackMachine.Proofs.Execution.Step
import StackMachine.Proofs.Execution.Supply
import StackMachine.Proofs.Heap.Access
import StackMachine.Proofs.Heap.Bytes
import StackMachine.Proofs.Heap.Dump
import StackMachine.Proofs.Heap.Ledger
import StackMachine.Proofs.Heap.Objects
import StackMachine.Proofs.Heap.Refinement
import StackMachine.Proofs.Heap.Requests
import StackMachine.Proofs.Heap.Store
import StackMachine.Proofs.Json.Spacing
import StackMachine.Proofs.Listing
import StackMachine.Proofs.Machine.Budget
import StackMachine.Proofs.Machine.Catch
import StackMachine.Proofs.Machine.Ended
import StackMachine.Proofs.Machine.FailedStep
import StackMachine.Proofs.Machine.Failures
import StackMachine.Proofs.Machine.FirstStop
import StackMachine.Proofs.Machine.Fresh
import StackMachine.Proofs.Machine.Hits
import StackMachine.Proofs.Machine.Host
import StackMachine.Proofs.Machine.Invariant
import StackMachine.Proofs.Machine.Isolation
import StackMachine.Proofs.Machine.Landing
import StackMachine.Proofs.Machine.Log
import StackMachine.Proofs.Machine.Readings
import StackMachine.Proofs.Machine.Recording
import StackMachine.Proofs.Machine.Supply
import StackMachine.Proofs.Machine.Transparency
import StackMachine.Proofs.Machine.Turn
import StackMachine.Proofs.Machine.Unchecked
import StackMachine.Proofs.Machine.Uninterrupted
import StackMachine.Proofs.Machine.Unwinding
import StackMachine.Proofs.Machine.Watches
import StackMachine.Proofs.Machine.Widening
import StackMachine.Proofs.Program
import StackMachine.Proofs.Reading
import StackMachine.Proofs.Text.Numeral
import StackMachine.Proofs.Unchecked.Basic
import StackMachine.Proofs.Unchecked.Data
import StackMachine.Proofs.Unchecked.Step
import StackMachine.Proofs.Widening.Basic
import StackMachine.Proofs.Widening.Data
import StackMachine.Proofs.Widening.Run
import StackMachine.Proofs.Widening.State
import StackMachine.State
import StackMachine.Text.Character
import StackMachine.Text.Numeral
import StackMachine.Word
