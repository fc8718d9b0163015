import StackMachine.Assembly.Layout
import StackMachine.CommandLine.Command
import StackMachine.CommandLine.Files
import StackMachine.Config.Json
import StackMachine.Debugger.Json
import StackMachine.Heap.Dump
import StackMachine.Machine
import StackMachine.Program.Json
import StackMachine.Program.Listing

set_option autoImplicit false

/-! # Carrying out commands

A command that runs a program becomes a session. At each pause the session logs a line of JSON
and goes on; when the program halts it prints the output. `Session.advance` carries a session
on for a number of turns, so that a run that does not end can be carried on forever.
-/

namespace StackMachine.CommandLine

open Json (Value)

/-- What a finished command prints, and its exit code. -/
structure Report where
  exitCode : Nat := 0
  output : String := ""
  log : String := ""
  deriving DecidableEq, Repr

/-- Why a command cannot be carried out. -/
inductive Problem where
  | unreadableFile (path : String) (error : FileError)
  | invalidAssembly (error : Assembly.Error)
  | invalidProgramFile
  | unreadableConfig (error : FileError)
  | invalidConfig (error : Config.Error)
  | failed (failure : Failure)
  deriving DecidableEq, Repr

/-- The wording of a problem. -/
def Problem.message : Problem → String
  | unreadableFile path error => s!"{path}: {error.message}"
  | invalidAssembly error => error.message
  | invalidProgramFile => "invalid bytecode file: expected a JSON array of 32-bit integers"
  | unreadableConfig error => s!"Failed to read config: {error.message}"
  | invalidConfig .unreadable => "Failed to parse config: expected a JSON object of limits"
  | invalidConfig (.invalid problem) => problem.message
  | failed failure => failure.message

/-- The report of a command that ends with a problem. -/
def Problem.report (problem : Problem) (log : String) : Report where
  exitCode := 1
  log := log ++ s!"error: {problem.message}\n"

/-- A run in progress: the machine, the part of the heap to show at each pause, and what was
logged so far. -/
structure Session where
  machine : Machine
  dumpHeap : Option (Word × Nat)
  log : String := ""

/-- Where a command stands. -/
inductive Progress where
  | running (session : Session)
  | finished (report : Report)

/-- Read the configuration of a run. -/
def readConfig (read : Reader) (options : RunOptions) : Except Problem Config := do
  let config ←
    match options.config with
    | none => pure {}
    | some path =>
      let text ← (read path).mapError .unreadableConfig
      (Config.parse text).mapError .invalidConfig
  return if options.trace then { config with traceInstructions := true } else config

/-- Read a program: JSON if the extension of the path says so, and assembly text otherwise. -/
def readProgram (read : Reader) (path : String) : Except Problem Program := do
  let text ← (read path).mapError (.unreadableFile path)
  if isJsonPath path then
    match Program.parseJson? text with
    | some code => return code
    | none => throw .invalidProgramFile
  else (Assembly.assemble text).mapError .invalidAssembly

/-- The debugger settings that the options of a run ask for. -/
def RunOptions.debugger (options : RunOptions) (d : Debugger) : Debugger :=
  let globals := options.watchGlobals.map fun w => Watch.mk s!"global[{w.text}]" .globalSlot w
  let locals := options.watchLocals.map fun w => Watch.mk s!"local[{w.text}]" .frameSlot w
  { d with
    breakpoints := options.breakpoints.foldl BreakpointTable.set d.breakpoints
    watches := (globals ++ locals).foldl WatchList.add d.watches
    pauseOnException := options.pauseOnException }

/-- The machine of a run before its first instruction. -/
def prepare (read : Reader) (file : String) (options : RunOptions) : Except Problem Machine := do
  let config ← readConfig read options
  let machine ← (Machine.create config).mapError fun p => .invalidConfig (.invalid p)
  let machine := (machine.load (← readProgram read file)).provideInput options.inputs
  return { machine with debugger := options.debugger machine.debugger }

namespace Session

/-- Log the part of the heap to show. -/
def logHeap (s : Session) : Session :=
  match s.dumpHeap with
  | none => s
  | some (address, size) =>
    match s.machine.state.heap.dump address size with
    | .ok text => { s with log := s.log ++ text }
    | .error fault => { s with log := s.log ++ s!"heap dump: {fault.message}\n" }

/-- The line that is logged at a pause. -/
def pauseLine (m : Machine) (record : Record) : String :=
  let watches := m.evaluateWatches.map fun (watch, value) => watch.toJson value
  let line : Value :=
    .object
      [("pause", record.toJson), ("stack_trace", .ofNats m.stackTrace), ("watches", .array watches)]
  line.sorted.compact ++ "\n"

/-- Log a pause. -/
def logPause (s : Session) (record : Record) : Session :=
  { s with log := s.log ++ pauseLine s.machine record }.logHeap

/-- The lines of the trace, if instructions were traced. -/
def traceLines (m : Machine) : String :=
  if m.config.traceInstructions then
    String.join (m.debugger.trace.records.map fun record => record.toJson.compact ++ "\n")
  else ""

/-- The report of a run that halted with an output. -/
def halted (s : Session) (output : Array Word) : Report where
  output := String.join (output.toList.map fun w => w.text ++ "\n")
  log := s.logHeap.log ++ traceLines s.machine

/-- Act on the outcome of a call: finish, or log a pause and go on. -/
def react (s : Session) : Outcome → Progress
  | .halted output => .finished (s.halted output)
  | .failed failure => .finished ((Problem.failed failure).report s.log)
  | .paused record =>
    let s := s.logPause record
    match s.machine.begin .proceed with
    | (some failure, _) => .finished ((Problem.failed failure).report s.log)
    | (none, machine) => .running { s with machine }

/-- Take one turn. -/
def turn : Session → Progress
  | ⟨machine, dumpHeap, log⟩ =>
    match machine.turn with
    | (none, machine) => .running ⟨machine, dumpHeap, log⟩
    | (some outcome, machine) => react ⟨machine, dumpHeap, log⟩ outcome

/-- Take at most `turns` turns. -/
def advance : Nat → Session → Progress
  | 0, s => .running s
  | turns + 1, s =>
    match s.turn with
    | .running s => advance turns s
    | .finished report => .finished report

end Session

/-- Start a run. -/
def startRun (read : Reader) (file : String) (options : RunOptions) : Progress :=
  match prepare read file options with
  | .error problem => .finished (problem.report "")
  | .ok machine =>
    match machine.begin .start with
    | (some failure, _) => .finished ((Problem.failed failure).report "")
    | (none, machine) => .running { machine, dumpHeap := options.dumpHeap }

/-- The name and the version of the program. -/
def versionLine : String := "bytevm 0.0.1\n"

/-- Start carrying out a command. -/
def Command.start (read : Reader) : Command → Progress
  | .version => .finished { output := versionLine }
  | .run file options => startRun read file options
  | .disassemble file =>
    match readProgram read file with
    | .error problem => .finished (problem.report "")
    | .ok code => .finished { output := code.listing }

end StackMachine.CommandLine
