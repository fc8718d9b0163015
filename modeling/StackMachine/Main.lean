import StackMachine.CommandLine.Session

set_option autoImplicit false

/-! # The program

Reads the files a command names, carries the command out, and prints its report.
-/

namespace StackMachine.CommandLine

/-- The paths of the files a command reads. -/
def Command.paths : Command → List String
  | .version => []
  | .run file options => options.config.toList ++ [file]
  | .disassemble file => [file]

/-- The file error for an error of the system. -/
def FileError.ofIO : IO.Error → FileError
  | .noFileOrDirectory .. | .noSuchThing .. => .notFound
  | .permissionDenied .. => .permissionDenied
  | .inappropriateType _ code _ => if code = 21 then .isADirectory else .notADirectory
  | .invalidArgument .. => .nameTooLong
  | error => .other (toString error)

/-- Read a file. -/
def readFile (path : String) : IO (Except FileError String) := do
  try
    let bytes ← IO.FS.readBinFile path
    match String.fromUTF8? bytes with
    | some text => return .ok text
    | none => return .error .notText
  catch error => return .error (.ofIO error)

/-- Carry a command on until it is finished. -/
partial def finish : Progress → IO Report
  | .finished report => return report
  | .running session => finish (session.advance 100000)

end StackMachine.CommandLine

open StackMachine.CommandLine in
/-- Carry out the command that the arguments give. -/
def main (args : List String) : IO UInt32 := do
  match Command.parse? args with
  | none =>
    IO.eprintln "usage: bytevm run FILE [OPTIONS] | bytevm disasm FILE | bytevm --version"
    return 2
  | some command =>
    let files ← command.paths.mapM fun path => do return (path, ← readFile path)
    let read : Reader := fun path => (files.lookup path).getD (.error .notFound)
    let report ← finish (command.start read)
    IO.eprint report.log
    IO.print report.output
    return UInt32.ofNat report.exitCode
