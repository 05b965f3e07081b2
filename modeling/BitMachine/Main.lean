import BitMachine.CommandLine.Commands

/-!
# The program

Carries out the script of the command line on the real system.
-/

namespace BitMachine

/-- The file error that a system error stands for. -/
def fileErrorOf : IO.Error → FileError
  | .noFileOrDirectory .. => .notFound
  | .noSuchThing .. => .notFound
  | .inappropriateType _ 20 _ => .notADirectory
  | .inappropriateType .. => .isADirectory
  | .invalidArgument _ 36 _ => .nameTooLong
  | e => .other (toString e)

/-- Carries out a script, and yields the exit code. -/
def Script.carryOut : Script → IO UInt32
  | .exit code => return UInt32.ofNat (code % Script.exitCodes)
  | .print text next => do
    IO.print text
    (← IO.getStdout).flush
    next.carryOut
  | .report text next => do
    IO.eprint text
    next.carryOut
  | .read path next => do
    let content ←
      try pure (Except.ok (← IO.FS.readBinFile path).toList)
      catch e => pure (Except.error (fileErrorOf e))
    (next content).carryOut
  | .write path content next => do
    let result ←
      try pure (Except.ok (← IO.FS.writeBinFile path ⟨content.toArray⟩))
      catch e => pure (Except.error (fileErrorOf e))
    (next result).carryOut

end BitMachine

/-- Runs the command line. -/
def main (args : List String) : IO UInt32 :=
  (BitMachine.commandLine args).carryOut
