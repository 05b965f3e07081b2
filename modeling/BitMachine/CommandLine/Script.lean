import BitMachine.CommandLine.Directory

/-!
# Scripts

What a command does, as a tree of actions: it writes to the two output streams, reads and writes
files, and ends with an exit code. The same script can be carried out on the real system or, by
`Script.runIn`, on a `Directory`.
-/

namespace BitMachine

/-- A tree of actions. -/
inductive Script where
  /-- The end, with an exit code. -/
  | exit (code : Nat)
  /-- Writes to the standard output. -/
  | print (text : String) (next : Script)
  /-- Writes to the standard error stream. -/
  | report (text : String) (next : Script)
  /-- Reads a file; what follows depends on the result. -/
  | read (path : String) (next : Except FileError (List UInt8) → Script)
  /-- Writes a file; what follows depends on the result. -/
  | write (path : String) (content : List UInt8) (next : Except FileError Unit → Script)

/-- What a script leaves behind. -/
structure Outcome where
  /-- The exit code, as the system passes it on. -/
  code : Nat
  /-- Everything that was written to the standard output. -/
  output : String
  /-- Everything that was written to the standard error stream. -/
  errors : String
  /-- The files. -/
  directory : Directory

namespace Script

/-- The number of exit codes that the system can tell apart. -/
def exitCodes : Nat := 256

/-- Carries out a script on a directory. -/
def runIn (d : Directory) : Script → Outcome
  | .exit code => ⟨code % exitCodes, "", "", d⟩
  | .print text next =>
    let o := next.runIn d
    { o with output := text ++ o.output }
  | .report text next =>
    let o := next.runIn d
    { o with errors := text ++ o.errors }
  | .read path next => (next (d.read path)).runIn d
  | .write path content next =>
    match d.write path content with
    | .ok d => (next (.ok ())).runIn d
    | .error e => (next (.error e)).runIn d

/-- Writes a line to the standard output. -/
def printLine (line : String) (next : Script) : Script :=
  .print (line ++ "\n") next

/-- Writes a line to the standard error stream. -/
def reportLine (line : String) (next : Script) : Script :=
  .report (line ++ "\n") next

/-- Reports a failure and ends. -/
def fail (message : String) : Script :=
  reportLine s!"❌ {message}" (.exit 1)

end Script

end BitMachine
