/-
**The command line.**

* `main` — reads the file that a command is about, and writes the report of the command.
-/

import Smalltalk.CommandLine.Execute

namespace Smalltalk

/-- More steps than any program takes. -/
def patience : Nat := 1000000000000000000

/-- All bytes of a stream, after those read before. -/
partial def readAll (stream : IO.FS.Stream) (before : ByteArray) : IO ByteArray := do
  let bytes ← stream.read 65536
  if bytes.isEmpty then return before else readAll stream (before ++ bytes)

def readContent (file : String) : IO (Option ByteArray) := do
  try
    if file = "-" then return some (← readAll (← IO.getStdin) ByteArray.empty)
    else return some (← IO.FS.readBinFile file)
  catch _ => return none

end Smalltalk

open Smalltalk in
def main (arguments : List String) : IO UInt32 := do
  match Command.ofArguments? arguments with
  | none => do
    (← IO.getStderr).putStr Command.usage
    return 2
  | some command => do
    let report := command.execute patience (← readContent command.file)
    let (output, errors) := (← IO.getStdout, ← IO.getStderr)
    output.putStr (report.standardOutput (← output.isTty))
    errors.putStr (report.standardError (← errors.isTty))
    return UInt32.ofNat report.status.code
