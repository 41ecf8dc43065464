/-
**Evaluating a source.**

* `ProgramError` — what can be wrong with a source;
* `evaluate` — **the answer of a source**.
-/

import Smalltalk.Compile.Program
import Smalltalk.Machine.Run

namespace Smalltalk

inductive ProgramError where
  | syntactic (errors : List SyntaxError)
  | semantic (errors : List CompileError)
  | runtime (error : RuntimeError)
deriving Inhabited

def ProgramError.message : ProgramError → String
  | syntactic errors => "\n".intercalate (errors.map SyntaxError.message)
  | semantic errors => "\n".intercalate (errors.map CompileError.message)
  | runtime error => error.fault.message

def Compilation.machine (c : Compilation) : Machine := Machine.new (ClassTable.ofSymbols c.table)

/-- **The answer of a source**, compiled with the standard classes and run in at most `n` steps,
and the store that the answer lives in. -/
def evaluate (n : Nat) (source : String) : Option (Except ProgramError (Value × Store)) :=
  let p := Program.parse source
  if !p.isValid then some (.error (.syntactic p.errors))
  else
    let c := Compilation.ofPrograms .usual [p]
    if !c.isValid then some (.error (.semantic c.errors.toList))
    else
      match c.machine.run n mainClass with
      | none => none
      | some (.ok v, m) => some (.ok (v, m.store))
      | some (.error e, _) => some (.error (.runtime e))

end Smalltalk
