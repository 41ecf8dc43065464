/-
**Compiling programs.**

Several programs can be compiled one after the other into one table of names. Each is compiled in
three rounds: all its names are declared, then all its assignments are checked, and then the code
of every method that has not failed is written. A mistake in one method does not keep the others
from getting their code.

* `CompileOptions` — what can be chosen;
* `Compilation` — **the names, the code and the mistakes** of what was compiled;
* `Compilation.start` — the standard classes, or nothing;
* `Compilation.add` — **compile one more program**.
-/

import Smalltalk.Compile.Check
import Smalltalk.Compile.Emit
import Smalltalk.Compile.Standard

namespace Smalltalk

structure CompileOptions where
  /-- The name of the file, which is shown in tracebacks. -/
  fileName : String
  marks : Bool
  standard : Bool
deriving DecidableEq, Repr

namespace CompileOptions

def usual : CompileOptions := ⟨"main.st", true, true⟩

instance : Inhabited CompileOptions := ⟨usual⟩

end CompileOptions

/-- **What was compiled.** -/
structure Compilation where
  /-- The scopes and symbols, and the code of the methods. -/
  table : SymbolTable
  errors : Array CompileError
deriving Inhabited

namespace Compilation

def isValid (c : Compilation) : Bool := c.errors.isEmpty

/-- Check the assignments of some methods. -/
def check (table : SymbolTable) (found : Findings) (jobs : List Job) : Findings :=
  jobs.foldl (fun found job => table.checkStatements job.scope found job.body.statements) found

/-- Write the code of a method, unless it has failed. A mistake that ends the writing is kept. -/
def write (context : CodeContext) (failed : List ScopeId) (c : Compilation) (job : Job) :
    Compilation :=
  let ⟨table, errors⟩ := c
  if job.scope ∈ failed then ⟨table, errors⟩
  else
    match context.methodCode job with
    | .ok code => ⟨table.setCode job.scope code, errors⟩
    | .error e => ⟨table, errors.push e⟩

def addFile (c : Compilation) (marks : Bool) (fileName : String) (p : Program) : Compilation :=
  let ⟨table, errors⟩ := c
  let (jobs, ⟨table, errors, failed⟩) := Declaring.declareProgram p ⟨table, errors, []⟩
  let found := check table ⟨errors, failed⟩ jobs.toList
  let context := ⟨table, Lines.ofSource p.source, fileName, marks⟩
  jobs.toList.foldl (write context found.failed) ⟨table, found.errors⟩

/-- What there is before the first program. -/
def start (options : CompileOptions) : Compilation :=
  let nothing : Compilation := ⟨SymbolTable.new, #[]⟩
  if options.standard then nothing.addFile options.marks Standard.fileName Standard.program
  else nothing

/-- **Compile one more program.** -/
def add (options : CompileOptions) (c : Compilation) (p : Program) : Compilation :=
  c.addFile options.marks options.fileName p

def ofPrograms (options : CompileOptions) (programs : List Program) : Compilation :=
  programs.foldl (add options) (start options)

end Compilation

end Smalltalk
