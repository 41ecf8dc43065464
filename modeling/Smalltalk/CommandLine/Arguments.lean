/-
**The arguments of the command line.**

A command is `run`, or `print` and what is to be printed, followed by a file and by flags in any
order. A dash as the file stands for the standard input, and two dashes end the flags.

* `Flags` — what the flags switch off;
* `Command` — **what the user asks for**;
* `Command.ofArguments?` — **the command that some arguments ask for**.
-/

import Smalltalk.Compile.Program
import Smalltalk.Report.CodeFrame

namespace Smalltalk

structure Flags where
  noMarks : Bool
  noStandard : Bool
deriving DecidableEq, Repr, Inhabited

def Flags.options (flags : Flags) (file : String) : CompileOptions :=
  ⟨displayName file, !flags.noMarks, !flags.noStandard⟩

/-- **What the user asks for.** -/
inductive Command where
  | run (file : String) (flags : Flags)
  | tokens (file : String)
  | tree (file : String)
  | code (file : String) (flags : Flags)
  | classes (file : String) (flags : Flags)
deriving DecidableEq, Repr, Inhabited

namespace Command

def file : Command → String
  | run file _ | tokens file | tree file | code file _ | classes file _ => file

/-- The file and the flags among some arguments, if there is one file and no flag twice. Flags are
only read as such while `reading`. -/
def fileAndFlags? (takesFlags : Bool) :
    List String → Bool → Option String → Flags → Option (String × Flags)
  | [], _, file, flags => file.map (·, flags)
  | argument :: rest, reading, file, flags =>
    if reading && argument = "--" then fileAndFlags? takesFlags rest false file flags
    else if reading && takesFlags && argument = "--no-debug" && !flags.noMarks then
      fileAndFlags? takesFlags rest reading file { flags with noMarks := true }
    else if reading && takesFlags && argument = "--no-image" && !flags.noStandard then
      fileAndFlags? takesFlags rest reading file { flags with noStandard := true }
    else if reading && argument.startsWith "-" && argument ≠ "-" then none
    else if file.isSome then none
    else fileAndFlags? takesFlags rest reading (some argument) flags

def withFlags? (arguments : List String) : Option (String × Flags) :=
  fileAndFlags? true arguments true none ⟨false, false⟩

def withoutFlags? (arguments : List String) : Option String :=
  (fileAndFlags? false arguments true none ⟨false, false⟩).map Prod.fst

/-- **The command that some arguments ask for.** -/
def ofArguments? : List String → Option Command
  | "run" :: rest => (withFlags? rest).map fun (file, flags) => run file flags
  | "print" :: "tokens" :: rest => (withoutFlags? rest).map tokens
  | "print" :: "ast" :: rest => (withoutFlags? rest).map tree
  | "print" :: "bytecode" :: rest => (withFlags? rest).map fun (file, flags) => code file flags
  | "print" :: "classes" :: rest => (withFlags? rest).map fun (file, flags) => classes file flags
  | _ => none

def usage : String :=
  "usage: smalltalk run <file> [--no-debug] [--no-image]\n"
    ++ "       smalltalk print tokens|ast <file>\n"
    ++ "       smalltalk print bytecode|classes <file> [--no-debug] [--no-image]\n"

end Command

end Smalltalk
