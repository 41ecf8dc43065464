/-
**What the commands do.**

A command is given the contents of its file and answers what is to be written to the standard
output and to the standard error, and how it ends.

* `ExitStatus`, `Report` — how a command ends, and what it writes;
* `Report.standardOutput`, `Report.standardError` — where it is written;
* `Command.read` — the source in a file;
* `Command.execute` — **what a command does**.
-/

import Smalltalk.Code.Listing
import Smalltalk.CommandLine.Arguments
import Smalltalk.Evaluate
import Smalltalk.Report.Message
import Smalltalk.Report.Printable
import Smalltalk.Tree.Outline

namespace Smalltalk

/-! ### Reports -/

inductive ExitStatus where
  | success
  /-- The program ran, but stopped with an error. -/
  | failure
  | rejected
deriving DecidableEq, Repr, Inhabited

def ExitStatus.code : ExitStatus → Nat
  | success => 0
  | failure => 1
  | rejected => 2

/-- How a command ends, and what it writes, text after text. -/
structure Report where
  status : ExitStatus
  transcript : String
  output : List StyledText
  errors : List StyledText
deriving Inhabited

namespace Report

def showing (output : List StyledText) : Report := ⟨.success, "", output, []⟩

def rejecting (errors : List StyledText) : Report := ⟨.rejected, "", [], errors⟩

/-- Texts as they are written: in colours to a terminal, and otherwise only what can be printed. -/
def render (toTerminal : Bool) (texts : List StyledText) : String :=
  String.join (texts.map fun t => if toTerminal then t.coloured else t.printed)

/-- What is written to the standard output. What the program has written is left as it is. -/
def standardOutput (r : Report) (toTerminal : Bool) : String :=
  r.transcript ++ render toTerminal r.output

def standardError (r : Report) (toTerminal : Bool) : String := render toTerminal r.errors

end Report

namespace Command

/-! ### Mistakes -/

def line (t : StyledText) : StyledText := t ++ StyledText.ofString "\n"

def complaint (file source : String) (message : Message) (span : Span) : List StyledText :=
  [line message.styled, line (codeFrame file source span)]

def syntaxComplaints (file : String) (p : Program) : List StyledText :=
  p.errors.flatMap fun e => complaint file p.source e.toMessage e.span

def compileComplaints (file source : String) (errors : List CompileError) : List StyledText :=
  errors.flatMap fun e => complaint file source e.toMessage e.span

/-- The place in the program that a fault is reported at: the one of the innermost activation
whose code is from the file of the program. -/
def faultSpan? (fileName source : String) (e : RuntimeError) : Option Span :=
  let positions := e.trace.filterMap TraceEntry.position
  (positions.find? (·.file = fileName)).bind fun position =>
    ((Lines.ofSource source).offset? ⟨position.line, position.column⟩).map Span.point

/-- The fault of a run, with the code it is in and the traceback. -/
def faultComplaint (file fileName source : String) (e : RuntimeError) : List StyledText :=
  let frame := (faultSpan? fileName source e).map fun span =>
    line (line (codeFrame file source span))
  let traceback := e.traceback.map fun text => line (StyledText.ofString text)
  line e.toMessage.styled :: frame.toList ++ traceback.toList

/-! ### Reading -/

/-- **The source in a file**, of which `content` is what could be read. -/
def read (file : String) (content : Option ByteArray) : Except Message String :=
  let text := content.bind String.fromUTF8?
  if file = "-" then
    match text with
    | some text => .ok text
    | none => .error (.error "STDIN is not valid UTF-8")
  else
    match text with
    | some text =>
      if text.isEmpty then .error (.warning ("Empty file `" ++ file ++ "`")) else .ok text
    | none => .error (.error ("File not found `" ++ file ++ "`"))

def withProgram (file source : String) (k : Program → Report) : Report :=
  let p := Program.parse source
  if p.isValid then k p else .rejecting (syntaxComplaints file p)

/-- Go on with a program that is free of mistakes. -/
def withCompilation (file : String) (flags : Flags) (source : String)
    (k : Program → Compilation → Report) : Report :=
  withProgram file source fun p =>
    let c := Compilation.ofPrograms (flags.options file) [p]
    if c.isValid then k p c
    else .rejecting (compileComplaints file p.source c.errors.toList)

/-! ### Commands -/

def runProgram (n : Nat) (file : String) (p : Program) (c : Compilation) : Report :=
  match c.machine.run n mainClass with
  | none => .rejecting [line (Message.error "Too many steps").styled]
  | some (.ok v, m) =>
    ⟨.success, m.store.transcript, [line (StyledText.ofPieces (m.store.pieces v))], []⟩
  | some (.error e, m) =>
    ⟨.failure, m.store.transcript, [], faultComplaint file (displayName file) p.source e⟩

def heading (corner file : String) : StyledText :=
  StyledText.ofPieces [corner, displayName file, "]\n"]

def tokenLine (t : Token) : StyledText :=
  let length := if t.kind.isFixed then "" else " (length: " ++ toString t.length ++ ")"
  StyledText.ofString
    (alignRight 3 (toString t.start) ++ " │ " ++ t.kind.label ++ length ++ "\n")

def showTokens (file source : String) : Report :=
  .showing (heading "    ╭─[Tokens: " file :: (Token.scan source).map tokenLine
    ++ [StyledText.ofString "────╯\n"])

/-- The syntax tree of a source, also if there are mistakes. -/
def showTree (file source : String) : Report :=
  let p := Program.parse source
  let gap := if p.isValid then [] else [StyledText.ofString "\n"]
  let tree := [heading "╭─[Abstract Syntax Tree: " file, StyledText.ofString p.outline,
    StyledText.ofString "╯\n"]
  ⟨.success, "", gap ++ tree, syntaxComplaints file p⟩

def showCode (p : Program) (c : Compilation) : Report :=
  let codes := p.classes.flatMap fun d => c.table.codesOf d.name
  let main := (c.table.codeOf? mainClass mainMethod false).toList
  .showing ((codes ++ main).map fun code => StyledText.ofString code.listing)

/-- **What a command does**, if its file has the given content. A program is run for at most `n`
steps. -/
def execute (n : Nat) (command : Command) (content : Option ByteArray) : Report :=
  let file := command.file
  match read file content with
  | .error message => .rejecting [line message.styled]
  | .ok source =>
    match command with
    | run _ flags => withCompilation file flags source (runProgram n file)
    | tokens _ => showTokens file source
    | tree _ => showTree file source
    | code _ flags => withCompilation file flags source showCode
    | classes _ flags =>
      withCompilation file flags source fun _ c =>
        .showing [StyledText.ofString (ClassTable.ofSymbols c.table).listing]

end Command

end Smalltalk
