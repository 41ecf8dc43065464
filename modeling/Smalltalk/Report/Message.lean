/-
**Messages to the user.**

* `Message` — a title, perhaps with a body, and how serious it is;
* `Message.styled` — **how a message is shown**;
* `SyntaxError.toMessage`, `CompileError.toMessage`,
  `RuntimeError.toMessage` — the messages of all kinds of mistakes.
-/

import Smalltalk.Compile.Error
import Smalltalk.Machine.Fault
import Smalltalk.Report.Style
import Smalltalk.Tree.Basic

namespace Smalltalk

inductive Severity where
  | error
  | warning
deriving DecidableEq, Repr, Inhabited

def Severity.label : Severity → Style × String
  | error => (.boldRed, "✕ Error")
  | warning => (.boldYellow, "⚠ Warning")

structure Message where
  title : String
  body : String
  severity : Severity
deriving DecidableEq, Repr, Inhabited

namespace Message

def error (title : String) : Message := ⟨title, "", .error⟩

def warning (title : String) : Message := ⟨title, "", .warning⟩

/-- **How a message is shown**: a line for the title, and the body if there is one. -/
def styled (m : Message) : StyledText :=
  [m.severity.label, (.bold, ":"), (.normal, " "), (.bold, m.title), (.normal, "\n")]
    ++ if m.body.isEmpty then [] else [(.normal, m.body ++ "\n")]

end Message

def SyntaxError.toMessage (e : SyntaxError) : Message := ⟨e.title, e.message, .error⟩

def CompileError.toMessage (e : CompileError) : Message := ⟨e.title, e.message, .error⟩

def RuntimeError.toMessage (e : RuntimeError) : Message :=
  ⟨e.fault.title, e.fault.message, .error⟩

end Smalltalk
