/-
**Lines of source code in a frame.**

* `displayName` — the name under which a file is shown;
* `codeFrame` — **the lines of a span**, numbered and in a frame.
-/

import Smalltalk.Report.Highlight
import Smalltalk.Source.Lines

namespace Smalltalk

/-- The name under which a file is shown; a dash stands for the standard input. -/
def displayName (file : String) : String := if file = "-" then "STDIN" else file

def alignRight (width : Nat) (text : String) : String := blanks (width - text.length) ++ text

/-- The lines of a text, without their ends; `line` is the one being read and `done` are those
before, both backwards. -/
def splitLines (done : List String) (line : List Char) : List Char → List String
  | [] => (String.ofList line.reverse :: done).reverse
  | '\n' :: cs => splitLines (String.ofList line.reverse :: done) [] cs
  | c :: cs => splitLines done (c :: line) cs

def trimLineEnd (line : String) : String :=
  String.ofList (line.toList.reverse.dropWhile (· = '\r')).reverse

def frameLine (number : Nat) (line : String) : StyledText :=
  let text := trimLineEnd line
  [(.normal, alignRight 3 (toString number) ++ " "), (.dimmed, "│")]
    ++ (if text.isEmpty then [] else [(.normal, " ")]) ++ highlight text ++ [(.normal, "\n")]

/-- **The lines of a span**, numbered and in a frame that says where they are from. -/
def codeFrame (title source : String) (span : Span) : StyledText :=
  let lines := Lines.ofSource source
  let first := max (lines.first span) 1
  let last := max (lines.last span) first
  let shown : Span := ⟨(lines.lineSpan first).start, (lines.lineSpan last).stop⟩
  let numbered := (List.range' first (last + 1 - first)).zip
    (splitLines [] [] (shown.text source).toList)
  [(.normal, "    "), (.dimmed, "╭─["), (.normal, displayName title), (.dimmed, ":"),
      (.normal, toString first), (.dimmed, "]"), (.normal, "\n")]
    ++ numbered.flatMap (fun (number, line) => frameLine number line) ++ [(.dimmed, "────╯")]

end Smalltalk
