/-
**Trees drawn with lines.**

A program is shown as an outline: each node on a line of its own, below the node it belongs to,
and joined to it by box-drawing lines. A tree is first turned into labels with children, and the
lines are drawn from those.

* `Outline` — a label and the outlines below it;
* `Outline.draw` — **the lines of an outline**;
* `Expr.outline`, `Statement.outline` — the outline of a node;
* `Program.outline` — the text for a whole program.
-/

import Smalltalk.Number.Decimal
import Smalltalk.Tree.Basic

namespace Smalltalk

/-! ### Drawing -/

inductive Outline where
  | node (label : String) (children : List Outline)

namespace Outline

mutual

/-- Append the lines of an outline to a text. `indent` stands in front of each of them, and
`isLast` says that no sibling follows. -/
def draw (indent : String) (isLast : Bool) (text : String) : Outline → String
  | node label children =>
    let entry := if isLast then "╰─ " else "├─ "
    let below := if isLast then "   " else "│  "
    drawAll (indent ++ below) (text ++ indent ++ entry ++ label ++ "\n") children

def drawAll (indent : String) (text : String) : List Outline → String
  | [] => text
  | o :: os => drawAll indent (draw indent os.isEmpty text o) os

end

/-- Append an outline whose label is a line of its own to a text. -/
def drawRoot (text : String) : Outline → String
  | node label children => drawAll "" (text ++ label ++ "\n") children

end Outline

/-! ### Labels -/

def labelled (heading : String) (names : List Token) : String :=
  heading ++ " (" ++ " ".intercalate (names.map Token.name) ++ ")"

/-- A heading and some names in parentheses, which are left out if there are no names. -/
def labelledUnlessEmpty (heading : String) (names : List Token) : String :=
  if names.isEmpty then heading else labelled heading names

def Literal.label : Literal → String
  | nil => "Nil"
  | boolean true => "Boolean (true)"
  | boolean false => "Boolean (false)"
  | receiver => "Self"
  | integer value => "Integer (" ++ toString value.toInt ++ ")"
  | float value => "Float (" ++ value.shortest ++ ")"
  | character value => "Character ($" ++ value.toString ++ ")"
  | string value => "String '" ++ value ++ "'"
  | symbol value => "Symbol #" ++ value

/-- The outlines of local variables, which take a line together unless there are none. -/
def localsOutline (locals : List Token) : List Outline :=
  if locals.isEmpty then [] else [.node (labelled "Locals" locals) []]

variable {β : Type}

mutual

def Expr.outline : Expr β → Outline
  | .array _ items _ => .node "Array" (Expr.outlines [] items)
  | .block _ parameters locals statements _ _ =>
    .node (labelledUnlessEmpty "Block" parameters)
      (localsOutline locals ++ Statement.outlines [] statements)
  | .group _ inner _ => .node "Group" [inner.outline]
  | .literal _ _ value => .node value.label []
  | .unary receiver selector =>
    .node ("Unary Send (" ++ selector.text ++ ")") [receiver.outline]
  | .binary receiver operator argument =>
    .node ("Binary Send (" ++ operator.text ++ ")") [receiver.outline, argument.outline]
  | .keyword receiver keywords arguments =>
    .node ("Keyword Send (" ++ joinTexts keywords ++ ")")
      (receiver.outline :: Expr.outlines [] arguments)
  | .super _ => .node "Super" []
  | .variable name => .node ("Variable (" ++ name.text ++ ")") []
  | .invalid _ => .node "Invalid" []

/-- The outlines of some expressions, after those in `done`, which are kept in reverse. -/
def Expr.outlines (done : List Outline) : List (Expr β) → List Outline
  | [] => done.reverse
  | e :: es => Expr.outlines (e.outline :: done) es

/-- The outline of a statement. An expression stands for itself. -/
def Statement.outline : Statement β → Outline
  | .assignment target value => .node ("Assignment (" ++ target.name ++ ")") [value.outline]
  | .answer _ value => .node "Return" [value.outline]
  | .expression value => value.outline

/-- The outlines of some statements, after those in `done`, which are kept in reverse. -/
def Statement.outlines (done : List Outline) : List (Statement β) → List Outline
  | [] => done.reverse
  | s :: ss => Statement.outlines (s.outline :: done) ss

end

def Body.outlines (b : Body β) : List Outline :=
  localsOutline b.locals ++ Statement.outlines [] b.statements

def MethodDef.outline (m : MethodDef β) : Outline :=
  let side := if m.isClassSide then "Class Method " else "Method "
  .node (labelledUnlessEmpty (side ++ m.selector) m.parameters)
    (match m.body with
      | .code body => body.outlines
      | .primitive name => [.node ("Primitive (" ++ name.symbolText ++ ")") []])

def ClassDef.outline (c : ClassDef β) : Outline :=
  let heading :=
    match c.superclass with
    | some superclass => "Class " ++ c.name ++ " : " ++ superclass.name
    | none => "Class " ++ c.name
  let fields := if c.fields.isEmpty then [] else [Outline.node (labelled "Fields" c.fields) []]
  .node heading (fields ++ c.methods.map MethodDef.outline)

/-- **The text for a whole program**: its classes, and the top level if there is anything in it. -/
def Program.outline (p : Program) : String :=
  let classes := p.classes.foldl (fun text c => c.outline.drawRoot text) ""
  if p.hasMain then (Outline.node "Main" p.main.outlines).drawRoot classes else classes

end Smalltalk
