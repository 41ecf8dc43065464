/-
**The nodes of a tree, one after the other.**

Reading a source finishes the nodes of its tree in a fixed order: an expression after its parts, a
statement after its expression. The lists below hold the nodes in that order.

* `Nodes` — the statements and expressions of a tree;
* `Expr.collect`, `Statement.collect` — add the nodes of a part to the lists;
* `Program.nodes` — **all statements and expressions of a program**, innermost first;
* `Expr.kindName`, `Statement.kindName` — how nodes are called.
-/

import Smalltalk.Tree.Basic

namespace Smalltalk

variable {β : Type}

/-! ### How nodes are called -/

def Expr.kindName : Expr β → String
  | .array .. => "Array"
  | .block .. => "Block"
  | .group .. => "Group"
  | .literal .. => "Literal"
  | .unary .. => "Unary"
  | .binary .. => "Binary"
  | .keyword .. => "Keyword"
  | .super .. => "Super"
  | .variable .. => "Variable"
  | .invalid .. => "Invalid"

def Statement.kindName : Statement β → String
  | .assignment .. => "Assignment"
  | .answer .. => "Return"
  | .expression .. => "Expression"

/-! ### Collecting nodes -/

/-- Statements and expressions, each list in the order in which the nodes were finished. -/
structure Nodes (β : Type) where
  statements : Array (Statement β)
  expressions : Array (Expr β)

namespace Nodes

def addExpr (nodes : Nodes β) (e : Expr β) : Nodes β :=
  { nodes with expressions := nodes.expressions.push e }

def addStatement (nodes : Nodes β) (s : Statement β) : Nodes β :=
  { nodes with statements := nodes.statements.push s }

end Nodes

mutual

/-- Add the nodes of an expression: those of its parts, then itself. -/
def Expr.collect (nodes : Nodes β) (e : Expr β) : Nodes β :=
  match e with
  | .array _ items _ => (Expr.collectAll nodes items).addExpr e
  | .block _ _ _ statements _ _ => (Statement.collectAll nodes statements).addExpr e
  | .group _ inner _ => (inner.collect nodes).addExpr e
  | .unary receiver _ => (receiver.collect nodes).addExpr e
  | .binary receiver _ argument => (argument.collect (receiver.collect nodes)).addExpr e
  | .keyword receiver _ arguments =>
    (Expr.collectAll (receiver.collect nodes) arguments).addExpr e
  | .literal .. | .super .. | .variable .. | .invalid .. => nodes.addExpr e

def Expr.collectAll (nodes : Nodes β) : List (Expr β) → Nodes β
  | [] => nodes
  | e :: es => Expr.collectAll (e.collect nodes) es

/-- Add the nodes of a statement: those of its expression, then itself. -/
def Statement.collect (nodes : Nodes β) (s : Statement β) : Nodes β :=
  match s with
  | .assignment _ value => (value.collect nodes).addStatement s
  | .answer _ value => (value.collect nodes).addStatement s
  | .expression value => (value.collect nodes).addStatement s

def Statement.collectAll (nodes : Nodes β) : List (Statement β) → Nodes β
  | [] => nodes
  | s :: ss => Statement.collectAll (s.collect nodes) ss

end

def MethodDef.collect (nodes : Nodes β) (m : MethodDef β) : Nodes β :=
  match m.body with
  | .code body => Statement.collectAll nodes body.statements
  | .primitive _ => nodes

namespace Program

def methods (p : Program) : List (MethodDef Unit) := p.classes.flatMap ClassDef.methods

/-- **All statements and expressions of a program**, those of the classes first. -/
def nodes (p : Program) : Nodes Unit :=
  Statement.collectAll (p.methods.foldl MethodDef.collect ⟨#[], #[]⟩) p.main.statements

end Program

end Smalltalk
