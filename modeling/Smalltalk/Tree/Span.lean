/-
**The places of the nodes of a tree.**

The span of a node is the merge of the spans of its outermost tokens. Where a closing bracket is
missing, the node ends with the last part that was read.

* `Expr.span`, `Statement.span` — the places of expressions and statements;
* `MethodDef.headerSpan` — the place of a method header;
* `ClassDef.span` — the place of a class definition.
-/

import Smalltalk.Tree.Basic

namespace Smalltalk

variable {β : Type}

mutual

def Expr.span : Expr β → Span
  | .array opening items closing =>
    match closing with
    | some closing => opening.span.merge closing.span
    | none => opening.span.merge (Expr.lastSpan Span.missing items)
  | .block opening _ _ _ closing _ =>
    match closing with
    | some closing => opening.span.merge closing.span
    | none => opening.span
  | .group opening inner closing =>
    match closing with
    | some closing => opening.span.merge closing.span
    | none => opening.span.merge inner.span
  | .literal first last _ => first.span.merge last.span
  | .unary receiver selector => receiver.span.merge selector.span
  | .binary receiver _ argument => receiver.span.merge argument.span
  | .keyword receiver _ arguments => Expr.mergeSpans receiver.span arguments
  | .super word => word.span
  | .variable name => name.span
  | .invalid found => found.span

/-- The span of the last of some expressions, and a given span if there is none. -/
def Expr.lastSpan (given : Span) : List (Expr β) → Span
  | [] => given
  | e :: es => Expr.lastSpan e.span es

/-- A span merged with the spans of some expressions, one after the other. -/
def Expr.mergeSpans (span : Span) : List (Expr β) → Span
  | [] => span
  | e :: es => Expr.mergeSpans (span.merge e.span) es

end

def Statement.span : Statement β → Span
  | .assignment target value => target.span.merge value.span
  | .answer caret value => caret.span.merge value.span
  | .expression value => value.span

/-- The span of a method header, from the word `class` or the first token of the signature to the
last. -/
def MethodDef.headerSpan (m : MethodDef β) : Span :=
  let signature :=
    match m.signature with
    | .unary name => name.span
    | .binary operator parameter => operator.span.merge parameter.span
    | .keyword parts =>
      parts.foldl (fun span part => (span.merge part.1.span).merge part.2.span) Span.missing
  match m.classWord with
  | some word => word.span.merge signature
  | none => signature

/-- The span of a class definition. Without a closing bracket it ends with the name. -/
def ClassDef.span (c : ClassDef β) : Span :=
  match c.closing with
  | some closing => c.word.span.merge closing.span
  | none => c.word.span.merge c.nameToken.span

end Smalltalk
