/-
**Checking the assignments of a method.**

A name that is only read may be a global that is looked up when the program runs, but a name that
is assigned to must be a variable in scope.

* `SymbolTable.assignmentError?` — what is wrong with an assignment;
* `Findings` — the mistakes so far, and the methods that have failed;
* `SymbolTable.checkExpr`, `checkStatement` — **check the assignments of a tree**.
-/

import Smalltalk.Compile.Error
import Smalltalk.Scope.Lookup
import Smalltalk.Tree.Basic

namespace Smalltalk

/-- The mistakes that were found, and the methods that have failed. -/
structure Findings where
  errors : Array CompileError
  failed : List ScopeId

namespace SymbolTable

def assignmentError? (t : SymbolTable) (scope : ScopeId) (target : Token) :
    Option CompileError :=
  match t.resolve? scope target.name with
  | some id =>
    if (t.symbol id).kind.isVariable then none
    else some ⟨.notAVariable target.name (t.qualifiedName scope), target.span⟩
  | none => some ⟨.unknownVariable target.name (t.qualifiedName scope), target.span⟩

/-- Check an assignment. The method of a wrong one has failed. -/
def checkTarget (t : SymbolTable) (found : Findings) (scope : ScopeId) (target : Token) :
    Findings :=
  match t.assignmentError? scope target with
  | some e => ⟨found.errors.push e, t.fail found.failed scope⟩
  | none => found

mutual

/-- **Check the assignments of an expression**, after what was found before. -/
def checkExpr (t : SymbolTable) (scope : ScopeId) (found : Findings) : Expr ScopeId → Findings
  | .array _ items _ => checkExprs t scope found items
  | .block _ _ _ statements _ body => checkStatements t body found statements
  | .group _ inner _ => checkExpr t scope found inner
  | .unary receiver _ => checkExpr t scope found receiver
  | .binary receiver _ argument => checkExpr t scope (checkExpr t scope found receiver) argument
  | .keyword receiver _ arguments => checkExprs t scope (checkExpr t scope found receiver) arguments
  | .literal _ _ _ | .super _ | .variable _ | .invalid _ => found

def checkExprs (t : SymbolTable) (scope : ScopeId) (found : Findings) :
    List (Expr ScopeId) → Findings
  | [] => found
  | e :: es => checkExprs t scope (checkExpr t scope found e) es

/-- Check the assignments of a statement. The value comes before the target. -/
def checkStatement (t : SymbolTable) (scope : ScopeId) (found : Findings) :
    Statement ScopeId → Findings
  | .assignment target value => t.checkTarget (checkExpr t scope found value) scope target
  | .answer _ value => checkExpr t scope found value
  | .expression value => checkExpr t scope found value

def checkStatements (t : SymbolTable) (scope : ScopeId) (found : Findings) :
    List (Statement ScopeId) → Findings
  | [] => found
  | s :: ss => checkStatements t scope (checkStatement t scope found s) ss

end

end SymbolTable

end Smalltalk
