/-
**What can be wrong with a program that can be read.**

* `CompileError.Cause` — the kinds of mistakes;
* `CompileError` — **a mistake and its place**;
* `CompileError.title`, `CompileError.message` — how it is reported.
-/

import Smalltalk.Source.Span

namespace Smalltalk

/-- What is wrong with a program. A `scope` is the full name of the method or block that is at
fault. -/
inductive CompileError.Cause where
  | classRedefinition (className : String)
  | reservedClassName
  | unknownSuperclass (superclass className : String)
  | methodRedefinition (selector className : String)
  | redefinition (name scope : String)
  | unknownPrimitive (name scope : String)
  | unknownVariable (name scope : String)
  | notAVariable (name scope : String)
  | tooManyLiterals (scope : String)
  | tooManyVariables (scope : String)
  | tooManyItems (scope : String)
  | invalidTree (scope : String)
deriving DecidableEq, Repr, Inhabited

/-- **A mistake**, and the part of the source that is at fault. -/
structure CompileError where
  cause : CompileError.Cause
  span : Span
deriving DecidableEq, Repr, Inhabited

namespace CompileError

def title (e : CompileError) : String :=
  match e.cause with
  | .classRedefinition _ => "Class Redefinition"
  | .reservedClassName => "Reserved Class Name"
  | .unknownSuperclass _ _ => "Unknown Superclass"
  | .methodRedefinition _ _ => "Method Redefinition"
  | .redefinition _ _ => "Redefinition"
  | .unknownPrimitive _ _ => "Unknown Primitive"
  | .unknownVariable _ _ => "Unknown Variable"
  | .notAVariable _ _ => "Not A Variable"
  | .tooManyLiterals _ => "Too Many Literals"
  | .tooManyVariables _ => "Too Many Variables"
  | .tooManyItems _ => "Too Many Items"
  | .invalidTree _ => "Invalid AST"

def message (e : CompileError) : String :=
  let full (what scope : String) : String :=
    "the maximum no. of " ++ what ++ " has been reached (65536) in " ++ scope
  match e.cause with
  | .classRedefinition className => "redefinition of class " ++ className
  | .reservedClassName => "MainClass is a reserved class name"
  | .unknownSuperclass superclass className =>
    "unknown superclass " ++ superclass ++ " of " ++ className
  | .methodRedefinition selector className =>
    "redefinition of method " ++ selector ++ " in " ++ className
  | .redefinition name scope => "redefinition of " ++ name ++ " in " ++ scope
  | .unknownPrimitive name scope => "unknown primitive #" ++ name ++ " in " ++ scope
  | .unknownVariable name scope => "unknown variable " ++ name ++ " in " ++ scope
  | .notAVariable name scope => "symbol " ++ name ++ " is not a variable/argument in " ++ scope
  | .tooManyLiterals scope => full "literals" scope
  | .tooManyVariables scope => full "variables" scope
  | .tooManyItems scope => full "items" scope
  | .invalidTree scope => scope ++ " contains a syntax error, see errors from the parser"

end CompileError

end Smalltalk
