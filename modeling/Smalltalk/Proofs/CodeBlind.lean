/-
**Declarations do not look at code.**

The table of symbols keeps the code of methods that were compiled before, but nothing that is
declared later depends on it: declaring something in a table and then forgetting the code is the
same as forgetting the code first.

* `SymbolTable.withoutCode` — **forget all code**;
* `SymbolTable.declare_withoutCode`, `declareMethod_withoutCode`, `declareBlock_withoutCode` — **what
  is declared does not depend on code**.
-/

import Smalltalk.Compile.Program
import Smalltalk.Proofs.Tables
import Smalltalk.Proofs.Trees

namespace Smalltalk

/-- Forget the code of a scope. -/
def Scope.withoutCode (s : Scope) : Scope := { s with code := none }

namespace SymbolTable

/-- **Forget the code of all methods.** -/
def withoutCode (t : SymbolTable) : SymbolTable :=
  { t with scopes := t.scopes.map Scope.withoutCode }

variable (t : SymbolTable)

/-! ### Parts of tables -/

@[simp] theorem scope_withoutCode (id : ScopeId) :
    t.withoutCode.scope id = (t.scope id).withoutCode := by
  simp only [scope, withoutCode, Array.getD_eq_getD_getElem?, Array.getElem?_map]
  cases t.scopes[id]? <;> rfl

@[simp] theorem symbol_withoutCode (id : SymbolId) : t.withoutCode.symbol id = t.symbol id := rfl

@[simp] theorem size_scopes_withoutCode : t.withoutCode.scopes.size = t.scopes.size := by
  simp [withoutCode]

@[simp] theorem symbols_withoutCode : t.withoutCode.symbols = t.symbols := rfl

theorem modifyScope_withoutCode (id : ScopeId) (f g : Scope → Scope)
    (h : ∀ s, (f s).withoutCode = g s.withoutCode) :
    (t.modifyScope id f).withoutCode = t.withoutCode.modifyScope id g := by
  simp only [modifyScope, withoutCode, SymbolTable.mk.injEq, and_true]
  grind

theorem setCode_withoutCode (id : ScopeId) (code : CompiledCode) :
    (t.setCode id code).withoutCode = t.withoutCode := by
  refine (t.modifyScope_withoutCode id _ (fun s => s) (by intro _; rfl)).trans ?_
  rw [modifyScope]
  congr 1
  exact Array.ext (by simp) fun i h₁ h₂ => by simp [withoutCode, Array.getElem_modify]

/-! ### Changes of tables -/

theorem addScope_withoutCode (name : String) (kind : ScopeKind) (enclosing : ScopeId) :
    t.withoutCode.addScope name kind enclosing =
      ((t.addScope name kind enclosing).1, (t.addScope name kind enclosing).2.withoutCode) := by
  simp [addScope, withoutCode, Scope.new, Scope.withoutCode]

theorem addSymbol_withoutCode (s : Symbol) (f : SymbolId → Scope → Scope)
    (h : ∀ id s, (f id s).withoutCode = f id s.withoutCode) :
    t.withoutCode.addSymbol s f = ((t.addSymbol s f).1, (t.addSymbol s f).2.withoutCode) := by
  refine Prod.ext rfl ?_
  let put (scope : Scope) : Scope :=
    f t.symbols.size { scope with symbols := scope.symbols.push t.symbols.size }
  exact (modifyScope_withoutCode ⟨t.scopes, t.symbols.push s⟩ s.scope put put fun _ => h _ _).symm

theorem addNamed_withoutCode (s : Symbol) {f : Scope → Scope}
    (h : ∀ s, (f s).withoutCode = f s.withoutCode) :
    t.withoutCode.addNamed s f = ((t.addNamed s f).1, (t.addNamed s f).2.withoutCode) := by
  let put (id : SymbolId) (scope : Scope) : Scope :=
    f { scope with names := scope.names.insert s.name id }
  exact congrArg (fun x => (Except.ok x.1, x.2)) (t.addSymbol_withoutCode s put fun _ _ => h _)

theorem declare_withoutCode (scope : ScopeId) (name : String) (kind : SymbolKind) :
    t.withoutCode.declare scope name kind =
      ((t.declare scope name kind).1, (t.declare scope name kind).2.withoutCode) := by
  simp only [declare, scope_withoutCode]
  change (if (t.scope scope).names.contains name then _ else _) = _
  split
  · rfl
  · cases kind with
    | field =>
      simp only
      change (if (t.scope scope).kind.isClass then _ else _) = _
      split
      · change (if (t.scope scope).kind.fieldCount < capacity then _ else _) = _
        split
        · exact addNamed_withoutCode _ _ fun _ => rfl
        · rfl
      · exact addNamed_withoutCode _ _ fun _ => rfl
    | argument | localVariable =>
      simp only
      change (if (t.scope scope).slotCount < capacity then _ else _) = _
      split
      · exact addNamed_withoutCode _ _ fun _ => rfl
      · rfl
    | _ => exact addNamed_withoutCode _ _ fun _ => rfl

@[simp] theorem methodMap?_withoutCode (scope : ScopeId) (classSide : Bool) :
    t.withoutCode.methodMap? scope classSide = t.methodMap? scope classSide := by
  simp only [methodMap?, scope_withoutCode]
  rfl

theorem declareMethod_withoutCode (scope : ScopeId) (selector : String) (kind : SymbolKind) :
    t.withoutCode.declareMethod scope selector kind =
      ((t.declareMethod scope selector kind).1, (t.declareMethod scope selector kind).2.withoutCode) := by
  simp only [declareMethod, methodMap?_withoutCode]
  cases t.methodMap? scope kind.isClassSide with
  | none => rfl
  | some methods =>
    simp only
    split
    · rfl
    · split
      · let put (id : SymbolId) (s : Scope) : Scope :=
          { s with kind := s.kind.addMethod kind.isClassSide selector id }
        exact congrArg (fun x => (Except.ok x.1, x.2))
          (t.addSymbol_withoutCode ⟨selector, kind, scope, methods.size⟩ put fun _ _ => rfl)
      · rfl

/-! ### Questions about names -/

@[simp] theorem outward_withoutCode (scope : ScopeId) :
    t.withoutCode.outward scope = t.outward scope := by
  simp only [outward, scope_withoutCode]
  rfl

@[simp] theorem superclass?_withoutCode (scope : ScopeId) :
    t.withoutCode.superclass? scope = t.superclass? scope := by
  simp only [superclass?, scope_withoutCode]
  rfl

@[simp] theorem lineage_withoutCode (scope : ScopeId) :
    t.withoutCode.lineage scope = t.lineage scope := by
  rw [lineage, lineage, funext t.superclass?_withoutCode]

@[simp] theorem enclosingMethod?_withoutCode (scope : ScopeId) :
    t.withoutCode.enclosingMethod? scope = t.enclosingMethod? scope := by
  simp only [enclosingMethod?, outward_withoutCode, scope_withoutCode]
  rfl

@[simp] theorem hasMethod_withoutCode (scope : ScopeId) (selector : String) (classSide : Bool) :
    t.withoutCode.hasMethod scope selector classSide = t.hasMethod scope selector classSide := by
  simp only [hasMethod, methodMap?_withoutCode]

@[simp] theorem findIn?_withoutCode (name : String) (scope : ScopeId) :
    t.withoutCode.findIn? name scope = t.findIn? name scope := by
  simp only [findIn?, lineage_withoutCode, scope_withoutCode, methodMap?_withoutCode]
  rfl

@[simp] theorem resolve?_withoutCode (scope : ScopeId) (name : String) :
    t.withoutCode.resolve? scope name = t.resolve? scope name := by
  rw [resolve?, resolve?, outward_withoutCode, funext (t.findIn?_withoutCode name)]

@[simp] theorem classNamed?_withoutCode (name : String) :
    t.withoutCode.classNamed? name = t.classNamed? name := by
  simp only [classNamed?, scope_withoutCode]
  rfl

@[simp] theorem classes_withoutCode : t.withoutCode.classes = t.classes := by
  simp only [classes, scope_withoutCode]
  rfl

@[simp] theorem methods_withoutCode (scope : ScopeId) (classSide : Bool) :
    t.withoutCode.methods scope classSide = t.methods scope classSide := by
  simp only [methods, scope_withoutCode]
  rfl

@[simp] theorem fields_withoutCode (scope : ScopeId) :
    t.withoutCode.fields scope = t.fields scope := by
  simp only [fields, lineage_withoutCode, scope_withoutCode]
  rfl

@[simp] theorem enclosingClass?_withoutCode (scope : ScopeId) :
    t.withoutCode.enclosingClass? scope = t.enclosingClass? scope := by
  simp only [enclosingClass?, outward_withoutCode, scope_withoutCode]
  rfl

@[simp] theorem depth?_withoutCode (start stop : ScopeId) :
    t.withoutCode.depth? start stop = t.depth? start stop := by
  simp only [depth?, outward_withoutCode, scope_withoutCode]
  rfl

@[simp] theorem qualifiedName_withoutCode (scope : ScopeId) :
    t.withoutCode.qualifiedName scope = t.qualifiedName scope := by
  simp only [qualifiedName, outward_withoutCode, scope_withoutCode]
  rfl

theorem declareBlock_withoutCode (enclosing : ScopeId) :
    t.withoutCode.declareBlock enclosing =
      ((t.declareBlock enclosing).1, (t.declareBlock enclosing).2.1,
        (t.declareBlock enclosing).2.2.withoutCode) := by
  have hmethod : t.withoutCode.blockMethod enclosing = t.blockMethod enclosing := by
    simp only [blockMethod, enclosingMethod?_withoutCode]
  have hindex : t.withoutCode.blockIndex enclosing = t.blockIndex enclosing := by
    simp only [blockIndex, hmethod, scope_withoutCode]
    rfl
  have hopen : t.withoutCode.openBlock enclosing = (t.openBlock enclosing).withoutCode := by
    rw [openBlock, openBlock, hmethod, hindex, ← modifyScope_withoutCode t _ countBlock _ fun _ => rfl,
      addScope_withoutCode]
  rw [declareBlock_eq, declareBlock_eq, hopen, hindex, size_scopes_withoutCode,
    addSymbol_withoutCode _ _ (fun _ s => s) fun _ _ => rfl]
  rfl

end SymbolTable

end Smalltalk
