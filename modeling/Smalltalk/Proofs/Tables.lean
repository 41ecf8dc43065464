/-
**What changes when something is declared.**

Every declaration opens a scope, or changes one scope and adds one symbol. What the scopes and
symbols of the table are afterwards is said here once, so that nothing else has to look into the
arrays of a table.

* `SymbolTable.blockMethod`, `SymbolTable.blockIndex` — the method whose blocks a
  new block is counted with, and its number;
* `SymbolTable.scope_addScope`, `scope_addSymbol` and others — the scopes of a changed
  table;
* `SymbolTable.declareBlock_eq` — a block is declared in three steps.
-/

import Smalltalk.Scope.Lookup

namespace Smalltalk.SymbolTable

variable (t : SymbolTable)

/-! ### Scopes -/

theorem scope_of_size_le {id : ScopeId} (h : t.scopes.size ≤ id) : t.scope id = default := by
  rw [scope, Array.getD_eq_getD_getElem?, Array.getElem?_eq_none h]
  rfl

/-- Only the global scope is where there is none. -/
theorem lt_size_of_isActivation {t : SymbolTable} {s : ScopeId}
    (h : (t.scope s).kind.isActivation = true) : s < t.scopes.size := by
  refine Nat.lt_of_not_le fun hle => ?_
  rw [t.scope_of_size_le hle] at h
  cases h

@[grind =] theorem scope_modifyScope (id : ScopeId) (f : Scope → Scope) (i : ScopeId) :
    (t.modifyScope id f).scope i =
      if i = id ∧ i < t.scopes.size then f (t.scope i) else t.scope i := by
  simp only [scope, modifyScope, Array.getD_eq_getD_getElem?, Array.getElem?_modify]
  grind

@[simp, grind =] theorem size_modifyScope (id : ScopeId) (f : Scope → Scope) :
    (t.modifyScope id f).scopes.size = t.scopes.size := by
  simp [modifyScope]

@[simp, grind =] theorem symbols_modifyScope (id : ScopeId) (f : Scope → Scope) :
    (t.modifyScope id f).symbols = t.symbols := rfl

@[simp, grind =] theorem symbol_modifyScope (id : ScopeId) (f : Scope → Scope) (i : SymbolId) :
    (t.modifyScope id f).symbol i = t.symbol i := rfl

@[grind =] theorem scope_addScope (name : String) (kind : ScopeKind) (enclosing : ScopeId) (i : ScopeId) :
    (t.addScope name kind enclosing).2.scope i =
      if i = t.scopes.size then Scope.new name kind (some enclosing) else t.scope i := by
  simp only [scope, addScope, Array.getD_eq_getD_getElem?, Array.getElem?_push]
  split <;> rfl

@[simp, grind =] theorem size_addScope (name : String) (kind : ScopeKind) (enclosing : ScopeId) :
    (t.addScope name kind enclosing).2.scopes.size = t.scopes.size + 1 := by
  simp [addScope]

@[simp, grind =] theorem symbols_addScope (name : String) (kind : ScopeKind) (enclosing : ScopeId) :
    (t.addScope name kind enclosing).2.symbols = t.symbols := rfl

@[simp, grind =] theorem symbol_addScope (name : String) (kind : ScopeKind) (enclosing : ScopeId)
    (i : SymbolId) : (t.addScope name kind enclosing).2.symbol i = t.symbol i := rfl

/-! ### Symbols -/

@[grind =] theorem scope_addSymbol (s : Symbol) (f : SymbolId → Scope → Scope) (i : ScopeId) :
    (t.addSymbol s f).2.scope i =
      if i = s.scope ∧ i < t.scopes.size then
        f t.symbols.size { t.scope i with symbols := (t.scope i).symbols.push t.symbols.size }
      else t.scope i := by
  simp only [addSymbol, scope_modifyScope]
  rfl

@[grind =] theorem symbol_addSymbol (s : Symbol) (f : SymbolId → Scope → Scope) (i : SymbolId) :
    (t.addSymbol s f).2.symbol i = if i = t.symbols.size then s else t.symbol i := by
  simp only [addSymbol, symbol_modifyScope]
  simp only [symbol, Array.getD_eq_getD_getElem?, Array.getElem?_push]
  split <;> rfl

@[simp, grind =] theorem size_scopes_addSymbol (s : Symbol) (f : SymbolId → Scope → Scope) :
    (t.addSymbol s f).2.scopes.size = t.scopes.size := by
  simp [addSymbol]

@[simp, grind =] theorem size_symbols_addSymbol (s : Symbol) (f : SymbolId → Scope → Scope) :
    (t.addSymbol s f).2.symbols.size = t.symbols.size + 1 := by
  simp [addSymbol]

/-! ### Blocks -/

/-- The method that a block declared in a scope is counted with. -/
def blockMethod (enclosing : ScopeId) : ScopeId := (t.enclosingMethod? enclosing).getD enclosing

/-- The number that a block declared in a scope gets. -/
def blockIndex (enclosing : ScopeId) : Nat := (t.scope (t.blockMethod enclosing)).kind.blockCount

/-- A table in which the next block of a method has a scope, but no symbol yet. -/
def openBlock (enclosing : ScopeId) : SymbolTable :=
  ((t.modifyScope (t.blockMethod enclosing) countBlock).addScope
    ("block" ++ toString (t.blockIndex enclosing)) (.block (t.blockIndex enclosing)) enclosing).2

/-- A block is declared in three steps: it is counted, its scope is opened, and its symbol is added
to the scope around it. -/
theorem declareBlock_eq (enclosing : ScopeId) :
    t.declareBlock enclosing =
      (t.symbols.size, t.scopes.size,
        ((t.openBlock enclosing).addSymbol
          ⟨"block" ++ toString (t.blockIndex enclosing), .block t.scopes.size, enclosing,
            t.blockIndex enclosing⟩ fun _ s => s).2) := by
  have hsize : (t.modifyScope (t.blockMethod enclosing) countBlock).scopes.size = t.scopes.size :=
    t.size_modifyScope _ _
  rw [← hsize]
  rfl

theorem size_declareBlock (enclosing : ScopeId) :
    (t.declareBlock enclosing).2.2.scopes.size = t.scopes.size + 1 := by
  rw [declareBlock_eq]
  dsimp only
  rw [size_scopes_addSymbol, openBlock, size_addScope, size_modifyScope]

/-- The scope of a block that has just been declared. -/
theorem scope_declareBlock_self {enclosing : ScopeId} (h : enclosing < t.scopes.size) :
    (t.declareBlock enclosing).2.2.scope t.scopes.size =
      Scope.new ("block" ++ toString (t.blockIndex enclosing)) (.block (t.blockIndex enclosing))
        (some enclosing) := by
  have hsize : (t.modifyScope (t.blockMethod enclosing) countBlock).scopes.size = t.scopes.size :=
    t.size_modifyScope _ _
  rw [declareBlock_eq]
  dsimp only
  rw [scope_addSymbol, if_neg fun h' => Nat.ne_of_gt h h'.1, openBlock, scope_addScope, hsize,
    if_pos rfl]

end Smalltalk.SymbolTable
