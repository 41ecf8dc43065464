/-
**How methods and blocks are nested.**

A method belongs to a class, and a block to a method or to another block; the variables of each are
found in its own scope. This stays so whatever is declared, with or without mistakes, and so a
variable that is found from some code lies in a scope whose distance can be counted.

The blocks of a method have the scopes that come right after that of the method. They are numbered
in this order, as far as there are numbers.

* `SymbolTable.Nested` — **methods in classes, blocks in methods or blocks**;
* `SymbolTable.Nested.isSome_depth?` — **the distance to a variable is known**;
* `Declaring.declareStatements_blocks` — **the scopes that are noted in a tree** are those
  that were opened for it.
-/

import Smalltalk.Proofs.BlockNumbers
import Smalltalk.Proofs.Steps

namespace Smalltalk

variable {s M : ScopeId} {t t' : SymbolTable} {n : Nat}

namespace SymbolTable

/-! ### Scopes that are left alone -/

variable {scope i : ScopeId}

/-- Declaring a block leaves the variables of the older scopes alone. -/
theorem names_declareBlock (t : SymbolTable) (enclosing : ScopeId) (hs : scope < t.scopes.size) :
    ((t.declareBlock enclosing).2.2.scope scope).names = (t.scope scope).names := by
  have hopen : ((t.openBlock enclosing).scope scope).names = (t.scope scope).names := by
    rw [openBlock, scope_addScope_of_ne _ (by rw [size_modifyScope]; exact Nat.ne_of_lt hs),
      scope_modifyScope]
    split <;> rfl
  rw [declareBlock_eq]
  dsimp only
  rw [scope_addSymbol]
  split <;> exact hopen

/-! ### Nested scopes -/

/-- **Methods lie in classes, and blocks in methods or blocks.**  The variables of a method or block
are found in its own scope. -/
@[grind cases]
structure Nested (t : SymbolTable) : Prop where
  method {s : ScopeId} : (t.scope s).kind.isMethod = true →
    ∃ C, (t.scope s).enclosing = some C ∧ (t.scope C).kind.isClass = true
  block {s : ScopeId} : (t.scope s).kind.isBlock = true →
    ∃ outer, (t.scope s).enclosing = some outer ∧ (t.scope outer).kind.isActivation = true
  own {s : ScopeId} {name : String} {id : SymbolId} : (t.scope s).kind.isActivation = true →
    (t.scope s).names[name]? = some id → id < t.symbols.size ∧ (t.symbol id).scope = s

theorem new_nested : new.Nested where
  method {s} h := by
    cases (scope_new (P := (·.kind.isMethod = false)) rfl rfl s).symm.trans h
  block {s} h := by
    cases (scope_new (P := (·.kind.isBlock = false)) rfl rfl s).symm.trans h
  own {s} _ _ h := by
    cases (scope_new (P := (·.kind.isActivation = false)) rfl rfl s).symm.trans h

theorem ScopeKind.isMethod_and_isBlock {k : ScopeKind} :
    ¬(k.isMethod = true ∧ k.isBlock = true) := by
  cases k <;> simp [ScopeKind.isMethod, ScopeKind.isBlock]

theorem Alike.isActivation {s s' : Scope} (h : s.Alike s') :
    s'.kind.isActivation = s.kind.isActivation := by
  rw [ScopeKind.isActivation, ScopeKind.isActivation, h.isMethod, h.isBlock]

/-! ### The distance to a variable -/

/-- **The distance to a variable is known**, from any method or block that it is found from. -/
theorem Nested.isSome_depth? (h : t.Nested) (hsound : t.Sound) {name : String} {id : SymbolId}
    (hscope : (t.scope scope).kind.isActivation = true) (hid : t.resolve? scope name = some id)
    (hkind : IsSlotKind (t.symbol id).kind) :
    (t.depth? scope (t.symbol id).scope).isSome = true := by
  induction scope using Nat.strongRecOn with
  | ind scope ih =>
    obtain ⟨outer, houter, hcases⟩ : ∃ outer, (t.scope scope).enclosing = some outer ∧
        ((t.scope outer).kind.isClass = true ∨ (t.scope outer).kind.isActivation = true) := by
      rcases Bool.or_eq_true_iff.1 hscope with hmethod | hblock
      · grind
      · grind
    rw [resolve?, Located.outward_eq_cons hsound houter, List.findSome?_cons,
      Located.findIn?_eq hsound (ScopeKind.isClass_of_isActivation hscope)] at hid
    cases hfound : (t.scope scope).names[name]? with
    | some found =>
      rw [hfound] at hid
      obtain rfl := Option.some.inj hid
      rw [(h.own hscope hfound).2, Located.depth?_self hsound]
      rfl
    | none =>
      rw [hfound] at hid
      change t.resolve? outer name = some id at hid
      -- A variable that is not its own lies further out; a class has none but fields.
      rcases hcases with hclass | hactivation
      · rcases Located.resolve?_class hsound hclass name with
          ⟨field, index, -, hfield, hfieldKind, -⟩ | ⟨-, hother⟩
        · rw [hid] at hfield
          obtain rfl := Option.some.inj hfield
          rcases hkind with hkind | hkind <;> rw [hkind] at hfieldKind <;> cases hfieldKind
        · have hnot := hother id hid
          rcases hkind with hkind | hkind <;> rw [hkind] at hnot <;> cases hnot
      · obtain ⟨depth, hdepth⟩ := Option.isSome_iff_exists.1
          (ih outer (hsound.enclosing houter) hactivation hid)
        by_cases hself : scope = (t.symbol id).scope
        · rw [← hself, Located.depth?_self hsound]
          rfl
        · rw [Located.depth?_outer hsound houter hscope hself hdepth]
          rfl

/-! ### The blocks of a method -/

/-- **The blocks of the newest method.**  Their scopes come right after that of the method and lie
in it, and they are numbered in this order up to the largest number. -/
structure BlocksCounted (t : SymbolTable) (M : ScopeId) : Prop where
  method : ∃ classSide,
    (t.scope M).kind = .method classSide (min (t.scopes.size - (M + 1)) capacity)
  block {i : Nat} : M + 1 + i < t.scopes.size →
    (t.scope (M + 1 + i)).kind = .block (min i capacity) ∧
      ∃ outer, (t.scope (M + 1 + i)).enclosing = some outer ∧ M ≤ outer

namespace BlocksCounted

section

variable (h : t.BlocksCounted M)

include h

theorem isMethod : (t.scope M).kind.isMethod = true := by
  obtain ⟨classSide, hkind⟩ := h.method
  rw [hkind]
  rfl

theorem lt_size : M < t.scopes.size := lt_size_of_isMethod h.isMethod

/-- All that comes after the newest method is in it. -/
theorem enclosingMethod?_eq (hsound : t.Sound) (hM : M ≤ s) (hs : s < t.scopes.size) :
    t.enclosingMethod? s = some M := by
  have hnested (scope outer : ScopeId) (h : (t.scope scope).enclosing = some outer) :
      outer < scope := hsound.enclosing h
  induction s using Nat.strongRecOn with
  | ind s ih =>
    rw [SymbolTable.enclosingMethod?_eq hnested]
    rcases Nat.eq_or_lt_of_le hM with rfl | hlt
    · have hmethod := h.isMethod
      have hblock : ¬(t.scope M).kind.isBlock = true :=
        fun hblock => ScopeKind.isMethod_and_isBlock ⟨hmethod, hblock⟩
      rw [if_neg hblock, if_pos hmethod]
    · obtain ⟨i, rfl⟩ := Nat.exists_eq_add_of_lt hlt
      rw [Nat.add_right_comm] at hs hM ih ⊢
      obtain ⟨hkind, outer, houter, hle⟩ := h.block hs
      have hout := hsound.enclosing houter
      rw [if_pos (by rw [hkind]; rfl), houter]
      exact ih outer hout hle (Nat.lt_trans hout hs)

/-- What opens no scope and counts no block leaves the numbers alone. -/
theorem uncounted (hsame : Uncounted t t') : t'.BlocksCounted M := by
  refine ⟨?_, fun {i} hi => ?_⟩
  · obtain ⟨classSide, hkind⟩ := h.method
    have halike := (hsame.alike M).kind
    have hcount := hsame.blockCount M
    rw [hkind] at halike hcount
    rw [hsame.size]
    cases hkind' : (t'.scope M).kind with
    | method side count =>
      rw [hkind'] at halike hcount
      exact ⟨side, congrArg _ hcount⟩
    | _ => rw [hkind'] at halike; cases halike
  · rw [hsame.size] at hi
    obtain ⟨hkind, outer, houter, hle⟩ := h.block hi
    have halike := hsame.alike (M + 1 + i)
    exact ⟨ScopeKind.eq_block (halike.kind.trans (by rw [hkind])), outer,
      halike.enclosing.trans houter, hle⟩

/-- **A block takes the next number.** -/
theorem declareBlock (hsound : t.Sound) (hM : M ≤ scope) (hs : scope < t.scopes.size) :
    (t.declareBlock scope).2.2.BlocksCounted M := by
  have hmethod : t.blockMethod scope = M := by
    rw [blockMethod, h.enclosingMethod?_eq hsound hM hs]
    rfl
  obtain ⟨classSide, hkind⟩ := h.method
  have hlt := h.lt_size
  refine ⟨⟨classSide, ?_⟩, fun {i} hi => ?_⟩
  · rw [(t.scope_declareBlock_of_lt scope hlt).2, hmethod, if_pos rfl, countBlock,
      size_declareBlock, Nat.succ_sub hlt]
    dsimp only
    rw [hkind, ScopeKind.addBlock]
    congr 1
    omega
  · rw [size_declareBlock] at hi
    rcases Nat.lt_or_ge (M + 1 + i) t.scopes.size with hold | hnew
    · obtain ⟨halike, -⟩ := t.scope_declareBlock_of_lt scope hold
      obtain ⟨hblock, outer, houter, hle⟩ := h.block hold
      exact ⟨ScopeKind.eq_block (halike.kind.trans (by rw [hblock])), outer,
        halike.enclosing.trans houter, hle⟩
    · obtain hsize : M + 1 + i = t.scopes.size := Nat.le_antisymm (Nat.le_of_lt_succ hi) hnew
      rw [hsize, t.scope_declareBlock_self hs]
      refine ⟨?_, scope, rfl, hM⟩
      change ScopeKind.block (t.blockIndex scope) = _
      rw [blockIndex, hmethod, hkind]
      change ScopeKind.block (min (t.scopes.size - (M + 1)) capacity) = _
      rw [← hsize, Nat.add_sub_cancel_left]

end

end BlocksCounted

end SymbolTable

/-! ### What declarations do -/

namespace Declaring

open SymbolTable

variable {s s' s'' : Declarations} {bs : List OpenedBlock}

/-- A scope gets at most one new variable. -/
theorem InnerStep.names (h : InnerStep n t t') {s : ScopeId} (hlt : s < t.scopes.size) :
    (t'.scope s).names = (t.scope s).names ∨ ∃ name,
      (t'.scope s).names = (t.scope s).names.insert name t.symbols.size ∧
        t.symbols.size < t'.symbols.size ∧ (t'.symbol t.symbols.size).scope = s := by
  cases h with
  | block => exact .inl (t.names_declareBlock _ hlt)
  | @named scope kind name =>
    by_cases hself : s = scope
    · subst hself
      obtain h | ⟨index, f, hf, h⟩ := t.declare_cases s name kind <;> rw [h]
      · exact .inl rfl
      · rw [addNamed_eq]
        refine .inr ⟨name, ?_, by grind, by grind⟩
        dsimp only
        rw [scope_addSymbol, if_pos ⟨rfl, hlt⟩, hf.names]
    · rw [t.scope_declare_of_ne _ _ hself]
      exact .inl rfl

/-- **What is declared leaves a table nested.** -/
theorem Step.nested (h : Step n t t') (hsound : t.Sound) (hnested : t.Nested) : t'.Nested := by
  obtain ⟨hsound', hgrows⟩ := h.sound hsound
  have halike {s : ScopeId} (hs : s < t.scopes.size) := hgrows.alike hs
  have hopened {s : ScopeId} (hge : t.scopes.size ≤ s)
      (hs : (t'.scope s).kind.isActivation = true) :=
    (h.opened hsound hge (lt_size_of_isActivation hs)).2.resolve_left fun hC => by
      cases (hsound'.isActivation_of_mem hC).symm.trans hs
  refine ⟨fun {s} hs => ?_, fun {s} hs => ?_, fun {s name id} hs hid => ?_⟩ <;>
    rcases Nat.lt_or_ge s t.scopes.size with hlt | hge
  · rw [(halike hlt).isMethod] at hs
    obtain ⟨C, hC, hclass⟩ := hnested.method hs
    exact ⟨C, (halike hlt).enclosing.trans hC,
      (halike (Nat.lt_trans (hsound.enclosing hC) hlt)).isClass.trans hclass⟩
  · obtain ⟨outer, name, kind, hnew, houter, hkind⟩ :=
      hopened hge (by rw [ScopeKind.isActivation, hs, Bool.true_or])
    rw [hnew] at hs ⊢
    obtain ⟨-, hclass⟩ | ⟨hblock, -⟩ := hkind
    · exact ⟨outer, rfl, (halike houter).isClass.trans hclass⟩
    · exact absurd ⟨hs, hblock⟩ ScopeKind.isMethod_and_isBlock
  · rw [(halike hlt).isBlock] at hs
    obtain ⟨outer, houter, hactivation⟩ := hnested.block hs
    exact ⟨outer, (halike hlt).enclosing.trans houter,
      (Alike.isActivation (halike (Nat.lt_trans (hsound.enclosing houter) hlt))).trans hactivation⟩
  · obtain ⟨outer, name, kind, hnew, houter, hkind⟩ :=
      hopened hge (by rw [ScopeKind.isActivation, hs, Bool.or_true])
    rw [hnew] at hs ⊢
    obtain ⟨hmethod, -⟩ | ⟨-, hactivation⟩ := hkind
    · exact absurd ⟨hmethod, hs⟩ ScopeKind.isMethod_and_isBlock
    · exact ⟨outer, rfl, (Alike.isActivation (halike houter)).trans hactivation⟩
  · rw [Alike.isActivation (halike hlt)] at hs
    have hold (hid : (t.scope s).names[name]? = some id) :
        id < t'.symbols.size ∧ (t'.symbol id).scope = s := by
      obtain ⟨hbound, hscope⟩ := hnested.own hs hid
      grind
    have hglobal : s ≠ global := by
      rintro rfl
      rw [hsound.globals.kind] at hs
      cases hs
    obtain hstep | hsame := h.scope_eq hlt hglobal fun hC => by
      cases (hsound.isActivation_of_mem hC).symm.trans hs
    · obtain hnames | ⟨new, hnames, hbound, hscope⟩ := hstep.names hlt
      · exact hold (hnames ▸ hid)
      · rw [hnames, Std.TreeMap.getElem?_insert] at hid
        split at hid
        · obtain rfl := Option.some.inj hid
          exact ⟨hbound, hscope⟩
        · exact hold hid
    · exact hold (hsame ▸ hid)
  · obtain ⟨outer, _, kind, hnew, -⟩ := hopened hge hs
    rw [hnew] at hid
    cases Std.TreeMap.getElem?_emptyc.symm.trans hid

theorem Run.nested (h : Run n t t') (hsound : t.Sound) (hnested : t.Nested) : t'.Nested :=
  h.keeps hsound hnested fun _ _ hu hstep => hstep.nested hu

/-- What is declared in the newest method is counted. -/
theorem InnerStep.blocksCounted (h : InnerStep M t t') (hsound : t.Sound) (hM : t.BlocksCounted M) :
    t'.BlocksCounted M := by
  cases h with
  | named name hn hopen hkind => exact hM.uncounted (declare_uncounted ..)
  | block hn hopen => exact hM.declareBlock hsound hn hopen.1

theorem InnerRun.blocksCounted (h : InnerRun M t t') (hsound : t.Sound) (hM : t.BlocksCounted M) :
    t'.BlocksCounted M := by
  induction h with
  | refl => exact hM
  | tail hrun hstep ih =>
    exact hstep.blocksCounted (InnerRun.sound hrun hsound (Nat.le_of_lt hM.lt_size)).1 ih

/-- A method that has just been opened has no blocks. -/
theorem withMethod_blocksCounted {C : ScopeId} (hC : C < t.scopes.size) (selector : String)
    (classSide : Bool) : (withMethod t C selector classSide).BlocksCounted t.scopes.size := by
  refine ⟨⟨classSide, ?_⟩, fun {i} hi => ?_⟩
  · rw [scope_withMethod hC, size_withMethod, Nat.sub_self]
    rfl
  · rw [size_withMethod] at hi
    exact absurd hi (Nat.not_lt.2 (Nat.le_add_right _ _))

/-! ### The scopes that are noted in a tree -/

/-- The blocks are those whose scopes have been opened in between. -/
def Opens (s s' : Declarations) (bs : List OpenedBlock) : Prop :=
  s.table.scopes.size ≤ s'.table.scopes.size ∧
    ∀ b : Nat, b ∈ bs.map Prod.fst ↔ s.table.scopes.size ≤ b ∧ b < s'.table.scopes.size

theorem Opens.nothing (h : s'.table.scopes.size = s.table.scopes.size) : Opens s s' [] := by
  refine ⟨Nat.le_of_eq h.symm, fun b => ?_⟩
  grind

theorem Opens.trans {bs' : List OpenedBlock} (h : Opens s s' bs)
    (h' : Opens s' s'' bs') : Opens s s'' (bs ++ bs') := by
  have hle := h.1
  have hle' := h'.1
  refine ⟨Nat.le_trans hle hle', fun b => ?_⟩
  rw [List.map_append, List.mem_append, h.2, h'.2]
  omega

/-- The scope of a block is opened before those of the blocks inside of it. -/
theorem Opens.block (h : s'.table.scopes.size = s.table.scopes.size + 1) (h' : Opens s' s'' bs)
    (statements : List (Statement ScopeId)) :
    Opens s s'' (bs ++ [(s.table.scopes.size, statements)]) := by
  have hle := h'.1
  rw [h] at hle
  refine ⟨Nat.le_trans (Nat.le_succ _) hle, fun b => ?_⟩
  rw [List.map_append, List.mem_append, h'.2, h, List.map_singleton, List.mem_singleton]
  omega

mutual

theorem declareExpr_blocks (scope : ScopeId) (s : Declarations) : ∀ e : Expr Unit,
    Opens s (declareExpr scope e s).2 (exprBlocks (declareExpr scope e s).1)
  | .array _ items _ => by
    rw [declareExpr, bind_apply]
    obtain ⟨es, hes, hopens⟩ := declareExprs_blocks scope [] s items
    rw [hes]
    exact hopens
  | .block opening parameters locals statements closing () => by
    have hblock : declareExpr scope (.block opening parameters locals statements closing ()) =
      inBlock scope parameters locals fun body => do
        return .block opening parameters locals (← declareStatements body [] statements) closing
          body := rfl
    rw [hblock, block_apply, bind_apply]
    generalize hs' : (declareVariables s.table.scopes.size .localVariable locals
      (declareVariables s.table.scopes.size .argument parameters
        { s with table := (s.table.declareBlock scope).2.2 }).2).2 = s'
    have hsize : s'.table.scopes.size = s.table.scopes.size + 1 := by
      rw [← hs', size_declareVariables (.inr rfl), size_declareVariables (.inl rfl)]
      exact s.table.size_declareBlock scope
    obtain ⟨ss, hss, hopens⟩ := declareStatements_blocks s.table.scopes.size [] s' statements
    rw [hss]
    exact .block hsize hopens _
  | .group _ inner _ => by
    rw [declareExpr, bind_apply]
    exact declareExpr_blocks scope s inner
  | .literal _ _ _ | .super _ | .variable _ | .invalid _ => .nothing rfl
  | .unary receiver _ => by
    rw [declareExpr, bind_apply]
    exact declareExpr_blocks scope s receiver
  | .binary receiver _ argument => by
    rw [declareExpr, bind_apply, bind_apply]
    exact (declareExpr_blocks scope s receiver).trans (declareExpr_blocks scope _ argument)
  | .keyword receiver _ arguments => by
    rw [declareExpr, bind_apply, bind_apply]
    obtain ⟨es, hes, hopens⟩ :=
      declareExprs_blocks scope [] (declareExpr scope receiver s).2 arguments
    rw [hes]
    exact (declareExpr_blocks scope s receiver).trans hopens

theorem declareExprs_blocks (scope : ScopeId) (done : List (Expr ScopeId)) (s : Declarations) :
    ∀ es : List (Expr Unit), ∃ es', (declareExprs scope done es s).1 = done.reverse ++ es' ∧
      Opens s (declareExprs scope done es s).2 (exprsBlocks es')
  | [] => ⟨[], (List.append_nil _).symm, .nothing rfl⟩
  | e :: es => by
    rw [declareExprs, bind_apply]
    obtain ⟨es', hes, hopens⟩ := declareExprs_blocks scope ((declareExpr scope e s).1 :: done)
      (declareExpr scope e s).2 es
    refine ⟨(declareExpr scope e s).1 :: es', ?_, (declareExpr_blocks scope s e).trans hopens⟩
    rw [hes, List.reverse_cons, List.append_assoc]
    rfl

theorem declareStatement_blocks (scope : ScopeId) (s : Declarations) : ∀ a : Statement Unit,
    Opens s (declareStatement scope a s).2 (statementBlocks (declareStatement scope a s).1)
  | .assignment _ value | .answer _ value | .expression value => by
    rw [declareStatement, bind_apply]
    exact declareExpr_blocks scope s value

/-- **The scopes that are noted in a tree** are those that were opened for it. -/
theorem declareStatements_blocks (scope : ScopeId) (done : List (Statement ScopeId))
    (s : Declarations) : ∀ as : List (Statement Unit),
      ∃ as', (declareStatements scope done as s).1 = done.reverse ++ as' ∧
        Opens s (declareStatements scope done as s).2 (statementsBlocks as')
  | [] => ⟨[], (List.append_nil _).symm, .nothing rfl⟩
  | a :: as => by
    rw [declareStatements, bind_apply]
    obtain ⟨as', has, hopens⟩ := declareStatements_blocks scope
      ((declareStatement scope a s).1 :: done) (declareStatement scope a s).2 as
    refine ⟨(declareStatement scope a s).1 :: as', ?_,
      (declareStatement_blocks scope s a).trans hopens⟩
    rw [has, List.reverse_cons, List.append_assoc]
    rfl

end

end Declaring

end Smalltalk
