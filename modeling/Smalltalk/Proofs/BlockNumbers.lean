/-
**The numbers of blocks.**

A method counts the blocks that are declared in it, directly or in other blocks, and gives each the
number of blocks that were there before. The count stops at its largest value. So the blocks of a
method have different numbers as long as there are numbers left, each keeps its own place in the
block table of the method, and from then on all share the last number.

This holds whatever else is declared in between, and in whatever order: a table is taken as it is
built by any sequence of declarations, together with a log of how its scopes came to be.

* `SymbolTable.Numbered` — **what holds of the numbers** after every declaration;
* `SymbolTable.Built.block_numbers` — **the number of each block**, when two blocks share
  one, and that no block loses its place while they do not.
-/

import Mathlib.Data.List.Induction
import Mathlib.Data.List.Nodup
import Smalltalk.Proofs.ClassTables
import Smalltalk.Proofs.Emission

namespace Smalltalk

namespace ScopeKind

/-- The number of a block. -/
def blockNumber : ScopeKind → Nat
  | .block index => index
  | _ => 0

theorem blockCount_addMethod (k : ScopeKind) (classSide : Bool) (selector : String)
    (id : SymbolId) : (k.addMethod classSide selector id).blockCount = k.blockCount := by
  cases k <;> cases classSide <;> rfl

end ScopeKind

namespace SymbolTable

/-! ### Building a table -/

/-- How a scope came to be. -/
inductive Opening where
  /-- It was opened as a scope of this kind. -/
  | opened (kind : ScopeKind)
  /-- It was opened by declaring a block. -/
  | block

/-- Was it opened by declaring a block? -/
def Opening.isBlock : Opening → Bool
  | .block => true
  | .opened _ => false

/-- The tables that can be built, by whatever sequence of declarations. The log tells for each
scope how it came to be. -/
inductive Built : SymbolTable → List Opening → Prop where
  | new : Built new [.opened .global]
  | addScope {t : SymbolTable} {log : List Opening} {kind : ScopeKind} {enclosing : ScopeId}
      (h : Built t log) (name : String) (henclosing : enclosing < t.scopes.size)
      (hcount : kind.blockCount ≤ capacity) :
      Built (t.addScope name kind enclosing).2 (log ++ [.opened kind])
  | declare {t : SymbolTable} {log : List Opening} (h : Built t log) (scope : ScopeId)
      (name : String) (kind : SymbolKind) : Built (t.declare scope name kind).2 log
  | declareMethod {t : SymbolTable} {log : List Opening} (h : Built t log) (scope : ScopeId)
      (selector : String) (kind : SymbolKind) : Built (t.declareMethod scope selector kind).2 log
  | declareBlock {t : SymbolTable} {log : List Opening} {enclosing : ScopeId} (h : Built t log)
      (henclosing : enclosing < t.scopes.size) :
      Built (t.declareBlock enclosing).2.2 (log ++ [.block])

/-- The blocks that were declared in a method or in a block of it, in the order of declaration. -/
def declaredIn (t : SymbolTable) (log : List Opening) (method : ScopeId) : List ScopeId :=
  (List.range log.length).filter fun scope =>
    log[scope]?.any Opening.isBlock && t.enclosingMethod? scope == some method

/-- The number of blocks that a method was opened with. -/
def firstNumber (log : List Opening) (method : ScopeId) : Nat :=
  match log[method]? with
  | some (.opened kind) => kind.blockCount
  | _ => 0

/-- **What holds of the numbers of blocks.**  The count of a method is the number of its blocks, and
each block has the count that it found, up to the largest count. -/
@[grind cases]
structure Numbered (t : SymbolTable) (log : List Opening) : Prop where
  length : log.length = t.scopes.size
  nested {scope outer : ScopeId} : (t.scope scope).enclosing = some outer → outer < scope
  count {method : ScopeId} : (t.scope method).kind.isMethod = true →
    (t.scope method).kind.blockCount =
      min (firstNumber log method + (t.declaredIn log method).length) capacity
  index {method block : ScopeId} {n : Nat} : (t.declaredIn log method)[n]? = some block →
    (t.scope block).kind = .block (min (firstNumber log method + n) capacity)

/-! ### The method around a scope -/

variable {t t' : SymbolTable} {log : List Opening} {scope method block enclosing : ScopeId}

/-- The method around a block is that around the scope it is declared in. -/
theorem enclosingMethod?_eq
    (hnested : ∀ scope outer, (t.scope scope).enclosing = some outer → outer < scope)
    (scope : ScopeId) :
    t.enclosingMethod? scope =
      if (t.scope scope).kind.isBlock then (t.scope scope).enclosing.bind t.enclosingMethod?
      else if (t.scope scope).kind.isMethod then some scope else none := by
  have houtward : t.outward scope =
      scope :: ((t.scope scope).enclosing.map t.outward).getD [] :=
    chainFrom_succ hnested scope
  rw [enclosingMethod?, houtward]
  by_cases hblock : (t.scope scope).kind.isBlock = true
  · rw [if_pos hblock, List.dropWhile_cons_of_pos (by simpa using hblock)]
    cases (t.scope scope).enclosing with
    | none | some outer => rfl
  · rw [if_neg hblock, List.dropWhile_cons_of_neg (by simpa using hblock)]

section

variable (hnested : ∀ scope outer, (t.scope scope).enclosing = some outer → outer < scope)

include hnested

/-- The method around a scope stays the same while the scopes up to it do. -/
theorem enclosingMethod?_congr
    (hnested' : ∀ scope outer, (t'.scope scope).enclosing = some outer → outer < scope)
    (halike : ∀ scope < t.scopes.size, (t.scope scope).Alike (t'.scope scope))
    (hscope : scope < t.scopes.size) : t'.enclosingMethod? scope = t.enclosingMethod? scope := by
  induction scope using Nat.strongRecOn with
  | ind scope ih =>
    have hs := halike scope hscope
    rw [enclosingMethod?_eq hnested, enclosingMethod?_eq hnested', hs.isBlock, hs.isMethod,
      hs.enclosing]
    split
    · cases houter : (t.scope scope).enclosing with
      | none => rfl
      | some outer =>
        grind
    · rfl

/-- The method around a scope is older than what is in it. -/
theorem le_of_enclosingMethod? (h : t.enclosingMethod? scope = some method) : method ≤ scope := by
  induction scope using Nat.strongRecOn with
  | ind scope ih =>
    rw [enclosingMethod?_eq hnested] at h
    split at h
    · obtain ⟨outer, houter, hmethod⟩ := Option.bind_eq_some_iff.1 h
      grind
    · grind

/-- What was declared in a method stays declared in it, in the same order. -/
theorem declaredIn_congr
    (hnested' : ∀ scope outer, (t'.scope scope).enclosing = some outer → outer < scope)
    (halike : ∀ scope < t.scopes.size, (t.scope scope).Alike (t'.scope scope))
    (hlength : log.length = t.scopes.size) (method : ScopeId) :
    t'.declaredIn log method = t.declaredIn log method := by
  refine List.filter_congr fun scope hscope => ?_
  rw [List.mem_range, hlength] at hscope
  rw [enclosingMethod?_congr hnested hnested' halike hscope]

end

/-- One more scope is one more block of the method that is around it, if it is a block. -/
theorem declaredIn_append (t : SymbolTable) (log : List Opening) (o : Opening) (method : ScopeId) :
    t.declaredIn (log ++ [o]) method = t.declaredIn log method ++
      if o.isBlock = true ∧ t.enclosingMethod? log.length = some method then [log.length]
      else [] := by
  rw [declaredIn, List.length_append, List.length_singleton, List.range_succ, List.filter_append]
  congr 1
  · refine List.filter_congr fun scope hscope => ?_
    rw [List.getElem?_append_left (List.mem_range.1 hscope)]
  · grind

theorem lt_length_of_mem_declaredIn (h : block ∈ t.declaredIn log method) : block < log.length :=
  List.mem_range.1 (List.mem_of_mem_filter h)

/-- A method in which something was declared is in the log. -/
theorem Numbered.lt_length_of_declaredIn (h : Numbered t log)
    (hblock : block ∈ t.declaredIn log method) : method < log.length := by
  have hmethod := (List.mem_filter.1 hblock).2
  rw [Bool.and_eq_true, beq_iff_eq] at hmethod
  exact Nat.lt_of_le_of_lt (le_of_enclosingMethod? (fun _ _ => h.nested) hmethod.2)
    (lt_length_of_mem_declaredIn hblock)

theorem firstNumber_append (h : method < log.length) (o : Opening) :
    firstNumber (log ++ [o]) method = firstNumber log method := by
  rw [firstNumber, firstNumber, List.getElem?_append_left h]

/-! ### What a declaration leaves alone -/

theorem lt_size_of_isMethod (h : (t.scope method).kind.isMethod = true) :
    method < t.scopes.size := by
  rcases Nat.lt_or_ge method t.scopes.size with hlt | hge
  · exact hlt
  · rw [t.scope_of_size_le hge] at h
    cases h

/-- A declaration that opens no scope and counts no block. -/
structure Uncounted (t t' : SymbolTable) : Prop where
  size : t'.scopes.size = t.scopes.size
  alike (scope : ScopeId) : (t.scope scope).Alike (t'.scope scope)
  blockCount (scope : ScopeId) :
    (t'.scope scope).kind.blockCount = (t.scope scope).kind.blockCount

theorem Uncounted.refl (t : SymbolTable) : Uncounted t t := ⟨rfl, fun _ => .refl _, fun _ => rfl⟩

theorem Uncounted.addSymbol (s : Symbol) {f : SymbolId → Scope → Scope} (hf : Harmless f)
    (hcount : ∀ id s, (f id s).kind.blockCount = s.kind.blockCount) :
    Uncounted t (t.addSymbol s f).2 := by
  refine ⟨t.size_scopes_addSymbol s f, fun scope => ?_, fun scope => ?_⟩
  · rw [scope_addSymbol]
    split
    · have halike := hf.alike t.symbols.size
        { t.scope scope with symbols := (t.scope scope).symbols.push t.symbols.size }
      exact ⟨halike.name, halike.enclosing, halike.kind⟩
    · exact .refl _
  · rw [scope_addSymbol]
    split
    · exact hcount _ _
    · rfl

/-- Declaring a class or a variable counts no block. -/
theorem declare_uncounted (t : SymbolTable) (scope : ScopeId) (name : String) (kind : SymbolKind) :
    Uncounted t (t.declare scope name kind).2 := by
  obtain h | ⟨index, f, hf, h⟩ := t.declare_cases scope name kind
  · rw [h]
    exact .refl t
  · rw [h]
    exact .addSymbol _ (hf.named name) fun _ _ => hf.blockCount _

/-- Declaring a method counts no block. -/
theorem declareMethod_uncounted (t : SymbolTable) (scope : ScopeId) (selector : String)
    (kind : SymbolKind) : Uncounted t (t.declareMethod scope selector kind).2 := by
  obtain h | ⟨-, index, h⟩ := t.declareMethod_cases scope selector kind
  · rw [h]
    exact .refl t
  · rw [h]
    exact .addSymbol _ (addMethod_harmless _ _) fun id s =>
      s.kind.blockCount_addMethod kind.isClassSide selector id

/-! ### What a declaration does to the numbers -/

theorem Numbered.uncounted (h : Numbered t log) (hsame : Uncounted t t') : Numbered t' log := by
  have hnested {scope outer : ScopeId} (hs : (t'.scope scope).enclosing = some outer) :
      outer < scope := by
    rw [(hsame.alike scope).enclosing] at hs
    exact h.nested hs
  have hdeclared := declaredIn_congr (fun _ _ => h.nested) (fun _ _ => hnested)
    (fun scope _ => hsame.alike scope) h.length
  refine ⟨h.length.trans hsame.size.symm, hnested, ?_, ?_⟩
  · intro method hmethod
    rw [(hsame.alike method).isMethod] at hmethod
    rw [hsame.blockCount, hdeclared]
    exact h.count hmethod
  · intro method block n hblock
    rw [hdeclared] at hblock
    have hkind := (hsame.alike block).kind
    rw [h.index hblock] at hkind
    exact ScopeKind.eq_block hkind

/-- A scope that is opened has no blocks yet, and is no declared block itself. -/
theorem Numbered.addScope (h : Numbered t log) {kind : ScopeKind} (name : String)
    (henclosing : enclosing < t.scopes.size) (hcount : kind.blockCount ≤ capacity) :
    Numbered (t.addScope name kind enclosing).2 (log ++ [.opened kind]) := by
  have hold {scope : ScopeId} (hs : scope < t.scopes.size) :
      (t.addScope name kind enclosing).2.scope scope = t.scope scope :=
    t.scope_addScope_of_ne (Nat.ne_of_lt hs)
  have hnested : ∀ scope outer,
      ((t.addScope name kind enclosing).2.scope scope).enclosing = some outer → outer < scope := by
    intro scope outer hs
    by_cases hnew : scope = t.scopes.size
    · rw [hnew, scope_addScope_self] at hs
      rw [hnew, ← Option.some.inj hs]
      exact henclosing
    · rw [t.scope_addScope_of_ne hnew] at hs
      exact h.nested hs
  have hdeclared (method : ScopeId) :
      (t.addScope name kind enclosing).2.declaredIn (log ++ [.opened kind]) method =
        t.declaredIn log method := by
    rw [declaredIn_append, if_neg fun hb => Bool.noConfusion hb.1, List.append_nil]
    exact declaredIn_congr (fun _ _ => h.nested) hnested
      (fun scope hs => hold hs ▸ .refl _) h.length method
  refine ⟨?_, fun hs => hnested _ _ hs, ?_, ?_⟩
  · rw [size_addScope, List.length_append, h.length]
    rfl
  · intro method hmethod
    rw [hdeclared]
    by_cases hnew : method = t.scopes.size
    · -- No scope was declared in the new one before it was there.
      have hnone : t.declaredIn log method = [] := by
        refine List.eq_nil_iff_forall_not_mem.2 fun block hblock => ?_
        exact Nat.lt_irrefl _ (hnew ▸ h.length ▸ h.lt_length_of_declaredIn hblock)
      have hfirst : firstNumber (log ++ [.opened kind]) method = kind.blockCount := by
        rw [firstNumber, hnew, ← h.length, List.getElem?_concat_length]
      rw [hnone, hfirst, hnew, scope_addScope_self]
      exact (Nat.min_eq_left hcount).symm
    · rw [t.scope_addScope_of_ne hnew] at hmethod ⊢
      rw [firstNumber_append (h.length ▸ lt_size_of_isMethod hmethod)]
      exact h.count hmethod
  · intro method block n hblock
    rw [hdeclared] at hblock
    have hmem := List.mem_of_getElem? hblock
    rw [hold (h.length ▸ lt_length_of_mem_declaredIn hmem),
      firstNumber_append (h.lt_length_of_declaredIn hmem)]
    exact h.index hblock

/-- Declaring a block changes the count of its method, and nothing else of how the scopes are
nested. -/
theorem scope_declareBlock_of_lt (t : SymbolTable) (enclosing : ScopeId)
    (hs : scope < t.scopes.size) :
    (t.scope scope).Alike ((t.declareBlock enclosing).2.2.scope scope) ∧
      ((t.declareBlock enclosing).2.2.scope scope).kind =
        if scope = t.blockMethod enclosing then (countBlock (t.scope scope)).kind
        else (t.scope scope).kind := by
  have hopen : (t.openBlock enclosing).scope scope =
      if scope = t.blockMethod enclosing then countBlock (t.scope scope) else t.scope scope := by
    rw [openBlock, scope_addScope_of_ne _ (by rw [size_modifyScope]; exact Nat.ne_of_lt hs),
      scope_modifyScope]
    simp only [hs, and_true]
  have halike : (t.scope scope).Alike ((t.openBlock enclosing).scope scope) := by
    rw [hopen]
    split
    · exact countBlock_alike _
    · exact .refl _
  rw [declareBlock_eq]
  dsimp only
  rw [scope_addSymbol]
  split
  · exact ⟨⟨halike.name, halike.enclosing, halike.kind⟩, by dsimp only; rw [hopen]; split <;> rfl⟩
  · exact ⟨halike, by rw [hopen]; split <;> rfl⟩

theorem blockCount_countBlock {s : Scope} (h : s.kind.isMethod = true) :
    (countBlock s).kind.blockCount = min (s.kind.blockCount + 1) capacity := by
  rw [countBlock]
  cases hkind : s.kind <;> first | rfl | (rw [hkind] at h; cases h)

/-- The method around a scope is a method. -/
theorem isMethod_of_enclosingMethod? (h : t.enclosingMethod? scope = some method) :
    (t.scope method).kind.isMethod = true := by
  rw [enclosingMethod?] at h
  grind

theorem Numbered.enclosingMethod?_self (h : Numbered t log)
    (hmethod : (t.scope method).kind.isMethod = true) :
    t.enclosingMethod? method = some method := by
  have hblock : ¬(t.scope method).kind.isBlock = true := by
    cases hkind : (t.scope method).kind with
    | block => rw [hkind] at hmethod; cases hmethod
    | _ => exact Bool.false_ne_true
  rw [enclosingMethod?_eq fun _ _ => h.nested, if_neg hblock, if_pos hmethod]

/-- A method counts the blocks that are declared in it and in its blocks. -/
theorem Numbered.eq_blockMethod_iff (h : Numbered t log)
    (hmethod : (t.scope method).kind.isMethod = true) :
    method = t.blockMethod enclosing ↔ t.enclosingMethod? enclosing = some method := by
  rw [blockMethod]
  cases henclosing : t.enclosingMethod? enclosing with
  | some outer => exact ⟨fun heq => heq ▸ rfl, fun heq => (Option.some.inj heq).symm⟩
  | none =>
    refine ⟨fun heq => ?_, fun heq => by cases heq⟩
    obtain rfl : method = enclosing := heq
    cases (h.enclosingMethod?_self hmethod).symm.trans henclosing

section

variable (h : Numbered t log) (henclosing : enclosing < t.scopes.size)

include h henclosing

theorem Numbered.nested_declareBlock {outer : ScopeId}
    (hs : ((t.declareBlock enclosing).2.2.scope scope).enclosing = some outer) : outer < scope := by
  rcases Nat.lt_trichotomy scope t.scopes.size with hlt | rfl | hgt
  · rw [(t.scope_declareBlock_of_lt enclosing hlt).1.enclosing] at hs
    exact h.nested hs
  · rw [t.scope_declareBlock_self henclosing] at hs
    rw [← Option.some.inj hs]
    exact henclosing
  · rw [scope_of_size_le _ (by rw [size_declareBlock]; exact hgt)] at hs
    cases hs

/-- The new block is the last one of the method around the scope it is declared in. -/
theorem Numbered.declaredIn_declareBlock (method : ScopeId) :
    (t.declareBlock enclosing).2.2.declaredIn (log ++ [.block]) method =
      t.declaredIn log method ++
        if t.enclosingMethod? enclosing = some method then [log.length] else [] := by
  have hnested : ∀ scope outer,
      ((t.declareBlock enclosing).2.2.scope scope).enclosing = some outer → outer < scope :=
    fun _ _ => h.nested_declareBlock henclosing
  have halike : ∀ scope < t.scopes.size,
      (t.scope scope).Alike ((t.declareBlock enclosing).2.2.scope scope) :=
    fun _ hs => (t.scope_declareBlock_of_lt enclosing hs).1
  have hmethod : (t.declareBlock enclosing).2.2.enclosingMethod? log.length =
      t.enclosingMethod? enclosing := by
    rw [h.length, enclosingMethod?_eq hnested, t.scope_declareBlock_self henclosing]
    exact enclosingMethod?_congr (fun _ _ => h.nested) hnested halike henclosing
  rw [declaredIn_append, declaredIn_congr (fun _ _ => h.nested) hnested halike h.length, hmethod]
  simp only [Opening.isBlock, true_and]

/-- A block that is declared gets the count of its method, which then counts it. -/
theorem Numbered.declareBlock : Numbered (t.declareBlock enclosing).2.2 (log ++ [.block]) := by
  have hold {scope : ScopeId} (hs : scope < t.scopes.size) :=
    t.scope_declareBlock_of_lt enclosing hs
  have hnew := t.scope_declareBlock_self henclosing
  have hdeclared := h.declaredIn_declareBlock henclosing
  refine ⟨?_, h.nested_declareBlock henclosing, ?_, ?_⟩
  · rw [size_declareBlock, List.length_append, h.length]
    rfl
  · intro method hkind
    have hlt : method < t.scopes.size := by
      have hle := lt_size_of_isMethod hkind
      rw [size_declareBlock] at hle
      refine Nat.lt_of_le_of_ne (Nat.le_of_lt_succ hle) fun heq => ?_
      rw [heq, hnew] at hkind
      cases hkind
    have hkind' : (t.scope method).kind.isMethod = true := (hold hlt).1.isMethod ▸ hkind
    have hcount := h.count hkind'
    rw [(hold hlt).2, hdeclared, firstNumber_append (h.length ▸ hlt)]
    by_cases heq : method = t.blockMethod enclosing
    · rw [if_pos heq, if_pos ((h.eq_blockMethod_iff hkind').1 heq), blockCount_countBlock hkind',
        List.length_append, List.length_singleton, hcount]
      omega
    · rw [if_neg heq, if_neg fun hm => heq ((h.eq_blockMethod_iff hkind').2 hm), List.append_nil]
      exact hcount
  · intro method block n hblock
    rw [hdeclared] at hblock
    rcases Nat.lt_or_ge n (t.declaredIn log method).length with hn | hn
    · rw [List.getElem?_append_left hn] at hblock
      have hmem := List.mem_of_getElem? hblock
      have hkind := (hold (h.length ▸ lt_length_of_mem_declaredIn hmem)).1.kind
      rw [h.index hblock] at hkind
      rw [firstNumber_append (h.lt_length_of_declaredIn hmem)]
      exact ScopeKind.eq_block hkind
    · rw [List.getElem?_append_right hn] at hblock
      split at hblock
      case isTrue hm =>
        have hkind := isMethod_of_enclosingMethod? hm
        obtain ⟨hn', rfl⟩ : n - (t.declaredIn log method).length = 0 ∧ block = log.length := by
          rw [List.getElem?_singleton] at hblock
          grind
        have hn : n = (t.declaredIn log method).length := by omega
        rw [h.length, hnew, hn, firstNumber_append (h.length ▸ lt_size_of_isMethod hkind),
          ← h.count hkind, (h.eq_blockMethod_iff hkind).2 hm]
        rfl
      case isFalse => cases hblock

end

theorem Built.numbered (h : Built t log) : Numbered t log := by
  induction h with
  | new =>
    refine ⟨rfl, new_sound.enclosing, ?_, ?_⟩
    · intro method hmethod
      obtain rfl : method = 0 := Nat.lt_one_iff.1 (lt_size_of_isMethod hmethod)
      cases hmethod
    · intro method block n hblock
      cases hblock
  | addScope _ name henclosing hcount ih => exact ih.addScope name henclosing hcount
  | declare _ scope name kind ih => exact ih.uncounted (declare_uncounted _ scope name kind)
  | declareMethod _ scope selector kind ih =>
    exact ih.uncounted (declareMethod_uncounted _ scope selector kind)
  | declareBlock _ henclosing ih => exact ih.declareBlock henclosing

/-! ### Blocks and their places -/

theorem nodup_declaredIn (t : SymbolTable) (log : List Opening) (method : ScopeId) :
    (t.declaredIn log method).Nodup :=
  List.nodup_range.filter _

/-- Two blocks of a method share a number only if both were declared after the last number. -/
theorem Numbered.kind_eq_iff (h : Numbered t log) {other : ScopeId} {i j : Nat}
    (hi : (t.declaredIn log method)[i]? = some block)
    (hj : (t.declaredIn log method)[j]? = some other) (hne : i ≠ j) :
    (t.scope block).kind = (t.scope other).kind ↔
      capacity ≤ firstNumber log method + i ∧ capacity ≤ firstNumber log method + j := by
  rw [h.index hi, h.index hj, ScopeKind.block.injEq]
  omega

/-- Blocks with different numbers all keep their places in the block table. -/
theorem blockAt?_putBlocks {codes : List (Nat × CompiledCode)} (hnodup : (codes.map Prod.fst).Nodup)
    {index : Nat} {code : CompiledCode} (hmem : (index, code) ∈ codes)
    (blocks : Array (Option CompiledCode)) :
    Emission.blockAt? (CodeContext.putBlocks blocks codes) index = some code := by
  induction codes using List.reverseRecOn with
  | nil => cases hmem
  | append_singleton codes last ih =>
    rw [List.map_append, List.nodup_append] at hnodup
    obtain ⟨hcodes, -, hlast⟩ := hnodup
    rw [CodeContext.putBlocks, List.foldl_append]
    change Emission.blockAt?
      (Emission.putBlock (CodeContext.putBlocks blocks codes) last.1 last.2) index = _
    rw [Emission.blockAt?_putBlock]
    rcases List.mem_append.1 hmem with hold | hnew
    · have hne : index ≠ last.1 :=
        hlast index (List.mem_map.2 ⟨_, hold, rfl⟩) last.1 (List.mem_singleton.2 rfl)
      rw [if_neg hne.symm]
      exact ih hcodes hold
    · obtain rfl := List.mem_singleton.1 hnew
      rw [if_pos rfl]

/-- While there are numbers left, no block of a method takes the place of another in the block
table, in whatever order they get there. -/
theorem Numbered.blockAt?_putBlocks (h : Numbered t log)
    (hroom : firstNumber log method + (t.declaredIn log method).length ≤ capacity + 1)
    (units : ScopeId → CompiledCode) {order : List ScopeId}
    (horder : order.Perm (t.declaredIn log method)) (hblock : block ∈ order) :
    Emission.blockAt? (CodeContext.putBlocks #[] (order.map fun scope =>
      ((t.scope scope).kind.blockNumber, units scope))) (t.scope block).kind.blockNumber =
        some (units block) := by
  refine SymbolTable.blockAt?_putBlocks ?_ (List.mem_map.2 ⟨block, hblock, rfl⟩) #[]
  rw [List.map_map, (horder.map _).nodup_iff]
  refine (List.nodup_map_iff_inj_on (t.nodup_declaredIn log method)).2 ?_
  intro b hb b' hb' hnumber
  obtain ⟨i, hi⟩ := List.mem_iff_getElem?.1 hb
  obtain ⟨j, hj⟩ := List.mem_iff_getElem?.1 hb'
  obtain ⟨hilt, -⟩ := List.getElem?_eq_some_iff.1 hi
  obtain ⟨hjlt, -⟩ := List.getElem?_eq_some_iff.1 hj
  have hkind : (t.scope b).kind = (t.scope b').kind := by
    simp only [Function.comp_apply, h.index hi, h.index hj, ScopeKind.blockNumber] at hnumber
    rw [h.index hi, h.index hj, hnumber]
  by_contra hne
  grind

/-- **The numbers of the blocks of a method.**  The `n`-th block declared in it has the number `n`
as long as there are numbers left, and the last number from then on; two blocks share a number only
in the second case, and up to then each block keeps its place in the block table. -/
theorem Built.block_numbers (h : Built t log) (method : ScopeId) :
    (∀ n block, (t.declaredIn log method)[n]? = some block →
      (t.scope block).kind = .block (min (firstNumber log method + n) capacity)) ∧
    (∀ i j block other, (t.declaredIn log method)[i]? = some block →
      (t.declaredIn log method)[j]? = some other → i ≠ j →
      ((t.scope block).kind = (t.scope other).kind ↔
        capacity ≤ firstNumber log method + i ∧ capacity ≤ firstNumber log method + j)) ∧
    (firstNumber log method + (t.declaredIn log method).length ≤ capacity + 1 →
      ∀ (units : ScopeId → CompiledCode) (order : List ScopeId),
        order.Perm (t.declaredIn log method) → ∀ block ∈ order,
          Emission.blockAt? (CodeContext.putBlocks #[] (order.map fun scope =>
            ((t.scope scope).kind.blockNumber, units scope))) (t.scope block).kind.blockNumber =
              some (units block)) :=
  ⟨fun _ _ => h.numbered.index, fun _ _ _ _ => h.numbered.kind_eq_iff,
    fun hroom units _ horder _ => h.numbered.blockAt?_putBlocks hroom units horder⟩

/-- A method can have any number of blocks. -/
theorem exists_built_length (n : Nat) :
    ∃ (t : SymbolTable) (log : List Opening), Built t log ∧ firstNumber log 1 = 0 ∧
      (t.scope 1).kind.isMethod = true ∧ (t.declaredIn log 1).length = n := by
  induction n with
  | zero =>
    have hmethod : (ScopeKind.method false 0).blockCount ≤ capacity := Nat.zero_le _
    exact ⟨_, _, .addScope .new "main" Nat.zero_lt_one hmethod, rfl, rfl, rfl⟩
  | succ n ih =>
    obtain ⟨t, log, hbuilt, hfirst, hmethod, hlength⟩ := ih
    have hlt := lt_size_of_isMethod hmethod
    have hbuilt' := hbuilt.declareBlock hlt
    have hself := hbuilt.numbered.enclosingMethod?_self hmethod
    refine ⟨_, _, hbuilt', ?_, ?_, ?_⟩
    · rw [firstNumber_append (hbuilt.numbered.length ▸ hlt)]
      exact hfirst
    · rw [(t.scope_declareBlock_of_lt 1 hlt).1.isMethod]
      exact hmethod
    · rw [hbuilt.numbered.declaredIn_declareBlock hlt, if_pos hself, List.length_append, hlength]
      rfl

/-- With more blocks than numbers, two blocks of a method share a number. -/
theorem exists_shared_number :
    ∃ (t : SymbolTable) (log : List Opening) (method block other : ScopeId), Built t log ∧
      firstNumber log method = 0 ∧ block ∈ t.declaredIn log method ∧
      other ∈ t.declaredIn log method ∧ block ≠ other ∧
      (t.scope block).kind = (t.scope other).kind := by
  obtain ⟨t, log, hbuilt, hfirst, -, hlength⟩ := exists_built_length (capacity + 2)
  have hi : capacity < (t.declaredIn log 1).length := by omega
  have hj : capacity + 1 < (t.declaredIn log 1).length := by omega
  refine ⟨t, log, 1, _, _, hbuilt, hfirst, List.getElem_mem hi, List.getElem_mem hj, ?_, ?_⟩
  · intro heq
    have := (t.nodup_declaredIn log 1).getElem_inj_iff.1 heq
    omega
  · refine ((hbuilt.block_numbers 1).2.1 capacity (capacity + 1) _ _
      (List.getElem?_eq_getElem hi) (List.getElem?_eq_getElem hj) (by omega)).2 ?_
    omega

end SymbolTable

end Smalltalk
