/-
**Variables are where the table says.**

The table of names knows for every variable how many scopes it is away and which number it has
there. A machine knows of running code only a chain of activations. The two agree: the activations
that code can see are those of the scopes around it, from the inside out and up to the method, and
each has as many variables as its scope. This holds for blocks, too, which may be run long after
the activation they were made in is over.

* `SymbolTable.IsCodeOf` — **the code that belongs to a scope**;
* `Machine.IsActivationOf` — **an activation of a scope**;
* `Compilation.lexical_addressing` — **variables are where the table says**.
-/

import Smalltalk.Proofs.Loops
import Smalltalk.Proofs.Safety

namespace Smalltalk

variable {t : SymbolTable} {programs : List Program} {r q : Routine} {C M S : ScopeId} {f : Frame}
  {depth : Nat} {m : Method} {block : Option Nat} {code : CompiledCode} {Λ : Origins} {m₀ : Machine}
  {c : Closure Value} {name : String} {id : SymbolId}

namespace SymbolTable

/-! ### The scopes around a routine -/

variable {scopes : List (List String)} {nest : List Nat} {stop : ScopeId}

/-- The scopes whose variables some code can see, from the inside out and up to the method. -/
def around (t : SymbolTable) (scope : ScopeId) : List ScopeId :=
  (t.outward scope).takeWhile fun s => (t.scope s).kind.isActivation

/-- The scope of a method, or of the block with a number inside of it. -/
def unitScope (M : ScopeId) : Option Nat → ScopeId
  | none => M
  | some n => M + 1 + n

/-- The scopes around a routine are those of the blocks around it and of the method. -/
theorem Located.around_eq (h : t.Located C M S scopes nest) (hsound : t.Sound)
    (hclass : (t.scope C).kind.isClass = true) :
    t.around S = (nest.map some ++ [none]).map (unitScope M) := by
  rw [around]
  induction h with
  | method hkind henclosing _ =>
    have hself : (t.scope M).kind.isActivation = true := by
      rw [ScopeKind.isActivation, hkind, Bool.true_or]
    have hout : (t.scope C).kind.isActivation = false := by
      cases hk : (t.scope C).kind <;> rw [hk] at hclass <;> first | rfl | cases hclass
    rw [outward_eq_cons hsound henclosing, outward_class hsound hclass,
      List.takeWhile_cons, if_pos hself, List.takeWhile_cons, if_neg (by simp [hout])]
    rfl
  | block hkind _ henclosing _ _ ih =>
    rw [outward_eq_cons hsound henclosing, List.takeWhile_cons_of_pos (by rw [hkind]; rfl), ih]
    rfl

/-- Before a scope that is found there are all those that come first. -/
theorem getElem?_length_takeWhile {chain : List ScopeId}
    (h : (chain.takeWhile (· ≠ stop)).length < chain.length) :
    chain[(chain.takeWhile (· ≠ stop)).length]? = some stop := by
  induction chain with
  | nil => cases h
  | cons s chain ih =>
    by_cases hs : s = stop
    · rw [List.takeWhile_cons_of_neg (by simp [hs]), hs]
      rfl
    · rw [List.takeWhile_cons_of_pos (by simp [hs]), List.length_cons] at h ⊢
      exact ih (Nat.lt_of_succ_lt_succ h)

theorem getElem?_outward_of_depth? (h : t.depth? S stop = some depth) :
    (t.outward S)[depth]? = some stop := by
  rw [depth?, Option.ite_none_right_eq_some, Bool.and_eq_true, decide_eq_true_eq] at h
  obtain ⟨⟨hlt, -⟩, hdepth⟩ := h
  rw [← Option.some.inj hdepth]
  exact getElem?_length_takeWhile hlt

/-- The scope of a variable is one of those around. -/
theorem eq_of_getElem?_around {s : ScopeId} (h : t.depth? S stop = some depth)
    (hs : (t.around S)[depth]? = some s) : s = stop := by
  have hout := getElem?_outward_of_depth? h
  rw [around] at hs
  obtain ⟨more, hmore⟩ :=
    List.takeWhile_prefix (l := t.outward S) fun s => (t.scope s).kind.isActivation
  grind

theorem Located.kind_eq_block {n : Nat} (h : t.Located C M S scopes (n :: nest)) :
    (t.scope S).kind = .block n := by
  cases h with
  | block hkind => exact hkind

/-! ### The code of a scope -/

/-- **The code that belongs to a scope**: that of a method, or that of the block of a method which
has the number of the scope. The variables of the scope are those that the source gives, first the
parameters in their order and then the local variables, and the code asks for as many. -/
@[grind cases]
structure IsCodeOf (t : SymbolTable) (programs : List Program) (S : ScopeId) (m : Method)
    (block : Option Nat) (code : CompiledCode) : Prop where
  unit : m.unit? block = some code
  method : ∃ C M, t.Declares m.address C M ∧ (t.scope M).code = some m.code ∧
    t.enclosingMethod? S = some M ∧ (block = none → S = M)
  kind {n : Nat} : block = some n → (t.scope S).kind = .block n
  names : ∃ r q, Program.routineAt? programs m.address = some r ∧ r.unit? block = some q ∧
    t.HasNames S q.names ∧ (t.scope S).argumentCount = q.arity
  slotCount : code.slotCount = (t.scope S).slotCount
  argumentCount : code.argumentCount = (t.scope S).argumentCount

/-- The scopes of the units of a method. -/
@[grind cases]
structure Houses (t : SymbolTable) (m : Method) (r : Routine) (C M : ScopeId) : Prop where
  declares : t.Declares m.address C M
  code : (t.scope M).code = some m.code
  implements : t.Implements C M r

theorem Houses.hasRoutine (h : t.Houses m r C M) (hq : r.unit? block = some q) :
    t.HasRoutine C M (unitScope M block) q := by
  cases block with
  | none =>
    obtain rfl := Option.some.inj hq
    exact h.implements.method
  | some n => exact h.implements.blocks hq

theorem Houses.isCodeOf (h : t.Houses m r C M) (hsound : t.Sound)
    (hT : (ClassTable.ofSymbols t).Implements programs)
    (hunit : (ClassTable.ofSymbols t).HasUnit programs m block code r q) :
    t.IsCodeOf programs (unitScope M block) m block code := by
  have hroutine := h.hasRoutine hunit.routine
  have hnames := hroutine.located.hasNames
  obtain ⟨N, span, hmethod⟩ := hunit.method
  refine ⟨hunit.code, ⟨C, M, h.declares, h.code, hroutine.located.enclosingMethod?_eq hsound, ?_⟩,
    ?_, ⟨r, q, hmethod.routine, hunit.routine, hnames, hroutine.arity⟩,
    (hunit.slotCount hT).trans hnames.count.symm,
    (hunit.argumentCount hT).trans hroutine.arity.symm⟩
  · rintro rfl
    rfl
  · rintro n rfl
    have hblock := (hunit.nested hT).2
    rw [Routine.block] at hblock
    obtain ⟨nest, hnest⟩ := List.head?_eq_some_iff.1 hblock
    have hlocated := hroutine.located
    rw [hnest] at hlocated
    exact hlocated.kind_eq_block

/-- The scopes around a unit. -/
theorem Houses.around_eq (h : t.Houses m r C M) (hsound : t.Sound) (hq : r.unit? block = some q) :
    t.around (unitScope M block) = q.units.map (unitScope M) :=
  (h.hasRoutine hq).located.around_eq hsound (hsound.isClass_of_mem h.declares.mem)

end SymbolTable

/-! ### Activations of scopes -/

section Activations

variable (t : SymbolTable) (programs : List Program)

/-- **An activation of a scope.**  It was started in the run for the code of the scope, with the
arguments first and nil for the local variables, and it has the variables of the scope. -/
structure Machine.IsActivationOf (m₀ m : Machine) (a : Nat) (S : ScopeId) : Prop where
  started : ∃ method block code, t.IsCodeOf programs S method block code ∧
    m₀.StartedBetween m a (method, block)
  row : ∃ row, m.store.activations[a]? = some row ∧ row.size = (t.scope S).slotCount

end Activations

/-! ### The blocks that there are -/

namespace Machine

variable {T : ClassTable} {m : Machine}

theorem Lawful.exists_frame (h : m.Lawful T programs Λ) (hf : f ∈ m.stack.frames) :
    ∃ given, f.Lawful T programs Λ given := by
  grind

/-- All blocks that there are were made within the law. -/
theorem Lawful.live (h : m.Lawful T programs Λ) (hc : m.Live c) :
    c.Pair (Λ.pairing T programs) c := by
  refine hc.pair h.pair (fun f hf => ?_) fun l hl => ⟨(h.loops l hl).condition, (h.loops l hl).body⟩
  obtain ⟨given, hf⟩ := h.exists_frame hf
  exact ⟨hf.receiver, hf.operands⟩

/-- **The activations that code can see** are those of the scopes around it. -/
theorem Lawful.forall₂_isActivationOf (h : m.Lawful (ClassTable.ofSymbols t) programs Λ)
    (hknows : m₀.Knows m Λ) (hsound : t.Sound) (hT : (ClassTable.ofSymbols t).Implements programs)
    {method : Method} (hhouses : t.Houses method r C M) {chain : List Nat}
    {units : List (Option Nat)}
    (hunits : ∀ block ∈ units, ∃ q code,
      (ClassTable.ofSymbols t).HasUnit programs method block code r q)
    (hcovers : Λ.Covers method chain units) :
    List.Forall₂ (m₀.IsActivationOf t programs m) chain (units.map (SymbolTable.unitScope M)) := by
  induction hcovers with
  | nil => exact .nil
  | @cons a block chain units horigin _ ih =>
    rw [List.forall_mem_cons] at hunits
    obtain ⟨⟨q, code, hunit⟩, hunits⟩ := hunits
    have hcode := hhouses.isCodeOf hsound hT hunit
    refine .cons ⟨⟨method, block, code, hcode, hknows a _ horigin⟩, ?_⟩ (ih hunits)
    obtain ⟨size, hsize, code', hcode', rfl⟩ := Forall₂.exists_getElem?_right h.rows horigin
    obtain rfl := Option.some.inj (hcode'.symm.trans hunit.code)
    rw [Store.rowSizes, List.getElem?_map, Array.getElem?_toList, Option.map_eq_some_iff] at hsize
    grind

end Machine

/-! ### Variables -/

namespace SymbolTable

/-- The method of a unit has its scopes. -/
theorem exists_houses {P : String → String → Nat → Prop} (hsound : t.Sound)
    (hrecords : t.Records (programs.flatMap Program.routines) t.Implements P)
    (hunit : (ClassTable.ofSymbols t).HasUnit programs m block code r q) :
    ∃ C M, t.Houses m r C M := by
  obtain ⟨N, span, hmethod⟩ := hunit.method
  obtain ⟨-, hcases⟩ := ClassTable.methodAt?_cases hsound hrecords hmethod.found
  rw [hmethod.compiled.primitive] at hcases
  obtain ⟨C, M, r', hdeclares, hr', himplements, hcode⟩ := hcases.resolve_left (by simp)
  obtain rfl := Option.some.inj (hr'.symm.trans hmethod.routine)
  exact ⟨C, M, hdeclares, hcode, himplements⟩

/-- A name that stands for a variable of a method or block is one of the names around. -/
theorem Houses.exists_slot (h : t.Houses m r C M) (hsound : t.Sound) (hq : r.unit? block = some q)
    (hid : t.resolve? (unitScope M block) name = some id) (hkind : IsSlotKind (t.symbol id).kind) :
    ∃ depth, slotOf? q.scopes name = some (depth, (t.symbol id).index) ∧
      t.depth? (unitScope M block) (t.symbol id).scope = some depth := by
  rcases (h.hasRoutine hq).located.resolve?_cases hsound name with
    ⟨depth, index, stop, id', kind, hslot, hid', -, hsymbol, hdepth, -⟩ | ⟨-, houter⟩
  · grind
  · rw [houter] at hid
    rcases Located.resolve?_class hsound (hsound.isClass_of_mem h.declares.mem) name with
      ⟨id', index, -, hid', hfield, -⟩ | ⟨-, hother⟩
    · obtain rfl := Option.some.inj (hid.symm.trans hid')
      rw [hfield] at hkind
      rcases hkind with hkind | hkind <;> cases hkind
    · have hvariable := hother id hid
      rcases hkind with hkind | hkind <;> rw [hkind] at hvariable <;> cases hvariable

end SymbolTable

/-- **The variable is found**: it is the one with its number in the activation of the scope that it
was declared in, as many steps out as the table says. -/
def Machine.Finds (t : SymbolTable) (programs : List Program) (m₀ m : Machine)
    (e : Environment Value) (S : ScopeId) (id : SymbolId) (depth : Nat) : Prop :=
  t.depth? S (t.symbol id).scope = some depth ∧ ∃ a v, e.chain[depth]? = some a ∧
    m₀.IsActivationOf t programs m a (t.symbol id).scope ∧
    m.store.slot? a (t.symbol id).index = some v

/-- **The code that an activation runs belongs to a scope.**  The activations it can see are those
of the scopes around it, and the variables are where the table says: all that have a name in the
scope, and those that the next instruction reads or changes. -/
structure Frame.Scoped (t : SymbolTable) (programs : List Program) (m₀ m : Machine) (f : Frame)
    (S : ScopeId) : Prop where
  code : t.IsCodeOf programs S f.method f.block f.code
  chain : List.Forall₂ (m₀.IsActivationOf t programs m) f.environment.chain (t.around S)
  names {name : String} {id : SymbolId} : t.resolve? S name = some id →
    SymbolTable.IsSlotKind (t.symbol id).kind →
    ∃ depth, m₀.Finds t programs m f.environment S id depth
  next {i : Instruction} {rest : List UInt8} {depth index : UInt16} :
    Instruction.read? f.rest = some (i, rest) →
    i = .pushLocal depth index ∨ i = .storeLocal depth index →
    ∃ name id, t.resolve? S name = some id ∧ SymbolTable.IsSlotKind (t.symbol id).kind ∧
      (t.symbol id).index = index.toNat ∧ m₀.Finds t programs m f.environment S id depth.toNat

namespace Machine

variable {m : Machine}

/-- What is needed to see the scopes in the state of a run. -/
structure Placed (t : SymbolTable) (programs : List Program) (Λ : Origins) (m₀ m : Machine) : Prop
    extends m.Lawful (ClassTable.ofSymbols t) programs Λ where
  knows : m₀.Knows m Λ
  sound : t.Sound
  implements : (ClassTable.ofSymbols t).Implements programs
  records : t.Records (programs.flatMap Program.routines) t.Implements Compilation.NotOfMain

theorem Placed.finds (h : Placed t programs Λ m₀ m)
    (hunit : (ClassTable.ofSymbols t).HasUnit programs f.method f.block f.code r q)
    (hchain : List.Forall₂ (m₀.IsActivationOf t programs m) f.environment.chain (t.around S))
    (hcovers : Λ.Covers f.method f.environment.chain q.units)
    (hslot : slotOf? q.scopes name = some (depth, (t.symbol id).index))
    (hdepth : t.depth? S (t.symbol id).scope = some depth) :
    m₀.Finds t programs m f.environment S id depth := by
  obtain ⟨a, v, ha, hv⟩ := Frame.Lawful.slot h.implements h.rows hunit hcovers ⟨name, hslot⟩
  obtain ⟨s, hs, hactivation⟩ := Forall₂.exists_getElem?_right hchain ha
  obtain rfl := SymbolTable.eq_of_getElem?_around hdepth hs
  exact ⟨hdepth, a, v, ha, hactivation, hv⟩

/-- Every activation in progress runs the code of a scope. -/
theorem Placed.scoped (h : Placed t programs Λ m₀ m) {given : Nat}
    (hf : f.Lawful (ClassTable.ofSymbols t) programs Λ given) :
    ∃ S, f.Scoped t programs m₀ m S := by
  obtain ⟨r, q, ops, hunit, hcovers, hspelled, hflows⟩ := hf.unit
  obtain ⟨C, M, hhouses⟩ := SymbolTable.exists_houses h.sound h.records hunit
  have hroutine := hhouses.hasRoutine hunit.routine
  have hchain : List.Forall₂ (m₀.IsActivationOf t programs m) f.environment.chain
      (t.around (SymbolTable.unitScope M f.block)) := by
    rw [hhouses.around_eq h.sound hunit.routine]
    exact h.toLawful.forall₂_isActivationOf h.knows h.sound h.implements hhouses
      (fun _ hmem => hunit.exists_of_mem_units h.implements hmem) hcovers
  refine ⟨_, hhouses.isCodeOf h.sound h.implements hunit, hchain, fun hid hkind => ?_,
    fun {i _ _ _} hread hi => ?_⟩
  · obtain ⟨depth, hslot, hdepth⟩ := hhouses.exists_slot h.sound hunit.routine hid hkind
    exact ⟨depth, h.finds hunit hchain hcovers hslot hdepth⟩
  · obtain ⟨op, ops, rfl⟩ := hflows.exists_cons
    obtain ⟨i', rest', hread', hwritten, -⟩ := hspelled.read?_cons
    obtain ⟨rfl, rfl⟩ := Prod.mk.inj (Option.some.inj (hread.symm.trans hread'))
    have hop : op = .plain i := by
      rcases hi with rfl | rfl <;> cases hwritten <;> rfl
    subst hop
    obtain ⟨name, hname⟩ := hflows.hasSlot hi
    rcases hroutine.located.resolve?_cases h.sound name with
      ⟨depth, index, stop, id, kind, hslot, hid, hkind, hsymbol, hdepth, -⟩ | ⟨hnone, -⟩
    · obtain ⟨rfl, rfl⟩ := Prod.mk.inj (Option.some.inj (hslot.symm.trans hname))
      have hindex : (t.symbol id).index = _ := congrArg Symbol.index hsymbol
      refine ⟨name, id, hid, by rw [hsymbol]; exact hkind, hindex, ?_⟩
      refine h.finds hunit hchain hcovers (?_ : slotOf? q.scopes name = _) ?_
      · rw [hsymbol]
        exact hslot
      · rw [hsymbol]
        exact hdepth
    · rw [hname] at hnone
      cases hnone

/-- Every block was made in an activation of the scope around it. -/
theorem Placed.live (h : Placed t programs Λ m₀ m) (hc : m.Live c) :
    ∃ S, t.IsCodeOf programs S c.method (some c.index) c.code ∧
      List.Forall₂ (m₀.IsActivationOf t programs m) c.environment.chain (t.around S).tail := by
  obtain ⟨r, q, hunit, hcovers⟩ := (h.toLawful.live hc).closure.2
  obtain ⟨C, M, hhouses⟩ := SymbolTable.exists_houses h.sound h.records hunit
  refine ⟨_, hhouses.isCodeOf h.sound h.implements hunit, ?_⟩
  rw [hhouses.around_eq h.sound hunit.routine, ← List.map_tail]
  exact h.toLawful.forall₂_isActivationOf h.knows h.sound h.implements hhouses
    (fun _ hmem => hunit.exists_of_mem_units h.implements (List.mem_of_mem_tail hmem)) hcovers

end Machine

namespace Compilation

/-- **Variables are where the table says.**  Take any sources without mistakes, compiled with any
options, and any state of a run of their main class. The code of every activation in progress
belongs to a scope, and so does that of every block there is. The activations that the code can see
are those of the scopes around, from the inside out and up to the method, and each has as many
variables as its scope. A variable that has a name in the scope is the one with its number in the
activation of the scope it was declared in; and so is each variable that the code reads or
changes. -/
theorem lexical_addressing {options : CompileOptions} {sources : List String}
    (hfit : ∀ source ∈ sources, (Program.parse source).IsFit)
    (herrors : (ofPrograms options (sources.map Program.parse)).errors = #[]) {m₀ m : Machine}
    (hstart : (Machine.new (ClassTable.ofSymbols
      (ofPrograms options (sources.map Program.parse)).table)).start? mainClass = some m₀)
    {n : Nat} (hsteps : m₀.steps n = .running m) :
    let t := (ofPrograms options (sources.map Program.parse)).table
    let programs := allPrograms options (sources.map Program.parse)
    (∀ f ∈ m.stack.frames, ∃ S, f.Scoped t programs m₀ m S) ∧
    ∀ c, m.Live c → ∃ S, t.IsCodeOf programs S c.method (some c.index) c.code ∧
      List.Forall₂ (m₀.IsActivationOf t programs m) c.environment.chain (t.around S).tail := by
  have hT := classes_implement hfit herrors
  have hfits : ∀ p ∈ sources.map Program.parse, p.BlocksFit := by
    intro p hp
    obtain ⟨source, hsource, rfl⟩ := List.mem_map.1 hp
    exact (hfit source hsource).2
  obtain ⟨Λ, hlawful, hknows⟩ := Machine.exists_lawful hT hstart hsteps
  have hplaced : Machine.Placed (ofPrograms options (sources.map Program.parse)).table
      (allPrograms options (sources.map Program.parse)) Λ m₀ m :=
    ⟨hlawful, hknows, (ofPrograms_sound options _).1, hT, (ofPrograms_records hfits herrors).1⟩
  refine ⟨fun f hf => ?_, fun c hc => hplaced.live hc⟩
  obtain ⟨given, hf⟩ := hlawful.exists_frame hf
  exact hplaced.scoped hf

/-! ### A block within a block -/

/-- A program that runs a block whose surroundings are over: it uses variables of three scopes. -/
def nestedBlocks : List String :=
  ["| n b | n := 5. b := [:x | [:y | x + (y + n)]]. ^(b value: 1) value: 2"]

/-- What the program is compiled to. -/
def nestedBlocksCompiled : Compilation :=
  ofPrograms ⟨"main.st", false, false⟩ (nestedBlocks.map Program.parse)

/-- Is the innermost activation about to read the first variable two scopes away? -/
def isReadingOuter (m : Machine) : Bool :=
  m.stack.frames.head?.any fun f =>
    (Instruction.read? f.rest).map Prod.fst = some (.pushLocal 2 0)

set_option maxRecDepth 100000 in
/-- The inner block reads a variable of the main method, by way of an activation that is over. -/
theorem nestedBlocks_addressing :
    (∀ source ∈ nestedBlocks, (Program.parse source).IsFit) ∧ nestedBlocksCompiled.errors = #[] ∧
    ∃ m₀ m f frames S name id, (Machine.new (ClassTable.ofSymbols
        nestedBlocksCompiled.table)).start? mainClass = some m₀ ∧ m₀.steps 15 = .running m ∧
      m.stack.frames = f :: frames ∧
      (Instruction.read? f.rest).map Prod.fst = some (.pushLocal 2 0) ∧
      nestedBlocksCompiled.table.resolve? S name = some id ∧
      (nestedBlocksCompiled.table.symbol id).index = 0 ∧
      m₀.Finds nestedBlocksCompiled.table
        (allPrograms ⟨"main.st", false, false⟩ (nestedBlocks.map Program.parse)) m f.environment S
        id 2 := by
  have hfit : ∀ source ∈ nestedBlocks, (Program.parse source).IsFit := by decide +kernel
  have herrors : nestedBlocksCompiled.errors = #[] := by decide +kernel
  have hafter : Machine.holdsAfter (ClassTable.ofSymbols nestedBlocksCompiled.table) 15
      isReadingOuter = true := by decide +kernel
  obtain ⟨m₀, m, hstart, hsteps, hreading⟩ := Machine.exists_of_holdsAfter hafter
  rw [isReadingOuter] at hreading
  cases hframes : m.stack.frames with
  | nil => rw [hframes] at hreading; cases hreading
  | cons f frames =>
    rw [hframes] at hreading
    have hread : (Instruction.read? f.rest).map Prod.fst = some (.pushLocal 2 0) :=
      of_decide_eq_true hreading
    obtain ⟨⟨i, rest⟩, hi, rfl⟩ := Option.map_eq_some_iff.1 hread
    obtain ⟨S, hS⟩ := (lexical_addressing hfit herrors hstart hsteps).1 f
      (by rw [hframes]; exact List.mem_cons_self)
    obtain ⟨name, id, hid, -, hindex, hfinds⟩ := hS.next hi (.inl rfl)
    exact ⟨hfit, herrors, m₀, m, f, frames, S, name, id, hstart, hsteps, hframes, hread, hid,
      hindex, hfinds⟩

end Compilation

end Smalltalk
