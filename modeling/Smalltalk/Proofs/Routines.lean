/-
**The code of a program as it is written down.**

A program is a number of routines: its methods, the blocks inside of them, and the top-level
statements. A routine knows the names that can be used in it, from the inside out, so that where a
variable is found can be told from the source alone, without a table: a name is a parameter or local
variable of the nearest routine around it that has one, else the last field of that name, else a
global. The blocks of a method are numbered in the order in which they start.

From this the operations that stand for a tree are read off once more, this time without scopes.

* `Routine` — **a method or a block with the names around it**;
* `placeOf?` — **where a variable is found**;
* `Naming.exprCode`, `blockCode`, `methodCode` — **the operations of a tree**;
* `Routine.Has.inside` — **the blocks of a method are numbered as they are nested**.
-/

import Smalltalk.Proofs.Emission

namespace Smalltalk

variable {Q : Nat → Routine → Prop} {n : Nat} {q r : Routine}

/-! ### Counting blocks -/

mutual

/-- The number of blocks in an expression. -/
def exprBlockCount : Expr Unit → Nat
  | .array _ items _ => exprsBlockCount items
  | .block _ _ _ statements _ _ => statementsBlockCount statements + 1
  | .group _ inner _ => exprBlockCount inner
  | .unary receiver _ => exprBlockCount receiver
  | .binary receiver _ argument => exprBlockCount receiver + exprBlockCount argument
  | .keyword receiver _ arguments => exprBlockCount receiver + exprsBlockCount arguments
  | .literal _ _ _ | .super _ | .variable _ | .invalid _ => 0

/-- The number of blocks in some expressions. -/
def exprsBlockCount : List (Expr Unit) → Nat
  | [] => 0
  | e :: es => exprBlockCount e + exprsBlockCount es

/-- The number of blocks in a statement. -/
def statementBlockCount : Statement Unit → Nat
  | .assignment _ value | .answer _ value | .expression value => exprBlockCount value

/-- The number of blocks in some statements. -/
def statementsBlockCount : List (Statement Unit) → Nat
  | [] => 0
  | s :: ss => statementBlockCount s + statementsBlockCount ss

end

/-! ### Routines -/

/-- **A method or a block**, with the names that can be used in it. -/
structure Routine where
  /-- The method, or the method that the block is part of. -/
  address : MethodAddress
  /-- The number of the block in the method, and those of the blocks around it from the inside out. -/
  nest : List Nat
  /-- The parameters and local variables of the routine itself, and of those around it from the
  inside out. -/
  scopes : List (List String)
  /-- The number of parameters. -/
  arity : Nat
  /-- The statements. -/
  statements : List (Statement Unit)

namespace Routine

/-- The names of some parameters and local variables. -/
def namesOf (parameters locals : List Token) : List String :=
  parameters.map Token.name ++ locals.map Token.name

/-- A method. -/
def ofMethod (address : MethodAddress) (parameters : List Token) (body : Body Unit) : Routine :=
  ⟨address, [], [namesOf parameters body.locals], parameters.length, body.statements⟩

/-- The block with a number inside of a routine. -/
def inner (r : Routine) (n : Nat) (parameters locals : List Token)
    (statements : List (Statement Unit)) : Routine :=
  ⟨r.address, n :: r.nest, namesOf parameters locals :: r.scopes, parameters.length, statements⟩

/-- The number of the block in the method; a method has none. -/
def block (r : Routine) : Option Nat := r.nest.head?

/-- The name of the class, the selector of the method and the names of the blocks down to this
one. -/
def path (r : Routine) : List String :=
  r.address.className :: r.address.selector
    :: r.nest.reverse.map fun n => "block" ++ toString n

/-- The name, with the names of everything around it. -/
def name (r : Routine) : String := ">>".intercalate r.path

/-- The parameters and local variables of the routine itself. -/
def names (r : Routine) : List String := r.scopes.headD []

/-- The number of parameters and local variables. -/
def slotCount (r : Routine) : Nat := r.names.length

/-- The number of the first block inside of a routine. -/
def firstBlock (r : Routine) : Nat :=
  match r.block with
  | none => 0
  | some n => n + 1

end Routine

mutual

/-- The blocks of an expression of a routine, in the order in which they start. The first one has
the number `n`. -/
def exprRoutines (r : Routine) (n : Nat) : Expr Unit → List Routine
  | .array _ items _ => exprsRoutines r n items
  | .block _ parameters locals statements _ _ =>
    r.inner n parameters locals statements
      :: statementsRoutines (r.inner n parameters locals statements) (n + 1) statements
  | .group _ inner _ => exprRoutines r n inner
  | .unary receiver _ => exprRoutines r n receiver
  | .binary receiver _ argument =>
    exprRoutines r n receiver ++ exprRoutines r (n + exprBlockCount receiver) argument
  | .keyword receiver _ arguments =>
    exprRoutines r n receiver ++ exprsRoutines r (n + exprBlockCount receiver) arguments
  | .literal _ _ _ | .super _ | .variable _ | .invalid _ => []

/-- The blocks of some expressions. -/
def exprsRoutines (r : Routine) (n : Nat) : List (Expr Unit) → List Routine
  | [] => []
  | e :: es => exprRoutines r n e ++ exprsRoutines r (n + exprBlockCount e) es

/-- The blocks of a statement. -/
def statementRoutines (r : Routine) (n : Nat) : Statement Unit → List Routine
  | .assignment _ value | .answer _ value | .expression value => exprRoutines r n value

/-- The blocks of some statements. -/
def statementsRoutines (r : Routine) (n : Nat) : List (Statement Unit) → List Routine
  | [] => []
  | s :: ss => statementRoutines r n s ++ statementsRoutines r (n + statementBlockCount s) ss

end

/-- **The blocks inside of a routine**, in the order in which they start. -/
def Routine.blocks (r : Routine) : List Routine := statementsRoutines r r.firstBlock r.statements

section Parts

variable (r : Routine) (n : Nat) (ss : List (Statement Unit)) {e : Expr Unit}

/-- The blocks of an expression other than a block are those of its parts. -/
theorem exprRoutines_of_none (h : e.body? = none) :
    exprRoutines r n e = exprsRoutines r n e.children := by
  cases e <;> simp [exprRoutines, Expr.children, exprsRoutines]
  cases h

theorem exprBlockCount_of_none (h : e.body? = none) :
    exprBlockCount e = exprsBlockCount e.children := by
  cases e <;> simp [exprBlockCount, Expr.children, exprsBlockCount]
  cases h

theorem statementsBlockCount_eq :
    statementsBlockCount ss = exprsBlockCount (ss.map Statement.value) := by
  induction ss with
  | nil => rfl
  | cons s ss ih =>
    rw [statementsBlockCount, ih, List.map_cons, exprsBlockCount]
    cases s <;> rfl

theorem statementsRoutines_eq :
    statementsRoutines r n ss = exprsRoutines r n (ss.map Statement.value) := by
  induction ss generalizing n with
  | nil => rfl
  | cons s ss ih =>
    rw [statementsRoutines, ih, List.map_cons, exprsRoutines]
    cases s <;> rfl

end Parts

theorem length_exprRoutines (r : Routine) (n : Nat) (e : Expr Unit) :
    (exprRoutines r n e).length = exprBlockCount e := by
  induction e using Expr.byChildren generalizing r n with
  | _ e ih =>
    have hall (r : Routine) (n : Nat) :
        (exprsRoutines r n e.children).length = exprsBlockCount e.children := by
      generalize e.children = es at ih
      induction es generalizing n with
      | nil => rfl
      | cons d ds ihs =>
        obtain ⟨hd, hds⟩ := List.forall_mem_cons.1 ih
        rw [exprsRoutines, exprsBlockCount, List.length_append, hd, ihs _ hds]
    cases hb : e.body? with
    | none => rw [exprRoutines_of_none r n hb, exprBlockCount_of_none hb, hall]
    | some b =>
      cases e <;> cases hb
      rw [exprRoutines, exprBlockCount, List.length_cons, statementsRoutines_eq,
        statementsBlockCount_eq]
      exact congrArg (· + 1) (hall _ _)

theorem length_statementRoutines (r : Routine) (n : Nat) (s : Statement Unit) :
    (statementRoutines r n s).length = statementBlockCount s := by
  cases s <;> exact length_exprRoutines r n _

theorem length_statementsRoutines (r : Routine) (n : Nat) (ss : List (Statement Unit)) :
    (statementsRoutines r n ss).length = statementsBlockCount ss := by
  induction ss generalizing n with
  | nil => rfl
  | cons s ss ih =>
    rw [statementsRoutines, statementsBlockCount, List.length_append, length_statementRoutines, ih]

/-! ### Numbering -/

/-- The routines of a list have some property, each with its number, when the first one has the
number `n`. -/
def NumberedFrom (Q : Nat → Routine → Prop) (n : Nat) (qs : List Routine) : Prop :=
  ∀ i q, qs[i]? = some q → Q (n + i) q

section NumberedFrom

variable {qs qs' : List Routine}

theorem NumberedFrom.nil : NumberedFrom Q n [] := fun i q h => by simp at h

theorem numberedFrom_cons :
    NumberedFrom Q n (q :: qs) ↔ Q n q ∧ NumberedFrom Q (n + 1) qs := by
  refine ⟨fun h => ⟨h 0 q rfl, fun i q' hq' => ?_⟩, fun h i q' hq' => ?_⟩
  · rw [Nat.add_assoc, Nat.add_comm 1 i]
    exact h (i + 1) q' hq'
  · cases i with
    | zero =>
      obtain rfl := Option.some.inj hq'
      exact h.1
    | succ i =>
      rw [Nat.add_comm i 1, ← Nat.add_assoc]
      exact h.2 i q' hq'

theorem numberedFrom_append {k : Nat} (hk : qs.length = k) :
    NumberedFrom Q n (qs ++ qs') ↔ NumberedFrom Q n qs ∧ NumberedFrom Q (n + k) qs' := by
  subst hk
  refine ⟨fun h => ⟨fun i q hq => h i q ?_, fun i q hq => ?_⟩, fun h i q hq => ?_⟩
  · grind
  · rw [Nat.add_assoc]
    refine h _ q ?_
    grind
  · rcases Nat.lt_or_ge i qs.length with hi | hi
    · rw [List.getElem?_append_left hi] at hq
      exact h.1 i q hq
    · rw [List.getElem?_append_right hi] at hq
      have := h.2 _ q hq
      rwa [Nat.add_assoc, Nat.add_sub_cancel' hi] at this

end NumberedFrom

variable {method : Routine} {index : Nat} {name : String}

theorem arity_le_length_namesOf (parameters locals : List Token) :
    parameters.length ≤ (Routine.namesOf parameters locals).length := by
  rw [Routine.namesOf, List.length_append, List.length_map]
  exact Nat.le_add_right _ _

/-- The routine is the block of a method that has its number. -/
def Routine.Has (method : Routine) (n : Nat) (q : Routine) : Prop := method.blocks[n]? = some q

/-- **A block of a method**: its number is its place among all blocks of the method, it is nested
no deeper than there are blocks before it, and the blocks inside of it come right after it. -/
@[grind cases]
structure Routine.Inside (method : Routine) (n : Nat) (q : Routine) : Prop where
  block : q.block = some n
  address : q.address = method.address
  depth : q.scopes.length ≤ n + 2
  arity : q.arity ≤ q.slotCount
  blocks : NumberedFrom method.Has (n + 1) (statementsRoutines q (n + 1) q.statements)

section Blocks

variable {P H : Nat → Routine → Prop} (hmono : ∀ {n k r}, n ≤ k → P n r → P k r)
  (hblock : ∀ {n r parameters locals statements}, P n r →
    H n (r.inner n parameters locals statements) →
    NumberedFrom H (n + 1)
      (statementsRoutines (r.inner n parameters locals statements) (n + 1) statements) →
    Q n (r.inner n parameters locals statements) ∧
      P (n + 1) (r.inner n parameters locals statements))

include hmono

theorem exprsRoutines_handed {es : List (Expr Unit)}
    (hes : ∀ e ∈ es, ∀ {n : Nat} {r : Routine}, P n r → NumberedFrom H n (exprRoutines r n e) →
      NumberedFrom Q n (exprRoutines r n e))
    (hr : P n r) (h : NumberedFrom H n (exprsRoutines r n es)) :
    NumberedFrom Q n (exprsRoutines r n es) := by
  induction es generalizing n with
  | nil => exact .nil
  | cons e es ih =>
    obtain ⟨he, hes⟩ := List.forall_mem_cons.1 hes
    rw [exprsRoutines, numberedFrom_append (length_exprRoutines r n e)] at h ⊢
    exact ⟨he hr h.1, ih hes (hmono (Nat.le_add_right _ _) hr) h.2⟩

include hblock

/-- **What is handed down to the blocks of a tree** holds of all of them. -/
theorem exprRoutines_handed (e : Expr Unit) : ∀ {n : Nat} {r : Routine}, P n r →
    NumberedFrom H n (exprRoutines r n e) → NumberedFrom Q n (exprRoutines r n e) := by
  induction e using Expr.byChildren with
  | _ e ih =>
    intro n r hr h
    cases hb : e.body? with
    | none =>
      rw [exprRoutines_of_none r n hb] at h ⊢
      exact exprsRoutines_handed (P := P) hmono ih hr h
    | some b =>
      cases e <;> cases hb
      rw [exprRoutines, numberedFrom_cons] at h ⊢
      obtain ⟨hself, hinner⟩ := hblock hr h.1 h.2
      rw [statementsRoutines_eq] at h ⊢
      exact ⟨hself, exprsRoutines_handed (P := P) hmono ih hinner h.2⟩

theorem statementsRoutines_handed (ss : List (Statement Unit)) (hr : P n r)
    (h : NumberedFrom H n (statementsRoutines r n ss)) :
    NumberedFrom Q n (statementsRoutines r n ss) := by
  rw [statementsRoutines_eq] at h ⊢
  exact exprsRoutines_handed (P := P) hmono
    (fun e _ => exprRoutines_handed (P := P) hmono hblock e) hr h

end Blocks

/-- The blocks of a method are all its own. -/
theorem Routine.has_blocks (hblock : method.block = none) :
    NumberedFrom method.Has 0 (statementsRoutines method 0 method.statements) := by
  intro i q hq
  rw [Routine.Has, Nat.zero_add, Routine.blocks, Routine.firstBlock, hblock]
  exact hq

/-- **The block with a number** is inside of its method. -/
theorem Routine.Has.inside (h : method.Has n q) (hblock : method.block = none)
    (hdepth : method.scopes.length = 1) : method.Inside n q := by
  have hall := statementsRoutines_handed (Q := method.Inside)
    (P := fun n r => r.address = method.address ∧ r.scopes.length ≤ n + 1)
    (fun hle hr => ⟨hr.1, Nat.le_trans hr.2 (Nat.succ_le_succ hle)⟩)
    (fun hr _ hblocks =>
      have hlength := Nat.succ_le_succ hr.2
      ⟨⟨rfl, hr.1, hlength, arity_le_length_namesOf _ _, hblocks⟩, hr.1, hlength⟩)
    method.statements ⟨rfl, Nat.le_of_eq hdepth⟩ (Routine.has_blocks hblock)
  have hq := h
  rw [Routine.Has, Routine.blocks, Routine.firstBlock, hblock] at hq
  have := hall n q hq
  rwa [Nat.zero_add] at this

theorem Routine.Has.lt (h : method.Has n q) : n < statementsBlockCount method.statements := by
  rw [← length_statementsRoutines method method.firstBlock]
  exact (List.getElem?_eq_some_iff.1 h).1

/-! ### Where variables are found -/

/-- How far out a name is declared, and its position there. -/
def slotOf? : List (List String) → String → Option (Nat × Nat)
  | [], _ => none
  | names :: outer, name =>
    if name ∈ names then some (0, names.idxOf name)
    else (slotOf? outer name).map fun found => (found.1 + 1, found.2)

/-- The position of the last field with a name. -/
def fieldOf? : List String → String → Option Nat
  | [], _ => none
  | field :: fields, name =>
    match fieldOf? fields name with
    | some index => some (index + 1)
    | none => if field = name then some 0 else none

/-- **Where a variable is found** in a routine with some names around it, in a class with some
fields. A name that is none of them is one of a global. -/
def placeOf? (scopes : List (List String)) (fields : List String) (name : String) :
    Option CodeContext.Place :=
  match slotOf? scopes name with
  | some (depth, index) => some (.slot depth index)
  | none => (fieldOf? fields name).map .field

theorem slotOf?_lt {scopes : List (List String)} {depth : Nat}
    (h : slotOf? scopes name = some (depth, index)) :
    ∃ names, scopes[depth]? = some names ∧ index < names.length := by
  induction scopes generalizing depth with
  | nil => cases h
  | cons names outer ih =>
    rw [slotOf?] at h
    split at h
    case isTrue hmem =>
      grind
    case isFalse =>
      obtain ⟨found, hfound, heq⟩ := Option.map_eq_some_iff.1 h
      obtain ⟨rfl, rfl⟩ := Prod.mk.inj heq
      exact ih hfound

theorem fieldOf?_lt {fields : List String} (h : fieldOf? fields name = some index) :
    index < fields.length := by
  induction fields generalizing index with
  | nil => cases h
  | cons field fields ih =>
    rw [fieldOf?] at h
    grind

/-- Fields that are declared later hide those with the same name. -/
theorem fieldOf?_append (inherited own : List String) (name : String) :
    fieldOf? (inherited ++ own) name =
      match fieldOf? own name with
      | some index => some (inherited.length + index)
      | none => fieldOf? inherited name := by
  induction inherited with
  | nil =>
    rw [List.nil_append]
    cases fieldOf? own name with
    | none => rfl
    | some index => simp
  | cons field inherited ih =>
    rw [List.cons_append, fieldOf?, ih]
    cases fieldOf? own name with
    | none => rfl
    | some index =>
      dsimp only
      rw [List.length_cons, Nat.add_right_comm]

/-! ### The methods of programs -/

/-- A method of a class, if it has code. -/
def MethodDef.routine? (className : String) (m : MethodDef Unit) : Option Routine :=
  match m.body with
  | .code body => some (.ofMethod ⟨className, m.isClassSide, m.selector⟩ m.parameters body)
  | .primitive _ => none

/-- The methods of a class that have code. -/
def ClassDef.routines (c : ClassDef Unit) : List Routine :=
  c.methods.filterMap (MethodDef.routine? c.name)

namespace Program

/-- **The methods of a program** that have code, with the top-level statements last. -/
def routines (p : Program) : List Routine :=
  p.classes.flatMap ClassDef.routines
    ++ if p.hasMain then [.ofMethod ⟨mainClass, false, mainMethod⟩ [] p.main] else []

/-- **The method of some programs with an address**: the first one counts. -/
def routineAt? (programs : List Program) (address : MethodAddress) : Option Routine :=
  (programs.flatMap routines).find? fun r => r.address = address

/-- No method has more blocks than can be numbered. -/
def BlocksFit (p : Program) : Prop :=
  ∀ r ∈ p.routines, statementsBlockCount r.statements ≤ 65535

instance (p : Program) : Decidable p.BlocksFit :=
  inferInstanceAs (Decidable (∀ r ∈ p.routines, statementsBlockCount r.statements ≤ 65535))

end Program

/-! ### The operations of a tree -/

/-- What the operations of a routine depend on besides its statements. -/
structure Naming where
  /-- The operations that record a place. -/
  marks : Span → List Op
  /-- The fields of the class, the inherited ones first. -/
  fields : List String

namespace Naming

variable (N : Naming)

/-- The operations that push a variable or a global. -/
def variableCode (scopes : List (List String)) (name : Token) : List Op :=
  match placeOf? scopes N.fields name.text with
  | some (.field index) => [.plain (.pushField (UInt16.ofNat index))]
  | some (.slot depth index) =>
    [.plain (.pushLocal (UInt16.ofNat depth) (UInt16.ofNat index))]
  | none => N.marks name.span ++ [.global name.text]

/-- The operations that store in a variable. -/
def storeCode (scopes : List (List String)) (target : Token) : List Op :=
  match placeOf? scopes N.fields target.name with
  | some (.field index) => [.plain (.storeField (UInt16.ofNat index))]
  | some (.slot depth index) =>
    [.plain (.storeLocal (UInt16.ofNat depth) (UInt16.ofNat index))]
  | none => [.invalid]

mutual

/-- **The operations of an expression**, whose first block has the number `n`. -/
def exprCode (scopes : List (List String)) (n : Nat) : Expr Unit → List Op
  | .array _ items _ => exprsCode scopes n items ++ [.array items.length]
  | .block _ _ _ _ _ _ => [.plain (.block (UInt16.ofNat n))]
  | .group _ inner _ => exprCode scopes n inner
  | .literal _ _ value => [CodeContext.literalOp value]
  | .unary receiver selector =>
    exprCode scopes n receiver ++ N.marks selector.span
      ++ [.send receiver.isSuper 0 selector.text]
  | .binary receiver operator argument =>
    exprCode scopes n receiver ++ exprCode scopes (n + exprBlockCount receiver) argument
      ++ N.marks operator.span ++ [.send receiver.isSuper 1 operator.text]
  | .keyword receiver keywords arguments =>
    exprCode scopes n receiver ++ exprsCode scopes (n + exprBlockCount receiver) arguments
      ++ N.marks (CodeContext.firstSpan keywords)
      ++ [.send receiver.isSuper arguments.length (joinTexts keywords)]
  | .super _ => [.plain .pushSelf]
  | .variable name => N.variableCode scopes name
  | .invalid _ => [.invalid]

/-- The operations of some expressions. -/
def exprsCode (scopes : List (List String)) (n : Nat) : List (Expr Unit) → List Op
  | [] => []
  | e :: es => exprCode scopes n e ++ exprsCode scopes (n + exprBlockCount e) es

end

/-- **The operations of a statement.** -/
def statementCode (scopes : List (List String)) (n : Nat) : Statement Unit → List Op
  | .assignment target value =>
    N.exprCode scopes n value ++ N.marks (target.span.merge value.span)
      ++ N.storeCode scopes target
  | .answer caret value =>
    N.exprCode scopes n value ++ N.marks caret.span ++ [.plain .methodReturn]
  | .expression value => N.exprCode scopes n value

/-- The operations of some statements. -/
def statementsCode (scopes : List (List String)) (n : Nat) : List (Statement Unit) → List Op
  | [] => []
  | [s] => N.statementCode scopes n s
  | s :: ss =>
    N.statementCode scopes n s
      ++ .plain .pop :: statementsCode scopes (n + statementBlockCount s) ss

/-- The operations that end a block. -/
def blockEnd (statements : List (Statement Unit)) : List Op :=
  if endsWithAnswer statements then [] else [.plain .blockReturn]

/-- **The operations of a block.** -/
def blockCode (scopes : List (List String)) (n : Nat) (statements : List (Statement Unit)) :
    List Op :=
  (if statements.isEmpty then [.plain .pushNil] else N.statementsCode scopes n statements)
    ++ blockEnd statements

/-- The operations that end a method. -/
def methodEnd (span : Span) (statements : List (Statement Unit)) : List Op :=
  match statements.getLast? with
  | none => N.marks span ++ [.plain .pushSelf, .plain .methodReturn]
  | some last =>
    if last.isAnswer then []
    else .plain .pop :: (N.marks last.span ++ [.plain .pushSelf, .plain .methodReturn])

/-- **The operations of a method.** -/
def methodCode (scopes : List (List String)) (span : Span) (statements : List (Statement Unit)) :
    List Op :=
  N.statementsCode scopes 0 statements ++ N.methodEnd span statements

end Naming

end Smalltalk
