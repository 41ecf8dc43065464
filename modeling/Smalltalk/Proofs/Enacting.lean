/-
**Code that does what its tree means.**

The operations of a tree, run in an activation of its routine, do what the tree means: those of an
expression push its value. This is shown along the tree, for calls of which it is known already.
No more has to be known of an operation than what it asks for.

* `Machine.Serves` — **calls that the machine makes as they are evaluated**;
* `Site.Runs.enact` — **an operation does what it asks for**;
* `Site.Runs.expr_realizes` — **an expression pushes its value**.
-/

import Smalltalk.Proofs.Asking

namespace Smalltalk

open ClassTable

variable {m : Machine} {f : Frame} {ops : List Op} {T : ClassTable} {op : Op} {s : Store}
  {operands operands₀ : List Value} {q : Progress} {P : Pairing} {rest : List UInt8}
  {programs : List Program} {N : Naming} {r : Routine} {x : Site} {k : Nat} {call : Calling}
  {o : Evaluation Value} {v : Value}

/-! ### Calls -/

namespace Machine

/-- The activation below goes on, or the loop that waits for the value. -/
def Returned (P : Pairing) (m : Machine) (v : Value) (s : Store) (q : Progress) : Prop :=
  ∃ v' s', v.Pair P v' ∧ s.Pair P s' ∧ q = m.exit s' 0 v'

/-- **Calls that the machine makes as they are evaluated**, for at least `k` steps if nothing is
known of them. -/
structure Serves (T : ClassTable) (programs : List Program) (k : Nat) (call : Calling) : Prop where
  method {m : Machine} (hm : m.Fair T) {s : Store} (hs : s.Pair (T.pairing programs) m.store)
    {a b : Method} (hab : (T.pairing programs).method a b)
    (hprimitive : b.code.primitive = none) {v v' : Value}
    (hv : v.Pair (T.pairing programs) v') {arguments arguments' : List Value}
    (harguments : List.Forall₂ (Value.Pair (T.pairing programs)) arguments arguments') :
    Realizes (T.pairing programs) m k (Returned (T.pairing programs) m)
      (m.enterMethod b v' arguments') (call (.method a v arguments) m.active s)
  block {m : Machine} (hm : m.Fair T) {s : Store} (hs : s.Pair (T.pairing programs) m.store)
    {c d : Closure Value} (hc : c.Pair (T.pairing programs) d)
    {arguments arguments' : List Value}
    (harguments : List.Forall₂ (Value.Pair (T.pairing programs)) arguments arguments') :
    Realizes (T.pairing programs) m k (Returned (T.pairing programs) m)
      (m.enterBlock d arguments') (call (.block c arguments) m.active s)
  loop {m : Machine} (hm : m.Fair T) (hdepth : 0 < m.stack.depth) {s : Store}
    (hs : s.Pair (T.pairing programs) m.store) {c d b b' : Closure Value}
    (hc : c.Pair (T.pairing programs) d) (hb : b.Pair (T.pairing programs) b')
    (repeatWhile : Bool) :
    Realizes (T.pairing programs) m k (Returned (T.pairing programs) m)
      (m.enterLoop d b' repeatWhile) (call (.loop c b repeatWhile) m.active s)

theorem Fair.proceed (h : m.Fair T) (f : Frame) (s : Store) (operands : List Value) :
    (m.proceed f s operands).Fair T where
  classes := h.classes
  transcript := h.transcript
  calm l hl := by
    change l.depth + 1 < (m.stack.replaceTop _).depth
    rw [CallStack.depth_replaceTop]
    exact h.calm l hl

end Machine

/-! ### Activations of a routine -/

/-- The innermost activation of a machine is one in which a tree of the site is run. -/
structure Site.Runs (T : ClassTable) (programs : List Program) (N : Naming) (r : Routine) (x : Site)
    (m : Machine) (f : Frame) : Prop extends x.Hosts T programs N r f where
  fair : m.Fair T
  top : ∃ below, m.stack.frames = f :: below
  active : x.active = m.active

namespace Machine

/-- **What is left to be run of an activation**: `f`, the innermost activation of `m`, has come so far
that some operations are left, with a store and some operands. -/
def At (P : Pairing) (m : Machine) (f : Frame) (ops : List Op) (s : Store) (operands : List Value)
    (q : Progress) : Prop :=
  ∃ rest mark s', Spelled f.code.literals rest ops ∧ s.Pair P s' ∧
    q = .running (m.proceed { f with rest := rest, mark := mark } s' operands)

/-- The activation has come so far that it has a value on top of its operands. -/
def Pushed (P : Pairing) (m : Machine) (f : Frame) (ops : List Op) (operands : List Value)
    (v : Value) (s : Store) (q : Progress) : Prop :=
  ∃ v', v.Pair P v' ∧ m.At P f ops s (v' :: operands) q

section Activation

variable {below : List Frame}

theorem active_proceed (htop : m.stack.frames = f :: below) (rest : List UInt8) (mark : Option Mark)
    (s : Store) (operands vs : List Value) :
    (m.proceed { f with rest := rest, mark := mark, operands := vs } s operands).active
      = m.active := by
  obtain ⟨classes, transcript, store, ⟨frames, depth, hdepth⟩, loops⟩ := m
  obtain rfl : frames = f :: below := htop
  rfl

theorem give_proceed (htop : m.stack.frames = f :: below) (rest : List UInt8) (mark : Option Mark)
    (s t : Store) (operands vs : List Value) (v : Value) :
    ((m.proceed { f with rest := rest, mark := mark, operands := vs } s operands).withStore t).give v
      = .running (m.proceed { f with rest := rest, mark := mark } t (v :: operands)) := by
  obtain ⟨classes, transcript, store, ⟨frames, depth, hdepth⟩, loops⟩ := m
  obtain rfl : frames = f :: below := htop
  rfl

/-- How many activations a return ends. -/
theorem returnCount?_eq {g : Frame} (htop : m.stack.frames = f :: below)
    (hself : f.environment.activation = g.environment.activation) :
    m.returnCount? g = (m.active.findIdx? (· = g.environment.home)).map (· + 1) := by
  rw [returnCount?]
  split
  case isTrue =>
    rw [active, List.findIdx?_map]
    rfl
  case isFalse hmethod =>
    have hnil : g.environment.enclosing = [] := by
      simpa [Environment.isBlock] using hmethod
    have hhome : g.environment.home = f.environment.activation := by
      rw [Environment.home, hnil, hself]
      rfl
    rw [active, htop, List.map_cons, List.findIdx?_cons, if_pos (by simp [hhome])]
    rfl

/-- The next operation is read and asks for something. -/
theorem step_proceed (htop : m.stack.frames = f :: below)
    (hrest : Spelled f.code.literals rest (op :: ops)) (mark : Option Mark) (s : Store)
    (operands : List Value) :
    ∃ i rest', op.Written f.code.literals i ∧ Spelled f.code.literals rest' ops ∧
      (m.proceed { f with rest := rest, mark := mark } s operands).step =
        (m.proceed { f with rest := rest, mark := mark } s operands).carryOut
          { f with rest := rest', mark := mark, operands := operands }
          ((m.proceed { f with rest := rest, mark := mark } s operands).action
            { f with rest := rest', mark := mark, operands := operands } i) := by
  obtain ⟨i, rest', hread, hop, hrest'⟩ := hrest.read?_cons
  refine ⟨i, rest', hop, hrest', ?_⟩
  rw [← execute_eq_carryOut]
  obtain ⟨classes, transcript, store, ⟨frames, depth, hdepth⟩, loops⟩ := m
  obtain rfl : frames = f :: below := htop
  exact step_of_read (f := { f with rest := rest, mark := mark, operands := operands }) rfl hread

end Activation

end Machine

namespace Site.Runs

open Machine

section

variable (hx : x.Runs T programs N r m f)

include hx

/-- A call from the activation goes on in the activation. -/
theorem realizes_of_call (hrest : Spelled f.code.literals rest ops) (mark : Option Mark)
    (s' : Store) (vs : List Value) {m₁ : Machine}
    (hm₁ : m₁ = m.proceed { f with rest := rest, mark := mark, operands := vs } s' operands₀)
    {p : Progress}
    (h : Realizes (T.pairing programs) m₁ k (Returned (T.pairing programs) m₁) p o) :
    Realizes (T.pairing programs) m k (m.Pushed (T.pairing programs) f ops operands₀) p o := by
  subst hm₁
  obtain ⟨below, htop⟩ := hx.top
  cases h with
  | value h hq =>
    obtain ⟨v', t, hv, ht, rfl⟩ := hq
    refine .value h ⟨v', hv, rest, mark, t, hrest, ht, ?_⟩
    rw [(hx.fair.proceed _ s' operands₀).calm.exit_zero, give_proceed htop]
  | answer h hv hs hhome hstep =>
    rw [active_proceed htop] at hhome
    rw [exit_proceed] at hstep
    exact .answer h hv hs hhome hstep
  | fault h hs => exact .fault h hs
  | unknown h => exact .unknown h

/-- **An operation does what it asks for.** -/
theorem enact (hserves : Serves T programs k call)
    (h : m.At (T.pairing programs) f (op :: ops) s operands q)
    (hasks : x.Asks T programs N r call op s operands operands₀ o) :
    Realizes (T.pairing programs) m (k + 1)
      (m.Pushed (T.pairing programs) f ops operands₀) q o := by
  obtain ⟨rest, mark, s', hrest, hs, rfl⟩ := h
  obtain ⟨below, htop⟩ := hx.top
  obtain ⟨i, rest', hop, hrest', hstep⟩ := step_proceed htop hrest mark s' operands
  refine .step ?_
  rw [hstep]
  have hdoes := hasks { f with rest := rest', mark := mark, operands := operands } _ i
    ⟨hx.method, hx.routine, hx.code, hx.address, hx.environment, hx.chain⟩ rfl
    (hx.fair.proceed { f with rest := rest, mark := mark } s' operands) hs hop
  generalize (m.proceed _ s' operands).action _ i = a at hdoes ⊢
  -- For the machine that makes a call the operands are taken already.
  have hcaller := hx.fair.proceed { f with rest := rest', mark := mark, operands := operands } s'
    operands₀
  have hactive := active_proceed htop rest' mark s' operands₀ operands
  rw [hx.active, ← hactive] at hdoes
  cases hdoes with
  | value hv ht =>
    refine .value (.refl _) ⟨_, hv, rest', mark, _, hrest', ht, ?_⟩
    rw [carryOut, proceed_proceed]
    rfl
  | fault reason => exact .fault (.refl _) hs
  | method hab hprimitive hv harguments =>
    rw [carryOut, proceed_proceed]
    exact hx.realizes_of_call hrest' mark s' operands rfl
      (hserves.method hcaller hs hab hprimitive hv harguments)
  | block hc harguments =>
    rw [carryOut, proceed_proceed]
    exact hx.realizes_of_call hrest' mark s' operands rfl (hserves.block hcaller hs hc harguments)
  | loop repeatWhile hc hb =>
    rw [carryOut, proceed_proceed]
    have hdepth : 0 < m.stack.depth := by
      rw [m.stack.depth_eq, htop]
      exact Nat.succ_pos _
    refine hx.realizes_of_call hrest' mark s' operands rfl
      (hserves.loop hcaller ?_ hs hc hb repeatWhile)
    rw [proceed, CallStack.depth_replaceTop]
    exact hdepth

/-- Marks do nothing. -/
theorem skip {marks : List Op} (hmarks : ∀ op ∈ marks, op.isWork = false)
    (h : m.At (T.pairing programs) f (marks ++ ops) s operands q) :
    ∃ q', q.Leads q' ∧ m.At (T.pairing programs) f ops s operands q' := by
  induction marks generalizing q with
  | nil => exact ⟨q, .refl q, h⟩
  | cons op marks ih =>
    obtain ⟨hop, hlater⟩ := List.forall_mem_cons.1 hmarks
    obtain ⟨file, line, column, rfl⟩ := Op.eq_mark_of_not_isWork (Bool.not_eq_true _ ▸ hop)
    obtain ⟨rest, mark, s', hrest, hs, rfl⟩ := h
    obtain ⟨below, htop⟩ := hx.top
    obtain ⟨i, rest', hop, hrest', hstep⟩ := step_proceed htop hrest mark s' operands
    cases hop with
    | plain _ =>
      obtain ⟨q', hq', hat⟩ := ih hlater
        ⟨rest', some ⟨file, line, column⟩, s', hrest', hs, rfl⟩
      refine ⟨q', .step ?_, hat⟩
      rw [hstep]
      change Progress.Leads (.running ((m.proceed _ s' operands).proceed
        { f with rest := rest', mark := some ⟨file, line, column⟩ } s' operands)) q'
      rw [proceed_proceed]
      exact hq'

/-- The top operand is dropped. -/
theorem pop (h : m.At (T.pairing programs) f (.plain .pop :: ops) s (v :: operands) q) :
    ∃ q', q.Leads q' ∧ m.At (T.pairing programs) f ops s operands q' := by
  obtain ⟨rest, mark, s', hrest, hs, rfl⟩ := h
  obtain ⟨below, htop⟩ := hx.top
  obtain ⟨i, rest', hop, hrest', hstep⟩ := step_proceed htop hrest mark s' (v :: operands)
  cases hop with
  | plain _ =>
    refine ⟨_, .step ?_, rest', mark, s', hrest', hs, rfl⟩
    rw [hstep]
    change Progress.Leads (.running ((m.proceed _ s' (v :: operands)).proceed
      { f with rest := rest', mark := mark } s' operands)) _
    rw [proceed_proceed]
    exact .refl _

end

end Site.Runs

/-! ### Trees -/

namespace Machine

/-- The activation has come so far that it has some values on top of its operands, the last one on
top. -/
def PushedAll (P : Pairing) (m : Machine) (f : Frame) (ops : List Op) (operands : List Value)
    (vs : List Value) (s : Store) (q : Progress) : Prop :=
  ∃ vs', List.Forall₂ (Value.Pair P) vs vs' ∧ m.At P f ops s (vs'.reverse ++ operands) q

/-- What cannot be written is not there. -/
theorem At.invalid (h : m.At P f (.invalid :: ops) s operands q) : False := by
  obtain ⟨rest, mark, s', hrest, -⟩ := h
  obtain ⟨i, rest', -, hop, -⟩ := hrest.read?_cons
  cases hop

end Machine

namespace Site.Runs

open Machine

variable {n : Nat} {v' : Value}

theorem marksOnly (hx : x.Runs T programs N r m f) : N.MarksOnly := by
  obtain ⟨span, hmethod⟩ := hx.method
  exact hmethod.compiled.marks

/-- Marks before an operation do nothing. -/
theorem enact_marked (hx : x.Runs T programs N r m f) (hserves : Serves T programs k call)
    (span : Span) (h : m.At (T.pairing programs) f (N.marks span ++ op :: ops) s operands q)
    (hasks : x.Asks T programs N r call op s operands operands₀ o) :
    Realizes (T.pairing programs) m (k + 1)
      (m.Pushed (T.pairing programs) f ops operands₀) q o := by
  obtain ⟨q', hq', hat⟩ := hx.skip (hx.marksOnly span) h
  exact (hx.enact hserves hat hasks).leads hq'

section

variable (hT : T.Implements programs) (hx : x.Runs T programs N r m f)
  (hserves : Serves T programs k call)

include hT hx hserves

theorem variable_realizes (name : Token)
    (h : m.At (T.pairing programs) f (N.variableCode x.routine.scopes name ++ ops) s operands q) :
    Realizes (T.pairing programs) m (k + 1) (m.Pushed (T.pairing programs) f ops operands) q
      (Meaning.read (Machine.new T.bare) x name.text s) := by
  rw [Naming.variableCode, placeOf?] at h
  cases hslot : slotOf? x.routine.scopes name.text with
  | some found =>
    rw [hslot] at h
    exact hx.enact hserves h (local_asks hT hslot)
  | none =>
    rw [hslot] at h
    cases hfield : fieldOf? N.fields name.text with
    | some index =>
      rw [hfield] at h
      exact hx.enact hserves h (field_asks hslot hfield)
    | none =>
      rw [hfield, Option.map_none] at h
      dsimp only at h
      rw [List.append_assoc] at h
      exact hx.enact_marked hserves name.span h (global_asks hT hslot hfield)

theorem store_realizes (target : Token) (hv : v.Pair (T.pairing programs) v')
    (h : m.At (T.pairing programs) f (N.storeCode x.routine.scopes target ++ ops) s
      (v' :: operands) q) :
    Realizes (T.pairing programs) m (k + 1) (m.Pushed (T.pairing programs) f ops operands) q
      (Meaning.write (Machine.new T.bare) x target.name v s) := by
  rw [Naming.storeCode, placeOf?] at h
  cases hslot : slotOf? x.routine.scopes target.name with
  | some found =>
    rw [hslot] at h
    exact hx.enact hserves h (storeLocal_asks hT hslot hv)
  | none =>
    rw [hslot] at h
    cases hfield : fieldOf? N.fields target.name with
    | some index =>
      rw [hfield] at h
      exact hx.enact hserves h (storeField_asks hslot hfield hv)
    | none =>
      rw [hfield] at h
      exact h.invalid.elim

end

mutual

/-- **An expression pushes its value.** -/
theorem expr_realizes (hT : T.Implements programs) (hx : x.Runs T programs N r m f)
    (hserves : Serves T programs k call) :
    ∀ (e : Expr Unit) {n : Nat} {ops : List Op} {s : Store} {operands : List Value} {q : Progress},
      NumberedFrom r.Has n (exprRoutines x.routine n e) →
      m.At (T.pairing programs) f (N.exprCode x.routine.scopes n e ++ ops) s operands q →
      Realizes (T.pairing programs) m (k + 1)
        (m.Pushed (T.pairing programs) f ops operands) q
        (Meaning.expr (Machine.new T.bare) call x n e s)
  | .array _ items _, n, ops, s, operands, q, hall, h => by
    rw [exprRoutines] at hall
    rw [Naming.exprCode, List.append_assoc] at h
    refine (exprs_realizes hT hx hserves items hall h).bind fun vs s q hq => ?_
    obtain ⟨hcount, vs', hvs, hat⟩ := hq
    rw [← hcount] at hat
    exact hx.enact hserves hat (array_asks hvs)
  | .block _ parameters locals statements _ _, n, ops, s, operands, q, hall, h => by
    rw [exprRoutines, numberedFrom_cons] at hall
    rw [Naming.exprCode] at h
    exact hx.enact hserves h
      (block_asks hT ((hx.hasUnit.numbered hT).toNat_ofNat hall.1) hall.1)
  | .group _ inner _, n, ops, s, operands, q, hall, h => by
    rw [exprRoutines] at hall
    rw [Naming.exprCode] at h
    exact expr_realizes hT hx hserves inner hall h
  | .literal _ _ value, n, ops, s, operands, q, _, h => by
    rw [Naming.exprCode] at h
    exact hx.enact hserves h (literal_asks hT value)
  | .unary receiver selector, n, ops, s, operands, q, hall, h => by
    rw [exprRoutines] at hall
    rw [Naming.exprCode, List.append_assoc, List.append_assoc] at h
    refine (expr_realizes hT hx hserves receiver hall h).bind fun v s q hq => ?_
    obtain ⟨v', hv, hat⟩ := hq
    exact hx.enact_marked hserves selector.span hat (send_asks hT _ _ hv .nil)
  | .binary receiver operator argument, n, ops, s, operands, q, hall, h => by
    rw [exprRoutines, numberedFrom_append (length_exprRoutines _ n receiver)] at hall
    rw [Naming.exprCode, List.append_assoc, List.append_assoc, List.append_assoc] at h
    refine (expr_realizes hT hx hserves receiver hall.1 h).bind fun v s q hq => ?_
    obtain ⟨v', hv, hat⟩ := hq
    refine (expr_realizes hT hx hserves argument hall.2 hat).bind fun w s q hq => ?_
    obtain ⟨w', hw, hat⟩ := hq
    exact hx.enact_marked hserves operator.span hat (send_asks hT _ _ hv (.cons hw .nil))
  | .keyword receiver keywords arguments, n, ops, s, operands, q, hall, h => by
    rw [exprRoutines, numberedFrom_append (length_exprRoutines _ n receiver)] at hall
    rw [Naming.exprCode, List.append_assoc, List.append_assoc, List.append_assoc] at h
    refine (expr_realizes hT hx hserves receiver hall.1 h).bind fun v s q hq => ?_
    obtain ⟨v', hv, hat⟩ := hq
    refine (exprs_realizes hT hx hserves arguments hall.2 hat).bind fun ws s q hq => ?_
    obtain ⟨hcount, ws', hws, hat⟩ := hq
    rw [← hcount] at hat
    exact hx.enact_marked hserves _ hat (send_asks hT _ _ hv hws)
  | .super _, n, ops, s, operands, q, _, h => by
    rw [Naming.exprCode] at h
    exact hx.enact hserves h self_asks
  | .variable name, n, ops, s, operands, q, _, h => by
    rw [Naming.exprCode] at h
    exact hx.variable_realizes hT hserves name h
  | .invalid _, n, ops, s, operands, q, _, h => by
    rw [Naming.exprCode] at h
    exact h.invalid.elim

/-- Expressions push their values, from left to right. -/
theorem exprs_realizes (hT : T.Implements programs) (hx : x.Runs T programs N r m f)
    (hserves : Serves T programs k call) :
    ∀ (es : List (Expr Unit)) {n : Nat} {ops : List Op} {s : Store} {operands : List Value}
      {q : Progress}, NumberedFrom r.Has n (exprsRoutines x.routine n es) →
      m.At (T.pairing programs) f (N.exprsCode x.routine.scopes n es ++ ops) s operands q →
      Realizes (T.pairing programs) m (k + 1)
        (fun vs s q => vs.length = es.length ∧
          m.PushedAll (T.pairing programs) f ops operands vs s q) q
        (Meaning.exprs (Machine.new T.bare) call x n es s)
  | [], n, ops, s, operands, q, _, h => by
    rw [Naming.exprsCode] at h
    exact .value (.refl q) ⟨rfl, [], .nil, h⟩
  | e :: es, n, ops, s, operands, q, hall, h => by
    rw [exprsRoutines, numberedFrom_append (length_exprRoutines _ n e)] at hall
    rw [Naming.exprsCode, List.append_assoc] at h
    refine (expr_realizes hT hx hserves e hall.1 h).bind fun v s q hq => ?_
    obtain ⟨v', hv, hat⟩ := hq
    refine (exprs_realizes hT hx hserves es hall.2 hat).bind fun vs s q hq => ?_
    obtain ⟨hcount, vs', hvs, hat⟩ := hq
    refine .value (.refl q) ⟨congrArg (· + 1) hcount, v' :: vs', .cons hv hvs, ?_⟩
    rw [List.reverse_cons, List.append_assoc]
    exact hat

end

/-- **A return** is about to end activations down to that of its method, or fails if it is over. -/
theorem answer_step (hx : x.Runs T programs N r m f) (hT : T.Implements programs)
    (h : m.At (T.pairing programs) f (.plain .methodReturn :: ops) s (v' :: operands) q) :
    ∃ m₁, q = .running m₁ ∧ s.Pair (T.pairing programs) m₁.store ∧
      m₁.step = match m.active.findIdx? (· = x.environment.home) with
        | some j => m.exit m₁.store (j + 1) v'
        | none => .failed (.blockCannotReturn x.routine.name) m₁ := by
  obtain ⟨rest, mark, s', hrest, hs, rfl⟩ := h
  obtain ⟨below, htop⟩ := hx.top
  obtain ⟨i, rest', hop, hrest', hstep⟩ := step_proceed htop hrest mark s' (v' :: operands)
  obtain ⟨ops', hunit, -⟩ := hx.hasUnit.unitAs hT
  refine ⟨_, rfl, hs, ?_⟩
  cases hop with
  | plain _ =>
    have hcount := returnCount?_eq
      (m := m.proceed { f with rest := rest, mark := mark } s' (v' :: operands))
      (g := { f with rest := rest', mark := mark, operands := v' :: operands })
      (frames_replaceTop htop _) rfl
    rw [active_proceed htop rest mark s' (v' :: operands) f.operands] at hcount
    rw [hstep]
    change (match (m.proceed { f with rest := rest, mark := mark } s' (v' :: operands)).returnCount?
        { f with rest := rest', mark := mark, operands := v' :: operands } with
      | some count => (m.proceed _ s' (v' :: operands)).leave count v'
      | none => _) = _
    rw [hcount, hx.environment.home_eq]
    cases m.active.findIdx? (· = f.environment.home) with
    | some j => exact exit_proceed m { f with rest := rest, mark := mark } s' s' (v' :: operands) j v'
    | none =>
      dsimp only [Option.map_none]
      rw [hunit.name]

/-- The end of a block is about to end the activation. -/
theorem leave_step (hx : x.Runs T programs N r m f) (hv : v.Pair (T.pairing programs) v')
    (h : m.At (T.pairing programs) f (.plain .blockReturn :: ops) s (v' :: operands) q) :
    Leaving (T.pairing programs) m v s q := by
  obtain ⟨rest, mark, s', hrest, hs, rfl⟩ := h
  obtain ⟨below, htop⟩ := hx.top
  obtain ⟨i, rest', hop, hrest', hstep⟩ := step_proceed htop hrest mark s' (v' :: operands)
  refine ⟨_, v', s', rfl, hv, hs, ?_⟩
  cases hop with
  | plain _ =>
    rw [hstep]
    exact exit_proceed m { f with rest := rest, mark := mark } s' s' (v' :: operands) 0 v'

section

variable (hT : T.Implements programs) (hx : x.Runs T programs N r m f)
  (hserves : Serves T programs k call)

include hT hx hserves

/-- **A statement pushes its value**, unless it leaves the method. -/
theorem statement_realizes (st : Statement Unit)
    (hall : NumberedFrom r.Has n (statementRoutines x.routine n st))
    (h : m.At (T.pairing programs) f (N.statementCode x.routine.scopes n st ++ ops) s operands q) :
    Realizes (T.pairing programs) m (k + 1)
      (fun v s q => st.isAnswer = false ∧
        m.Pushed (T.pairing programs) f ops operands v s q) q
      (Meaning.statement (Machine.new T.bare) call x n st s) := by
  cases st with
  | assignment target value =>
    rw [statementRoutines] at hall
    rw [Naming.statementCode, List.append_assoc, List.append_assoc] at h
    refine (hx.expr_realizes hT hserves value hall h).bind fun v s q hq => ?_
    obtain ⟨v', hv, hat⟩ := hq
    obtain ⟨q', hq', hat⟩ := hx.skip (hx.marksOnly _) hat
    exact ((hx.store_realizes hT hserves target hv hat).imp fun _ _ _ hq => ⟨rfl, hq⟩).leads hq'
  | answer caret value =>
    rw [statementRoutines] at hall
    rw [Naming.statementCode, List.append_assoc, List.append_assoc] at h
    refine (hx.expr_realizes hT hserves value hall h).bind fun v s q hq => ?_
    obtain ⟨v', hv, hat⟩ := hq
    obtain ⟨q', hq', hat⟩ := hx.skip (hx.marksOnly _) hat
    obtain ⟨m₁, rfl, hs, hstep⟩ := hx.answer_step hT hat
    rw [hx.active]
    cases hhome : m.active.findIdx? (· = x.environment.home) with
    | some j =>
      have hmem : x.environment.home ∈ m.active := by
        by_contra hmem
        grind
      rw [hhome] at hstep
      rw [if_pos hmem]
      exact .answer hq' hv hs hhome hstep
    | none =>
      have hmem : x.environment.home ∉ m.active := by
        intro hmem
        simpa using List.findIdx?_eq_none_iff.1 hhome _ hmem
      rw [hhome] at hstep
      rw [if_neg hmem]
      exact .fault (hq'.trans (.of_step hstep)) hs
  | expression value =>
    rw [statementRoutines] at hall
    rw [Naming.statementCode] at h
    exact (hx.expr_realizes hT hserves value hall h).imp fun _ _ _ hq => ⟨rfl, hq⟩

/-- **Statements push the value of the last one**, unless it leaves the method. -/
theorem statements_realizes (ss : List (Statement Unit)) (hne : ss ≠ [])
    (hall : NumberedFrom r.Has n (statementsRoutines x.routine n ss))
    (h : m.At (T.pairing programs) f (N.statementsCode x.routine.scopes n ss ++ ops) s operands
      q) :
    Realizes (T.pairing programs) m (k + 1)
      (fun v s q => endsWithAnswer ss = false ∧
        m.Pushed (T.pairing programs) f ops operands v s q) q
      (Meaning.statements (Machine.new T.bare) call x n ss s) := by
  induction ss generalizing n s q with
  | nil => exact absurd rfl hne
  | cons st ss ih =>
    rw [statementsRoutines, numberedFrom_append (length_statementRoutines _ n st)] at hall
    cases ss with
    | nil =>
      rw [Naming.statementsCode] at h
      refine (hx.statement_realizes hT hserves st hall.1 h).imp fun _ _ _ hq => ⟨?_, hq.2⟩
      simpa [endsWithAnswer] using hq.1
    | cons st' ss =>
      change m.At (T.pairing programs) f (N.statementCode x.routine.scopes n st ++ .plain .pop
        :: N.statementsCode x.routine.scopes (n + statementBlockCount st) (st' :: ss) ++ ops) s
        operands q at h
      rw [List.append_assoc] at h
      change Realizes _ m (k + 1) _ q
        ((Meaning.statement (Machine.new T.bare) call x n st s).bind fun _ s =>
          Meaning.statements (Machine.new T.bare) call x (n + statementBlockCount st) (st' :: ss) s)
      refine (hx.statement_realizes hT hserves st hall.1 h).bind fun v s q hq => ?_
      obtain ⟨-, v', -, hat⟩ := hq
      obtain ⟨q', hq', hat⟩ := hx.pop hat
      refine ((ih (List.cons_ne_nil st' ss) hall.2 hat).imp fun _ _ _ hq => ⟨?_, hq.2⟩).leads hq'
      simpa [endsWithAnswer] using hq.1

/-- **The code of a block** answers the value of its last statement. -/
theorem blockCode_realizes (ss : List (Statement Unit))
    (hall : NumberedFrom r.Has n (statementsRoutines x.routine n ss))
    (h : m.At (T.pairing programs) f (N.blockCode x.routine.scopes n ss) s operands q) :
    Realizes (T.pairing programs) m (k + 1) (Leaving (T.pairing programs) m) q
      ((Meaning.statements (Machine.new T.bare) call x n ss s).bind fun v s => .value v s) := by
  rw [Naming.blockCode, Naming.blockEnd] at h
  cases ss with
  | nil =>
    have hnil : x.Asks T programs N r call (.plain .pushNil) s operands operands (.value .nil s) :=
      nil_asks
    refine (hx.enact hserves h hnil).bind fun v s q hq => ?_
    obtain ⟨v', hv, hat⟩ := hq
    exact .value (.refl q) (hx.leave_step hv hat)
  | cons st ss =>
    rw [if_neg (by simp)] at h
    refine (hx.statements_realizes hT hserves _ (List.cons_ne_nil st ss) hall h).bind
      fun v s q hq => ?_
    obtain ⟨hend, v', hv, hat⟩ := hq
    rw [hend] at hat
    exact .value (.refl q) (hx.leave_step hv hat)

/-- At its end a method answers the receiver. -/
theorem methodEnd_realizes (henclosing : x.environment.enclosing = []) (span : Span)
    (h : m.At (T.pairing programs) f (N.marks span ++ [.plain .pushSelf, .plain .methodReturn]) s
      operands q) :
    Realizes (T.pairing programs) m (k + 1) (Leaving (T.pairing programs) m) q
      (.value x.environment.receiver s) := by
  refine (hx.enact_marked hserves span h self_asks).imp fun v s q hq => ?_
  obtain ⟨v', hv, hat⟩ := hq
  obtain ⟨m₁, rfl, hs, hstep⟩ := hx.answer_step hT hat
  refine ⟨m₁, v', m₁.store, rfl, hv, hs, ?_⟩
  -- The method is the innermost activation.
  have hhome : m.active.findIdx? (· = x.environment.home) = some 0 := by
    obtain ⟨below, htop⟩ := hx.top
    have hself : f.environment.activation = x.environment.home := by
      rw [Environment.home, henclosing, ← hx.environment.activation]
      rfl
    rw [Machine.active, htop, List.map_cons, List.findIdx?_cons, if_pos (by simp [hself])]
  rw [hstep, hhome]

/-- **The code of a method** answers the receiver, unless it is left. -/
theorem methodCode_realizes (henclosing : x.environment.enclosing = []) (ss : List (Statement Unit))
    (span : Span) (hall : NumberedFrom r.Has 0 (statementsRoutines x.routine 0 ss))
    (h : m.At (T.pairing programs) f (N.methodCode x.routine.scopes span ss) s operands q) :
    Realizes (T.pairing programs) m (k + 1) (Leaving (T.pairing programs) m) q
      ((Meaning.statements (Machine.new T.bare) call x 0 ss s).bind fun _ s =>
        .value x.environment.receiver s) := by
  rw [Naming.methodCode, Naming.methodEnd] at h
  cases hlast : ss.getLast? with
  | none =>
    obtain rfl := List.getLast?_eq_none_iff.1 hlast
    exact hx.methodEnd_realizes hT hserves henclosing span h
  | some last =>
    have hne : ss ≠ [] := by
      rintro rfl
      cases hlast
    rw [hlast] at h
    refine (hx.statements_realizes hT hserves ss hne hall h).bind fun v s q hq => ?_
    obtain ⟨hend, v', -, hat⟩ := hq
    rw [endsWithAnswer, hlast, Option.any_some] at hend
    dsimp only at hat
    rw [hend] at hat
    obtain ⟨q', hq', hat⟩ := hx.pop hat
    exact (hx.methodEnd_realizes hT hserves henclosing last.span hat).leads hq'

end

end Site.Runs

end Smalltalk
