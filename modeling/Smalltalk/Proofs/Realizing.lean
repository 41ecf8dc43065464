/-
**Machines that do what was evaluated.**

A machine realizes an evaluation if it goes the same way: it comes to a state that has the value, or
it is about to end the activation that is to be left, or it fails for the same reason. If nothing is
known of the evaluation for want of fuel, the machine goes on for at least as many steps as there was
fuel. So the machine ends if and only if some amount of fuel is enough.

* `Machine.Realizes` — **the machine does what was evaluated**;
* `Machine.Realizes.bind` — **one thing after the other**.
-/

import Smalltalk.Proofs.BareClasses
import Smalltalk.Proofs.Loops
import Smalltalk.Proofs.Runs

namespace Smalltalk

variable {p q : Progress} {m : Machine} {inner : List Loop} {β : Type} {P : Pairing} {k : Nat}
  {s : Store} {R : β → Store → Progress → Prop}

/-! ### Going on -/

namespace Progress

/-- **Going on** from the one leads to the other. -/
inductive Leads : Progress → Progress → Prop
  | refl (p : Progress) : Leads p p
  | step {m : Machine} {p : Progress} (h : Leads m.step p) : Leads (.running m) p

/-- **Going on for some steps** without an end. -/
def Lasts : Nat → Progress → Prop
  | 0, _ => True
  | n + 1, .running m => Lasts n m.step
  | _ + 1, _ => False

variable {r : Progress} {n : Nat}

theorem Leads.of_step (h : m.step = p) : (running m).Leads p := by
  rw [← h]
  exact .step (.refl _)

theorem Leads.trans (h : p.Leads q) (h' : q.Leads r) : p.Leads r := by
  induction h with
  | refl => exact h'
  | step _ ih => exact .step (ih h')

theorem Lasts.less (h : p.Lasts (n + 1)) : p.Lasts n := by
  induction n generalizing p with
  | zero => exact trivial
  | succ n ih =>
    cases p with
    | running m => exact ih h
    | finished v m | failed fault m => exact h.elim

theorem Leads.lasts (h : p.Leads q) (hq : q.Lasts n) : p.Lasts n := by
  induction h with
  | refl => exact hq
  | @step m p _ ih =>
    have hnext : (running m).Lasts (n + 1) := ih hq
    exact hnext.less

/-- What does not go on leads to nothing else. -/
theorem Leads.ends (h : (running m).Leads p) (hp : p.IsLast) : Machine.Ends m p := by
  generalize hq : running m = q at h
  induction h generalizing m with
  | refl => exact absurd hq.symm (hp m)
  | @step m' p h ih =>
    obtain rfl := running.inj hq
    cases hstep : m.step with
    | running m'' => exact .step hstep (ih hp hstep.symm)
    | finished v m'' | failed fault m'' =>
      rw [hstep] at h
      cases h
      exact .last hstep hp

/-- What ends does not go on for ever. -/
theorem exists_not_lasts (h : Machine.Ends m p) : ∃ n, ¬(running m).Lasts n := by
  induction h with
  | @last m p hstep hlast =>
    refine ⟨2, fun h => ?_⟩
    change (m.step).Lasts 1 at h
    rw [hstep] at h
    cases p with
    | running m' => exact hlast m' rfl
    | finished v m' | failed fault m' => exact h
  | @step m m' p hstep _ ih =>
    obtain ⟨n, hn⟩ := ih
    refine ⟨n + 1, fun h => hn ?_⟩
    rw [← hstep]
    exact h

end Progress

/-! ### Ending activations -/

namespace CallStack

theorem drop_push (s : CallStack) (f : Frame) (n : Nat) : (s.push f).drop (n + 1) = s.drop n := by
  simp only [push, drop, List.drop_succ_cons, Nat.add_sub_add_right]

theorem drop_replaceTop (s : CallStack) (f : Frame) (n : Nat) :
    (s.replaceTop f).drop (n + 1) = s.drop (n + 1) := by
  obtain ⟨frames, depth, hdepth⟩ := s
  cases frames <;> rfl

theorem depth_replaceTop (s : CallStack) (f : Frame) : (s.replaceTop f).depth = s.depth := by
  obtain ⟨frames, depth, hdepth⟩ := s
  cases frames <;> rfl

theorem replaceTop_replaceTop (s : CallStack) (f g : Frame) :
    (s.replaceTop f).replaceTop g = s.replaceTop g := by
  obtain ⟨frames, depth, hdepth⟩ := s
  cases frames <;> rfl

end CallStack

namespace Machine

/-- The machine with another store. -/
def withStore (m : Machine) (s : Store) : Machine :=
  ⟨m.classes, m.transcript, s, m.stack, m.loops⟩

/-- The activations in progress, the innermost first. -/
def active (m : Machine) : List Nat := m.stack.frames.map fun f => f.environment.activation

/-- End the innermost `n` activations, with a store and a value. -/
def exit (m : Machine) (s : Store) (n : Nat) (v : Value) : Progress := (m.withStore s).leave n v

/-- A new activation on top, in the loops `inner` that were started just now. -/
def enter (m : Machine) (s : Store) (f : Frame) (inner : List Loop) : Machine :=
  ⟨m.classes, m.transcript, s, m.stack.push f, inner ++ m.loops⟩

/-- No loop waits for the innermost activation to answer. -/
def Calm (m : Machine) : Prop := ∀ l ∈ m.loops, l.depth + 1 < m.stack.depth

theorem exit_proceed (m : Machine) (f : Frame) (s t : Store) (operands : List Value) (n : Nat)
    (v : Value) : (m.proceed f s operands).exit t (n + 1) v = m.exit t (n + 1) v := by
  simp only [exit, withStore, proceed, leave, CallStack.drop_replaceTop]
  rfl

theorem proceed_proceed (m : Machine) (f g : Frame) (s t : Store) (vs ws : List Value) :
    (m.proceed f s vs).proceed g t ws = m.proceed g t ws := by
  simp only [proceed, CallStack.replaceTop_replaceTop]

/-- If no loop waits, the activation below goes on. -/
theorem Calm.exit_zero (h : m.Calm) (s : Store) (v : Value) :
    m.exit s 0 v = (m.withStore s).give v := by
  obtain ⟨classes, transcript, store, stack, loops⟩ := m
  have hdrop : stack.drop 0 = stack := rfl
  have hloops : (loops.dropWhile fun l => decide (stack.depth ≤ l.depth)) = loops := by
    cases loops with
    | nil => rfl
    | cons l outer =>
      have hl : l.depth + 1 < stack.depth := h l List.mem_cons_self
      exact List.dropWhile_cons_of_neg (by simp only [decide_eq_true_eq]; omega)
  simp only [exit, withStore, leave, hdrop, hloops]
  cases loops with
  | nil => rfl
  | cons l outer =>
    have hl := h l List.mem_cons_self
    exact if_neg (Nat.ne_of_lt hl)

/-- Ending more than the new activation ends the loops it was started in. -/
theorem exit_enter (m : Machine) (s t : Store) (f : Frame)
    (hinner : ∀ l ∈ inner, l.depth + 1 = m.stack.depth) (n : Nat) (v : Value) :
    (m.enter s f inner).exit t (n + 2) v = m.exit t (n + 1) v := by
  have hdrop : (inner ++ m.loops).dropWhile (fun l => decide ((m.stack.drop (n + 1)).depth ≤ l.depth))
      = m.loops.dropWhile fun l => decide ((m.stack.drop (n + 1)).depth ≤ l.depth) := by
    induction inner with
    | nil => rfl
    | cons l inner ih =>
      have hl := hinner l List.mem_cons_self
      have hdepth : m.stack.depth - (n + 1) ≤ l.depth := by omega
      rw [List.cons_append, List.dropWhile_cons_of_pos (by exact decide_eq_true hdepth)]
      exact ih fun l hl => hinner l (List.mem_cons_of_mem _ hl)
  simp only [exit, withStore, enter, leave, CallStack.drop_push, hdrop]
  rfl

/-! ### Doing what was evaluated -/

/-- **The machine does what was evaluated**: it goes on from `p` as the evaluation says, and it goes
on for at least `k` steps if nothing is known of the evaluation. The activations that may be left
are those of `m`. -/
inductive Realizes {α : Type} (P : Pairing) (m : Machine) (k : Nat)
    (Q : α → Store → Progress → Prop) (p : Progress) : Evaluation α → Prop
  | value {a : α} {s : Store} {q : Progress} (h : p.Leads q) (hq : Q a s q) :
      Realizes P m k Q p (.value a s)
  | answer {home j : Nat} {v v' : Value} {s s' : Store} {m₁ : Machine}
      (h : p.Leads (.running m₁)) (hv : v.Pair P v') (hs : s.Pair P s')
      (hhome : m.active.findIdx? (· = home) = some j) (hstep : m₁.step = m.exit s' (j + 1) v') :
      Realizes P m k Q p (.answer home v s)
  | fault {reason : Fault} {s : Store} {m₁ : Machine} (h : p.Leads (.failed reason m₁))
      (hs : s.Pair P m₁.store) : Realizes P m k Q p (.fault reason s)
  | unknown (h : p.Lasts k) : Realizes P m k Q p .unknown

namespace Realizes

variable {α : Type} {mc : Machine} {Q R : α → Store → Progress → Prop} {o : Evaluation α}

theorem imp (h : Realizes P m k Q p o) (hQR : ∀ a s q, Q a s q → R a s q) :
    Realizes P m k R p o := by
  cases h with
  | value h hq => exact .value h (hQR _ _ _ hq)
  | answer h hv hs hhome hstep => exact .answer h hv hs hhome hstep
  | fault h hs => exact .fault h hs
  | unknown h => exact .unknown h

theorem leads (h : p.Leads q) (hq : Realizes P m k Q q o) : Realizes P m k Q p o := by
  cases hq with
  | value h' hq => exact .value (h.trans h') hq
  | answer h' hv hs hhome hstep => exact .answer (h.trans h') hv hs hhome hstep
  | fault h' hs => exact .fault (h.trans h') hs
  | unknown h' => exact .unknown (h.lasts h')

/-- The store at the start does not matter. -/
theorem withStore (h : Realizes P (m.withStore s) k Q p o) : Realizes P m k Q p o := by
  cases h with
  | value h hq => exact .value h hq
  | answer h hv hs hhome hstep => exact .answer h hv hs hhome hstep
  | fault h hs => exact .fault h hs
  | unknown h => exact .unknown h

/-- A step makes up for a unit of fuel. -/
theorem step {m₁ : Machine} (h : Realizes P m k Q m₁.step o) :
    Realizes P m (k + 1) Q (.running m₁) o := by
  cases h with
  | value h hq => exact .value (.step h) hq
  | answer h hv hs hhome hstep => exact .answer (.step h) hv hs hhome hstep
  | fault h hs => exact .fault (.step h) hs
  | unknown h => exact .unknown h

theorem less (h : Realizes P m (k + 1) Q p o) : Realizes P m k Q p o := by
  cases h with
  | value h hq => exact .value h hq
  | answer h hv hs hhome hstep => exact .answer h hv hs hhome hstep
  | fault h hs => exact .fault h hs
  | unknown h => exact .unknown h.less

/-- **One thing after the other.** -/
theorem bind {R : β → Store → Progress → Prop} {K : α → Store → Evaluation β}
    (h : Realizes P m k Q p o)
    (hK : ∀ a s q, Q a s q → Realizes P m k R q (K a s)) : Realizes P m k R p (o.bind K) := by
  cases h with
  | value h hq => exact (hK _ _ _ hq).leads h
  | answer h hv hs hhome hstep => exact .answer h hv hs hhome hstep
  | fault h hs => exact .fault h hs
  | unknown h => exact .unknown h

end Realizes

/-- About to end the innermost activation with a value. -/
def Leaving (P : Pairing) (m : Machine) (v : Value) (s : Store) (q : Progress) : Prop :=
  ∃ m₁ v' s', q = .running m₁ ∧ v.Pair P v' ∧ s.Pair P s' ∧ m₁.step = m.exit s' 1 v'

/-- **Ending the activation that is to be left.**  The new activation `f` ends when its code does, or
when it is left; what is left further down is for the others. -/
theorem Realizes.caught {f : Frame} (hinner : ∀ l ∈ inner, l.depth + 1 = m.stack.depth)
    {o : Evaluation Value}
    (h : Realizes P (m.enter s f inner) k (Leaving P (m.enter s f inner)) p o)
    {K : Value → Store → Evaluation β}
    (hK : ∀ v s₁ v' s₁' m₁, v.Pair P v' → s₁.Pair P s₁' →
      m₁.step = (m.enter s f inner).exit s₁' 1 v' → Realizes P m k R (.running m₁) (K v s₁)) :
    Realizes P m k R p ((Meaning.catching f.environment.activation o).bind K) := by
  cases h with
  | value h hq =>
    obtain ⟨m₁, v', s₁', rfl, hv, hs, hstep⟩ := hq
    exact (hK _ _ _ _ _ hv hs hstep).leads h
  | @answer home j v v' s₁ s₁' m₁ h hv hs hhome hstep =>
    have hactive : (m.enter s f inner).active = f.environment.activation :: m.active := rfl
    rw [hactive, List.findIdx?_cons] at hhome
    rw [Meaning.catching]
    split
    case isTrue hself =>
      rw [if_pos (by simpa using hself.symm)] at hhome
      obtain rfl := Option.some.inj hhome
      exact (hK _ _ _ _ _ hv hs hstep).leads h
    case isFalse hother =>
      rw [if_neg (by simpa using Ne.symm hother), Option.map_eq_some_iff] at hhome
      obtain ⟨i, hi, rfl⟩ := hhome
      rw [exit_enter m s s₁' f hinner] at hstep
      exact .answer h hv hs hi hstep
  | fault h hs => exact .fault h hs
  | unknown h => exact .unknown h

end Machine

end Smalltalk
