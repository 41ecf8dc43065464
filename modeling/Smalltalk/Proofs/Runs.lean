/-
**How a run ends.**

The number of steps that a run may take is an argument of the machine, but how the run ends does
not depend on it: if it ends at all, it does so in one way.

* `Progress.IsLast`, `Machine.Ends` — **how a run from a state ends**;
* `Machine.exists_run_iff` — **the results of a run are the ways it ends**.
-/

import Smalltalk.Machine.Run

namespace Smalltalk

variable {n : Nat} {entry : String}

/-- Is it the last step of a run? -/
def Progress.IsLast (p : Progress) : Prop := ∀ m, p ≠ .running m

namespace Machine

/-- **How a run from a state ends**, with an answer or with a fault. -/
inductive Ends : Machine → Progress → Prop
  | last {m : Machine} {p : Progress} (h : m.step = p) (hlast : p.IsLast) : Ends m p
  | step {m m' : Machine} {p : Progress} (h : m.step = .running m') (hp : Ends m' p) : Ends m p

variable {m m' : Machine} {p q : Progress}

/-- A run ends in one way. -/
theorem Ends.unique (hp : Ends m p) (hq : Ends m q) : p = q := by
  induction hp with
  | last h hlast =>
    cases hq with
    | last h' _ => exact h.symm.trans h'
    | step h' _ => exact absurd (h.symm.trans h') (hlast _)
  | step h _ ih =>
    cases hq with
    | last h' hlast => exact absurd (h'.symm.trans h) (hlast _)
    | step h' hq =>
      cases h.symm.trans h'
      exact ih hq

/-- **A run ends in some way if it does so after some steps.** -/
theorem ends_iff : Ends m p ↔ p.IsLast ∧ ∃ n, m.steps n = p := by
  constructor
  · intro hp
    induction hp with
    | @last m p h hlast =>
      refine ⟨hlast, 1, ?_⟩
      rw [steps, h]
      cases p with
      | running m₁ => exact absurd rfl (hlast m₁)
      | finished v m₁ | failed fault m₁ => rfl
    | @step m _ _ h _ ih =>
      obtain ⟨hlast, n, hsteps⟩ := ih
      refine ⟨hlast, n + 1, ?_⟩
      rw [steps, h]
      exact hsteps
  · rintro ⟨hlast, n, hsteps⟩
    induction n generalizing m with
    | zero => exact absurd hsteps.symm (hlast m)
    | succ n ih =>
      rw [steps] at hsteps
      cases hstep : m.step with
      | running m₁ =>
        rw [hstep] at hsteps
        exact .step hstep (ih hsteps)
      | finished v m₁ | failed fault m₁ =>
        rw [hstep] at hsteps
        exact .last (hstep.trans hsteps) hlast

/-- What comes after some steps is what comes after more steps from the start. -/
theorem steps_add (hsteps : m.steps n = .running m') (k : Nat) : m.steps (n + k) = m'.steps k := by
  induction n generalizing m with
  | zero =>
    cases hsteps
    rw [Nat.zero_add]
  | succ n ih =>
    rw [steps] at hsteps
    rw [Nat.add_right_comm, steps]
    grind

theorem steps_of_step (hstep : m.step = .running m') : m.steps 1 = .running m' := by
  rw [steps, hstep]
  rfl

/-- The last of some steps. -/
theorem exists_last_step (hsteps : m.steps n = p) :
    n = 0 ∨ ∃ k m', k < n ∧ m.steps k = .running m' ∧ m'.step = p := by
  induction n generalizing m with
  | zero => exact .inl rfl
  | succ n ih =>
    rw [steps] at hsteps
    cases hstep : m.step with
    | running m₁ =>
      rw [hstep] at hsteps
      rcases ih hsteps with rfl | ⟨k, m', hk, hsteps', hlast⟩
      · exact .inr ⟨0, m, Nat.one_pos, rfl, hstep.trans hsteps⟩
      · refine .inr ⟨k + 1, m', Nat.succ_lt_succ hk, ?_, hlast⟩
        rw [steps, hstep]
        exact hsteps'
    | finished v m₁ | failed fault m₁ =>
      rw [hstep] at hsteps
      exact .inr ⟨0, m, Nat.succ_pos n, rfl, hstep.trans hsteps⟩

end Machine

/-- The result of a run that has ended. -/
def Progress.result? : Progress → Option (Except RuntimeError Value × Machine)
  | .running _ => none
  | .finished v m => some (.ok v, m)
  | .failed fault m => some (.error ⟨fault, m.trace⟩, m.clear)

namespace Machine

theorem run_eq (n : Nat) (m : Machine) (entry : String) :
    m.run n entry = match m.start? entry with
      | none => some (.ok .nil, m)
      | some m => (steps n m).result? := by
  rw [run]
  cases m.start? entry with
  | none => rfl
  | some m =>
    dsimp only
    cases steps n m <;> rfl

/-- A run that ends with an error. -/
theorem steps_of_run_error {m m' : Machine} {e : RuntimeError}
    (h : m.run n entry = some (.error e, m')) :
    ∃ m₀ last, m.start? entry = some m₀ ∧ m₀.steps n = .failed e.fault last ∧
      e.trace = last.trace := by
  rw [run_eq] at h
  cases hstart : m.start? entry with
  | none => rw [hstart] at h; cases h
  | some m₀ =>
    rw [hstart] at h
    dsimp only at h
    cases hsteps : m₀.steps n with
    | running | finished => rw [hsteps] at h; cases h
    | failed fault last =>
      rw [hsteps] at h
      obtain ⟨rfl, -⟩ : _ ∧ _ := by simpa [Progress.result?] using h
      exact ⟨m₀, last, rfl, hsteps, rfl⟩

/-- **The results of a run are the ways it ends.** -/
theorem exists_run_iff {m m' : Machine} (hstart : m.start? entry = some m')
    {r : Except RuntimeError Value × Machine} :
    (∃ n, m.run n entry = some r) ↔ ∃ p, Ends m' p ∧ p.result? = some r := by
  simp only [run_eq, hstart]
  constructor
  · rintro ⟨n, hr⟩
    refine ⟨steps n m', ends_iff.2 ⟨fun m'' h => ?_, n, rfl⟩, hr⟩
    rw [h] at hr
    cases hr
  · rintro ⟨p, hp, hr⟩
    obtain ⟨-, n, hsteps⟩ := ends_iff.1 hp
    exact ⟨n, hsteps ▸ hr⟩

end Machine

end Smalltalk
