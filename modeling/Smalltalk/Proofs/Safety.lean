/-
**Compiled code is never at fault.**

A run of compiled programs stays within the law from its first state on. So it may go wrong because
of what was written, but never because of what was made of it: an instruction has its operands, its
literals, its variables and its blocks, and a method is started with as many arguments as it has.

Besides, every activation there is was started earlier in the run, for a method or one of its
blocks and with its arguments.

* `Machine.Knows` — **every activation was started earlier in the run**;
* `Compilation.run_safe` — **the code of a program is never at fault**.
-/

import Smalltalk.Proofs.Lawful
import Smalltalk.Proofs.Runs

namespace Smalltalk

variable {n : Nat} {fault : Fault} {m : Machine}

namespace Machine

/-! ### The history of activations -/

/-- The activation has just been started for a unit of a method, with its arguments. -/
def Starts (m : Machine) (a : Nat) (origin : Method × Option Nat) : Prop :=
  ∃ f frames arguments, m.stack.frames = f :: frames ∧ f.environment.activation = a ∧
    (f.method, f.block) = origin ∧ f.method.unit? f.block = some f.code ∧ f.rest = f.code.code ∧
    arguments.length = f.code.argumentCount ∧
    m.store.activations[a]? = some (slots f.code arguments)

/-- The activation was started for the unit between two states of a run. -/
def StartedBetween (m₀ m : Machine) (a : Nat) (origin : Method × Option Nat) : Prop :=
  ∃ k j m₁, m₀.steps k = .running m₁ ∧ m₁.steps j = .running m ∧ m₁.Starts a origin

/-- **Every activation was started** between two states of a run. -/
def Knows (m₀ m : Machine) (Λ : Origins) : Prop :=
  ∀ a origin, Λ[a]? = some origin → m₀.StartedBetween m a origin

variable {T : ClassTable} {programs : List Program} {Λ : Origins} {m₀ m' : Machine}

theorem StartedBetween.step {a : Nat} {origin : Method × Option Nat}
    (h : m₀.StartedBetween m a origin) (hstep : m.step = .running m') :
    m₀.StartedBetween m' a origin := by
  obtain ⟨k, j, m₁, hk, hj, hstarts⟩ := h
  exact ⟨k, j + 1, m₁, hk, (steps_add hj 1).trans (steps_of_step hstep), hstarts⟩

/-- One more activation has been started. -/
theorem Started.exists_lawful (h : m.Started T programs Λ) (hsteps : m₀.steps n = .running m)
    (hknows : ∀ a origin, Λ[a]? = some origin → m₀.StartedBetween m a origin) :
    ∃ Λ, m.Lawful T programs Λ ∧ m₀.Knows m Λ := by
  obtain ⟨f, frames, arguments, hm, ha, hrest, harguments, hrow, hlawful⟩ := h
  refine ⟨_, hlawful, fun a origin horigin => ?_⟩
  rw [List.getElem?_append] at horigin
  split at horigin
  case isTrue => exact hknows a origin horigin
  case isFalse hge =>
    obtain ⟨f', frames', hm', hf, -⟩ := hlawful.frames
    obtain ⟨rfl, rfl⟩ := List.cons.inj (hm.symm.trans hm')
    obtain ⟨r, q, ops, hunit, -⟩ := hf.unit
    have hlast := (List.getElem?_eq_some_iff.1 horigin).1
    rw [List.length_singleton] at hlast
    obtain rfl : a = Λ.length := by omega
    rw [Nat.sub_self] at horigin
    exact ⟨n, 0, m, hsteps, rfl, f, frames, arguments, hm, ha, Option.some.inj horigin,
      hunit.code, hrest, harguments, hrow⟩

section

variable (hT : T.Implements programs) (hstart : (Machine.new T).start? mainClass = some m₀)

include hT hstart

/-- **Every state of a run is within the law**, and all its activations were started in the run. -/
theorem exists_lawful (hsteps : m₀.steps n = .running m) :
    ∃ Λ, m.Lawful T programs Λ ∧ m₀.Knows m Λ := by
  induction n using Nat.strongRecOn generalizing m with
  | ind n ih =>
    rcases exists_last_step hsteps with rfl | ⟨k, m', hk, hsteps', hlast⟩
    · obtain rfl := Progress.running.inj hsteps
      exact (started_of_start? hT hstart).exists_lawful hsteps fun _ _ h => by cases h
    · obtain ⟨Λ, hlawful, hknows⟩ := ih k hk hsteps'
      have hstep := hlawful.step hT
      rw [hlast] at hstep
      rcases hstep with hstep | hstep
      · exact ⟨Λ, hstep, fun a origin h => (hknows a origin h).step hlast⟩
      · exact hstep.exists_lawful hsteps fun a origin h => (hknows a origin h).step hlast

/-- The code is not at fault when a run fails. -/
theorem isOfCode_of_steps (hsteps : m₀.steps n = .failed fault m) : fault.isOfCode = false := by
  rcases exists_last_step hsteps with rfl | ⟨k, m', -, hsteps', hlast⟩
  · cases hsteps
  · obtain ⟨Λ, hlawful, -⟩ := exists_lawful hT hstart hsteps'
    have hstep := hlawful.step hT
    rw [hlast] at hstep
    exact hstep

end

end Machine

theorem Fault.isOfCode_eq_false :
    fault.isOfCode = false ↔ fault ≠ .stackUnderflow ∧ ∀ c, fault ≠ .internal c := by
  cases fault <;> simp [isOfCode]

namespace Compilation

/-- **The code of a program is never at fault.**  Take any sources without mistakes, compiled with
any options into classes. Whatever a run of the main class does, and for however long, it does not
end because an operand is missing or because of an internal error; and in no state of the run is
there such a step ahead. -/
theorem run_safe {options : CompileOptions} {sources : List String}
    (hfit : ∀ source ∈ sources, (Program.parse source).IsFit)
    (herrors : (ofPrograms options (sources.map Program.parse)).errors = #[]) :
    let machine := Machine.new
      (ClassTable.ofSymbols (ofPrograms options (sources.map Program.parse)).table)
    (∀ n e m, machine.run n mainClass = some (.error e, m) →
      e.fault ≠ .stackUnderflow ∧ ∀ c, e.fault ≠ .internal c) ∧
    ∀ m₀ n m, machine.start? mainClass = some m₀ → m₀.steps n = .running m →
      ∀ fault m', m.step = .failed fault m' →
        fault ≠ .stackUnderflow ∧ ∀ c, fault ≠ .internal c := by
  have hT := classes_implement hfit herrors
  refine ⟨fun n e m hrun => ?_, fun m₀ n m hstart hsteps fault m' hstep => ?_⟩
  · rw [Machine.run] at hrun
    split at hrun
    · cases hrun
    · rename_i m₀ hstart
      split at hrun
      · cases hrun
      · cases hrun
      · rename_i hsteps
        obtain ⟨rfl, rfl⟩ : _ ∧ _ := by simpa using hrun
        exact Fault.isOfCode_eq_false.1 (Machine.isOfCode_of_steps hT hstart hsteps)
  · have hfails : m₀.steps (n + 1) = .failed fault m' := by
      rw [Machine.steps_add hsteps, Machine.steps, hstep]
    exact Fault.isOfCode_eq_false.1 (Machine.isOfCode_of_steps hT hstart hfails)

/-- A program whose loop ends, and which then sends a message that nothing understands. -/
def fallenLoop : List String :=
  ["| n | n := 0. [n < 2] whileTrue: [n := n + 1]. ^[:x | x foo: 'bar' with: n] value: n"]

/-- What the program is compiled to. -/
def fallenLoopCompiled : Compilation :=
  ofPrograms ⟨"main.st", true, false⟩ (fallenLoop.map Program.parse)

/-- Does a run of the main class end with a fault? -/
def endsWith (m : Machine) (n : Nat) (fault : Fault) : Bool :=
  (m.run n mainClass).any fun result =>
    match result.1 with
    | .error e => e.fault = fault
    | .ok _ => false

theorem exists_run_of_endsWith (h : endsWith m n fault = true) :
    ∃ e m', m.run n mainClass = some (.error e, m') ∧ e.fault = fault := by
  rw [endsWith] at h
  cases hrun : m.run n mainClass with
  | none => rw [hrun] at h; cases h
  | some result =>
    grind

set_option maxRecDepth 100000 in
/-- A run that ends early, but not because of the code. -/
theorem fallenLoop_safe :
    (∀ source ∈ fallenLoop, (Program.parse source).IsFit) ∧ fallenLoopCompiled.errors = #[] ∧
    ∃ e m, (Machine.new (ClassTable.ofSymbols fallenLoopCompiled.table)).run 100 mainClass =
        some (.error e, m) ∧ e.fault = .messageNotUnderstood "Integer" "foo:with:" ∧
      e.fault ≠ .stackUnderflow ∧ ∀ c, e.fault ≠ .internal c := by
  have hfit : ∀ source ∈ fallenLoop, (Program.parse source).IsFit := by decide +kernel
  have herrors : fallenLoopCompiled.errors = #[] := by decide +kernel
  have hends : endsWith (Machine.new (ClassTable.ofSymbols fallenLoopCompiled.table)) 100
      (.messageNotUnderstood "Integer" "foo:with:") = true := by decide +kernel
  obtain ⟨e, m, hrun, hfault⟩ := exists_run_of_endsWith hends
  exact ⟨hfit, herrors, e, m, hrun, hfault, (run_safe hfit herrors).1 100 e m hrun⟩

end Compilation

end Smalltalk
