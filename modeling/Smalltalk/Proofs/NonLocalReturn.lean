/-
**Returning from a block.**

A return in a block ends the activation of the method in which the block was made: its *home*. What
makes this more than popping the stack is that the home may lie anywhere below the block, or be over
already, and that other activations of the same method with the same receiver, or loops that wait
for the value of a block, may lie in between.

In every state that a machine can reach, the home is in progress at most once; if it is, it is an
activation of the method itself, so no loop waits for its value. Hence the return ends exactly the
activations from the innermost down to the home and the loops in them, and the value goes to the
activation below.

* `Machine.step_of_return_in_block` — **a return in a block ends its home**, and fails if
  the home is over.
-/

import Smalltalk.Evaluate
import Smalltalk.Proofs.History

namespace Smalltalk

variable {frames : List Frame}

/-- A stack with some activations. -/
def CallStack.ofFrames (frames : List Frame) : CallStack := ⟨frames, frames.length, rfl⟩

theorem CallStack.eq_ofFrames {s : CallStack} (h : s.frames = frames) : s = ofFrames frames := by
  obtain ⟨fs, depth, hdepth⟩ := s
  subst h
  subst hdepth
  rfl

/-- In a list in which numbers fall, those from some number on come first. -/
theorem dropWhile_eq_filter_of_pairwise {loops : List Loop}
    (h : loops.Pairwise fun a b => b.depth < a.depth) (n : Nat) :
    (loops.dropWhile fun l => decide (n ≤ l.depth)) = loops.filter fun l => l.depth < n := by
  induction loops with
  | nil => rfl
  | cons l loops ih =>
    obtain ⟨hl, hloops⟩ := List.pairwise_cons.1 h
    by_cases hn : n ≤ l.depth
    · rw [List.dropWhile_cons_of_pos (by simpa using hn), ih hloops,
        List.filter_cons_of_neg (by simpa using hn)]
    · rw [List.dropWhile_cons_of_neg (by simpa using hn), eq_comm, List.filter_eq_self]
      grind

namespace Machine

/-- **Go on with some of the activations**, the innermost of which gets a value, and with the loops
that were started in them. If there are none the program is over. -/
def returnTo (m : Machine) (below : List Frame) (v : Value) : Progress :=
  let loops := m.loops.filter fun l => l.depth < below.length
  match below with
  | [] => .finished v ⟨m.classes, m.transcript, m.store, CallStack.empty, loops⟩
  | f :: frames =>
    .running ⟨m.classes, m.transcript, m.store, CallStack.ofFrames (f.push v :: frames), loops⟩

variable {Λ : History} {m : Machine} {above below : List Frame} {home f : Frame}

/-- **Ending a method ends exactly the loops inside of it**, and resumes none: above the activation
that started a loop runs a block, not a method. -/
theorem leave_eq_returnTo (h : LoopsFit m.stack.frames m.loops)
    (hm : m.stack.frames = above ++ home :: below) (hhome : home.block = none) (v : Value) :
    m.leave (above.length + 1) v = m.returnTo below v := by
  have hdrop : m.stack.drop (above.length + 1) = CallStack.ofFrames below := by
    refine CallStack.eq_ofFrames ?_
    change m.stack.frames.drop (above.length + 1) = below
    rw [hm, List.drop_append, List.drop_eq_nil_of_le (by omega), List.nil_append,
      Nat.add_sub_cancel_left]
    rfl
  have hresume : ∀ l ∈ m.loops, l.depth + 1 ≠ below.length := by
    grind
  have hloops := dropWhile_eq_filter_of_pairwise h.order below.length
  have hdepth : (CallStack.ofFrames below).depth = below.length := rfl
  simp only [leave, hdrop, hdepth]
  rw [hloops, returnTo.eq_def]
  have hsub : (m.loops.filter fun l => l.depth < below.length).Sublist m.loops :=
    List.filter_sublist
  generalize (m.loops.filter fun l => l.depth < below.length) = loops at hsub ⊢
  cases loops with
  | nil => cases below <;> rfl
  | cons l outer =>
    simp only
    rw [if_neg (hresume l (hsub.subset List.mem_cons_self))]
    cases below <;> rfl

/-- An activation is in progress at most once. -/
theorem Consistent.activation_unique (h : m.Consistent Λ)
    (hm : m.stack.frames = above ++ home :: below) (hf : f ∈ above ++ below) :
    f.environment.activation ≠ home.environment.activation := by
  have horder := h.order
  rw [hm, List.pairwise_append] at horder
  obtain ⟨-, hbelow, habove⟩ := horder
  rcases List.mem_append.1 hf with hf | hf
  · have := habove f hf home List.mem_cons_self
    omega
  · have := (List.pairwise_cons.1 hbelow).1 f hf
    omega

/-- The home of a block is an activation of the method itself, with the same receiver. -/
theorem Consistent.home_of_block (h : m.Consistent Λ) (hf : f ∈ m.stack.frames)
    (hhome : home ∈ m.stack.frames) (hactivation : home.environment.activation = f.environment.home) :
    home.block = none ∧ home.method = f.method ∧
      home.environment.receiver = f.environment.receiver := by
  have hborn := History.home_known h.ordered (h.frames f hf).known
  have hfits := h.frames home hhome
  have hknown := hfits.known
  rw [History.Knows, hactivation, hborn, Option.some.injEq, Birth.mk.injEq] at hknown
  obtain ⟨hmethod, hreceiver, henclosing⟩ := hknown
  refine ⟨?_, hmethod.symm, hreceiver.symm⟩
  have hblock := hfits.block
  rw [Environment.isBlock, ← henclosing] at hblock
  simpa using hblock

/-- A return from an activation of a block ends all activations down to its home. -/
theorem returnCount?_of_home (hblock : f.environment.isBlock)
    (hm : m.stack.frames = above ++ home :: below)
    (hhome : home.environment.activation = f.environment.home)
    (habove : ∀ g ∈ above, g.environment.activation ≠ f.environment.home) :
    m.returnCount? f = some (above.length + 1) := by
  rw [returnCount?, if_pos hblock, hm, List.findIdx?_append]
  grind

theorem step_of_read (hm : m.stack.frames = f :: frames) {i : Instruction} {rest : List UInt8}
    (hread : Instruction.read? f.rest = some (i, rest)) :
    m.step = m.execute { f with rest := rest } i := by
  rw [step, hm]
  simp only [hread]

/-- A return ends as many activations as it counts. -/
theorem step_of_methodReturn (hm : m.stack.frames = f :: frames) {rest : List UInt8}
    (hread : Instruction.read? f.rest = some (.methodReturn, rest)) {v : Value}
    {operands : List Value} (hv : f.operands = v :: operands) :
    m.step = ((m.returnCount? f).map (m.leave · v)).getD
      (.failed (.blockCannotReturn f.code.name) m) := by
  rw [step_of_read hm hread]
  simp only [execute, withTop, hv]
  change _ = ((m.returnCount? { f with rest := rest, operands := v :: operands }).map _).getD _
  cases m.returnCount? { f with rest := rest, operands := v :: operands } <;> rfl

/-- **A return in a block ends its home.**  In a state that can be reached, let the innermost
activation be one of a block that is about to return `v`. If its home is in progress, it is so
once, as an activation of the method that the block is part of, with the same receiver; the
activations down to the home and the loops started in them are over, `v` is pushed in the activation
below, and everything else is left as it was. If the home is not in progress, the return fails. -/
theorem step_of_return_in_block {classes : ClassTable} (h : Reachable classes m) {f : Frame}
    {frames : List Frame} (hm : m.stack.frames = f :: frames) (hblock : f.block.isSome)
    {rest : List UInt8} (hread : Instruction.read? f.rest = some (.methodReturn, rest))
    {v : Value} {operands : List Value} (hv : f.operands = v :: operands) :
    (∀ above home below, m.stack.frames = above ++ home :: below →
      home.environment.activation = f.environment.home →
        (∀ g ∈ above ++ below, g.environment.activation ≠ f.environment.home) ∧
        home.block = none ∧ home.method = f.method ∧
        home.environment.receiver = f.environment.receiver ∧
        m.step = m.returnTo below v) ∧
    ((∀ g ∈ m.stack.frames, g.environment.activation ≠ f.environment.home) →
      m.step = .failed (.blockCannotReturn f.code.name) m) := by
  obtain ⟨Λ, hΛ⟩ := h.consistent
  have hf : f ∈ m.stack.frames := by rw [hm]; exact List.mem_cons_self
  have hisBlock : f.environment.isBlock := (hΛ.frames f hf).block ▸ hblock
  have hstep := step_of_methodReturn hm hread hv
  refine ⟨fun above home below hsplit hhome => ?_, fun hnone => ?_⟩
  · have hunique : ∀ g ∈ above ++ below, g.environment.activation ≠ f.environment.home :=
      fun g hg => hhome ▸ hΛ.activation_unique hsplit hg
    have hmem : home ∈ m.stack.frames := by
      rw [hsplit]
      exact List.mem_append_right _ List.mem_cons_self
    obtain ⟨hmethod, hhomes⟩ := hΛ.home_of_block hf hmem hhome
    refine ⟨hunique, hmethod, hhomes.1, hhomes.2, ?_⟩
    have hcount := returnCount?_of_home hisBlock hsplit hhome fun g hg =>
      hunique g (List.mem_append_left _ hg)
    rw [hstep, hcount]
    exact leave_eq_returnTo hΛ.loops hsplit hmethod v
  · have hcount : m.returnCount? f = none := by
      rw [returnCount?, if_pos hisBlock]
      simpa [List.findIdx?_eq_none_iff] using hnone
    rw [hstep, hcount]
    rfl

/-! ### A return from within a loop -/

/-- A method that leaves a loop by a return in the body of the loop. -/
def loopLeftByReturn : ClassTable :=
  ClassTable.ofSymbols (Compilation.ofPrograms ⟨"main.st", false, false⟩ [Program.parse
    "class A [class new <primitive:#Object_Class_BASICNEW> go [[true] whileTrue: [^7]]] A new go"]).table

/-- Is a block that was started by a loop of its own method about to return an operand? -/
def isReturningInLoop (m : Machine) : Bool :=
  match m.stack.frames with
  | [f, home, _] =>
    f.block.isSome && (Instruction.read? f.rest).map Prod.fst = some .methodReturn
      && !f.operands.isEmpty && home.environment.activation = f.environment.home
      && m.loops.length = 1
  | _ => false

theorem Reachable.steps {classes : ClassTable} (h : Reachable classes m) {n : Nat} {m' : Machine}
    (hsteps : m.steps n = .running m') : Reachable classes m' := by
  induction n generalizing m with
  | zero =>
    obtain rfl : m = m' := by simpa [Machine.steps] using hsteps
    exact h
  | succ n ih =>
    rw [Machine.steps] at hsteps
    cases hstep : m.step with
    | running m₁ =>
      rw [hstep] at hsteps
      exact ih (h.step hstep) hsteps
    | finished v m₁ | failed fault m₁ => rw [hstep] at hsteps; cases hsteps

/-- Has the state after some steps of a run of the main class a property? -/
def holdsAfter (classes : ClassTable) (n : Nat) (p : Machine → Bool) : Bool :=
  ((Machine.new classes).start? mainClass).any fun m =>
    match m.steps n with
    | .running m => p m
    | _ => false

theorem exists_of_holdsAfter {classes : ClassTable} {n : Nat} {p : Machine → Bool}
    (h : holdsAfter classes n p = true) :
    ∃ m₀ m, (Machine.new classes).start? mainClass = some m₀ ∧ m₀.steps n = .running m ∧
      p m = true := by
  rw [holdsAfter] at h
  cases hstart : (Machine.new classes).start? mainClass with
  | none => rw [hstart] at h; cases h
  | some m₀ =>
    grind

theorem exists_reachable_of_holdsAfter {classes : ClassTable} {n : Nat} {p : Machine → Bool}
    (h : holdsAfter classes n p = true) : ∃ m, Reachable classes m ∧ p m = true := by
  obtain ⟨m₀, m, hstart, hsteps, hp⟩ := exists_of_holdsAfter h
  exact ⟨m, (Reachable.new.start hstart).steps hsteps, hp⟩

set_option maxRecDepth 100000 in
theorem exists_reachable_isReturningInLoop :
    ∃ m, Reachable loopLeftByReturn m ∧ m.isReturningInLoop = true := by
  have hafter : holdsAfter loopLeftByReturn 9 isReturningInLoop = true := by decide +kernel
  exact exists_reachable_of_holdsAfter hafter

/-- The return ends the loop along with its method. -/
theorem step_of_return_in_loop :
    ∃ m f home main v, Reachable loopLeftByReturn m ∧ m.stack.frames = [f, home, main] ∧
      f.block.isSome ∧ m.loops.length = 1 ∧ home.method = f.method ∧ m.step = m.returnTo [main] v := by
  obtain ⟨m, hm, hreturning⟩ := exists_reachable_isReturningInLoop
  rw [isReturningInLoop.eq_def] at hreturning
  split at hreturning
  next f home main hframes =>
      simp only [Bool.and_eq_true, decide_eq_true_eq, Option.map_eq_some_iff, Prod.exists,
        exists_and_right, exists_eq_right] at hreturning
      obtain ⟨⟨⟨⟨hblock, rest, hread⟩, hoperands⟩, hhome⟩, hloops⟩ := hreturning
      cases hv : f.operands with
      | nil => simp [hv] at hoperands
      | cons v operands =>
        obtain ⟨-, -, hmethod, -, hstep⟩ :=
          (step_of_return_in_block hm hframes hblock hread hv).1 [f] home [main] hframes hhome
        exact ⟨m, f, home, main, v, hm, hframes, hblock, hloops, hmethod, hstep⟩
  next => cases hreturning

end Machine

end Smalltalk
