/-
**Loops in progress.**

A loop runs its condition and its body by turns, right above the activation that started it. While
it is in progress nothing touches that activation, nor those below: its code, its variables and its
operands are the same whenever the next turn starts. The loop is only ever given the answer of its
own condition or body. When the condition does not answer what the loop goes on with, the loop is
over and the activation that started it gets one nil.

None of this depends on what code is run.

* `Machine.step_cases` — **what a step does to the activations and loops in progress**;
* `Machine.loops_in_progress` — **the invariant of loops**, and how they go on and end.
-/

import Smalltalk.Proofs.NonLocalReturn

namespace Smalltalk

variable {arguments : List Value} {p : Machine → Bool}

/-! ### Sending a message -/

/-- **An activation before and after it has sent a message** to which no operation replied at once:
the receiver and the arguments are gone, the code goes on after the message, and all else is the
same. -/
structure Frame.Calls (before after : Frame) (receiver : Value) (arguments : List Value) : Prop where
  same : after = { before with rest := after.rest, operands := after.operands }
  operands : before.operands = arguments.reverse ++ receiver :: after.operands
  message : ∃ count selector : UInt16, count.toNat = arguments.length ∧
    (Instruction.read? before.rest = some (.send count selector, after.rest) ∨
      Instruction.read? before.rest = some (.sendSuper count selector, after.rest))

/-! ### Loops in progress -/

/-- Can the blocks of the loop be started? -/
def Loop.Ready (l : Loop) : Prop :=
  l.condition.code.argumentCount = 0 ∧ l.body.code.argumentCount = 0

namespace Machine

/-! ### Ending activations -/

/-- **A step ends some activations**: how many, and with which value. -/
inductive Leaves (m : Machine) : Nat → Value → Prop where
  | block {f : Frame} {frames : List Frame} {rest : List UInt8} {v : Value} {operands : List Value}
      (hm : m.stack.frames = f :: frames)
      (hread : Instruction.read? f.rest = some (.blockReturn, rest))
      (hv : f.operands = v :: operands) : Leaves m 1 v
  | method {f : Frame} {frames : List Frame} {rest : List UInt8} {v : Value}
      {operands : List Value} {n : Nat} (hm : m.stack.frames = f :: frames)
      (hread : Instruction.read? f.rest = some (.methodReturn, rest))
      (hv : f.operands = v :: operands) (hcount : m.returnCount? f = some n) : Leaves m n v

/-- **A step gives a value to a loop**: the innermost one that is left waits right below the
activations that end. -/
structure Resumes (m : Machine) (n : Nat) (v : Value) (l : Loop) (outer : List Loop) : Prop where
  leaves : m.Leaves n v
  loops : (m.loops.dropWhile fun loop => decide (m.stack.depth - n ≤ loop.depth)) = l :: outer
  depth : l.depth + 1 = m.stack.depth - n

variable {m m' : Machine} {n : Nat} {v : Value} {l : Loop} {outer : List Loop} {f : Frame}
  {frames below : List Frame} {c : Closure Value} {classes : ClassTable}

theorem Leaves.step_eq (h : m.Leaves n v) : m.step = m.leave n v := by
  cases h with
  | block hm hread hv =>
    rw [step_of_read hm hread]
    simp only [execute, withTop, hv]
  | @method f frames rest _ operands _ hm hread hv hcount =>
    rw [step_of_methodReturn hm hread hv, hcount]
    rfl

theorem Leaves.pos (h : m.Leaves n v) : 0 < n := by
  cases h with
  | block => exact Nat.one_pos
  | method _ _ _ hcount => exact returnCount?_pos hcount

/-- The loop goes on with the value. -/
theorem Resumes.step_eq (h : m.Resumes n v l outer) :
    m.step =
      continueLoop ⟨m.classes, m.transcript, m.store, m.stack.drop n, l :: outer⟩ l outer v := by
  rw [h.leaves.step_eq]
  simp only [leave]
  have hloops : (m.loops.dropWhile fun loop => decide ((m.stack.drop n).depth ≤ loop.depth)) =
      l :: outer := h.loops
  rw [hloops]
  simp only
  rw [if_pos (show l.depth + 1 = (m.stack.drop n).depth from h.depth)]

/-! ### Steps -/

/-- **What a step does to the activations and loops in progress**, if the machine goes on. -/
inductive StepShape (m m' : Machine) (f : Frame) (below : List Frame) : Prop where
  /-- The innermost activation goes on. -/
  | proceed {g : Frame} (hframes : m'.stack.frames = g :: below) (hloops : m'.loops = m.loops)
  /-- An activation is started. -/
  | enter {g h : Frame} {receiver : Value} {arguments : List Value}
      (hframes : m'.stack.frames = h :: g :: below) (hloops : m'.loops = m.loops)
      (hcalls : f.Calls g receiver arguments)
  /-- A loop is started. -/
  | loop {g h : Frame} {l : Loop} {receiver : Value} {arguments : List Value}
      (hframes : m'.stack.frames = h :: g :: below) (hloops : m'.loops = l :: m.loops)
      (hdepth : l.depth = below.length) (hready : l.Ready) (hcalls : f.Calls g receiver arguments)
  /-- Activations end. -/
  | leave {n : Nat} {v : Value} (hleaves : m.Leaves n v) (hstep : m.leave n v = .running m')

theorem frames_replaceTop {s : CallStack} (h : s.frames = f :: frames) (g : Frame) :
    (s.replaceTop g).frames = g :: frames := by
  obtain ⟨fs, depth, hdepth⟩ := s
  obtain rfl : fs = f :: frames := h
  rfl

theorem enterBlock_shape (h : m.enterBlock c arguments = .running m') :
    ∃ g, m'.stack.frames = g :: m.stack.frames ∧ m'.loops = m.loops := by
  rw [enterBlock] at h
  split at h
  · obtain rfl := Progress.running.inj h
    exact ⟨_, rfl, rfl⟩
  · cases h

/-- An activation that has sent a message waits without the receiver and the arguments. -/
theorem calls_of_sends {i : Instruction} {rest : List UInt8} {receiver : Value} {left : List Value}
    (hread : Instruction.read? f.rest = some (i, rest))
    (hsends : Frame.Sends { f with rest := rest } i receiver arguments left) :
    f.Calls { f with rest := rest, operands := left } receiver arguments := by
  obtain ⟨hoperands, count, selector, hcount, hi⟩ := hsends
  refine ⟨rfl, hoperands, count, selector, hcount, ?_⟩
  rcases hi with rfl | rfl
  · exact .inl hread
  · exact .inr hread

/-- **What a step does to the activations and loops in progress.** -/
theorem step_cases (hstep : m.step = .running m') :
    ∃ f below, m.stack.frames = f :: below ∧ StepShape m m' f below := by
  cases hm : m.stack.frames with
  | nil =>
    rw [step, hm] at hstep
    cases hstep
  | cons f below =>
    refine ⟨f, below, rfl, ?_⟩
    cases hread : Instruction.read? f.rest with
    | none =>
      rw [step, hm] at hstep
      simp only [hread] at hstep
      cases hstep
    | some read =>
      obtain ⟨i, rest⟩ := read
      rw [step_of_read hm hread, execute_eq_carryOut] at hstep
      have hasks := m.action_asks { f with rest := rest } i
      have hproceed (operands : List Value) :
          (m.proceed { f with rest := rest } m.store operands).stack.frames =
            { f with rest := rest, operands := operands } :: below :=
        frames_replaceTop hm _
      generalize m.action { f with rest := rest } i = a at hasks hstep
      cases hasks with
      | proceed | assign | record =>
        obtain rfl := Progress.running.inj hstep
        exact .proceed (frames_replaceTop hm _) rfl
      | @call receiver method arguments operands hsends =>
        rw [carryOut, enterMethod] at hstep
        split at hstep
        · obtain rfl := Progress.running.inj hstep
          exact .enter (congrArg (List.cons _) (hproceed operands)) rfl (calls_of_sends hread hsends)
        · cases hstep
      | @invoke receiver closure arguments given operands hsends =>
        obtain ⟨callee, hframes, hloops⟩ := enterBlock_shape hstep
        exact .enter (hframes.trans (congrArg (List.cons _) (hproceed operands))) hloops
          (calls_of_sends hread hsends)
      | @loop receiver condition body arguments operands repeatWhile hsends hready =>
        obtain ⟨callee, hframes, hloops⟩ := enterBlock_shape hstep
        refine .loop (hframes.trans (congrArg (List.cons _) (hproceed operands))) hloops ?_ hready
          (calls_of_sends hread hsends)
        change (m.proceed { f with rest := rest } m.store operands).stack.depth - 1 = _
        rw [CallStack.depth_eq, hproceed operands]
        rfl
      | leave hi hv =>
        subst hi
        exact .leave (.block hm hread hv) hstep
      | answer hi hv =>
        subst hi
        rw [carryOut] at hstep
        split at hstep
        next n hcount => exact .leave (.method hm hread hv hcount) hstep
        next => cases hstep
      | fail => cases hstep

/-! ### What ending activations leaves -/

/-- **What is left when activations end**, if the machine goes on. -/
inductive LeaveShape (m m' : Machine) (n : Nat) (v : Value) : Prop where
  /-- The activation below gets the value; no loop waits for it. -/
  | give {g : Frame} {below : List Frame} (hdrop : m.stack.frames.drop n = g :: below)
      (hframes : m'.stack.frames = g.push v :: below)
      (hloops : m'.loops = m.loops.filter fun l => l.depth < below.length + 1)
      (hfree : ∀ l ∈ m'.loops, l.depth ≠ below.length)
  /-- A loop goes on with its other block. -/
  | turn {g : Frame} {l : Loop} {outer : List Loop}
      (hloops : m.loops.filter (fun l => l.depth < (m.stack.frames.drop n).length) = l :: outer)
      (hdepth : l.depth + 1 = (m.stack.frames.drop n).length)
      (hinner : ∀ l' ∈ outer, l'.depth < l.depth)
      (hframes : m'.stack.frames = g :: m.stack.frames.drop n) {inBody : Bool}
      (hloops' : m'.loops = { l with inBody := inBody } :: outer)
  /-- A loop is over. -/
  | done {g : Frame} {below : List Frame} {l : Loop} {outer : List Loop}
      (hloops : m.loops.filter (fun l => l.depth < (m.stack.frames.drop n).length) = l :: outer)
      (hdepth : l.depth + 1 = (m.stack.frames.drop n).length)
      (hinner : ∀ l' ∈ outer, l'.depth < l.depth)
      (hdrop : m.stack.frames.drop n = g :: below)
      (hframes : m'.stack.frames = g.push .nil :: below) (hloops' : m'.loops = outer)

theorem give_shape (h : m.give v = .running m') :
    ∃ g below, m.stack.frames = g :: below ∧ m'.stack.frames = g.push v :: below ∧
      m'.loops = m.loops := by
  rw [give] at h
  split at h
  case h_1 => cases h
  case h_2 g below hm =>
    obtain rfl := Progress.running.inj h
    exact ⟨g, below, hm, frames_replaceTop hm _, rfl⟩

theorem leave_cases (horder : m.loops.Pairwise fun a b => b.depth < a.depth)
    (h : m.leave n v = .running m') : LeaveShape m m' n v := by
  have hlength : (m.stack.drop n).depth = (m.stack.frames.drop n).length :=
    (m.stack.drop n).depth_eq
  have hfilter := dropWhile_eq_filter_of_pairwise horder (m.stack.frames.drop n).length
  simp only [leave, hlength] at h
  rw [hfilter] at h
  cases hloops : m.loops.filter fun l => decide (l.depth < (m.stack.frames.drop n).length) with
  | nil =>
    rw [hloops] at h
    obtain ⟨g, below, hdrop, hframes, hnil⟩ := give_shape h
    refine .give hdrop hframes ?_ fun l hl => ?_
    · rw [hnil, ← hloops, show m.stack.frames.drop n = g :: below from hdrop]
      rfl
    · rw [hnil] at hl
      cases hl
  | cons l outer =>
    have hinner := horder.filter fun l => decide (l.depth < (m.stack.frames.drop n).length)
    rw [hloops] at hinner
    replace hinner := (List.pairwise_cons.1 hinner).1
    rw [hloops] at h
    simp only at h
    split at h
    case isTrue hdepth =>
      simp only [continueLoop] at h
      split at h
      · obtain ⟨g, hframes, hloops'⟩ := enterBlock_shape h
        exact .turn hloops hdepth hinner hframes hloops'
      · split at h
        · split at h
          · obtain ⟨g, hframes, hloops'⟩ := enterBlock_shape h
            exact .turn hloops hdepth hinner hframes hloops'
          · obtain ⟨g, below, hdrop, hframes, hloops'⟩ := give_shape h
            exact .done hloops hdepth hinner hdrop hframes hloops'
        · cases h
    case isFalse hdepth =>
      obtain ⟨g, below, hdrop, hframes, hloops'⟩ := give_shape h
      have hlen : (m.stack.frames.drop n).length = below.length + 1 := by
        rw [show m.stack.frames.drop n = g :: below from hdrop]
        rfl
      refine .give hdrop hframes (by rw [hloops', ← hlen, hloops]) fun l' hl' => ?_
      rw [hloops'] at hl'
      have hl : l.depth < (m.stack.frames.drop n).length := by
        have hmem : l ∈ m.loops.filter fun l =>
            decide (l.depth < (m.stack.frames.drop n).length) := by
          rw [hloops]
          exact List.mem_cons_self
        simpa using (List.mem_filter.1 hmem).2
      grind

/-! ### What stays as it is while a loop is in progress -/

/-- Is a loop in progress that was started by the activation at this depth? -/
def HasLoop (m : Machine) (depth : Nat) : Prop := ∃ l ∈ m.loops, l.depth = depth

/-- **Runs during which a loop stays in progress.** -/
inductive Looping (depth : Nat) (m : Machine) : Machine → Prop where
  | refl (h : m.HasLoop depth) : Looping depth m m
  | step {m' m'' : Machine} (h : Looping depth m m') (hstep : m'.step = .running m'')
      (hloop : m''.HasLoop depth) : Looping depth m m''

/-- A step that leaves a loop in progress leaves alone the activations up to the one that started
it. -/
theorem frames_of_step_of_hasLoop (hfit : LoopsFit m.stack.frames m.loops)
    (hstep : m.step = .running m') (hl : l ∈ m.loops) (hl' : m'.HasLoop l.depth) :
    ∃ above above' below, m.stack.frames = above ++ below ∧ m'.stack.frames = above' ++ below ∧
      l.depth < below.length := by
  have hlt := hfit.depth_lt hl
  obtain ⟨f, below, hm, hshape⟩ := step_cases hstep
  rw [hm, List.length_cons] at hlt
  have hbelow : l.depth < below.length := Nat.lt_of_succ_lt_succ hlt
  cases hshape with
  | @proceed g hframes hloops => exact ⟨[f], [g], below, hm, hframes, hbelow⟩
  | @enter g h _ _ hframes
  | @loop g h _ _ _ hframes => exact ⟨[f], [h, g], below, hm, hframes, hbelow⟩
  | @leave n v hleaves hleave =>
    obtain ⟨l', hmem, hdepth'⟩ := hl'
    cases leave_cases hfit.order hleave with
    | @give g rest hdrop hframes hloops hfree =>
      have hne := hfree l' hmem
      rw [hloops] at hmem
      have hlt' := (List.mem_filter.1 hmem).2
      simp only [decide_eq_true_eq] at hlt'
      refine ⟨m.stack.frames.take n ++ [g], [g.push v], rest, ?_, hframes, by omega⟩
      rw [List.append_assoc, List.singleton_append, ← hdrop, List.take_append_drop]
    | @turn g loop outer hloops hdepth hinner hframes _ hloops' =>
      refine ⟨m.stack.frames.take n, [g], m.stack.frames.drop n,
        (List.take_append_drop _ _).symm, hframes, ?_⟩
      grind
    | @done g rest loop outer hloops hdepth hinner hdrop hframes hloops' =>
      refine ⟨m.stack.frames.take n ++ [g], [g.push .nil], rest, ?_, hframes, ?_⟩
      · rw [List.append_assoc, List.singleton_append, ← hdrop, List.take_append_drop]
      · grind

/-- No two loops in progress were started by the same activation. -/
theorem eq_of_depth_eq {loops : List Loop} (horder : loops.Pairwise fun a b => b.depth < a.depth)
    {l' : Loop} (hl : l ∈ loops) (hl' : l' ∈ loops) (hdepth : l.depth = l'.depth) : l = l' := by
  induction loops with
  | nil => cases hl
  | cons first loops ih =>
    obtain ⟨hfirst, hloops⟩ := List.pairwise_cons.1 horder
    grind

/-- While a loop stays in progress, it has the same blocks and goes on with the same answer. -/
theorem mem_loops_of_step_of_hasLoop (hfit : LoopsFit m.stack.frames m.loops)
    (hstep : m.step = .running m') (hl : l ∈ m.loops) (hl' : m'.HasLoop l.depth) :
    ∃ inBody, { l with inBody := inBody } ∈ m'.loops := by
  obtain ⟨l', hmem, hdepth'⟩ := hl'
  obtain ⟨f, below, hm, hshape⟩ := step_cases hstep
  cases hshape with
  | proceed hframes hloops | enter hframes hloops => exact ⟨l.inBody, hloops ▸ hl⟩
  | loop hframes hloops hdepth hready => exact ⟨l.inBody, hloops ▸ List.mem_cons_of_mem _ hl⟩
  | leave hleaves hleave =>
    have hsame (h : l' ∈ m.loops) : l' = l := eq_of_depth_eq hfit.order h hl hdepth'
    cases leave_cases hfit.order hleave with
    | give hdrop hframes hloops hfree =>
      have hmem' := hmem
      rw [hloops] at hmem'
      exact ⟨l.inBody, hsame (List.mem_of_mem_filter hmem') ▸ hmem⟩
    | @turn g loop outer hloops hdepth hinner hframes inBody hloops' =>
      have hsub : ∀ x ∈ loop :: outer, x ∈ m.loops := fun x hx =>
        List.mem_of_mem_filter (hloops ▸ hx)
      have hmem' := hmem
      rw [hloops'] at hmem'
      rcases List.mem_cons.1 hmem' with rfl | houter
      · grind
      · exact ⟨l.inBody, hsame (hsub l' (List.mem_cons_of_mem _ houter)) ▸ hmem⟩
    | @done g rest loop outer hloops hdepth hinner hdrop hframes hloops' =>
      have hmem' := hmem
      rw [hloops'] at hmem'
      exact ⟨l.inBody, hsame (List.mem_of_mem_filter (hloops ▸ List.mem_cons_of_mem _ hmem')) ▸ hmem⟩

/-- **While a loop stays in progress, nothing changes below it**: neither the activation that
started it nor those further out. -/
theorem Looping.unchanged (h : Reachable classes m) (hl : l ∈ m.loops)
    (hloop : Looping l.depth m m') :
    Reachable classes m' ∧ (∃ inBody, { l with inBody := inBody } ∈ m'.loops) ∧
      ∀ i ≤ l.depth, m'.stack.frames.reverse[i]? = m.stack.frames.reverse[i]? := by
  induction hloop with
  | refl => exact ⟨h, ⟨l.inBody, hl⟩, fun _ _ => rfl⟩
  | @step m' m'' _ hstep hl'' ih =>
    obtain ⟨hreach, ⟨inBody, hmem⟩, hframes⟩ := ih
    obtain ⟨Λ, hΛ⟩ := hreach.consistent
    obtain ⟨above, above', below, hm', hm'', hlt⟩ :=
      frames_of_step_of_hasLoop hΛ.loops hstep hmem hl''
    have hmem'' := mem_loops_of_step_of_hasLoop hΛ.loops hstep hmem hl''
    refine ⟨hreach.step hstep, hmem'', ?_⟩
    grind

/-! ### How loops go on -/

/-- The blocks of a loop can be started again and again. -/
theorem Reachable.ready (h : Reachable classes m) : ∀ l ∈ m.loops, l.Ready := by
  induction h with
  | new =>
    intro l hl
    rw [← new_clear] at hl
    cases hl
  | start _ hstart _ =>
    intro l hl
    obtain ⟨_, _, -, -, rfl⟩ := of_start? hstart
    cases hl
  | @step m m' hreach hstep ih =>
    intro l hl
    obtain ⟨Λ, hΛ⟩ := hreach.consistent
    obtain ⟨f, below, hm, hshape⟩ := step_cases hstep
    cases hshape with
    | proceed hframes hloops | enter hframes hloops => exact ih l (hloops ▸ hl)
    | loop hframes hloops hdepth hready =>
      grind
    | leave hleaves hleave =>
      cases leave_cases hΛ.loops.order hleave with
      | give hdrop hframes hloops hfree =>
        exact ih l (List.mem_of_mem_filter (hloops ▸ hl))
      | @turn g loop outer hloops hdepth hinner hframes inBody hloops' =>
        rw [hloops'] at hl
        rcases List.mem_cons.1 hl with rfl | hl
        · exact ih loop (List.mem_of_mem_filter (hloops ▸ List.mem_cons_self))
        · exact ih l (List.mem_of_mem_filter (hloops ▸ List.mem_cons_of_mem _ hl))
      | done hloops hdepth hinner hdrop hframes hloops' =>
        grind
  | finish | fail => exact fun l hl => absurd hl List.not_mem_nil

/-- A loop is given a value only by its own condition or body: the innermost activation is the one
right above the activation that started the innermost loop, and it ends by itself. -/
theorem Resumes.own_block {Λ : History} (h : m.Consistent Λ) (hresumes : m.Resumes n v l outer) :
    n = 1 ∧ m.loops = l :: outer ∧
      ∃ f below rest operands, m.stack.frames = f :: below ∧ below.length = l.depth + 1 ∧
        f.Runs l.current ∧ Instruction.read? f.rest = some (.blockReturn, rest) ∧
        f.operands = v :: operands := by
  have hdepth := hresumes.depth
  rw [m.stack.depth_eq] at hdepth
  obtain ⟨-, hsub⟩ := of_dropWhile_eq_cons hresumes.loops
  obtain ⟨g, hg, hruns⟩ := h.loops.running l (hsub.subset List.mem_cons_self)
  -- the activation that ends last is a block of the loop, so it is not one of a method
  have hlast {above below : List Frame} {home : Frame}
      (hm : m.stack.frames = above ++ home :: below) (hn : n = above.length + 1) : g = home := by
    have hbelow : l.depth + 1 = below.length := by
      rw [hm, List.length_append, List.length_cons] at hdepth
      omega
    rw [hm, List.reverse_append, List.reverse_cons, hbelow, ← List.length_reverse,
      List.append_assoc, List.getElem?_append_right (Nat.le_refl _)] at hg
    simpa using hg.symm
  cases hresumes.leaves with
  | @block f below rest _ operands hm hread hv =>
    have hm' : m.stack.frames = [] ++ f :: below := hm
    have hgf : g = f := hlast hm' rfl
    have hbelow : below.length = l.depth + 1 := by
      rw [hm, List.length_cons] at hdepth
      omega
    refine ⟨rfl, ?_, f, below, rest, operands, hm, hbelow, hgf ▸ hruns, hread, hv⟩
    have hloops := hresumes.loops
    rw [m.stack.depth_eq, dropWhile_eq_filter_of_pairwise h.loops.order,
      List.filter_eq_self.2] at hloops
    · exact hloops
    · intro l' hl'
      have := h.loops.depth_lt hl'
      simp only [decide_eq_true_eq]
      omega
  | @method f frames rest _ operands _ hm hread hv hcount =>
    have hf : f ∈ m.stack.frames := by
      rw [hm]
      exact List.mem_cons_self
    have hnone : g.block = none := by
      rw [returnCount?] at hcount
      split at hcount
      case isTrue hblock =>
        obtain ⟨i, hi, rfl⟩ := Option.map_eq_some_iff.1 hcount
        obtain ⟨hlt, hhome, -⟩ := List.findIdx?_eq_some_iff_getElem.1 hi
        have hsplit := (List.take_append_drop i m.stack.frames).symm
        rw [List.drop_eq_getElem_cons hlt] at hsplit
        rw [hlast hsplit (by rw [List.length_take]; omega)]
        exact (h.home_of_block hf (List.getElem_mem hlt) (by simpa using hhome)).1
      case isFalse hblock =>
        obtain rfl := Option.some.inj hcount
        have hm' : m.stack.frames = [] ++ f :: frames := hm
        rw [hlast hm' rfl]
        have hfits := (h.frames f hf).block
        rw [Bool.eq_false_iff.2 hblock] at hfits
        simpa using hfits
    rw [hruns.block] at hnone
    cases hnone

/-- The machine with a new activation of a block, which has no arguments. -/
def withBlock (m : Machine) (c : Closure Value) (below : List Frame) (loops : List Loop) :
    Machine :=
  let (activation, store) := m.store.newActivation (slots c.code [])
  ⟨m.classes, m.transcript, store,
    CallStack.ofFrames (Frame.ofBlock c activation :: below), loops⟩

theorem enterBlock_nil (hc : c.code.argumentCount = 0) (hm : m.stack.frames = below) :
    m.enterBlock c [] = .running (m.withBlock c below m.loops) := by
  obtain ⟨classes, transcript, store, stack, loops⟩ := m
  obtain rfl := CallStack.eq_ofFrames hm
  have hlength : ([] : List Value).length = c.code.argumentCount := hc.symm
  rw [enterBlock, if_pos hlength]
  rfl

/-- A value that no loop is given goes to the activation below. -/
theorem Leaves.step_of_free (h : m.Leaves n v)
    (horder : m.loops.Pairwise fun a b => b.depth < a.depth)
    (hfree : ∀ l outer, ¬m.Resumes n v l outer) :
    m.step = m.returnTo (m.stack.frames.drop n) v := by
  have hdrop : m.stack.drop n = CallStack.ofFrames (m.stack.frames.drop n) :=
    CallStack.eq_ofFrames rfl
  have hlength : (CallStack.ofFrames (m.stack.frames.drop n)).depth = m.stack.depth - n := by
    rw [← hdrop]
    rfl
  have hloops := dropWhile_eq_filter_of_pairwise horder (m.stack.depth - n)
  rw [h.step_eq, returnTo.eq_def]
  simp only [leave, hdrop, hlength]
  rw [hloops]
  have hfilter : m.loops.filter (fun l => decide (l.depth < (m.stack.frames.drop n).length)) =
      m.loops.filter fun l => decide (l.depth < m.stack.depth - n) := by
    rw [← hlength]
    rfl
  rw [hfilter]
  cases hleft : m.loops.filter fun l => decide (l.depth < m.stack.depth - n) with
  | nil => cases m.stack.frames.drop n <;> rfl
  | cons l outer =>
    have hne : ¬l.depth + 1 = m.stack.depth - n := fun hdepth =>
      hfree l outer ⟨h, hloops.trans hleft, hdepth⟩
    simp only
    rw [if_neg hne]
    cases m.stack.frames.drop n <;> rfl

/-- **How the innermost loop goes on** when its own block answers a value: after the body comes the
condition, after the condition the body if the answer is the one the loop goes on with. With the
opposite answer the loop is over, and the activation that started it gets one nil. -/
structure GoesOn (m : Machine) (l : Loop) (outer : List Loop) (starter : Frame)
    (below : List Frame) (v : Value) : Prop where
  afterBody : l.inBody = true → m.step = .running
    (m.withBlock l.condition (starter :: below) ({ l with inBody := false } :: outer))
  onward : l.inBody = false → v = .boolean l.repeatWhile → m.step = .running
    (m.withBlock l.body (starter :: below) ({ l with inBody := true } :: outer))
  ended : l.inBody = false → v = .boolean (!l.repeatWhile) → m.step = .running
    ⟨m.classes, m.transcript, m.store, CallStack.ofFrames (starter.push .nil :: below), outer⟩
  neither : l.inBody = false → (∀ b, v ≠ .boolean b) → m.step = .failed
    (.typeError "Boolean" v.className)
    ⟨m.classes, m.transcript, m.store, CallStack.ofFrames (starter :: below), l :: outer⟩

theorem Resumes.goesOn (h : m.Resumes 1 v l outer) (hready : l.Ready) {starter : Frame}
    (hm : m.stack.frames = f :: starter :: below) : GoesOn m l outer starter below v := by
  have hdrop : m.stack.drop 1 = CallStack.ofFrames (starter :: below) := by
    refine CallStack.eq_ofFrames ?_
    change m.stack.frames.drop 1 = _
    rw [hm]
    rfl
  have hstep := h.step_eq
  rw [hdrop] at hstep
  refine ⟨fun hb => ?_, fun hb hv => ?_, fun hb hv => ?_, fun hb hv => ?_⟩
  · simp only [continueLoop, hb, if_true] at hstep
    rw [hstep, enterBlock_nil hready.1 rfl]
    rfl
  · subst hv
    simp only [continueLoop, hb, Bool.false_eq_true, if_false, if_true] at hstep
    rw [hstep, enterBlock_nil hready.2 rfl]
    rfl
  · subst hv
    have hne : ¬(!l.repeatWhile) = l.repeatWhile := by cases l.repeatWhile <;> decide
    simp only [continueLoop, hb, Bool.false_eq_true, if_false, hne] at hstep
    rw [hstep]
    rfl
  · simp only [continueLoop, hb, Bool.false_eq_true, if_false] at hstep
    grind

/-- **Loops in progress.**  In every state that can be reached, the loops in progress were started
by different activations, the innermost by the innermost; right above the activation that started a
loop runs its body or its condition, as the loop says. A loop is given a value only by that block,
and goes on as it should; any other value goes to the activation below. While a loop stays in
progress, it stays the same loop and the activations up to the one that started it stay as they
are. -/
theorem loops_in_progress {classes : ClassTable} (h : Reachable classes m) :
    (m.loops.Pairwise fun inner outer => outer.depth < inner.depth) ∧
    (∀ l ∈ m.loops, l.depth + 1 < m.stack.frames.length ∧
      ∃ f, m.stack.frames.reverse[l.depth + 1]? = some f ∧
        f.Runs (if l.inBody then l.body else l.condition)) ∧
    (∀ n v l outer, m.Resumes n v l outer → n = 1 ∧ m.loops = l :: outer ∧
      ∃ f starter below rest, m.stack.frames = f :: starter :: below ∧ below.length = l.depth ∧
        f.Runs (if l.inBody then l.body else l.condition) ∧ f.operands.head? = some v ∧
        Instruction.read? f.rest = some (.blockReturn, rest) ∧
        GoesOn m l outer starter below v) ∧
    (∀ n v, m.Leaves n v → (∀ l outer, ¬m.Resumes n v l outer) →
      m.step = m.returnTo (m.stack.frames.drop n) v) ∧
    (∀ l ∈ m.loops, ∀ m', Looping l.depth m m' →
      (∃ inBody, { l with inBody := inBody } ∈ m'.loops) ∧
      ∀ i ≤ l.depth, m'.stack.frames.reverse[i]? = m.stack.frames.reverse[i]?) := by
  obtain ⟨Λ, hΛ⟩ := h.consistent
  refine ⟨hΛ.loops.order, fun l hl => ⟨hΛ.loops.depth_lt hl, hΛ.loops.running l hl⟩, ?_,
    fun n v hleaves hfree => hleaves.step_of_free hΛ.loops.order hfree,
    fun l hl m' hloop => (hloop.unchanged h hl).2⟩
  intro n v l outer hresumes
  obtain ⟨rfl, hloops, f, frames, rest, operands, hm, hlength, hruns, hread, hv⟩ :=
    hresumes.own_block hΛ
  refine ⟨rfl, hloops, ?_⟩
  cases frames with
  | nil => cases hlength
  | cons starter below =>
    have hready := h.ready l (by rw [hloops]; exact List.mem_cons_self)
    exact ⟨f, starter, below, rest, hm, Nat.succ.inj hlength, hruns, by rw [hv]; rfl, hread,
      hresumes.goesOn hready hm⟩

/-! ### The end of a loop -/

/-- A program with a loop whose condition is not met. -/
def loopWithoutTurns : ClassTable :=
  ClassTable.ofSymbols
    (Compilation.ofPrograms ⟨"main.st", false, false⟩ [Program.parse "[false] whileTrue: [1]"]).table

/-- Is the condition of a loop of the main method about to answer false? -/
def isEndingLoop (m : Machine) : Bool :=
  match m.stack.frames, m.loops with
  | [f, _], [l] =>
    (Instruction.read? f.rest).map Prod.fst = some .blockReturn && l.depth = 0 && !l.inBody
      && l.repeatWhile && match f.operands with
        | [.boolean false] => true
        | _ => false
  | _, _ => false

set_option maxRecDepth 100000 in
/-- The loop is over, and the main method gets one nil. -/
theorem step_of_ending_loop :
    ∃ m f main l, Reachable loopWithoutTurns m ∧ m.stack.frames = [f, main] ∧ m.loops = [l] ∧
      f.Runs l.condition ∧ m.step = .running
        ⟨m.classes, m.transcript, m.store, CallStack.ofFrames [main.push .nil], []⟩ := by
  have hafter : holdsAfter loopWithoutTurns 4 isEndingLoop = true := by decide +kernel
  obtain ⟨m, hm, hending⟩ := exists_reachable_of_holdsAfter hafter
  rw [isEndingLoop.eq_def] at hending
  split at hending
  next f main l hframes hloops =>
      simp only [Bool.and_eq_true, decide_eq_true_eq, Option.map_eq_some_iff, Prod.exists,
        exists_and_right, exists_eq_right, Bool.not_eq_true'] at hending
      obtain ⟨⟨⟨⟨⟨rest, hread⟩, hdepth⟩, hbody⟩, hrepeat⟩, hoperands⟩ := hending
      split at hoperands
      next hv =>
          have hstack : m.stack.depth = 2 := by
            rw [m.stack.depth_eq, hframes]
            rfl
          have hresumes : m.Resumes 1 (.boolean false) l [] := by
            refine ⟨.block hframes hread hv, ?_, ?_⟩
            · rw [hloops, hstack, List.dropWhile_cons_of_neg (by simp [hdepth])]
            · rw [hdepth, hstack]
          obtain ⟨-, -, f', starter, below, -, hframes', -, hruns, -, -, hon⟩ :=
            (loops_in_progress hm).2.2.1 1 _ l [] hresumes
          rw [hframes] at hframes'
          obtain ⟨rfl, rfl, rfl⟩ : f = f' ∧ main = starter ∧ below = [] := by
            simpa using hframes'
          rw [hbody] at hruns
          exact ⟨m, f, main, l, hm, hframes, hloops, hruns, hon.ended hbody (by rw [hrepeat]; rfl)⟩
      next => cases hoperands
  next => cases hending

end Machine

end Smalltalk
