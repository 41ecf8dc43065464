/-
**Activations that wait.**

An activation starts another one by sending a message: it gives up the receiver and the arguments of
the message, and waits. While it waits nothing touches it: its code, what is left of the code, its
operands, its variables and the place it recorded last stay as they are. It stops waiting in one of
two ways only. Either it goes on, and then it has the operands it waited with and one value more;
or it ends, together with all activations that it waited for.

It makes no difference whether a method or a block was started, whether an operation asked for the
block, or whether a loop started its blocks again and again in between. None of this depends on what
code is run.

* `Machine.Awaiting` — **runs during which an activation waits**;
* `Machine.Fate` — **what a step does to an activation that waits**;
* `Machine.calls_return` — **the calling convention**.
-/

import Smalltalk.Proofs.Loops

namespace Smalltalk

namespace Machine

variable {m m' : Machine} {toSuper : Bool} {operands : List Value} {f g : Frame} {n depth : Nat}
  {v : Value} {below above : List Frame} {classes : ClassTable}

/-- When activations end, there are not more of them than before. -/
theorem length_le_of_leave (horder : m.loops.Pairwise fun a b => b.depth < a.depth) (hn : 0 < n)
    (h : m.leave n v = .running m') : m'.stack.frames.length ≤ m.stack.frames.length := by
  have hlength : (m.stack.frames.drop n).length = m.stack.frames.length - n := List.length_drop
  cases leave_cases horder h with
  | give hdrop hframes hloops hfree | done hloops hdepth hinner hdrop hframes hloops' =>
    grind
  | turn hloops hdepth hinner hframes hloops' =>
    rw [hframes, List.length_cons]
    omega

/-- **An activation waits only for the message that it sent.** -/
theorem Reachable.calls_of_deeper (h : Reachable classes m) (hm : m.stack.frames = f :: below)
    (hstep : m.step = .running m') (hdeeper : below.length + 1 < m'.stack.frames.length) :
    ∃ g callee receiver arguments, f.Calls g receiver arguments ∧
      m'.stack.frames = callee :: g :: below := by
  obtain ⟨Λ, hΛ⟩ := h.consistent
  obtain ⟨f', below', hm', hshape⟩ := step_cases hstep
  obtain ⟨rfl, rfl⟩ := List.cons.inj (hm.symm.trans hm')
  cases hshape with
  | proceed hframes =>
    rw [hframes] at hdeeper
    exact absurd hdeeper (Nat.lt_irrefl _)
  | enter hframes _ hcalls | loop hframes _ _ _ hcalls => exact ⟨_, _, _, _, hcalls, hframes⟩
  | leave hleaves hleave =>
    have hle := length_le_of_leave hΛ.loops.order hleaves.pos hleave
    rw [hm, List.length_cons] at hle
    omega

/-! ### What becomes of an activation that waits -/

/-- A loop that goes on does so when its own block ends, and nothing else ends with it. -/
theorem eq_one_of_turn {Λ : History} (h : m.Consistent Λ) (hleaves : m.Leaves n v) {l : Loop}
    {outer : List Loop}
    (hloops : m.loops.filter (fun l => l.depth < (m.stack.frames.drop n).length) = l :: outer)
    (hdepth : l.depth + 1 = (m.stack.frames.drop n).length) : n = 1 := by
  have hlength : (m.stack.frames.drop n).length = m.stack.depth - n := by
    rw [List.length_drop, m.stack.depth_eq]
  rw [hlength] at hloops hdepth
  have hresumes : m.Resumes n v l outer :=
    ⟨hleaves, (dropWhile_eq_filter_of_pairwise h.loops.order _).trans hloops, hdepth⟩
  exact (hresumes.own_block h).1

/-- **What a step does to an activation that waits**, with the activations below it. -/
inductive Fate (g : Frame) (below : List Frame) (m m' : Machine) : Prop where
  /-- It waits on. -/
  | waits {above : List Frame} (hne : above ≠ []) (hframes : m'.stack.frames = above ++ g :: below)
  /-- It goes on with one value more: the one with which the activations end that it waited for, or
  nil at the end of a loop. -/
  | resumes {n : Nat} {v w : Value} (hleaves : m.Leaves n v)
      (hdrop : m.stack.frames.drop n = g :: below) (hframes : m'.stack.frames = g.push w :: below)
      (hvalue : w = v ∨ w = .nil ∧ m.HasLoop below.length)
  /-- It ends without going on, and one further out gets a value. -/
  | ends {above rest : List Frame} {g' : Frame} {v : Value} (hbelow : below = above ++ g' :: rest)
      (hframes : m'.stack.frames = g'.push v :: rest)

/-- An activation that gets a value is above the one that waits, that one, or one below. -/
theorem fate_of_drop {rest : List Frame} {g' : Frame} {w : Value}
    (hm : m.stack.frames = above ++ g :: below) (hleaves : m.Leaves n v)
    (hdrop : m.stack.frames.drop n = g' :: rest) (hframes : m'.stack.frames = g'.push w :: rest)
    (hvalue : w = v ∨ w = .nil ∧ m.HasLoop rest.length) : Fate g below m m' := by
  have hsplit := hdrop
  rw [hm] at hsplit
  rcases Nat.lt_trichotomy n above.length with hlt | rfl | hgt
  · -- some of the activations that it waits for are left
    rw [List.drop_append_of_le_length (Nat.le_of_lt hlt)] at hsplit
    cases habove : above.drop n with
    | nil =>
      grind
    | cons g'' above' =>
      rw [habove, List.cons_append] at hsplit
      obtain ⟨rfl, rfl⟩ := List.cons.inj hsplit
      exact .waits (List.cons_ne_nil (g''.push w) above') hframes
  · rw [List.drop_left] at hsplit
    obtain ⟨rfl, rfl⟩ := List.cons.inj hsplit
    exact .resumes hleaves hdrop hframes hvalue
  · -- it ends as well
    obtain ⟨k, rfl⟩ : ∃ k, n = above.length + (k + 1) := ⟨n - above.length - 1, by omega⟩
    rw [List.drop_length_add_append, List.drop_succ_cons] at hsplit
    have hbelow : below = below.take k ++ g' :: rest := by rw [← hsplit, List.take_append_drop]
    exact .ends hbelow hframes

/-- **An activation that waits waits on, goes on or ends.** -/
theorem Reachable.fate (h : Reachable classes m) (hne : above ≠ [])
    (hm : m.stack.frames = above ++ g :: below) (hstep : m.step = .running m') :
    Fate g below m m' := by
  obtain ⟨Λ, hΛ⟩ := h.consistent
  obtain ⟨top, above, rfl⟩ := List.exists_cons_of_ne_nil hne
  obtain ⟨f, under, hframes, hshape⟩ := step_cases hstep
  obtain ⟨rfl, rfl⟩ : top = f ∧ above ++ g :: below = under := by
    rw [hm, List.cons_append] at hframes
    exact List.cons.inj hframes
  cases hshape with
  | @proceed f' hframes' hloops =>
    exact .waits (List.cons_ne_nil f' above) hframes'
  | @enter f' callee _ _ hframes' | @loop f' callee _ _ _ hframes' =>
    exact .waits (List.cons_ne_nil callee (f' :: above)) hframes'
  | @leave n v hleaves hleave =>
    cases leave_cases hΛ.loops.order hleave with
    | give hdrop hframes' hloops hfree => exact fate_of_drop hm hleaves hdrop hframes' (.inl rfl)
    | @turn callee l outer hloops hdepth hinner hframes' inBody hloops' =>
      -- only the block of the loop ends, and the other block takes its place
      obtain rfl := eq_one_of_turn hΛ hleaves hloops hdepth
      rw [hm] at hframes'
      exact .waits (List.cons_ne_nil callee above) hframes'
    | @done g' rest l outer hloops hdepth hinner hdrop hframes' hloops' =>
      refine fate_of_drop hm hleaves hdrop hframes' (.inr ⟨rfl, l, ?_, ?_⟩)
      · exact List.mem_of_mem_filter (hloops ▸ List.mem_cons_self)
      · rw [hdrop, List.length_cons] at hdepth
        exact Nat.succ.inj hdepth

/-- **Runs during which an activation waits.**  It is the one at this depth, counted from the
outermost, and there is always one above it. -/
inductive Awaiting (depth : Nat) (m : Machine) : Machine → Prop where
  | refl (h : depth + 1 < m.stack.frames.length) : Awaiting depth m m
  | step {m' m'' : Machine} (h : Awaiting depth m m') (hstep : m'.step = .running m'')
      (hdeep : depth + 1 < m''.stack.frames.length) : Awaiting depth m m''

/-- **While an activation waits, nothing changes up to it.** -/
theorem Awaiting.unchanged (h : Reachable classes m) (hne : above ≠ [])
    (hm : m.stack.frames = above ++ g :: below) (hwaiting : Awaiting below.length m m') :
    Reachable classes m' ∧ ∃ above', above' ≠ [] ∧ m'.stack.frames = above' ++ g :: below := by
  induction hwaiting with
  | refl => exact ⟨h, above, hne, hm⟩
  | @step m' m'' _ hstep hdeep ih =>
    obtain ⟨hreach, above', hne', hm'⟩ := ih
    refine ⟨hreach.step hstep, ?_⟩
    cases hreach.fate hne' hm' hstep with
    | @waits above'' hne'' hframes => exact ⟨above'', hne'', hframes⟩
    | resumes hleaves hdrop hframes hvalue =>
      rw [hframes, List.length_cons] at hdeep
      omega
    | ends hbelow hframes =>
      -- there would be too few activations for it to wait
      rw [hframes, hbelow] at hdeep
      simp at hdeep
      omega

/-- When an activation that waits becomes the innermost one, it has got one value. -/
theorem Awaiting.resumes (h : Reachable classes m) (hne : above ≠ [])
    (hm : m.stack.frames = above ++ g :: below) (hwaiting : Awaiting below.length m m')
    {m'' : Machine} (hstep : m'.step = .running m'')
    (hlength : m''.stack.frames.length = below.length + 1) :
    ∃ v, m''.stack.frames = g.push v :: below := by
  obtain ⟨hreach, above', hne', hm'⟩ := hwaiting.unchanged h hne hm
  cases hreach.fate hne' hm' hstep with
  | @waits above'' hne'' hframes =>
    have hpos := List.length_pos_of_ne_nil hne''
    rw [hframes, List.length_append, List.length_cons] at hlength
    omega
  | @resumes n v w hleaves hdrop hframes hvalue => exact ⟨w, hframes⟩
  | ends hbelow hframes =>
    rw [hframes, hbelow] at hlength
    simp at hlength
    omega

/-- **The calling convention.**  In every state that can be reached, an activation starts to wait
only by sending a message, and it waits without the receiver and the arguments. While it waits it
stays exactly as it is, and so do those below it. From there a step lets it wait on, or gives it one
value with which it goes on, or ends it. So when it becomes the innermost activation again, whatever
happened in between, it has the operands it waited with and one value more. -/
theorem calls_return {classes : ClassTable} (h : Reachable classes m) :
    (∀ f below m', m.stack.frames = f :: below → m.step = .running m' →
      below.length + 1 < m'.stack.frames.length →
      ∃ g callee receiver arguments, f.Calls g receiver arguments ∧
        m'.stack.frames = callee :: g :: below ∧
        ∀ m₁, Awaiting below.length m' m₁ →
          (∃ above, above ≠ [] ∧ m₁.stack.frames = above ++ g :: below) ∧
          ∀ m₂, m₁.step = .running m₂ → m₂.stack.frames.length = below.length + 1 →
            ∃ v, m₂.stack.frames = g.push v :: below) ∧
    (∀ above g below, above ≠ [] → m.stack.frames = above ++ g :: below →
      (∀ m', Awaiting below.length m m' →
        ∃ above', above' ≠ [] ∧ m'.stack.frames = above' ++ g :: below) ∧
      ∀ m', m.step = .running m' → Fate g below m m') := by
  refine ⟨fun f below m' hm hstep hdeeper => ?_, fun above g below hne hm => ?_⟩
  · obtain ⟨g, callee, receiver, arguments, hcalls, hframes⟩ := h.calls_of_deeper hm hstep hdeeper
    have hreach := h.step hstep
    have hne : [callee] ≠ [] := List.cons_ne_nil callee []
    refine ⟨g, callee, receiver, arguments, hcalls, hframes, fun m₁ hwaiting => ⟨?_, ?_⟩⟩
    · exact (hwaiting.unchanged hreach hne hframes).2
    · exact fun m₂ hstep₂ hlength => hwaiting.resumes hreach hne hframes hstep₂ hlength
  · exact ⟨fun m' hwaiting => (hwaiting.unchanged h hne hm).2,
      fun m' hstep => h.fate hne hm hstep⟩

/-! ### Waiting for a loop -/

theorem Awaiting.deep (h : Awaiting depth m m') : depth + 1 < m.stack.frames.length := by
  induction h with
  | refl hdeep => exact hdeep
  | step _ _ _ ih => exact ih

/-- A run may start a step earlier. -/
theorem Awaiting.head {m'' : Machine} (hdeep : depth + 1 < m.stack.frames.length)
    (hstep : m.step = .running m') (h : Awaiting depth m' m'') : Awaiting depth m m'' := by
  induction h with
  | refl hdeep' => exact .step (.refl hdeep) hstep hdeep'
  | step _ hstep' hdeep' ih => exact .step ih hstep' hdeep'

/-- The state after some steps, if an activation waits all the time. -/
def waitAlong? (depth : Nat) : Nat → Machine → Option Machine
  | 0, m => if depth + 1 < m.stack.frames.length then some m else none
  | n + 1, m =>
    if depth + 1 < m.stack.frames.length then
      match m.step with
      | .running m' => waitAlong? depth n m'
      | _ => none
    else none

theorem waiting_of_waitAlong? (h : waitAlong? depth n m = some m') : Awaiting depth m m' := by
  induction n generalizing m with
  | zero =>
    obtain ⟨hdeep, rfl⟩ : depth + 1 < m.stack.frames.length ∧ m = m' := by
      simpa [waitAlong?] using h
    exact .refl hdeep
  | succ n ih =>
    rw [waitAlong?] at h
    split at h
    case isFalse => cases h
    case isTrue hdeep =>
      split at h
      case h_1 m₁ hstep => exact .head hdeep hstep (ih h)
      case h_2 => cases h

/-- A program with an operand that waits for two turns of a loop. -/
def operandBelowLoop : ClassTable :=
  ClassTable.ofSymbols (Compilation.ofPrograms ⟨"main.st", false, false⟩
    [Program.parse "| i | i := 0. ^5 = ([i < 2] whileTrue: [i := i + 1])"]).table

/-- Is the main method the only activation, with some operands? -/
def hasOnly (m : Machine) (operands : Nat) : Bool :=
  match m.stack.frames with
  | [f] => f.operands.length = operands
  | _ => false

/-- Does the main method, with three operands, wait for some steps and then go on with two? -/
def isCallFor (steps : Nat) (m : Machine) : Bool :=
  m.hasOnly 3 && match m.step with
    | .running m' => (waitAlong? 0 steps m').any fun m₁ =>
      match m₁.step with
      | .running m₂ => m₂.hasOnly 2
      | _ => false
    | _ => false

theorem exists_of_hasOnly {operands : Nat} (h : m.hasOnly operands = true) :
    ∃ f, m.stack.frames = [f] ∧ f.operands.length = operands := by
  rw [hasOnly] at h
  grind

set_option maxRecDepth 100000 in
/-- The main method gives up the two blocks of the loop, waits for all its turns with one operand,
and goes on with one more. -/
theorem call_of_loop :
    ∃ m m' m₁ m₂ f g receiver argument v, Reachable operandBelowLoop m ∧ m.stack.frames = [f] ∧
      m.step = .running m' ∧ f.Calls g receiver [argument] ∧ Awaiting 0 m' m₁ ∧
      m₁.step = .running m₂ ∧ m₂.stack.frames = [g.push v] ∧ g.operands.length = 1 := by
  have hafter : holdsAfter operandBelowLoop 6 (isCallFor 21) = true := by decide +kernel
  obtain ⟨m, hm, hcall⟩ := exists_reachable_of_holdsAfter hafter
  rw [isCallFor, Bool.and_eq_true] at hcall
  obtain ⟨f, hframes, hthree⟩ := exists_of_hasOnly hcall.1
  replace hcall := hcall.2
  split at hcall
  case h_2 => cases hcall
  case h_1 m' hstep =>
    cases hwaits : waitAlong? 0 21 m' with
    | none =>
      rw [hwaits] at hcall
      cases hcall
    | some m₁ =>
      rw [hwaits, Option.any_some] at hcall
      have hwaiting := waiting_of_waitAlong? hwaits
      obtain ⟨g, callee, receiver, arguments, hcalls, -, hreturn⟩ :=
        (calls_return hm).1 f [] m' hframes hstep hwaiting.deep
      split at hcall
      case h_2 => cases hcall
      case h_1 m₂ hstep₂ =>
        obtain ⟨f₂, hframes₂, htwo⟩ := exists_of_hasOnly hcall
        obtain ⟨v, hv⟩ := (hreturn m₁ hwaiting).2 m₂ hstep₂ (by rw [hframes₂]; rfl)
        obtain rfl : f₂ = g.push v := List.head_eq_of_cons_eq (hframes₂.symm.trans hv)
        have hone : g.operands.length = 1 := Nat.succ.inj htwo
        have hlength := congrArg List.length hcalls.operands
        rw [hthree, List.length_append, List.length_reverse, List.length_cons, hone] at hlength
        obtain ⟨argument, rfl⟩ := List.length_eq_one_iff.1 (show arguments.length = 1 by omega)
        exact ⟨m, m', m₁, m₂, f, g, receiver, argument, v, hm, hframes, hstep, hcalls, hwaiting,
          hstep₂, hv, hone⟩

end Machine

end Smalltalk
