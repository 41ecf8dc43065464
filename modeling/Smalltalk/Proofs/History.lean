/-
**How the activations of a run came about.**

Whatever code a machine runs, it keeps its books: every activation was once started, either for a
method or for a block that was made in an older activation of the same method with the same
receiver. A history records this for each activation ever started. The machine itself does not
keep it, but all that the machine holds fits to it: the activations in progress, from the innermost
on, are ever older ones, every block there is was made in an activation of the history, and every
loop in progress is right below an activation of its condition or of its body.

* `Machine.Reachable` — **the states a machine for some classes can be in**;
* `Machine.Reachable.consistent` — **every reachable state is consistent**.
-/

import Smalltalk.Proofs.Operations

namespace Smalltalk

variable {Λ Λ' : History} {c : Closure Value} {f : Frame} {l : Loop} {receiver v : Value}
  {frames : List Frame} {outer : List Loop} {m : Machine} {operands : List Value} {P : Pairing}

/-- **The states a machine for some classes can be in**, while it runs and between two runs. -/
inductive Machine.Reachable (classes : ClassTable) : Machine → Prop
  | new : Machine.Reachable classes (Machine.new classes)
  | start {m m' : Machine} {entry : String} (h : Machine.Reachable classes m)
      (hstart : m.start? entry = some m') : Machine.Reachable classes m'
  | step {m m' : Machine} (h : Machine.Reachable classes m) (hstep : m.step = .running m') :
      Machine.Reachable classes m'
  | finish {m m' : Machine} {v : Value} (h : Machine.Reachable classes m)
      (hstep : m.step = .finished v m') : Machine.Reachable classes m'.clear
  | fail {m m' : Machine} {fault : Fault} (h : Machine.Reachable classes m)
      (hstep : m.step = .failed fault m') : Machine.Reachable classes m'.clear

/-! ### Histories -/

/-- How an activation came about. -/
structure Birth where
  /-- The method that is run, or that the block is part of. -/
  method : Method
  /-- The receiver of the method. -/
  receiver : Value
  /-- The activations around it; a method has none. -/
  enclosing : List Nat

/-- How each activation came about, by number. -/
abbrev History := List Birth

namespace History

/-- Is it the environment of an activation of the history? -/
def Knows (Λ : History) (method : Method) (e : Environment Value) : Prop :=
  Λ[e.activation]? = some ⟨method, e.receiver, e.enclosing⟩

/-- Was the block made in an activation of the history, from a block of the method? -/
structure Made (Λ : History) (c : Closure Value) : Prop where
  known : Λ.Knows c.method c.environment
  code : c.method.code.blocks[c.index]? = some c.code

/-- The values all of whose blocks were made in activations of the history are those paired with
themselves. -/
def pairing (Λ : History) : Pairing :=
  .diagonal Λ.Made (fun _ => True) (fun _ => True) (fun _ _ => trivial) fun _ _ => trivial

/-- Each activation of a block was started from an older activation, which is of the same method
with the same receiver. -/
def Ordered (Λ : History) : Prop :=
  ∀ (a : Nat) (b : Birth), Λ[a]? = some b → b.enclosing ≠ [] →
    ∃ p rest, b.enclosing = p :: rest ∧ Λ[p]? = some ⟨b.method, b.receiver, rest⟩

variable {method : Method} {e : Environment Value}

/-- **The outermost activation around a block is one of its method**, with its receiver. -/
theorem home_known (h : Λ.Ordered) (he : Λ.Knows method e) :
    Λ[e.home]? = some ⟨method, e.receiver, []⟩ := by
  obtain ⟨receiver, activation, enclosing⟩ := e
  induction enclosing generalizing activation with
  | nil => exact he
  | cons q rest ih =>
    obtain ⟨p, rest', hq, hp⟩ := h activation _ he (List.cons_ne_nil q rest)
    obtain ⟨rfl, rfl⟩ := List.cons.inj hq
    rw [Environment.home, List.getLastD_cons]
    exact ih q hp

theorem Knows.mono (h : Λ <+: Λ') (he : Λ.Knows method e) : Λ'.Knows method e := by
  obtain ⟨more, rfl⟩ := h
  rw [Knows, List.getElem?_append_left (List.getElem?_eq_some_iff.1 he).1]
  exact he

theorem Made.mono (h : Λ <+: Λ') (hc : Λ.Made c) : Λ'.Made c :=
  ⟨hc.known.mono h, hc.code⟩

theorem within (h : Λ <+: Λ') : Λ.pairing.Within Λ'.pairing :=
  ⟨fun hc => ⟨hc.1, hc.2.mono h⟩, id, id⟩

/-- One more activation: of a method, or of a block that was made in an older one. -/
theorem Ordered.snoc (h : Λ.Ordered) {enclosing : List Nat}
    (hborn : enclosing = [] ∨
      ∃ p rest, enclosing = p :: rest ∧ Λ[p]? = some ⟨method, receiver, rest⟩) :
    History.Ordered (Λ ++ [⟨method, receiver, enclosing⟩]) := by
  have hold {p : Nat} {b : Birth} (hp : Λ[p]? = some b) :
      (Λ ++ [⟨method, receiver, enclosing⟩])[p]? = some b := by
    grind
  intro a b hb hne
  rcases Nat.lt_or_ge a Λ.length with ha | ha
  · rw [List.getElem?_append_left ha] at hb
    obtain ⟨p, rest, hrest, hp⟩ := h a b hb hne
    exact ⟨p, rest, hrest, hold hp⟩
  · grind

end History

/-! ### Loops in progress -/

theorem of_dropWhile_eq_cons {α : Type} {p : α → Bool} {l tail : List α} {a : α}
    (h : l.dropWhile p = a :: tail) : p a = false ∧ (a :: tail).Sublist l := by
  have hhead := List.head?_dropWhile_not p l
  grind

/-- The block of a loop that is running. -/
def Loop.current (l : Loop) : Closure Value := if l.inBody then l.body else l.condition

/-- Is it an activation of the block? -/
@[grind cases]
structure Frame.Runs (f : Frame) (c : Closure Value) : Prop where
  code : f.code = c.code
  method : f.method = c.method
  block : f.block = some c.index
  environment : f.environment = c.environment.inner f.environment.activation

/-- **The loops in progress fit to the activations in progress**: each was started further inside
than the next, and right above the activation that started it runs its condition or its body.
Activations are counted from the outermost. -/
@[grind cases]
structure LoopsFit (frames : List Frame) (loops : List Loop) : Prop where
  order : loops.Pairwise fun a b => b.depth < a.depth
  running : ∀ l ∈ loops, ∃ f, frames.reverse[l.depth + 1]? = some f ∧ f.Runs l.current

namespace LoopsFit

variable {loops : List Loop} {g : Frame}

theorem nil (frames : List Frame) : LoopsFit frames [] :=
  ⟨.nil, fun _ hl => absurd hl List.not_mem_nil⟩

theorem depth_lt (h : LoopsFit frames loops) (hl : l ∈ loops) : l.depth + 1 < frames.length := by
  grind

/-- Loops fit to more activations. -/
theorem push (h : LoopsFit frames loops) (g : Frame) : LoopsFit (g :: frames) loops := by
  refine ⟨h.order, fun l hl => ?_⟩
  grind

/-- Loops fit after the innermost activation has gone on. -/
theorem replaceTop (h : LoopsFit (f :: frames) loops)
    (hruns : ∀ c, f.Runs c → g.Runs c) : LoopsFit (g :: frames) loops := by
  refine ⟨h.order, fun l hl => ?_⟩
  grind

/-- The loops that are left when activations end fit to those that go on. -/
theorem drop (h : LoopsFit frames loops) (n : Nat) (hsub : outer.Sublist loops)
    (hdepth : ∀ l ∈ outer, l.depth + 1 < (frames.drop n).length) :
    LoopsFit (frames.drop n) outer := by
  refine ⟨h.order.sublist hsub, fun l hl => ?_⟩
  grind

/-- A loop is started, or goes on, in the innermost activation. -/
theorem enter (h : LoopsFit frames loops) (hdepth : l.depth + 1 = frames.length)
    (hg : g.Runs l.current) : LoopsFit (g :: frames) (l :: loops) := by
  refine ⟨List.pairwise_cons.2 ⟨fun l' hl' => ?_, h.order⟩, fun l' hl' => ?_⟩
  · have := h.depth_lt hl'
    omega
  · grind

end LoopsFit

/-- **What comes of ending activations**: a value for the innermost one that is left, or a block of a
loop in it, or a fault. The loops that are left were in progress; if they are in order, all but the
one that goes on were started further out. -/
theorem Machine.leave_rule {n : Nat} {Q : Progress → Prop}
    (hgive : ∀ outer w, outer.Sublist m.loops →
      (m.loops.Pairwise (fun a b => b.depth < a.depth) →
        ∀ l ∈ outer, l.depth + 1 < (m.stack.frames.drop n).length) →
      w = v ∨ w = .nil → Q (give ⟨m.classes, m.transcript, m.store, m.stack.drop n, outer⟩ w))
    (henter : ∀ (l : Loop) (outer : List Loop) (inBody : Bool), (l :: outer).Sublist m.loops →
      l.depth + 1 = (m.stack.frames.drop n).length →
      (m.loops.Pairwise (fun a b => b.depth < a.depth) →
        ∀ l' ∈ outer, l'.depth + 1 < (m.stack.frames.drop n).length) →
      Q (enterBlock
        ⟨m.classes, m.transcript, m.store, m.stack.drop n, { l with inBody := inBody } :: outer⟩
        (Loop.current { l with inBody := inBody }) []))
    (hfail : ∀ outer, outer.Sublist m.loops →
      Q (.failed (.typeError "Boolean" v.className)
        ⟨m.classes, m.transcript, m.store, m.stack.drop n, outer⟩)) :
    Q (m.leave n v) := by
  have hlength : (m.stack.drop n).depth = (m.stack.frames.drop n).length :=
    (m.stack.drop n).depth_eq
  simp only [leave, hlength]
  split
  next => exact hgive [] v (List.nil_sublist _) (fun _ => nofun) (.inl rfl)
  next l outer hdrop =>
    obtain ⟨hhead, hsub⟩ := of_dropWhile_eq_cons hdrop
    have hinner (horder : m.loops.Pairwise fun a b => b.depth < a.depth) :
        ∀ l' ∈ outer, l'.depth < l.depth := (List.pairwise_cons.1 (horder.sublist hsub)).1
    split
    next hdepth =>
      have hbelow (horder : m.loops.Pairwise fun a b => b.depth < a.depth) (l' : Loop)
          (hl' : l' ∈ outer) : l'.depth + 1 < (m.stack.frames.drop n).length := by
        have := hinner horder l' hl'
        omega
      simp only [continueLoop]
      split
      · exact henter l outer false hsub hdepth hbelow
      · split
        · split
          · exact henter l outer true hsub hdepth hbelow
          · exact hgive outer .nil ((List.sublist_cons_self l outer).trans hsub) hbelow (.inr rfl)
        · exact hfail _ hsub
    next hdepth =>
      refine hgive _ v hsub (fun horder l' hl' => ?_) (.inl rfl)
      grind

/-! ### Consistent machines -/

/-- An activation in progress fits to the history. -/
structure Frame.Fits (f : Frame) (Λ : History) : Prop where
  known : Λ.Knows f.method f.environment
  block : f.block.isSome = f.environment.isBlock
  receiver : f.environment.receiver.Pair Λ.pairing f.environment.receiver
  operands : List.Forall₂ (Value.Pair Λ.pairing) f.operands f.operands

/-- What is kept when a run is over fits to the history. -/
@[grind cases]
structure Machine.Grounded (m : Machine) (Λ : History) : Prop where
  size : Λ.length = m.store.activations.size
  ordered : Λ.Ordered
  pair : m.Pair Λ.pairing m

/-- The activations in progress, and the blocks of loops, fit to the history. -/
@[grind cases]
structure Machine.Framed (m : Machine) (Λ : History) : Prop extends m.Grounded Λ where
  frames : ∀ f ∈ m.stack.frames, f.Fits Λ
  order : m.stack.frames.Pairwise fun f g => g.environment.activation < f.environment.activation
  closures : ∀ l ∈ m.loops,
    l.condition.Pair Λ.pairing l.condition ∧ l.body.Pair Λ.pairing l.body

/-- **All that the machine holds fits to the history.** -/
@[grind cases]
structure Machine.Consistent (m : Machine) (Λ : History) : Prop extends m.Framed Λ where
  loops : LoopsFit m.stack.frames m.loops

/-- What comes of a step fits to some history. -/
def Progress.Fits : Progress → Prop
  | .running m => ∃ Λ, m.Consistent Λ
  | .finished _ m | .failed _ m => ∃ Λ, m.Grounded Λ

namespace Frame.Fits

theorem mono (h : Λ <+: Λ') (hf : f.Fits Λ) : f.Fits Λ' :=
  ⟨hf.known.mono h, hf.block, hf.receiver.mono (History.within h),
    Forall₂.mono (History.within h) hf.operands⟩

/-- The blocks that an activation makes belong to the history. -/
theorem pair (hf : f.Fits Λ) : f.Pair Λ.pairing f where
  environment := ⟨hf.receiver, rfl, rfl⟩
  operands := hf.operands
  name := rfl
  className := rfl
  blocks index := by
    cases hcode : f.method.code.blocks[index]? with
    | none => exact .none
    | some code => exact .some ⟨rfl, hf.known, hcode⟩

theorem activation_lt (hf : f.Fits Λ) : f.environment.activation < Λ.length :=
  (List.getElem?_eq_some_iff.1 hf.known).1

/-- The activation goes on with other operands. -/
theorem withOperands (hf : f.Fits Λ) (rest : List UInt8) (mark : Option Mark)
    (h : List.Forall₂ (Value.Pair Λ.pairing) operands operands) :
    Fits { f with rest := rest, operands := operands, mark := mark } Λ :=
  ⟨hf.known, hf.block, hf.receiver, h⟩

end Frame.Fits

namespace Machine

variable {row : Array Value} {arguments : List Value}

/-- A new activation of a method, or of a block of the history. -/
theorem Framed.start (h : m.Framed Λ) {b : Birth}
    (hb : b.enclosing = [] ∨
      ∃ p rest, b.enclosing = p :: rest ∧ Λ[p]? = some ⟨b.method, b.receiver, rest⟩)
    (hf : f.Fits (Λ ++ [b])) (hactivation : f.environment.activation = Λ.length)
    (hrow : RowPair Λ.pairing row row) :
    Framed ⟨m.classes, m.transcript, (m.store.newActivation row).2, m.stack.push f, m.loops⟩
      (Λ ++ [b]) := by
  have hprefix : Λ <+: Λ ++ [b] := List.prefix_append Λ [b]
  have hwithin := History.within hprefix
  refine ⟨⟨?_, h.ordered.snoc hb, h.pair.start hwithin hrow _ _⟩, ?_, ?_, ?_⟩
  · simp [Store.newActivation, h.size]
  · intro g hg
    rcases List.mem_cons.1 hg with rfl | hg
    · exact hf
    · exact (h.frames g hg).mono hprefix
  · refine List.pairwise_cons.2 ⟨fun g hg => ?_, h.order⟩
    rw [hactivation]
    exact (h.frames g hg).activation_lt
  · intro l hl
    exact ⟨(h.closures l hl).1.mono hwithin, (h.closures l hl).2.mono hwithin⟩

section

variable (h : m.Consistent Λ) (method : Method) (hreceiver : receiver.Pair Λ.pairing receiver)

include h hreceiver

/-- Starting an activation of a method. -/
theorem Consistent.activate (hrow : RowPair Λ.pairing row row) :
    ∃ Λ', (m.activate method receiver row).Consistent Λ' := by
  have hprefix : Λ <+: Λ ++ [⟨method, receiver, []⟩] := List.prefix_append Λ _
  have hnew : m.store.activations.size = Λ.length := h.size.symm
  have hfits : (Frame.ofMethod method ⟨receiver, m.store.activations.size, []⟩).Fits
      (Λ ++ [⟨method, receiver, []⟩]) := by
    refine ⟨?_, rfl, hreceiver.mono (History.within hprefix), .nil⟩
    change (Λ ++ [_])[m.store.activations.size]? = _
    rw [hnew, List.getElem?_concat_length]
    rfl
  exact ⟨_, h.toFramed.start (.inl rfl) hfits hnew hrow, h.loops.push _⟩

theorem enterMethod_fits (harguments : List.Forall₂ (Value.Pair Λ.pairing) arguments arguments) :
    (m.enterMethod method receiver arguments).Fits := by
  rw [enterMethod]
  split
  · exact h.activate method hreceiver (slots_pair rfl harguments)
  · exact ⟨Λ, h.toGrounded⟩

end

/-- Starting an activation of a block, for which a loop may have been put in place. -/
theorem enterBlock_fits (h : m.Framed Λ) (hc : c.Pair Λ.pairing c)
    (harguments : List.Forall₂ (Value.Pair Λ.pairing) arguments arguments)
    (hloops : ∀ f : Frame, f.Runs c → LoopsFit (f :: m.stack.frames) m.loops) :
    (m.enterBlock c arguments).Fits := by
  rw [enterBlock]
  split
  · have hprefix : Λ <+: Λ ++ [⟨c.method, c.environment.receiver, c.environment.chain⟩] :=
      List.prefix_append Λ _
    have hnew : m.store.activations.size = Λ.length := h.size.symm
    have hfits : (Frame.ofBlock c m.store.activations.size).Fits
        (Λ ++ [⟨c.method, c.environment.receiver, c.environment.chain⟩]) := by
      refine ⟨?_, rfl, hc.receiver.mono (History.within hprefix), .nil⟩
      change (Λ ++ [_])[m.store.activations.size]? = _
      rw [hnew, List.getElem?_concat_length]
      rfl
    have hborn : c.environment.chain = [] ∨ ∃ p rest, c.environment.chain = p :: rest ∧
        Λ[p]? = some ⟨c.method, c.environment.receiver, rest⟩ :=
      .inr ⟨_, _, rfl, hc.closure.2.known⟩
    exact ⟨_, h.start hborn hfits hnew (slots_pair rfl harguments),
      hloops _ ⟨rfl, rfl, rfl, rfl⟩⟩
  · exact ⟨Λ, h.toGrounded⟩

/-- The innermost activation goes on. -/
theorem Consistent.proceed (h : m.Consistent Λ) (hm : m.stack.frames = f :: frames) {store : Store}
    (hsize : store.activations.size = m.store.activations.size)
    (hstore : store.Pair Λ.pairing store) (rest : List UInt8) (mark : Option Mark)
    (hoperands : List.Forall₂ (Value.Pair Λ.pairing) operands operands) :
    Consistent ⟨m.classes, m.transcript, store,
      m.stack.replaceTop { f with rest := rest, operands := operands, mark := mark }, m.loops⟩
      Λ := by
  obtain ⟨classes, transcript, store₀, ⟨fs, depth, hdepth⟩, loops⟩ := m
  obtain rfl : fs = f :: frames := hm
  refine ⟨⟨⟨h.size.trans hsize.symm, h.ordered, h.pair.classes, h.pair.transcript, hstore⟩, ?_, ?_,
    h.closures⟩, ?_⟩
  · intro g hg
    rcases List.mem_cons.1 hg with rfl | hg
    · exact (h.frames f List.mem_cons_self).withOperands rest mark hoperands
    · exact h.frames g (List.mem_cons_of_mem _ hg)
  · exact List.pairwise_cons.2 ⟨(List.pairwise_cons.1 h.order).1, (List.pairwise_cons.1 h.order).2⟩
  · exact h.loops.replaceTop fun c hc => ⟨hc.code, hc.method, hc.block, hc.environment⟩

theorem give_fits (h : m.Consistent Λ) (hv : v.Pair Λ.pairing v) : (m.give v).Fits := by
  rw [give]
  cases hm : m.stack.frames with
  | nil => exact ⟨Λ, h.toGrounded⟩
  | cons f frames =>
    have hf := h.frames f (by rw [hm]; exact List.mem_cons_self)
    exact ⟨Λ, h.proceed hm rfl h.pair.store f.rest f.mark (.cons hv hf.operands)⟩

/-- Starting a loop, or going on with one, in the innermost activation. -/
theorem enterLoopBlock_fits (h : m.Framed Λ) (hm : m.loops = l :: outer)
    (hdepth : l.depth + 1 = m.stack.frames.length) (houter : LoopsFit m.stack.frames outer) :
    (m.enterBlock l.current []).Fits := by
  have hl := h.closures l (by rw [hm]; exact List.mem_cons_self)
  have hcurrent : l.current.Pair Λ.pairing l.current := by
    rw [Loop.current]
    split
    · exact hl.2
    · exact hl.1
  refine enterBlock_fits h hcurrent .nil fun f hf => ?_
  rw [hm]
  exact houter.enter hdepth hf

theorem leave_fits (h : m.Consistent Λ) (n : Nat) (hv : v.Pair Λ.pairing v) :
    (m.leave n v).Fits := by
  have hframed (outer : List Loop)
      (houter : ∀ l ∈ outer, l.condition.Pair Λ.pairing l.condition ∧ l.body.Pair Λ.pairing l.body) :
      Framed ⟨m.classes, m.transcript, m.store, m.stack.drop n, outer⟩ Λ :=
    ⟨⟨h.size, h.ordered, h.pair.classes, h.pair.transcript, h.pair.store⟩,
      fun f hf => h.frames f (List.mem_of_mem_drop hf), h.order.drop, houter⟩
  refine leave_rule (fun outer w hsub hbelow hw => ?_) (fun l outer inBody hsub hdepth hbelow => ?_)
    fun loops hsub => ⟨Λ, (hframed loops fun l hl => h.closures l (hsub.subset hl)).toGrounded⟩
  · refine give_fits ⟨hframed outer fun l hl => h.closures l (hsub.subset hl),
      h.loops.drop n hsub (hbelow h.loops.order)⟩ ?_
    rcases hw with rfl | rfl
    · exact hv
    · exact .nil
  · -- the loop goes on with one of its two blocks
    have hclosures := fun l' hl' => h.closures l' (hsub.subset hl')
    refine enterLoopBlock_fits (hframed _ ?_) rfl hdepth
      (h.loops.drop n ((List.sublist_cons_self l outer).trans hsub) (hbelow h.loops.order))
    exact List.forall_mem_cons.2 (List.forall_mem_cons.1 hclosures)

/-! ### Steps -/

theorem carryOut_fits (h : m.Consistent Λ) (hm : m.stack.frames = f :: frames) (rest : List UInt8)
    {i : Instruction} {a : Action} (ha : a.Pair Λ.pairing a)
    (hasks : m.Asks { f with rest := rest } i a) :
    (m.carryOut { f with rest := rest } a).Fits := by
  have hproceed {operands : List Value}
      (hoperands : List.Forall₂ (Value.Pair Λ.pairing) operands operands) :
      (m.proceed { f with rest := rest } m.store operands).Consistent Λ :=
    h.proceed hm rfl h.pair.store rest f.mark hoperands
  cases a with
  | proceed store operands =>
    cases ha with
    | proceed hs hoperands => exact ⟨Λ, h.proceed hm hasks.size_eq hs rest f.mark hoperands⟩
  | record mark =>
    have hf := h.frames f (by rw [hm]; exact List.mem_cons_self)
    exact ⟨Λ, h.proceed hm rfl h.pair.store rest (some mark) hf.operands⟩
  | call operands method receiver arguments =>
    cases ha with
    | call hoperands _ hreceiver harguments =>
      exact enterMethod_fits (hproceed hoperands) method hreceiver harguments
  | invoke operands closure arguments =>
    cases ha with
    | invoke hoperands hclosure harguments =>
      exact enterBlock_fits (hproceed hoperands).toFramed hclosure harguments fun g _ =>
        (hproceed hoperands).loops.push g
  | loop operands condition body repeatWhile =>
    cases ha with
    | loop _ hoperands hcondition hbody =>
      have hc := hproceed hoperands
      have hdepth : (m.proceed { f with rest := rest } m.store operands).stack.depth - 1 + 1 =
          (m.proceed { f with rest := rest } m.store operands).stack.frames.length := by
        rw [CallStack.depth_eq]
        obtain ⟨classes, transcript, store, ⟨fs, depth, hdepth⟩, loops⟩ := m
        obtain rfl : fs = f :: frames := hm
        rfl
      refine enterLoopBlock_fits (Λ := Λ) (l := ⟨_, condition, body, repeatWhile, false⟩) ?_ rfl
        hdepth hc.loops
      refine ⟨⟨hc.size, hc.ordered, hc.pair.classes, hc.pair.transcript, hc.pair.store⟩,
        hc.frames, hc.order, fun l hl => ?_⟩
      grind
  | leave v =>
    cases ha with
    | leave hv => exact leave_fits h 1 hv
  | answer v =>
    cases ha with
    | answer hv =>
      rw [carryOut]
      split
      · exact leave_fits h _ hv
      · exact ⟨Λ, h.toGrounded⟩
  | fail fault => exact ⟨Λ, h.toGrounded⟩

/-- Every instruction stands for itself where literals do. -/
theorem instruction_pair_self (hP : P.identity = Eq) (f : Frame) (i : Instruction) :
    Instruction.Pair P f f i i := by
  cases i with
  | pushLiteral literal => exact .pushLiteral rfl fun _ => by rw [hP]
  | pushGlobal literal => exact .pushGlobal rfl
  | send count selector => exact .send count rfl
  | sendSuper count selector => exact .sendSuper count rfl
  | _ => exact .same rfl

/-- **A step of a consistent machine leaves it consistent.** -/
theorem Consistent.step (h : m.Consistent Λ) : m.step.Fits := by
  rw [Machine.step]
  cases hm : m.stack.frames with
  | nil => exact ⟨Λ, h.toGrounded⟩
  | cons f frames =>
    simp only
    cases Instruction.read? f.rest with
    | none => exact ⟨Λ, h.toGrounded⟩
    | some read =>
      obtain ⟨i, rest⟩ := read
      have hf := h.frames f (by rw [hm]; exact List.mem_cons_self)
      have hpair : Frame.Pair Λ.pairing { f with rest := rest } { f with rest := rest } :=
        (hf.withOperands rest f.mark hf.operands).pair
      simp only [execute_eq_carryOut]
      exact carryOut_fits h hm rest (action_pair h.pair hpair (instruction_pair_self rfl _ i))
        (m.action_asks _ i)

/-! ### The values and the blocks that there are -/

/-- The values that a machine refers to. -/
inductive Refers (m : Machine) : Value → Prop
  | operand {f : Frame} {v : Value} (hf : f ∈ m.stack.frames) (hv : v ∈ f.operands) : Refers m v
  | receiver {f : Frame} (hf : f ∈ m.stack.frames) : Refers m f.environment.receiver
  | slot {a index : Nat} {v : Value} (h : m.store.slot? a index = some v) : Refers m v
  | field {object index : Nat} {v : Value} (h : (m.store.fieldsOf object)[index]? = some v) :
      Refers m v
  | item {array index : Nat} {v : Value} (h : (m.store.itemsOf array)[index]? = some v) : Refers m v
  | transcript {v : Value} (h : m.transcript = some v) : Refers m v

/-- **The blocks that there are**: those a machine refers to, those of loops in progress, and those
that are the receiver of another one. -/
inductive Live (m : Machine) : Closure Value → Prop
  | value {number : Nat} {c : Closure Value} (h : m.Refers (.block number c)) : Live m c
  | condition {l : Loop} (h : l ∈ m.loops) : Live m l.condition
  | body {l : Loop} (h : l ∈ m.loops) : Live m l.body
  | receiver {number : Nat} {c d : Closure Value} (h : Live m c)
      (hd : c.environment.receiver = .block number d) : Live m d

variable {entry : String} {m' : Machine}

/-- All that a machine refers to is paired with itself if the machine and its activations are. -/
theorem Refers.pair (hv : m.Refers v) (hpair : m.Pair P m)
    (hframes : ∀ f ∈ m.stack.frames, f.environment.receiver.Pair P f.environment.receiver ∧
      List.Forall₂ (Value.Pair P) f.operands f.operands) : v.Pair P v := by
  -- a row of the store is paired with itself item by item
  have hrow {row : Array Value} (hrow : RowPair P row row) {index : Nat}
      (hget : row[index]? = some v) : v.Pair P v :=
    List.forall₂_same.1 hrow v (Array.mem_toList_iff.2 (Array.mem_of_getElem? hget))
  cases hv with
  | operand hf hv => exact List.forall₂_same.1 (hframes _ hf).2 v hv
  | receiver hf => exact (hframes _ hf).1
  | @slot a index _ hslot =>
    have hslots := hpair.store.slot? a index
    rw [hslot] at hslots
    cases hslots with
    | some hv => exact hv
  | @field object _ _ hget => exact hrow (hpair.store.fieldsOf object) hget
  | @item array _ _ hget => exact hrow (hpair.store.itemsOf array) hget
  | transcript htranscript =>
    have hvalue := hpair.transcript
    rw [htranscript] at hvalue
    cases hvalue with
    | some hv => exact hv

/-- So are all blocks that there are. -/
theorem Live.pair (hc : m.Live c) (hpair : m.Pair P m)
    (hframes : ∀ f ∈ m.stack.frames, f.environment.receiver.Pair P f.environment.receiver ∧
      List.Forall₂ (Value.Pair P) f.operands f.operands)
    (hloops : ∀ l ∈ m.loops, l.condition.Pair P l.condition ∧ l.body.Pair P l.body) :
    c.Pair P c := by
  induction hc with
  | value hv =>
    cases hv.pair hpair hframes with
    | block _ hclosure hreceiver => exact ⟨hclosure, hreceiver⟩
  | condition hl => exact (hloops _ hl).1
  | body hl => exact (hloops _ hl).2
  | receiver _ hd ih =>
    have hvalue := ih.receiver
    rw [hd] at hvalue
    cases hvalue with
    | block _ hclosure hreceiver => exact ⟨hclosure, hreceiver⟩

theorem Consistent.live (h : m.Consistent Λ) (hc : m.Live c) : c.Pair Λ.pairing c :=
  hc.pair h.pair (fun f hf => ⟨(h.frames f hf).receiver, (h.frames f hf).operands⟩) h.closures

/-! ### Runs -/

theorem Grounded.clear (h : m.Grounded Λ) : m.clear.Consistent Λ :=
  ⟨⟨⟨h.size, h.ordered, h.pair.classes, h.pair.transcript, h.pair.store⟩,
    fun _ hf => absurd hf List.not_mem_nil, .nil, fun _ hl => absurd hl List.not_mem_nil⟩, .nil _⟩

/-- A new machine runs nothing. -/
theorem new_clear (classes : ClassTable) : (Machine.new classes).clear = Machine.new classes := by
  rw [Machine.new]
  cases classes.get? "TranscriptStream" <;> rfl

theorem classes_pair_self (Λ : History) (classes : ClassTable) (name : String) :
    Option.Rel Λ.pairing.cls (classes.get? name) (classes.get? name) := by
  cases classes.get? name with
  | none => exact .none
  | some cls => exact .some ⟨rfl, trivial⟩

theorem new_grounded (classes : ClassTable) : (Machine.new classes).Grounded [] := by
  refine ⟨?_, fun _ _ hb => by simp at hb, Pair.new (classes_pair_self [] classes)⟩
  rw [activations_new]
  rfl

/-- A run starts with a new object of the class, and the main method. -/
theorem of_start? (h : m.start? entry = some m') :
    ∃ cls method, m.classes.get? entry = some cls ∧ cls.lookup? mainMethod false = some method ∧
      m' = activate ⟨m.classes, m.transcript, (m.store.newObject cls).2, CallStack.empty, []⟩ method
        (m.store.newObject cls).1 (Array.replicate method.code.slotCount .nil) := by
  rw [start?] at h
  split at h
  · cases h
  · split at h
    · cases h
    · exact ⟨_, _, ‹_›, ‹_›, (Option.some.inj h).symm⟩

theorem Grounded.start (h : m.Grounded Λ) (hstart : m.start? entry = some m') :
    ∃ Λ', m'.Consistent Λ' := by
  obtain ⟨cls, method, -, -, rfl⟩ := of_start? hstart
  have hnew := h.pair.store.newObject (c := cls) (d := cls) ⟨rfl, trivial⟩
  have hmade : Consistent ⟨m.classes, m.transcript, (m.store.newObject cls).2,
      CallStack.empty, []⟩ Λ := by
    refine ⟨⟨⟨h.size, h.ordered, h.pair.classes, h.pair.transcript, hnew.2⟩, ?_, .nil, ?_⟩, .nil _⟩
    · exact fun _ hf => absurd hf List.not_mem_nil
    · exact fun _ hl => absurd hl List.not_mem_nil
  refine hmade.activate method hnew.1 ?_
  rw [RowPair, Array.toList_replicate]
  exact Forall₂.replicate _ .nil

/-- **Every reachable state is consistent** with some history. -/
theorem Reachable.consistent {classes : ClassTable} (h : Reachable classes m) :
    ∃ Λ, m.Consistent Λ := by
  induction h with
  | new =>
    have hclear := (new_grounded classes).clear
    rw [new_clear] at hclear
    exact ⟨[], hclear⟩
  | start _ hstart ih =>
    obtain ⟨Λ, hΛ⟩ := ih
    exact hΛ.toGrounded.start hstart
  | step _ hstep ih =>
    obtain ⟨Λ, hΛ⟩ := ih
    have hfits := hΛ.step
    rw [hstep] at hfits
    exact hfits
  | finish _ hstep ih | fail _ hstep ih =>
    obtain ⟨Λ, hΛ⟩ := ih
    have hfits := hΛ.step
    rw [hstep] at hfits
    obtain ⟨Λ', hΛ'⟩ := hfits
    exact ⟨Λ', hΛ'.clear⟩

end Machine

end Smalltalk
