/-
**Compiled programs do what their sources mean.**

A call starts an activation, and the code of the activation does what the trees of its routine mean;
so with each unit of fuel more calls are made as they are evaluated. A program is a call of its main
method. Hence the machine ends just when some amount of fuel is enough to evaluate the program, and
then in the same way.

* `Evaluation.Matches` — **an evaluation and a run that came out the same**;
* `Machine.serves_call` — **the machine makes all calls as they are evaluated**;
* `Compilation.run_matches_meaning` — **compiled programs do what their sources mean**.
-/

import Smalltalk.Proofs.Enacting
import Smalltalk.Proofs.MarkedRuns

namespace Smalltalk

open ClassTable

variable {P : Pairing} {m : Machine} {o : Evaluation Value} {T : ClassTable}
  {programs : List Program} {k : Nat} {s : Store} {v v' : Value}

namespace Machine

variable {call : Calling}

/-! ### Starting activations -/

variable {inner : List Loop} {t : Store} {f : Frame} {arguments arguments' : List Value}
  {c d : Closure Value}

theorem Fair.enter (h : m.Fair T) (s : Store) (f : Frame)
    (hinner : ∀ l ∈ inner, l.depth + 1 = m.stack.depth) : (m.enter s f inner).Fair T where
  classes := h.classes
  transcript := h.transcript
  calm l hl := by
    change l.depth + 1 < m.stack.depth + 1
    rcases List.mem_append.1 hl with hl | hl
    · exact Nat.lt_succ_of_le (Nat.le_of_eq (hinner l hl))
    · exact Nat.lt_succ_of_lt (h.calm l hl)

/-- An activation of code starts with all of it. -/
theorem at_start (hs : s.Pair P t) (hoperands : f.operands = []) {ops : List Op}
    (hspelled : Spelled f.code.literals f.rest ops) (inner : List Loop) :
    (m.enter t f inner).At P f ops s [] (.running (m.enter t f inner)) := by
  refine ⟨f.rest, f.mark, t, hspelled, hs, ?_⟩
  rw [← hoperands]
  rfl

/-- A new activation in which the trees of a site are run. -/
theorem Fair.runs (h : m.Fair T) {N : Naming} {r : Routine} {x : Site}
    (hf : x.Hosts T programs N r f) (s : Store) (hinner : ∀ l ∈ inner, l.depth + 1 = m.stack.depth)
    (hactive : x.active = f.environment.activation :: m.active) :
    x.Runs T programs N r (m.enter s f inner) f where
  toHosts := hf
  fair := h.enter s f hinner
  top := ⟨m.stack.frames, rfl⟩
  active := hactive

theorem activate_eq_enter (m : Machine) (method : Method) (receiver : Value) (row : Array Value) :
    m.activate method receiver row = m.enter (m.store.newActivation row).2
      (Frame.ofMethod method ⟨receiver, (m.store.newActivation row).1, []⟩) [] := rfl

theorem exit_enter_one (m : Machine) (s t : Store) (f : Frame) (inner : List Loop) (v : Value) :
    (m.enter s f inner).exit t 1 v
      = exit ⟨m.classes, m.transcript, s, m.stack, inner ++ m.loops⟩ t 0 v := rfl

/-- An activation that was called returns to the one below. -/
theorem Realizes.returned {p : Progress}
    (h : Realizes P (m.enter s f []) k (Leaving P (m.enter s f [])) p o) :
    Realizes P m k (Returned P m) p (Meaning.catching f.environment.activation o) := by
  rw [← Evaluation.bind_value (Meaning.catching _ o)]
  refine h.caught (List.forall_mem_nil _) fun v s₁ v' s₁' m₁ hv hs hstep => ?_
  rw [exit_enter_one] at hstep
  exact .value (.of_step hstep) ⟨v', s₁', hv, hs, rfl⟩

/-- **A method is run as it is evaluated.** -/
theorem invokeMethod_realizes (hT : T.Implements programs) (hserves : Serves T programs k call)
    (hm : m.Fair T) (hs : s.Pair (T.pairing programs) m.store) {a b : Method}
    (hab : (T.pairing programs).method a b) (hprimitive : b.code.primitive = none)
    (hv : v.Pair (T.pairing programs) v')
    (harguments : List.Forall₂ (Value.Pair (T.pairing programs)) arguments arguments') :
    Realizes (T.pairing programs) m (k + 1) (Returned (T.pairing programs) m)
      (m.enterMethod b v' arguments')
      (Meaning.invokeMethod (Machine.new T.bare) programs call a v arguments m.active s) := by
  obtain ⟨rfl, hfound⟩ := hab
  obtain ⟨r, N, span, hmethod⟩ := hT.methods hfound hprimitive
  have hroutine : Program.routineAt? programs b.bare.address = some r := hmethod.routine
  have hfit := hmethod.fit hT
  have hunit := hmethod.compiled.unit
  have hfirst : r.firstBlock = 0 := by
    rw [Routine.firstBlock, hfit.isMethod.block]
  obtain ⟨hactivation, hstore⟩ := hs.newActivation (RowPair.ofArguments harguments r.slotCount)
  rw [harguments.length_eq] at hactivation hstore
  rw [Meaning.invokeMethod, hroutine, enterMethod, hunit.argumentCount, harguments.length_eq,
    activate_eq_enter, slots, hunit.slotCount]
  dsimp only
  split
  case isFalse => exact .fault (.refl _) hs
  case isTrue =>
    rw [Meaning.enter, hfirst, harguments.length_eq]
    generalize s.newActivation _ = new at *
    generalize m.store.newActivation _ = new' at *
    obtain ⟨activation, s₁⟩ := new
    obtain ⟨activation', t₁⟩ := new'
    obtain rfl : activation = activation' := hactivation
    have hx := hm.runs (x := ⟨b.bare, r, ⟨v, activation, []⟩, activation :: m.active⟩)
      (f := Frame.ofMethod b ⟨v', activation, []⟩)
      ⟨⟨span, hmethod⟩, rfl, rfl, rfl, ⟨hv, rfl, rfl⟩, hfit.isMethod.scopes.symm⟩ t₁
      (List.forall_mem_nil _) rfl
    have hbody := hx.methodCode_realizes hT hserves rfl r.statements span
      (Routine.has_blocks hfit.isMethod.block) (at_start hstore rfl hunit.spelled [])
    exact hbody.returned

/-- The machine in some more loops. -/
def looping (m : Machine) (s : Store) (inner : List Loop) : Machine :=
  ⟨m.classes, m.transcript, s, m.stack, inner ++ m.loops⟩

theorem enterBlock_looping (m : Machine) (s : Store) (inner : List Loop) (d : Closure Value)
    (arguments : List Value) :
    (m.looping s inner).enterBlock d arguments =
      if arguments.length = d.code.argumentCount then
        .running (m.enter (s.newActivation (slots d.code arguments)).2
          (Frame.ofBlock d (s.newActivation (slots d.code arguments)).1) inner)
      else
        .failed (.mismatchedBlockArguments d.code.argumentCount arguments.length)
          (m.looping s inner) := rfl

/-- **A block is run as it is evaluated**, and what comes then is told by `K`. -/
theorem invokeBlock_realizes (hT : T.Implements programs) (hserves : Serves T programs k call)
    (hm : m.Fair T) (hs : s.Pair (T.pairing programs) t)
    (hinner : ∀ l ∈ inner, l.depth + 1 = m.stack.depth) (hc : c.Pair (T.pairing programs) d)
    (harguments : List.Forall₂ (Value.Pair (T.pairing programs)) arguments arguments')
    {K : Value → Store → Evaluation Value} {R : Value → Store → Progress → Prop}
    (hK : ∀ v s₁ v' s₁' m₁, v.Pair (T.pairing programs) v' →
      s₁.Pair (T.pairing programs) s₁' → m₁.step = (m.looping t inner).exit s₁' 0 v' →
      Realizes (T.pairing programs) m (k + 1) R (.running m₁) (K v s₁)) :
    Realizes (T.pairing programs) m (k + 1) R ((m.looping t inner).enterBlock d arguments')
      ((Meaning.invokeBlock (Machine.new T.bare) programs call c arguments m.active s).bind K) := by
  have hclosure : ClosureMeant T programs c d := hc.closure
  obtain ⟨r, q, hunit, hchain⟩ := hclosure.unit
  obtain ⟨N, span, hmethod⟩ := hunit.method
  have hfit := hmethod.fit hT
  have hblock : r.blocks[d.index]? = some q := hunit.routine
  have hinside := Routine.Has.inside hblock hfit.isMethod.block hfit.isMethod.scopes
  have hcompiled := hmethod.compiled.block hblock hunit.code
  have hfirst : q.firstBlock = d.index + 1 := by
    rw [Routine.firstBlock, hinside.block]
  have hroutine :
      (Program.routineAt? programs c.method.address).bind (·.blocks[c.index]?) = some q := by
    rw [hclosure.address, hclosure.index, hmethod.routine]
    exact hblock
  obtain ⟨hactivation, hstore⟩ := hs.newActivation (RowPair.ofArguments harguments q.slotCount)
  rw [harguments.length_eq] at hactivation hstore
  rw [Meaning.invokeBlock, hroutine, harguments.length_eq, enterBlock_looping, slots,
    hcompiled.argumentCount, hcompiled.slotCount]
  dsimp only
  split
  case isFalse => exact .fault (.refl _) hs
  case isTrue =>
    rw [Meaning.enter, harguments.length_eq]
    generalize s.newActivation _ = new at *
    generalize t.newActivation _ = new' at *
    obtain ⟨activation, s₁⟩ := new
    obtain ⟨activation', t₁⟩ := new'
    obtain rfl : activation = activation' := hactivation
    have hx := hm.runs (x := ⟨c.method, q, c.environment.inner activation, activation :: m.active⟩)
      (f := Frame.ofBlock d activation)
      ⟨⟨span, hmethod⟩, hunit.routine, hunit.code, hclosure.address,
        hc.environment.inner activation, hchain⟩ t₁ hinner rfl
    have hbody := hx.blockCode_realizes hT hserves q.statements
      (hfirst ▸ hinside.blocks) (at_start hstore rfl hcompiled.spelled inner)
    exact hbody.caught hinner fun v s₂ v' s₂' m₁ hv hs₂ hstep => hK v s₂ v' s₂' m₁ hv hs₂ hstep

/-! ### Loops -/

theorem enterLoop_eq (m : Machine) (condition body : Closure Value) (repeatWhile : Bool) :
    m.enterLoop condition body repeatWhile =
      (m.looping m.store [⟨m.stack.depth - 1, condition, body, repeatWhile, false⟩]).enterBlock
        condition [] := rfl

/-- A loop that was started in the innermost activation goes on. -/
theorem exit_looping (m : Machine) (s t : Store) {l : Loop} (hl : l.depth + 1 = m.stack.depth)
    (v : Value) : (m.looping s [l]).exit t 0 v = (m.looping t [l]).continueLoop l m.loops v := by
  have hdrop : m.stack.drop 0 = m.stack := rfl
  have hnot : ¬decide (m.stack.depth ≤ l.depth) = true := by
    simp only [decide_eq_true_eq]
    omega
  simp only [exit, withStore, looping, leave, hdrop, List.singleton_append]
  rw [List.dropWhile_cons_of_neg (by exact hnot)]
  exact if_pos hl

/-- **A loop is run as it is evaluated**: one turn here, and the others as another loop. -/
theorem loop_realizes (hT : T.Implements programs) (hserves : Serves T programs k call)
    (hm : m.Fair T) (hdepth : 0 < m.stack.depth) (hs : s.Pair (T.pairing programs) m.store)
    {b b' : Closure Value} (hc : c.Pair (T.pairing programs) d)
    (hb : b.Pair (T.pairing programs) b') (repeatWhile : Bool) :
    Realizes (T.pairing programs) m (k + 1) (Returned (T.pairing programs) m)
      (m.enterLoop d b' repeatWhile)
      ((Meaning.invokeBlock (Machine.new T.bare) programs call c [] m.active s).bind fun v s =>
        match v with
        | .boolean answer =>
          if answer = repeatWhile then
            (Meaning.invokeBlock (Machine.new T.bare) programs call b [] m.active s).bind fun _ s =>
              call (.loop c b repeatWhile) m.active s
          else .value .nil s
        | other => .fault (.typeError "Boolean" other.className) s) := by
  have hl : m.stack.depth - 1 + 1 = m.stack.depth := Nat.succ_pred_eq_of_pos hdepth
  rw [enterLoop_eq]
  refine invokeBlock_realizes hT hserves hm hs (List.forall_mem_singleton.2 hl) hc .nil
    fun v s₁ v' t₁ m₁ hv hs₁ hstep => ?_
  rw [exit_looping m _ t₁ hl] at hstep
  have hfault {w w' : Value} (hname : w.className = w'.className)
      (hfails : m₁.step = .failed (.typeError "Boolean" w'.className)
        (m.looping t₁ [⟨m.stack.depth - 1, d, b', repeatWhile, false⟩])) :
      Realizes (T.pairing programs) m (k + 1) (Returned (T.pairing programs) m)
        (.running m₁) (.fault (.typeError "Boolean" w.className) s₁) := by
    rw [hname]
    exact .fault (.of_step hfails) hs₁
  have hname := hv.className_eq
  cases hv with
  | boolean answer =>
    change m₁.step = if answer = repeatWhile then
      (m.looping t₁ [⟨m.stack.depth - 1, d, b', repeatWhile, true⟩]).enterBlock b' []
      else (m.withStore t₁).give .nil at hstep
    dsimp only
    split
    case isFalse hend =>
      rw [if_neg hend, ← hm.calm.exit_zero] at hstep
      exact .value (.of_step hstep) ⟨.nil, t₁, .nil, hs₁, rfl⟩
    case isTrue hturn =>
      rw [if_pos hturn] at hstep
      refine (Realizes.step ?_).less
      rw [hstep]
      refine invokeBlock_realizes hT hserves hm hs₁ (List.forall_mem_singleton.2 hl) hb .nil
        fun w s₂ w' t₂ m₂ _ hs₂ hstep₂ => ?_
      rw [exit_looping m _ t₂ hl] at hstep₂
      -- After the body the loop is as it was at first, in another store.
      change m₂.step = (m.withStore t₂).enterLoop d b' repeatWhile at hstep₂
      refine .step ?_
      rw [hstep₂]
      exact (hserves.loop (m := m.withStore t₂) ⟨hm.classes, hm.transcript, hm.calm⟩ hdepth hs₂
        hc hb repeatWhile).withStore
  | _ => exact hfault hname hstep

/-! ### Calls and programs -/

/-- **The machine makes all calls as they are evaluated.** -/
theorem serves_call (hT : T.Implements programs) (fuel : Nat) :
    Serves T programs fuel (Meaning.call (Machine.new T.bare) programs fuel) := by
  induction fuel with
  | zero =>
    refine ⟨?_, ?_, ?_⟩
    all_goals
      intros
      exact .unknown trivial
  | succ fuel ih =>
    refine ⟨?_, ?_, ?_⟩
    · intro m hm s hs a b hab hprimitive v v' hv arguments arguments' harguments
      exact invokeMethod_realizes hT ih hm hs hab hprimitive hv harguments
    · intro m hm s hs c d hc arguments arguments' harguments
      rw [Meaning.call, ← Evaluation.bind_value (Meaning.invokeBlock _ _ _ _ _ _ _)]
      exact invokeBlock_realizes hT ih hm hs (List.forall_mem_nil _) hc harguments
        fun v s₁ v' t₁ m₁ hv hs₁ hstep => .value (.of_step hstep) ⟨v', t₁, hv, hs₁, rfl⟩
    · intro m hm hdepth s hs c d b b' hc hb repeatWhile
      exact loop_realizes hT ih hm hdepth hs hc hb repeatWhile

end Machine

/-- **An evaluation and a run that came out the same**: with values that stand for each other and
look the same, or for the same reason; and with the same transcript and stores that stand for each
other. -/
def Evaluation.Matches (P : Pairing) : Evaluation Value → Except RuntimeError Value × Machine → Prop
  | .value v s, (.ok v', m) =>
    v.Pair P v' ∧ v.className = v'.className ∧ s.text v = m.store.text v' ∧
      s.transcript = m.store.transcript ∧ s.Pair P m.store
  | .fault reason s, (.error e, m) =>
    reason = e.fault ∧ s.transcript = m.store.transcript ∧ s.Pair P m.store
  | _, _ => False

theorem Evaluation.matches_value (hv : v.Pair P v') (hs : s.Pair P m.store) :
    (Evaluation.value v s).Matches P (.ok v', m) :=
  ⟨hv, hv.className_eq, hs.text_eq hv, hs.transcript, hs⟩

/-- If the run shows an answer, so does the evaluation. -/
theorem Evaluation.value_of_matches {r : Except RuntimeError Value × Machine}
    {text transcript : String} (hshown : Machine.observe r = .answer text transcript)
    (h : o.Matches P r) : ∃ v s, o = .value v s ∧ s.text v = text ∧ s.transcript = transcript := by
  obtain ⟨result, m⟩ := r
  cases result with
  | error e => cases hshown
  | ok v' =>
    obtain ⟨htext, htranscript⟩ := Observation.answer.inj hshown
    cases o with
    | value v s =>
      obtain ⟨-, -, htext', htranscript', -⟩ := h
      exact ⟨v, s, rfl, htext'.trans htext, htranscript'.trans htranscript⟩
    | answer | fault | unknown => exact h.elim

namespace Machine

theorem give_of_nil (hm : m.stack.frames = []) (s : Store) (v : Value) :
    (m.withStore s).give v = .finished v (m.withStore s) := by
  obtain ⟨classes, transcript, store, ⟨frames, depth, hdepth⟩, loops⟩ := m
  obtain rfl : frames = [] := hm
  rfl

/-- If there is no activation below, the program is over. -/
theorem Realizes.result {m₀ : Machine} (h : Realizes P m k (Returned P m) (.running m₀) o)
    (hm : m.stack.frames = []) (hcalm : m.Calm) : (o = .unknown ∧ (Progress.running m₀).Lasts k) ∨
      ∃ p r, Ends m₀ p ∧ p.result? = some r ∧ o.Matches P r := by
  cases h with
  | value h hq =>
    obtain ⟨v', s', hv, hs, rfl⟩ := hq
    rw [hcalm.exit_zero, give_of_nil hm] at h
    exact .inr ⟨_, _, h.ends (fun _ h => by cases h), rfl, Evaluation.matches_value hv hs⟩
  | answer h hv hs hhome hstep =>
    rw [active, hm] at hhome
    cases hhome
  | fault h hs => exact .inr ⟨_, _, h.ends (fun _ h => by cases h), rfl, rfl, hs.transcript, hs⟩
  | unknown h => exact .inl ⟨rfl, h⟩

end Machine

namespace ClassTable

/-- **A program is run as it is evaluated.** -/
theorem Implements.meaning_cases (hT : T.Implements programs) :
    ((∀ fuel, meaning T.bare programs fuel = .value .nil (Machine.new T.bare).store) ∧
      (Machine.new T).start? mainClass = none) ∨
    ∃ m₀, (Machine.new T).start? mainClass = some m₀ ∧ ∀ fuel,
      (meaning T.bare programs fuel = .unknown ∧ (Progress.running m₀).Lasts fuel) ∨
        ∃ p r, Machine.Ends m₀ p ∧ p.result? = some r ∧
          (meaning T.bare programs fuel).Matches (T.pairing programs) r := by
  simp only [meaning, Machine.start?, Machine.classes_new, get?_bare]
  cases hcls : T.get? mainClass with
  | none => exact .inl ⟨fun _ => rfl, rfl⟩
  | some cls =>
    simp only [Option.map_some, Class.lookup?_bare]
    cases hfound : cls.lookup? mainMethod false with
    | none => exact .inl ⟨fun _ => rfl, rfl⟩
    | some b =>
      have hprimitive := hT.main hcls hfound
      obtain ⟨hselector, hat⟩ := (hT.classes hcls).lookup hfound
      obtain ⟨r, N, span, hmethod⟩ := hT.methods hat hprimitive
      -- The main method has no parameters.
      have hcount : b.code.argumentCount = 0 := by
        rw [hmethod.compiled.unit.argumentCount, ← (hmethod.fit hT).isRegular.arity,
          hmethod.address, hselector, argumentsOf_mainMethod]
      have hobject := hT.new_pair.store.newObject (P := T.pairing programs) (c := cls.bare)
        (d := cls) ⟨rfl, hT.classes hcls⟩
      refine .inr ⟨_, rfl, fun fuel => ?_⟩
      have hfair : Machine.Fair T ⟨(Machine.new T).classes, (Machine.new T).transcript,
          ((Machine.new T).store.newObject cls).2, .empty, []⟩ :=
        ⟨Machine.classes_new T, rfl, List.forall_mem_nil _⟩
      have hrealizes := (Machine.serves_call hT fuel).method hfair hobject.2 (a := b.bare) (b := b)
        ⟨rfl, hat⟩ hprimitive hobject.1 .nil
      have hslots : Machine.slots b.code [] = Array.replicate b.code.slotCount .nil := by
        simp [Machine.slots]
      rw [Machine.enterMethod, hcount, if_pos List.length_nil, hslots] at hrealizes
      exact hrealizes.result rfl hfair.calm

end ClassTable

namespace Compilation

/-- **Compiled programs do what their sources mean.**  Take any sources without mistakes, compiled
with any options into classes. If some amount of fuel is enough to evaluate the program, from its
trees and from classes without code, then the run of the main class ends and comes out the same; and
if the run ends, some amount of fuel is enough, and the evaluation comes out the same. -/
theorem run_matches_meaning {options : CompileOptions} {sources : List String}
    (hfit : ∀ source ∈ sources, (Program.parse source).IsFit)
    (herrors : (ofPrograms options (sources.map Program.parse)).errors = #[]) :
    let T := ClassTable.ofSymbols (ofPrograms options (sources.map Program.parse)).table
    let programs := allPrograms options (sources.map Program.parse)
    (∀ fuel, meaning T.bare programs fuel ≠ .unknown → ∃ n r,
      (Machine.new T).run n mainClass = some r ∧
        (meaning T.bare programs fuel).Matches (T.pairing programs) r) ∧
    ∀ n r, (Machine.new T).run n mainClass = some r → ∃ fuel,
      (meaning T.bare programs fuel).Matches (T.pairing programs) r := by
  intro T programs
  have hT : T.Implements programs := classes_implement hfit herrors
  rcases hT.meaning_cases with ⟨hmeaning, hstart⟩ | ⟨m₀, hstart, hcases⟩
  · -- There is nothing to run.
    have hrun (n : Nat) : (Machine.new T).run n mainClass = some (.ok .nil, Machine.new T) := by
      rw [Machine.run, hstart]
    have hmatches (fuel : Nat) : (meaning T.bare programs fuel).Matches (T.pairing programs)
        (.ok .nil, Machine.new T) := by
      rw [hmeaning]
      exact Evaluation.matches_value .nil hT.new_pair.store
    refine ⟨fun fuel _ => ⟨0, _, hrun 0, hmatches fuel⟩, fun n r hr => ⟨0, ?_⟩⟩
    obtain rfl := Option.some.inj ((hrun n).symm.trans hr)
    exact hmatches 0
  · refine ⟨fun fuel hknown => ?_, fun n r hr => ?_⟩
    · obtain ⟨hunknown, -⟩ | ⟨p, r, hends, hresult, hmatches⟩ := hcases fuel
      · exact absurd hunknown hknown
      · obtain ⟨n, hn⟩ := (Machine.exists_run_iff hstart).2 ⟨p, hends, hresult⟩
        exact ⟨n, r, hn, hmatches⟩
    · obtain ⟨p, hends, hresult⟩ := (Machine.exists_run_iff hstart).1 ⟨n, hr⟩
      obtain ⟨fuel, hfuel⟩ := Progress.exists_not_lasts hends
      obtain ⟨-, hlasts⟩ | ⟨p', r', hends', hresult', hmatches⟩ := hcases fuel
      · exact absurd hlasts hfuel
      · obtain rfl := hends.unique hends'
        obtain rfl := Option.some.inj (hresult.symm.trans hresult')
        exact ⟨fuel, hmatches⟩

/-- The method of one source asks a block of the other again and again, and answers from inside its
loop. -/
def search : List String :=
  ["class A [class go: b [[true] whileTrue: [b value ifTrue: [^7]]]]",
    "|i| i := 0. ^(A go: [i := i + 1. i > 2]) + i"]

theorem search_runs :
    (∀ source ∈ search, (Program.parse source).IsFit) ∧
    (ofPrograms ⟨"main.st", false, false⟩ (search.map Program.parse)).isValid = true ∧
    ((Machine.new (ClassTable.ofSymbols
      (ofPrograms ⟨"main.st", false, false⟩ (search.map Program.parse)).table)).run 100
        mainClass).map Machine.observe = some (.answer "10" "") := by
  decide +kernel

theorem search_meaning :
    (∀ source ∈ search, (Program.parse source).IsFit) ∧
    (ofPrograms ⟨"main.st", false, false⟩ (search.map Program.parse)).errors = #[] ∧
    ∃ fuel v s,
      meaning
          (ClassTable.ofSymbols
            (ofPrograms ⟨"main.st", false, false⟩ (search.map Program.parse)).table).bare
          (allPrograms ⟨"main.st", false, false⟩ (search.map Program.parse)) fuel = .value v s ∧
        s.text v = "10" ∧ s.transcript = "" := by
  obtain ⟨hfit, hvalid, hobserve⟩ := search_runs
  have herrors : (ofPrograms ⟨"main.st", false, false⟩ (search.map Program.parse)).errors = #[] := by
    simpa [isValid] using hvalid
  obtain ⟨r, hrun, hshown⟩ := Option.map_eq_some_iff.1 hobserve
  exact ⟨hfit, herrors, Exists.imp (fun _ => Evaluation.value_of_matches hshown)
    ((run_matches_meaning hfit herrors).2 100 r hrun)⟩

end Compilation

end Smalltalk
