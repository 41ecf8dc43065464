/-
**Reading comes to an end.**

Readers of larger constructs are put together from smaller ones, one for each part of the
construct. All of them are calm. Whatever they find, they only move on, and take no mistake back.

Loops and nested brackets are bounded by a limit, but the limit is never reached: a loop ends
because each of its turns but the last takes a token, and an expression in brackets is read from
fewer tokens than the one around it. This holds of any tokens, also where a mistake is recorded and
the token that is wrong is not taken.

* `Reader.Ends` — **a loop comes to an end**, by taking tokens;
* `Reader.Advances` — a turn of a loop takes a token if it asks for another one;
* the instances of `Reader.Calm` — **readers are calm**;
* `Reader.reading_ends` — **reading comes to an end**.
-/

import Smalltalk.Proofs.Readers

namespace Smalltalk

variable {s s' : ReaderState}

theorem ReaderState.Bounded.rest_ne_nil (h : s.Bounded) {k : Token.Kind} (hk : s.kind = k)
    (hne : k ≠ .endOfFile) : s.rest ≠ [] := by
  intro hrest
  rw [kind, hrest] at hk
  exact hne (hk.symm.trans h.atEnd)

namespace Reader

variable {α β : Type} {x y : Reader α} {f : α → Reader β} {step : α → Reader (α × Bool)}
  {nested : Reader (Expr Unit)} {P : α → Prop} {Q : β → Prop} {n : Nat}

/-! ### Taking tokens -/

/-- If the answer is of some sort, at least one token has been taken. -/
def Shorter (s : ReaderState) (x : Reader α) (P : α → Prop) : Prop :=
  P (x s).1 → (x s).2.rest.length < s.rest.length

theorem Shorter.pure {a : α} (h : ¬P a) : Shorter s (pure a) P := fun ha => absurd ha h

/-- The kind of the next token is looked at. -/
theorem Shorter.kind {f : Token.Kind → Reader α} (h : Shorter s (f s.kind) P) :
    Shorter s (kind >>= f) P := h

/-- A token is taken by the first of two readers or, if that has taken none, by the second. -/
theorem Shorter.bind [htame : Tame x] [hf : TameAfter f] (hx : Shorter s x P)
    (h : ∀ a s', ¬P a → s'.rest = s.rest → Shorter s' (f a) Q) : Shorter s (x >>= f) Q := by
  intro hb
  have hlater := htame.later s
  rcases Nat.lt_or_eq_of_le hlater.length_le with hlt | heq
  · exact Nat.lt_of_le_of_lt ((hf.calm _).later _).length_le hlt
  · refine heq ▸ h _ _ (fun ha => Nat.ne_of_lt (hx ha) heq) ?_ hb
    exact hlater.rest.eq_of_length heq

/-- The first reader takes a token. -/
theorem Shorter.first [hf : TameAfter f] (hx : Shorter s x fun _ => True) :
    Shorter s (x >>= f) Q :=
  fun _ => Nat.lt_of_le_of_lt ((hf.calm _).later _).length_le (hx trivial)

/-- The second reader takes a token. -/
theorem Shorter.second [hx : Tame x] (h : ∀ a s', s.Later s' → Shorter s' (f a) Q) :
    Shorter s (x >>= f) Q :=
  fun hb => Nat.lt_of_lt_of_le (h _ _ (hx.later s) hb) (hx.later s).length_le

theorem Shorter.skip (h : s.rest ≠ []) : Shorter s skip fun _ => True := by
  intro _
  obtain ⟨t, rest, hrest⟩ := List.exists_cons_of_ne_nil h
  rw [skip_of_cons hrest, ReaderState.rest_advance_cons hrest, hrest]
  exact Nat.lt_succ_self _

theorem Shorter.next (h : s.rest ≠ []) : Shorter s next fun _ => True := Shorter.skip h

/-- A reader that takes a token if there is one. -/
def Moves (x : Reader α) : Prop :=
  ∀ s : ReaderState, s.Bounded → s.rest ≠ [] → Shorter s x fun _ => True

theorem Moves.skip : Moves skip := fun _ _ => .skip

theorem Moves.next : Moves next := fun _ _ => .next

theorem Moves.first [TameAfter f] (hx : Moves x) : Moves (x >>= f) :=
  fun s hs hrest => (hx s hs hrest).first

theorem Shorter.accept {k : Token.Kind} (hs : s.Bounded) (hk : k ≠ .endOfFile) :
    Shorter s (accept k) (· = true) := by
  refine .kind ?_
  split
  case isTrue h => exact (Shorter.skip (hs.rest_ne_nil h hk)).first
  case isFalse => exact .pure Bool.false_ne_true

/-! ### Loops -/

/-- **A loop comes to an end**: each of its turns but the last takes a token. -/
inductive Ends (step : α → Reader (α × Bool)) : α → ReaderState → α × ReaderState → Prop
  | last {a b : α} {s s' : ReaderState} (h : step a s = ((b, false), s')) : Ends step a s (b, s')
  | turn {a b : α} {s s' : ReaderState} {r : α × ReaderState} (h : step a s = ((b, true), s'))
      (hlt : s'.rest.length < s.rest.length) (hrest : Ends step b s' r) : Ends step a s r

/-- A turn takes a token if it asks for another one. -/
class Advances (step : α → Reader (α × Bool)) : Prop where
  shorter (a : α) (s : ReaderState) (hs : s.Bounded) : Shorter s (step a) (·.2 = true)

theorem ends_loop [htame : ∀ a, Tame (step a)] [h : Advances step] (a : α) (hs : s.Bounded) :
    Ends step a s (loop step a s) := by
  change Ends step a s (iterate step s.limit a s)
  have hn := hs.limit
  generalize s.limit = n at hn
  induction n generalizing a s with
  | zero => cases hn
  | succ n ih =>
    have hlater := (htame a).later s
    have hshorter := h.shorter a s hs
    rcases hstep : step a s with ⟨⟨b, again⟩, s'⟩
    rw [Shorter, hstep] at hshorter
    rw [hstep] at hlater
    rw [iterate, bind_apply, hstep]
    cases again with
    | false => exact .last hstep
    | true =>
      have hlt : s'.rest.length < s.rest.length := hshorter rfl
      exact .turn hstep hlt (ih b (hs.later hlater) (by omega))

theorem Advances.whileStep {p : Token.Kind → Bool} {step : α → Reader α}
    (hp : p .endOfFile = false) (hstep : ∀ a, Moves (step a)) : Advances (whileStep p step) := by
  refine ⟨fun a s hs => .kind ?_⟩
  split
  case isTrue hk =>
    refine (hstep a s hs (hs.rest_ne_nil rfl fun h => ?_)).first
    rw [h, hp] at hk
    cases hk
  case isFalse => exact .pure Bool.false_ne_true

/-! ### The limit is not reached -/

/-- A loop that ends does not reach the limit, if its turns do not. -/
theorem Ends.exhausted_eq [htame : ∀ a, Tame (step a)] [hcalm : ∀ a, Calm n (step a)] {a : α}
    {r : α × ReaderState} (h : Ends step a s r) (hs : s.Bounded) (hn : s.rest.length < n) :
    r.2.exhausted = s.exhausted := by
  induction h with
  | @last a b s s' h =>
    have hsame := (hcalm a).same s hs hn
    rwa [h] at hsame
  | @turn a b s s' r h hlt _ ih =>
    have hsame := (hcalm a).same s hs hn
    have hlater := (htame a).later s
    rw [h] at hsame hlater
    exact (ih (hs.later hlater) (Nat.lt_trans hlt hn)).trans hsame

instance [∀ a, Tame (step a)] [Advances step] [∀ a, Calm n (step a)] (a : α) :
    Calm n (loop step a) :=
  ⟨(inferInstance : Tame (loop step a)).later, fun _ hs hn => (ends_loop a hs).exhausted_eq hs hn⟩

instance (p : Token.Kind → Bool) {step : α → Reader α} [∀ a, Tame (step a)] [∀ a, Calm n (step a)]
    [Advances (whileStep p step)] (a : α) : Calm n (loopWhile p step a) := by
  unfold loopWhile
  infer_instance

/-! ### Statements -/

/-- Do the tokens start with a minus sign that has a number directly after it? -/
def startsNegative : List Token → Bool
  | sign :: number :: _ => sign.text = "-" && number.kind = .number && number.start = sign.stop
  | _ => false

theorem isNegativeNumber_apply (s : ReaderState) :
    isNegativeNumber s = (startsNegative s.rest, s) := by
  change (match s.rest with
    | sign :: number :: _ =>
      pure (sign.text = "-" && number.kind = .number && number.start = sign.stop)
    | _ => pure false : Reader Bool) s = _
  match s.rest with
  | [] | [_] | _ :: _ :: _ => rfl

instance : Advances (whileStep isSkipped fun _ => skip) := .whileStep rfl fun _ => .skip

instance : Advances (whileStep (· = .dot) fun _ => skip) := .whileStep rfl fun _ => .skip

instance : Advances (whileStep (· = .identifier) tokenStep) :=
  .whileStep rfl fun _ => Moves.next.first

instance : Calm n (takeWhileKind .identifier) := by unfold takeWhileKind; infer_instance

instance : Calm n declarations := by unfold declarations; infer_instance

instance : Calm n resync := by unfold resync; infer_instance

instance (names : Array Token) : Calm n (parameterStep names) := by
  unfold parameterStep
  infer_instance

instance : Advances (whileStep (· = .colon) parameterStep) :=
  .whileStep rfl fun _ => Moves.skip.first

instance : Advances (whileStep (· = .identifier) selectorStep) :=
  .whileStep rfl fun _ => Moves.next.first

instance (cause : SyntaxError.Cause) : Calm n (failed cause) := by unfold failed; infer_instance

instance : Calm n isNegativeNumber :=
  ⟨fun s => by rw [isNegativeNumber_apply]; exact .refl s,
    fun s _ _ => by rw [isNegativeNumber_apply]⟩

instance : Calm n negativeNumber :=
  .after fun _ => .after fun _ => by split <;> infer_instance

section Nested

variable [Tame nested] [Calm n nested]

instance : Calm n (sentence nested) := by unfold sentence; infer_instance

instance : Calm n (statement nested) := by unfold statement; infer_instance

instance (read : Array (Statement Unit)) : Calm n (bodyStep nested read) := by
  unfold bodyStep
  infer_instance

instance : Advances (bodyStep nested) := by
  refine ⟨fun read s hs => .kind ?_⟩
  split
  · exact .pure Bool.false_ne_true
  · refine .second fun _ s' hlater => (Shorter.accept (hs.later hlater) (by decide)).bind ?_
    intro taken _ htaken _
    rw [if_neg htaken]
    exact .pure Bool.false_ne_true

instance : Advances (itemStep nested) := by
  refine ⟨fun items s hs => .kind ?_⟩
  split
  · exact .pure Bool.false_ne_true
  · exact .second fun _ s' hlater =>
      (Shorter.accept (hs.later hlater) (by decide)).bind fun _ _ htaken _ => .pure htaken

instance : Calm n (body nested) := by unfold body; infer_instance

instance (opening : Token) (names : List Token) : Calm n (blockRest nested opening names) := by
  unfold blockRest
  infer_instance

instance : Calm n (block nested) := by unfold block; infer_instance

instance : Calm n (array nested) := by unfold array; infer_instance

instance : Calm n (group nested) := by unfold group; infer_instance

instance : Tame (primary nested) := by
  refine .after fun t => ?_
  dsimp only
  split
  case h_5 => split <;> infer_instance
  all_goals infer_instance

/-- Behind an opening bracket there are fewer tokens. -/
theorem Calm.next {f : Token → Reader α} (h : ∀ t, Calm n (f t)) (hs : s.Bounded)
    (hrest : s.rest ≠ []) (hn : s.rest.length < n + 1) :
    ((next >>= f) s).2.exhausted = s.exhausted := by
  have hcalm : Calm (n + 1) Reader.next := inferInstance
  have hlt : (Reader.next s).2.rest.length < s.rest.length := Shorter.next hrest trivial
  have hlater : s.Later (Reader.next s).2 := hcalm.later s
  exact ((h _).same _ (hs.later hlater) (Nat.lt_of_lt_of_le hlt (Nat.le_of_lt_succ hn))).trans
    (hcalm.same s hs hn)

/-- An expression in brackets has fewer tokens than the primary that it is a part of. -/
instance : Calm (n + 1) (primary nested) := by
  refine ⟨(inferInstance : Tame (primary nested)).later, fun s hs hn => ?_⟩
  have hcurrent : current s = ((current s).1, s) := rfl
  have hkind : s.kind = (current s).1.kind := rfl
  rw [primary, bind_apply, hcurrent]
  dsimp only
  generalize (current s).1 = t at hkind
  have hrest (hne : t.kind ≠ .endOfFile) : s.rest ≠ [] := hs.rest_ne_nil hkind hne
  cases hk : t.kind with
  | leftSquare =>
    exact Calm.next (fun _ => .after fun _ => by split <;> infer_instance) hs
      (hrest (by rw [hk]; decide)) hn
  | leftCurly | leftParen =>
    exact Calm.next (fun _ => inferInstance) hs (hrest (by rw [hk]; decide)) hn
  | number =>
    dsimp only
    cases numberLiteral? false t <;> exact Calm.same s hs hn
  | _ => exact Calm.same s hs hn

instance : Tame (unary nested) := by unfold unary; infer_instance

instance : Calm (n + 1) (unary nested) := by unfold unary; infer_instance

instance : Advances (whileStep (· = .operator) (operatorStep nested)) :=
  .whileStep rfl fun _ => Moves.next.first

instance : Tame (binary nested) := by unfold binary; infer_instance

instance : Calm (n + 1) (binary nested) := by unfold binary; infer_instance

instance (read : Array Token × Array (Expr Unit)) : Tame (argumentStep nested read) := by
  unfold argumentStep
  infer_instance

instance (read : Array Token × Array (Expr Unit)) : Calm (n + 1) (argumentStep nested read) := by
  unfold argumentStep
  infer_instance

instance : Advances (whileStep (· = .keyword) (argumentStep nested)) :=
  .whileStep rfl fun _ => Moves.next.first

instance : Tame (message nested) := by unfold message; infer_instance

instance : Calm (n + 1) (message nested) := by unfold message; infer_instance

end Nested

instance (depth : Nat) : Tame (expressionWithin depth) := by
  induction depth with
  | zero => unfold expressionWithin; infer_instance
  | succ depth ih => exact inferInstanceAs (Tame (message (expressionWithin depth)))

/-- **Expressions in brackets have fewer tokens** than what is around the brackets. -/
instance : Calm n (expressionWithin n) := by
  induction n with
  | zero => infer_instance
  | succ n ih => exact inferInstanceAs (Calm (n + 1) (message (expressionWithin n)))

instance : Calm n expression :=
  ⟨fun s => (inferInstance : Tame (expressionWithin s.limit)).later s,
    fun s hs _ => (inferInstance : Calm _ (expressionWithin s.limit)).same s hs hs.limit⟩

/-! ### Methods and classes -/

theorem keywordStep_shorter (read : Array (Token × Token) × Bool) (hs : s.Bounded)
    (hk : s.kind = .keyword) : Shorter s (keywordStep read) fun _ => True := by
  refine .kind ?_
  rw [if_neg (not_not_intro hk)]
  exact (Shorter.next (hs.rest_ne_nil hk (by decide))).first

instance (read : Array (Token × Token) × Bool) : Calm n (keywordStep read) := by
  unfold keywordStep
  infer_instance

instance : Advances keywordStep := by
  refine ⟨fun read s hs => ?_⟩
  by_cases hk : s.kind = .keyword
  · exact fun _ => keywordStep_shorter read hs hk trivial
  · refine .kind ?_
    rw [if_pos hk]
    exact .pure Bool.false_ne_true

instance : Calm n keywordSignature := by unfold keywordSignature; infer_instance

instance : Calm n signature := .after fun _ => by split <;> infer_instance

theorem signature_shorter (hs : s.Bounded) : Shorter s signature (·.isSome = true) := by
  refine .kind ?_
  split
  case h_1 hk | h_2 hk => exact (Shorter.next (hs.rest_ne_nil hk (by decide))).first
  case h_3 hk =>
    rw [keywordSignature]
    refine Shorter.first fun _ => ?_
    obtain ⟨n, hn⟩ := Nat.exists_eq_succ_of_ne_zero (Nat.ne_of_gt (Nat.zero_lt_of_lt hs.limit))
    change (iterate keywordStep s.limit _ s).2.rest.length < _
    rw [hn]
    exact (keywordStep_shorter _ hs hk).first (Q := fun _ => True)
      (f := fun r => if r.2 then iterate keywordStep n r.1 else pure r.1) trivial
  case h_4 => exact .second fun _ _ _ => .pure Bool.false_ne_true

instance : Calm n primitiveBody :=
  .after fun _ => .after fun _ => by split <;> infer_instance

instance : Calm n methodBody := by unfold methodBody; infer_instance

instance : Calm n method := by unfold method; infer_instance

instance (methods : Array (MethodDef Unit)) : Calm n (methodStep methods) := by
  unfold methodStep
  infer_instance

theorem moves_methodStep (methods : Array (MethodDef Unit)) : Moves (methodStep methods) := by
  intro s hs hrest
  have hmethod : Shorter s method (·.isSome = true) := by
    rw [method]
    refine .second fun word s' hlater => (signature_shorter (hs.later hlater)).bind ?_
    rintro (_ | _) _ h _
    · exact .pure Bool.false_ne_true
    · exact absurd rfl h
  refine hmethod.bind ?_
  rintro (_ | _) s' h hsame
  · exact (Shorter.skip (hsame ▸ hrest)).first
  · exact absurd rfl h

instance : Advances (whileStep (fun k => k ≠ .rightSquare && k ≠ .endOfFile) methodStep) :=
  .whileStep rfl moves_methodStep

instance (word : Token) : Calm n (classHeader word) := by unfold classHeader; infer_instance

instance (word name : Token) (superclass : Option Token) :
    Calm n (classRest word name superclass) := by
  unfold classRest
  infer_instance

instance : Calm n classDef := by unfold classDef; infer_instance

instance : Advances (whileStep (· = .classWord) classStep) := by
  have hclass : Moves classDef := Moves.next.first
  exact .whileStep rfl fun _ => hclass.first

instance : Calm n fileEnd := .after fun _ => by split <;> infer_instance

instance : Calm n program := by unfold program; infer_instance

/-! ### The end -/

/-- **The turns of the loops** of all readers, with a reader for the expressions inside. -/
inductive Turn (nested : Reader (Expr Unit)) : {α : Type} → (α → Reader (α × Bool)) → Prop
  | classes : Turn nested (whileStep (· = .classWord) classStep)
  | methods : Turn nested (whileStep (fun k => k ≠ .rightSquare && k ≠ .endOfFile) methodStep)
  | header : Turn nested keywordStep
  | names : Turn nested (whileStep (· = .identifier) tokenStep)
  | body : Turn nested (bodyStep nested)
  | points : Turn nested (whileStep (· = .dot) fun _ => skip)
  | keywords : Turn nested (whileStep (· = .keyword) (argumentStep nested))
  | operators : Turn nested (whileStep (· = .operator) (operatorStep nested))
  | selectors : Turn nested (whileStep (· = .identifier) selectorStep)
  | parameters : Turn nested (whileStep (· = .colon) parameterStep)
  | items : Turn nested (itemStep nested)
  | skipped : Turn nested (whileStep isSkipped fun _ => skip)

/-- **Each turn of a loop but the last takes a token.** -/
theorem Turn.ends [Tame nested] (h : Turn nested step) (a : α) (hs : s.Bounded) :
    Ends step a s (loop step a s) := by
  cases h <;> exact ends_loop a hs

/-- **Reading comes to an end**, whatever the tokens are. A limit above their number is never
reached. From every state behind the start, each loop ends by taking tokens, and each level of
brackets takes a token: no depth above the number of tokens is reached. -/
theorem reading_ends (source : String) (tokens : List Token) (more : Nat) :
    let start : ReaderState := ⟨tokens, .atEnd source.utf8ByteSize, .atEnd source.utf8ByteSize, #[],
      tokens.length + 1 + more, false⟩
    (program start).2.exhausted = false ∧ ∀ s, start.Later s →
      (∀ (α : Type) (step : α → Reader (α × Bool)), Turn expression step →
        ∀ a, Ends step a s (loop step a s)) ∧
      ∀ depth, s.rest.length < depth → (expressionWithin depth s).2.exhausted = s.exhausted := by
  intro start
  have hlimit : tokens.length < tokens.length + 1 + more := by omega
  have hstart : start.Bounded := ⟨hlimit, rfl⟩
  refine ⟨Calm.same start hstart hlimit, fun s hlater => ?_⟩
  have hs := hstart.later hlater
  exact ⟨fun α step hturn a => hturn.ends a hs, fun depth => Calm.same s hs⟩

end Reader

end Smalltalk
