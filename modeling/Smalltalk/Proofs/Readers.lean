/-
**What readers do.**

A reader takes tokens from the front, and may record mistakes. About a reader there are three
things to say. It is *tame*: whatever it finds, it only moves on, and takes no mistake back; and it
is *calm* if the limit on its loops and on nested brackets is never reached besides. It
*reads* the sequences of a rule: if it records no mistake, the tokens it has taken are such a
sequence, and what it has built is the tree. And it *takes* a given sequence: it moves just behind
it, builds its tree and records no mistake.

All three are put together from those of the parts of a reader. A loop reads what each of its turns
adds; it ends because each turn takes a token, and there are fewer tokens than turns.

* `Reader.Calm` — **a reader only moves on** and does not reach the limit;
* `Reader.Reads` — **a reader reads only what a rule allows**;
* `Reader.Takes` — **a reader takes a sequence of tokens**.
-/

import Smalltalk.Proofs.Grammar

namespace Smalltalk

variable {t : Token} {rest ts us : List Token} {k : Token.Kind} {s : ReaderState}

/-! ### Moving on -/

namespace ReaderState

/-- The kind of the next token. -/
def kind (s : ReaderState) : Token.Kind := (s.rest.head?.getD s.atEnd).kind

/-- The second state comes later. -/
structure Later (s s' : ReaderState) : Prop where
  rest : s'.rest <:+ s.rest
  atEnd : s'.atEnd = s.atEnd
  limit : s'.limit = s.limit
  errors : s.errors.size ≤ s'.errors.size

/-- The second state is behind some tokens, and no mistake has been recorded. -/
structure Moved (s : ReaderState) (ts : List Token) (s' : ReaderState) : Prop where
  later : s.Later s'
  rest : s.rest = ts ++ s'.rest
  clean : s'.errors.size = s.errors.size

/-- The limit is larger than the number of tokens, behind which is the end of the file. -/
structure Bounded (s : ReaderState) : Prop where
  limit : s.rest.length < s.limit
  atEnd : s.atEnd.kind = .endOfFile

/-- Besides, the end of the file is no token. -/
structure Ready (s : ReaderState) : Prop extends s.Bounded where
  proper : ∀ t ∈ s.rest, t.kind ≠ .endOfFile

/-- The state behind some tokens. -/
def advance (s : ReaderState) (ts : List Token) : ReaderState :=
  { s with rest := s.rest.drop ts.length, last := ts.getLastD s.last }

variable {s' s'' : ReaderState}

theorem Later.refl (s : ReaderState) : s.Later s := ⟨List.suffix_refl _, rfl, rfl, Nat.le_refl _⟩

theorem Later.trans (h : s.Later s') (h' : s'.Later s'') : s.Later s'' :=
  ⟨h'.rest.trans h.rest, h'.atEnd.trans h.atEnd, h'.limit.trans h.limit,
    Nat.le_trans h.errors h'.errors⟩

theorem Later.length_le (h : s.Later s') : s'.rest.length ≤ s.rest.length := h.rest.length_le

theorem Moved.length (h : s.Moved ts s') : s.rest.length = ts.length + s'.rest.length := by
  rw [h.rest, List.length_append]

theorem Moved.refl (s : ReaderState) : s.Moved [] s := ⟨.refl s, rfl, rfl⟩

theorem Moved.trans (h : s.Moved ts s') (h' : s'.Moved us s'') :
    s.Moved (ts ++ us) s'' where
  later := h.later.trans h'.later
  rest := by rw [h.rest, h'.rest, List.append_assoc]
  clean := h'.clean.trans h.clean

theorem Moved.kind_eq (h : s.Moved [] s') : s.kind = s'.kind := by
  rw [kind, kind, h.rest, h.later.atEnd]
  rfl

theorem Bounded.later (h : s.Bounded) (hlater : s.Later s') : s'.Bounded where
  limit := by
    rw [hlater.limit]
    exact Nat.lt_of_le_of_lt hlater.length_le h.limit
  atEnd := by
    rw [hlater.atEnd]
    exact h.atEnd

theorem Ready.later (h : s.Ready) (hlater : s.Later s') : s'.Ready where
  toBounded := h.toBounded.later hlater
  proper t ht := h.proper t (hlater.rest.subset ht)

/-- What is next is a token, unless it is the end of the file. -/
theorem exists_cons_of_kind (h : s.Ready) (hk : s.kind = k) (hne : k ≠ .endOfFile) :
    ∃ t rest, s.rest = t :: rest ∧ t.kind = k := by
  cases hrest : s.rest with
  | nil =>
    rw [kind, hrest] at hk
    exact absurd (hk.symm.trans h.atEnd) hne
  | cons t rest =>
    rw [kind, hrest] at hk
    exact ⟨t, rest, rfl, hk⟩

theorem Ready.moved (h : s.Ready) (hmoved : s.Moved ts s') : s'.Ready := h.later hmoved.later

theorem kind_of_cons (h : s.rest = t :: rest) : s.kind = t.kind := by
  rw [kind, h]
  rfl

/-- Only the end of the file is no token. -/
theorem rest_eq_nil_of_kind (h : s.Ready) (hk : s.kind = .endOfFile) : s.rest = [] := by
  cases hrest : s.rest with
  | nil => rfl
  | cons t rest =>
    rw [kind_of_cons hrest] at hk
    exact absurd hk (h.proper t (by rw [hrest]; exact List.mem_cons_self))

theorem kind_of_rest_eq_nil (h : s.Ready) (hrest : s.rest = []) : s.kind = .endOfFile := by
  rw [kind, hrest]
  exact h.atEnd

@[simp] theorem advance_nil (s : ReaderState) : s.advance [] = s := rfl

theorem advance_append (s : ReaderState) (ts us : List Token) :
    s.advance (ts ++ us) = (s.advance ts).advance us := by
  simp only [advance, List.length_append, List.drop_drop]
  grind

theorem advance_cons (s : ReaderState) (t : Token) (us : List Token) :
    s.advance (t :: us) = (s.advance [t]).advance us := s.advance_append [t] us

theorem rest_advance (h : s.rest = ts ++ rest) : (s.advance ts).rest = rest := by
  rw [advance, h]
  exact List.drop_left

theorem rest_advance_cons (h : s.rest = t :: rest) : (s.advance [t]).rest = rest := by
  rw [advance, h]
  rfl

theorem rest_eq_of_front (h : ts <+: s.rest) : s.rest = ts ++ (s.advance ts).rest := by
  obtain ⟨rest, hrest⟩ := h
  rw [rest_advance hrest.symm, hrest]

/-- A prefix in two parts. -/
theorem front_of_append (h : ts ++ us <+: s.rest) : ts <+: s.rest ∧ us <+: (s.advance ts).rest := by
  have hts : ts <+: s.rest := (List.prefix_append ts us).trans h
  rw [rest_eq_of_front hts] at h
  exact ⟨hts, (List.prefix_append_right_inj ts).1 h⟩

theorem front_of_cons (h : t :: us <+: s.rest) :
    s.rest = t :: (s.advance [t]).rest ∧ us <+: (s.advance [t]).rest := by
  have happend : [t] ++ us <+: s.rest := h
  obtain ⟨ht, hus⟩ := front_of_append happend
  exact ⟨s.rest_eq_of_front ht, hus⟩

theorem kind_of_front (h : t :: us <+: s.rest) :
    s.kind = t.kind := kind_of_cons (s.front_of_cons h).1

/-- The kind of the token after the next one. -/
theorem kind_advance (h : s.rest = t :: rest) :
    (s.advance [t]).kind = (s.rest[1]?.getD s.atEnd).kind := by
  rw [kind, rest_advance_cons h, h, List.getElem?_cons_succ, List.head?_eq_getElem?]
  rfl

theorem later_advance (s : ReaderState) (ts : List Token) : s.Later (s.advance ts) :=
  ⟨List.drop_suffix _ _, rfl, rfl, Nat.le_refl _⟩

theorem Ready.advance (h : s.Ready) (ts : List Token) : (s.advance ts).Ready :=
  h.later (s.later_advance ts)

end ReaderState

namespace Reader

variable {α β : Type} {x : Reader α} {f : α → Reader β} {L : List Token → α → Prop}
  {p : Token.Kind → Bool} {step : α → Reader α}

/-- **A reader only moves on**, and takes no mistake back. As long as there are fewer than `n` tokens,
it does not reach the limit. -/
class Calm (n : Nat) (x : Reader α) : Prop where
  later (s : ReaderState) : s.Later (x s).2
  same (s : ReaderState) (hs : s.Bounded) (hn : s.rest.length < n) :
    (x s).2.exhausted = s.exhausted

/-- The reader only moves on. -/
abbrev Tame (x : Reader α) : Prop := Calm 0 x

theorem Tame.mk (h : ∀ s : ReaderState, s.Later (x s).2) : Tame x :=
  ⟨h, fun _ _ hn => absurd hn (Nat.not_lt_zero _)⟩

theorem bind_apply (x : Reader α) (f : α → Reader β) (s : ReaderState) :
    (x >>= f) s = f (x s).1 (x s).2 := rfl

variable {n : Nat}

instance (a : α) : Calm n (pure a) := ⟨.refl, fun _ _ _ => rfl⟩

/-- The reader is calm, whatever it is given. -/
class CalmAfter (n : Nat) (f : α → Reader β) : Prop where
  calm (a : α) : Calm n (f a)

abbrev TameAfter (f : α → Reader β) : Prop := CalmAfter 0 f

instance {f : α → Reader β} [h : ∀ a, Calm n (f a)] : CalmAfter n f := ⟨h⟩

instance (priority := low) {f : Option α → Reader β} [Calm n (f none)]
    [∀ a, Calm n (f (some a))] : CalmAfter n f := ⟨fun a => by cases a <;> infer_instance⟩

instance [hx : Calm n x] {f : α → Reader β} [hf : CalmAfter n f] : Calm n (x >>= f) where
  later s := (hx.later s).trans ((hf.calm _).later _)
  same s hs hn :=
    have hlater := hx.later s
    ((hf.calm _).same _ (hs.later hlater) (Nat.lt_of_le_of_lt hlater.length_le hn)).trans
      (hx.same s hs hn)

theorem Calm.after [Calm n x] (hf : ∀ a, Calm n (f a)) : Calm n (x >>= f) :=
  inferInstance

instance {p : Prop} [Decidable p] {y : Reader α} [Calm n x] [Calm n y] :
    Calm n (if p then x else y) := by
  split <;> infer_instance

/-- A reader that looks ahead and takes nothing. -/
theorem Calm.look (f : ReaderState → α) : Calm n (fun s => (f s, s)) := ⟨.refl, fun _ _ _ => rfl⟩

instance : Calm n here := .look _

instance : Calm n current := .look _

instance : Calm n kind := .look _

instance : Calm n peekKind := .look _

instance : Calm n errorCount := .look _

instance (k : Token.Kind) (text : String) : Calm n (isText k text) := .look _

/-- The next token is passed over. -/
theorem skip_of_cons (h : s.rest = t :: rest) : skip s = ((), s.advance [t]) := by
  obtain ⟨ts, last, atEnd, errors, limit, exhausted⟩ := s
  obtain rfl : ts = t :: rest := h
  rfl

/-- The next token is taken. -/
theorem next_of_cons (h : s.rest = t :: rest) : next s = (t, s.advance [t]) := by
  have hhere : here s = (t, s) := by
    change (s.rest.head?.getD s.last, s) = _
    rw [h]
    rfl
  rw [next, bind_apply, hhere, bind_apply, skip_of_cons h]
  rfl

theorem peekKind_apply (s : ReaderState) :
    peekKind s = ((s.rest[1]?.getD s.atEnd).kind, s) := rfl

instance : Calm n skip := by
  refine ⟨fun s => ?_, fun s _ _ => ?_⟩ <;>
    obtain ⟨_ | ⟨t, rest⟩, last, atEnd, errors, limit, exhausted⟩ := s
  · exact .refl _
  · rw [skip_of_cons rfl]
    exact ReaderState.later_advance _ [t]
  · rfl
  · rfl

instance : Calm n next := by unfold next; infer_instance

instance (cause : SyntaxError.Cause) : Calm n (report cause) := by
  refine ⟨fun s => ⟨List.suffix_refl _, rfl, rfl, ?_⟩, fun _ _ _ => rfl⟩
  change s.errors.size ≤ (s.errors.push _).size
  rw [Array.size_push]
  exact Nat.le_succ _

instance (k : Token.Kind) : Calm n (accept k) := by unfold accept; infer_instance

instance (k : Token.Kind) : Calm n (expect k) := by unfold expect; infer_instance

instance : Calm n expectIdentifier := by unfold expectIdentifier; infer_instance

instance : Tame giveUp := .mk fun _ => ⟨List.suffix_refl _, rfl, rfl, Nat.le_refl _⟩

section Loops

variable {step : α → Reader (α × Bool)} [∀ a, Tame (step a)]

instance (n : Nat) (a : α) : Tame (iterate step n a) := by
  induction n generalizing a with
  | zero => exact inferInstanceAs (Tame (giveUp >>= fun _ => pure a))
  | succ n ih =>
    exact inferInstanceAs
      (Tame (step a >>= fun r => if r.2 then iterate step n r.1 else pure r.1))

instance (a : α) : Tame (loop step a) :=
  .mk fun s => (inferInstance : Tame (iterate step s.limit a)).later s

instance (p : Token.Kind → Bool) {step : α → Reader α} [∀ a, Calm n (step a)] (a : α) :
    Calm n (whileStep p step a) := by
  unfold whileStep
  infer_instance

instance (p : Token.Kind → Bool) {step : α → Reader α} [∀ a, Tame (step a)] (a : α) :
    Tame (loopWhile p step a) := by
  unfold loopWhile
  infer_instance

end Loops

/-! ### Reading what a rule allows -/

/-- **A reader reads only what a rule allows**: if it records no mistake, the tokens that it has
taken are a sequence of the rule, and it has built the tree of them. -/
def Reads (s : ReaderState) (x : Reader α) (L : List Token → α → Prop) : Prop :=
  (x s).2.errors.size = s.errors.size → ∃ ts, s.rest = ts ++ (x s).2.rest ∧ L ts (x s).1

variable {x : Reader α} {a : α} {b : β}

theorem Reads.pure (h : L [] a) : Reads s (pure a) L :=
  fun _ => ⟨[], rfl, h⟩

theorem Reads.imp {L M : List Token → α → Prop} (h : Reads s x L) (hLM : ∀ ts a, L ts a → M ts a) :
    Reads s x M := by
  intro hclean
  obtain ⟨ts, hts, hL⟩ := h hclean
  exact ⟨ts, hts, hLM _ _ hL⟩

theorem Reads.map {f : α → β} {M : List Token → β → Prop} (h : Reads s x L)
    (hLM : ∀ ts a, L ts a → M ts (f a)) : Reads s (x >>= fun a => Pure.pure (f a)) M := by
  intro hclean
  obtain ⟨ts, hts, hL⟩ := h hclean
  exact ⟨ts, hts, hLM _ _ hL⟩

/-- One reader after another. -/
theorem Reads.bind {N : List Token → β → Prop} [htame : Tame x] [hf : TameAfter f]
    (hx : Reads s x L)
    (h : ∀ a s' ts, s.Moved ts s' → L ts a → Reads s' (f a) fun us b => N (ts ++ us) b) :
    Reads s (x >>= f) N := by
  intro hclean
  rw [bind_apply] at hclean ⊢
  have hlater := htame.later s
  have hlater' := (hf.calm (x s).1).later (x s).2
  have hfirst : (x s).2.errors.size = s.errors.size :=
    Nat.le_antisymm (hclean ▸ hlater'.errors) hlater.errors
  obtain ⟨ts, hts, hL⟩ := hx hfirst
  obtain ⟨us, hus, hN⟩ := h _ _ ts ⟨hlater, hts, hfirst⟩ hL (hclean.trans hfirst.symm)
  exact ⟨ts ++ us, by rw [hts, hus, List.append_assoc], hN⟩

/-- First something is looked at. -/
theorem Reads.look {L : List Token → β → Prop} (hx : x s = (a, s)) (h : Reads s (f a) L) :
    Reads s (x >>= f) L := by
  intro hclean
  rw [bind_apply, hx] at hclean ⊢
  exact h hclean

/-- The kind of the next token is looked at. -/
theorem Reads.kind {f : Token.Kind → Reader α} (h : Reads s (f s.kind) L) :
    Reads s (kind >>= f) L := h

/-- The mistakes are counted. -/
theorem Reads.errorCount {f : Nat → Reader α} (h : Reads s (f s.errors.size) L) :
    Reads s (errorCount >>= f) L := h

section

variable (hs : s.rest = t :: rest) {L : List Token → α → Prop}

include hs

/-- A token is taken. -/
theorem Reads.take {x : Reader β} (hx : x s = (b, s.advance [t])) {f : β → Reader α}
    (h : Reads (s.advance [t]) (f b) fun us a => L (t :: us) a) : Reads s (x >>= f) L := by
  intro hclean
  rw [bind_apply, hx] at hclean ⊢
  obtain ⟨us, hus, hL⟩ := h hclean
  refine ⟨t :: us, ?_, hL⟩
  rw [ReaderState.rest_advance_cons hs] at hus
  rw [hs, hus]
  rfl

theorem Reads.skip {f : Unit → Reader α}
    (h : Reads (s.advance [t]) (f ()) fun us a => L (t :: us) a) :
    Reads s (skip >>= f) L := .take hs (skip_of_cons hs) h

theorem Reads.next {f : Token → Reader α}
    (h : Reads (s.advance [t]) (f t) fun us a => L (t :: us) a) :
    Reads s (next >>= f) L := .take hs (next_of_cons hs) h

end

/-- After a mistake nothing has to be said. -/
theorem Reads.report (cause : SyntaxError.Cause) {f : Unit → Reader α} [hf : Tame (f ())] :
    Reads s (report cause >>= f) L := by
  intro hclean
  rw [bind_apply] at hclean
  have hlater := (hf.later (Reader.report cause s).2).errors
  have hsize : (Reader.report cause s).2.errors.size = s.errors.size + 1 := Array.size_push _
  grind

/-- What has to come next comes next. -/
theorem Reads.expect (hready : s.Ready) (hk : k ≠ .endOfFile) :
    Reads s (expect k) fun ts t? => ∃ t, ts = [t] ∧ t? = some t ∧ t.kind = k := by
  refine Reads.kind ?_
  split
  case isTrue h =>
    obtain ⟨t, rest, hrest, ht⟩ := s.exists_cons_of_kind hready h hk
    exact Reads.next hrest (.pure ⟨t, rfl, rfl, ht⟩)
  case isFalse => exact Reads.report _

theorem Reads.accept (hready : s.Ready) (hk : k ≠ .endOfFile) :
    Reads s (accept k) fun ts taken => if taken then ∃ t, ts = [t] ∧ t.kind = k else ts = [] := by
  refine Reads.kind ?_
  split
  case isTrue h =>
    obtain ⟨t, rest, hrest, ht⟩ := s.exists_cons_of_kind hready h hk
    exact Reads.skip hrest (.pure ⟨t, rfl, ht⟩)
  case isFalse => exact .pure rfl

theorem Reads.expectIdentifier (hready : s.Ready) :
    Reads s expectIdentifier fun ts t? => ∃ t, ts = [t] ∧ t? = some t ∧ t.kind = .identifier := by
  refine Reads.kind ?_
  split
  case isTrue h =>
    obtain ⟨t, rest, hrest, ht⟩ := s.exists_cons_of_kind hready h (by decide)
    exact Reads.next hrest (.pure ⟨t, rfl, rfl, ht⟩)
  case isFalse => exact Reads.report _

section

variable {step : α → Reader (α × Bool)} [∀ a, Tame (step a)] {a : α}

/-- A loop reads what each of its turns adds, if each turn that asks for another takes a token. -/
theorem Reads.iterate {s₀ : ReaderState} {Inv Fin : List Token → α → Prop}
    (hstep : ∀ a s' ts, s₀.Moved ts s' → Inv ts a → Reads s' (step a) fun us r =>
      if r.2 then us ≠ [] ∧ Inv (ts ++ us) r.1 else Fin (ts ++ us) r.1)
    (n : Nat) (hmoved : s₀.Moved ts s) (hinv : Inv ts a)
    (hn : s.rest.length < n) : Reads s (iterate step n a) fun us b => Fin (ts ++ us) b := by
  induction n generalizing s a ts with
  | zero => cases hn
  | succ n ih =>
    refine Reads.bind (f := fun r => if r.2 then iterate step n r.1 else Pure.pure r.1)
      (hstep a s ts hmoved hinv) ?_
    rintro ⟨b, again⟩ s' us hmoved' hr
    cases again with
    | false =>
      refine .pure ?_
      rw [List.append_nil]
      exact hr
    | true =>
      obtain ⟨hne, hinv'⟩ := hr
      have hlt : s'.rest.length < n := by
        have hpos := List.length_pos_iff.2 hne
        rw [hmoved'.length] at hn
        omega
      refine (ih (hmoved.trans hmoved') hinv' hlt).imp ?_
      intro vs c hc
      rwa [List.append_assoc] at hc

theorem Reads.loop (Inv : List Token → α → Prop) (hready : s.Ready) {Fin : List Token → α → Prop}
    (hstep : ∀ a s' ts, s.Moved ts s' → Inv ts a → Reads s' (step a) fun us r => if r.2 then us ≠ []
      ∧ Inv (ts ++ us) r.1 else Fin (ts ++ us) r.1) (hinv : Inv [] a) : Reads s (loop step a) Fin :=
  Reads.iterate hstep s.limit (.refl s) hinv hready.limit

end

/-- A loop that goes on while the next token is of some kind. If it is at the start, something is
taken. -/
theorem Reads.loopWhile [∀ a, Tame (step a)] (hready : s.Ready) {Inv : List Token → α → Prop}
    (hstep : ∀ a s' ts, s.Moved ts s' → p s'.kind = true → Inv ts a → Reads s' (step a) fun us b =>
      us ≠ [] ∧ Inv (ts ++ us) b) {a : α} (hinv : Inv [] a) :
    Reads s (loopWhile p step a) fun ts b => Inv ts b ∧ (p s.kind = true → ts ≠ []) := by
  refine Reads.loop Inv hready ?_ hinv
  intro a s' ts hmoved hinv'
  refine Reads.kind ?_
  split
  case isTrue hp =>
    refine (hstep a s' ts hmoved hp hinv').bind ?_
    intro b s'' us _ hb
    refine .pure ?_
    rw [List.append_nil]
    exact hb
  case isFalse hp =>
    refine .pure ?_
    rw [List.append_nil]
    refine ⟨hinv', ?_⟩
    rintro hstart rfl
    rw [hmoved.kind_eq] at hstart
    exact hp hstart

/-! ### Taking a sequence of tokens -/

/-- **A reader takes a sequence of tokens**: it moves just behind it, builds its tree and records no
mistake. -/
def Takes (s : ReaderState) (x : Reader α) (ts : List Token) (a : α) : Prop :=
  x s = (a, s.advance ts)

theorem Takes.pure (a : α) : Takes s (pure a) [] a := rfl

theorem Takes.bind (hx : Takes s x ts a) (hf : Takes (s.advance ts) (f a) us b) :
    Takes s (x >>= f) (ts ++ us) b := by
  rw [Takes, bind_apply, hx, s.advance_append]
  exact hf

theorem Takes.map (hx : Takes s x ts a) (f : α → β) :
    Takes s (x >>= fun a => Pure.pure (f a)) ts (f a) := by
  rw [Takes, bind_apply, hx]
  rfl

theorem Takes.bind_nil (hx : Takes s x ts a) (hf : Takes (s.advance ts) (f a) [] b) :
    Takes s (x >>= f) ts b := by
  have hbind := hx.bind hf
  rwa [List.append_nil] at hbind

/-- First something is looked at. -/
theorem Takes.look (hx : x s = (a, s)) (h : Takes s (f a) ts b) : Takes s (x >>= f) ts b := by
  rw [Takes, bind_apply, hx]
  exact h

/-- The kind of the next token is looked at. -/
theorem Takes.kind {f : Token.Kind → Reader α} (h : Takes s (f s.kind) ts a) :
    Takes s (kind >>= f) ts a := h

section

variable (hs : s.rest = t :: rest)

include hs

theorem Takes.next : Takes s next [t] t := next_of_cons hs

theorem Takes.skip : Takes s skip [t] () := skip_of_cons hs

theorem Takes.expect (ht : t.kind = k) : Takes s (expect k) [t] (some t) := by
  refine Takes.kind ?_
  rw [if_pos ((s.kind_of_cons hs).trans ht)]
  exact (Takes.next hs).bind (.pure _)

theorem Takes.accept (ht : t.kind = k) : Takes s (accept k) [t] true := by
  refine Takes.kind ?_
  rw [if_pos ((s.kind_of_cons hs).trans ht)]
  exact (Takes.skip hs).map _

end

theorem Takes.refuse (hk : s.kind ≠ k) : Takes s (Reader.accept k) [] false := by
  refine Takes.kind ?_
  rw [if_neg hk]
  exact .pure _

theorem Takes.expectIdentifier (hs : s.rest = t :: rest) (ht : t.kind = .identifier) :
    Takes s expectIdentifier [t] (some t) := by
  refine Takes.kind ?_
  rw [if_pos ((s.kind_of_cons hs).trans ht)]
  exact (Takes.next hs).bind (.pure _)

/-- A loop has got to some point: it has taken some tokens and built something, and more turns than
tokens are left. -/
def Arrives (s : ReaderState) (x : Reader α) (step : α → Reader (α × Bool)) (ts : List Token)
    (a : α) : Prop :=
  ∃ n, (s.advance ts).rest.length < n ∧ x s = iterate step n a (s.advance ts)

theorem Arrives.loop (hready : s.Ready) (step : α → Reader (α × Bool)) (a : α) :
    Arrives s (loop step a) step [] a := ⟨s.limit, hready.limit, rfl⟩

/-- A loop that starts behind some tokens. -/
theorem Takes.arrives {x : Reader β} {f : β → Reader α} {step : α → Reader (α × Bool)}
    (hx : Takes s x ts b) (h : Arrives (s.advance ts) (f b) step [] a) :
    Arrives s (x >>= f) step ts a := by
  obtain ⟨n, hn, hf⟩ := h
  exact ⟨n, hn, by rw [bind_apply, hx]; exact hf⟩

section

variable {step : α → Reader (α × Bool)} {b : α} (h : Arrives s x step ts a)

include h

/-- One more turn of a loop. -/
theorem Arrives.turn (hus : us <+: (s.advance ts).rest) (hne : us ≠ [])
    (hstep : Takes (s.advance ts) (step a) us (b, true)) : Arrives s x step (ts ++ us) b := by
  obtain ⟨n, hn, hx⟩ := h
  have hpos := List.length_pos_iff.2 hne
  cases n with
  | zero => cases hn
  | succ n =>
    refine ⟨n, ?_, ?_⟩
    · rw [s.advance_append]
      rw [(s.advance ts).rest_eq_of_front hus, List.length_append] at hn
      omega
    · rw [hx, iterate, bind_apply, hstep, s.advance_append]
      rfl

/-- The last turn of a loop. -/
theorem Arrives.stop (hstep : Takes (s.advance ts) (step a) us (b, false)) :
    Takes s x (ts ++ us) b := by
  obtain ⟨n, hn, hx⟩ := h
  cases n with
  | zero => cases hn
  | succ n =>
    rw [Takes, hx, iterate, bind_apply, hstep, s.advance_append]
    rfl

theorem Arrives.done (hstep : Takes (s.advance ts) (step a) [] (b, false)) : Takes s x ts b := by
  have hstop := h.stop hstep
  rwa [List.append_nil] at hstop

end

/-- A loop takes what is repeated, if each turn takes one more of it. -/
theorem arrives_star {σ : Type} (step : σ → Reader (σ × Bool)) (f : List α → σ) (hready : s.Ready)
    (hne : ∀ us a, L us a → us ≠ [])
    (hstep : ∀ s' us as a, ReaderState.Ready s' → L us a → us <+: s'.rest →
      Takes s' (step (f as)) us (f (as ++ [a]), true))
    {as : List α} (h : Grammar.Star L ts as) (hs : ts <+: s.rest) :
    Arrives s (Reader.loop step (f [])) step ts (f as) := by
  induction h with
  | nil => exact Arrives.loop hready _ _
  | snoc h ha ih =>
    obtain ⟨hts, hus⟩ := ReaderState.front_of_append hs
    exact (ih hts).turn hus (hne _ _ ha) (hstep _ _ _ _ (hready.advance _) ha hus)

theorem Takes.whileStep {a b : α} (hp : p s.kind = true) (h : Takes s (step a) ts b) :
    Takes s (whileStep p step a) ts (b, true) := by
  refine Takes.kind ?_
  rw [if_pos hp, ← ts.append_nil]
  exact h.bind (.pure _)

theorem Takes.whileStop (step : α → Reader α) (a : α) (hp : p s.kind = false) :
    Takes s (Reader.whileStep p step a) [] (a, false) := by
  refine Takes.kind ?_
  rw [if_neg (by rw [hp]; exact Bool.false_ne_true)]
  exact .pure _

end Reader

end Smalltalk
