/-
**What is of the language is read.**

If the tokens of a source are a program of the grammar, they are read to their end without a
mistake, and the tree that is built is the one they spell. For each rule this needs to know what
comes after the tokens: an expression, say, is taken as a whole only if no further message follows.
What may come after a rule is seen from how the rules that can follow it start. Here this is done
for expressions and bodies.

* `Reader.takes_expression`, `Reader.takes_body` — **the readers take what the
  grammar allows**.
-/

import Smalltalk.Proofs.ParseSound
import Mathlib.Data.List.Induction

namespace Smalltalk

variable {p : Token.Kind → Bool} {us ds locals names : List Token} {k : Token.Kind}
  {st : Statement Unit} {s : ReaderState} {t : Token} {value : Literal}

/-! ### How sequences start -/

namespace Grammar

variable {ts : List Token} {e : Expr Unit} {sts : List (Statement Unit)} {α : Type} {as : List α}
  {q : Token.Kind → Bool}

/-- The sequence starts with a token of a certain kind. -/
def Starts (p : Token.Kind → Bool) (ts : List Token) : Prop :=
  ∃ t us, ts = t :: us ∧ p t.kind = true

/-- Does an expression start at a token of this kind? -/
def startsExpression (k : Token.Kind) : Bool :=
  k = .nilWord || k = .trueWord || k = .falseWord || k = .selfWord || k = .superWord ||
    k = .identifier || k = .number || k = .character || k = .string || k = .symbol ||
    k = .operator || k = .leftSquare || k = .leftCurly || k = .leftParen

/-- Does an expression go on at a token of this kind? -/
def continues (k : Token.Kind) : Bool := k = .identifier || k = .operator || k = .keyword

/-- The sequence starts as an expression does. After a variable there is a message or nothing. -/
def Opens (ts : List Token) : Prop :=
  ∃ t us, ts = t :: us ∧ startsExpression t.kind = true ∧
    (t.kind = .identifier → us = [] ∨ Starts continues us)

theorem Starts.cons (h : p t.kind = true) : Starts p (t :: us) := ⟨t, us, rfl, h⟩

theorem Starts.append (h : Starts p ts) (us : List Token) : Starts p (ts ++ us) := by
  obtain ⟨t, vs, rfl, ht⟩ := h
  exact ⟨t, vs ++ us, rfl, ht⟩

theorem Starts.ne_nil (h : Starts p ts) : ts ≠ [] := by
  obtain ⟨t, us, rfl, -⟩ := h
  exact List.cons_ne_nil _ _

theorem Starts.imp (h : Starts p ts) (hpq : ∀ k, p k = true → q k = true) : Starts q ts := by
  obtain ⟨t, us, rfl, ht⟩ := h
  exact ⟨t, us, rfl, hpq _ ht⟩

theorem Starts.kind (h : Starts p ts) (hs : ts <+: s.rest) : p s.kind = true := by
  obtain ⟨t, us, rfl, ht⟩ := h
  rw [s.kind_of_front hs]
  exact ht

/-- What is next is known, if it is known what comes after a sequence that may be empty. -/
theorem kind_of_follow (h : ts = [] ∨ Starts q ts) (hs : ts <+: s.rest)
    (hpq : ∀ k, q k = true → p k = true) (hend : p (s.advance ts).kind = true) :
    p s.kind = true := by
  rcases h with rfl | hstarts
  · exact hend
  · exact hpq _ (hstarts.kind hs)

theorem Opens.cons (us : List Token) (h : startsExpression t.kind = true)
    (hne : t.kind ≠ .identifier) : Opens (t :: us) :=
  ⟨t, us, rfl, h, fun hk => absurd hk hne⟩

theorem Opens.append (h : Opens ts) (hus : Starts continues us) : Opens (ts ++ us) := by
  obtain ⟨t, vs, rfl, ht, hvs⟩ := h
  refine ⟨t, vs ++ us, rfl, ht, ?_⟩
  intro hk
  rcases hvs hk with rfl | hvs
  · exact .inr hus
  · exact .inr (hvs.append us)

theorem Opens.starts (h : Opens ts) : Starts startsExpression ts := by
  obtain ⟨t, us, rfl, ht, -⟩ := h
  exact ⟨t, us, rfl, ht⟩

theorem Atom.starts (h : Atom t value) : startsExpression t.kind = true ∧ t.kind ≠ .identifier := by
  cases h with
  | nilWord hk | trueWord hk | falseWord hk | selfWord hk | number hk | character hk | string hk
  | symbol hk =>
    rw [hk]
    decide

theorem Primary.opens (h : Primary ts e) : Opens ts := by
  cases h with
  | literal h => exact .cons _ h.starts.1 h.starts.2
  | name h => exact ⟨_, [], rfl, by rw [h]; decide, fun _ => .inl rfl⟩
  | negative h | superWord h | block h | function h | bare h | array h | group h =>
    exact .cons _ (by rw [h]; decide) (by rw [h]; decide)

theorem Unary.opens {ts : List Token} {e : Expr Unit} : Unary ts e → Opens ts
  | .primary h => h.opens
  | .send h hselector => h.opens.append (.cons (by rw [hselector]; decide))

theorem Binary.opens {ts : List Token} {e : Expr Unit} : Binary ts e → Opens ts
  | .unary h => h.opens
  | .send h hoperator _ => h.opens.append (.cons (by rw [hoperator]; decide))

theorem Parts.eq_nil_or_starts {ts keywords : List Token} {arguments : List (Expr Unit)} :
    Parts ts keywords arguments → ts = [] ∨ Starts (· = .keyword) ts
  | .nil => .inl rfl
  | .snoc h hkeyword _ => by
    rcases h.eq_nil_or_starts with rfl | hstarts
    · exact .inr (.cons (decide_eq_true hkeyword))
    · exact .inr (hstarts.append _)

theorem Parts.starts {keywords : List Token} {arguments : List (Expr Unit)}
    (h : Parts ts keywords arguments) (hsome : keywords ≠ []) : Starts (· = .keyword) ts := by
  cases h with
  | nil => exact absurd rfl hsome
  | snoc h hkeyword hargument =>
    exact (Parts.snoc h hkeyword hargument).eq_nil_or_starts.resolve_left (by simp)

theorem Expression.opens (h : Expression ts e) : Opens ts := by
  cases h with
  | binary h => exact h.opens
  | keyword h hparts hsome =>
    refine h.opens.append ((hparts.starts hsome).imp ?_)
    intro k hk
    rw [of_decide_eq_true hk]
    decide

/-- Does a statement start at a token of this kind? -/
def startsSentence (k : Token.Kind) : Bool := startsExpression k || k = .caret

theorem Sentence.starts (h : Sentence ts st) : Starts startsSentence ts := by
  cases h with
  | assignment htarget => exact .cons (by rw [htarget]; decide)
  | answer hcaret => exact .cons (by rw [hcaret]; decide)
  | expression he =>
    refine he.opens.starts.imp ?_
    intro k hk
    rw [startsSentence, hk]
    rfl

theorem Sentences.eq_nil_or_starts {ts : List Token} {sts : List (Statement Unit)} :
    Sentences ts sts → ts = [] ∨ Starts startsSentence ts
  | .nil => .inl rfl
  | .snoc h hst _ _ => by
    rcases h.eq_nil_or_starts with rfl | hstarts
    · exact .inr (hst.starts.append _)
    · exact .inr (hstarts.append _)

theorem Statements.eq_nil_or_starts (h : Statements ts sts) :
    ts = [] ∨ Starts startsSentence ts := by
  cases h with
  | closed h => exact h.eq_nil_or_starts
  | last h hst =>
    rcases h.eq_nil_or_starts with rfl | hstarts
    · exact .inr hst.starts
    · exact .inr (hstarts.append _)

theorem Contents.eq_nil_or_starts (h : Contents ts locals sts) :
    ts = [] ∨ Starts (fun k => k = .pipe || startsSentence k) ts := by
  obtain ⟨hlocals, hsts⟩ := h
  cases hlocals with
  | none =>
    refine hsts.eq_nil_or_starts.imp id fun hstarts => hstarts.imp fun k hk => ?_
    rw [hk, Bool.or_true]
  | bars hopening => exact .inr (.cons (by rw [hopening]; rfl))

theorem Terminal.ne_nil (h : Terminal k ts t) : ts ≠ [] := by
  cases h
  exact List.cons_ne_nil _ _

section

variable {L : List Token → α → Prop} (hL : ∀ us a, L us a → Starts p us) (h : Star L ts as)

include hL h

/-- What is repeated starts as each of its parts does. -/
theorem Star.eq_nil_or_starts : ts = [] ∨ Starts p ts := by
  induction h with
  | nil => exact .inl rfl
  | snoc h ha ih =>
    rcases ih with rfl | hstarts
    · exact .inr (hL _ _ ha)
    · exact .inr (hstarts.append _)

theorem Star.starts (hsome : as ≠ []) : Starts p ts := by
  cases h with
  | nil => exact absurd rfl hsome
  | snoc h ha =>
    rcases h.eq_nil_or_starts hL with rfl | hstarts
    · exact hL _ _ ha
    · exact hstarts.append _

end

theorem Parameter.starts {name : Token} (h : Parameter ts name) : Starts (· = .colon) ts := by
  obtain ⟨hcolon, -⟩ := h
  exact .cons (decide_eq_true hcolon)

theorem star_terminal_iff : Star (Terminal k) ts ds ↔ ts = ds ∧ ∀ t ∈ ts, t.kind = k := by
  constructor
  · intro h
    induction h with
    | nil => exact ⟨rfl, fun _ h => absurd h List.not_mem_nil⟩
    | snoc h ha ih =>
      obtain ⟨ht⟩ := ha
      grind
  · rintro ⟨rfl, hall⟩
    induction ts using List.reverseRecOn with
    | nil => exact .nil
    | append_singleton ts t ih =>
      refine .snoc (ih fun u hu => hall u (List.mem_append_left _ hu)) (.mk ?_)
      exact hall t (List.mem_append_right _ List.mem_cons_self)

end Grammar

open Grammar

namespace Reader

variable {ts : List Token}

theorem current_of_front (hs : t :: us <+: s.rest) : current s = (t, s) := by
  rw [current_apply, (s.front_of_cons hs).1]
  rfl

/-! ### Names -/

theorem takes_takeWhileKind (hready : s.Ready) (h : Star (Terminal k) ts names) (hs : ts <+: s.rest)
    (hend : (s.advance ts).kind ≠ k) : Takes s (takeWhileKind k) ts names := by
  have harrives := arrives_star (whileStep (· = k) tokenStep) List.toArray hready
    (fun _ _ => Terminal.ne_nil) ?_ h hs
  · exact (harrives.done (Takes.whileStop _ _ (decide_eq_false hend))).map Array.toList
  · rintro s' _ as t _ ⟨ht⟩ hus
    rw [← List.push_toArray]
    exact Takes.whileStep (decide_eq_true ((ReaderState.kind_of_front hus).trans ht))
      ((Takes.next (ReaderState.front_of_cons hus).1).map _)

theorem takes_dots (hready : s.Ready) (h : Star (Terminal .dot) ts ds) (hs : ts <+: s.rest)
    (hend : (s.advance ts).kind ≠ .dot) :
    Takes s (loopWhile (· = .dot) (fun _ => skip) ()) ts () := by
  have harrives := arrives_star (whileStep (· = .dot) fun _ => skip) (fun _ => ()) hready
    (fun _ _ => Terminal.ne_nil) ?_ h hs
  · exact harrives.done (Takes.whileStop _ _ (decide_eq_false hend))
  · rintro s' _ as t _ ⟨ht⟩ hus
    exact Takes.whileStep (decide_eq_true ((ReaderState.kind_of_front hus).trans ht))
      (Takes.skip (ReaderState.front_of_cons hus).1)

/-- Variables are taken if no bar follows them. -/
theorem takes_optionalDeclarations (hready : s.Ready) (h : Variables ts names) (hs : ts <+: s.rest)
    (hend : (s.advance ts).kind ≠ .pipe) : Takes s optionalDeclarations ts names := by
  cases h with
  | none =>
    rw [s.advance_nil] at hend
    refine Takes.kind ?_
    rw [if_neg hend]
    exact .pure _
  | @bars opening closing us _ hopening hnames hclosing =>
    obtain ⟨hfirst, hs'⟩ := s.front_of_cons hs
    obtain ⟨hus, hlast⟩ := ReaderState.front_of_append hs'
    have hkind := ReaderState.kind_of_front hlast
    refine Takes.kind ?_
    rw [if_pos ((s.kind_of_front hs).trans hopening)]
    refine (Takes.skip hfirst).bind ?_
    refine (takes_takeWhileKind (hready.advance _) hnames hus ?_).bind ?_
    · rw [hkind, hclosing]
      decide
    · exact (Takes.expect (ReaderState.front_of_cons hlast).1 hclosing).map _

/-! ### Bodies -/

/-- Does a statement end at a token of this kind? -/
def endsSentence (k : Token.Kind) : Bool := k = .dot || endsBody k

theorem continues_of_endsSentence (h : endsSentence k = true) : continues k = false := by
  revert h
  cases k <;> decide

/-- The reader takes expressions of fewer than so many tokens, if no further message follows. -/
def TakesWithin (n : Nat) (expr : Reader (Expr Unit)) : Prop :=
  ∀ (s : ReaderState) (ts : List Token) (e : Expr Unit), s.Ready → Expression ts e → ts <+: s.rest →
    ts.length < n → continues (s.advance ts).kind = false → Takes s expr ts e

section Nested

variable {n : Nat} {nested : Reader (Expr Unit)} {ts ps : List Token} {e : Expr Unit}
  {sts : List (Statement Unit)} {closing opening : Token} {items : List (Expr Unit)}

/-- A statement that is an expression is not taken for an assignment. -/
theorem not_assignment (he : Expression ts e) (hs : ts <+: s.rest)
    (hend : endsSentence (s.advance ts).kind = true) :
    ¬(s.kind = .identifier ∧ (s.rest[1]?.getD s.atEnd).kind = .assign) := by
  rintro ⟨hk, hpeek⟩
  obtain ⟨t, us, rfl, -, hus⟩ := he.opens
  obtain ⟨hfirst, hs'⟩ := s.front_of_cons hs
  rw [← s.kind_advance hfirst] at hpeek
  rcases hus ((s.kind_of_front hs).symm.trans hk) with rfl | hstarts
  · rw [hpeek] at hend
    cases hend
  · have hcontinues := hstarts.kind hs'
    rw [hpeek] at hcontinues
    cases hcontinues

section

variable (hready : s.Ready) (h : TakesWithin n nested) (hst : Sentence ts st) (hs : ts <+: s.rest)
  (hn : ts.length < n) (hend : endsSentence (s.advance ts).kind = true)

include hready h hst hs hn hend

theorem takes_sentence : Takes s (sentence nested) ts st := by
  refine Takes.kind (Takes.look (peekKind_apply s) ?_)
  cases hst with
  | assignment htarget hsign he =>
    obtain ⟨hfirst, hs'⟩ := s.front_of_cons hs
    obtain ⟨hsecond, hs''⟩ := ReaderState.front_of_cons hs'
    rw [s.advance_cons, ReaderState.advance_cons] at hend
    have hpeek := (s.kind_advance hfirst).symm.trans ((ReaderState.kind_of_front hs').trans hsign)
    rw [if_pos (by rw [hpeek, (s.kind_of_front hs).trans htarget]; decide)]
    refine (Takes.next hfirst).bind ((Takes.skip hsecond).bind ?_)
    refine (h _ _ _ ((hready.advance _).advance _) he hs'' ?_ ?_).map _
    · simp only [List.length_cons] at hn
      omega
    · exact continues_of_endsSentence hend
  | answer hcaret he =>
    obtain ⟨hfirst, hs'⟩ := s.front_of_cons hs
    have hk := (s.kind_of_front hs).trans hcaret
    rw [s.advance_cons] at hend
    rw [if_neg (by rw [hk]; simp), if_pos hk]
    refine (Takes.next hfirst).bind ?_
    refine (h _ _ _ (hready.advance _) he hs' ?_ (continues_of_endsSentence hend)).map _
    simp only [List.length_cons] at hn
    omega
  | expression he =>
    have hk : s.kind ≠ .caret := by
      intro hk
      have hstarts := he.opens.starts.kind hs
      rw [hk] at hstarts
      cases hstarts
    rw [if_neg (by simpa using not_assignment he hs hend), if_neg hk]
    exact (h s _ _ hready he hs hn (continues_of_endsSentence hend)).map _

theorem takes_statement : Takes s (statement nested) ts st := by
  rw [statement]
  refine Takes.look (a := s.errors.size) rfl ?_
  refine (takes_sentence hready h hst hs hn hend).bind_nil ?_
  refine Takes.look (a := s.errors.size) rfl ?_
  rw [if_neg (Nat.lt_irrefl _)]
  exact .pure _

end

theorem endsBody_of_startsSentence (h : startsSentence k = true) : endsBody k = false := by
  revert h
  cases k <;> decide

/-- A statement and the points behind it. -/
theorem takes_bodyStep {dots : List Token} (read : Array (Statement Unit)) (hready : s.Ready)
    (h : TakesWithin n nested) (hst : Sentence ts st) (hdots : Star (Terminal .dot) dots ds)
    (hsome : ds ≠ []) (hs : ts ++ dots <+: s.rest) (hn : (ts ++ dots).length < n)
    (hend : (s.advance (ts ++ dots)).kind ≠ .dot) :
    Takes s (bodyStep nested read) (ts ++ dots) (read.push st, true) := by
  obtain ⟨hts, hs'⟩ := s.front_of_append hs
  rw [s.advance_append] at hend
  rw [List.length_append] at hn
  obtain ⟨rfl, hall⟩ := star_terminal_iff.1 hdots
  cases dots with
  | nil => exact absurd rfl hsome
  | cons dot dots =>
    have hdot : dot.kind = .dot := hall dot List.mem_cons_self
    have hrest : Star (Terminal .dot) dots dots :=
      star_terminal_iff.2 ⟨rfl, fun t ht => hall t (List.mem_cons_of_mem _ ht)⟩
    obtain ⟨hfirst, hs''⟩ := ReaderState.front_of_cons hs'
    rw [ReaderState.advance_cons] at hend
    have hk := (ReaderState.kind_of_front hs').trans hdot
    refine Takes.kind ?_
    rw [if_neg (by rw [endsBody_of_startsSentence (hst.starts.kind hts)]; decide)]
    refine (takes_statement hready h hst hts (by omega) (by rw [hk]; rfl)).bind ?_
    refine (Takes.accept hfirst hdot).bind ?_
    exact (takes_dots ((hready.advance _).advance _) hrest hs'' hend).map _

theorem arrives_sentences (hready : s.Ready) (h : TakesWithin n nested) {ts : List Token}
    {sts : List (Statement Unit)} : Sentences ts sts → ts <+: s.rest → ts.length < n →
    (s.advance ts).kind ≠ .dot →
    Arrives s (loop (bodyStep nested) #[]) (bodyStep nested) ts sts.toArray
  | .nil, _, _, _ => Arrives.loop hready _ _
  | @Sentences.snoc _ _ dots _ _ _ hsts hst hdots hsome, hs, hn, hend => by
    obtain ⟨hts, hus⟩ := s.front_of_append hs
    rw [s.advance_append] at hend
    rw [List.length_append] at hn
    have hstarts := hst.starts.append dots
    have harrives := arrives_sentences hready h hsts hts (by omega) ?_
    · rw [← List.push_toArray]
      refine harrives.turn hus hstarts.ne_nil ?_
      exact takes_bodyStep _ (hready.advance _) h hst hdots hsome hus (by omega) hend
    · intro hk
      have hkind := hstarts.kind hus
      rw [hk] at hkind
      cases hkind

/-- The statements of a body are taken if the body ends behind them. -/
theorem takes_statements (hready : s.Ready) (h : TakesWithin n nested) (hsts : Statements ts sts)
    (hs : ts <+: s.rest) (hn : ts.length < n) (hend : endsBody (s.advance ts).kind = true) :
    Takes s (loop (bodyStep nested) #[]) ts sts.toArray := by
  have hdot : (s.advance ts).kind ≠ .dot := by
    intro hk
    rw [hk] at hend
    cases hend
  cases hsts with
  | closed hsts =>
    refine (arrives_sentences hready h hsts hs hn hdot).done ?_
    refine Takes.kind ?_
    rw [if_pos hend]
    exact .pure _
  | last hsts hst =>
    obtain ⟨hts, hus⟩ := s.front_of_append hs
    rw [s.advance_append] at hend hdot
    rw [List.length_append] at hn
    have hkind := hst.starts.kind hus
    refine (arrives_sentences hready h hsts hts (by omega) ?_).stop ?_
    · intro hk
      rw [hk] at hkind
      cases hkind
    · refine Takes.kind ?_
      rw [if_neg (by rw [endsBody_of_startsSentence hkind]; decide)]
      refine (takes_statement (hready.advance _) h hst hus (by omega) ?_).bind_nil ?_
      · rw [endsSentence, hend, Bool.or_true]
      · rw [← List.push_toArray]
        exact (Takes.refuse hdot).bind (.pure _)

/-- A body is taken if it ends. -/
theorem takes_body (hready : s.Ready) (h : TakesWithin n nested) (hbody : Contents ts locals sts)
    (hs : ts <+: s.rest) (hn : ts.length < n) (hend : endsBody (s.advance ts).kind = true) :
    Takes s (body nested) ts ⟨locals, sts⟩ := by
  obtain ⟨hlocals, hsts⟩ := hbody
  obtain ⟨hvs, hus⟩ := s.front_of_append hs
  rw [s.advance_append] at hend
  rw [List.length_append] at hn
  rw [body]
  have hpipe : (decide ((s.advance _).kind ≠ .pipe)) = true :=
    kind_of_follow (p := fun k => decide (k ≠ .pipe)) hsts.eq_nil_or_starts hus
      (by intro k; cases k <;> decide) (by
        revert hend
        generalize (ReaderState.advance _ _).kind = k
        cases k <;> decide)
  refine (takes_optionalDeclarations hready hlocals hvs (of_decide_eq_true hpipe)).bind ?_
  exact (takes_statements (hready.advance _) h hsts hus (by omega) hend).map _

/-! ### Expressions -/

theorem takes_blockRest (opening : Token) (names : List Token) (hready : s.Ready)
    (h : TakesWithin n nested) (hbody : Contents ts locals sts)
    (hclosing : closing.kind = .rightSquare) (hs : ts ++ [closing] <+: s.rest) (hn : ts.length < n) :
    Takes s (blockRest nested opening names) (ts ++ [closing])
      (.block opening names locals sts (some closing) ()) := by
  obtain ⟨hts, hlast⟩ := s.front_of_append hs
  have hk := (ReaderState.kind_of_front hlast).trans hclosing
  refine (takes_body hready h hbody hts hn (by rw [hk]; rfl)).bind ?_
  exact (Takes.expect (ReaderState.front_of_cons hlast).1 hclosing).map _

theorem takes_parameters (hready : s.Ready) (h : Star Parameter ts names) (hs : ts <+: s.rest)
    (hend : (s.advance ts).kind ≠ .colon) :
    Takes s (loopWhile (· = .colon) parameterStep #[]) ts names.toArray := by
  have harrives := arrives_star (whileStep (· = .colon) parameterStep) List.toArray hready
    ?_ ?_ h hs
  · exact harrives.done (Takes.whileStop _ _ (decide_eq_false hend))
  · exact fun _ _ hparameter => hparameter.starts.ne_nil
  · rintro s' _ as name hready' ⟨hcolon, hname⟩ hus
    obtain ⟨hfirst, hus'⟩ := s'.front_of_cons hus
    rw [← List.push_toArray]
    refine Takes.whileStep (decide_eq_true ((s'.kind_of_front hus).trans hcolon)) ?_
    refine (Takes.skip hfirst).bind ?_
    refine (Takes.expectIdentifier (ReaderState.front_of_cons hus').1 hname).bind_nil ?_
    exact .pure _

theorem takes_block (hready : s.Ready) (h : TakesWithin n nested) (hbody : Contents ts locals sts)
    (hclosing : closing.kind = .rightSquare) (hs : opening :: (ts ++ [closing]) <+: s.rest)
    (hn : ts.length < n) : Takes s (block nested) (opening :: (ts ++ [closing]))
      (.block opening [] locals sts (some closing) ()) := by
  obtain ⟨hfirst, hs'⟩ := s.front_of_cons hs
  obtain ⟨hts, hlast⟩ := ReaderState.front_of_append hs'
  have hend := (ReaderState.kind_of_front hlast).trans hclosing
  have hcolon : decide ((s.advance [opening]).kind ≠ .colon) = true :=
    kind_of_follow (p := fun k => decide (k ≠ .colon)) hbody.eq_nil_or_starts hts
      (by intro k; cases k <;> decide) (by rw [hend]; rfl)
  rw [block]
  refine (Takes.next hfirst).bind (Takes.kind ?_)
  rw [if_neg (of_decide_eq_true hcolon)]
  exact takes_blockRest _ _ (hready.advance _) h hbody hclosing hs' hn

/-- The parameters of a block, and what follows them. -/
theorem takes_block_of_parameters (hready : s.Ready) (hparameters : Star Parameter ps names)
    (hsome : names ≠ []) (hs : opening :: (ps ++ us) <+: s.rest)
    (hend : ((s.advance [opening]).advance ps).kind ≠ .colon)
    (hrest : Takes ((s.advance [opening]).advance ps)
      (kind >>= fun k =>
        if k ≠ .rightSquare then expect .pipe >>= fun _ => blockRest nested opening names
        else blockRest nested opening names) us e) :
    Takes s (block nested) (opening :: (ps ++ us)) e := by
  obtain ⟨hfirst, hs'⟩ := s.front_of_cons hs
  obtain ⟨hps, hus⟩ := ReaderState.front_of_append hs'
  have hcolon :=
    of_decide_eq_true ((hparameters.starts (fun _ _ => Parameter.starts) hsome).kind hps)
  rw [block]
  refine (Takes.next hfirst).bind (Takes.kind ?_)
  rw [if_pos hcolon]
  exact (takes_parameters (hready.advance _) hparameters hps hend).bind hrest

theorem takes_function {bar : Token} (hready : s.Ready) (h : TakesWithin n nested)
    (hparameters : Star Parameter ps names) (hsome : names ≠ []) (hbar : bar.kind = .pipe)
    (hbody : Contents ts locals sts) (hclosing : closing.kind = .rightSquare)
    (hs : opening :: (ps ++ bar :: (ts ++ [closing])) <+: s.rest) (hn : ts.length < n) :
    Takes s (block nested) (opening :: (ps ++ bar :: (ts ++ [closing])))
      (.block opening names locals sts (some closing) ()) := by
  have hbar' := (ReaderState.front_of_append (s.front_of_cons hs).2).2
  obtain ⟨hfirst, hs'⟩ := ReaderState.front_of_cons hbar'
  have hk := (ReaderState.kind_of_front hbar').trans hbar
  refine takes_block_of_parameters hready hparameters hsome hs (by rw [hk]; decide) ?_
  refine Takes.kind ?_
  rw [if_pos (by rw [hk]; decide)]
  refine (Takes.expect hfirst hbar).bind ?_
  exact takes_blockRest _ _ (((hready.advance _).advance _).advance _) h hbody hclosing hs' hn

theorem takes_bare (hready : s.Ready) (hparameters : Star Parameter ps names) (hsome : names ≠ [])
    (hclosing : closing.kind = .rightSquare) (hs : opening :: (ps ++ [closing]) <+: s.rest) :
    Takes s (block nested) (opening :: (ps ++ [closing]))
      (.block opening names [] [] (some closing) ()) := by
  have hlast := (ReaderState.front_of_append (s.front_of_cons hs).2).2
  have hk := (ReaderState.kind_of_front hlast).trans hclosing
  have hready' := (hready.advance [opening]).advance ps
  refine takes_block_of_parameters hready hparameters hsome hs (by rw [hk]; decide) ?_
  refine Takes.kind ?_
  rw [if_neg (by rw [hk]; decide)]
  refine Takes.look (takes_body_of_rightSquare hready' hk nested) ?_
  exact (Takes.expect (ReaderState.front_of_cons hlast).1 hclosing).map _

theorem not_endsItems (h : startsExpression k = true) :
    ¬(k = .rightCurly || k = .endOfFile) = true := by
  revert h
  cases k <;> decide

theorem arrives_elements (hready : s.Ready) (h : TakesWithin n nested) {ts : List Token}
    {items : List (Expr Unit)} : Elements ts items → ts <+: s.rest → ts.length ≤ n →
    Arrives s (loop (itemStep nested) #[]) (itemStep nested) ts items.toArray
  | .nil, _, _ => Arrives.loop hready _ _
  | .snoc hitems he hdot, hs, hn => by
    obtain ⟨hts, hus⟩ := s.front_of_append hs
    obtain ⟨hus', hlast⟩ := ReaderState.front_of_append hus
    have hk := (ReaderState.kind_of_front hlast).trans hdot
    rw [List.length_append, List.length_append, List.length_singleton] at hn
    rw [← List.push_toArray]
    refine (arrives_elements hready h hitems hts (by omega)).turn hus (by simp) (Takes.kind ?_)
    rw [if_neg (not_endsItems (he.opens.starts.kind hus'))]
    refine (h _ _ _ (hready.advance _) he hus' (by omega) (by rw [hk]; rfl)).bind ?_
    exact (Takes.accept (ReaderState.front_of_cons hlast).1 hdot).map _

theorem takes_items (hready : s.Ready) (h : TakesWithin n nested) (hitems : Items ts items)
    (hs : ts <+: s.rest) (hn : ts.length < n) (hend : (s.advance ts).kind = .rightCurly) :
    Takes s (loop (itemStep nested) #[]) ts items.toArray := by
  cases hitems with
  | closed hitems =>
    refine (arrives_elements hready h hitems hs (Nat.le_of_lt hn)).done (Takes.kind ?_)
    rw [if_pos (by rw [hend]; rfl)]
    exact .pure _
  | last hitems he =>
    obtain ⟨hts, hus⟩ := s.front_of_append hs
    rw [s.advance_append] at hend
    rw [List.length_append] at hn
    rw [← List.push_toArray]
    refine (arrives_elements hready h hitems hts (by omega)).stop (Takes.kind ?_)
    rw [if_neg (not_endsItems (he.opens.starts.kind hus))]
    refine (h _ _ _ (hready.advance _) he hus (by omega) (by rw [hend]; rfl)).bind_nil ?_
    exact (Takes.refuse (by rw [hend]; decide)).map _

theorem takes_array (hready : s.Ready) (h : TakesWithin n nested) (hitems : Items ts items)
    (hclosing : closing.kind = .rightCurly) (hs : opening :: (ts ++ [closing]) <+: s.rest)
    (hn : ts.length < n) : Takes s (array nested) (opening :: (ts ++ [closing]))
      (.array opening items (some closing)) := by
  obtain ⟨hfirst, hs'⟩ := s.front_of_cons hs
  obtain ⟨hts, hlast⟩ := ReaderState.front_of_append hs'
  have hend := (ReaderState.kind_of_front hlast).trans hclosing
  refine (Takes.next hfirst).bind ?_
  refine (takes_items (hready.advance _) h hitems hts hn hend).bind ?_
  exact (Takes.expect (ReaderState.front_of_cons hlast).1 hclosing).map _

theorem takes_group (hready : s.Ready) (h : TakesWithin n nested) (he : Expression ts e)
    (hclosing : closing.kind = .rightParen) (hs : opening :: (ts ++ [closing]) <+: s.rest)
    (hn : ts.length < n) :
    Takes s (group nested) (opening :: (ts ++ [closing])) (.group opening e (some closing)) := by
  obtain ⟨hfirst, hs'⟩ := s.front_of_cons hs
  obtain ⟨hts, hlast⟩ := ReaderState.front_of_append hs'
  have hend := (ReaderState.kind_of_front hlast).trans hclosing
  refine (Takes.next hfirst).bind ?_
  refine (h _ _ _ (hready.advance _) he hts hn (by rw [hend]; rfl)).bind ?_
  exact (Takes.expect (ReaderState.front_of_cons hlast).1 hclosing).map _

theorem takes_negative {sign number : Token} (hminus : sign.text = "-")
    (hnumber : number.kind = .number) (hadjacent : number.start = sign.stop)
    (hvalue : Number true number value) (hs : [sign, number] <+: s.rest) :
    Takes s (isNegativeNumber >>= fun negative =>
      if negative then negativeNumber else failed .expectedExpression) [sign, number]
      (.literal sign number value) := by
  obtain ⟨hfirst, hs'⟩ := s.front_of_cons hs
  obtain ⟨hsecond, -⟩ := ReaderState.front_of_cons hs'
  have hnegative : startsNegative s.rest = true := by
    rw [hfirst, hsecond, startsNegative, hminus, hnumber, hadjacent]
    simp
  refine Takes.look (isNegativeNumber_apply s) ?_
  rw [if_pos hnegative]
  refine (Takes.next hfirst).bind (Takes.look (current_of_front hs') ?_)
  rw [numberLiteral?_eq_some_iff.2 hvalue]
  exact (Takes.next hsecond).map _

theorem takes_single (hs : [t] <+: s.rest) : Takes s (single e) [t] e :=
  (Takes.skip (s.front_of_cons hs).1).map _

theorem takes_literal (h : Atom t value) (hs : [t] <+: s.rest) :
    Takes s (primary nested) [t] (.literal t t value) := by
  refine Takes.look (current_of_front hs) ?_
  dsimp only
  cases h with
  | nilWord hk | trueWord hk | falseWord hk | selfWord hk | character hk | string hk | symbol hk =>
    rw [hk]
    exact takes_single hs
  | number hk hvalue =>
    rw [hk]
    dsimp only
    rw [numberLiteral?_eq_some_iff.2 hvalue]
    exact takes_single hs

theorem takes_primary (hready : s.Ready) (h : TakesWithin n nested) (he : Primary ts e)
    (hs : ts <+: s.rest) (hn : ts.length ≤ n) : Takes s (primary nested) ts e := by
  cases he with
  | literal hatom => exact takes_literal hatom hs
  | negative hk hminus hnumber hadjacent hvalue =>
    refine Takes.look (current_of_front hs) ?_
    dsimp only
    rw [hk]
    exact takes_negative hminus hnumber hadjacent hvalue hs
  | superWord hk | name hk =>
    refine Takes.look (current_of_front hs) ?_
    dsimp only
    rw [hk]
    exact takes_single hs
  | block hk hbody hclosing =>
    refine Takes.look (current_of_front hs) ?_
    dsimp only
    rw [hk]
    refine takes_block hready h hbody hclosing hs ?_
    simp only [List.length_cons, List.length_append] at hn
    omega
  | function hk hparameters hsome hbar hbody hclosing =>
    refine Takes.look (current_of_front hs) ?_
    dsimp only
    rw [hk]
    refine takes_function hready h hparameters hsome hbar hbody hclosing hs ?_
    simp only [List.length_cons, List.length_append] at hn
    omega
  | bare hk hparameters hsome hclosing =>
    refine Takes.look (current_of_front hs) ?_
    dsimp only
    rw [hk]
    exact takes_bare hready hparameters hsome hclosing hs
  | array hk hitems hclosing =>
    refine Takes.look (current_of_front hs) ?_
    dsimp only
    rw [hk]
    refine takes_array hready h hitems hclosing hs ?_
    simp only [List.length_cons, List.length_append] at hn
    omega
  | group hk he hclosing =>
    refine Takes.look (current_of_front hs) ?_
    dsimp only
    rw [hk]
    refine takes_group hready h he hclosing hs ?_
    simp only [List.length_cons, List.length_append] at hn
    omega

theorem arrives_unary (hready : s.Ready) (h : TakesWithin n nested) {ts : List Token}
    {e : Expr Unit} : Unary ts e → ts <+: s.rest → ts.length ≤ n →
    Arrives s (unary nested) (whileStep (· = .identifier) selectorStep) ts e
  | .primary he, hs, hn =>
    (takes_primary hready h he hs hn).arrives (Arrives.loop (hready.advance _) _ _)
  | .send he hselector, hs, hn => by
    obtain ⟨hts, hus⟩ := s.front_of_append hs
    rw [List.length_append] at hn
    refine (arrives_unary hready h he hts (by omega)).turn hus (List.cons_ne_nil _ _) ?_
    refine Takes.whileStep ?_ ((Takes.next (ReaderState.front_of_cons hus).1).map _)
    exact decide_eq_true ((ReaderState.kind_of_front hus).trans hselector)

theorem takes_unary (hready : s.Ready) (h : TakesWithin n nested) (he : Unary ts e)
    (hs : ts <+: s.rest) (hn : ts.length ≤ n) (hend : (s.advance ts).kind ≠ .identifier) :
    Takes s (unary nested) ts e :=
  (arrives_unary hready h he hs hn).done (Takes.whileStop _ _ (decide_eq_false hend))

theorem arrives_binary (hready : s.Ready) (h : TakesWithin n nested) {ts : List Token}
    {e : Expr Unit} : Binary ts e → ts <+: s.rest → ts.length ≤ n →
    (s.advance ts).kind ≠ .identifier →
    Arrives s (binary nested) (whileStep (· = .operator) (operatorStep nested)) ts e
  | .unary he, hs, hn, hend =>
    (takes_unary hready h he hs hn hend).arrives (Arrives.loop (hready.advance _) _ _)
  | .send he hoperator hargument, hs, hn, hend => by
    obtain ⟨hts, hus⟩ := s.front_of_append hs
    obtain ⟨hfirst, hus'⟩ := ReaderState.front_of_cons hus
    have hk := (ReaderState.kind_of_front hus).trans hoperator
    rw [s.advance_append, ReaderState.advance_cons] at hend
    rw [List.length_append, List.length_cons] at hn
    refine (arrives_binary hready h he hts (by omega) (by rw [hk]; decide)).turn hus
      (List.cons_ne_nil _ _) (Takes.whileStep (decide_eq_true hk) ?_)
    refine (Takes.next hfirst).bind ?_
    exact (takes_unary ((hready.advance _).advance _) h hargument hus' (by omega) hend).map _

theorem takes_binary (hready : s.Ready) (h : TakesWithin n nested) (he : Binary ts e)
    (hs : ts <+: s.rest) (hn : ts.length ≤ n) (hidentifier : (s.advance ts).kind ≠ .identifier)
    (hoperator : (s.advance ts).kind ≠ .operator) : Takes s (binary nested) ts e :=
  (arrives_binary hready h he hs hn hidentifier).done
    (Takes.whileStop _ _ (decide_eq_false hoperator))

theorem arrives_parts (hready : s.Ready) (h : TakesWithin n nested) {ts keywords : List Token}
    {arguments : List (Expr Unit)} : Parts ts keywords arguments → ts <+: s.rest → ts.length ≤ n →
    (s.advance ts).kind ≠ .identifier → (s.advance ts).kind ≠ .operator →
    Arrives s (loopWhile (· = .keyword) (argumentStep nested) (#[], #[]))
      (whileStep (· = .keyword) (argumentStep nested)) ts (keywords.toArray, arguments.toArray)
  | .nil, _, _, _, _ => Arrives.loop hready _ _
  | .snoc hparts hkeyword hargument, hs, hn, hidentifier, hoperator => by
    obtain ⟨hts, hus⟩ := s.front_of_append hs
    obtain ⟨hfirst, hus'⟩ := ReaderState.front_of_cons hus
    have hk := (ReaderState.kind_of_front hus).trans hkeyword
    rw [s.advance_append, ReaderState.advance_cons] at hidentifier hoperator
    rw [List.length_append, List.length_cons] at hn
    rw [← List.push_toArray, ← List.push_toArray]
    refine (arrives_parts hready h hparts hts (by omega) (by rw [hk]; decide)
      (by rw [hk]; decide)).turn hus (List.cons_ne_nil _ _)
      (Takes.whileStep (decide_eq_true hk) ?_)
    refine (Takes.next hfirst).bind ?_
    exact (takes_binary ((hready.advance _).advance _) h hargument hus' (by omega) hidentifier
      hoperator).map _

theorem takes_message (hready : s.Ready) (h : TakesWithin n nested) (he : Expression ts e)
    (hs : ts <+: s.rest) (hn : ts.length ≤ n) (hend : continues (s.advance ts).kind = false) :
    Takes s (message nested) ts e := by
  simp only [continues, Bool.or_eq_false_iff, decide_eq_false_iff_not] at hend
  obtain ⟨⟨hidentifier, hoperator⟩, hkeyword⟩ := hend
  cases he with
  | binary he =>
    refine (takes_binary hready h he hs hn hidentifier hoperator).bind_nil (Takes.kind ?_)
    rw [if_pos hkeyword]
    exact .pure _
  | keyword he hparts hsome =>
    obtain ⟨hts, hus⟩ := s.front_of_append hs
    have hk := of_decide_eq_true ((hparts.starts hsome).kind hus)
    rw [s.advance_append] at hidentifier hoperator hkeyword
    rw [List.length_append] at hn
    refine (takes_binary hready h he hts (by omega) (by rw [hk]; decide)
      (by rw [hk]; decide)).bind (Takes.kind ?_)
    rw [if_neg (by rw [hk]; decide)]
    have harrives :=
      arrives_parts (hready.advance _) h hparts hus (by omega) hidentifier hoperator
    exact (harrives.done (Takes.whileStop _ _ (decide_eq_false hkeyword))).map _

theorem takes_expressionWithin (depth : Nat) : TakesWithin depth (expressionWithin depth) := by
  induction depth with
  | zero =>
    intro s ts e _ _ _ hlt
    cases hlt
  | succ depth ih =>
    intro s ts e hready he hs hlt hend
    exact takes_message hready ih he hs (Nat.le_of_lt_succ hlt) hend

end Nested

/-- **An expression** is taken if no further message follows. -/
theorem takes_expression (n : Nat) : TakesWithin n expression := by
  intro s ts e hready he hs _ hend
  exact takes_expressionWithin s.limit s ts e hready he hs
    (Nat.lt_of_le_of_lt hs.length_le hready.limit) hend

end Reader

end Smalltalk
