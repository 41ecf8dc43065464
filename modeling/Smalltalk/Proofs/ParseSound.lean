/-
**What is read is of the language.**

If a source is read without mistakes, its tokens are a program of the grammar, and the tree that was
built is the one they spell. This is shown for each reader, from the expressions up. An expression
in brackets is read by a reader for fewer nested brackets; since the opening bracket has been taken,
this is never one for no brackets at all.

* `Reader.reads_expression`, `reads_body`, `reads_classDef` — **the readers read only what
  the grammar allows**.
-/

import Smalltalk.Proofs.ReadingEnds
import Mathlib.Data.List.TakeWhile

namespace Smalltalk.Reader

variable {k : Token.Kind} {rest ts : List Token} {negative : Bool} {t : Token}

open Grammar

/-! ### The value of a number -/

theorem numberLiteral?_of_whole (h : '.' ∉ t.text.toList) {value : Int}
    (hvalue : value = if negative then -(digitsValue t.text.toList : Int)
      else digitsValue t.text.toList) :
    numberLiteral? negative t =
      if -2 ^ 31 ≤ value && value < 2 ^ 31 then some (.integer (Int32.ofInt value)) else none := by
  have hwhole : t.text.toList.takeWhile (· ≠ '.') = t.text.toList := by
    rw [List.takeWhile_eq_self_iff]
    intro c hc
    exact decide_eq_true (fun h' => h (h' ▸ hc))
  simp only [numberLiteral?]
  rw [hwhole, List.drop_length]
  subst hvalue
  rfl

theorem numberLiteral?_of_point {whole decimals : List Char} (negative : Bool)
    (htext : t.text.toList = whole ++ '.' :: decimals) (h : '.' ∉ whole) :
    numberLiteral? negative t = some (.float
      (if negative then (Single.ofDecimal (digitsValue (whole ++ decimals)) decimals.length).neg
      else Single.ofDecimal (digitsValue (whole ++ decimals)) decimals.length)) := by
  have hwhole : t.text.toList.takeWhile (· ≠ '.') = whole := by
    rw [htext, List.takeWhile_append_of_pos]
    · simp
    · intro c hc
      exact decide_eq_true (fun h' => h (h' ▸ hc))
  simp only [numberLiteral?]
  rw [hwhole, htext, List.drop_left]

/-- **The value of a number.** -/
theorem numberLiteral?_eq_some_iff {value : Literal} :
    numberLiteral? negative t = some value ↔ Number negative t value := by
  constructor
  · intro h
    by_cases hpoint : '.' ∈ t.text.toList
    · obtain ⟨whole, decimals, htext, hwhole⟩ := List.eq_append_cons_of_mem hpoint
      rw [numberLiteral?_of_point negative htext hwhole] at h
      cases h
      exact .float htext hwhole rfl
    · obtain ⟨value', hvalue⟩ : ∃ value' : Int, value' =
          if negative then -(digitsValue t.text.toList : Int) else digitsValue t.text.toList :=
        ⟨_, rfl⟩
      rw [numberLiteral?_of_whole hpoint hvalue] at h
      split at h
      case isTrue hrange =>
        cases h
        simp only [Bool.and_eq_true, decide_eq_true_eq] at hrange
        exact .integer hpoint hvalue hrange.1 hrange.2
      case isFalse => cases h
  · intro h
    cases h with
    | integer hwhole hvalue hlow hhigh =>
      rw [numberLiteral?_of_whole hwhole hvalue, if_pos]
      grind
    | float htext hwhole hvalue =>
      subst hvalue
      exact numberLiteral?_of_point negative htext hwhole

/-! ### Expressions -/

variable {s : ReaderState} {α : Type}

theorem current_apply (s : ReaderState) : current s = (s.rest.head?.getD s.atEnd, s) := rfl

theorem exists_cons_of_current (hready : s.Ready) (ht : s.rest.head?.getD s.atEnd = t)
    (hk : t.kind ≠ .endOfFile) : ∃ rest, s.rest = t :: rest := by
  have hkind : s.kind = t.kind := by
    rw [ReaderState.kind, ht]
  obtain ⟨t', rest, hrest, -⟩ := s.exists_cons_of_kind hready hkind hk
  rw [hrest] at ht
  exact ⟨rest, ht ▸ hrest⟩

theorem reads_single (hs : s.rest = t :: rest) {e : Expr Unit} {L : List Token → Expr Unit → Prop}
    (h : L [t] e) : Reads s (single e) L :=
  Reads.skip hs (.pure h)

theorem reads_failed (cause : SyntaxError.Cause) (L : List Token → Expr Unit → Prop) :
    Reads s (failed cause) L :=
  Reads.report cause

theorem reads_takeWhileKind (hready : s.Ready) (hk : k ≠ .endOfFile) :
    Reads s (takeWhileKind k) (Star (Terminal k)) := by
  have hloop : Reads s (loopWhile (· = k) tokenStep #[]) fun ts taken =>
      Star (Terminal k) ts taken.toList ∧ (decide (s.kind = k) = true → ts ≠ []) := by
    refine Reads.loopWhile hready ?_ .nil
    intro taken s' ts hmoved hkind htaken
    obtain ⟨t, rest, hrest, ht⟩ :=
      s'.exists_cons_of_kind (hready.moved hmoved) (of_decide_eq_true hkind) hk
    refine Reads.next hrest (.pure ⟨List.cons_ne_nil _ _, ?_⟩)
    rw [Array.toList_push]
    exact .snoc htaken (.mk ht)
  exact hloop.map fun ts taken h => h.1

theorem reads_declarations (hready : s.Ready) (hpipe : s.kind = .pipe) :
    Reads s declarations Variables := by
  obtain ⟨opening, rest, hrest, hopening⟩ := s.exists_cons_of_kind hready hpipe (by decide)
  have hready' := hready.advance [opening]
  refine Reads.skip hrest ?_
  refine (reads_takeWhileKind hready' (by decide)).bind ?_
  intro names s' ts hmoved hnames
  refine (Reads.expect (hready'.moved hmoved) (by decide)).map ?_
  rintro us _ ⟨closing, rfl, rfl, hclosing⟩
  exact .bars hopening hnames hclosing

theorem reads_optionalDeclarations (hready : s.Ready) : Reads s optionalDeclarations Variables := by
  refine Reads.kind ?_
  split
  case isTrue hpipe => exact reads_declarations hready hpipe
  case isFalse => exact .pure .none

/-- The reader reads expressions where fewer than so many tokens are left. -/
def ReadsWithin (n : Nat) (expr : Reader (Expr Unit)) : Prop :=
  ∀ s : ReaderState, s.Ready → s.rest.length < n → Reads s expr Expression

section Nested

variable {n : Nat} {nested : Reader (Expr Unit)}

theorem reads_sentence (hready : s.Ready) (hn : s.rest.length < n) (h : ReadsWithin n nested) :
    Reads s (sentence nested) Sentence := by
  refine Reads.kind (Reads.look (peekKind_apply s) ?_)
  split
  case isTrue hk =>
    simp only [Bool.and_eq_true, decide_eq_true_eq] at hk
    obtain ⟨target, rest, hrest, htarget⟩ := s.exists_cons_of_kind hready hk.1 (by decide)
    obtain ⟨sign, rest', hrest', hsign⟩ := (s.advance [target]).exists_cons_of_kind
      (hready.advance _) ((s.kind_advance hrest).trans hk.2) (by decide)
    refine Reads.next hrest (Reads.skip hrest' ?_)
    have hlater := ((s.later_advance [target]).trans ((s.advance [target]).later_advance [sign]))
    refine (h _ (hready.later hlater) (Nat.lt_of_le_of_lt hlater.length_le hn)).map ?_
    intro us e he
    exact .assignment htarget hsign he
  case isFalse =>
    split
    case isTrue hk =>
      obtain ⟨caret, rest, hrest, hcaret⟩ := s.exists_cons_of_kind hready hk (by decide)
      have hlater := s.later_advance [caret]
      refine Reads.next hrest ?_
      refine (h _ (hready.later hlater) (Nat.lt_of_le_of_lt hlater.length_le hn)).map ?_
      intro us e he
      exact .answer hcaret he
    case isFalse => exact (h s hready hn).map fun us e he => .expression he

/-- Where a body ends, it is empty. -/
theorem takes_body_of_rightSquare (hready : s.Ready) (hk : s.kind = .rightSquare)
    (expr : Reader (Expr Unit)) : Takes s (body expr) [] ⟨[], []⟩ := by
  have hvariables : Takes s optionalDeclarations [] [] := by
    refine Takes.kind ?_
    rw [if_neg (by rw [hk]; decide)]
    exact .pure _
  have hstep : Takes s (bodyStep expr #[]) [] (#[], false) := by
    refine Takes.kind ?_
    rw [if_pos (by rw [hk]; decide)]
    exact .pure _
  rw [body]
  exact hvariables.bind (((Arrives.loop hready _ _).stop hstep).bind (.pure _))

/-- Without a bar the block has no body. -/
theorem reads_blockRest_of_rightSquare (hready : s.Ready) (hk : s.kind = .rightSquare)
    (opening : Token) (names : List Token) :
    Reads s (blockRest nested opening names) fun ts e =>
      ∃ closing, ts = [closing] ∧ closing.kind = .rightSquare ∧
        e = .block opening names [] [] (some closing) () := by
  refine Reads.look (takes_body_of_rightSquare hready hk nested) ?_
  refine (Reads.expect hready (by decide)).map ?_
  grind

variable [Tame nested]

theorem reads_statement (hready : s.Ready) (hn : s.rest.length < n) (h : ReadsWithin n nested) :
    Reads s (statement nested) Sentence := by
  rw [statement]
  refine Reads.errorCount ?_
  refine (reads_sentence hready hn h).bind ?_
  intro read s' ts hmoved hread
  -- no mistake has been recorded, so that nothing is skipped
  refine Reads.errorCount ?_
  rw [if_neg (by rw [hmoved.clean]; exact Nat.lt_irrefl _)]
  refine .pure ?_
  rw [List.append_nil]
  exact hread

theorem reads_dots {dot : Token} (hready : s.Ready) (hdot : dot.kind = .dot) :
    Reads s (loopWhile (· = .dot) (fun _ => skip) ()) fun ts _ =>
      ∃ ds, ds ≠ [] ∧ Star (Terminal .dot) (dot :: ts) ds := by
  have hloop : Reads s (loopWhile (· = .dot) (fun _ => skip) ()) fun ts _ =>
      (∃ ds, ds ≠ [] ∧ Star (Terminal .dot) (dot :: ts) ds) ∧
        (decide (s.kind = .dot) = true → ts ≠ []) := by
    refine Reads.loopWhile hready ?_
      ⟨[dot], List.cons_ne_nil _ _, .snoc .nil (.mk hdot)⟩
    rintro _ s' ts hmoved hkind ⟨ds, hne, hds⟩
    obtain ⟨t, rest, hrest, ht⟩ :=
      s'.exists_cons_of_kind (hready.moved hmoved) (of_decide_eq_true hkind) (by decide)
    exact Reads.skip hrest (.pure ⟨List.cons_ne_nil _ _, ds ++ [t], by simp, .snoc hds (.mk ht)⟩)
  exact hloop.imp fun ts _ h => h.1

section

variable (hready : s.Ready) (hn : s.rest.length < n) (h : ReadsWithin n nested)

include hready hn h

theorem reads_bodyStep {read : Array (Statement Unit)} (hread : Sentences ts read.toList) :
    Reads s (bodyStep nested read) fun us r =>
      if r.2 then us ≠ [] ∧ Sentences (ts ++ us) r.1.toList
      else Statements (ts ++ us) r.1.toList := by
  refine Reads.kind ?_
  split
  case isTrue =>
    refine .pure ?_
    rw [List.append_nil]
    exact .closed hread
  case isFalse =>
    refine (reads_statement hready hn h).bind ?_
    intro st s' us hmoved hst
    refine (Reads.accept (hready.moved hmoved) (by decide)).bind ?_
    intro taken s'' ds hmoved' htaken
    cases taken with
    | true =>
      obtain ⟨dot, rfl, hdot⟩ := htaken
      refine (reads_dots ((hready.moved hmoved).moved hmoved') hdot).map ?_
      rintro vs _ ⟨ds, hne, hds⟩
      refine ⟨by simp, ?_⟩
      rw [Array.toList_push]
      exact .snoc hread hst hds hne
    | false =>
      cases htaken
      refine .pure ?_
      simp only [Bool.false_eq_true, if_false, List.append_nil, Array.toList_push]
      exact .last hread hst

theorem reads_body : Reads s (body nested) fun ts b => Contents ts b.locals b.statements := by
  rw [body]
  refine (reads_optionalDeclarations hready).bind ?_
  intro locals s' vs hmoved hlocals
  have hloop : Reads s' (loop (bodyStep nested) #[]) fun ts read => Statements ts read.toList := by
    refine Reads.loop (fun ts read => Sentences ts read.toList) (hready.moved hmoved) ?_ .nil
    intro read s'' ts hmoved' hread
    have hlater := hmoved.later.trans hmoved'.later
    exact reads_bodyStep (hready.later hlater) (Nat.lt_of_le_of_lt hlater.length_le hn) h hread
  exact hloop.map fun ts read hread => .mk hlocals hread

theorem reads_blockRest (opening : Token) (names : List Token) :
    Reads s (blockRest nested opening names) fun ts e =>
      ∃ us locals statements closing, ts = us ++ [closing] ∧ closing.kind = .rightSquare ∧
        Contents us locals statements ∧
        e = .block opening names locals statements (some closing) () := by
  refine (reads_body hready hn h).bind ?_
  intro inner s' us hmoved hinner
  refine (Reads.expect (hready.moved hmoved) (by decide)).map ?_
  rintro _ _ ⟨closing, rfl, rfl, hclosing⟩
  exact ⟨us, _, _, closing, rfl, hclosing, hinner, rfl⟩

end

theorem reads_parameters (hready : s.Ready) :
    Reads s (loopWhile (· = .colon) parameterStep #[]) fun ts names =>
      Star Parameter ts names.toList ∧ (decide (s.kind = .colon) = true → ts ≠ []) := by
  refine Reads.loopWhile hready ?_ .nil
  intro names s' ts hmoved hkind hnames
  have hready' := hready.moved hmoved
  obtain ⟨colon, rest, hrest, hcolon⟩ :=
    s'.exists_cons_of_kind hready' (of_decide_eq_true hkind) (by decide)
  refine Reads.skip hrest ?_
  refine (Reads.expectIdentifier (hready'.advance _)).bind ?_
  rintro _ s'' _ - ⟨name, rfl, rfl, hname⟩
  refine .pure ⟨List.cons_ne_nil _ _, ?_⟩
  rw [Array.toList_push]
  exact .snoc hnames (.mk hcolon hname)

/-- An opening bracket leaves fewer tokens. -/
theorem exists_opening (hready : s.Ready) (hn : s.rest.length ≤ n) (hk : s.kind = k)
    (hne : k ≠ .endOfFile) : ∃ opening rest, s.rest = opening :: rest ∧
      opening.kind = k ∧ (s.advance [opening]).Ready ∧ (s.advance [opening]).rest.length < n := by
  obtain ⟨opening, rest, hrest, hopening⟩ := s.exists_cons_of_kind hready hk hne
  refine ⟨opening, rest, hrest, hopening, hready.advance [opening], ?_⟩
  rw [s.rest_advance_cons hrest]
  rw [hrest] at hn
  exact hn

theorem reads_block (hready : s.Ready) (hn : s.rest.length ≤ n) (h : ReadsWithin n nested)
    (hk : s.kind = .leftSquare) : Reads s (block nested) Primary := by
  obtain ⟨opening, rest, hrest, hopening, hready', hn'⟩ := exists_opening hready hn hk (by decide)
  rw [block]
  refine Reads.next hrest (Reads.kind ?_)
  split
  case isTrue hcolon =>
    refine (reads_parameters hready').bind ?_
    rintro names s' ps hmoved ⟨hnames, hsome⟩
    have hnames_ne := hnames.ne_nil (hsome (decide_eq_true hcolon))
    have hready'' := hready'.moved hmoved
    refine Reads.kind ?_
    split
    case isTrue =>
      refine (Reads.expect hready'' (by decide)).bind ?_
      rintro _ s'' _ hmoved' ⟨bar, rfl, rfl, hbar⟩
      have hlater := hmoved.later.trans hmoved'.later
      refine (reads_blockRest (hready'.later hlater) (Nat.lt_of_le_of_lt hlater.length_le hn') h
        opening names.toList).imp ?_
      rintro _ _ ⟨us, locals, statements, closing, rfl, hclosing, hbody, rfl⟩
      exact .function hopening hnames hnames_ne hbar hbody hclosing
    case isFalse hclose =>
      refine (reads_blockRest_of_rightSquare hready'' (Decidable.not_not.1 hclose) opening
        names.toList).imp ?_
      rintro _ _ ⟨closing, rfl, hclosing, rfl⟩
      exact .bare hopening hnames hnames_ne hclosing
  case isFalse =>
    refine (reads_blockRest hready' hn' h opening []).imp ?_
    rintro _ _ ⟨us, locals, statements, closing, rfl, hclosing, hbody, rfl⟩
    exact .block hopening hbody hclosing

theorem reads_itemStep (hready : s.Ready) (hn : s.rest.length < n) (h : ReadsWithin n nested)
    {items : Array (Expr Unit)} (hitems : Elements ts items.toList) :
    Reads s (itemStep nested items) fun us r =>
      if r.2 then us ≠ [] ∧ Elements (ts ++ us) r.1.toList else Items (ts ++ us) r.1.toList := by
  refine Reads.kind ?_
  split
  case isTrue =>
    refine .pure ?_
    rw [List.append_nil]
    exact .closed hitems
  case isFalse =>
    refine (h s hready hn).bind ?_
    intro e s' us hmoved he
    refine (Reads.accept (hready.moved hmoved) (by decide)).map ?_
    intro ds taken htaken
    rw [Array.toList_push]
    cases taken with
    | true =>
      obtain ⟨dot, rfl, hdot⟩ := htaken
      exact ⟨by simp, .snoc hitems he hdot⟩
    | false =>
      cases htaken
      rw [List.append_nil]
      exact .last hitems he

theorem reads_array (hready : s.Ready) (hn : s.rest.length ≤ n) (h : ReadsWithin n nested)
    (hk : s.kind = .leftCurly) : Reads s (array nested) Primary := by
  obtain ⟨opening, rest, hrest, hopening, hready', hn'⟩ := exists_opening hready hn hk (by decide)
  have hloop : Reads (s.advance [opening]) (loop (itemStep nested) #[]) fun ts items =>
      Items ts items.toList := by
    refine Reads.loop (fun ts items => Elements ts items.toList) hready' ?_ .nil
    intro items s' ts hmoved hitems
    exact reads_itemStep (hready'.moved hmoved)
      (Nat.lt_of_le_of_lt hmoved.later.length_le hn') h hitems
  refine Reads.next hrest ?_
  refine hloop.bind ?_
  intro items s' ts hmoved hitems
  refine (Reads.expect (hready'.moved hmoved) (by decide)).map ?_
  rintro _ _ ⟨closing, rfl, rfl, hclosing⟩
  exact .array hopening hitems hclosing

theorem reads_group (hready : s.Ready) (hn : s.rest.length ≤ n) (h : ReadsWithin n nested)
    (hk : s.kind = .leftParen) : Reads s (group nested) Primary := by
  obtain ⟨opening, rest, hrest, hopening, hready', hn'⟩ := exists_opening hready hn hk (by decide)
  refine Reads.next hrest ?_
  refine (h _ hready' hn').bind ?_
  intro e s' ts hmoved he
  refine (Reads.expect (hready'.moved hmoved) (by decide)).map ?_
  rintro _ _ ⟨closing, rfl, rfl, hclosing⟩
  exact .group hopening he hclosing

theorem reads_negativeNumber (hready : s.Ready) (hk : s.kind = .operator)
    (hneg : startsNegative s.rest = true) : Reads s negativeNumber Primary := by
  obtain ⟨sign, rest, hrest, hsign⟩ := s.exists_cons_of_kind hready hk (by decide)
  have hrest' := s.rest_advance_cons hrest
  cases rest with
  | nil =>
    rw [hrest] at hneg
    cases hneg
  | cons number rest =>
    rw [hrest] at hneg
    simp only [startsNegative, Bool.and_eq_true, decide_eq_true_eq] at hneg
    obtain ⟨⟨hminus, hnumber⟩, hadjacent⟩ := hneg
    refine Reads.next hrest ?_
    refine Reads.look (a := number) (by rw [current_apply, hrest']; rfl) ?_
    split
    case h_1 value hvalue =>
      refine Reads.next hrest' (.pure ?_)
      exact .negative hsign hminus hnumber hadjacent (numberLiteral?_eq_some_iff.1 hvalue)
    case h_2 => exact Reads.report _

section

variable (hready : s.Ready) (hn : s.rest.length ≤ n) (h : ReadsWithin n nested)

include hready hn h

theorem reads_primary : Reads s (primary nested) Primary := by
  have hkind : ∀ t, s.rest.head?.getD s.atEnd = t → s.kind = t.kind := by
    rintro t rfl
    rfl
  refine Reads.look (current_apply s) ?_
  generalize hcurrent : s.rest.head?.getD s.atEnd = t
  have hsingle : ∀ {e : Expr Unit}, t.kind ≠ .endOfFile → Primary [t] e →
      Reads s (single e) Primary := by
    intro e hk he
    obtain ⟨rest, hrest⟩ := exists_cons_of_current hready hcurrent hk
    exact reads_single hrest he
  dsimp only
  split
  case h_1 hk => exact hsingle (by rw [hk]; decide) (.literal (.nilWord hk))
  case h_2 hk => exact hsingle (by rw [hk]; decide) (.literal (.trueWord hk))
  case h_3 hk => exact hsingle (by rw [hk]; decide) (.literal (.falseWord hk))
  case h_4 hk => exact hsingle (by rw [hk]; decide) (.literal (.selfWord hk))
  case h_5 hk =>
    split
    case h_1 value hvalue =>
      exact hsingle (by rw [hk]; decide)
        (.literal (.number hk (numberLiteral?_eq_some_iff.1 hvalue)))
    case h_2 => exact reads_failed _ _
  case h_6 hk => exact hsingle (by rw [hk]; decide) (.literal (.character hk))
  case h_7 hk => exact hsingle (by rw [hk]; decide) (.literal (.string hk))
  case h_8 hk => exact hsingle (by rw [hk]; decide) (.literal (.symbol hk))
  case h_9 hk =>
    refine Reads.look (isNegativeNumber_apply s) ?_
    split
    case isTrue hneg => exact reads_negativeNumber hready ((hkind t hcurrent).trans hk) hneg
    case isFalse => exact reads_failed _ _
  case h_10 hk => exact hsingle (by rw [hk]; decide) (.superWord hk)
  case h_11 hk => exact hsingle (by rw [hk]; decide) (.name hk)
  case h_12 hk => exact reads_block hready hn h ((hkind t hcurrent).trans hk)
  case h_13 hk => exact reads_array hready hn h ((hkind t hcurrent).trans hk)
  case h_14 hk => exact reads_group hready hn h ((hkind t hcurrent).trans hk)
  case h_15 | h_16 | h_17 | h_18 => exact reads_failed _ _

theorem reads_unary : Reads s (unary nested) Unary := by
  refine (reads_primary hready hn h).bind ?_
  intro e s' ts hmoved he
  have hready' := hready.moved hmoved
  refine (Reads.loopWhile hready' ?_ ?_).imp fun us e' h => h.1
  · intro e' s'' us hmoved' hk he'
    obtain ⟨selector, rest, hrest, hselector⟩ :=
      s''.exists_cons_of_kind (hready'.moved hmoved') (of_decide_eq_true hk) (by decide)
    refine Reads.next hrest (.pure ⟨List.cons_ne_nil _ _, ?_⟩)
    rw [← List.append_assoc]
    exact .send he' hselector
  · rw [List.append_nil]
    exact .primary he

theorem reads_binary : Reads s (binary nested) Binary := by
  refine (reads_unary hready hn h).bind ?_
  intro e s' ts hmoved he
  refine (Reads.loopWhile (hready.moved hmoved) ?_ ?_).imp fun us e' h => h.1
  · intro e' s'' us hmoved' hk he'
    have hlater := hmoved.later.trans hmoved'.later
    obtain ⟨operator, rest, hrest, hoperator, hready', hn'⟩ := exists_opening (hready.later hlater)
      (Nat.le_trans hlater.length_le hn) (of_decide_eq_true hk) (by decide)
    refine Reads.next hrest ?_
    refine (reads_unary hready' (Nat.le_of_lt hn') h).map ?_
    intro vs argument hargument
    refine ⟨List.cons_ne_nil _ _, ?_⟩
    rw [← List.append_assoc]
    exact .send he' hoperator hargument
  · rw [List.append_nil]
    exact .unary he

theorem reads_message : Reads s (message nested) Expression := by
  refine (reads_binary hready hn h).bind ?_
  intro e s' ts hmoved he
  refine Reads.kind ?_
  split
  case isTrue =>
    refine .pure ?_
    rw [List.append_nil]
    exact .binary he
  case isFalse hkeyword =>
    have hloop : Reads s' (loopWhile (· = .keyword) (argumentStep nested) (#[], #[]))
        fun us parts => Parts us parts.1.toList parts.2.toList ∧
          (decide (s'.kind = .keyword) = true → us ≠ []) := by
      refine Reads.loopWhile (hready.moved hmoved) ?_ .nil
      intro parts s'' us hmoved' hk hparts
      have hlater := hmoved.later.trans hmoved'.later
      obtain ⟨keyword, rest, hrest, hkeyword, hready', hn'⟩ := exists_opening (hready.later hlater)
        (Nat.le_trans hlater.length_le hn) (of_decide_eq_true hk) (by decide)
      refine Reads.next hrest ?_
      refine (reads_binary hready' (Nat.le_of_lt hn') h).map ?_
      intro vs argument hargument
      refine ⟨List.cons_ne_nil _ _, ?_⟩
      simp only [Array.toList_push]
      exact .snoc hparts hkeyword hargument
    refine hloop.map ?_
    rintro us ⟨keywords, arguments⟩ ⟨hparts, hne⟩
    exact .keyword he hparts (hparts.ne_nil (hne (decide_eq_true (Decidable.not_not.1 hkeyword))))

end

theorem reads_expressionWithin (depth : Nat) : ReadsWithin depth (expressionWithin depth) := by
  induction depth with
  | zero =>
    intro s _ hlt
    cases hlt
  | succ depth ih =>
    intro s hready hlt
    exact reads_message hready (Nat.le_of_lt_succ hlt) ih

end Nested

/-- **An expression** is read only where there is one. -/
theorem reads_expression (n : Nat) : ReadsWithin n expression :=
  fun s hready _ => reads_expressionWithin s.limit s hready hready.limit

/-! ### Definitions -/

theorem reads_code (hready : s.Ready) :
    Reads s (body expression) fun ts b => Contents ts b.locals b.statements :=
  reads_body hready (Nat.lt_succ_self _) (reads_expression _)

theorem reads_keywordSignature (hready : s.Ready) (hk : s.kind = .keyword) :
    Reads s keywordSignature fun ts signature? =>
      ∃ signature, signature? = some signature ∧ Header ts signature := by
  have hloop : Reads s (loop keywordStep (#[], true)) fun ts read =>
      Star HeaderPart ts read.1.toList ∧ read.2 = true ∧ ts ≠ [] := by
    refine Reads.loop (fun ts read => Star HeaderPart ts read.1.toList ∧ read.2 = true) hready ?_
      ⟨.nil, rfl⟩
    rintro ⟨parts, complete⟩ s' ts hmoved ⟨hparts, -⟩
    have hready' := hready.moved hmoved
    refine Reads.kind ?_
    split
    case isTrue hstop =>
      refine .pure ?_
      rw [List.append_nil]
      refine ⟨hparts, rfl, ?_⟩
      rintro rfl
      exact hstop (hmoved.kind_eq.symm.trans hk)
    case isFalse hkeyword =>
      obtain ⟨keyword, rest, hrest, hkeyword'⟩ :=
        s'.exists_cons_of_kind hready' (Decidable.not_not.1 hkeyword) (by decide)
      refine Reads.next hrest ?_
      refine (Reads.expectIdentifier (hready'.advance _)).bind ?_
      rintro _ s'' _ - ⟨parameter, rfl, rfl, hparameter⟩
      refine .pure ⟨List.cons_ne_nil _ _, ?_, rfl⟩
      rw [Array.toList_push]
      exact .snoc hparts (.mk hkeyword' hparameter)
  rw [keywordSignature]
  refine hloop.map ?_
  rintro ts ⟨parts, _⟩ ⟨hparts, rfl, hne⟩
  exact ⟨_, rfl, .keyword hparts (hparts.ne_nil hne)⟩

theorem reads_signature (hready : s.Ready) : Reads s signature fun ts signature? =>
    ∃ signature, signature? = some signature ∧ Header ts signature := by
  refine Reads.kind ?_
  split
  case h_1 hk =>
    obtain ⟨name, rest, hrest, hname⟩ := s.exists_cons_of_kind hready hk (by decide)
    exact Reads.next hrest (.pure ⟨_, rfl, .unary hname⟩)
  case h_2 hk =>
    obtain ⟨operator, rest, hrest, hoperator⟩ := s.exists_cons_of_kind hready hk (by decide)
    refine Reads.next hrest ?_
    refine (Reads.expectIdentifier (hready.advance _)).map ?_
    rintro _ _ ⟨parameter, rfl, rfl, hparameter⟩
    exact ⟨_, rfl, .binary hoperator hparameter⟩
  case h_3 hk => exact reads_keywordSignature hready hk
  case h_4 => exact Reads.report _

theorem isText_apply (s : ReaderState) (k : Token.Kind) (text : String) :
    isText k text s = (decide (s.kind = k) && decide ((current s).1.text = text), s) := rfl

section

variable (hready : s.Ready)

include hready

/-- A token with a given text is next. -/
theorem exists_cons_of_isText {text : String} (hne : k ≠ .endOfFile)
    (h : (decide (s.kind = k) && decide ((current s).1.text = text)) = true) :
    ∃ t rest, s.rest = t :: rest ∧ t.kind = k ∧ t.text = text := by
  simp only [Bool.and_eq_true, decide_eq_true_eq] at h
  obtain ⟨t, rest, hrest, ht⟩ := s.exists_cons_of_kind hready h.1 hne
  refine ⟨t, rest, hrest, ht, ?_⟩
  rw [← h.2, current_apply, hrest]
  rfl

theorem reads_primitiveBody {less : Token} (hrest : s.rest = less :: rest)
    (hless : less.kind = .operator ∧ less.text = "<") : Reads s primitiveBody fun ts body? =>
      ∃ body, body? = some body ∧ Implementation ts body := by
  have hready' := hready.advance [less]
  refine Reads.skip hrest (Reads.look (isText_apply _ _ _) ?_)
  split
  case isTrue => exact Reads.report _
  case isFalse htext =>
    simp only [Bool.not_eq_true', Bool.not_eq_false] at htext
    obtain ⟨word, rest', hrest', hword⟩ := exists_cons_of_isText hready' (by decide) htext
    have hready'' := hready'.advance [word]
    refine Reads.skip hrest' ?_
    refine (Reads.expect hready'' (by decide)).bind ?_
    rintro _ s' _ hmoved ⟨name, rfl, rfl, hname⟩
    refine Reads.look (isText_apply _ _ _) ?_
    split
    case isTrue htext' =>
      obtain ⟨greater, rest'', hrest'', hgreater⟩ :=
        exists_cons_of_isText (hready''.moved hmoved) (by decide) htext'
      exact Reads.skip hrest'' (.pure ⟨_, rfl, .primitive hless hword hname hgreater⟩)
    case isFalse => exact Reads.report _

theorem reads_methodBody : Reads s methodBody fun ts body? =>
    ∃ body, body? = some body ∧ Implementation ts body := by
  refine Reads.look (isText_apply _ _ _) ?_
  split
  case isTrue htext =>
    obtain ⟨less, rest, hrest, hless⟩ := exists_cons_of_isText hready (by decide) htext
    exact reads_primitiveBody hready hrest hless
  case isFalse =>
    refine (Reads.expect hready (by decide)).bind ?_
    rintro _ s' _ hmoved ⟨opening, rfl, rfl, hopening⟩
    have hready' := hready.moved hmoved
    refine (reads_code hready').bind ?_
    intro code s'' ts hmoved' hcode
    refine (Reads.expect (hready'.moved hmoved') (by decide)).map ?_
    rintro _ _ ⟨closing, rfl, rfl, hclosing⟩
    exact ⟨_, rfl, .code hopening hcode hclosing⟩

theorem reads_method : Reads s method fun ts m? =>
    ∃ m, m? = some m ∧ Grammar.Method ts m := by
  have hmark : Reads s classMark fun ts word =>
      (ts = [] ∧ word = none) ∨ ∃ t, ts = [t] ∧ word = some t ∧ t.kind = .classWord := by
    refine Reads.kind ?_
    split
    case isTrue hk =>
      obtain ⟨t, rest, hrest, ht⟩ := s.exists_cons_of_kind hready hk (by decide)
      exact Reads.next hrest (.pure (.inr ⟨t, rfl, rfl, ht⟩))
    case isFalse => exact .pure (.inl ⟨rfl, rfl⟩)
  rw [method]
  refine hmark.bind ?_
  intro word s' ws hmoved hword
  have hready' := hready.moved hmoved
  refine (reads_signature hready').bind ?_
  rintro _ s'' ts hmoved' ⟨signature, rfl, hsignature⟩
  refine (reads_methodBody (hready'.moved hmoved')).map ?_
  rintro us _ ⟨body, rfl, hbody⟩
  refine ⟨_, rfl, ?_⟩
  rw [← List.append_assoc]
  rcases hword with ⟨rfl, rfl⟩ | ⟨t, rfl, rfl, ht⟩
  · exact .instanceSide hsignature hbody
  · exact .classSide ht hsignature hbody

theorem reads_classHeader (word : Token) :
    Reads s (classHeader word) fun ts heading => Heading ts heading.1 heading.2 := by
  refine Reads.kind ?_
  split
  case isTrue hk =>
    obtain ⟨name, rest, hrest, hname⟩ := s.exists_cons_of_kind hready hk (by decide)
    refine Reads.next hrest ?_
    refine (Reads.expectIdentifier (hready.advance _)).map ?_
    rintro _ _ ⟨parent, rfl, rfl, hparent⟩
    exact .joined hname hparent
  case isFalse =>
    refine (Reads.expectIdentifier hready).bind ?_
    rintro _ s' _ hmoved ⟨name, rfl, rfl, hname⟩
    have hready' := hready.moved hmoved
    refine (Reads.accept hready' (by decide)).bind ?_
    intro taken s'' us hmoved' htaken
    cases taken with
    | true =>
      obtain ⟨colon, rfl, hcolon⟩ := htaken
      refine (Reads.expectIdentifier (hready'.moved hmoved')).map ?_
      rintro _ _ ⟨parent, rfl, rfl, hparent⟩
      exact .sub hname hcolon hparent
    | false =>
      cases htaken
      exact .pure (.root hname)

theorem reads_methods :
    Reads s (loopWhile (fun k => k ≠ .rightSquare && k ≠ .endOfFile) methodStep #[])
      fun ts methods => Star Grammar.Method ts methods.toList ∧
        ((decide (s.kind ≠ .rightSquare) && decide (s.kind ≠ .endOfFile)) = true → ts ≠ []) := by
  refine Reads.loopWhile hready ?_ .nil
  intro methods s' ts hmoved _ hmethods
  refine (reads_method (hready.moved hmoved)).bind ?_
  rintro _ s'' us - ⟨m, rfl, hm⟩
  refine .pure ?_
  rw [List.append_nil, Array.toList_push]
  exact ⟨hm.ne_nil, .snoc hmethods hm⟩

/-- **A class definition** is read only where there is one. -/
theorem reads_classDef (hk : s.kind = .classWord) : Reads s classDef Definition := by
  obtain ⟨word, rest, hrest, hword⟩ := s.exists_cons_of_kind hready hk (by decide)
  have hready' := hready.advance [word]
  rw [classDef]
  refine Reads.next hrest ?_
  refine (reads_classHeader hready' word).bind ?_
  rintro ⟨name, superclass⟩ s₁ hs hmoved₁ hheading
  have hready₁ := hready'.moved hmoved₁
  refine (Reads.expect hready₁ (by decide)).bind ?_
  rintro _ s₂ _ hmoved₂ ⟨opening, rfl, rfl, hopening⟩
  have hready₂ := hready₁.moved hmoved₂
  refine (reads_optionalDeclarations hready₂).bind ?_
  intro fields s₃ vs hmoved₃ hfields
  have hready₃ := hready₂.moved hmoved₃
  refine (reads_methods hready₃).bind ?_
  rintro methods s₄ ms hmoved₄ ⟨hmethods, -⟩
  refine (Reads.expect (hready₃.moved hmoved₄) (by decide)).map ?_
  rintro _ _ ⟨closing, rfl, rfl, hclosing⟩
  exact .mk hword hheading hopening hfields hmethods hclosing

/-- **A whole program** is read only where there is one. -/
theorem reads_program : Reads s program fun ts read => ts = s.rest ∧ File ts read.1 read.2 := by
  have hclasses : Reads s (loopWhile (· = .classWord) classStep #[]) fun ts classes =>
      Star Definition ts classes.toList ∧ (decide (s.kind = .classWord) = true → ts ≠ []) := by
    refine Reads.loopWhile hready ?_ .nil
    intro classes s' ts hmoved hk hclasses
    refine (reads_classDef (hready.moved hmoved) (of_decide_eq_true hk)).map ?_
    intro us c hc
    rw [Array.toList_push]
    exact ⟨hc.ne_nil, .snoc hclasses hc⟩
  rw [program]
  refine hclasses.bind ?_
  rintro classes s' cs hmoved ⟨hclasses, -⟩
  refine (reads_code (hready.moved hmoved)).bind ?_
  intro main s'' ts hmoved' hmain
  have hmoved'' := hmoved.trans hmoved'
  have hend : Reads s'' fileEnd fun us _ => us = [] ∧ s.rest = cs ++ ts := by
    refine Reads.kind ?_
    split
    case h_1 hk =>
      refine .pure ⟨rfl, ?_⟩
      rw [hmoved''.rest, s''.rest_eq_nil_of_kind (hready.moved hmoved'') hk, List.append_nil]
    case h_2 | h_3 => exact Reads.report (f := fun _ => pure ()) _
  refine hend.map ?_
  rintro _ _ ⟨rfl, hrest⟩
  rw [List.append_nil]
  exact ⟨hrest.symm, .mk hclasses hmain⟩

end

end Smalltalk.Reader
