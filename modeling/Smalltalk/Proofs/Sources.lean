/-
**What is known of the programs that are compiled.**

A program that was read without mistakes is regular: a message has as many arguments as its selector
says, and so has a method. The selector alone tells the number, since an operator has one argument
and all other selectors have one for each colon. The standard classes, which are compiled before
every program, were read without mistakes as well.

* `argumentsOf` — **the number of arguments that a selector asks for**;
* `Program.isRegular_of_isValid` — **a program without mistakes is regular**.
-/

import Smalltalk.Compile.Program
import Smalltalk.Proofs.Derivations

namespace Smalltalk

variable {q r : Routine} {ts : List Token} {c : Char} {cs : List Char}

open Grammar

/-! ### Selectors -/

/-- The number of arguments that the characters of a selector ask for. -/
def argumentsOfText (cs : List Char) : Nat :=
  if cs.any Token.isOperator then 1 else cs.count ':'

/-- **The number of arguments that a selector asks for.** -/
def argumentsOf (selector : String) : Nat := argumentsOfText selector.toList

theorem not_isOperator_of_isWordChar (h : Token.isWordChar c = true) :
    Token.isOperator c = false := by
  rw [Bool.eq_false_iff]
  intro hoperator
  have hnone : ['+', '-', '*', '/', '\\', '<', '>', '=', '~', ',', '@', '%', '&', '?'].all
      (fun c => !Token.isWordChar c) = true := by decide
  have hword := List.all_eq_true.1 hnone c (List.contains_iff_mem.1 hoperator)
  rw [h] at hword
  cases hword

theorem ne_colon_of_isWordChar (h : Token.isWordChar c = true) : c ≠ ':' := by
  rintro rfl
  revert h
  decide

/-- A word has no arguments. -/
theorem argumentsOfText_word (h : ∀ c ∈ cs, Token.isWordChar c = true) :
    argumentsOfText cs = 0 := by
  rw [argumentsOfText, if_neg, List.count_eq_zero]
  · intro hcolon
    exact ne_colon_of_isWordChar (h ':' hcolon) rfl
  · rw [List.any_eq_true]
    rintro ⟨c, hc, hoperator⟩
    rw [not_isOperator_of_isWordChar (h c hc)] at hoperator
    cases hoperator

/-- An operator has one argument. -/
theorem argumentsOfText_operator (hne : cs ≠ []) (h : ∀ c ∈ cs, Token.isOperator c = true) :
    argumentsOfText cs = 1 := by
  obtain ⟨c, hc⟩ := List.exists_mem_of_ne_nil cs hne
  exact if_pos (List.any_eq_true.2 ⟨c, hc, h c hc⟩)

/-- The characters of a selector that is made of keywords. -/
theorem toList_joinTexts (tokens : List Token) :
    (joinTexts tokens).toList = tokens.flatMap fun t => t.text.toList := by
  rw [joinTexts]
  -- The texts that were joined before are in front.
  suffices hfold : ∀ text : String,
      (tokens.foldl (fun text token => text ++ token.text) text).toList =
        text.toList ++ tokens.flatMap fun t => t.text.toList by
    simpa using hfold ""
  intro text
  induction tokens generalizing text with
  | nil => simp
  | cons t ts ih => rw [List.foldl_cons, ih, String.toList_append, List.flatMap_cons, List.append_assoc]

/-- Each keyword has one argument. -/
theorem argumentsOf_joinTexts {keywords : List Token}
    (h : ∀ t ∈ keywords, Token.Spelled .keyword t.text.toList) :
    argumentsOf (joinTexts keywords) = keywords.length := by
  rw [argumentsOf, toList_joinTexts, argumentsOfText, if_neg]
  · induction keywords with
    | nil => rfl
    | cons t ts ih =>
      obtain ⟨word, hword, hchars⟩ := h t List.mem_cons_self
      have hcount : word.count ':' = 0 :=
        List.count_eq_zero.2 fun hcolon => ne_colon_of_isWordChar (hchars ':' hcolon) rfl
      grind
  · rw [List.any_eq_true]
    rintro ⟨c, hc, hoperator⟩
    obtain ⟨t, ht, hc⟩ := List.mem_flatMap.1 hc
    obtain ⟨word, hword, hchars⟩ := h t ht
    rw [hword, List.mem_append, List.mem_singleton] at hc
    rcases hc with hc | rfl
    · rw [not_isOperator_of_isWordChar (hchars c hc)] at hoperator
      cases hoperator
    · revert hoperator
      decide

/-! ### Regular trees -/

mutual

/-- The messages of an expression have as many arguments as their selectors ask for, and there is no
part that could not be read. -/
def exprRegular : Expr Unit → Prop
  | .array _ items _ => exprsRegular items
  | .block _ _ _ statements _ _ => statementsRegular statements
  | .group _ inner _ => exprRegular inner
  | .unary receiver selector => exprRegular receiver ∧ argumentsOf selector.text = 0
  | .binary receiver operator argument =>
    exprRegular receiver ∧ exprRegular argument ∧ argumentsOf operator.text = 1
  | .keyword receiver keywords arguments =>
    exprRegular receiver ∧ exprsRegular arguments ∧
      argumentsOf (joinTexts keywords) = arguments.length
  | .literal _ _ _ | .super _ | .variable _ => True
  | .invalid _ => False

/-- The messages of some expressions have as many arguments as their selectors ask for. -/
def exprsRegular : List (Expr Unit) → Prop
  | [] => True
  | e :: es => exprRegular e ∧ exprsRegular es

/-- The messages of a statement have as many arguments as their selectors ask for. -/
def statementRegular : Statement Unit → Prop
  | .assignment _ value | .answer _ value | .expression value => exprRegular value

/-- The messages of some statements have as many arguments as their selectors ask for. -/
def statementsRegular : List (Statement Unit) → Prop
  | [] => True
  | s :: ss => statementRegular s ∧ statementsRegular ss

end

theorem exprsRegular_iff (es : List (Expr Unit)) :
    exprsRegular es ↔ ∀ e ∈ es, exprRegular e := by
  induction es with
  | nil => simp [exprsRegular]
  | cons e es ih => rw [exprsRegular, ih, List.forall_mem_cons]

theorem statementsRegular_iff (ss : List (Statement Unit)) :
    statementsRegular ss ↔ ∀ s ∈ ss, exprRegular s.value := by
  induction ss with
  | nil => simp [statementsRegular]
  | cons s ss ih =>
    rw [statementsRegular, ih, List.forall_mem_cons]
    cases s <;> rfl

/-- A message has as many arguments as its selector asks for, and it could be read. -/
def Expr.Sized : Expr Unit → Prop
  | .unary _ selector => argumentsOf selector.text = 0
  | .binary _ operator _ => argumentsOf operator.text = 1
  | .keyword _ keywords arguments => argumentsOf (joinTexts keywords) = arguments.length
  | .invalid _ => False
  | _ => True

theorem exprRegular_iff (e : Expr Unit) :
    exprRegular e ↔ e.Sized ∧ ∀ d ∈ e.children, exprRegular d := by
  cases e <;> simp [exprRegular, Expr.Sized, Expr.children, exprsRegular_iff, statementsRegular_iff]
  all_goals tauto

/-- The tokens are spelled as the tokens of a source are. -/
abbrev AllSpelled : List Token → Prop :=
  Grammar.All fun t => Token.Spelled t.kind t.text.toList

namespace Grammar

/-- The keywords are spelled as such, and there are as many of them as arguments. -/
theorem Parts.sized {ts keywords : List Token} {arguments : List (Expr Unit)} :
    Parts ts keywords arguments → AllSpelled ts → keywords.length = arguments.length ∧
      ∀ t ∈ keywords, Token.Spelled .keyword t.text.toList
  | .nil, _ => ⟨rfl, fun _ ht => absurd ht List.not_mem_nil⟩
  | .snoc hparts hkeyword _, h => by
    obtain ⟨hlength, hkeywords⟩ := Parts.sized hparts h.append.1
    have hspelled := h.append.2.cons.1
    rw [hkeyword] at hspelled
    exact ⟨by simp [hlength],
      List.forall_mem_append.2 ⟨hkeywords, List.forall_mem_singleton.2 hspelled⟩⟩

theorem Expression.sized {e : Expr Unit} (he : Expression ts e) (h : AllSpelled ts) : e.Sized := by
  obtain ⟨⟨hprimary | ⟨-, hselector⟩⟩ | ⟨-, hoperator, -⟩⟩ | ⟨-, hparts, -⟩ := he
  · cases hprimary <;> exact trivial
  · have hspelled := h.append.2.cons.1
    rw [hselector] at hspelled
    exact argumentsOfText_word hspelled
  · have hspelled := h.append.2.cons.1
    rw [hoperator] at hspelled
    exact argumentsOfText_operator hspelled.1 hspelled.2
  · obtain ⟨hlength, hkeywords⟩ := hparts.sized h.append.2
    rw [Expr.Sized, argumentsOf_joinTexts hkeywords, hlength]

/-- **What the grammar allows is regular.** -/
theorem Expression.regular {e : Expr Unit} (he : Expression ts e) (h : AllSpelled ts) :
    exprRegular e := by
  induction e using Expr.byChildren generalizing ts with
  | _ e ih =>
    refine (exprRegular_iff e).2 ⟨he.sized h, fun d hd => ?_⟩
    obtain ⟨us, hus, hd'⟩ := he.children.exists_infix hd
    exact ih d hd hd' (h.within hus)

theorem Contents.regular {locals : List Token} {ss : List (Statement Unit)}
    (hss : Contents ts locals ss) (h : AllSpelled ts) : statementsRegular ss := by
  refine (statementsRegular_iff ss).2 fun s hs => ?_
  obtain ⟨us, hus, hs⟩ := hss.scattered.exists_infix hs
  obtain ⟨front, vs, rfl, hvalue⟩ := hs.value
  exact hvalue.regular (h.within hus).append.2

end Grammar

/-! ### Regular programs -/

variable {source : String} {n : Nat}

/-- A word is its own name. -/
theorem Token.name_eq_text {t : Token} (h : ∀ c ∈ t.text.toList, isWordChar c = true) :
    t.name = t.text := by
  have hdrop : t.text.toList.reverse.dropWhile (· = ':') = t.text.toList.reverse := by
    cases hcs : t.text.toList.reverse with
    | nil => rfl
    | cons c cs =>
      have hc : c ∈ t.text.toList := by
        rw [← List.mem_reverse, hcs]
        exact List.mem_cons_self
      rw [List.dropWhile_cons_of_neg]
      simpa using ne_colon_of_isWordChar (h c hc)
  rw [Token.name, hdrop, List.reverse_reverse, String.ofList_toList]

/-- A method has as many parameters as its selector asks for. -/
theorem Grammar.Header.regular {signature : Signature} (h : Header ts signature)
    (hts : AllSpelled ts) : argumentsOf signature.selector = signature.parameters.length := by
  cases h with
  | unary hname =>
    have hspelled := hts.cons.1
    rw [hname] at hspelled
    rw [Signature.selector, Token.name_eq_text hspelled]
    exact argumentsOfText_word hspelled
  | binary hoperator _ =>
    have hspelled := hts.cons.1
    rw [hoperator] at hspelled
    exact argumentsOfText_operator hspelled.1 hspelled.2
  | @keyword ts parts hparts _ =>
    have hkeywords : ∀ part ∈ parts, Token.Spelled .keyword part.1.text.toList := by
      intro part hpart
      obtain ⟨us, hus, ⟨hkeyword, -⟩⟩ := hparts.scattered.exists_infix hpart
      have hspelled := (hts.within hus).cons.1
      rw [hkeyword] at hspelled
      exact hspelled
    rw [Signature.selector, Signature.parameters, argumentsOf_joinTexts, List.length_map,
      List.length_map]
    grind

/-- A method whose messages, and which itself, have as many arguments as the selectors ask for. -/
structure Routine.IsRegular (r : Routine) : Prop where
  arity : argumentsOf r.address.selector = r.arity
  statements : statementsRegular r.statements

/-- **A program all of whose methods are regular.** -/
def Program.IsRegular (p : Program) : Prop := ∀ r ∈ p.routines, r.IsRegular

theorem argumentsOf_mainMethod : argumentsOf mainMethod = 0 := by decide

theorem Grammar.Method.regular {m : MethodDef Unit} (h : Method ts m) (hts : AllSpelled ts)
    {className : String} (hr : m.routine? className = some r) : r.IsRegular := by
  obtain ⟨us, vs, rfl, hheader, himplementation⟩ := h.header
  obtain ⟨hus, hvs⟩ := hts.append.2.append
  rw [MethodDef.routine?] at hr
  cases hbody : m.body with
  | primitive name =>
    rw [hbody] at hr
    cases hr
  | code body =>
    rw [hbody] at hr himplementation
    obtain rfl := Option.some.inj hr
    refine ⟨hheader.regular hus, ?_⟩
    cases himplementation with
    | code _ hcontents _ => exact hcontents.regular hvs.cons.2.append.1

/-- **A program that was read without mistakes is regular.** -/
theorem Program.isRegular_of_isValid (h : (parse source).isValid = true) :
    (parse source).IsRegular := by
  have htokens : ∀ t ∈ Token.withoutComments (Token.scan source), t ∈ Token.scan source :=
    fun _ => Token.mem_scan_of_mem_withoutComments
  have hspelled : AllSpelled (Token.withoutComments (Token.scan source)) :=
    fun t ht => Token.spelled_of_mem_scan (htokens t ht)
  have hfile := (ofTokens_iff_file htokens _ _).2 ⟨h, rfl, rfl⟩
  change File _ (parse source).classes (parse source).main at hfile
  generalize Token.withoutComments (Token.scan source) = tokens at hspelled hfile
  intro r hr
  rw [routines, List.mem_append] at hr
  generalize (parse source).main = main at hr hfile
  generalize (parse source).classes = classes at hr hfile
  rcases hr with hr | hr
  · obtain ⟨c, hc, hr⟩ := List.mem_flatMap.1 hr
    obtain ⟨m, hm, hr⟩ := List.mem_filterMap.1 hr
    obtain ⟨ts, hts, hc⟩ := hfile.definitions.exists_infix hc
    obtain ⟨us, hus, hm⟩ := hc.methods.exists_infix hm
    exact hm.regular ((hspelled.within hts).within hus) hr
  · split at hr
    case isFalse => cases hr
    case isTrue =>
      obtain ⟨-, hmain⟩ := hfile
      rw [List.mem_singleton.1 hr]
      exact ⟨argumentsOf_mainMethod, hmain.regular hspelled.append.2⟩

/-! ### Regular blocks -/

theorem exprRegular_of_mem {e d : Expr Unit} (h : exprRegular e) (hd : d ∈ e.children) :
    exprRegular d :=
  ((exprRegular_iff e).1 h).2 d hd

theorem exists_of_mem_exprsRoutines {es : List (Expr Unit)} (h : q ∈ exprsRoutines r n es) :
    ∃ e ∈ es, ∃ k, q ∈ exprRoutines r k e := by
  induction es generalizing n with
  | nil => cases h
  | cons e es ih =>
    rw [exprsRoutines] at h
    grind

/-- The blocks of a regular expression are regular. -/
theorem exprRoutines_regular (e : Expr Unit) : ∀ {r : Routine} {n : Nat},
    exprRegular e → q ∈ exprRoutines r n e → statementsRegular q.statements := by
  induction e using Expr.byChildren with
  | _ e ih =>
    intro r n he hq
    cases hb : e.body? with
    | none =>
      rw [exprRoutines_of_none r n hb] at hq
      obtain ⟨d, hd, k, hq⟩ := exists_of_mem_exprsRoutines hq
      exact ih d hd (exprRegular_of_mem he hd) hq
    | some b =>
      cases e <;> cases hb
      rw [exprRoutines, statementsRoutines_eq] at hq
      rcases List.mem_cons.1 hq with rfl | hq
      · exact he
      · obtain ⟨d, hd, k, hq⟩ := exists_of_mem_exprsRoutines hq
        exact ih d hd (exprRegular_of_mem he hd) hq

/-- The blocks of a regular method are regular. -/
theorem Routine.Has.regular {method : Routine} (h : method.Has n q)
    (hregular : statementsRegular method.statements) : statementsRegular q.statements := by
  have hq := List.mem_of_getElem? h
  rw [Routine.blocks, statementsRoutines_eq] at hq
  obtain ⟨e, he, k, hq⟩ := exists_of_mem_exprsRoutines hq
  obtain ⟨s, hs, rfl⟩ := List.mem_map.1 he
  exact exprRoutines_regular s.value ((statementsRegular_iff _).1 hregular s hs) hq

/-! ### All programs that are compiled -/

/-- A method, not a block. -/
structure Routine.IsMethod (r : Routine) : Prop where
  nest : r.nest = []
  scopes : r.scopes.length = 1
  arity : r.arity ≤ r.slotCount

theorem Routine.IsMethod.block (h : r.IsMethod) : r.block = none := by
  rw [Routine.block, h.nest]
  rfl

theorem Routine.ofMethod_isMethod (address : MethodAddress) (parameters : List Token)
    (body : Body Unit) : (ofMethod address parameters body).IsMethod :=
  ⟨rfl, rfl, arity_le_length_namesOf parameters body.locals⟩

theorem Program.isMethod_of_mem_routines {p : Program} (h : r ∈ p.routines) : r.IsMethod := by
  rw [Program.routines, List.mem_append, List.mem_flatMap] at h
  rcases h with ⟨c, -, hr⟩ | hr
  · obtain ⟨m, -, hm⟩ := List.mem_filterMap.1 hr
    rw [MethodDef.routine?] at hm
    split at hm
    · obtain rfl := Option.some.inj hm
      exact Routine.ofMethod_isMethod _ _ _
    · cases hm
  · split at hr
    · rw [List.mem_singleton.1 hr]
      exact Routine.ofMethod_isMethod _ _ _
    · cases hr

/-- No mistakes were found when the program was read, and all its blocks can be numbered. -/
def Program.IsFit (p : Program) : Prop := p.errors = [] ∧ p.BlocksFit

instance (p : Program) : Decidable p.IsFit :=
  inferInstanceAs (Decidable (p.errors = [] ∧ p.BlocksFit))

/-- A source in four parts, each of which is given by its characters. -/
theorem Program.parse_append {a b c d : String} {as bs cs ds : List Char}
    (ha : a = String.ofList as) (hb : b = String.ofList bs) (hc : c = String.ofList cs)
    (hd : d = String.ofList ds) :
    Program.parse (a ++ b ++ c ++ d) = Program.ofTokens (a ++ b ++ c ++ d)
      (Token.withoutComments (Token.scanText (as ++ bs ++ cs ++ ds))) := by
  subst ha hb hc hd
  rw [Program.parse, (Token.Scans.scanText _).scan_eq.2, ← String.ofList_append,
    ← String.ofList_append, ← String.ofList_append, String.toList_ofList]

namespace Standard

set_option maxRecDepth 100000 in
/-- **The standard classes are well written.** -/
theorem program_isFit : program.IsFit := by
  -- To evaluate the parser on the text itself would decode the text anew for every character.
  have hprogram := Program.parse_append (a := objects) (b := numbers) (c := collections)
    (d := services) rfl rfl rfl rfl
  rw [program, source, hprogram]
  decide +kernel

end Standard

/-- **What is known of a method of a program that was read without mistakes.** -/
structure Routine.IsFit (r : Routine) : Prop where
  isMethod : r.IsMethod
  isRegular : r.IsRegular
  blocks : statementsBlockCount r.statements ≤ 65535

theorem Program.IsFit.routines (h : (parse source).IsFit) :
    ∀ r ∈ (parse source).routines, r.IsFit := by
  have hvalid : (parse source).isValid = true := by
    rw [isValid, h.1]
    rfl
  exact fun r hr => ⟨isMethod_of_mem_routines hr, isRegular_of_isValid hvalid r hr, h.2 r hr⟩

theorem Standard.isFit_of_mem_routines : ∀ r ∈ Standard.program.routines, r.IsFit :=
  Program.IsFit.routines Standard.program_isFit

namespace Compilation

/-- **All programs that are compiled**: the standard classes come first, unless they are left out. -/
def allPrograms (options : CompileOptions) (programs : List Program) : List Program :=
  (if options.standard then [Standard.program] else []) ++ programs

theorem isMethod_of_mem_flatMap {programs : List Program}
    (h : r ∈ programs.flatMap Program.routines) : r.IsMethod := by
  obtain ⟨p, -, hr⟩ := List.mem_flatMap.1 h
  exact Program.isMethod_of_mem_routines hr

/-- The methods of sources without mistakes, and those of the standard classes. -/
theorem isFit_of_mem_allPrograms (options : CompileOptions) {sources : List String}
    (h : ∀ source ∈ sources, (Program.parse source).IsFit) :
    ∀ r ∈ (allPrograms options (sources.map Program.parse)).flatMap Program.routines, r.IsFit := by
  intro r hr
  obtain ⟨p, hp, hr⟩ := List.mem_flatMap.1 hr
  rcases List.mem_append.1 hp with hp | hp
  · split at hp
    · rw [List.mem_singleton.1 hp] at hr
      exact Standard.isFit_of_mem_routines r hr
    · cases hp
  · obtain ⟨source, hsource, rfl⟩ := List.mem_map.1 hp
    exact (h source hsource).routines r hr

end Compilation

end Smalltalk
