/-
**Reading a source and the grammar agree.**

What the grammar allows is read, and nothing else. The one direction is a matter of the readers of
expressions and bodies, and here of those of definitions: what comes after each part of a definition
is fixed by how the next part starts.

* `Program.parse_iff_file` — **a source is read without mistakes exactly if its tokens are
  a program of the grammar**, and its tree is then the one they spell.
-/

import Smalltalk.Proofs.Tiling
import Smalltalk.Proofs.ParseComplete

namespace Smalltalk

open Grammar

variable {ts us : List Token} {P : Token → Prop} {t : Token} {body : MethodBody Unit}
  {m : MethodDef Unit} {c : ClassDef Unit}

namespace Grammar

/-- All of some tokens have a property. -/
def All (P : Token → Prop) (ts : List Token) : Prop := ∀ t ∈ ts, P t

theorem All.append (h : All P (ts ++ us)) : All P ts ∧ All P us := List.forall_mem_append.1 h

theorem All.cons (h : All P (t :: ts)) : P t ∧ All P ts :=
  List.forall_mem_cons.1 h

/-! ### How definitions start -/

/-- Does a method header start at a token of this kind? -/
def startsHeader (k : Token.Kind) : Bool := k = .identifier || k = .operator || k = .keyword

theorem HeaderPart.starts {part : Token × Token} (h : HeaderPart ts part) :
    Starts (· = .keyword) ts := by
  obtain ⟨hkeyword, -⟩ := h
  exact .cons (decide_eq_true hkeyword)

theorem Header.starts {signature : Signature} (h : Header ts signature) :
    Starts startsHeader ts := by
  cases h with
  | unary hname => exact .cons (by rw [hname]; rfl)
  | binary hoperator => exact .cons (by rw [hoperator]; rfl)
  | keyword hparts hsome =>
    refine (hparts.starts (fun _ _ => HeaderPart.starts) hsome).imp ?_
    intro k hk
    rw [of_decide_eq_true hk]
    rfl

theorem Implementation.starts (h : Implementation ts body) :
    Starts (fun k => k = .leftSquare || k = .operator) ts := by
  cases h with
  | code hopening => exact .cons (by rw [hopening]; rfl)
  | primitive hless => exact .cons (by rw [hless.1]; rfl)

theorem Method.starts (h : Grammar.Method ts m) :
    Starts (fun k => k = .classWord || startsHeader k) ts := by
  cases h with
  | instanceSide hheader =>
    refine (hheader.starts.imp ?_).append _
    intro k hk
    rw [hk, Bool.or_true]
  | classSide hword => exact .cons (by rw [hword]; rfl)

theorem Definition.starts (h : Definition ts c) : Starts (· = .classWord) ts := by
  obtain ⟨hword⟩ := h
  exact .cons (decide_eq_true hword)

end Grammar

namespace Reader

variable {s : ReaderState}

/-! ### Methods -/

variable {header : Signature} {name : Token}

theorem takes_keywordSignature {parts : List (Token × Token)} (hready : s.Ready)
    (h : Star HeaderPart ts parts) (hs : ts <+: s.rest) (hend : (s.advance ts).kind ≠ .keyword) :
    Takes s keywordSignature ts (some (.keyword parts)) := by
  have harrives := arrives_star keywordStep (fun parts => (parts.toArray, true)) hready ?_ ?_ h hs
  · rw [keywordSignature]
    have hstop : Takes (s.advance ts) (keywordStep (parts.toArray, true)) []
        ((parts.toArray, true), false) := by
      refine Takes.kind ?_
      rw [if_pos hend]
      exact .pure _
    exact (harrives.done hstop).map _
  · exact fun _ _ hpart => hpart.starts.ne_nil
  · rintro s' _ parts _ - ⟨hkeyword, hparameter⟩ hus
    obtain ⟨hfirst, hus'⟩ := s'.front_of_cons hus
    have hk := (s'.kind_of_front hus).trans hkeyword
    refine Takes.kind ?_
    rw [if_neg (not_not_intro hk), ← List.push_toArray]
    refine (Takes.next hfirst).bind ?_
    exact (Takes.expectIdentifier (ReaderState.front_of_cons hus').1 hparameter).bind_nil (.pure _)

theorem takes_signature (hready : s.Ready) (h : Header ts header) (hs : ts <+: s.rest)
    (hend : (s.advance ts).kind ≠ .keyword) : Takes s signature ts (some header) := by
  refine Takes.kind ?_
  cases h with
  | unary hname =>
    rw [(s.kind_of_front hs).trans hname]
    exact (Takes.next (s.front_of_cons hs).1).map _
  | binary hoperator hparameter =>
    obtain ⟨hfirst, hs'⟩ := s.front_of_cons hs
    rw [(s.kind_of_front hs).trans hoperator]
    refine (Takes.next hfirst).bind ?_
    exact (Takes.expectIdentifier (ReaderState.front_of_cons hs').1 hparameter).map _
  | keyword hparts hsome =>
    rw [of_decide_eq_true ((hparts.starts (fun _ _ => HeaderPart.starts) hsome).kind hs)]
    exact takes_keywordSignature hready hparts hs hend

/-- A token with a given text is next. -/
theorem isText_of_front {k : Token.Kind} {text : String} (hs : t :: us <+: s.rest)
    (ht : t.kind = k ∧ t.text = text) : isText k text s = (true, s) := by
  rw [isText_apply, s.kind_of_front hs, current_of_front hs, ht.1, ht.2]
  simp

theorem takes_primitiveBody {less word greater : Token}
    (hword : word.kind = .keyword ∧ word.text = "primitive:") (hname : name.kind = .symbol)
    (hgreater : greater.kind = .operator ∧ greater.text = ">")
    (hs : [less, word, name, greater] <+: s.rest) :
    Takes s primitiveBody [less, word, name, greater] (some (.primitive name)) := by
  obtain ⟨hfirst, hs₁⟩ := s.front_of_cons hs
  obtain ⟨hsecond, hs₂⟩ := ReaderState.front_of_cons hs₁
  obtain ⟨hthird, hs₃⟩ := ReaderState.front_of_cons hs₂
  obtain ⟨hfourth, -⟩ := ReaderState.front_of_cons hs₃
  refine (Takes.skip hfirst).bind (Takes.look (isText_of_front hs₁ hword) ?_)
  refine (Takes.skip hsecond).bind ((Takes.expect hthird hname).bind ?_)
  refine Takes.look (isText_of_front hs₃ hgreater) ?_
  exact (Takes.skip hfourth).map _

theorem takes_methodBody (hready : s.Ready) (h : Implementation ts body) (hs : ts <+: s.rest) :
    Takes s methodBody ts (some body) := by
  cases h with
  | code hopening hbody hclosing =>
    obtain ⟨hfirst, hs'⟩ := s.front_of_cons hs
    obtain ⟨hts, hlast⟩ := ReaderState.front_of_append hs'
    have hend := (ReaderState.kind_of_front hlast).trans hclosing
    refine Takes.look (isText_apply _ _ _) ?_
    rw [if_neg (by rw [(s.kind_of_front hs).trans hopening]; simp)]
    refine (Takes.expect hfirst hopening).bind ?_
    refine (takes_body (hready.advance _) (takes_expression _) hbody hts (Nat.lt_succ_self _)
      (by rw [hend]; rfl)).bind ?_
    exact (Takes.expect (ReaderState.front_of_cons hlast).1 hclosing).map _
  | primitive hless hword hname hgreater =>
    refine Takes.look (isText_of_front hs hless) ?_
    exact takes_primitiveBody hword hname hgreater hs

/-- A header and what implements it. -/
theorem takes_headerBody (word : Option Token) (hready : s.Ready) (hheader : Header ts header)
    (hbody : Implementation us body) (hs : ts ++ us <+: s.rest) :
    Takes s (signature >>= fun signature? =>
      match signature? with
      | none => pure none
      | some signature => methodBody >>= fun body? =>
        pure (body?.map fun body => ⟨word, signature, body⟩)) (ts ++ us)
      (some (⟨word, header, body⟩ : MethodDef Unit)) := by
  obtain ⟨hts, hus⟩ := s.front_of_append hs
  have hend : (s.advance ts).kind ≠ .keyword := by
    intro hk
    have hkind := hbody.starts.kind hus
    rw [hk] at hkind
    cases hkind
  refine (takes_signature hready hheader hts hend).bind ?_
  exact (takes_methodBody (hready.advance _) hbody hus).map _

theorem takes_method (hready : s.Ready) (h : Grammar.Method ts m) (hs : ts <+: s.rest) :
    Takes s method ts (some m) := by
  rw [method]
  cases h with
  | instanceSide hheader hbody =>
    have hmark : Takes s classMark [] none := by
      refine Takes.kind ?_
      rw [if_neg]
      · exact .pure _
      · intro hk
        have hkind := (hheader.starts.append _).kind hs
        rw [hk] at hkind
        cases hkind
    exact hmark.bind (takes_headerBody none hready hheader hbody hs)
  | @classSide word _ _ _ _ hword hheader hbody =>
    obtain ⟨hfirst, hs'⟩ := s.front_of_cons hs
    have hmark : Takes s classMark [word] (some word) := by
      refine Takes.kind ?_
      rw [if_pos ((s.kind_of_front hs).trans hword)]
      exact (Takes.next hfirst).map _
    exact hmark.bind (takes_headerBody (some word) (hready.advance _) hheader hbody hs')

theorem takes_methods {methods : List (MethodDef Unit)} (hready : s.Ready)
    (h : Star Grammar.Method ts methods) (hs : ts <+: s.rest)
    (hend : (s.advance ts).kind = .rightSquare) :
    Takes s (loopWhile (fun k => k ≠ .rightSquare && k ≠ .endOfFile) methodStep #[]) ts
      methods.toArray := by
  have harrives := arrives_star
    (whileStep (fun k => k ≠ .rightSquare && k ≠ .endOfFile) methodStep) List.toArray hready
    (fun _ _ hm => hm.ne_nil) ?_ h hs
  · exact harrives.done (Takes.whileStop _ _ (by rw [hend]; rfl))
  · intro s' us ms m hready' hm hus
    rw [← List.push_toArray]
    refine Takes.whileStep ?_ ((takes_method hready' hm hus).bind_nil (.pure _))
    have hkind := hm.starts.kind hus
    revert hkind
    generalize s'.kind = k
    cases k <;> decide

/-! ### Classes and programs -/

theorem takes_classHeader {superclass : Option Token} (word : Token)
    (h : Heading ts name superclass) (hs : ts <+: s.rest) (hend : (s.advance ts).kind ≠ .colon) :
    Takes s (classHeader word) ts (name, superclass) := by
  refine Takes.kind ?_
  cases h with
  | root hname =>
    rw [if_neg (by rw [(s.kind_of_front hs).trans hname]; decide)]
    refine (Takes.expectIdentifier (s.front_of_cons hs).1 hname).bind_nil ?_
    exact (Takes.refuse hend).bind_nil (.pure _)
  | sub hname hcolon hparent =>
    obtain ⟨hfirst, hs₁⟩ := s.front_of_cons hs
    obtain ⟨hsecond, hs₂⟩ := ReaderState.front_of_cons hs₁
    rw [if_neg (by rw [(s.kind_of_front hs).trans hname]; decide)]
    refine (Takes.expectIdentifier hfirst hname).bind ((Takes.accept hsecond hcolon).bind ?_)
    exact (Takes.expectIdentifier (ReaderState.front_of_cons hs₂).1 hparent).map _
  | joined hname hparent =>
    obtain ⟨hfirst, hs'⟩ := s.front_of_cons hs
    rw [if_pos ((s.kind_of_front hs).trans hname)]
    refine (Takes.next hfirst).bind ?_
    exact (Takes.expectIdentifier (ReaderState.front_of_cons hs').1 hparent).map _

/-- **A class definition** is taken. -/
theorem takes_classDef (hready : s.Ready) (h : Definition ts c) (hs : ts <+: s.rest) :
    Takes s classDef ts c := by
  obtain ⟨hword, hheading, hopening, hfields, hmethods, hclosing⟩ := h
  obtain ⟨hfirst, hs₁⟩ := s.front_of_cons hs
  obtain ⟨hhs, hs₂⟩ := ReaderState.front_of_append hs₁
  obtain ⟨hsecond, hs₃⟩ := ReaderState.front_of_cons hs₂
  obtain ⟨hvs, hs₄⟩ := ReaderState.front_of_append hs₃
  obtain ⟨hms, hlast⟩ := ReaderState.front_of_append hs₄
  have hend := (ReaderState.kind_of_front hlast).trans hclosing
  have hpipe : decide (_ ≠ Token.Kind.pipe) = true :=
    kind_of_follow (p := fun k => decide (k ≠ .pipe))
      (hmethods.eq_nil_or_starts fun _ _ => Method.starts) hms (by intro k; cases k <;> decide)
      (by rw [hend]; rfl)
  rw [classDef]
  refine (Takes.next hfirst).bind ?_
  refine (takes_classHeader _ hheading hhs ?_).bind ?_
  · rw [(ReaderState.kind_of_front hs₂).trans hopening]
    decide
  refine (Takes.expect hsecond hopening).bind ?_
  refine (takes_optionalDeclarations (((hready.advance _).advance _).advance _) hfields hvs
    (of_decide_eq_true hpipe)).bind ?_
  refine (takes_methods ((((hready.advance _).advance _).advance _).advance _) hmethods hms
    hend).bind ?_
  exact (Takes.expect (ReaderState.front_of_cons hlast).1 hclosing).map _

/-- **A whole program** is taken. -/
theorem takes_program {classes : List (ClassDef Unit)} {main : Body Unit} (hready : s.Ready)
    (h : File ts classes main) (hs : s.rest = ts) : Takes s program ts (classes, main) := by
  obtain @⟨cs, ts, _, _, _, hclasses, hmain⟩ := h
  obtain ⟨hcs, hts⟩ : cs <+: s.rest ∧ ts <+: (s.advance cs).rest := by
    exact s.front_of_append (hs ▸ List.prefix_refl _)
  have hready' := (hready.advance cs).advance ts
  have hrest : ((s.advance cs).advance ts).rest = [] := by
    rw [← s.advance_append]
    refine ReaderState.rest_advance ?_
    rw [hs, List.append_nil]
  have hend := ReaderState.kind_of_rest_eq_nil hready' hrest
  have hclass : decide ((s.advance cs).kind ≠ .classWord) = true :=
    kind_of_follow (p := fun k => decide (k ≠ .classWord)) hmain.eq_nil_or_starts hts
      (by intro k; cases k <;> decide) (by rw [hend]; rfl)
  have harrives := arrives_star (whileStep (· = .classWord) classStep) List.toArray hready
    (fun _ _ hc => hc.ne_nil) ?_ hclasses hcs
  · rw [program]
    have hstop := decide_eq_false (of_decide_eq_true hclass)
    refine (harrives.done (Takes.whileStop _ _ hstop)).bind ?_
    refine (takes_body (hready.advance _) (takes_expression _) hmain hts (Nat.lt_succ_self _)
      (by rw [hend]; rfl)).bind_nil ?_
    refine Takes.bind_nil (a := ()) (Takes.kind ?_) (.pure _)
    rw [hend]
    exact .pure _
  · intro s' us cs c hready' hc hus
    rw [← List.push_toArray]
    exact Takes.whileStep (hc.starts.kind hus) ((takes_classDef hready' hc hus).map _)

end Reader

namespace Program

variable {source : String} {tokens : List Token}

/-- The state in which some tokens of a source are about to be read. -/
def readerStart (source : String) (tokens : List Token) : ReaderState :=
  ⟨tokens, .atEnd source.utf8ByteSize, .atEnd source.utf8ByteSize, #[], tokens.length + 1, false⟩

theorem ready_readerStart (h : ∀ t ∈ tokens, t ∈ Token.scan source) :
    (readerStart source tokens).Ready where
  limit := Nat.lt_succ_self _
  atEnd := rfl
  proper t ht hk := by
    have hspelled := Token.spelled_of_mem_scan (h t ht)
    rw [hk] at hspelled
    exact hspelled

theorem ofTokens_eq (source : String) (tokens : List Token) :
    ofTokens source tokens =
      ⟨source, tokens, (Reader.program (readerStart source tokens)).1.1,
        (Reader.program (readerStart source tokens)).1.2,
        (Reader.program (readerStart source tokens)).2.errors.toList⟩ := rfl

theorem isValid_ofTokens_iff (source : String) (tokens : List Token) :
    (ofTokens source tokens).isValid = true ↔
      (Reader.program (readerStart source tokens)).2.errors.size =
        (readerStart source tokens).errors.size := by
  rw [ofTokens_eq, isValid, List.isEmpty_iff_length_eq_zero]
  rfl

theorem ofTokens_iff_file (h : ∀ t ∈ tokens, t ∈ Token.scan source) (classes : List (ClassDef Unit))
    (main : Body Unit) :
    File tokens classes main ↔ (ofTokens source tokens).isValid = true ∧
      (ofTokens source tokens).classes = classes ∧ (ofTokens source tokens).main = main := by
  have hready := ready_readerStart h
  constructor
  · intro hfile
    have htakes := Reader.takes_program hready hfile rfl
    rw [isValid_ofTokens_iff, ofTokens_eq, htakes]
    exact ⟨rfl, rfl, rfl⟩
  · rintro ⟨hvalid, rfl, rfl⟩
    obtain ⟨ts, -, rfl, hfile⟩ :=
      Reader.reads_program hready ((isValid_ofTokens_iff source tokens).1 hvalid)
    exact hfile

/-- The program that the tokens of a source spell is the one that is read. -/
theorem file_iff (source : String) (classes : List (ClassDef Unit)) (main : Body Unit) :
    File (Token.withoutComments (Token.scan source)) classes main ↔
      (parse source).isValid = true ∧ (parse source).classes = classes ∧
        (parse source).main = main :=
  ofTokens_iff_file (fun _ h => Token.mem_scan_of_mem_withoutComments h) classes main

/-- **A source is read without mistakes exactly if its tokens are a program of the grammar**, and
the tree that is built is the one they spell. -/
theorem parse_iff_file (source : String) :
    ((parse source).isValid = true ↔
      ∃ classes main, File (Token.withoutComments (Token.scan source)) classes main) ∧
    ∀ classes main, File (Token.withoutComments (Token.scan source)) classes main ↔
      (parse source).isValid = true ∧ (parse source).classes = classes ∧
        (parse source).main = main := by
  have hiff := file_iff source
  refine ⟨⟨fun hvalid => ⟨_, _, (hiff _ _).2 ⟨hvalid, rfl, rfl⟩⟩, ?_⟩, hiff⟩
  rintro ⟨classes, main, hfile⟩
  exact ((hiff classes main).1 hfile).1

end Program

end Smalltalk
