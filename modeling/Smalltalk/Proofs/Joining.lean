/-
**Sources that follow each other.**

A line break ends every token that a text can end with, save for a string or a comment that is not
closed. So the tokens of a source that consists of two, with a line break in between, are those of
the first followed by those of the second, which stand further behind. The grammar only asks how
two tokens stand to each other, and so the definitions of the whole are those of the first followed
by those of the second.

* `Program.Defines` — **a source that consists of definitions of classes**;
* `Token.scan_append` — **the tokens of two texts**;
* `Program.Defines.append` — **the classes of two sources**.
-/

import Smalltalk.Proofs.Parsing
import Smalltalk.Proofs.Tiling
import Smalltalk.Proofs.Trees

namespace Smalltalk

variable {ts us : List Token} {offset : Nat} {a : String} {classes : List (ClassDef Unit)}

namespace Token

/-! ### The tokens of a text -/

/-- A token that stands further behind. -/
def shift (k : Nat) (t : Token) : Token := { t with start := t.start + k }

variable {cs : List Char}

namespace Scans

/-- The tokens of a text that starts further behind. -/
theorem shift (h : Scans offset cs ts) (k : Nat) : Scans (offset + k) cs (ts.map (shift k)) := by
  induction h with
  | nil => exact .nil
  | @blank offset c cs ts hc _ ih =>
    refine .blank hc ?_
    rwa [Nat.add_right_comm]
  | @token offset c cs ts hc _ ih =>
    refine .token hc ?_
    have hstop : (cut (offset + k) c cs).stop = (cut offset c cs).stop + k := by
      rw [stop, stop, cut, cut, Nat.add_right_comm]
      rfl
    rwa [hstop]

end Scans

/-- Does the last token need no more characters? -/
def Ended (ts : List Token) : Prop :=
  ∀ t, ts.getLast? = some t → t.kind.isOpen = false ∧ t.kind ≠ .unknown

/-- The tokens of a text that goes on after its last token. -/
theorem lexeme_append_of_scans {c : Char}
    (h : Scans (cut offset c cs).stop ((c :: cs).drop (lexeme c cs).2) ts)
    (hended : Ended (cut offset c cs :: ts)) (ds : List Char) :
    lexeme c (cs ++ '\n' :: ds) = lexeme c cs := by
  cases ts with
  | nil =>
    obtain ⟨hopen, hknown⟩ := hended _ rfl
    refine lexeme_append rfl hopen (fun hc hcs => ?_) ds
    subst hc hcs
    exact hknown rfl
  | cons t ts =>
    obtain ⟨hopen, hne⟩ := h.closed_of_cons
    exact lexeme_append rfl hopen (fun _ => hne) ds

/-- A text that is followed by another one. -/
theorem Scans.append {ds : List Char} (h : Scans offset cs ts) (hended : Ended ts)
    (hds : Scans (offset + (String.ofList cs).utf8ByteSize + 1) ds us) :
    Scans offset (cs ++ '\n' :: ds) (ts ++ us) := by
  have hcons (c : Char) (cs : List Char) : (String.ofList (c :: cs)).utf8ByteSize =
      c.utf8Size + (String.ofList cs).utf8ByteSize := by
    rw [← List.singleton_append, String.ofList_append, String.utf8ByteSize_append,
      ← String.singleton_eq_ofList, String.utf8ByteSize_singleton]
  induction h with
  | nil => exact .blank rfl hds
  | @blank offset c cs ts hc _ ih =>
    refine .blank hc (ih hended ?_)
    rwa [Nat.add_assoc offset, ← hcons]
  | @token offset c cs ts hc hrest ih =>
    have hlexeme := lexeme_append_of_scans hrest hended ds
    have hle := (lexeme_bounds c cs).2.1
    have hcut : cut offset c (cs ++ '\n' :: ds) = cut offset c cs := by
      rw [cut, cut, hlexeme, ← List.cons_append, List.take_append_of_le_length hle]
    rw [List.cons_append, List.cons_append, ← hcut]
    refine .token hc ?_
    rw [hcut, hlexeme, ← List.cons_append, List.drop_append_of_le_length hle]
    refine ih (fun t ht => hended t ?_) ?_
    · rw [List.getLast?_cons, ht, Option.getD_some]
    · have hsize : (cut offset c cs).stop +
          (String.ofList ((c :: cs).drop (lexeme c cs).2)).utf8ByteSize =
            offset + (String.ofList (c :: cs)).utf8ByteSize := by
        rw [stop, cut, length, Nat.add_assoc, ← String.utf8ByteSize_append,
          ← String.ofList_append, List.take_append_drop]
      rwa [hsize]

/-- **The tokens of two texts** with a line break in between. -/
theorem scan_append (hended : Ended (scan a)) (b : String) :
    scan (a ++ "\n" ++ b) = scan a ++ (scan b).map (shift (a.utf8ByteSize + 1)) := by
  have hb := (Scans.scan b).shift (a.utf8ByteSize + 1)
  have hoffset : 0 + (a.utf8ByteSize + 1) = 0 + (String.ofList a.toList).utf8ByteSize + 1 := by
    rw [String.ofList_toList, Nat.add_assoc]
  rw [hoffset] at hb
  have htext : (a ++ "\n" ++ b).toList = a.toList ++ '\n' :: b.toList := by
    rw [String.toList_append, String.toList_append, List.append_assoc]
    rfl
  have hscans := (Scans.scan a).append hended hb
  rw [← htext] at hscans
  exact hscans.scan_eq.2

/-! ### Tokens elsewhere -/

/-- **Tokens that stand elsewhere**, those with a property as near to each other as they were. -/
structure Moves (P : Token → Prop) (g : Token → Token) : Prop where
  kind (t : Token) : (g t).kind = t.kind
  text (t : Token) : (g t).text = t.text
  adjacent {a b : Token} : P a → P b → b.start = a.stop → (g b).start = (g a).stop

theorem shift_moves (k : Nat) : Moves (fun _ => True) (shift k) where
  kind _ := rfl
  text _ := rfl
  adjacent {a b} _ _ h := by
    have hstop : (shift k a).stop = a.stop + k := by
      rw [stop, stop, Nat.add_right_comm]
      rfl
    rw [hstop, ← h]
    rfl

end Token

namespace Grammar

open Token

variable {P : Token → Prop} {g : Token → Token} {α : Type} {as : List α} {t name : Token}
  {value : Literal} {c : ClassDef Unit}

section

variable {β : Type} {L : List Token → α → Prop} {L' : List Token → β → Prop} {f : α → β}

theorem Star.map_of_all (hL : ∀ {ts a}, L ts a → All P ts → L' (ts.map g) (f a)) (h : Star L ts as)
    (hts : All P ts) : Star L' (ts.map g) (as.map f) := by
  induction h with
  | nil => exact .nil
  | snoc _ ha ih =>
    rw [List.map_append, List.map_append]
    exact (ih hts.append.1).snoc (hL ha hts.append.2)

theorem Star.map (hL : ∀ {ts a}, L ts a → L' (ts.map g) (f a)) (h : Star L ts as) :
    Star L' (ts.map g) (as.map f) :=
  h.map_of_all (P := fun _ => True) (fun ha _ => hL ha) fun _ _ => trivial

end

theorem Terminal.map (hg : Moves P g) {k : Kind} (h : Terminal k ts t) :
    Terminal k (ts.map g) (g t) := by
  cases h with
  | mk h => exact .mk ((hg.kind _).trans h)

theorem Variables.map (hg : Moves P g) {names : List Token} (h : Variables ts names) :
    Variables (ts.map g) (names.map g) := by
  cases h with
  | none => exact .none
  | bars hopening hnames hclosing =>
    rw [List.map_cons, List.map_append]
    have hnames := hnames.map (f := g) (Terminal.map hg)
    exact .bars ((hg.kind _).trans hopening) hnames ((hg.kind _).trans hclosing)

theorem Parameter.map (hg : Moves P g) (h : Parameter ts name) : Parameter (ts.map g) (g name) := by
  cases h with
  | mk hcolon hname => exact .mk ((hg.kind _).trans hcolon) ((hg.kind _).trans hname)

theorem Number.map (hg : Moves P g) {negative : Bool} (h : Number negative t value) :
    Number negative (g t) value := by
  have htext := congrArg String.toList (hg.text t)
  cases h with
  | integer hwhole hvalue hlow hhigh =>
    rw [← htext] at hwhole hvalue
    exact .integer hwhole hvalue hlow hhigh
  | float hparts hwhole hvalue => exact .float (htext.trans hparts) hwhole hvalue

theorem Atom.map (hg : Moves P g) (h : Atom t value) : Atom (g t) value := by
  have htext := congrArg String.toList (hg.text t)
  cases h with
  | nilWord h => exact .nilWord ((hg.kind t).trans h)
  | trueWord h => exact .trueWord ((hg.kind t).trans h)
  | falseWord h => exact .falseWord ((hg.kind t).trans h)
  | selfWord h => exact .selfWord ((hg.kind t).trans h)
  | number h hvalue => exact .number ((hg.kind t).trans h) (hvalue.map hg)
  | character h =>
    rw [← htext]
    exact .character ((hg.kind t).trans h)
  | string h =>
    rw [← hg.text t]
    exact .string ((hg.kind t).trans h)
  | symbol h =>
    have hsymbol : (g t).symbolText = t.symbolText := by rw [symbolText, symbolText, hg.text]
    rw [← hsymbol]
    exact .symbol ((hg.kind t).trans h)

mutual

theorem Primary.map (hg : Moves P g) : ∀ {ts : List Token} {e : Expr Unit}, Primary ts e →
    All P ts → Primary (ts.map g) (e.map id g)
  | _, _, .literal h, _ => .literal (h.map hg)
  | _, _, .negative hsign hminus hnumber hadjacent hvalue, hts =>
    .negative ((hg.kind _).trans hsign) ((hg.text _).trans hminus) ((hg.kind _).trans hnumber)
      (hg.adjacent hts.cons.1 hts.cons.2.cons.1 hadjacent) (hvalue.map hg)
  | _, _, .superWord h, _ => .superWord ((hg.kind _).trans h)
  | _, _, .name h, _ => .name ((hg.kind _).trans h)
  | _, _, .block hopening hbody hclosing, hts => by
    rw [List.map_cons, List.map_append]
    exact .block ((hg.kind _).trans hopening) (Contents.map hg hbody hts.cons.2.append.1)
      ((hg.kind _).trans hclosing)
  | _, _, .function hopening hparameters hsome hbar hbody hclosing, hts => by
    have hparameters := hparameters.map (f := g) (Parameter.map hg)
    rw [List.map_cons, List.map_append, List.map_cons, List.map_append]
    exact .function ((hg.kind _).trans hopening) hparameters (by simpa using hsome)
      ((hg.kind _).trans hbar) (Contents.map hg hbody hts.cons.2.append.2.cons.2.append.1)
      ((hg.kind _).trans hclosing)
  | _, _, .bare hopening hparameters hsome hclosing, _ => by
    have hparameters := hparameters.map (f := g) (Parameter.map hg)
    rw [List.map_cons, List.map_append]
    exact .bare ((hg.kind _).trans hopening) hparameters (by simpa using hsome)
      ((hg.kind _).trans hclosing)
  | _, _, .array hopening hitems hclosing, hts => by
    rw [List.map_cons, List.map_append]
    exact .array ((hg.kind _).trans hopening) (Items.map hg hitems hts.cons.2.append.1)
      ((hg.kind _).trans hclosing)
  | _, _, .group hopening he hclosing, hts => by
    rw [List.map_cons, List.map_append]
    exact .group ((hg.kind _).trans hopening) (Expression.map hg he hts.cons.2.append.1)
      ((hg.kind _).trans hclosing)

theorem Unary.map (hg : Moves P g) : ∀ {ts : List Token} {e : Expr Unit}, Unary ts e →
    All P ts → Unary (ts.map g) (e.map id g)
  | _, _, .primary h, hts => .primary (Primary.map hg h hts)
  | _, _, .send h hselector, hts => by
    rw [List.map_append]
    exact .send (Unary.map hg h hts.append.1) ((hg.kind _).trans hselector)

theorem Binary.map (hg : Moves P g) : ∀ {ts : List Token} {e : Expr Unit}, Binary ts e →
    All P ts → Binary (ts.map g) (e.map id g)
  | _, _, .unary h, hts => .unary (Unary.map hg h hts)
  | _, _, .send h hoperator hargument, hts => by
    rw [List.map_append, List.map_cons]
    exact .send (Binary.map hg h hts.append.1) ((hg.kind _).trans hoperator)
      (Unary.map hg hargument hts.append.2.cons.2)

theorem Parts.map (hg : Moves P g) : ∀ {ts keywords : List Token} {arguments : List (Expr Unit)},
    Parts ts keywords arguments → All P ts →
    Parts (ts.map g) (keywords.map g) (Expr.mapAll id g arguments)
  | _, _, _, .nil, _ => .nil
  | _, _, _, .snoc h hkeyword hargument, hts => by
    have h := Parts.map hg h hts.append.1
    rw [Expr.mapAll_eq] at h ⊢
    rw [List.map_append, List.map_cons, List.map_append, List.map_append]
    exact .snoc h ((hg.kind _).trans hkeyword) (Binary.map hg hargument hts.append.2.cons.2)

theorem Expression.map (hg : Moves P g) : ∀ {ts : List Token} {e : Expr Unit}, Expression ts e →
    All P ts → Expression (ts.map g) (e.map id g)
  | _, _, .binary h, hts => .binary (Binary.map hg h hts)
  | _, _, .keyword h hparts hsome, hts => by
    rw [List.map_append]
    exact .keyword (Binary.map hg h hts.append.1) (Parts.map hg hparts hts.append.2)
      (by simpa using hsome)

theorem Elements.map (hg : Moves P g) : ∀ {ts : List Token} {items : List (Expr Unit)},
    Elements ts items → All P ts → Elements (ts.map g) (Expr.mapAll id g items)
  | _, _, .nil, _ => .nil
  | _, _, .snoc h he hdot, hts => by
    have h := Elements.map hg h hts.append.1
    rw [Expr.mapAll_eq] at h ⊢
    rw [List.map_append, List.map_append, List.map_append]
    exact .snoc h (Expression.map hg he hts.append.2.append.1) ((hg.kind _).trans hdot)

theorem Items.map (hg : Moves P g) : ∀ {ts : List Token} {items : List (Expr Unit)}, Items ts items →
    All P ts → Items (ts.map g) (Expr.mapAll id g items)
  | _, _, .closed h, hts => .closed (Elements.map hg h hts)
  | _, _, .last h he, hts => by
    have h := Elements.map hg h hts.append.1
    rw [Expr.mapAll_eq] at h ⊢
    rw [List.map_append, List.map_append]
    exact .last h (Expression.map hg he hts.append.2)

theorem Sentence.map (hg : Moves P g) : ∀ {ts : List Token} {s : Statement Unit}, Sentence ts s →
    All P ts → Sentence (ts.map g) (s.map id g)
  | _, _, .assignment htarget hsign he, hts =>
    .assignment ((hg.kind _).trans htarget) ((hg.kind _).trans hsign)
      (Expression.map hg he hts.cons.2.cons.2)
  | _, _, .answer hcaret he, hts =>
    .answer ((hg.kind _).trans hcaret) (Expression.map hg he hts.cons.2)
  | _, _, .expression he, hts => .expression (Expression.map hg he hts)

theorem Sentences.map (hg : Moves P g) : ∀ {ts : List Token} {ss : List (Statement Unit)},
    Sentences ts ss → All P ts → Sentences (ts.map g) (Statement.mapAll id g ss)
  | _, _, .nil, _ => .nil
  | _, _, .snoc h hs hdots hsome, hts => by
    have h := Sentences.map hg h hts.append.1
    have hdots := hdots.map (f := g) (Terminal.map hg)
    rw [Statement.mapAll_eq] at h ⊢
    rw [List.map_append, List.map_append, List.map_append]
    exact .snoc h (Sentence.map hg hs hts.append.2.append.1) hdots (by simpa using hsome)

theorem Statements.map (hg : Moves P g) : ∀ {ts : List Token} {ss : List (Statement Unit)},
    Statements ts ss → All P ts → Statements (ts.map g) (Statement.mapAll id g ss)
  | _, _, .closed h, hts => .closed (Sentences.map hg h hts)
  | _, _, .last h hs, hts => by
    have h := Sentences.map hg h hts.append.1
    rw [Statement.mapAll_eq] at h ⊢
    rw [List.map_append, List.map_append]
    exact .last h (Sentence.map hg hs hts.append.2)

theorem Contents.map (hg : Moves P g) : ∀ {ts locals : List Token} {ss : List (Statement Unit)},
    Contents ts locals ss → All P ts →
    Contents (ts.map g) (locals.map g) (Statement.mapAll id g ss)
  | _, _, _, .mk hlocals h, hts => by
    rw [List.map_append]
    exact .mk (hlocals.map hg) (Statements.map hg h hts.append.2)

end

section

variable (hg : Moves P g)

include hg

theorem HeaderPart.map {part : Token × Token} (h : HeaderPart ts part) :
    HeaderPart (ts.map g) (g part.1, g part.2) := by
  cases h with
  | mk hkeyword hparameter => exact .mk ((hg.kind _).trans hkeyword) ((hg.kind _).trans hparameter)

theorem Header.map {signature : Signature} (h : Header ts signature) :
    Header (ts.map g) (signature.map g) := by
  cases h with
  | unary h => exact .unary ((hg.kind _).trans h)
  | binary hoperator hparameter =>
    exact .binary ((hg.kind _).trans hoperator) ((hg.kind _).trans hparameter)
  | keyword h hsome =>
    have h := h.map (f := fun part => (g part.1, g part.2)) (HeaderPart.map hg)
    exact .keyword h (by simpa using hsome)

theorem Implementation.map {body : MethodBody Unit} (h : Implementation ts body) (hts : All P ts) :
    Implementation (ts.map g) (body.map g) := by
  cases h with
  | code hopening hbody hclosing =>
    rw [List.map_cons, List.map_append]
    exact .code ((hg.kind _).trans hopening) (hbody.map hg hts.cons.2.append.1)
      ((hg.kind _).trans hclosing)
  | primitive hless hword hname hgreater =>
    have hsame (t : Token) {k : Kind} {text : String} (h : t.kind = k ∧ t.text = text) :
        (g t).kind = k ∧ (g t).text = text := ⟨(hg.kind t).trans h.1, (hg.text t).trans h.2⟩
    exact .primitive (hsame _ hless) (hsame _ hword) ((hg.kind _).trans hname) (hsame _ hgreater)

theorem Method.map {m : MethodDef Unit} (h : Method ts m) (hts : All P ts) :
    Method (ts.map g) (m.map g) := by
  cases h with
  | instanceSide hheader hbody =>
    rw [List.map_append]
    exact .instanceSide (hheader.map hg) (hbody.map hg hts.append.2)
  | classSide hword hheader hbody =>
    rw [List.map_cons, List.map_append]
    exact .classSide ((hg.kind _).trans hword) (hheader.map hg) (hbody.map hg hts.cons.2.append.2)

theorem Heading.map {superclass : Option Token} (h : Heading ts name superclass) :
    Heading (ts.map g) (g name) (superclass.map g) := by
  cases h with
  | root hname => exact .root ((hg.kind _).trans hname)
  | sub hname hcolon hparent =>
    exact .sub ((hg.kind _).trans hname) ((hg.kind _).trans hcolon) ((hg.kind _).trans hparent)
  | joined hname hparent => exact .joined ((hg.kind _).trans hname) ((hg.kind _).trans hparent)

/-- **The definition of a class reads the same wherever it stands.** -/
theorem Definition.map (h : Definition ts c) (hts : All P ts) :
    Definition (ts.map g) (c.map g) := by
  cases h with
  | mk hword hheading hopening hfields hmethods hclosing =>
    have hmethods := hmethods.map_of_all (f := MethodDef.map g) (Method.map hg)
      hts.cons.2.append.2.cons.2.append.2.append.1
    rw [List.map_cons, List.map_append, List.map_cons, List.map_append, List.map_append]
    exact .mk ((hg.kind _).trans hword) (hheading.map hg) ((hg.kind _).trans hopening)
      (hfields.map hg) hmethods ((hg.kind _).trans hclosing)

/-- **A program reads the same wherever it stands.** -/
theorem File.map {main : Body Unit} (h : File ts classes main) (hts : All P ts) :
    File (ts.map g) (classes.map (ClassDef.map g)) (main.map id g) := by
  cases h with
  | mk hclasses hmain =>
    rw [List.map_append]
    exact .mk (hclasses.map_of_all (Definition.map hg) hts.append.1) (hmain.map hg hts.append.2)

end

theorem Definition.getLast? (h : Definition ts c) :
    ∃ closing, ts.getLast? = some closing ∧ closing.kind = .rightSquare := by
  cases h with
  | @mk word name opening closing superclass hs vs fields ms methods _ _ _ _ _ hclosing =>
    grind

theorem Star.append {L : List Token → α → Prop} {bs : List α} (ha : Star L ts as)
    (hb : Star L us bs) : Star L (ts ++ us) (as ++ bs) := by
  induction hb with
  | nil => simpa using ha
  | snoc _ hlast ih =>
    rw [← List.append_assoc, ← List.append_assoc]
    exact ih.snoc hlast

end Grammar

/-! ### Sources of classes -/

namespace Program

open Grammar

/-- **The source consists of definitions of classes**, with comments between them perhaps. -/
def Defines (source : String) (classes : List (ClassDef Unit)) : Prop :=
  Star Definition (Token.withoutComments (Token.scan source)) classes

variable {source b : String} {cs ds : List (ClassDef Unit)}

/-- Such a source is read without mistakes, and there is nothing to run at its top level. -/
theorem Defines.parse (h : Defines source classes) : (Program.parse source).isValid = true ∧
    (Program.parse source).classes = classes ∧ (Program.parse source).main = ⟨[], []⟩ := by
  refine (file_iff source classes ⟨[], []⟩).1 ?_
  have hfile : File (Token.withoutComments (Token.scan source) ++ []) classes ⟨[], []⟩ :=
    .mk h (.mk .none (.closed .nil))
  rwa [List.append_nil] at hfile

/-- A source without top-level variables and statements, and without bars for them, is one. -/
theorem defines_of_parse (hvalid : (Program.parse source).isValid = true)
    (hmain : (Program.parse source).hasMain = false)
    (hlast : ((Token.withoutComments (Token.scan source)).getLast?.map Token.kind) ≠ some .pipe) :
    Defines source (Program.parse source).classes := by
  have hempty : (Program.parse source).main = ⟨[], []⟩ := by
    rw [hasMain, Bool.or_eq_false_iff, Bool.not_eq_false', Bool.not_eq_false', List.isEmpty_iff,
      List.isEmpty_iff] at hmain
    generalize (Program.parse source).main = main at hmain ⊢
    obtain ⟨locals, statements⟩ := main
    obtain ⟨rfl, rfl⟩ := hmain
    rfl
  have hfile := (file_iff source _ _).2 ⟨hvalid, rfl, hempty⟩
  unfold Defines
  generalize Token.withoutComments (Token.scan source) = tokens at hfile hlast ⊢
  cases hfile with
  | @mk cs _ _ _ _ hclasses hmain =>
    cases hmain with
    | mk hlocals hstatements =>
      generalize hnone : ([] : List (Statement Unit)) = statements at hstatements
      cases hstatements with
      | last => simp at hnone
      | closed hsentences =>
        cases hsentences with
        | snoc => simp at hnone
        | nil =>
          cases hlocals with
          | none => simpa using hclasses
          | @bars opening closing ts _ hopening hnames hclosing =>
            grind

/-- The last token of such a source closes a class or is a comment. -/
theorem Defines.ended (h : Defines source classes) : Token.Ended (Token.scan source) := by
  intro t ht
  by_cases hcomment : t.kind = .comment
  · rw [hcomment]
    decide
  obtain ⟨ts, hts⟩ := List.getLast?_eq_some_iff.1 ht
  have hlast : (Token.withoutComments (Token.scan source)).getLast? = some t := by
    rw [hts, Token.withoutComments, List.filter_append]
    simp [hcomment]
  suffices hclosing : t.kind = .rightSquare by
    rw [hclosing]
    decide
  unfold Defines at h
  generalize Token.withoutComments (Token.scan source) = us at h hlast
  cases h with
  | nil => simp at hlast
  | snoc _ hc =>
    obtain ⟨closing, hus, hkind⟩ := hc.getLast?
    grind

/-- **Two sources of classes are one**, with a line break in between. -/
theorem Defines.append (ha : Defines a cs) (hb : Defines b ds) : Defines (a ++ "\n" ++ b)
    (cs ++ ds.map (ClassDef.map (Token.shift (a.utf8ByteSize + 1)))) := by
  have hmoved := Star.map_of_all (f := ClassDef.map (Token.shift (a.utf8ByteSize + 1)))
    (Definition.map (Token.shift_moves (a.utf8ByteSize + 1))) hb fun _ _ => trivial
  have htokens : Token.withoutComments (Token.scan (a ++ "\n" ++ b)) =
      Token.withoutComments (Token.scan a) ++
        (Token.withoutComments (Token.scan b)).map (Token.shift (a.utf8ByteSize + 1)) := by
    rw [Token.scan_append ha.ended, Token.withoutComments, List.filter_append, List.filter_map]
    rfl
  rw [Defines, htokens]
  exact Star.append ha hmoved

end Program

end Smalltalk
