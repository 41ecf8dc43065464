/-
**The parts of what the grammar allows.**

What the grammar allows as an expression is made of expressions that it allows, which are spelled
one after the other among the tokens of the whole. So a property of all trees of the grammar can be
shown by induction on the tree, whatever the rules are.

* `Grammar.Scattered` — **trees that are spelled one after the other**, with tokens in between;
* `Grammar.Expression.children` — **the parts of an expression**.
-/

import Smalltalk.Proofs.Parsing
import Smalltalk.Proofs.Routines

namespace Smalltalk.Grammar

variable {α β : Type} {L : List Token → α → Prop} {ts us : List Token} {as : List α} {a : α}
  {e : Expr Unit}

theorem All.within {P : Token → Prop} (h : All P ts) (hus : us <:+: ts) : All P us :=
  fun t ht => h t (hus.subset ht)

/-! ### Trees among other tokens -/

/-- **Trees that are spelled one after the other**, with any tokens before, between and after
them. -/
inductive Scattered (L : List Token → α → Prop) : List Token → List α → Prop where
  | nil (ts : List Token) : Scattered L ts []
  | snoc {ts us : List Token} {as : List α} {a : α} (h : Scattered L ts as)
      (front back : List Token) (ha : L us a) :
      Scattered L (ts ++ (front ++ (us ++ back))) (as ++ [a])

namespace Scattered

theorem last (h : Scattered L ts as) (front : List Token) (ha : L us a) :
    Scattered L (ts ++ (front ++ us)) (as ++ [a]) := by
  have h' := h.snoc front [] ha
  rwa [List.append_nil] at h'

/-- Some trees, and others after them. -/
theorem join {bs : List α} (h : Scattered L ts as) (h' : Scattered L us bs) :
    Scattered L (ts ++ us) (as ++ bs) := by
  induction h' with
  | nil vs =>
    rw [List.append_nil]
    cases h with
    | nil => exact .nil _
    | snoc h front back ha =>
      have hmore := h.snoc front (back ++ vs) ha
      simpa only [List.append_assoc] using hmore
  | snoc _ front back ha ih =>
    rw [← List.append_assoc ts, ← List.append_assoc as]
    exact ih.snoc front back ha

theorem before (h : Scattered L ts as) (vs : List Token) : Scattered L (ts ++ vs) as := by
  have h' := h.join (.nil vs)
  rwa [List.append_nil] at h'

theorem after (h : Scattered L ts as) (vs : List Token) : Scattered L (vs ++ ts) as :=
  (nil vs).join h

/-- Each of the trees is spelled by tokens that follow each other. -/
theorem exists_infix (h : Scattered L ts as) (ha : a ∈ as) : ∃ us, us <:+: ts ∧ L us a := by
  induction h with
  | nil => cases ha
  | @snoc ts us as b _ front back hb ih =>
    rcases List.mem_append.1 ha with ha | ha
    · obtain ⟨vs, hvs, hL⟩ := ih ha
      exact ⟨vs, hvs.trans (List.infix_append [] _ _), hL⟩
    · obtain rfl := List.mem_singleton.1 ha
      refine ⟨us, ⟨ts ++ front, back, ?_⟩, hb⟩
      simp only [List.append_assoc]

theorem map {M : List Token → β → Prop} {f : α → β}
    (hf : ∀ us a, L us a → ∃ front vs, us = front ++ vs ∧ M vs (f a)) (h : Scattered L ts as) :
    Scattered M ts (as.map f) := by
  induction h with
  | nil => exact .nil _
  | snoc _ front back ha ih =>
    obtain ⟨front', vs, rfl, hM⟩ := hf _ _ ha
    have h' := ih.snoc (front ++ front') back hM
    simpa only [List.append_assoc, List.map_append, List.map_singleton] using h'

end Scattered

theorem Star.scattered (h : Star L ts as) : Scattered L ts as := by
  induction h with
  | nil => exact .nil _
  | snoc _ ha ih => exact ih.last [] ha

/-! ### The parts of an expression -/

theorem Parts.scattered {ts keywords : List Token} {arguments : List (Expr Unit)} :
    Parts ts keywords arguments → Scattered Expression ts arguments
  | .nil => .nil _
  | .snoc h _ hargument => h.scattered.last [_] (.binary hargument)

theorem Elements.scattered {ts : List Token} {items : List (Expr Unit)} :
    Elements ts items → Scattered Expression ts items
  | .nil => .nil _
  | .snoc h he _ => h.scattered.snoc [] [_] he

theorem Items.scattered {items : List (Expr Unit)} (h : Items ts items) :
    Scattered Expression ts items := by
  cases h with
  | closed h => exact h.scattered
  | last h he => exact h.scattered.last [] he

theorem Sentences.scattered {ts : List Token} {ss : List (Statement Unit)} :
    Sentences ts ss → Scattered Sentence ts ss
  | .nil => .nil _
  | .snoc h hs _ _ => h.scattered.snoc [] _ hs

/-- **The statements of a body** are spelled one after the other. -/
theorem Contents.scattered {locals : List Token} {ss : List (Statement Unit)}
    (h : Contents ts locals ss) : Scattered Sentence ts ss := by
  obtain ⟨-, hss⟩ := h
  refine Scattered.after ?_ _
  cases hss with
  | closed h => exact h.scattered
  | last h hs => exact h.scattered.last [] hs

theorem Sentence.value {s : Statement Unit} (h : Sentence ts s) :
    ∃ front us, ts = front ++ us ∧ Expression us s.value := by
  cases h with
  | assignment _ _ he => exact ⟨[_, _], _, rfl, he⟩
  | answer _ he => exact ⟨[_], _, rfl, he⟩
  | expression he => exact ⟨[], _, rfl, he⟩

/-- The statements of a block are spelled one after the other. -/
theorem Primary.statements (h : Primary ts e) {b : Unit × List (Statement Unit)}
    (hb : e.body? = some b) : Scattered Sentence ts b.2 := by
  cases h <;> cases hb
  case block _ hbody _ => exact (hbody.scattered.before _).after [_]
  case function hbody _ => exact (((hbody.scattered.before _).after [_]).after _).after [_]
  case bare => exact .nil _

theorem Primary.children (h : Primary ts e) : Scattered Expression ts e.children := by
  cases hb : e.body? with
  | some b =>
    rw [Expr.children_of_body? hb]
    exact (h.statements hb).map fun _ _ => Sentence.value
  | none =>
    cases h with
    | block | function | bare => cases hb
    | literal | negative | superWord | name => exact .nil _
    | array _ hitems _ => exact (hitems.scattered.before _).after [_]
    | group _ he _ => exact ((Scattered.nil []).last [_] he).before _

theorem Unary.children (h : Unary ts e) : Scattered Expression ts e.children := by
  cases h with
  | primary h => exact h.children
  | send h _ => exact ((Scattered.nil []).last [] (.binary (.unary h))).before _

theorem Binary.children (h : Binary ts e) : Scattered Expression ts e.children := by
  cases h with
  | unary h => exact h.children
  | send h _ hargument =>
    exact ((Scattered.nil []).last [] (.binary h)).last [_] (.binary (.unary hargument))

/-- **The parts of an expression** are spelled one after the other. -/
theorem Expression.children (h : Expression ts e) : Scattered Expression ts e.children := by
  cases h with
  | binary h => exact h.children
  | keyword h hparts _ => exact ((Scattered.nil []).last [] (.binary h)).join hparts.scattered

/-! ### The parts of a definition -/

/-- The header of a method and what implements it. -/
theorem Method.header {m : MethodDef Unit} (h : Method ts m) :
    ∃ us vs, ts = m.classWord.toList ++ (us ++ vs) ∧ Header us m.signature ∧
      Implementation vs m.body := by
  cases h with
  | instanceSide hheader hbody => exact ⟨_, _, rfl, hheader, hbody⟩
  | classSide _ hheader hbody => exact ⟨_, _, rfl, hheader, hbody⟩

theorem Definition.methods {c : ClassDef Unit} (h : Definition ts c) :
    Scattered Method ts c.methods := by
  obtain ⟨-, -, -, -, hmethods, -⟩ := h
  exact ((((hmethods.scattered.before _).after _).after [_]).after _).after [_]

theorem File.definitions {classes : List (ClassDef Unit)} {main : Body Unit}
    (h : File ts classes main) : Scattered Definition ts classes := by
  obtain ⟨hclasses, -⟩ := h
  exact hclasses.scattered.before _

end Smalltalk.Grammar
