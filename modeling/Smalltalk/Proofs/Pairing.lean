/-
**Values that stand for each other.**

Two machines that run the same program in different forms do not hold the same values: the code of
their blocks differs, and with it the classes whose methods have that code and the literals the code
refers to. A pairing says which blocks, classes and string identities of the one stand for which of
the other; values that are built from what is paired are paired, and so are stores row by row.

No built-in operation can tell paired values apart. In particular a property of the blocks of a
single machine is a pairing of the machine with itself, and it is kept by every operation.

* `Primitive.perform_pair` — **an operation on paired values has paired replies**, or the
  same fault.
-/

import Mathlib.Data.List.Forall2
import Smalltalk.Machine.Perform

namespace Smalltalk

variable {α β γ δ : Type} {R : α → β → Prop}

/-! ### Lists and options of things that are paired -/

section Lists

variable {l : List α} {l' : List β} {a : Option α} {b : Option β} {x : α} {y : β} {f : α → Option γ}
  {g : β → Option δ}

section

variable (h : List.Forall₂ R l l') {b : β} {a : α}

include h

theorem Forall₂.getElem? (i : Nat) : Option.Rel R l[i]? l'[i]? := by
  induction h generalizing i with
  | nil => exact .none
  | cons hab _ ih =>
    cases i with
    | zero => exact .some hab
    | succ i => simpa using ih i

theorem Forall₂.exists_left (hb : b ∈ l') : ∃ a ∈ l, R a b := by
  induction h with
  | nil => cases hb
  | cons hab _ ih =>
    grind

theorem Forall₂.zip {S : α → γ → Prop} {Q : β → γ → Prop} {l'' : List γ} (h' : List.Forall₂ S l l'')
    (hQ : ∀ a b c, R a b → S a c → Q b c) : List.Forall₂ Q l' l'' := by
  induction h generalizing l'' with
  | nil => cases h'; exact .nil
  | cons hab _ ih =>
    cases h' with
    | cons hac h' => exact .cons (hQ _ _ _ hab hac) (ih h')

theorem Forall₂.set (i : Nat) (hab : R a b) : List.Forall₂ R (l.set i a) (l'.set i b) := by
  induction h generalizing i with
  | nil => exact .nil
  | cons hcd hl ih =>
    cases i with
    | zero => exact .cons hab hl
    | succ i => exact .cons hcd (ih i)

theorem Forall₂.modify (i : Nat) {f : α → α} {g : β → β} (hfg : ∀ a b, R a b → R (f a) (g b)) :
    List.Forall₂ R (l.modify i f) (l'.modify i g) := by
  induction h generalizing i with
  | nil => cases i <;> exact .nil
  | cons hcd hl ih =>
    cases i with
    | zero => exact .cons (hfg _ _ hcd) hl
    | succ i => simpa using ⟨hcd, ih i⟩

theorem Forall₂.snoc (hab : R a b) : List.Forall₂ R (l ++ [a]) (l' ++ [b]) :=
  List.rel_append h (.cons hab .nil)

end

theorem Forall₂.replicate (n : Nat) {a : α} {b : β} (hab : R a b) :
    List.Forall₂ R (List.replicate n a) (List.replicate n b) := by
  induction n with
  | zero => exact .nil
  | succ n ih => exact .cons hab ih

theorem Rel.getD (h : Option.Rel R a b) (hxy : R x y) : R (a.getD x) (b.getD y) := by
  cases h with
  | some hab => exact hab
  | none => exact hxy

theorem Forall₂.getD {rows : Array α} {rows' : Array β}
    (h : List.Forall₂ R rows.toList rows'.toList) (i : Nat) (hxy : R x y) :
    R (rows.getD i x) (rows'.getD i y) := by
  have hi := Forall₂.getElem? h i
  rw [Array.getElem?_toList, Array.getElem?_toList] at hi
  rw [Array.getD_eq_getD_getElem?, Array.getD_eq_getD_getElem?]
  exact Rel.getD hi hxy

theorem Rel.bind {S : γ → δ → Prop} (h : Option.Rel R a b)
    (hfg : ∀ a b, R a b → Option.Rel S (f a) (g b)) : Option.Rel S (a.bind f) (b.bind g) := by
  cases h with
  | some hab => exact hfg _ _ hab
  | none => exact .none

theorem Rel.map {S : γ → δ → Prop} (h : Option.Rel R a b) {f : α → γ} {g : β → δ}
    (hfg : ∀ a b, R a b → S (f a) (g b)) : Option.Rel S (a.map f) (b.map g) := by
  cases h with
  | some hab => exact .some (hfg _ _ hab)
  | none => exact .none

theorem Rel.orElse {a' : Option α} {b' : Option β} (h : Option.Rel R a b) (h' : Option.Rel R a' b') :
    Option.Rel R (a <|> a') (b <|> b') := by
  cases h with
  | some hab => exact .some hab
  | none => exact h'

theorem Rel.imp_of_eq {S : α → β → Prop} {x : Option α} {y : Option β} (h : Option.Rel R x y)
    (himp : ∀ a b, x = some a → y = some b → R a b → S a b) : Option.Rel S x y := by
  cases h with
  | some hab => exact .some (himp _ _ rfl rfl hab)
  | none => exact .none

theorem Forall₂.findSome? {S : γ → δ → Prop} (h : List.Forall₂ R l l')
    (hfg : ∀ a b, R a b → Option.Rel S (f a) (g b)) :
    Option.Rel S (l.findSome? f) (l'.findSome? g) := by
  induction h with
  | nil => exact .none
  | @cons a b _ _ hab _ ih =>
    have hhead := hfg a b hab
    rw [List.findSome?_cons, List.findSome?_cons]
    generalize f a = x at hhead ⊢
    generalize g b = y at hhead ⊢
    cases hhead with
    | none => exact ih
    | some hxy => exact .some hxy

section

variable (h : List.Forall₂ R l l') {p : α → Bool} {q : β → Bool} (hpq : ∀ a b, R a b → p a = q b)

include h hpq

theorem Forall₂.dropWhile : List.Forall₂ R (l.dropWhile p) (l'.dropWhile q) := by
  induction h with
  | nil => exact .nil
  | @cons a b _ _ hab hl ih =>
    rw [List.dropWhile_cons, List.dropWhile_cons, hpq a b hab]
    split
    · exact ih
    · exact .cons hab hl

theorem Forall₂.findIdx?_eq : l.findIdx? p = l'.findIdx? q := by
  induction h with
  | nil => rfl
  | @cons a b _ _ hab _ ih =>
    rw [List.findIdx?_cons, List.findIdx?_cons, hpq a b hab, ih]

end

theorem Forall₂.headD (h : List.Forall₂ R l l') (hxy : R x y) : R (l.headD x) (l'.headD y) := by
  cases h with
  | nil => exact hxy
  | cons hab _ => exact hab

end Lists

/-! ### Pairings -/

/-- **What stands for what**: blocks, apart from their receivers, and classes, methods and the
identities of strings. Blocks and classes that stand for each other agree in all that an operation
can see of them, and identities stand for each other one to one. -/
structure Pairing where
  /-- Blocks that stand for each other, if their receivers do. -/
  closure : Closure Value → Closure Value → Prop
  /-- Classes that stand for each other. -/
  cls : Class → Class → Prop
  /-- Methods that stand for each other. -/
  method : Method → Method → Prop
  /-- Identities of strings that stand for each other. -/
  identity : StringIdentity → StringIdentity → Prop
  closure_argumentCount {c d : Closure Value} :
    closure c d → c.code.argumentCount = d.code.argumentCount
  closure_activation {c d : Closure Value} :
    closure c d → c.environment.activation = d.environment.activation
  closure_enclosing {c d : Closure Value} :
    closure c d → c.environment.enclosing = d.environment.enclosing
  cls_name {c d : Class} : cls c d → c.name = d.name
  cls_fields {c d : Class} : cls c d → c.fields.length = d.fields.length
  cls_superclass {c d : Class} : cls c d → Option.Rel cls c.superclass d.superclass
  cls_lookup {c d : Class} (selector : String) (classSide : Bool) :
    cls c d → Option.Rel method (c.lookup? selector classSide) (d.lookup? selector classSide)
  method_primitive {m n : Method} : method m n → m.code.primitive = n.code.primitive
  method_argumentCount {m n : Method} : method m n → m.code.argumentCount = n.code.argumentCount
  identity_made {k k' : Nat} : k = k' → identity (.made k) (.made k')
  identity_iff {i i' j j' : StringIdentity} : identity i j → identity i' j' → (i = i' ↔ j = j')

variable {P : Pairing} {e e' : Environment Value}

/-- **Values that stand for each other.** -/
inductive Value.Pair (P : Pairing) : Value → Value → Prop
  | nil : Value.Pair P .nil .nil
  | boolean (value : Bool) : Value.Pair P (.boolean value) (.boolean value)
  | integer (value : Int32) : Value.Pair P (.integer value) (.integer value)
  | float (value : Single) : Value.Pair P (.float value) (.float value)
  | character (value : Char) : Value.Pair P (.character value) (.character value)
  | string {i j : StringIdentity} (text : String) (h : P.identity i j) :
      Value.Pair P (.string i text) (.string j text)
  | array (number : Nat) : Value.Pair P (.array number) (.array number)
  | block (number : Nat) {c d : Closure Value} (h : P.closure c d)
      (hreceiver : Value.Pair P c.environment.receiver d.environment.receiver) :
      Value.Pair P (.block number c) (.block number d)
  | object {c d : Class} (number : Nat) (h : P.cls c d) :
      Value.Pair P (.object c number) (.object d number)
  | classObject {c d : Class} (h : P.cls c d) : Value.Pair P (.classObject c) (.classObject d)

/-- Blocks that stand for each other, with their receivers. -/
structure Closure.Pair (P : Pairing) (c d : Closure Value) : Prop where
  closure : P.closure c d
  receiver : Value.Pair P c.environment.receiver d.environment.receiver

/-- Environments that stand for each other. -/
structure Environment.Pair (P : Pairing) (e e' : Environment Value) : Prop where
  receiver : Value.Pair P e.receiver e'.receiver
  activation : e.activation = e'.activation
  enclosing : e.enclosing = e'.enclosing

/-- Rows of values that stand for each other. -/
def RowPair (P : Pairing) (row row' : Array Value) : Prop :=
  List.Forall₂ (Value.Pair P) row.toList row'.toList

/-- **Stores that stand for each other.** -/
@[grind cases]
structure Store.Pair (P : Pairing) (s s' : Store) : Prop where
  activations : List.Forall₂ (RowPair P) s.activations.toList s'.activations.toList
  objects : List.Forall₂ (RowPair P) s.objects.toList s'.objects.toList
  arrays : List.Forall₂ (RowPair P) s.arrays.toList s'.arrays.toList
  made : s.made = s'.made
  transcript : s.transcript = s'.transcript
  addresses : s.addresses = s'.addresses

theorem Closure.Pair.environment {c d : Closure Value} (h : c.Pair P d) :
    c.environment.Pair P d.environment :=
  ⟨h.receiver, P.closure_activation h.closure, P.closure_enclosing h.closure⟩

theorem Environment.Pair.chain_eq (h : e.Pair P e') : e.chain = e'.chain := by
  rw [Environment.chain, Environment.chain, h.activation, h.enclosing]

theorem Environment.Pair.home_eq (h : e.Pair P e') : e.home = e'.home := by
  rw [Environment.home, Environment.home, h.activation, h.enclosing]

theorem Environment.Pair.isBlock_eq (h : e.Pair P e') : e.isBlock = e'.isBlock := by
  rw [Environment.isBlock, Environment.isBlock, h.enclosing]

theorem Environment.Pair.inner (h : e.Pair P e') (activation : Nat) :
    (e.inner activation).Pair P (e'.inner activation) :=
  ⟨h.receiver, rfl, h.chain_eq⟩

/-- Values whose blocks and classes have some property, as those that are paired with themselves. -/
def Pairing.diagonal (C : Closure Value → Prop) (K : Class → Prop) (M : Method → Prop)
    (hsuperclass : ∀ {c d : Class}, K c → c.superclass = some d → K d)
    (hlookup : ∀ {c : Class} {selector : String} {classSide : Bool} {m : Method},
      K c → c.lookup? selector classSide = some m → M m) : Pairing where
  closure c d := c = d ∧ C c
  cls c d := c = d ∧ K c
  method m n := m = n ∧ M m
  identity := Eq
  closure_argumentCount h := by rw [h.1]
  closure_activation h := by rw [h.1]
  closure_enclosing h := by rw [h.1]
  cls_name h := by rw [h.1]
  cls_fields h := by rw [h.1]
  cls_superclass {c d} h := by
    obtain ⟨rfl, hc⟩ := h
    cases hd : c.superclass with
    | none => exact .none
    | some d => exact .some ⟨rfl, hsuperclass hc hd⟩
  cls_lookup {c d} selector classSide h := by
    obtain ⟨rfl, hc⟩ := h
    cases hm : c.lookup? selector classSide with
    | none => exact .none
    | some m => exact .some ⟨rfl, hlookup hc hm⟩
  method_primitive h := by rw [h.1]
  method_argumentCount h := by rw [h.1]
  identity_made h := by rw [h]
  identity_iff h h' := by rw [h, h']

/-- More is paired. -/
structure Pairing.Within (P Q : Pairing) : Prop where
  closure {c d : Closure Value} : P.closure c d → Q.closure c d
  cls {c d : Class} : P.cls c d → Q.cls c d
  identity {i j : StringIdentity} : P.identity i j → Q.identity i j

section Within

variable {Q : Pairing}

/-- More may be paired without breaking what is paired already. -/
theorem Value.Pair.mono (hPQ : P.Within Q) {v w : Value} (h : v.Pair P w) : v.Pair Q w := by
  induction h with
  | nil => exact .nil
  | boolean value => exact .boolean value
  | integer value => exact .integer value
  | float value => exact .float value
  | character value => exact .character value
  | string text h => exact .string text (hPQ.identity h)
  | array number => exact .array number
  | block number h _ ih => exact .block number (hPQ.closure h) ih
  | object number h => exact .object number (hPQ.cls h)
  | classObject h => exact .classObject (hPQ.cls h)

theorem Forall₂.mono (hPQ : P.Within Q) {vs ws : List Value}
    (h : List.Forall₂ (Value.Pair P) vs ws) : List.Forall₂ (Value.Pair Q) vs ws :=
  h.imp fun _ _ => .mono hPQ

theorem Closure.Pair.mono (hPQ : P.Within Q) {c d : Closure Value} (h : c.Pair P d) : c.Pair Q d :=
  ⟨hPQ.closure h.closure, h.receiver.mono hPQ⟩

theorem Store.Pair.mono (hPQ : P.Within Q) {s s' : Store} (h : s.Pair P s') : s.Pair Q s' where
  activations := h.activations.imp fun _ _ => Forall₂.mono hPQ
  objects := h.objects.imp fun _ _ => Forall₂.mono hPQ
  arrays := h.arrays.imp fun _ _ => Forall₂.mono hPQ
  made := h.made
  transcript := h.transcript
  addresses := h.addresses

end Within

theorem Store.Pair.empty : Store.empty.Pair P Store.empty := ⟨.nil, .nil, .nil, rfl, rfl, rfl⟩

/-! ### What can be seen of a value -/

section Values

variable {v v' w w' : Value}

section

variable (h : v.Pair P v')

include h

theorem Value.Pair.className_eq : v.className = v'.className := by
  cases h with
  | object _ h | classObject h => exact P.cls_name h
  | _ => rfl

theorem Value.Pair.isClass_eq : v.isClass = v'.isClass := by
  cases h <;> rfl

theorem Value.Pair.hashBy_eq (ofWords : List UInt64 → Int32) (addresses : Addresses) :
    v.hashBy ofWords addresses = v'.hashBy ofWords addresses := by
  cases h with
  | classObject h => rw [Value.hashBy, Value.hashBy, P.cls_name h]
  | _ => rfl

theorem Value.Pair.builtins_eq (count : Nat) : v.builtins count = v'.builtins count := by
  rcases count with _ | _ | _ | _ | _ | _ <;> cases h <;> rfl

theorem Value.Pair.builtin?_eq (selector : String) (count : Nat) :
    v.builtin? selector count = v'.builtin? selector count := by
  rw [Value.builtin?, Value.builtin?, h.builtins_eq count]

/-- Paired values are identical to paired values alike. -/
theorem Value.Pair.isIdentical_eq (h' : w.Pair P w') : v.isIdentical w = v'.isIdentical w' := by
  cases h with
  | string _ hi =>
    cases h' with
    | string _ hj => exact decide_eq_decide.2 (P.identity_iff hi hj)
    | _ => rfl
  | classObject hc =>
    cases h' with
    | classObject hd => simp only [Value.isIdentical, P.cls_name hc, P.cls_name hd]
    | _ => rfl
  | _ => cases h' <;> rfl

/-- Paired values are equal to paired values alike. -/
theorem Value.Pair.isEqual_eq (h' : w.Pair P w') : v.isEqual w = v'.isEqual w' := by
  have hidentical := h.isIdentical_eq h'
  cases h with
  | integer _ | float _ | string _ _ => cases h' <;> rfl
  | _ => cases h' <;> exact hidentical

end

end Values

/-! ### Stores -/

namespace Store.Pair

variable {s s' : Store} {row row' : Array Value} {v v' : Value}

section

variable (h : s.Pair P s')

include h

/-- Both stores have made as many activations. -/
theorem activations_size : s.activations.size = s'.activations.size := by
  simpa using h.activations.length_eq

theorem fieldsOf (object : Nat) :
    RowPair P (s.fieldsOf object) (s'.fieldsOf object) := Forall₂.getD h.objects object .nil

theorem itemsOf (array : Nat) :
    RowPair P (s.itemsOf array) (s'.itemsOf array) := Forall₂.getD h.arrays array .nil

theorem size_itemsOf (array : Nat) : (s.itemsOf array).size = (s'.itemsOf array).size := by
  simpa using (h.itemsOf array).length_eq

theorem slot? (activation index : Nat) :
    Option.Rel (Value.Pair P) (s.slot? activation index) (s'.slot? activation index) := by
  have hrow := Forall₂.getElem? h.activations activation
  rw [Array.getElem?_toList, Array.getElem?_toList] at hrow
  rw [Store.slot?, Store.slot?]
  refine Rel.bind hrow fun row row' hrow => ?_
  simpa using Forall₂.getElem? hrow index

theorem newActivation (hrow : RowPair P row row') :
    (s.newActivation row).1 = (s'.newActivation row').1 ∧
      (s.newActivation row).2.Pair P (s'.newActivation row').2 := by
  refine ⟨h.activations_size, ?_, h.objects, h.arrays, h.made, h.transcript, h.addresses⟩
  simpa [Store.newActivation] using Forall₂.snoc h.activations hrow

theorem newObject {c d : Class} (hcls : P.cls c d) : (s.newObject c).1.Pair P (s'.newObject d).1 ∧
      (s.newObject c).2.Pair P (s'.newObject d).2 := by
  have hsize : s.objects.size = s'.objects.size := by simpa using h.objects.length_eq
  refine ⟨?_, h.activations, ?_, h.arrays, h.made, h.transcript, h.addresses⟩
  · simp only [Store.newObject, hsize]
    exact .object _ hcls
  · have hrow : RowPair P (Array.replicate c.fields.length .nil)
        (Array.replicate d.fields.length .nil) := by
      rw [RowPair, Array.toList_replicate, Array.toList_replicate, P.cls_fields hcls]
      exact Forall₂.replicate _ .nil
    simpa [Store.newObject] using Forall₂.snoc h.objects hrow

theorem newArray (hrow : RowPair P row row') : (s.newArray row).1.Pair P (s'.newArray row').1 ∧
      (s.newArray row).2.Pair P (s'.newArray row').2 := by
  have hsize : s.arrays.size = s'.arrays.size := by simpa using h.arrays.length_eq
  refine ⟨?_, h.activations, h.objects, ?_, h.made, h.transcript, h.addresses⟩
  · simp only [Store.newArray, hsize]
    exact .array _
  · simpa [Store.newArray] using Forall₂.snoc h.arrays hrow

theorem newString (text : String) : (s.newString text).1.Pair P (s'.newString text).1 ∧
      (s.newString text).2.Pair P (s'.newString text).2 := by
  refine ⟨?_, h.activations, h.objects, h.arrays, ?_, h.transcript, h.addresses⟩
  · simp only [Store.newString, h.made]
    exact .string text (P.identity_made rfl)
  · simp only [Store.newString, h.made]

theorem newBlock {c d : Closure Value} (hclosure : c.Pair P d) :
    (s.newBlock c).1.Pair P (s'.newBlock d).1 ∧
      (s.newBlock c).2.Pair P (s'.newBlock d).2 := by
  refine ⟨?_, h.activations, h.objects, h.arrays, ?_, h.transcript, h.addresses⟩
  · simp only [Store.newBlock, h.made]
    exact .block _ hclosure.closure hclosure.receiver
  · simp only [Store.newBlock, h.made]

end

/-- A value in one of the rows is replaced. -/
theorem setAt {rows rows' : Array (Array Value)}
    (h : List.Forall₂ (RowPair P) rows.toList rows'.toList) (i index : Nat) (hv : v.Pair P v') :
    List.Forall₂ (RowPair P) (rows.modify i (·.setIfInBounds index v)).toList
      (rows'.modify i (·.setIfInBounds index v')).toList := by
  rw [Array.toList_modify, Array.toList_modify]
  refine Forall₂.modify h i fun row row' hrow => ?_
  simpa [RowPair] using Forall₂.set hrow index hv

section

variable (h : s.Pair P s')

include h

theorem setSlot (activation index : Nat) (hv : v.Pair P v') :
    (s.setSlot activation index v).Pair P (s'.setSlot activation index v') := by
  refine ⟨?_, h.objects, h.arrays, h.made, h.transcript, h.addresses⟩
  exact setAt h.activations activation index hv

theorem setField (object index : Nat) (hv : v.Pair P v') :
    (s.setField object index v).Pair P (s'.setField object index v') := by
  refine ⟨h.activations, ?_, h.arrays, h.made, h.transcript, h.addresses⟩
  exact setAt h.objects object index hv

theorem setItem (array index : Nat) (hv : v.Pair P v') :
    (s.setItem array index v).Pair P (s'.setItem array index v') := by
  refine ⟨h.activations, h.objects, ?_, h.made, h.transcript, h.addresses⟩
  exact setAt h.arrays array index hv

theorem writeLine (text : String) : (s.writeLine text).Pair P (s'.writeLine text) := by
  refine ⟨h.activations, h.objects, h.arrays, h.made, ?_, h.addresses⟩
  simp only [Store.writeLine, h.transcript]

theorem piecesWithin_eq (depth : Nat) (outer : List Nat) (hv : v.Pair P v') :
    s.piecesWithin depth outer v = s'.piecesWithin depth outer v' := by
  induction depth generalizing outer v v' with
  | zero =>
    cases hv with
    | object _ hc | classObject hc => simp only [piecesWithin, P.cls_name hc]
    | _ => simp only [piecesWithin]
  | succ depth ih =>
    cases hv with
    | object _ hc | classObject hc => simp only [piecesWithin, P.cls_name hc]
    | array number =>
      have hitems : (s.itemsOf number).toList.map (s.piecesWithin depth (number :: outer)) =
          (s'.itemsOf number).toList.map (s'.piecesWithin depth (number :: outer)) := by
        have hrel : List.Forall₂ Eq
            ((s.itemsOf number).toList.map (s.piecesWithin depth (number :: outer)))
            ((s'.itemsOf number).toList.map (s'.piecesWithin depth (number :: outer))) :=
          List.rel_map (fun _ _ hv => ih _ hv) (h.itemsOf number)
        rwa [List.forall₂_eq_eq_eq] at hrel
      simp only [piecesWithin, hitems]
    | _ => simp only [piecesWithin]

/-- **Paired values are shown alike.** -/
theorem text_eq (hv : v.Pair P v') : s.text v = s'.text v' := by
  have hsize : s.arrays.size = s'.arrays.size := by simpa using h.arrays.length_eq
  rw [Store.text, Store.text, Store.pieces, Store.pieces, hsize, h.piecesWithin_eq _ _ hv]

end

end Store.Pair

/-! ### Replies -/

/-- **Replies that stand for each other.** -/
inductive Reply.Pair (P : Pairing) : Reply → Reply → Prop
  | value {v v' : Value} (h : v.Pair P v') : Reply.Pair P (.value v) (.value v')
  | newString (text : String) : Reply.Pair P (.newString text) (.newString text)
  | newArray {items items' : Array Value} (h : RowPair P items items') :
      Reply.Pair P (.newArray items) (.newArray items')
  | newObject {c d : Class} (h : P.cls c d) : Reply.Pair P (.newObject c) (.newObject d)
  | setItem (array index : Nat) {v v' : Value} (h : v.Pair P v') :
      Reply.Pair P (.setItem array index v) (.setItem array index v')
  | writeLine (text : String) {v v' : Value} (h : v.Pair P v') :
      Reply.Pair P (.writeLine text v) (.writeLine text v')
  | invoke {c d : Closure Value} {arguments arguments' : List Value} (h : c.Pair P d)
      (harguments : List.Forall₂ (Value.Pair P) arguments arguments') :
      Reply.Pair P (.invoke c arguments) (.invoke d arguments')
  | loop {c d body body' : Closure Value} (repeatWhile : Bool) (h : c.Pair P d)
      (hbody : body.Pair P body') : Reply.Pair P (.loop c body repeatWhile) (.loop d body' repeatWhile)

/-- The same fault, or results that stand for each other. -/
inductive Agree {α β : Type} (R : α → β → Prop) : Except Fault α → Except Fault β → Prop
  | ok {a : α} {b : β} (h : R a b) : Agree R (.ok a) (.ok b)
  | error (fault : Fault) : Agree R (.error fault) (.error fault)

theorem Agree.bind {S : γ → δ → Prop} {x : Except Fault α} {y : Except Fault β}
    {f : α → Except Fault γ} {g : β → Except Fault δ} (h : Agree R x y)
    (hfg : ∀ a b, R a b → Agree S (f a) (g b)) : Agree S (x >>= f) (y >>= g) := by
  cases h with
  | ok hab => exact hfg _ _ hab
  | error fault => exact .error fault

/-- The same is made of what does not depend on what is paired. -/
theorem Agree.same {R : β → γ → Prop} {x y : Except Fault α} {f : α → Except Fault β}
    {g : α → Except Fault γ} (h : x = y) (hfg : ∀ a, Agree R (f a) (g a)) :
    Agree R (x >>= f) (y >>= g) := by
  subst h
  cases x with
  | ok a => exact hfg a
  | error fault => exact .error fault

/-! ### Parts of operations -/

namespace Operation

variable {s s' : Store} {v v' w w' : Value} {arguments arguments' : List Value}

theorem wrongKind_eq (expected : String) (h : v.Pair P v') :
    wrongKind expected v = wrongKind expected v' := by
  rw [wrongKind, wrongKind, h.className_eq]

theorem wrongKind_agree (R : α → β → Prop) (expected : String) (h : v.Pair P v') :
    Agree R (.error (wrongKind expected v)) (.error (wrongKind expected v')) := by
  rw [wrongKind_eq expected h]
  exact .error _

section

variable (h : v.Pair P v')

include h

theorem floatOf_eq : floatOf v = floatOf v' := by
  have hkind := wrongKind_eq "number" h
  cases h <;> first | rfl | exact congrArg Except.error hkind

theorem checkDivisor_eq : checkDivisor v = checkDivisor v' := by
  cases h <;> rfl

theorem booleanOf_eq : booleanOf v = booleanOf v' := by
  have hkind := wrongKind_eq "Boolean" h
  cases h <;> first | rfl | exact congrArg Except.error hkind

theorem offset_eq (length : Nat) : offset v length = offset v' length := by
  have hkind := wrongKind_eq "Integer" h
  cases h <;> first | rfl | exact congrArg Except.error hkind

theorem countOf_eq : countOf v = countOf v' := by
  have hkind := wrongKind_eq "Integer" h
  cases h <;> first | rfl | exact congrArg Except.error hkind

theorem blockOf_pair : Agree (Closure.Pair P) (blockOf v) (blockOf v') := by
  have hkind := wrongKind_agree (Closure.Pair P) "BlockDescriptor" h
  cases h with
  | block _ hclosure hreceiver => exact .ok ⟨hclosure, hreceiver⟩
  | _ => exact hkind

/-- Two numbers as floats, and what is made of them. -/
theorem floats_pair (h' : w.Pair P w') {g : Single → Single → Value}
    (hg : ∀ a b, (g a b).Pair P (g a b)) :
    Agree (Reply.Pair P) (do return .value (g (← floatOf v) (← floatOf w)))
      (do return .value (g (← floatOf v') (← floatOf w'))) := by
  exact .same (floatOf_eq h) fun a => .same (floatOf_eq h') fun b => .ok (.value (hg a b))

theorem numeric_pair (h' : w.Pair P w') (onIntegers : Int32 → Int32 → Int32)
    (onFloats : Single → Single → Single) :
    Agree (Reply.Pair P) (numeric v w onIntegers onFloats) (numeric v' w' onIntegers onFloats) := by
  have hfloats := floats_pair h h' fun a b => .float (onFloats a b)
  cases h with
  | integer a =>
    cases h' with
    | integer b => exact .ok (.value (.integer _))
    | _ => exact hfloats
  | _ => exact hfloats

theorem comparison_pair (h' : w.Pair P w') (test : Ordering → Bool) :
    Agree (Reply.Pair P) (comparison v w test) (comparison v' w' test) := by
  have hfloats := floats_pair h h' fun a b => .boolean ((a.compare? b).any test)
  cases h with
  | integer a =>
    cases h' with
    | integer b => exact .ok (.value (.boolean _))
    | _ => exact hfloats
  | _ => exact hfloats

end

theorem invoke_pair {c d : Closure Value} (h : c.Pair P d)
    (h' : List.Forall₂ (Value.Pair P) arguments arguments') :
    Agree (Reply.Pair P) (invoke c arguments) (invoke d arguments') := by
  rw [invoke, invoke, P.closure_argumentCount h.closure, h'.length_eq]
  split
  · exact .ok (.invoke h h')
  · exact .error _

theorem evaluate_pair (h : v.Pair P v') : Agree (Reply.Pair P) (evaluate v) (evaluate v') := by
  have hvalue : Agree (Reply.Pair P) (.ok (.value v)) (.ok (.value v')) := .ok (.value h)
  cases h with
  | block _ hclosure hreceiver => exact invoke_pair ⟨hclosure, hreceiver⟩ .nil
  | _ => exact hvalue

theorem toFloat_pair (h : v.Pair P v') : Agree (Reply.Pair P) (toFloat v) (toFloat v') := by
  have hkind := wrongKind_agree (Reply.Pair P) "number" h
  cases h with
  | integer _ => exact .ok (.value (.float _))
  | float value => exact .ok (.value (.float value))
  | _ => exact hkind

theorem toInteger_pair (h : v.Pair P v') : Agree (Reply.Pair P) (toInteger v) (toInteger v') := by
  have hkind := wrongKind_agree (Reply.Pair P) "number or character" h
  cases h with
  | integer value => exact .ok (.value (.integer value))
  | float _ | character _ => exact .ok (.value (.integer _))
  | _ => exact hkind

theorem toCharacter_pair (h : v.Pair P v') :
    Agree (Reply.Pair P) (toCharacter v) (toCharacter v') := by
  have hkind := wrongKind_agree (Reply.Pair P) "integer" h
  cases h with
  | character value => exact .ok (.value (.character value))
  | integer value =>
    simp only [toCharacter]
    split
    · exact .ok (.value (.character _))
    · exact .error _
  | _ => exact hkind

theorem sizeReply_pair (hs : s.Pair P s') (h : v.Pair P v') :
    Agree (Reply.Pair P) (sizeReply s v) (sizeReply s' v') := by
  have hkind := wrongKind_agree (Reply.Pair P) "String or Array" h
  cases h with
  | string text _ => exact .ok (.value (.integer _))
  | array number =>
    rw [sizeReply, sizeReply, hs.size_itemsOf]
    exact .ok (.value (.integer _))
  | _ => exact hkind

theorem elementReply_pair (hs : s.Pair P s') (h : v.Pair P v') (h' : w.Pair P w') :
    Agree (Reply.Pair P) (elementReply s v w) (elementReply s' v' w') := by
  have hkind := wrongKind_agree (Reply.Pair P) "String or Array" h
  cases h with
  | string text _ =>
    refine .same (offset_eq h' text.length) fun i => ?_
    cases text.toList[i]? with
    | none => exact .ok (.value .nil)
    | some c => exact .ok (.value (.character c))
  | array number =>
    rw [elementReply, elementReply, hs.size_itemsOf]
    exact .same (offset_eq h' _) fun i => .ok (.value (Forall₂.getD (hs.itemsOf number) i .nil))
  | _ => exact hkind

theorem putReply_pair (hs : s.Pair P s') (h : v.Pair P v') (h' : w.Pair P w') {x x' : Value}
    (hx : x.Pair P x') : Agree (Reply.Pair P) (putReply s v w x) (putReply s' v' w' x') := by
  have hkind := wrongKind_agree (Reply.Pair P) "Array" h
  cases h with
  | array number =>
    rw [putReply, putReply, hs.size_itemsOf]
    exact .same (offset_eq h' _) fun i => .ok (.setItem number i hx)
  | _ => exact hkind

theorem arrayReply_pair (h : v.Pair P v') : Agree (Reply.Pair P) (arrayReply v) (arrayReply v') := by
  have hkind := wrongKind_agree (Reply.Pair P) "String" h
  cases h with
  | string text _ =>
    refine .ok (.newArray ?_)
    rw [RowPair, List.toList_toArray]
    refine List.forall₂_same.2 fun v hv => ?_
    obtain ⟨c, -, rfl⟩ := List.mem_map.1 hv
    exact .character c
  | array number => exact .ok (.value (.array number))
  | _ => exact hkind

theorem branchReply_pair (h : v.Pair P v') (expected : Bool) (h' : w.Pair P w') :
    Agree (Reply.Pair P) (branchReply v expected w) (branchReply v' expected w') := by
  refine .same (booleanOf_eq h) fun b => ?_
  split
  · exact evaluate_pair h'
  · exact .ok (.value .nil)

theorem spreadReply_pair (hs : s.Pair P s') (h : v.Pair P v') (h' : w.Pair P w') :
    Agree (Reply.Pair P) (spreadReply s v w) (spreadReply s' v' w') := by
  refine (blockOf_pair h).bind fun c d hclosure => ?_
  have hkind := wrongKind_agree (Reply.Pair P) "Array" h'
  cases h' with
  | array number => exact invoke_pair hclosure (hs.itemsOf number)
  | _ => exact hkind

theorem loopReply_pair (h : v.Pair P v') (h' : w.Pair P w') (repeatWhile : Bool) :
    Agree (Reply.Pair P) (loopReply v w repeatWhile) (loopReply v' w' repeatWhile) := by
  refine (blockOf_pair h).bind fun c d hcondition => (blockOf_pair h').bind fun b b' hbody => ?_
  refine (invoke_pair hcondition .nil).bind fun _ _ _ => (invoke_pair hbody .nil).bind fun _ _ _ => ?_
  exact .ok (.loop repeatWhile hcondition hbody)

end Operation

/-! ### All operations -/

open Operation in
/-- **An operation on paired values has paired replies**, or the same fault. -/
theorem Primitive.perform_pair (p : Primitive) {s s' : Store} (hs : s.Pair P s') {v v' : Value}
    (hv : v.Pair P v') {arguments arguments' : List Value}
    (harguments : List.Forall₂ (Value.Pair P) arguments arguments') :
    Agree (Reply.Pair P) (p.perform s v arguments) (p.perform s' v' arguments') := by
  have hfirst : (arguments.headD .nil).Pair P (arguments'.headD .nil) :=
    Forall₂.headD harguments .nil
  have hsecond : (arguments.getD 1 .nil).Pair P (arguments'.getD 1 .nil) := by
    rw [List.getD_eq_getElem?_getD, List.getD_eq_getElem?_getD]
    exact Rel.getD (Forall₂.getElem? harguments 1) .nil
  have hboolean (x y : Bool) (hxy : x = y) :
      Agree (Reply.Pair P) (.ok (.value (.boolean x))) (.ok (.value (.boolean y))) := by
    subst hxy
    exact .ok (.value (.boolean x))
  have hstring (x y : String) (hxy : x = y) :
      Agree (Reply.Pair P) (.ok (.newString x)) (.ok (.newString y)) := by
    subst hxy
    exact .ok (.newString x)
  cases p with
  | add | subtract | multiply => exact numeric_pair hv hfirst _ _
  | divide | floorDivide | remainder | modulo =>
    exact .same (checkDivisor_eq hfirst) fun _ => numeric_pair hv hfirst _ _
  | less | lessEqual | greater | greaterEqual => exact comparison_pair hv hfirst _
  | equal => exact hboolean _ _ (hv.isEqual_eq hfirst)
  | notEqual => exact hboolean _ _ (congrArg (!·) (hv.isEqual_eq hfirst))
  | asFloat => exact toFloat_pair hv
  | asInteger => exact toInteger_pair hv
  | asCharacter => exact toCharacter_pair hv
  | asString | printString => exact hstring _ _ (hs.text_eq hv)
  | className => exact hstring _ _ hv.className_eq
  | hash =>
    simp only [perform, hv.hashBy_eq, hs.addresses]
    exact .ok (.value (.integer _))
  | identical => exact hboolean _ _ (hv.isIdentical_eq hfirst)
  | concatenate =>
    have hkind := wrongKind_agree (Reply.Pair P) "String" hv
    have htext := hs.text_eq hfirst
    cases hv with
    | string text _ => exact hstring _ _ (congrArg (text ++ ·) htext)
    | _ => exact hkind
  | size => exact sizeReply_pair hs hv
  | elementAt => exact elementReply_pair hs hv hfirst
  | elementAtPut => exact putReply_pair hs hv hfirst hsecond
  | asArray => exact arrayReply_pair hv
  | ifTrue => exact branchReply_pair hv true hfirst
  | ifFalse => exact branchReply_pair hv false hfirst
  | ifTrueIfFalse =>
    refine .same (booleanOf_eq hv) fun b => ?_
    cases b with
    | false => exact evaluate_pair hsecond
    | true => exact evaluate_pair hfirst
  | ifFalseIfTrue =>
    refine .same (booleanOf_eq hv) fun b => ?_
    cases b with
    | false => exact evaluate_pair hfirst
    | true => exact evaluate_pair hsecond
  | logicalNot => exact .same (booleanOf_eq hv) fun b => .ok (.value (.boolean _))
  | logicalAnd | logicalOr =>
    exact .same (booleanOf_eq hv) fun _ => .same (booleanOf_eq hfirst) fun _ =>
      .ok (.value (.boolean _))
  | value _ => exact (blockOf_pair hv).bind fun c d hclosure => invoke_pair hclosure harguments
  | valueWithArguments => exact spreadReply_pair hs hv hfirst
  | numArgs =>
    refine (blockOf_pair hv).bind fun c d hclosure => ?_
    rw [P.closure_argumentCount hclosure.closure]
    exact .ok (.value (.integer _))
  | whileTrue => exact loopReply_pair hv hfirst true
  | whileFalse => exact loopReply_pair hv hfirst false
  | basicNew =>
    have hkind := wrongKind_agree (Reply.Pair P) "class" hv
    cases hv with
    | classObject hcls => exact .ok (.newObject hcls)
    | _ => exact hkind
  | newArray =>
    refine .same (countOf_eq hfirst) fun n => .ok (.newArray ?_)
    rw [RowPair, Array.toList_replicate]
    exact Forall₂.replicate n .nil
  | newString => exact .same (countOf_eq hfirst) fun n => .ok (.newString _)
  | showLine =>
    simp only [perform, hs.text_eq hfirst]
    exact .ok (.writeLine _ hv)

end Smalltalk
