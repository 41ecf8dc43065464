/-
**Classes without code.**

The meaning of a program does not depend on the code that was written for it, so it can be told from
classes whose methods have none. What is left of a method is its address, its counts and its
built-in operation.

Values that stand for each other, one among classes without code and one among the classes
themselves, are related here. A block is known by the method and the number of its routine; a string
that is written in a routine is known by its text.

* `Class.bare`, `ClassTable.bare` — **classes without code**;
* `ClassTable.pairing` — **values without and with code**.
-/

import Smalltalk.Proofs.Meaning

namespace Smalltalk

/-! ### Classes without code -/

/-- Nothing but the names, the counts and the built-in operation of a method. -/
def CompiledCode.bare (c : CompiledCode) : CompiledCode :=
  { c with code := [], literals := #[], blocks := #[] }

/-- A method without code. -/
def Method.bare (m : Method) : Method := ⟨m.address, m.code.bare⟩

/-- A class whose methods have no code. -/
def Class.bare : Class → Class
  | ⟨name, none, fields, methods, classMethods⟩ =>
    ⟨name, none, fields, methods.map fun _ m => m.bare, classMethods.map fun _ m => m.bare⟩
  | ⟨name, some c, fields, methods, classMethods⟩ =>
    ⟨name, some c.bare, fields, methods.map fun _ m => m.bare,
      classMethods.map fun _ m => m.bare⟩

/-- **Classes without code.** -/
def ClassTable.bare (t : ClassTable) : ClassTable :=
  ⟨t.classes.map Class.bare, t.byName.map fun _ c => c.bare⟩

namespace Class

theorem superclass_bare (c : Class) : c.bare.superclass = c.superclass.map bare := by
  obtain ⟨name, superclass, fields, methods, classMethods⟩ := c
  cases superclass <;> rw [bare] <;> rfl

theorem name_bare (c : Class) : c.bare.name = c.name := by
  obtain ⟨name, superclass, fields, methods, classMethods⟩ := c
  cases superclass <;> rw [bare]

theorem fields_bare (c : Class) : c.bare.fields = c.fields := by
  obtain ⟨name, superclass, fields, methods, classMethods⟩ := c
  cases superclass <;> rw [bare]

theorem side_bare (c : Class) (classSide : Bool) (selector : String) :
    (c.bare.side classSide)[selector]? = (c.side classSide)[selector]?.map Method.bare := by
  obtain ⟨name, superclass, fields, methods, classMethods⟩ := c
  cases superclass <;> cases classSide <;> simp [bare, side]

theorem lineage_bare (c : Class) : c.bare.lineage = c.lineage.map bare := by
  rw [lineage_eq, lineage_eq, superclass_bare, List.map_cons]
  match c with
  | ⟨name, none, fields, methods, classMethods⟩ => rfl
  | ⟨name, some d, fields, methods, classMethods⟩ =>
    simp only [Option.map_some, Option.getD_some]
    rw [lineage_bare d]

/-- Methods are found without their code. -/
theorem lookup?_bare (c : Class) (selector : String) (classSide : Bool) :
    c.bare.lookup? selector classSide = (c.lookup? selector classSide).map Method.bare := by
  rw [lookup?, lookup?, lineage_bare]
  induction c.lineage with
  | nil => rfl
  | cons d ds ih =>
    rw [List.map_cons, List.findSome?_cons, List.findSome?_cons, side_bare]
    grind

end Class

namespace ClassTable

theorem get?_bare (t : ClassTable) (name : String) :
    t.bare.get? name = (t.get? name).map Class.bare :=
  Std.TreeMap.getElem?_map

variable (T : ClassTable) (programs : List Program)

/-! ### Values without and with code -/

/-- **Blocks that stand for each other**: they are the same block of the same method, and can see the
same activations, one for each of the routines around the block. -/
structure ClosureMeant (c d : Closure Value) : Prop where
  address : c.method.address = d.method.address
  index : c.index = d.index
  argumentCount : c.code.argumentCount = d.code.argumentCount
  activation : c.environment.activation = d.environment.activation
  enclosing : c.environment.enclosing = d.environment.enclosing
  unit : ∃ r q, T.HasUnit programs d.method (some d.index) d.code r q ∧
    d.environment.chain.length + 1 = q.scopes.length

/-- **Strings that stand for each other**: a text that is written in a routine stands for the literal
with that text in its code. -/
inductive IdentityMeant : StringIdentity → StringIdentity → Prop
  | made (number : Nat) : IdentityMeant (.made number) (.made number)
  | literal {address : MethodAddress} {block : Option Nat} {code : CompiledCode} {i : Nat}
      {text : String} (hcode : T.unitAt? address block = some code)
      (hunit : ∃ q ops, UnitAs q ops code) (hi : code.literals[i]? = some text) :
      IdentityMeant (.literal address block (textNumber text)) (.literal address block i)

variable {T programs}

theorem IdentityMeant.eq_iff {i i' j j' : StringIdentity} (h : IdentityMeant T i j)
    (h' : IdentityMeant T i' j') : i = i' ↔ j = j' := by
  cases h with
  | made number =>
    cases h' with
    | made number' => rfl
    | literal => exact iff_of_false nofun nofun
  | literal hcode hunit hi =>
    cases h' with
    | made number => exact iff_of_false nofun nofun
    | literal hcode' _ hi' =>
      rw [StringIdentity.literal.injEq, StringIdentity.literal.injEq]
      refine and_congr_right fun haddress => and_congr_right fun hblock => ?_
      subst haddress hblock
      -- The address and the block determine the unit, in which each text stands once.
      obtain rfl := Option.some.inj (hcode.symm.trans hcode')
      obtain ⟨q, ops, hunit⟩ := hunit
      constructor
      · intro htext
        rw [textNumber_injective htext] at hi
        exact hunit.distinct hi hi'
      · grind

variable (T programs) in
/-- **Values without and with code.** -/
def pairing : Pairing where
  closure := ClosureMeant T programs
  cls c d := c = d.bare ∧ T.Holds d
  method m n := m = n.bare ∧ T.methodAt? n.address = some n
  identity := IdentityMeant T
  closure_argumentCount h := h.argumentCount
  closure_activation h := h.activation
  closure_enclosing h := h.enclosing
  cls_name h := by rw [h.1, Class.name_bare]
  cls_fields h := by rw [h.1, Class.fields_bare]
  cls_superclass {c d} h := by
    rw [h.1, Class.superclass_bare]
    cases hsuper : d.superclass with
    | none => exact .none
    | some superclass => exact .some ⟨rfl, h.2.superclass hsuper⟩
  cls_lookup {c d} selector classSide h := by
    rw [h.1, Class.lookup?_bare]
    cases hm : d.lookup? selector classSide with
    | none => exact .none
    | some m => exact .some ⟨rfl, (h.2.lookup hm).2⟩
  method_primitive h := by rw [h.1]; rfl
  method_argumentCount h := by rw [h.1]; rfl
  identity_made h := h ▸ .made _
  identity_iff h h' := h.eq_iff h'

theorem Implements.get?_pair (hT : T.Implements programs) (name : String) :
    Option.Rel (T.pairing programs).cls (T.bare.get? name) (T.get? name) := by
  rw [get?_bare]
  cases hcls : T.get? name with
  | none => exact .none
  | some cls => exact .some ⟨rfl, hT.classes hcls⟩

/-- **Machines with and without code start alike.** -/
theorem Implements.new_pair (hT : T.Implements programs) :
    (Machine.new T.bare).Pair (T.pairing programs) (Machine.new T) :=
  .new hT.get?_pair

end ClassTable

end Smalltalk
