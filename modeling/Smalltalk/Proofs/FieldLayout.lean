/-
**The layout of fields.**

The fields of a class are numbered when they are declared, from the number of fields of the
superclass on; the fields of an object are counted when it is made, along all superclasses. Both
agree, for any programs: an object has the fields of the superclass first and its own after them, and
the number of a field in the code of a class is its place in that list.

* `Compilation.fields_flat` — **the fields of a class stand in one list**, which the code, the
  class and all its objects agree on.
-/

import Smalltalk.Proofs.Orderly

namespace Smalltalk

/-- Has the code an instruction that reads or writes the field with a number? -/
def CompiledCode.UsesField (code : CompiledCode) (index : UInt16) : Prop :=
  .pushField index ∈ Instruction.decode code.code ∨ .storeField index ∈ Instruction.decode code.code

instance (code : CompiledCode) (index : UInt16) : Decidable (code.UsesField index) :=
  inferInstanceAs (Decidable (_ ∨ _))

/-- An object that a machine can come to has as many fields as its class says. -/
theorem Machine.Reachable.size_of_holds {T : ClassTable} (hT : T.Coherent) {m : Machine}
    (hm : Reachable T m) {cls : Class} {number : Nat} (hv : m.Holds (.object cls number)) :
    T.get? cls.name = some cls ∧
      ∃ row, m.store.objects[number]? = some row ∧ row.size = cls.fields.length := by
  cases (hm.orderly hT T.dispatches_true).holds hv with
  | plain hplain => cases hplain
  | object hcls hsize =>
    rw [Store.objectSizes, List.getElem?_map, Option.map_eq_some_iff, Array.getElem?_toList] at hsize
    exact ⟨hcls, hsize⟩

namespace Compilation

theorem ofPrograms_coherent (options : CompileOptions) (programs : List Program) :
    (ClassTable.ofSymbols (ofPrograms options programs).table).Coherent :=
  ClassTable.ofSymbols_coherent (ofPrograms_sound options programs).1
    (ofPrograms_bodiesOpened options programs) (ofPrograms_codeFits options programs)

/-- **The fields of a class stand in one list**, whatever programs the class comes from. Each field
has its place in the list for its number, the list begins with that of the superclass, and it is as
long as the count of the class; it is the list of the class at run time, and every object of the class
has as many fields. All code of the methods of the class, with their blocks, uses numbers of the
list. -/
theorem fields_flat (options : CompileOptions) (programs : List Program) {C : ScopeId}
    (hC : ((ofPrograms options programs).table.scope C).kind.isClass = true) :
    let t := (ofPrograms options programs).table
    (∀ i id, (t.fields C)[i]? = some id → (t.symbol id).kind = .field ∧ (t.symbol id).index = i) ∧
    (t.fields C).length = (t.scope C).kind.fieldCount ∧
    (∃ cls, (ClassTable.ofSymbols t).get? (t.scope C).name = some cls ∧
      cls.fields = (t.fields C).map (fun id => (t.symbol id).name) ∧
      cls.fields.length = (t.fields C).length ∧
      ∀ m, Machine.Reachable (ClassTable.ofSymbols t) m → ∀ cls' number,
        m.Holds (.object cls' number) → cls'.name = (t.scope C).name → cls' = cls ∧
          ∃ row, m.store.objects[number]? = some row ∧ row.size = (t.fields C).length) ∧
    (∀ S, t.superclass? C = some S → t.fields S <+: t.fields C) ∧
    ∀ M code, (t.scope M).enclosing = some C → (t.scope M).code = some code →
      ∀ unit ∈ code.units, ∀ index, unit.UsesField index →
        index.toNat < (t.fields C).length ∧
          ∃ id, (t.fields C)[index.toNat]? = some id ∧ (t.symbol id).index = index.toNat := by
  intro t
  have hsound : t.Sound := (ofPrograms_sound options programs).1
  have hget := ClassTable.get?_ofSymbols hsound ((ofPrograms_homed options programs).listed hC)
  have hlength : (ClassTable.classAt t C).fields.length = (t.fields C).length := List.length_map _
  refine ⟨fun i id => hsound.index_of_fields hC, hsound.length_fields hC,
    ⟨_, hget, rfl, hlength, fun m hm cls number hv hname => ?_⟩,
    fun S => hsound.prefix_fields, fun M code hM hcode unit hunit index huses => ?_⟩
  · obtain ⟨hcls, row, hrow, hsize⟩ := hm.size_of_holds (ofPrograms_coherent options programs) hv
    rw [hname] at hcls
    obtain rfl := Option.some.inj (hget.symm.trans hcls)
    exact ⟨rfl, row, hrow, hsize.trans hlength⟩
  · obtain ⟨C', henclosing, -, hunits⟩ := ofPrograms_codeFits options programs M code hcode
    obtain rfl := Option.some.inj (henclosing.symm.trans hM)
    have hlt := (hunits unit hunit).index_lt huses
    have hid : (t.fields C')[index.toNat]? = some (t.fields C')[index.toNat] :=
      List.getElem?_eq_getElem hlt
    exact ⟨hlt, _, hid, (hsound.index_of_fields hC hid).2⟩

/-- A class with a field, and in a second program a class that adds one to it and uses both, also in
a block. -/
def layeredFields : List Program :=
  [Program.parse "class A [|x| class new <primitive:#Object_Class_BASICNEW>]",
    Program.parse "class B : A [|y| swap [y := x. ^[x := y]]] ^B new swap"]

/-- What the two programs are compiled to. -/
def layeredFieldsCompiled : Compilation := ofPrograms ⟨"main.st", false, false⟩ layeredFields

/-- Does the innermost activation run for an object of the second class? -/
def isRunningForB (m : Machine) : Bool :=
  m.stack.frames.head?.any fun f =>
    match f.environment.receiver with
    | .object cls _ => cls.name = "B"
    | _ => false

set_option maxRecDepth 100000 in
/-- An object of the second class has two fields while its method runs, and the method uses the
second of them. -/
theorem layeredFields_flat :
    let t := layeredFieldsCompiled.table
    (t.scope 2).name = "B" ∧ (t.scope 2).kind.isClass = true ∧ t.fields 1 <+: t.fields 2 ∧
    (∃ m cls number row, Machine.Reachable (ClassTable.ofSymbols t) m ∧
      m.Holds (.object cls number) ∧ cls.name = "B" ∧
      m.store.objects[number]? = some row ∧ row.size = 2) ∧
    ∃ code id, (t.scope 3).code = some code ∧ (∃ unit ∈ code.units, unit.UsesField 1) ∧
      (t.fields 2)[1]? = some id ∧ (t.symbol id).index = 1 := by
  intro t
  have hfacts : ((t.scope 2).name = "B" ∧ (t.scope 2).kind.isClass = true ∧
      (t.fields 2).length = 2 ∧ t.superclass? 2 = some 1) ∧ ((t.scope 3).enclosing = some 2 ∧
      ((t.scope 3).code.any fun code => code.units.any fun unit => unit.UsesField 1) = true) ∧
      Machine.holdsAfter (ClassTable.ofSymbols t) 4 isRunningForB = true := by
    decide +kernel
  obtain ⟨⟨hname, hclass, hcount, hsuper⟩, hcode, hafter⟩ := hfacts
  obtain ⟨-, -, ⟨cls, -, -, -, hobjects⟩, hgrown, huses⟩ :=
    fields_flat ⟨"main.st", false, false⟩ layeredFields hclass
  refine ⟨hname, hclass, hgrown 1 hsuper, ?_, ?_⟩
  · obtain ⟨m, hm, hrunning⟩ := Machine.exists_reachable_of_holdsAfter hafter
    obtain ⟨f, hf, hreceiver⟩ := (Option.any_eq_true _ _).1 hrunning
    have hheld := Machine.Holds.refers (.receiver (List.mem_of_mem_head? hf))
    split at hreceiver
    next cls' number hobject =>
        rw [hobject] at hheld
        have hcls := of_decide_eq_true hreceiver
        obtain ⟨-, row, hrow, hsize⟩ := hobjects m hm cls' number hheld (hcls.trans hname.symm)
        exact ⟨m, cls', number, row, hm, hheld, hcls, hrow, hsize.trans hcount⟩
    next => cases hreceiver
  · obtain ⟨code, hcode', hunits⟩ := (Option.any_eq_true _ _).1 hcode.2
    obtain ⟨unit, hunit, hfield⟩ := List.any_eq_true.1 hunits
    have hfield := of_decide_eq_true hfield
    obtain ⟨-, id, hid, hindex⟩ := huses 3 code hcode.1 hcode' unit hunit 1 hfield
    exact ⟨code, id, hcode', ⟨unit, hunit, hfield⟩, hid, hindex⟩

end Compilation

end Smalltalk
