/-
**Orderly machines.**

While a program runs, every object has as many fields as its class says, every class is one of the
table, and every activation runs code of a method of the table for a receiver that the method may
have. A machine that starts in order stays so, because the code keeps track of its receiver: a
message to `super` goes to the receiver of the running method, and all else goes to a method that the
receiver itself understands.

What a method may have for a receiver is left open here.

* `Value.Orderly`, `Frame.Orderly`, `Machine.Orderly` — **values,
  activations and machines that are in order**;
* `Machine.Orderly.step` — **a step leaves a machine in order**.
-/

import Smalltalk.Proofs.FieldUse
import Smalltalk.Proofs.Lookups
import Smalltalk.Proofs.Scoping

namespace Smalltalk

variable {arguments operands left : List Value} {V : Value → Prop} {v receiver self : Value}
  {row : Array Value} {T : ClassTable} {m : Machine} {c : Closure Value} {t : SymbolTable}
  {s : List Bool} {selector name : String} {method : Method} {cls : Class} {classSide : Bool}
  {n : Nat}

/-! ### Classes that refer to each other -/

theorem Class.superclass_mem_lineage {c superclass : Class} (h : c.superclass = some superclass) :
    superclass ∈ c.lineage := by
  rw [lineage_eq, h, Option.map_some, Option.getD_some, lineage_eq superclass]
  exact List.mem_cons_of_mem _ List.mem_cons_self

namespace ClassTable

/-- The number of fields of the class with a name. -/
def fieldCount (T : ClassTable) (name : String) : Nat :=
  ((T.get? name).map fun cls => cls.fields.length).getD 0

/-- **Classes that refer to each other**: all superclasses are in the table, every method says where
it is declared, and all code belongs to its class. -/
structure Coherent (T : ClassTable) : Prop where
  name {name : String} {cls : Class} : T.get? name = some cls → cls.name = name
  lineage {name : String} {cls d : Class} : T.get? name = some cls → d ∈ cls.lineage →
    T.get? d.name = some d
  address {name : String} {cls : Class} {classSide : Bool} {selector : String} {m : Method} :
    T.get? name = some cls → (cls.side classSide)[selector]? = some m →
      m.address = ⟨name, classSide, selector⟩
  units {m : Method} {block : Option Nat} {code : CompiledCode} :
    T.methodAt? m.address = some m → m.unit? block = some code →
      code.IsOf m.address.className (T.fieldCount m.address.className)

variable {m : Method}

/-- A method that is found belongs to a class of the table. -/
theorem Coherent.lookup (h : T.Coherent) (hcls : T.get? name = some cls)
    (hm : cls.lookup? selector classSide = some m) :
    (∃ d ∈ cls.lineage, m.address = ⟨d.name, classSide, selector⟩) ∧
      T.methodAt? m.address = some m := by
  obtain ⟨d, hd, hm⟩ := List.exists_of_findSome?_eq_some hm
  have hget := h.lineage hcls hd
  have haddress := h.address hget hm
  refine ⟨⟨d, hd, haddress⟩, ?_⟩
  rw [haddress, methodAt?, hget]
  exact hm

/-- A method that a message finds is one of the receiver's class, or of a class that serves all
objects. -/
theorem exists_of_findMethod? {c : Option Class} (h : T.findMethod? c selector classSide = some m) :
    ∃ cls, (c = some cls ∨ ∃ name ∈ shared, T.get? name = some cls) ∧
      cls.lookup? selector classSide = some m := by
  rw [findMethod?] at h
  cases hc : c.bind (·.lookup? selector classSide) with
  | some found =>
    rw [hc] at h
    obtain ⟨cls, rfl, hlookup⟩ := Option.bind_eq_some_iff.1 hc
    exact ⟨cls, .inl rfl, hlookup.trans h⟩
  | none =>
    rw [hc] at h
    obtain ⟨cls, hcls, hlookup⟩ := List.exists_of_findSome?_eq_some (h : _ = some m)
    grind

/-- The units of a method are its code and that of its blocks. -/
theorem mem_units_of_unit? {block : Option Nat} {code : CompiledCode} (h : m.unit? block = some code) :
    code ∈ m.code.units := by
  cases block with
  | none =>
    obtain rfl := Option.some.inj h
    exact List.mem_cons_self
  | some n => exact List.mem_cons_of_mem _ (Array.mem_toList_iff.2 (Array.mem_of_getElem? h))

/-- The code of a method of compiled programs was stored for it, unless the method is an operation. -/
theorem exists_of_methodAt? (hsound : t.Sound) (hopened : t.BodiesOpened)
    (hm : (ofSymbols t).methodAt? m.address = some m) :
    ∃ C, (ofSymbols t).get? m.address.className = some (classAt t C) ∧
      (t.scope C).name = m.address.className ∧
      ((∃ body, (t.scope body).enclosing = some C ∧ (t.scope body).code = some m.code) ∨
        m.code.className = m.address.className ∧ m.code.units = [m.code] ∧ m.code.code = []) := by
  obtain ⟨cls, hcls, hmethod⟩ := Option.bind_eq_some_iff.1 hm
  obtain ⟨C, hC, hname, rfl⟩ := exists_of_get?_ofSymbols hsound hcls
  rw [side_classAt, hname] at hmethod
  obtain ⟨-, id, hid, -, hcode⟩ := exists_of_getElem?_methodsOf hmethod
  refine ⟨C, hcls, hname, ?_⟩
  rw [codeOf?] at hcode
  cases hkind : (t.symbol id).kind with
  | method body side =>
    rw [hkind] at hcode
    have hbody := hopened C hC id (Array.mem_toList_iff.1 (List.mem_filter.1 hid).1) body side hkind
    exact .inl ⟨body, hbody.enclosing, hcode⟩
  | primitive operation side arguments =>
    rw [hkind] at hcode
    rw [← Option.some.inj hcode]
    exact .inr ⟨rfl, rfl, rfl⟩
  | _ => rw [hkind] at hcode; cases hcode

/-- **The classes of compiled programs refer to each other.** -/
theorem ofSymbols_coherent (hsound : t.Sound) (hopened : t.BodiesOpened) (hfits : t.CodeFits) :
    (ofSymbols t).Coherent where
  name {name cls} hcls := by
    obtain ⟨C, -, hname, rfl⟩ := exists_of_get?_ofSymbols hsound hcls
    exact hname
  lineage {name cls d} hcls hd := by
    obtain ⟨C, hC, rfl⟩ := exists_of_mem_lineage hsound hcls hd
    exact get?_ofSymbols hsound hC
  address {name cls classSide selector m} hcls hm := by
    obtain ⟨C, -, hname, rfl⟩ := exists_of_get?_ofSymbols hsound hcls
    rw [side_classAt, hname] at hm
    exact (exists_of_getElem?_methodsOf hm).1
  units {m block code} hm hcode := by
    obtain ⟨C, hcls, hname, hstored⟩ := exists_of_methodAt? hsound hopened hm
    have hunit := mem_units_of_unit? hcode
    rcases hstored with ⟨body, hbody, hstored⟩ | ⟨hclass, hnone, hempty⟩
    · obtain ⟨C', henclosing, -, hunits⟩ := hfits body m.code hstored
      obtain rfl := Option.some.inj (henclosing.symm.trans hbody)
      have hcount : (ofSymbols t).fieldCount m.address.className = (t.fields C').length := by
        rw [fieldCount, hcls]
        exact List.length_map _
      rw [hcount, ← hname]
      exact hunits code hunit
    · rw [hnone] at hunit
      obtain rfl := List.mem_singleton.1 hunit
      exact ⟨hclass, [], ⟨[], hempty, .nil⟩, trivial⟩

/-- The class of a value, if there is one with that name. -/
def classFor? (T : ClassTable) : Value → Option Class
  | .object cls _ | .classObject cls => some cls
  | other => T.get? other.className

/-- **Messages reach receivers that the methods may have**: those that the receiver understands, and
those that code sends to `super`. -/
@[grind cases]
structure Dispatches (T : ClassTable) (R : Method → Value → Prop) : Prop where
  direct {v : Value} {selector : String} {method : Method} :
    (∀ cls, T.classFor? v = some cls → T.get? cls.name = some cls) →
      T.findMethod? (T.classFor? v) selector v.isClass = some method → R method v
  super {method method' : Method} {v : Value} {selector : String} :
    (∀ cls, T.classFor? v = some cls → T.get? cls.name = some cls) →
      R method v → ((T.get? method.address.className).bind Class.superclass).bind
        (·.lookup? selector v.isClass) = some method' → R method' v

theorem dispatches_true (T : ClassTable) : T.Dispatches fun _ _ => True :=
  ⟨fun _ _ => trivial, fun _ _ _ => trivial⟩

end ClassTable

theorem Machine.classOf?_eq (h : m.classes = T) (v : Value) : m.classOf? v = T.classFor? v := by
  subst h
  cases v <;> rfl

/-! ### All that is in a store -/

/-- Something is true of all values in a store. -/
structure Store.All (V : Value → Prop) (s : Store) : Prop where
  slots : ∀ row ∈ s.activations, ∀ v ∈ row, V v
  fields : ∀ row ∈ s.objects, ∀ v ∈ row, V v
  items : ∀ row ∈ s.arrays, ∀ v ∈ row, V v

/-- The number of fields of each object. -/
def Store.objectSizes (s : Store) : List Nat := s.objects.toList.map Array.size

namespace Store

section Rows

variable {rows : Array (Array Value)}

theorem forall_mem_modify (h : ∀ row ∈ rows, ∀ w ∈ row, V w) (hv : V v) (n i : Nat) :
    ∀ row ∈ rows.modify n (·.setIfInBounds i v), ∀ w ∈ row, V w := by
  intro row hrow
  obtain ⟨j, hj⟩ := Array.getElem?_of_mem hrow
  grind

theorem forall_mem_getD (h : ∀ row ∈ rows, ∀ w ∈ row, V w) (n : Nat) :
    ∀ w ∈ rows.getD n #[], V w := by
  rw [Array.getD_eq_getD_getElem?]
  grind

end Rows

namespace All

variable {W : Value → Prop} {s : Store}

section

variable (h : s.All V)

include h

theorem imp (himp : ∀ v, V v → W v) : s.All W :=
  ⟨fun row hrow v hv => himp v (h.slots row hrow v hv),
    fun row hrow v hv => himp v (h.fields row hrow v hv),
    fun row hrow v hv => himp v (h.items row hrow v hv)⟩

theorem newActivation (hrow : ∀ v ∈ row, V v) : (s.newActivation row).2.All V :=
  ⟨Array.forall_mem_push.2 ⟨hrow, h.slots⟩, h.fields, h.items⟩

theorem newObject (hnil : V .nil) (cls : Class) : (s.newObject cls).2.All V := by
  refine ⟨h.slots, Array.forall_mem_push.2 ⟨fun v hv => ?_, h.fields⟩, h.items⟩
  rw [Array.eq_of_mem_replicate hv]
  exact hnil

theorem newArray {items : Array Value} (hitems : ∀ v ∈ items, V v) : (s.newArray items).2.All V :=
  ⟨h.slots, h.fields, Array.forall_mem_push.2 ⟨hitems, h.items⟩⟩

theorem newString (text : String) : (s.newString text).2.All V :=
  ⟨h.slots, h.fields, h.items⟩

theorem newBlock (closure : Closure Value) : (s.newBlock closure).2.All V :=
  ⟨h.slots, h.fields, h.items⟩

theorem writeLine (text : String) : (s.writeLine text).All V :=
  ⟨h.slots, h.fields, h.items⟩

theorem setSlot (hv : V v) (activation index : Nat) : (s.setSlot activation index v).All V :=
  ⟨forall_mem_modify h.slots hv activation index, h.fields, h.items⟩

theorem setField (hv : V v) (object index : Nat) : (s.setField object index v).All V :=
  ⟨h.slots, forall_mem_modify h.fields hv object index, h.items⟩

theorem setItem (hv : V v) (array index : Nat) : (s.setItem array index v).All V :=
  ⟨h.slots, h.fields, forall_mem_modify h.items hv array index⟩

theorem slot? {activation index : Nat} (hv : s.slot? activation index = some v) : V v := by
  obtain ⟨row, hrow, hv⟩ := Option.bind_eq_some_iff.1 hv
  exact h.slots row (Array.mem_of_getElem? hrow) v (Array.mem_of_getElem? hv)

end

end All

theorem objectSizes_newObject (s : Store) (cls : Class) :
    (s.newObject cls).2.objectSizes = s.objectSizes ++ [cls.fields.length] := by
  simp [newObject, objectSizes]

/-- A new object comes after all others. -/
theorem prefix_newObject (s : Store) (cls : Class) :
    s.objectSizes <+: (s.newObject cls).2.objectSizes := by
  rw [objectSizes_newObject]
  exact List.prefix_append _ _

theorem objectSizes_getElem?_newObject (s : Store) (cls : Class) :
    (s.newObject cls).2.objectSizes[s.objects.size]? = some cls.fields.length := by
  have hlength : s.objects.size = s.objectSizes.length := by
    rw [objectSizes, List.length_map, Array.length_toList]
  rw [objectSizes_newObject, hlength, List.getElem?_concat_length]

theorem objectSizes_setField (s : Store) (object index : Nat) (v : Value) :
    (s.setField object index v).objectSizes = s.objectSizes := by
  refine List.ext_getElem? fun i => ?_
  simp only [objectSizes, setField, List.getElem?_map, Array.getElem?_toList,
    Array.getElem?_modify]
  grind

end Store

/-! ### Values, activations and machines in order -/

section Definitions

variable (T : ClassTable) (R : Method → Value → Prop) (sizes : List Nat)

/-- **A value in order**: an object has as many fields as its class says, and a block is one of a
method that may have its receiver. -/
inductive Value.Orderly : Value → Prop
  | plain {v : Value} (h : v.isPlain = true) : Value.Orderly v
  | object {cls : Class} {number : Nat} (hcls : T.get? cls.name = some cls)
      (hsize : sizes[number]? = some cls.fields.length) : Value.Orderly (.object cls number)
  | classObject {cls : Class} (hcls : T.get? cls.name = some cls) :
      Value.Orderly (.classObject cls)
  | block {number : Nat} {closure : Closure Value}
      (hmethod : T.methodAt? closure.method.address = some closure.method)
      (hunit : closure.method.unit? (some closure.index) = some closure.code)
      (hreceives : R closure.method closure.environment.receiver)
      (hreceiver : Value.Orderly closure.environment.receiver) :
      Value.Orderly (.block number closure)

/-- What is known about some operands: which of them are the receiver. -/
def Marked (receiver : Value) : List Bool → List Value → Prop :=
  List.Forall₂ fun b v => b = true → v = receiver

/-- An activation of code of the table, for a receiver that the method may have. -/
@[grind cases]
structure Frame.Serves (f : Frame) : Prop where
  method : T.methodAt? f.method.address = some f.method
  unit : f.method.unit? f.block = some f.code
  receives : R f.method f.environment.receiver
  receiver : f.environment.receiver.Orderly T R sizes
  operands : ∀ v ∈ f.operands, v.Orderly T R sizes

/-- **An activation in order**: what is left of its code keeps track of the receiver among its
operands and those that it waits for. -/
structure Frame.Orderly (given : List Bool) (f : Frame) : Prop extends f.Serves T R sizes where
  tracks : ∃ ops s, Spelled f.code.literals f.rest ops ∧
    Tracks (T.fieldCount f.method.address.className) (given ++ s) ops ∧
    Marked f.environment.receiver s f.operands

/-- A loop with blocks that are in order. -/
def Loop.Orderly (l : Loop) : Prop :=
  (∃ number, (Value.block number l.condition).Orderly T R sizes) ∧
    ∃ number, (Value.block number l.body).Orderly T R sizes

/-- What is kept when a run is over is in order. -/
structure Machine.Settled (m : Machine) : Prop where
  classes : m.classes = T
  transcript : ∀ v, m.transcript = some v → v.Orderly T R m.store.objectSizes
  store : m.store.All (Value.Orderly T R m.store.objectSizes)

/-- All activations wait for a value. -/
structure Machine.Awaits (m : Machine) : Prop extends m.Settled T R where
  frames : ∀ f ∈ m.stack.frames, f.Orderly T R m.store.objectSizes [false]
  loops : ∀ l ∈ m.loops, l.Orderly T R m.store.objectSizes

/-- **A machine in order**, whose innermost activation runs and whose others wait for a value. -/
@[grind cases]
structure Machine.Orderly (m : Machine) : Prop extends m.Settled T R where
  frames {f : Frame} {frames : List Frame} : m.stack.frames = f :: frames →
    f.Orderly T R m.store.objectSizes [] ∧
      ∀ g ∈ frames, g.Orderly T R m.store.objectSizes [false]
  loops : ∀ l ∈ m.loops, l.Orderly T R m.store.objectSizes

/-- What comes of a step is in order. -/
def Progress.Orderly : Progress → Prop
  | .running m => m.Orderly T R
  | .finished v m => v.Orderly T R m.store.objectSizes ∧ m.Settled T R
  | .failed _ m => m.Settled T R

end Definitions

variable {R : Method → Value → Prop} {sizes sizes' : List Nat}

theorem Value.Orderly.mono (h : sizes <+: sizes') (hv : v.Orderly T R sizes) :
    v.Orderly T R sizes' := by
  induction hv with
  | plain hplain => exact .plain hplain
  | object hcls hsize =>
    obtain ⟨more, rfl⟩ := h
    refine .object hcls ?_
    grind
  | classObject hcls => exact .classObject hcls
  | block hmethod hunit hreceives _ ih => exact .block hmethod hunit hreceives ih

/-- The class of a value in order is one of the table. -/
theorem Value.Orderly.known (hT : T.Coherent) (hv : v.Orderly T R sizes)
    (hcls : T.classFor? v = some cls) : T.get? cls.name = some cls := by
  cases hv with
  | plain hplain =>
    cases v with
    | block _ _ | object _ _ | classObject _ => cases hplain
    | _ => exact (hT.name hcls).symm ▸ hcls
  | object hknown _ | classObject hknown =>
    obtain rfl := Option.some.inj hcls
    exact hknown
  | block _ _ _ _ => exact (hT.name hcls).symm ▸ hcls

theorem Loop.Orderly.mono (h : sizes <+: sizes') {l : Loop} (hl : l.Orderly T R sizes) :
    l.Orderly T R sizes' :=
  ⟨hl.1.imp fun _ hc => hc.mono h, hl.2.imp fun _ hb => hb.mono h⟩

namespace Frame.Orderly

variable {given : List Bool} {f : Frame}

theorem mono (h : sizes <+: sizes') (hf : f.Orderly T R sizes given) :
    f.Orderly T R sizes' given :=
  ⟨⟨hf.method, hf.unit, hf.receives, hf.receiver.mono h,
    fun v hv => (hf.operands v hv).mono h⟩, hf.tracks⟩

/-- The value that an activation waits for. -/
theorem push (hf : f.Orderly T R sizes [false]) (hv : v.Orderly T R sizes) :
    (f.push v).Orderly T R sizes [] := by
  obtain ⟨ops, s, hspelled, htracks, hmarked⟩ := hf.tracks
  exact ⟨⟨hf.method, hf.unit, hf.receives, hf.receiver,
    List.forall_mem_cons.2 ⟨hv, hf.operands⟩⟩, ops, false :: s, hspelled, htracks,
    .cons nofun hmarked⟩

end Frame.Orderly

/-! ### Starting and ending activations -/

theorem forall_mem_slots (hnil : V .nil) (code : CompiledCode) (harguments : ∀ v ∈ arguments, V v) :
    ∀ v ∈ Machine.slots code arguments, V v := by
  intro v hv
  rcases Array.mem_append.1 hv with hv | hv
  · exact harguments v (List.mem_toArray.1 hv)
  · rw [Array.eq_of_mem_replicate hv]
    exact hnil

namespace Machine

/-- A new activation runs, and the others wait for its value. -/
theorem Awaits.start (h : m.Awaits T R) (hT : T.Coherent) {f : Frame}
    (hmethod : T.methodAt? f.method.address = some f.method)
    (hunit : f.method.unit? f.block = some f.code) (hreceives : R f.method f.environment.receiver)
    (hreceiver : f.environment.receiver.Orderly T R m.store.objectSizes)
    (hrest : f.rest = f.code.code) (hoperands : f.operands = [])
    (hrow : ∀ v ∈ row, v.Orderly T R m.store.objectSizes) :
    Orderly T R ⟨m.classes, m.transcript, (m.store.newActivation row).2, m.stack.push f, m.loops⟩ where
  classes := h.classes
  transcript := h.transcript
  store := h.store.newActivation hrow
  frames {g frames} hframes := by
    obtain ⟨rfl, rfl⟩ := List.cons.inj (hframes : f :: m.stack.frames = g :: frames)
    obtain ⟨ops, hspelled, htracks⟩ := (hT.units hmethod hunit).tracks
    refine ⟨⟨⟨hmethod, hunit, hreceives, hreceiver, ?_⟩, ops, [], ?_, htracks, ?_⟩, h.frames⟩
    · rw [hoperands]
      exact fun v hv => absurd hv List.not_mem_nil
    · rwa [hrest]
    · rw [hoperands]
      exact .nil
  loops := h.loops

theorem Awaits.activate (h : m.Awaits T R) (hT : T.Coherent)
    (hmethod : T.methodAt? method.address = some method) (hreceives : R method receiver)
    (hreceiver : receiver.Orderly T R m.store.objectSizes)
    (hrow : ∀ v ∈ row, v.Orderly T R m.store.objectSizes) :
    (m.activate method receiver row).Orderly T R :=
  h.start hT (f := .ofMethod method ⟨receiver, m.store.activations.size, []⟩) hmethod rfl hreceives
    hreceiver rfl rfl hrow

theorem Awaits.enterBlock (h : m.Awaits T R) (hT : T.Coherent)
    (hc : ∃ number, (Value.block number c).Orderly T R m.store.objectSizes)
    (harguments : ∀ v ∈ arguments, v.Orderly T R m.store.objectSizes) :
    (m.enterBlock c arguments).Orderly T R := by
  rw [Machine.enterBlock]
  split
  · obtain ⟨number, hc⟩ := hc
    cases hc with
    | plain hplain => cases hplain
    | block hmethod hunit hreceives hreceiver =>
      exact h.start hT (f := .ofBlock c m.store.activations.size) hmethod hunit hreceives hreceiver
        rfl rfl (forall_mem_slots (.plain rfl) c.code harguments)
  · exact h.toSettled

theorem Awaits.give (h : m.Awaits T R) (hv : v.Orderly T R m.store.objectSizes) :
    (m.give v).Orderly T R := by
  obtain ⟨classes, transcript, store, ⟨frames, depth, hdepth⟩, loops⟩ := m
  cases frames with
  | nil => exact ⟨hv, h.toSettled⟩
  | cons f frames =>
    refine ⟨⟨h.classes, h.transcript, h.store⟩, fun {g gs} hframes => ?_, h.loops⟩
    obtain ⟨rfl, rfl⟩ := List.cons.inj (hframes : f.push v :: frames = g :: gs)
    exact ⟨(h.frames f List.mem_cons_self).push hv,
      fun g hg => h.frames g (List.mem_cons_of_mem _ hg)⟩

/-- Activations end, and those that go on have waited for the value. -/
theorem Settled.leave (h : m.Settled T R) (hT : T.Coherent)
    (hframes : ∀ f ∈ m.stack.frames.drop n, f.Orderly T R m.store.objectSizes [false])
    (hloops : ∀ l ∈ m.loops, l.Orderly T R m.store.objectSizes)
    (hv : v.Orderly T R m.store.objectSizes) : (m.leave n v).Orderly T R := by
  have hawaits (outer : List Loop) (houter : ∀ l ∈ outer, l.Orderly T R m.store.objectSizes) :
      Awaits T R ⟨m.classes, m.transcript, m.store, m.stack.drop n, outer⟩ :=
    ⟨⟨h.classes, h.transcript, h.store⟩, hframes, houter⟩
  refine leave_rule (fun outer w hsub _ hw => ?_) (fun l outer inBody hsub _ _ => ?_)
    fun outer hsub => (hawaits outer fun l hl => hloops l (hsub.subset hl)).toSettled
  · refine (hawaits outer fun l hl => hloops l (hsub.subset hl)).give ?_
    rcases hw with rfl | rfl
    · exact hv
    · exact .plain rfl
  · obtain ⟨hl, houter⟩ := List.forall_mem_cons.1 fun l' hl' => hloops l' (hsub.subset hl')
    refine (hawaits ({ l with inBody } :: outer) (List.forall_mem_cons.2 ⟨hl, houter⟩)).enterBlock hT
      ?_ fun _ hv => absurd hv List.not_mem_nil
    cases inBody with
    | false => exact hl.1
    | true => exact hl.2

end Machine

/-! ### What instructions ask for -/

/-- What is asked for is in order, if `s` is what is known about the operands afterwards. -/
def Action.Orderly (T : ClassTable) (R : Method → Value → Prop) (m : Machine) (receiver : Value)
    (operands : List Value) (s : List Bool) : Action → Prop
  | .proceed store operands => m.store.objectSizes <+: store.objectSizes ∧
      store.All (Value.Orderly T R store.objectSizes) ∧
      (∀ v ∈ operands, v.Orderly T R store.objectSizes) ∧ Marked receiver s operands
  | .record _ => Marked receiver s operands
  | .call operands method self arguments => Leaves operands ∧
      T.methodAt? method.address = some method ∧ R method self ∧
      self.Orderly T R m.store.objectSizes ∧ ∀ v ∈ arguments, v.Orderly T R m.store.objectSizes
  | .invoke operands closure arguments => Leaves operands ∧
      (∃ number, (Value.block number closure).Orderly T R m.store.objectSizes) ∧
      ∀ v ∈ arguments, v.Orderly T R m.store.objectSizes
  | .loop operands condition body _ => Leaves operands ∧
      (∃ number, (Value.block number condition).Orderly T R m.store.objectSizes) ∧
      ∃ number, (Value.block number body).Orderly T R m.store.objectSizes
  | .leave v | .answer v => v.Orderly T R m.store.objectSizes
  | .fail _ => True
where
  /-- The operands that are left, below the value that is waited for. -/
  Leaves (operands : List Value) : Prop :=
    (∀ v ∈ operands, v.Orderly T R m.store.objectSizes) ∧
      ∃ s', s = false :: s' ∧ Marked receiver s' operands

namespace Action

variable {α : Type} {k : α → Action}

theorem need_orderly {fault : Fault} {x : Option α}
    (hk : ∀ a, x = some a → (k a).Orderly T R m receiver operands s) :
    (need fault x k).Orderly T R m receiver operands s := by
  cases x with
  | none => trivial
  | some a => exact hk a rfl

theorem attempt_orderly {x : Except Fault α}
    (hk : ∀ a, x = .ok a → (k a).Orderly T R m receiver operands s) :
    (attempt x k).Orderly T R m receiver operands s := by
  cases x with
  | error fault => trivial
  | ok a => exact hk a rfl

section

variable (hstore : m.store.All (Value.Orderly T R m.store.objectSizes))
  (hleft : (∀ v ∈ left, v.Orderly T R m.store.objectSizes) ∧ Marked receiver s left)

include hstore hleft

/-- What the reply of an operation asks for is in order. -/
theorem ofReply_orderly {reply : Reply}
    (hreply : reply.Proper (Value.Orderly T R m.store.objectSizes)) :
    (ofReply m.store left reply).Orderly T R m receiver operands (false :: s) := by
  obtain ⟨hleft, hmarked⟩ := hleft
  have hmark (v : Value) : Marked receiver (false :: s) (v :: left) := .cons nofun hmarked
  cases reply with
  | value v =>
    exact ⟨List.prefix_rfl, hstore, List.forall_mem_cons.2 ⟨hreply, hleft⟩, hmark v⟩
  | newString text =>
    exact ⟨List.prefix_rfl, hstore.newString text,
      List.forall_mem_cons.2 ⟨.plain rfl, hleft⟩, hmark _⟩
  | newArray items =>
    exact ⟨List.prefix_rfl, hstore.newArray hreply,
      List.forall_mem_cons.2 ⟨.plain rfl, hleft⟩, hmark _⟩
  | newObject cls =>
    have hgrown := m.store.prefix_newObject cls
    have hnumber := m.store.objectSizes_getElem?_newObject cls
    cases hreply with
    | plain hplain => cases hplain
    | classObject hcls =>
      exact ⟨hgrown, (hstore.newObject (.plain rfl) cls).imp fun _ hv => hv.mono hgrown,
        List.forall_mem_cons.2 ⟨.object hcls hnumber, fun v hv => (hleft v hv).mono hgrown⟩,
        hmark _⟩
  | setItem array index v =>
    exact ⟨List.prefix_rfl, hstore.setItem hreply array index,
      List.forall_mem_cons.2 ⟨hreply, hleft⟩, hmark v⟩
  | writeLine text v =>
    exact ⟨List.prefix_rfl, hstore.writeLine text, List.forall_mem_cons.2 ⟨hreply, hleft⟩,
      hmark v⟩
  | invoke closure arguments
  | loop condition body repeatWhile => exact ⟨⟨hleft, s, rfl, hmarked⟩, hreply.2⟩

theorem ofPrimitive_orderly (p : Primitive) (hself : self.Orderly T R m.store.objectSizes)
    (harguments : ∀ v ∈ arguments, v.Orderly T R m.store.objectSizes) :
    (ofPrimitive m.store left p self arguments).Orderly T R m receiver operands (false :: s) := by
  have hmeets := p.perform_meets (fun v hv => .plain hv)
    (fun number => Store.forall_mem_getD hstore.items number) hself harguments
  refine attempt_orderly fun reply hreply => ?_
  rw [hreply] at hmeets
  exact ofReply_orderly hstore hleft hmeets

end

end Action

namespace Machine

variable {f : Frame} {toSuper : Bool} {index : UInt16} {found : Nat × Value}

/-- A method that is found for a message is one of the table. -/
theorem methodAt?_of_methodOn? (hT : T.Coherent) (hclasses : m.classes = T) {className : String}
    (hself : self.Orderly T R sizes)
    (h : m.methodOn? toSuper className self selector classSide = some method) :
    T.methodAt? method.address = some method := by
  subst hclasses
  rw [methodOn?] at h
  split at h
  · obtain ⟨superclass, hsuperclass, hlookup⟩ := Option.bind_eq_some_iff.1 h
    obtain ⟨cls, hcls, hsuper⟩ := Option.bind_eq_some_iff.1 hsuperclass
    exact (hT.lookup (hT.lineage hcls (Class.superclass_mem_lineage hsuper)) hlookup).2
  · obtain ⟨cls, hcls, hlookup⟩ := ClassTable.exists_of_findMethod? h
    have hknown : m.classes.get? cls.name = some cls := by
      rcases hcls with hcls | ⟨name, -, hcls⟩
      · rw [classOf?_eq rfl] at hcls
        exact hself.known hT hcls
      · exact (hT.name hcls).symm ▸ hcls
    exact (hT.lookup hknown hlookup).2

section

variable (hT : T.Coherent) (hR : T.Dispatches R) (h : m.Settled T R)
  (hf : f.Serves T R m.store.objectSizes)

include hT hR h hf

/-- **What a message asks for is in order.** -/
theorem messageAction_orderly
    (hleft : (∀ v ∈ left, v.Orderly T R m.store.objectSizes) ∧ Marked f.environment.receiver s left)
    (hself : self.Orderly T R m.store.objectSizes)
    (hsuper : toSuper = true → self = f.environment.receiver)
    (harguments : ∀ v ∈ arguments, v.Orderly T R m.store.objectSizes) :
    (m.messageAction toSuper f.code.className selector left self arguments).Orderly T R m
      f.environment.receiver operands (false :: s) := by
  rw [messageAction]
  split
  next p _ => exact Action.ofPrimitive_orderly h.store hleft p hself harguments
  next =>
      refine Action.attempt_orderly fun method hmethod => ?_
      have hfound : m.methodOn? toSuper f.code.className self selector self.isClass =
          some method := by
        rw [methodFor] at hmethod
        grind
      split
      next p _ => exact Action.ofPrimitive_orderly h.store hleft p hself harguments
      next =>
          refine ⟨⟨hleft.1, s, rfl, hleft.2⟩, methodAt?_of_methodOn? hT h.classes hself hfound, ?_,
            hself, harguments⟩
          have hclasses := h.classes
          subst hclasses
          rw [methodOn?] at hfound
          split at hfound
          next hto =>
            obtain rfl := hsuper hto
            rw [(hT.units hf.method hf.unit).className] at hfound
            exact hR.super (fun cls => hself.known hT) hf.receives hfound
          next =>
            rw [classOf?_eq rfl] at hfound
            exact hR.direct (fun cls => hself.known hT) hfound

theorem sendAction_orderly (hmarked : Marked f.environment.receiver s f.operands) (toSuper : Bool)
    (count selector : UInt16) (hsuper : toSuper = true → s[count.toNat]? = some true) :
    (m.sendAction f toSuper count selector).Orderly T R m f.environment.receiver f.operands
      (false :: s.drop (count.toNat + 1)) := by
  refine Action.need_orderly fun selector _ => ?_
  split
  next arguments self left htake =>
      obtain ⟨-, harguments, hrest⟩ := takeOperands_eq_some_iff.1 htake
      have hdrop := List.forall₂_drop (count.toNat + 1) hmarked
      have hget : f.operands[count.toNat]? = some self := by
        rw [← List.head?_drop, ← hrest]
        rfl
      have hleftEq : f.operands.drop (count.toNat + 1) = left := by
        rw [← List.tail_drop, ← hrest]
        rfl
      rw [hleftEq] at hdrop
      refine messageAction_orderly hT hR h hf ⟨fun v hv => ?_, hdrop⟩
        (hf.operands self (List.mem_of_getElem? hget)) (fun hto => ?_) fun v hv => ?_
      · grind
      · obtain ⟨v, hv, hreceiver⟩ := Forall₂.exists_getElem?_right hmarked (hsuper hto)
        grind
      · grind
  next => trivial

end

theorem pushArray_orderly (h : m.Settled T R) (hf : f.Serves T R m.store.objectSizes)
    (hmarked : Marked f.environment.receiver s f.operands) (count : UInt16) :
    (m.action f (.pushArray count)).Orderly T R m f.environment.receiver f.operands
      (false :: s.drop count.toNat) := by
  refine Action.need_orderly fun taken htake => ?_
  obtain ⟨-, hitems, hrest⟩ := takeOperands_eq_some_iff.1 (Prod.eta taken ▸ htake)
  refine Action.ofReply_orderly h.store ⟨fun v hv => ?_, ?_⟩ fun v hv => ?_
  · rw [hrest] at hv
    exact hf.operands v (List.mem_of_mem_drop hv)
  · rw [hrest]
    exact List.forall₂_drop _ hmarked
  · grind

theorem Settled.global? (h : m.Settled T R) (hT : T.Coherent) (hv : m.global? name = some v) :
    v.Orderly T R m.store.objectSizes := by
  rw [Machine.global?, Option.orElse_eq_orElse, Option.orElse_eq_or, Option.or_eq_some_iff] at hv
  rcases hv with hv | ⟨-, hv⟩
  · split at hv
    · exact h.transcript v hv
    · cases hv
  · obtain ⟨cls, hcls, rfl⟩ := Option.map_eq_some_iff.1 hv
    rw [h.classes] at hcls
    exact .classObject ((hT.name hcls).symm ▸ hcls)

theorem getElem?_of_fieldAt (h : m.fieldAt f index = .ok found) :
    (m.store.fieldsOf found.1)[index.toNat]? = some found.2 := by
  rw [fieldAt] at h
  grind

/-- **An instruction asks for nothing that is out of order.** -/
theorem action_orderly (hT : T.Coherent) (hR : T.Dispatches R) (h : m.Settled T R)
    (hf : f.Serves T R m.store.objectSizes)
    (hmarked : Marked f.environment.receiver s f.operands) {op : Op} {i : Instruction}
    (hwritten : op.Written f.code.literals i)
    (hallowed : op.Allowed (T.fieldCount f.method.address.className) s) :
    (m.action f i).Orderly T R m f.environment.receiver f.operands (op.shape s) := by
  have hpush {b : Bool} {v : Value} (hv : v.Orderly T R m.store.objectSizes)
      (hb : b = true → v = f.environment.receiver) :
      (Action.proceed m.store (v :: f.operands)).Orderly T R m f.environment.receiver f.operands
        (b :: s) :=
    ⟨List.prefix_rfl, h.store, List.forall_mem_cons.2 ⟨hv, hf.operands⟩, .cons hb hmarked⟩
  have htop {v : Value} (hv : f.operands.head? = some v) :
      v.Orderly T R m.store.objectSizes := hf.operands v (List.mem_of_mem_head? hv)
  cases hwritten with
  | array hc =>
    subst hc
    exact pushArray_orderly h hf hmarked _
  | literal hliteral => exact Action.need_orderly fun _ _ => hpush (.plain rfl) nofun
  | global hliteral =>
    exact Action.need_orderly fun name _ => Action.need_orderly fun v hv =>
      hpush (h.global? hT hv) nofun
  | send hc hselector =>
    subst hc
    exact sendAction_orderly hT hR h hf hmarked false _ _ nofun
  | sendSuper hc hselector =>
    subst hc
    exact sendAction_orderly hT hR h hf hmarked true _ _ fun _ => hallowed
  | plain hliteral =>
    cases i with
    | pushSelf => exact hpush hf.receiver fun _ => rfl
    | pushNil | pushTrue | pushFalse | pushInteger _ | pushFloat _ => exact hpush (.plain rfl) nofun
    | pushCharacter code => exact Action.need_orderly fun _ _ => hpush (.plain rfl) nofun
    | pushArray count => exact pushArray_orderly h hf hmarked count
    | pushLocal depth index =>
      refine Action.attempt_orderly fun found hfound => hpush ?_ nofun
      exact h.store.slot? (of_slotAt hfound).2
    | pushField index =>
      refine Action.attempt_orderly fun found hfound => hpush ?_ nofun
      exact Store.forall_mem_getD h.store.fields _ _
        (Array.mem_of_getElem? (getElem?_of_fieldAt hfound))
    | storeLocal depth index =>
      refine Action.need_orderly fun v hv => Action.attempt_orderly fun found _ => ?_
      exact ⟨List.prefix_rfl, h.store.setSlot (htop hv) _ _, hf.operands, hmarked⟩
    | storeField index =>
      refine Action.need_orderly fun v hv => Action.attempt_orderly fun found _ => ?_
      have hsizes := m.store.objectSizes_setField found.1 index.toNat v
      refine ⟨hsizes ▸ List.prefix_rfl, ?_, ?_, hmarked⟩
      · rw [hsizes]
        exact h.store.setField (htop hv) _ _
      · rw [hsizes]
        exact hf.operands
    | pop =>
      refine Action.need_orderly fun v hv => ⟨List.prefix_rfl, h.store, fun w hw => ?_, ?_⟩
      · exact hf.operands w (List.mem_of_mem_tail hw)
      · have hdrop := List.forall₂_drop 1 hmarked
        rwa [List.drop_one, List.drop_one] at hdrop
    | block index =>
      refine Action.need_orderly fun code hcode => ⟨List.prefix_rfl, h.store.newBlock _, ?_, ?_⟩
      · exact List.forall_mem_cons.2
          ⟨.block hf.method hcode hf.receives hf.receiver, hf.operands⟩
      · exact .cons nofun hmarked
    | blockReturn | methodReturn => exact Action.need_orderly fun v hv => htop hv
    | mark file line column => exact hmarked
    | pushLiteral _ | pushGlobal _ | send _ _ | sendSuper _ _ => cases hliteral

/-! ### Steps -/

/-- What is asked for is done in order. -/
theorem carryOut_orderly (hT : T.Coherent) (h : m.Orderly T R) {f₀ : Frame} {frames : List Frame}
    (hm : m.stack.frames = f₀ :: frames) (hf : f.Serves T R m.store.objectSizes)
    {ops : List Op} (hspelled : Spelled f.code.literals f.rest ops)
    (htracks : Tracks (T.fieldCount f.method.address.className) s ops) {a : Action}
    (ha : a.Orderly T R m f.environment.receiver f.operands s) :
    (m.carryOut f a).Orderly T R := by
  obtain ⟨classes, transcript, store, ⟨fs, depth, hdepth⟩, loops⟩ := m
  obtain rfl : fs = f₀ :: frames := hm
  have hframes := (h.frames rfl).2
  have hawaits {left : List Value} (hleft : Action.Orderly.Leaves T R
      ⟨classes, transcript, store, ⟨f₀ :: frames, depth, hdepth⟩, loops⟩ f.environment.receiver s
      left) :
      Awaits T R ⟨classes, transcript, store,
        ⟨{ f with operands := left } :: frames, depth, hdepth⟩, loops⟩ := by
    obtain ⟨hvalues, s', rfl, hmarked⟩ := hleft
    exact ⟨⟨h.classes, h.transcript, h.store⟩, List.forall_mem_cons.2
      ⟨⟨⟨hf.method, hf.unit, hf.receives, hf.receiver, hvalues⟩, ops, s', hspelled, htracks,
        hmarked⟩, hframes⟩, h.loops⟩
  have hdrop {count : Nat} (hcount : 0 < count) :
      ∀ g ∈ (f₀ :: frames).drop count, g.Orderly T R store.objectSizes [false] := by
    intro g hg
    obtain ⟨n, rfl⟩ := Nat.exists_eq_succ_of_ne_zero (Nat.ne_of_gt hcount)
    exact hframes g (List.mem_of_mem_drop hg)
  cases a with
  | proceed store' operands =>
    obtain ⟨hgrown, hstore, hvalues, hmarked⟩ := ha
    refine ⟨⟨h.classes, fun v hv => (h.transcript v hv).mono hgrown, hstore⟩,
      fun {g gs} hgs => ?_, fun l hl => (h.loops l hl).mono hgrown⟩
    obtain ⟨rfl, rfl⟩ := List.cons.inj (hgs : { f with operands := operands } :: frames = g :: gs)
    exact ⟨⟨⟨hf.method, hf.unit, hf.receives, hf.receiver.mono hgrown, hvalues⟩, ops, s, hspelled,
      htracks, hmarked⟩, fun g hg => (hframes g hg).mono hgrown⟩
  | record mark =>
    refine ⟨⟨h.classes, h.transcript, h.store⟩, fun {g gs} hgs => ?_, h.loops⟩
    obtain ⟨rfl, rfl⟩ := List.cons.inj (hgs : { f with mark := some mark } :: frames = g :: gs)
    exact ⟨⟨⟨hf.method, hf.unit, hf.receives, hf.receiver, hf.operands⟩, ops, s, hspelled, htracks,
      ha⟩, hframes⟩
  | call left method self arguments =>
    obtain ⟨hleft, hmethod, hreceives, hself, harguments⟩ := ha
    rw [carryOut, enterMethod]
    split
    · exact (hawaits hleft).activate hT hmethod hreceives hself
        (forall_mem_slots (.plain rfl) _ harguments)
    · exact (hawaits hleft).toSettled
  | invoke left closure arguments =>
    exact (hawaits ha.1).enterBlock hT ha.2.1 ha.2.2
  | loop left condition body repeatWhile =>
    have hwaiting := hawaits ha.1
    refine Awaits.enterBlock (m := ⟨classes, transcript, store,
      ⟨{ f with operands := left } :: frames, depth, hdepth⟩,
      ⟨depth - 1, condition, body, repeatWhile, false⟩ :: loops⟩) ?_ hT ha.2.1
      fun _ hv => absurd hv List.not_mem_nil
    exact ⟨⟨h.classes, h.transcript, h.store⟩, hwaiting.frames,
      List.forall_mem_cons.2 ⟨ha.2, h.loops⟩⟩
  | leave v => exact h.toSettled.leave hT (hdrop Nat.one_pos) h.loops ha
  | answer v =>
    rw [carryOut]
    split
    next count hcount => exact h.toSettled.leave hT (hdrop (returnCount?_pos hcount)) h.loops ha
    next => exact h.toSettled
  | fail fault => exact h.toSettled

/-- **A step leaves a machine in order.** -/
theorem Orderly.step (hT : T.Coherent) (hR : T.Dispatches R) (h : m.Orderly T R) :
    m.step.Orderly T R := by
  cases hm : m.stack.frames with
  | nil =>
    rw [Machine.step, hm]
    exact h.toSettled
  | cons f frames =>
    obtain ⟨hf, hframes⟩ := h.frames hm
    obtain ⟨ops, s, hspelled, htracks, hmarked⟩ := hf.tracks
    cases ops with
    | nil =>
      rw [Machine.step, hm]
      dsimp only
      rw [hspelled.read?_nil]
      exact h.toSettled
    | cons op ops =>
      obtain ⟨i, rest, hread, hwritten, hrest⟩ := hspelled.read?_cons
      obtain ⟨hallowed, hops⟩ := htracks.resolve_left fun hop => by subst hop; cases hwritten
      rw [step_of_read hm hread, execute_eq_carryOut]
      have hf' : Frame.Serves T R m.store.objectSizes { f with rest := rest } :=
        ⟨hf.method, hf.unit, hf.receives, hf.receiver, hf.operands⟩
      exact carryOut_orderly hT h hm hf' hrest hops
        (action_orderly hT hR h.toSettled hf' hmarked hwritten hallowed)

/-! ### Runs -/

theorem new_settled (hT : T.Coherent) : (Machine.new T).Settled T R := by
  have hempty : Store.empty.All (Value.Orderly T R Store.empty.objectSizes) :=
    ⟨fun _ h => absurd h (Array.not_mem_empty _), fun _ h => absurd h (Array.not_mem_empty _),
      fun _ h => absurd h (Array.not_mem_empty _)⟩
  rw [Machine.new]
  split
  next cls hcls =>
      refine ⟨rfl, fun v hv => ?_, (hempty.newObject (.plain rfl) cls).imp fun _ hv =>
        hv.mono (Store.empty.prefix_newObject cls)⟩
      obtain rfl := Option.some.inj hv
      exact .object ((hT.name hcls).symm ▸ hcls) (Store.empty.objectSizes_getElem?_newObject cls)
  next => exact ⟨rfl, (fun _ hv => by cases hv), hempty⟩

/-- Nothing is in progress between two runs. -/
theorem Settled.clear (h : m.Settled T R) : m.clear.Orderly T R :=
  ⟨⟨h.classes, h.transcript, h.store⟩, nofun, fun _ hl => absurd hl List.not_mem_nil⟩

theorem Settled.start? (h : m.Settled T R) (hT : T.Coherent) (hR : T.Dispatches R) {entry : String}
    {m' : Machine} (hstart : m.start? entry = some m') : m'.Orderly T R := by
  obtain ⟨classes, transcript, store, stack, loops⟩ := m
  obtain rfl : classes = T := h.classes
  obtain ⟨cls, method, hcls, hmethod, rfl⟩ := of_start? hstart
  have hknown : classes.get? cls.name = some cls := (hT.name hcls).symm ▸ hcls
  have hgrown := store.prefix_newObject cls
  have hsettled : Settled classes R
      ⟨classes, transcript, (store.newObject cls).2, CallStack.empty, []⟩ :=
    ⟨rfl, fun v hv => (h.transcript v hv).mono hgrown,
      (h.store.newObject (.plain rfl) cls).imp fun _ hv => hv.mono hgrown⟩
  have hawaits : Awaits classes R
      ⟨classes, transcript, (store.newObject cls).2, CallStack.empty, []⟩ :=
    ⟨hsettled, fun _ hf => absurd hf List.not_mem_nil, fun _ hl => absurd hl List.not_mem_nil⟩
  have hfound : classes.findMethod? (some cls) mainMethod false = some method := by
    rw [ClassTable.findMethod?, Option.bind_some, hmethod]
    rfl
  refine hawaits.activate hT (hT.lookup hknown hmethod).2 ?_
    (.object hknown (store.objectSizes_getElem?_newObject cls)) fun v hv => ?_
  · refine hR.direct (v := .object cls store.objects.size) (fun cls' hcls' => ?_) hfound
    obtain rfl := Option.some.inj hcls'
    exact hknown
  · rw [Array.eq_of_mem_replicate hv]
    exact .plain rfl

/-- **Every reachable state is in order.** -/
theorem Reachable.orderly (hT : T.Coherent) (hR : T.Dispatches R) (h : Reachable T m) :
    m.Orderly T R := by
  induction h with
  | new => exact new_clear T ▸ (new_settled hT).clear
  | start _ hstart ih => exact ih.toSettled.start? hT hR hstart
  | step _ hstep ih =>
    have hnext := ih.step hT hR
    rwa [hstep] at hnext
  | finish _ hstep ih =>
    have hnext := ih.step hT hR
    rw [hstep] at hnext
    exact hnext.2.clear
  | fail _ hstep ih =>
    have hnext := ih.step hT hR
    rw [hstep] at hnext
    exact Settled.clear hnext

/-! ### The values that there are -/

/-- **The values that a machine can come to**: those it refers to, and the receivers of its blocks. -/
inductive Holds (m : Machine) : Value → Prop
  | refers {v : Value} (h : m.Refers v) : Holds m v
  | receiver {c : Closure Value} (h : m.Live c) : Holds m c.environment.receiver

theorem Orderly.frame (h : m.Orderly T R) (hf : f ∈ m.stack.frames) :
    ∃ given, f.Orderly T R m.store.objectSizes given := by
  cases hm : m.stack.frames with
  | nil =>
    rw [hm] at hf
    cases hf
  | cons top frames =>
    grind

theorem Orderly.refers (h : m.Orderly T R) (hv : m.Refers v) :
    v.Orderly T R m.store.objectSizes := by
  cases hv with
  | operand hf hv => exact (h.frame hf).elim fun _ hf => hf.operands v hv
  | receiver hf => exact (h.frame hf).elim fun _ hf => hf.receiver
  | slot hslot => exact h.store.slot? hslot
  | field hfield =>
    exact Store.forall_mem_getD h.store.fields _ v (Array.mem_of_getElem? hfield)
  | item hitem => exact Store.forall_mem_getD h.store.items _ v (Array.mem_of_getElem? hitem)
  | transcript htranscript => exact h.transcript v htranscript

theorem Orderly.live (h : m.Orderly T R) (hc : m.Live c) :
    ∃ number, (Value.block number c).Orderly T R m.store.objectSizes := by
  induction hc with
  | value hv => exact ⟨_, h.refers hv⟩
  | condition hl => exact (h.loops _ hl).1
  | body hl => exact (h.loops _ hl).2
  | receiver _ hd ih =>
    obtain ⟨number, hc⟩ := ih
    cases hc with
    | plain hplain => cases hplain
    | block _ _ _ hreceiver => exact ⟨_, hd ▸ hreceiver⟩

/-- All values that a machine can come to are in order. -/
theorem Orderly.holds (h : m.Orderly T R) (hv : m.Holds v) : v.Orderly T R m.store.objectSizes := by
  cases hv with
  | refers hv => exact h.refers hv
  | receiver hc =>
    obtain ⟨number, hc⟩ := h.live hc
    cases hc with
    | plain hplain => cases hplain
    | block _ _ _ hreceiver => exact hreceiver

end Machine

end Smalltalk
