/-
**The receivers of methods.**

A method of a class runs for objects of the class and of its subclasses. There are two exceptions:
`Object` and `Collection` also serve values that do not inherit from them. These two have no fields,
and neither have the classes of numbers, strings and the other values that are no objects. So if the
code of a method uses a field, the receiver is an object that has the field, unless the method is one
of the class itself, whose receiver is a class.

* `ClassTable.Suits` — **what a method may have for a receiver**;
* `Compilation.fields_present` — **a field is missing only for a class**.
-/

import Smalltalk.Proofs.FieldLayout
import Smalltalk.Proofs.StandardClasses

namespace Smalltalk

variable {T : ClassTable}

/-! ### Methods and receivers -/

/-- The fields of a class begin with those of every class that it inherits from. -/
theorem SymbolTable.Sound.fields_prefix_of_mem {t : SymbolTable} (h : t.Sound) {C S : ScopeId}
    (hS : S ∈ t.lineage C) : t.fields S <+: t.fields C := by
  induction C using Nat.strongRecOn with
  | ind C ih =>
    rw [h.lineage_eq] at hS
    rcases List.mem_cons.1 hS with rfl | hS
    · exact List.prefix_rfl
    · cases hsuper : t.superclass? C with
      | none =>
        rw [hsuper] at hS
        cases hS
      | some s =>
        rw [hsuper] at hS
        exact (ih s (h.superclass hsuper).1 hS).trans (h.prefix_fields hsuper)

/-- A class inherits from all that its superclasses inherit from. -/
theorem Class.mem_lineage_trans : ∀ {c d e : Class}, d ∈ c.lineage → e ∈ d.lineage →
    e ∈ c.lineage
  | ⟨name, some superclass, fields, methods, classMethods⟩, d, e, hd, he => by
    rw [lineage_eq] at hd ⊢
    rcases List.mem_cons.1 hd with rfl | hd
    · rwa [← lineage_eq]
    · exact List.mem_cons_of_mem _ (mem_lineage_trans hd he)
  | ⟨name, none, fields, methods, classMethods⟩, d, e, hd, he => by
    rw [lineage_eq] at hd
    obtain rfl := List.mem_singleton.1 hd
    exact he

namespace ClassTable

/-- **What a method may have for a receiver**: a method of the class itself has a class, and a method
for the objects of a class has a value whose class inherits from it, unless the class serves all
values. -/
def Suits (T : ClassTable) (m : Method) (v : Value) : Prop :=
  m.address.classSide = v.isClass ∧
    (v.isClass = false →
      (∃ cls, T.classFor? v = some cls ∧ ∃ d ∈ cls.lineage, d.name = m.address.className) ∨
        m.address.className ∈ shared)

/-- **What the standard classes see to**: the basic classes have no fields, and those that serve all
values inherit from each other only. The fields of a class begin with those of every class that it
inherits from. -/
structure Grounded (T : ClassTable) : Prop extends T.Coherent where
  basic {name : String} : name ∈ basic → ∃ cls, T.get? name = some cls ∧ cls.fields = []
  shared {name : String} {cls d : Class} : name ∈ shared → T.get? name = some cls →
    d ∈ cls.lineage → d.name ∈ ClassTable.shared
  inherits {name : String} {cls d : Class} : T.get? name = some cls → d ∈ cls.lineage →
    d.fields <+: cls.fields

theorem ofSymbols_grounded {t : SymbolTable} (hT : (ofSymbols t).Coherent) (hsound : t.Sound)
    (hbasics : (ofSymbols t).BasicsStand) : (ofSymbols t).Grounded where
  toCoherent := hT
  basic {name} hname := by
    obtain ⟨cls, hcls, hfields, -⟩ := hbasics name hname
    exact ⟨cls, hcls, hfields⟩
  shared {name cls d} hname hcls hd := by
    obtain ⟨cls', hcls', -, hlineage⟩ := hbasics name (List.mem_append_left _ hname)
    cases hcls.symm.trans hcls'
    exact hlineage hname d hd
  inherits {name cls d} hcls hd := by
    obtain ⟨C, -, -, rfl⟩ := exists_of_get?_ofSymbols hsound hcls
    rw [lineage_classAt hsound] at hd
    obtain ⟨S, hS, rfl⟩ := List.mem_map.1 hd
    exact (hsound.fields_prefix_of_mem hS).map _

/-- **Messages reach methods that suit their receivers.** -/
theorem Grounded.dispatches (hT : T.Grounded) : T.Dispatches T.Suits where
  direct {v selector method} hknown hfound := by
    obtain ⟨cls, hcls, hlookup⟩ := exists_of_findMethod? hfound
    rcases hcls with hcls | ⟨name, hname, hget⟩
    · obtain ⟨⟨d, hd, haddress⟩, -⟩ := hT.lookup (hknown cls hcls) hlookup
      rw [Suits, haddress]
      exact ⟨rfl, fun _ => .inl ⟨cls, hcls, d, hd, rfl⟩⟩
    · obtain ⟨⟨d, hd, haddress⟩, -⟩ := hT.lookup hget hlookup
      rw [Suits, haddress]
      exact ⟨rfl, fun _ => .inr (hT.shared hname hget hd)⟩
  super {method method' v selector} hknown hsuits hfound := by
    obtain ⟨superclass, hsuperclass, hlookup⟩ := Option.bind_eq_some_iff.1 hfound
    obtain ⟨c, hc, hsuper⟩ := Option.bind_eq_some_iff.1 hsuperclass
    have hmem := Class.superclass_mem_lineage hsuper
    obtain ⟨⟨e, he, haddress⟩, -⟩ := hT.lookup (hT.lineage hc hmem) hlookup
    have hinherits : e ∈ c.lineage := Class.mem_lineage_trans hmem he
    rw [Suits, haddress]
    refine ⟨rfl, fun hv => ?_⟩
    rcases hsuits.2 hv with ⟨cls, hcls, d, hd, hname⟩ | hshared
    · have hget := hT.lineage (hknown cls hcls) hd
      rw [hname, hc] at hget
      obtain rfl := Option.some.inj hget
      exact .inl ⟨cls, hcls, e, Class.mem_lineage_trans hd hinherits, rfl⟩
    · exact .inr (hT.shared hshared hc hinherits)

end ClassTable

/-! ### Fields that are there -/

/-- The class of a value that is neither an object nor a class is a basic one. -/
theorem Value.className_mem_basic {v : Value} (hclass : v.isClass = false)
    (hobject : ∀ cls number, v ≠ .object cls number) : v.className ∈ ClassTable.basic := by
  cases v with
  | object cls number => exact absurd rfl (hobject cls number)
  | classObject cls => cases hclass
  | _ => simp [Value.className, ClassTable.basic]

variable {m : Machine} {f : Frame}

theorem Store.size_fieldsOf {s : Store} {number size : Nat}
    (h : s.objectSizes[number]? = some size) : (s.fieldsOf number).size = size := by
  rw [objectSizes, List.getElem?_map, Option.map_eq_some_iff, Array.getElem?_toList] at h
  obtain ⟨row, hrow, hsize⟩ := h
  rw [fieldsOf, Array.getD_eq_getD_getElem?, hrow]
  exact hsize

namespace ClassTable.Grounded

theorem fieldCount_of_shared (hT : T.Grounded) {name : String} (hname : name ∈ ClassTable.shared) :
    T.fieldCount name = 0 := by
  obtain ⟨cls, hcls, hfields⟩ := hT.basic (List.mem_append_left _ hname)
  rw [fieldCount, hcls, Option.map_some, hfields]
  rfl

/-- **A method that suits an object finds its fields there.** -/
theorem exists_fieldAt (hT : T.Grounded) (hf : f.Serves T T.Suits m.store.objectSizes)
    (hclass : f.environment.receiver.isClass = false) {index : UInt16}
    (hindex : index.toNat < T.fieldCount f.method.address.className) :
    ∃ found, m.fieldAt f index = .ok found := by
  rcases hf.receives.2 hclass with ⟨cls, hcls, d, hd, hname⟩ | hshared
  · have hget := hf.receiver.known hT.toCoherent hcls
    rw [← hname, fieldCount, hT.lineage hget hd, Option.map_some, Option.getD_some] at hindex
    have hlt := Nat.lt_of_lt_of_le hindex (hT.inherits hget hd).length_le
    rw [Machine.fieldAt]
    split
    next cls' number hobject =>
        have horderly := hf.receiver
        rw [hobject] at hcls horderly
        obtain rfl := Option.some.inj hcls
        cases horderly with
        | plain hplain => cases hplain
        | object _ hsize =>
          rw [← Store.size_fieldsOf hsize] at hlt
          rw [Array.getElem?_eq_getElem hlt]
          exact ⟨_, rfl⟩
    next hobject =>
        -- The class of the receiver is a basic one, which has no fields.
        obtain ⟨basic, hbasic, hfields⟩ :=
          hT.basic (Value.className_mem_basic hclass fun cls number h => hobject cls number h)
        have hclassFor : T.classFor? f.environment.receiver =
            T.get? f.environment.receiver.className := by
          cases hreceiver : f.environment.receiver with
          | object cls number => exact absurd hreceiver (hobject cls number)
          | classObject cls =>
            rw [hreceiver] at hclass
            cases hclass
          | _ => rfl
        grind
  · rw [hT.fieldCount_of_shared hshared] at hindex
    exact absurd hindex (Nat.not_lt_zero _)

end ClassTable.Grounded

/-! ### Steps that do not miss a field -/

/-- Nothing fails because a field is missing. -/
def Progress.Sure : Progress → Prop
  | .failed fault _ => fault.isOfField = false
  | _ => True

namespace Machine

theorem enterBlock_sure (closure : Closure Value) (arguments : List Value) :
    (m.enterBlock closure arguments).Sure := by
  rw [enterBlock]
  split
  · trivial
  · exact rfl

theorem give_sure (v : Value) : (m.give v).Sure := by
  rw [give]
  split <;> trivial

theorem leave_sure (n : Nat) (v : Value) : (m.leave n v).Sure :=
  leave_rule (fun _ _ _ _ _ => give_sure _) (fun _ _ _ _ _ _ => enterBlock_sure _ _) fun _ _ => rfl

/-- Only an instruction that uses a field can miss one. -/
theorem carryOut_sure {i : Instruction} {a : Action} (hasks : m.Asks f i a)
    (hfield : ∀ index, i = .pushField index ∨ i = .storeField index →
      ∃ found, m.fieldAt f index = .ok found) : (m.carryOut f a).Sure := by
  cases hasks with
  | proceed | assign | record => trivial
  | call =>
    rw [carryOut, enterMethod]
    split
    · trivial
    · exact rfl
  | invoke | loop => exact enterBlock_sure _ _
  | leave => exact leave_sure 1 _
  | answer =>
    rw [carryOut]
    split
    · exact leave_sure _ _
    · exact rfl
  | fail hmissing =>
    refine Bool.eq_false_iff.2 fun hfault => ?_
    obtain ⟨index, hi, hnone⟩ := hmissing hfault
    obtain ⟨found, hfound⟩ := hfield index hi
    exact hnone found hfound

/-- **A method that suits its receiver finds its fields**: if the innermost activation has no class for
a receiver, no step fails because a field is missing. -/
theorem Orderly.step_sure (hT : T.Grounded) (h : m.Orderly T T.Suits)
    (hclass : ∀ f frames, m.stack.frames = f :: frames → f.environment.receiver.isClass = false) :
    m.step.Sure := by
  cases hm : m.stack.frames with
  | nil =>
    rw [Machine.step, hm]
    exact rfl
  | cons f frames =>
    obtain ⟨hf, -⟩ := h.frames hm
    obtain ⟨ops, s, hspelled, htracks, -⟩ := hf.tracks
    cases ops with
    | nil =>
      rw [Machine.step, hm]
      dsimp only
      rw [hspelled.read?_nil]
      exact rfl
    | cons op ops =>
      obtain ⟨i, rest, hread, hwritten, -⟩ := hspelled.read?_cons
      obtain ⟨hallowed, -⟩ := htracks.resolve_left fun hop => by subst hop; cases hwritten
      rw [step_of_read hm hread, execute_eq_carryOut]
      refine carryOut_sure (m.action_asks _ i) fun index hi => ?_
      refine hT.exists_fieldAt (f := { f with rest := rest })
        ⟨hf.method, hf.unit, hf.receives, hf.receiver, hf.operands⟩ (hclass f frames hm) ?_
      rcases hi with rfl | rfl
      · cases hwritten with
        | plain _ => exact hallowed
      · cases hwritten with
        | plain _ => exact hallowed

end Machine

/-! ### Programs with the standard classes -/

namespace Compilation

theorem ofPrograms_grounded {options : CompileOptions} (hstandard : options.standard = true)
    (programs : List Program) :
    (ClassTable.ofSymbols (ofPrograms options programs).table).Grounded :=
  ClassTable.ofSymbols_grounded (ofPrograms_coherent options programs)
    (ofPrograms_sound options programs).1 (ofPrograms_basicsStand hstandard programs)

/-- **A field is missing only for a class.**  Let some programs be compiled after the standard classes.
In every state that a machine for them can be in, each activation runs code of a method of its class;
if it is a method for objects, the receiver is not a class, and the class of the receiver inherits from
that of the code, or else the code is one of `Object` or `Collection`, which have no fields. So if a
step fails because a field is missing, the receiver of the running method is a class. -/
theorem fields_present {options : CompileOptions} (hstandard : options.standard = true)
    (programs : List Program) {m : Machine}
    (hm : Machine.Reachable (ClassTable.ofSymbols (ofPrograms options programs).table) m) :
    let T := ClassTable.ofSymbols (ofPrograms options programs).table
    (∀ f ∈ m.stack.frames, T.methodAt? f.method.address = some f.method ∧
      f.method.unit? f.block = some f.code ∧ f.code.className = f.method.address.className ∧
      (f.method.address.classSide = false → f.environment.receiver.isClass = false ∧
        ((∃ cls, m.classOf? f.environment.receiver = some cls ∧
            ∃ d ∈ cls.lineage, d.name = f.code.className) ∨
          f.code.className = "Object" ∨ f.code.className = "Collection"))) ∧
    (∀ name, name = "Object" ∨ name = "Collection" →
      ∃ cls, T.get? name = some cls ∧ cls.fields = []) ∧
    ∀ className index m', m.step = .failed (.unknownField className index) m' →
      ∃ f frames, m.stack.frames = f :: frames ∧ f.environment.receiver.isClass = true ∧
        f.method.address.classSide = true := by
  intro T
  have hT : T.Grounded := ofPrograms_grounded hstandard programs
  have horderly := hm.orderly hT.toCoherent hT.dispatches
  have hserves (f : Frame) (hf : f ∈ m.stack.frames) : f.Serves T T.Suits m.store.objectSizes :=
    (horderly.frame hf).elim fun _ hf => hf.toServes
  have hshared (name : String) :
      name ∈ ClassTable.shared ↔ name = "Object" ∨ name = "Collection" := by
    rw [ClassTable.shared, List.mem_cons, List.mem_singleton]
  refine ⟨fun f hf => ?_, fun name hname => ?_, fun className index m' hstep => ?_⟩
  · have hf := hserves f hf
    have hcode := (hT.units hf.method hf.unit).className
    refine ⟨hf.method, hf.unit, hcode, fun hside => ?_⟩
    have hclass := hf.receives.1.symm.trans hside
    rw [Machine.classOf?_eq horderly.classes, hcode, ← hshared]
    exact ⟨hclass, hf.receives.2 hclass⟩
  · exact hT.basic (List.mem_append_left _ ((hshared name).2 hname))
  · by_cases hclass : ∀ f frames, m.stack.frames = f :: frames →
        f.environment.receiver.isClass = false
    · have hsure := horderly.step_sure hT hclass
      rw [hstep] at hsure
      cases hsure
    · push Not at hclass
      obtain ⟨f, frames, hframes, hreceiver⟩ := hclass
      rw [ne_eq, Bool.not_eq_false] at hreceiver
      refine ⟨f, frames, hframes, hreceiver, ?_⟩
      exact (hserves f (hframes ▸ List.mem_cons_self)).receives.1.trans hreceiver

/-- A method of an object that runs one of its class, which uses a field that the class does not
have. -/
def fieldOfClass : List Program :=
  [Program.parse "class A [|x| class peek [^x] go [x := 1. ^A peek]] A basicNew go"]

/-- Is the innermost activation about to miss a field, with a method for objects below? -/
def isMissingField (m : Machine) : Bool :=
  match m.stack.frames, m.step with
  | [_, g, _], .failed fault _ => fault.isOfField && !g.method.address.classSide
  | _, _ => false

set_option maxRecDepth 100000 in
/-- The field is missing because the receiver is a class, while the method below runs for an object. -/
theorem fieldOfClass_present :
    ∃ m f g h, Machine.Reachable
        (ClassTable.ofSymbols (ofPrograms ⟨"main.st", false, true⟩ fieldOfClass).table) m ∧
      m.stack.frames = [f, g, h] ∧ (∃ className index m',
        m.step = .failed (.unknownField className index) m') ∧
      f.environment.receiver.isClass = true ∧ g.method.address.classSide = false ∧
      g.environment.receiver.isClass = false := by
  have hafter : Machine.holdsAfter (ClassTable.ofSymbols
      (ofPrograms ⟨"main.st", false, true⟩ fieldOfClass).table) 8 isMissingField = true := by
    have hprogram := Program.parse_append (a := Standard.objects) (b := Standard.numbers)
      (c := Standard.collections) (d := Standard.services) rfl rfl rfl rfl
    rw [ofPrograms, start_standard, Standard.program, Standard.source, hprogram]
    decide +kernel
  obtain ⟨m, hm, hmissing⟩ := Machine.exists_reachable_of_holdsAfter hafter
  obtain ⟨hframes, -, hfields⟩ := fields_present rfl fieldOfClass hm
  rw [isMissingField] at hmissing
  split at hmissing
  next f g h fault m' hstack hstep =>
      cases fault with
      | unknownField className index =>
        obtain ⟨top, frames, htop, hreceiver, -⟩ := hfields className index m' hstep
        rw [hstack] at htop
        obtain ⟨rfl, -⟩ := List.cons.inj htop
        have hside : g.method.address.classSide = false := by
          simpa [Fault.isOfField] using hmissing
        have hg : g ∈ m.stack.frames := by
          rw [hstack]
          exact List.mem_cons_of_mem _ List.mem_cons_self
        exact ⟨m, f, g, h, hm, hstack, ⟨className, index, m', hstep⟩, hreceiver, hside,
          ((hframes g hg).2.2.2 hside).1⟩
      | _ => cases hmissing
  next => cases hmissing

end Compilation

end Smalltalk
