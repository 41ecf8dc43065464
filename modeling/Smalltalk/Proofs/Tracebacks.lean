/-
**Places in tracebacks.**

Code has no jumps, so that what an activation has carried out is the beginning of its code, and the
place that it has recorded is that of the last mark in there. An activation that waits has sent a
message. In code that is written with marks each message comes after one, and so does everything
else that can fail, with one exception: a field is read without a mark.

* `Frame.Past` — **what an activation has carried out**;
* `Compilation.trace_located` — **all entries of a traceback have a place**, unless a field
  of a class was read.
-/

import Smalltalk.Proofs.Receivers

namespace Smalltalk

variable {done : List Instruction} {rest : List UInt8} {i : Instruction} {code : CompiledCode}
  {m m' : Machine} {f : Frame} {frames : List Frame} {classes : ClassTable} {scope : ScopeId}
  {fault : Fault}

/-! ### What has been carried out -/

namespace Instruction

/-- The place that an instruction records. -/
def mark? : Instruction → Option Mark
  | .mark file line column => some ⟨file, line, column⟩
  | _ => none

/-- The place that was recorded last. -/
def lastMark? (done : List Instruction) : Option Mark := (done.filterMap mark?).getLast?

theorem lastMark?_append_singleton (done : List Instruction) (i : Instruction) :
    lastMark? (done ++ [i]) = (i.mark?).or (lastMark? done) := by
  rw [lastMark?, lastMark?, List.filterMap_append, List.getLast?_append]
  cases hi : i.mark? with
  | none => rw [List.filterMap_cons_none hi]; rfl
  | some mark => rw [List.filterMap_cons_some hi]; rfl

/-- **The instructions at the beginning of some code**, up to what is left of it. -/
inductive Ran (code : List UInt8) : List Instruction → List UInt8 → Prop
  | nil : Ran code [] code
  | snoc {done : List Instruction} {i : Instruction} {rest rest' : List UInt8}
      (h : Ran code done rest) (hread : read? rest = some (i, rest')) : Ran code (done ++ [i]) rest'

/-- The code of some instructions begins with some of them. -/
theorem Ran.exists_rest {is : List Instruction} (h : Ran (is.flatMap encode) done rest) :
    ∃ more, is = done ++ more ∧ rest = more.flatMap encode := by
  induction h with
  | nil => exact ⟨is, rfl, rfl⟩
  | snoc _ hread ih =>
    obtain ⟨more, rfl, rfl⟩ := ih
    cases more with
    | nil => cases hread
    | cons i more =>
      rw [List.flatMap_cons, read?_encode_append] at hread
      obtain ⟨rfl, rfl⟩ := Prod.mk.inj (Option.some.inj hread)
      exact ⟨more, by rw [List.append_assoc]; rfl, rfl⟩

end Instruction

open Instruction

/-- **What an activation has carried out.** -/
structure Frame.Past (f : Frame) (done : List Instruction) : Prop where
  ran : Ran f.code.code done f.rest
  mark : f.mark = lastMark? done

namespace Frame

/-- One more instruction is carried out, which records no place. -/
theorem Past.snoc (h : f.Past done) (hread : read? f.rest = some (i, rest)) (hi : i.mark? = none)
    (operands : List Value) : Past { f with rest := rest, operands := operands } (done ++ [i]) := by
  refine ⟨h.ran.snoc hread, ?_⟩
  rw [lastMark?_append_singleton, hi, Option.none_or]
  exact h.mark

theorem past_ofMethod (method : Method) (e : Environment Value) : (ofMethod method e).Past [] :=
  ⟨.nil, rfl⟩

theorem past_ofBlock (closure : Closure Value) (activation : Nat) :
    (ofBlock closure activation).Past [] := ⟨.nil, rfl⟩

end Frame

/-! ### Code with marks -/

/-- **Code in which marks come first**: what can make an activation wait or fail, but for reading a
field, comes after a mark, and all marks name one of the files. -/
def CompiledCode.Placed (files : List String) (code : CompiledCode) : Prop :=
  ∃ is : List Instruction, code.code = is.flatMap encode ∧
    (∀ before i after, is = before ++ i :: after → i.needsPlace = true →
      before.filterMap mark? ≠ []) ∧
    ∀ i ∈ is, ∀ mark, i.mark? = some mark → ∃ file ∈ files, code.literal? mark.file = some file

variable {c : CodeContext} {bs : List OpenedBlock} {s : List Bool}
  {literals : Array String}

/-- What needs a place comes after a mark. -/
theorem Op.Follows.marked {marked : Bool} {op : Op} (h : op.Follows c scope bs marked s)
    (hwritten : op.Written literals i) (hi : i.needsPlace = true) : marked = true := by
  cases hwritten with
  | plain hplain =>
    cases i with
    | storeField index => exact h.1
    | methodReturn => exact h
    | pushGlobal | send | sendSuper => cases hplain
    | _ => cases hi
  | global _ => exact h
  | send _ _ | sendSuper _ _ => exact h.1
  | array _ | literal _ => cases hi

/-- Operations in order that are written with marks. -/
theorem InOrder.exists_mark {S : Span → Prop} {marked : Bool} {ops : List Op}
    (h : InOrder S c scope bs marked s ops) (hmarks : c.marks = true)
    {before after : List Instruction}
    (hwritten : List.Forall₂ (Op.Written literals) ops (before ++ i :: after))
    (hi : i.needsPlace = true) : marked = true ∨ before.filterMap mark? ≠ [] := by
  induction h generalizing before with
  | nil => cases before <;> cases hwritten
  | invalid =>
    obtain ⟨_, _, hfirst, -⟩ := List.forall₂_cons_left_iff.1 hwritten
    cases hfirst
  | marks span _ ih =>
    rw [CodeContext.markOps, if_pos hmarks] at hwritten
    cases before with
    | nil =>
      obtain ⟨hfirst, -⟩ := List.forall₂_cons.1 hwritten
      cases hfirst
      cases hi
    | cons j before =>
      obtain ⟨hfirst, -⟩ := List.forall₂_cons.1 hwritten
      cases hfirst
      exact .inr (List.cons_ne_nil _ _)
  | cons hop _ ih =>
    cases before with
    | nil => exact .inl (hop.marked (List.forall₂_cons.1 hwritten).1 hi)
    | cons j before =>
      refine (ih (List.forall₂_cons.1 hwritten).2).imp_right fun hne hnil => hne ?_
      rw [List.filterMap_eq_nil_iff, List.forall_mem_cons] at hnil
      exact List.filterMap_eq_nil_iff.2 hnil.2

/-- The units of a method that is written with marks. -/
theorem CodeContext.methodCode_placed (hmarks : c.marks = true) {job : Job}
    (h : c.methodCode job = .ok code) {files : List String} (hfiles : c.fileName ∈ files) :
    ∀ unit ∈ code.units, unit.Placed files := by
  intro unit hunit
  obtain ⟨_, -, _, _, _, ⟨buffer, rfl, -, hfile, hwritten⟩, horder⟩ := methodCode_inOrder h unit hunit
  refine ⟨buffer.instructions.toList, rfl, fun before i after his hi => ?_, fun i hi mark hmark => ?_⟩
  · rw [his] at hwritten
    exact (horder.exists_mark hmarks hwritten hi).resolve_left Bool.false_ne_true
  · rcases horder.exists_follows hwritten hi with ⟨_, _, -, rfl⟩ | ⟨op, _, _, hfollows, hop⟩
    · obtain rfl := Option.some.inj hmark
      exact ⟨_, hfiles, hfile hmarks⟩
    · cases hop with
      | plain _ =>
        cases i with
        | mark => exact hfollows.elim
        | _ => cases hmark
      | _ => cases hmark

/-! ### Entries with a place -/

/-- An entry of a traceback with a place in one of the files. -/
def TraceEntry.IsLocated (files : List String) (entry : TraceEntry) : Prop :=
  ∃ position, entry.position = some position ∧ position.file ∈ files

namespace Frame.Past

variable {files : List String}

/-- An activation that has recorded a place has one in a file. -/
theorem isLocated_of_mark (h : f.Past done) (hcode : f.code.Placed files) (hmark : f.mark ≠ none) :
    f.entry.IsLocated files := by
  obtain ⟨is, hbytes, -, hfiles⟩ := hcode
  obtain ⟨mark, hsome⟩ := Option.ne_none_iff_exists'.1 hmark
  obtain ⟨i, hi, hrecords⟩ := List.mem_filterMap.1 (List.mem_of_getLast? (h.mark.symm.trans hsome))
  obtain ⟨more, rfl, -⟩ := (hbytes ▸ h.ran).exists_rest
  obtain ⟨file, hfile, hliteral⟩ := hfiles i (List.mem_append_left _ hi) mark hrecords
  refine ⟨⟨file, mark.line.toNat, mark.column.toNat⟩, ?_, hfile⟩
  rw [entry, hsome, Option.map_some, hliteral]
  rfl

/-- An activation whose next instruction needs a place has one. -/
theorem mark_ne_none (h : f.Past done) (hcode : f.code.Placed files)
    (hread : read? f.rest = some (i, rest)) (hi : i.needsPlace = true) : f.mark ≠ none := by
  obtain ⟨is, hbytes, hplaces, -⟩ := hcode
  obtain ⟨more, his, -⟩ := (hbytes ▸ h.ran.snoc hread).exists_rest
  rw [List.append_assoc, List.singleton_append] at his
  rw [h.mark]
  exact mt List.getLast?_eq_none_iff.1 (hplaces done i more his hi)

end Frame.Past

/-- An activation of some code with a place, which waits for a value. -/
def Frame.Waits (K : CompiledCode → Prop) (f : Frame) : Prop :=
  K f.code ∧ (∃ done, f.Past done) ∧ f.mark ≠ none

/-- **All activations but the innermost have a place.** -/
def Machine.Traced (K : CompiledCode → Prop) (m : Machine) : Prop :=
  ∀ f frames, m.stack.frames = f :: frames → (∃ done, f.Past done) ∧ ∀ g ∈ frames, g.Waits K

/-- A machine that has stopped: the innermost activation has a place as well, unless the code is at
fault or it was about to read a field. -/
def Machine.StoppedBy (K : CompiledCode → Prop) (m : Machine) (fault : Fault) (m' : Machine) : Prop :=
  ∀ f frames, m'.stack.frames = f :: frames → (∀ g ∈ frames, g.Waits K) ∧
    K f.code ∧ (∃ done, f.Past done) ∧ (f.mark ≠ none ∨ fault.isOfCode = true ∨
      fault.isOfField = true ∧ m' = m ∧ ∃ index rest, read? f.rest = some (.pushField index, rest))

/-- What comes of a step. -/
def Progress.Traced (K : CompiledCode → Prop) (m : Machine) : Progress → Prop
  | .running m' => m'.Traced K
  | .finished _ _ => True
  | .failed fault m' => m.StoppedBy K fault m'

namespace Machine

variable {files : List String} {K : CompiledCode → Prop} {m₁ : Machine} {v : Value}

theorem stoppedBy_of_waits (h : ∀ g ∈ m'.stack.frames, g.Waits K) :
    m.StoppedBy K fault m' := by
  intro f frames hm
  rw [hm, List.forall_mem_cons] at h
  exact ⟨h.2, h.1.1, h.1.2.1, .inl h.1.2.2⟩

/-- The innermost activation goes on. -/
theorem Traced.replaceTop (h : m.Traced K) (hm : m.stack.frames = f :: frames) {g : Frame}
    (hg : ∃ done, g.Past done) {store : Store} {loops : List Loop} :
    Traced K ⟨m.classes, m.transcript, store, m.stack.replaceTop g, loops⟩ := by
  intro g' frames' hframes
  obtain ⟨rfl, rfl⟩ := List.cons.inj ((frames_replaceTop hm g).symm.trans hframes)
  exact ⟨hg, (h f frames hm).2⟩

section

variable (h : ∀ g ∈ m₁.stack.frames, g.Waits K)

include h

/-- An activation is started while all others wait. -/
theorem traced_of_waits (hf : f.Past []) (hm : m'.stack.frames = f :: m₁.stack.frames) :
    m'.Traced K := by
  intro g frames hframes
  obtain ⟨rfl, rfl⟩ := List.cons.inj (hm.symm.trans hframes)
  exact ⟨⟨[], hf⟩, h⟩

theorem enterBlock_traced (closure : Closure Value) (arguments : List Value) :
    (m₁.enterBlock closure arguments).Traced K m := by
  rw [enterBlock]
  split
  · exact traced_of_waits h (Frame.past_ofBlock closure _) rfl
  · exact stoppedBy_of_waits h

theorem give_traced : (m₁.give v).Traced K m := by
  rw [give]
  split
  · trivial
  next f frames hm =>
    rw [hm, List.forall_mem_cons] at h
    obtain ⟨⟨-, ⟨done, hpast⟩, -⟩, hrest⟩ := h
    intro g frames' hframes
    obtain ⟨rfl, rfl⟩ := List.cons.inj ((frames_replaceTop hm (f.push v)).symm.trans hframes)
    exact ⟨⟨done, hpast.ran, hpast.mark⟩, hrest⟩

end

/-- Activations end, and those that go on have waited. -/
theorem leave_traced {n : Nat} (h : ∀ g ∈ m.stack.frames.drop n, g.Waits K) :
    (m.leave n v).Traced K m :=
  leave_rule (fun _ _ _ _ _ => give_traced h) (fun _ _ _ _ _ _ => enterBlock_traced h _ _)
    fun _ _ => stoppedBy_of_waits h

/-- What an instruction asks for that records no place. -/
theorem Traced.carryOut (h : m.Traced K) (hm : m.stack.frames = f :: frames) (hcode : K f.code)
    (hplaced : f.code.Placed files) (hread : read? f.rest = some (i, rest)) (hmark : i.mark? = none)
    {a : Action} (hasks : m.Asks { f with rest := rest } i a) :
    (m.carryOut { f with rest := rest } a).Traced K m := by
  obtain ⟨⟨done, hpast⟩, hwaits⟩ := h f frames hm
  have hsent {operands : List Value} (hi : i.needsPlace = true) :
      ∀ g ∈ (m.proceed { f with rest := rest } m.store operands).stack.frames, g.Waits K := by
    rw [show (m.proceed { f with rest := rest } m.store operands).stack.frames = _ from
      frames_replaceTop hm _, List.forall_mem_cons]
    exact ⟨⟨hcode, ⟨_, hpast.snoc hread hmark operands⟩, hpast.mark_ne_none hplaced hread hi⟩, hwaits⟩
  have hdrop {n : Nat} (hn : 0 < n) : ∀ g ∈ m.stack.frames.drop n, g.Waits K := by
    intro g hg
    obtain ⟨n, rfl⟩ := Nat.exists_eq_succ_of_ne_zero (Nat.ne_of_gt hn)
    rw [hm, List.drop_succ_cons] at hg
    exact hwaits g (List.mem_of_mem_drop hg)
  have hstops {fault : Fault} (hi : fault.isOfCode = true ∨ i.needsPlace = true ∨
      fault.isOfField = true ∧ ∃ index, i = .pushField index) : m.StoppedBy K fault m := by
    intro g frames' hframes
    obtain ⟨rfl, rfl⟩ := List.cons.inj (hm.symm.trans hframes)
    refine ⟨hwaits, hcode, ⟨done, hpast⟩, ?_⟩
    rcases hi with hi | hi | ⟨hfield, index, rfl⟩
    · exact .inr (.inl hi)
    · exact .inl (hpast.mark_ne_none hplaced hread hi)
    · exact .inr (.inr ⟨hfield, rfl, index, rest, hread⟩)
  cases hasks with
  | proceed | assign => exact h.replaceTop hm ⟨_, hpast.snoc hread hmark _⟩
  | record hi =>
    rw [hi] at hmark
    cases hmark
  | call hsends =>
    rw [Machine.carryOut, enterMethod]
    split
    · exact traced_of_waits (hsent hsends.needsPlace) (Frame.past_ofMethod _ _) rfl
    · exact stoppedBy_of_waits (hsent hsends.needsPlace)
  | invoke hsends => exact enterBlock_traced (hsent hsends.needsPlace) _ _
  | loop hsends =>
    refine enterBlock_traced ?_ _ _
    exact hsent hsends.needsPlace
  | leave => exact leave_traced (hdrop Nat.one_pos)
  | answer hi =>
    rw [Machine.carryOut]
    split
    next hcount => exact leave_traced (hdrop (returnCount?_pos hcount))
    next => exact hstops (.inr (.inl (by rw [hi]; rfl)))
  | fail _ hplace => exact hstops hplace

/-- **A step leaves all activations but the innermost with a place**, if the code has marks. -/
theorem Traced.step (h : m.Traced K) (hK : ∀ code, K code → code.Placed files)
    (hcode : ∀ f ∈ m.stack.frames, K f.code) : m.step.Traced K m := by
  cases hm : m.stack.frames with
  | nil =>
    rw [Machine.step, hm]
    intro f frames hframes
    cases hm.symm.trans hframes
  | cons f frames =>
    obtain ⟨⟨done, hpast⟩, hwaits⟩ := h f frames hm
    have hf := hcode f (hm ▸ List.mem_cons_self)
    cases hread : read? f.rest with
    | none =>
      simp only [Machine.step, hm, hread]
      intro g frames' hframes
      obtain ⟨rfl, rfl⟩ := List.cons.inj (hm.symm.trans hframes)
      exact ⟨hwaits, hf, ⟨done, hpast⟩, .inr (.inl rfl)⟩
    | some read =>
      obtain ⟨i, rest⟩ := read
      rw [step_of_read hm hread]
      cases hi : i.mark? with
      | none =>
        rw [execute_eq_carryOut]
        exact h.carryOut hm hf (hK _ hf) hread hi (m.action_asks _ i)
      | some mark =>
        cases i with
        | mark file line column =>
          have hran := hpast.ran.snoc hread
          refine h.replaceTop hm ⟨done ++ [.mark file line column], hran, ?_⟩
          rw [lastMark?_append_singleton]
          rfl
        | _ => cases hi

/-- **All activations but the innermost have a place**, in every state, if the code has marks. -/
theorem Reachable.traced (hK : ∀ code, K code → code.Placed files)
    (hcode : ∀ m, Reachable classes m → ∀ f ∈ m.stack.frames, K f.code) (h : Reachable classes m) :
    m.Traced K := by
  have hclear (m : Machine) : m.clear.Traced K := fun _ _ hframes => by cases hframes
  induction h with
  | new =>
    rw [Machine.new]
    split <;> exact fun _ _ hframes => by cases hframes
  | start _ hstart =>
    obtain ⟨_, _, -, -, rfl⟩ := of_start? hstart
    intro f frames hframes
    obtain ⟨rfl, rfl⟩ := List.cons.inj hframes
    exact ⟨⟨[], Frame.past_ofMethod _ _⟩, fun _ hg => absurd hg List.not_mem_nil⟩
  | step hm hstep ih =>
    have hnext := ih.step hK (hcode _ hm)
    rwa [hstep] at hnext
  | finish | fail => exact hclear _

theorem Reachable.stoppedBy (h : Reachable classes m) (hK : ∀ code, K code → code.Placed files)
    (hcode : ∀ m, Reachable classes m → ∀ f ∈ m.stack.frames, K f.code)
    (hstep : m.step = .failed fault m') : m.StoppedBy K fault m' := by
  have hnext := (h.traced hK hcode).step hK (hcode m h)
  rwa [hstep] at hnext

end Machine

/-! ### Compiled programs -/

/-- Has some method of a class itself, or a block in one, an instruction that reads a field? -/
def ClassTable.ReadsClassField (T : ClassTable) : Prop :=
  ∃ (method : Method) (block : Option Nat) (code : CompiledCode) (index : UInt16),
    T.methodAt? method.address = some method ∧ method.address.classSide = true ∧
      method.unit? block = some code ∧ .pushField index ∈ decode code.code

namespace Compilation

/-- The files that the code of programs is in. -/
def files (options : CompileOptions) : List String := [options.fileName, Standard.fileName]

section

variable {options : CompileOptions} {programs : List Program}

/-- **In all code that is written with marks, they come first.** -/
theorem ofPrograms_placed (hmarks : options.marks = true)
    (hcode : ((ofPrograms options programs).table.scope scope).code = some code) :
    ∀ unit ∈ code.units, unit.Placed (files options) := by
  obtain ⟨c, job, hm, hfile, hmethod⟩ := exists_methodCode hcode
  refine CodeContext.methodCode_placed (hm.trans hmarks) hmethod ?_
  rw [hfile, fileOf]
  split
  · exact List.mem_cons_of_mem _ List.mem_cons_self
  · exact List.mem_cons_self

/-- The code that a machine runs is a unit of what was stored, unless it is empty. -/
theorem stored_of_reachable
    (hm : Machine.Reachable (ClassTable.ofSymbols (ofPrograms options programs).table) m)
    (hf : f ∈ m.stack.frames) : f.code.code = [] ∨ ∃ body code,
      ((ofPrograms options programs).table.scope body).code = some code ∧ f.code ∈ code.units := by
  have horderly := hm.orderly (ofPrograms_coherent options programs) (ClassTable.dispatches_true _)
  obtain ⟨_, hf⟩ := horderly.frame hf
  have hunit := ClassTable.mem_units_of_unit? hf.unit
  obtain ⟨C, -, -, ⟨body, -, hcode⟩ | ⟨-, hnone, hempty⟩⟩ :=
    ClassTable.exists_of_methodAt? (ofPrograms_sound options programs).1
      (ofPrograms_bodiesOpened options programs) hf.method
  · exact .inr ⟨body, _, hcode, hunit⟩
  · rw [hnone] at hunit
    exact .inl (List.mem_singleton.1 hunit ▸ hempty)

theorem placed_of_reachable (hmarks : options.marks = true)
    (hm : Machine.Reachable (ClassTable.ofSymbols (ofPrograms options programs).table) m)
    (hf : f ∈ m.stack.frames) : f.code.Placed (files options) := by
  obtain hempty | ⟨body, code, hcode, hunit⟩ := stored_of_reachable hm hf
  · refine ⟨[], hempty, fun before _ _ his => ?_, fun _ hi => absurd hi List.not_mem_nil⟩
    cases before <;> cases his
  · exact ofPrograms_placed hmarks hcode f.code hunit

/-- A field that is not there is read by a method of a class itself. -/
theorem readsClassField_of_stopped (hstandard : options.standard = true)
    (hm : Machine.Reachable (ClassTable.ofSymbols (ofPrograms options programs).table) m)
    (hstep : m.step = .failed fault m') (hfault : fault.isOfField = true)
    (hframes : m.stack.frames = f :: frames) (hpast : f.Past done) {index : UInt16}
    (hread : read? f.rest = some (.pushField index, rest)) (hcode : f.code.Placed (files options)) :
    (ClassTable.ofSymbols (ofPrograms options programs).table).ReadsClassField := by
  have hT := ofPrograms_grounded hstandard programs
  have horderly := hm.orderly hT.toCoherent hT.dispatches
  obtain ⟨hf, -⟩ := horderly.frames hframes
  have hclass : f.environment.receiver.isClass = true := by
    by_contra hclass
    have hsure := horderly.step_sure hT fun g frames' hg => by
      obtain ⟨rfl, -⟩ := List.cons.inj (hframes.symm.trans hg)
      exact Bool.eq_false_iff.2 hclass
    rw [hstep] at hsure
    exact Bool.false_ne_true (hsure.symm.trans hfault)
  obtain ⟨is, hbytes, -⟩ := hcode
  obtain ⟨more, rfl, -⟩ := (hbytes ▸ hpast.ran.snoc hread).exists_rest
  refine ⟨f.method, f.block, f.code, index, hf.method, hf.receives.1.trans hclass, hf.unit, ?_⟩
  rw [hbytes, decode_flatMap_encode]
  exact List.mem_append_left _ (List.mem_append_right _ (List.mem_singleton_self _))

end

/-- **All entries of a traceback have a place.**  Let sources without mistakes be compiled with marks,
and let a run of the main class end with an error. Then all entries of the traceback but the innermost
have a place in the file of their code. So has the innermost, with one exception: a field was to be
read that is not there, before the activation had come to a mark. With the standard classes this can
only be if some method of a class itself reads a field. -/
theorem trace_located {options : CompileOptions} {sources : List String}
    (hmarks : options.marks = true) (hfit : ∀ source ∈ sources, (Program.parse source).IsFit)
    (herrors : (ofPrograms options (sources.map Program.parse)).errors = #[]) :
    let T := ClassTable.ofSymbols (ofPrograms options (sources.map Program.parse)).table
    ∀ n e m, (Machine.new T).run n mainClass = some (.error e, m) →
      (∀ entry ∈ e.trace.tail, entry.IsLocated (files options)) ∧
      ((∀ entry ∈ e.trace, entry.IsLocated (files options)) ∨
        (∃ className index, e.fault = .unknownField className index) ∧
        (∃ entry rest, e.trace = entry :: rest ∧ entry.position = none) ∧
        (options.standard = true → T.ReadsClassField)) := by
  intro T n e m hrun
  obtain ⟨m₀, last, hstart, hsteps, htrace⟩ := Machine.steps_of_run_error hrun
  have hfault := Machine.isOfCode_of_steps (classes_implement hfit herrors) hstart hsteps
  obtain rfl | ⟨k, m', -, hsteps', hlast⟩ := Machine.exists_last_step hsteps
  · cases hsteps
  have hm := (Machine.Reachable.new.start hstart).steps hsteps'
  have hstopped := hm.stoppedBy (fun _ => id) (fun _ hm _ => placed_of_reachable hmarks hm) hlast
  rw [htrace, Machine.trace]
  cases hframes : last.stack.frames with
  | nil => exact ⟨fun _ h => absurd h List.not_mem_nil, .inl fun _ h => absurd h List.not_mem_nil⟩
  | cons f frames =>
    obtain ⟨hwaits, hcode, ⟨done, hpast⟩, hf⟩ := hstopped f frames hframes
    have htail : ∀ entry ∈ frames.map Frame.entry, entry.IsLocated (files options) := by
      intro entry hentry
      obtain ⟨g, hg, rfl⟩ := List.mem_map.1 hentry
      obtain ⟨hplaced, ⟨_, hpast⟩, hmark⟩ := hwaits g hg
      exact hpast.isLocated_of_mark hplaced hmark
    refine ⟨htail, ?_⟩
    by_cases hmark : f.mark = none
    · rcases hf with hf | hcode | ⟨hfield, rfl, index, rest, hread⟩
      · exact absurd hmark hf
      · rw [hfault] at hcode
        cases hcode
      · refine .inr ⟨?_, ⟨f.entry, _, rfl, ?_⟩, fun hstandard => ?_⟩
        · cases hunknown : e.fault with
          | unknownField className index => exact ⟨className, index, rfl⟩
          | _ => rw [hunknown] at hfield; cases hfield
        · rw [Frame.entry, hmark, Option.map_none]
        · exact readsClassField_of_stopped hstandard hm hlast hfield hframes hpast hread hcode
    · exact .inl (List.forall_mem_cons.2 ⟨hpast.isLocated_of_mark hcode hmark, htail⟩)

/-- A method of a class that reads a field, and nothing else. -/
def fieldOfClassRead : List String := ["class A [|x| class foo [^x]] ^A foo"]

/-- What the program is compiled to. -/
def fieldOfClassReadCompiled : Compilation :=
  ofPrograms ⟨"main.st", true, false⟩ (fieldOfClassRead.map Program.parse)

/-- The error that a run of the main class ends with, if any. -/
def errorOf? (m : Machine) (n : Nat) : Option RuntimeError :=
  match m.run n mainClass with
  | some (.error e, _) => some e
  | _ => none

set_option maxRecDepth 100000 in
/-- The entry of the method has no place, but that of the main method has one. -/
theorem fieldOfClassRead_located :
    ∃ e m entry entry', (Machine.new (ClassTable.ofSymbols fieldOfClassReadCompiled.table)).run 20
        mainClass = some (.error e, m) ∧ e.trace = [entry, entry'] ∧ entry.position = none ∧
      entry'.IsLocated ["main.st", Standard.fileName] := by
  have hfit : ∀ source ∈ fieldOfClassRead, (Program.parse source).IsFit := by decide +kernel
  have herrors : fieldOfClassReadCompiled.errors = #[] := by decide +kernel
  have herror : errorOf? (Machine.new (ClassTable.ofSymbols fieldOfClassReadCompiled.table)) 20 =
      some ⟨.unknownField "A" 0, [⟨"A>>foo", none⟩,
        ⟨"MainClass>>main", some ⟨"main.st", 1, 33⟩⟩]⟩ := by decide +kernel
  rw [errorOf?] at herror
  split at herror
  next e m hrun =>
    obtain ⟨htail, -⟩ :=
      @trace_located ⟨"main.st", true, false⟩ fieldOfClassRead rfl hfit herrors 20 e m hrun
    obtain rfl := Option.some.inj herror
    exact ⟨_, m, _, _, hrun, rfl, rfl, htail _ List.mem_cons_self⟩
  next => cases herror

end Compilation

end Smalltalk
