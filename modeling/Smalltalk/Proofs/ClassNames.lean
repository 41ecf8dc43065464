/-
**The names of classes.**

A name that is none of a variable is looked up when it is used, among the classes and one global
that is no class: `Transcript`. So the name of a class denotes the class, unless it is this one.

* `Compilation.class_names_denote` — **a reference to a class pushes it**.
-/

import Smalltalk.Proofs.Compiling
import Smalltalk.Proofs.NonLocalReturn
import Smalltalk.Proofs.Runs

namespace Smalltalk

variable {cls : Class} {symbols : SymbolTable} {m : Machine} {f : Frame} {frames : List Frame}

namespace ClassTable

/-- No class takes the place of another one as long as their names are different. -/
theorem get?_of_mem_addScopes {t : ClassTable} {scopes : List ScopeId}
    (ht : ∀ c ∈ t.classes, t.get? c.name = some c)
    (hnodup : (scopes.map fun s => (symbols.scope s).name).Nodup)
    (hnew : ∀ c ∈ t.classes, c.name ∉ scopes.map fun s => (symbols.scope s).name) :
    ∀ c ∈ (addScopes symbols t scopes).classes, (addScopes symbols t scopes).get? c.name = some c := by
  induction scopes generalizing t with
  | nil => exact ht
  | cons scope scopes ih =>
    obtain ⟨hscope, hnodup⟩ := List.nodup_cons.1 hnodup
    have hname : (classOf symbols t scope).name = (symbols.scope scope).name := rfl
    refine ih (t := t.insert (classOf symbols t scope)) (fun c hc => ?_) hnodup fun c hc => ?_
    all_goals
      rcases Array.mem_push.1 hc with hc | rfl
      · have hnot := hnew c hc
        rw [List.map_cons, List.mem_cons, not_or] at hnot
        grind [get?_insert]
      · grind [get?_insert]

theorem get?_of_mem (h : symbols.Sound) (hcls : cls ∈ (ofSymbols symbols).classes) :
    (ofSymbols symbols).get? cls.name = some cls :=
  get?_of_mem_addScopes (t := empty) nofun h.classNames_nodup nofun cls hcls

end ClassTable

namespace Machine

/-- **What the name of a class denotes**: the class, but for a class that is named like the object
that writes to the transcript. -/
def denoted (m : Machine) (cls : Class) : Value :=
  if cls.name = "Transcript" then m.transcript.getD (.classObject cls) else .classObject cls

theorem global?_name (h : m.classes.get? cls.name = some cls) :
    m.global? cls.name = some (m.denoted cls) := by
  rw [global?, denoted, h]
  split
  · cases m.transcript <;> rfl
  · rfl

variable {rest : List UInt8}

theorem step_of_pushGlobal (h : m.classes.get? cls.name = some cls)
    (hframes : m.stack.frames = f :: frames) {a : UInt16}
    (hrest : f.rest = (Instruction.pushGlobal a).encode ++ rest)
    (hname : f.code.literals[a.toNat]? = some cls.name) :
    m.step = .running (m.resume { f with
      rest := rest, operands := m.denoted cls :: f.operands }) := by
  have hread : Instruction.read? f.rest = some (.pushGlobal a, rest) := by
    rw [hrest, Instruction.read?_encode_append]
  rw [step_of_read hframes hread, execute, withLiteral, CompiledCode.literal?]
  simp only [hname, global?_name h]
  rfl

/-- To record a place before changes nothing else. -/
theorem steps_of_mark (h : m.classes.get? cls.name = some cls)
    (hframes : m.stack.frames = f :: frames) {file line column a : UInt16}
    (hrest : f.rest = (Instruction.mark file line column).encode
      ++ ((Instruction.pushGlobal a).encode ++ rest))
    (hname : f.code.literals[a.toNat]? = some cls.name) :
    m.steps 2 = .running (m.resume { f with
      rest := rest, mark := some ⟨file, line, column⟩, operands := m.denoted cls :: f.operands }) := by
  obtain ⟨classes, transcript, store, ⟨_, depth, hdepth⟩, loops⟩ := m
  obtain rfl : _ = f :: frames := hframes
  have hread := Instruction.read?_encode_append (.mark file line column)
    ((Instruction.pushGlobal a).encode ++ rest)
  rw [← hrest] at hread
  rw [steps, step_of_read rfl hread, execute]
  let g : Frame := { f with
    rest := (Instruction.pushGlobal a).encode ++ rest, mark := some ⟨file, line, column⟩ }
  exact steps_of_step (step_of_pushGlobal (f := g) h rfl rfl hname)

end Machine

/-- **Instructions that push what the name of a class denotes**, in every activation of code that has
at least some literals. -/
def ClassTable.Denotes (T : ClassTable) (literals : Array String) (is : List Instruction)
    (cls : Class) : Prop :=
  ∀ (m : Machine) (f : Frame) (frames : List Frame) (rest : List UInt8), m.classes = T →
    m.stack.frames = f :: frames → f.rest = is.flatMap Instruction.encode ++ rest →
    literals.toList <+: f.code.literals.toList → ∃ n mark, m.steps n = .running (m.resume { f with
      rest := rest, mark := mark, operands := m.denoted cls :: f.operands })

namespace Compilation

/-- **A reference to a class pushes it.**  Take any class of some compiled programs, and a reference to
its name that is written for some place where the name is none of a variable. Whatever was written
before, and whatever is written later, the instructions for it push the class, but for a class that is
named like the object that writes to the transcript. -/
theorem class_names_denote {options : CompileOptions} {programs : List Program}
    (hcls : cls ∈ (ClassTable.ofSymbols (ofPrograms options programs).table).classes)
    {c : CodeContext} {scope : ScopeId} {name : Token} (hname : name.text = cls.name)
    (hplace : c.place? scope name.text = none) {s s' : Emission} (hs : s.buffer.literals.Valid)
    (hwritten : c.emitExpr scope (.variable name) s = .ok ((), s')) :
    ∃ is, s'.buffer.instructions.toList = s.buffer.instructions.toList ++ is ∧
      (ClassTable.ofSymbols (ofPrograms options programs).table).Denotes s'.buffer.literals.texts is
        cls := by
  have hwrote := (CodeContext.emitExpr_writes scope _).wrote hwritten hs
  obtain ⟨is, his, hops⟩ := hwrote.instructions
  refine ⟨is, his, fun m f frames rest hm hframes hrest hliterals => ?_⟩
  have hfound : m.classes.get? cls.name = some cls := by
    rw [hm]
    exact ClassTable.get?_of_mem (ofPrograms_sound options programs).1 hcls
  have hcode : c.exprOps scope (.variable name) = c.markOps name.span ++ [.global cls.name] := by
    rw [CodeContext.exprOps, CodeContext.variableOps, hplace, hname]
  rw [hcode, CodeContext.markOps] at hops
  replace hops := hops.imp fun _ _ => Op.Written.mono hliterals
  split at hops
  · obtain _ | ⟨⟨-⟩, _ | ⟨hglobal, ⟨⟩⟩⟩ := hops
    cases hglobal with
    | global ha =>
      simp only [List.flatMap_cons, List.flatMap_nil, List.append_nil, List.append_assoc] at hrest
      exact ⟨2, _, Machine.steps_of_mark hfound hframes hrest ha⟩
  · obtain _ | ⟨hglobal, ⟨⟩⟩ := hops
    cases hglobal with
    | global ha =>
      simp only [List.flatMap_cons, List.flatMap_nil, List.append_nil] at hrest
      exact ⟨1, f.mark, Machine.steps_of_step (Machine.step_of_pushGlobal hfound hframes hrest ha)⟩

/-- Where the main method of a program is written that answers a class. -/
def answersClass : CodeContext :=
  ⟨(ofPrograms ⟨"main.st", true, false⟩ [Program.parse "class A [] ^A"]).table,
    Lines.ofSource "class A [] ^A", "main.st", true⟩

theorem answersClass_denotes :
    (answersClass.table.scope 3).name = "main" ∧ answersClass.place? 3 "A" = none ∧
    ∃ s' is, answersClass.emitExpr 3 (.variable ⟨.identifier, 12, "A"⟩) ⟨answersClass.newBuffer, #[]⟩
        = .ok ((), s') ∧
      s'.buffer.instructions.toList = answersClass.newBuffer.instructions.toList ++ is ∧
      ∃ cls ∈ (ClassTable.ofSymbols answersClass.table).classes, cls.name = "A" ∧
        (ClassTable.ofSymbols answersClass.table).Denotes s'.buffer.literals.texts is cls := by
  have hclass : ∃ cls ∈ (ClassTable.ofSymbols answersClass.table).classes, cls.name = "A" := by
    decide +kernel
  have hplace : (answersClass.table.scope 3).name = "main" ∧ answersClass.place? 3 "A" = none ∧
      (answersClass.emitExpr 3 (.variable ⟨.identifier, 12, "A"⟩)
        ⟨answersClass.newBuffer, #[]⟩).isOk = true := by
    decide +kernel
  obtain ⟨cls, hcls, hname⟩ := hclass
  obtain ⟨hmain, hplace, hok⟩ := hplace
  refine ⟨hmain, hplace, ?_⟩
  cases hwritten : answersClass.emitExpr 3 (.variable ⟨.identifier, 12, "A"⟩)
      ⟨answersClass.newBuffer, #[]⟩ with
  | error e =>
    rw [hwritten] at hok
    cases hok
  | ok r =>
    have htext : (⟨.identifier, 12, "A"⟩ : Token).text = cls.name := hname.symm
    obtain ⟨is, his, hdenotes⟩ := class_names_denote hcls htext hplace
      (CodeContext.newBuffer_valid _).1 hwritten
    exact ⟨r.2, is, rfl, his, cls, hcls, hname, hdenotes⟩

end Compilation

end Smalltalk
