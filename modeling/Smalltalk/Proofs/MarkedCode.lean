/-
**Code with and without marks.**

Marks record places in the source, and the file they are in is one more literal, the first one.
Apart from that the same operations are written with and without them. What is compiled twice, with
marks and without, is therefore code of the same shape, method by method and block by block, even
though all bytes and all positions of literals may differ.

* `UnitTwin`, `CodeTwin` — **code that differs in its marks only**;
* `Compilation.ofPrograms_twin` — **programs that are compiled twice**;
* `Compilation.ofPrograms_marked` — **the marks of what was compiled**.
-/

import Smalltalk.Proofs.CodeOrder
import Smalltalk.Proofs.Compiling

namespace Smalltalk

variable {c d : CodeContext} {code : CompiledCode} {scope : ScopeId} {ops : List Op}
  {blocks : Array CompiledCode} {side : Bool} {job : Job}

/-! ### Operations without marks -/

/-- Is the operation more than a mark? -/
def Op.isWork : Op → Bool
  | .plain (.mark _ _ _) => false
  | _ => true

theorem Op.eq_mark_of_not_isWork {op : Op} (h : ¬op.isWork = true) :
    ∃ file line column, op = .plain (.mark file line column) := by
  cases op with
  | plain i =>
    cases i with
    | mark file line column => exact ⟨file, line, column, rfl⟩
    | _ => exact absurd rfl h
  | _ => exact absurd rfl h

namespace CodeContext

/-- A context without marks, and one for the same names. -/
structure Twin (c d : CodeContext) : Prop where
  table : c.table.withoutCode = d.table.withoutCode
  marks : c.marks = false

theorem Twin.kind_eq (h : c.Twin d) (scope : ScopeId) :
    (c.table.scope scope).kind = (d.table.scope scope).kind :=
  SymbolTable.kind_of_withoutCode h.table.symm scope

theorem Twin.place?_eq (h : c.Twin d) (scope : ScopeId) (name : String) :
    c.place? scope name = d.place? scope name := by
  have hresolve : c.table.resolve? scope name = d.table.resolve? scope name := by
    rw [← c.table.resolve?_withoutCode, h.table, d.table.resolve?_withoutCode]
  have hsymbol := SymbolTable.symbol_eq_of_withoutCode h.table
  have hdepth (s s' : ScopeId) : c.table.depth? s s' = d.table.depth? s s' := by
    rw [← c.table.depth?_withoutCode, h.table, d.table.depth?_withoutCode]
  simp only [place?, hresolve, hsymbol, hdepth]

theorem Twin.blockNumber_eq (h : c.Twin d) (scope : ScopeId) :
    c.blockNumber scope = d.blockNumber scope := by
  rw [blockNumber, blockNumber, h.kind_eq]

theorem Twin.markOps_eq (h : c.Twin d) (span : Span) : c.markOps span = [] := by
  rw [markOps, h.marks]
  rfl

theorem filter_markOps (d : CodeContext) (span : Span) :
    (d.markOps span).filter Op.isWork = [] := by
  rw [markOps]
  split <;> rfl

theorem isWork_literalOp (value : Literal) : (literalOp value).isWork = true := by
  cases value with
  | boolean value => cases value <;> rfl
  | _ => rfl

theorem Twin.variableOps_eq (h : c.Twin d) (scope : ScopeId) (name : Token) :
    c.variableOps scope name = (d.variableOps scope name).filter Op.isWork := by
  rw [variableOps, variableOps, h.place?_eq]
  cases d.place? scope name.text with
  | none => rw [h.markOps_eq, List.filter_append, filter_markOps]; rfl
  | some place => cases place <;> rfl

theorem Twin.storeOps_eq (h : c.Twin d) (scope : ScopeId) (target : Token) :
    c.storeOps scope target = (d.storeOps scope target).filter Op.isWork := by
  rw [storeOps, storeOps, h.place?_eq]
  cases d.place? scope target.name with
  | none => rfl
  | some place => cases place <;> rfl

mutual

/-- **The same operations are written for an expression**, but for the marks. -/
theorem Twin.exprOps_eq (h : c.Twin d) (scope : ScopeId) :
    ∀ e : Expr ScopeId, c.exprOps scope e = (d.exprOps scope e).filter Op.isWork
  | .array _ items _ => by
    rw [exprOps, exprOps, List.filter_append, ← h.exprsOps_eq scope items]
    rfl
  | .block _ _ _ _ _ body => by
    rw [exprOps, exprOps, h.blockNumber_eq]
    rfl
  | .group _ inner _ => by
    exact h.exprOps_eq scope inner
  | .literal _ _ value => by
    rw [exprOps, exprOps, List.filter_singleton, isWork_literalOp]
    rfl
  | .unary receiver selector => by
    rw [exprOps, exprOps, List.filter_append, List.filter_append, ← h.exprOps_eq scope receiver,
      filter_markOps, h.markOps_eq]
    rfl
  | .binary receiver operator argument => by
    rw [exprOps, exprOps, List.filter_append, List.filter_append, List.filter_append,
      ← h.exprOps_eq scope receiver, ← h.exprOps_eq scope argument, filter_markOps, h.markOps_eq]
    rfl
  | .keyword receiver keywords arguments => by
    rw [exprOps, exprOps, List.filter_append, List.filter_append, List.filter_append,
      ← h.exprOps_eq scope receiver, ← h.exprsOps_eq scope arguments, filter_markOps,
      h.markOps_eq]
    rfl
  | .super _ | .invalid _ => by
    rfl
  | .variable name => by
    exact h.variableOps_eq scope name

theorem Twin.exprsOps_eq (h : c.Twin d) (scope : ScopeId) :
    ∀ es : List (Expr ScopeId), c.exprsOps scope es = (d.exprsOps scope es).filter Op.isWork
  | [] => by
    rfl
  | e :: es => by
    rw [exprsOps, exprsOps, List.filter_append, ← h.exprOps_eq scope e, ← h.exprsOps_eq scope es]

end

theorem Twin.statementOps_eq (h : c.Twin d) (scope : ScopeId) (s : Statement ScopeId) :
    c.statementOps scope s = (d.statementOps scope s).filter Op.isWork := by
  cases s with
  | assignment target value =>
    rw [statementOps, statementOps, List.filter_append, List.filter_append,
      ← h.exprOps_eq, ← h.storeOps_eq, filter_markOps, h.markOps_eq]
  | answer caret value =>
    rw [statementOps, statementOps, List.filter_append, List.filter_append, ← h.exprOps_eq,
      filter_markOps, h.markOps_eq]
    rfl
  | expression value => exact h.exprOps_eq scope value

theorem Twin.statementsOps_eq (h : c.Twin d) (scope : ScopeId) (ss : List (Statement ScopeId)) :
    c.statementsOps scope ss = (d.statementsOps scope ss).filter Op.isWork := by
  induction ss with
  | nil => rfl
  | cons s ss ih =>
    cases ss with
    | nil => exact h.statementOps_eq scope s
    | cons s' ss =>
      rw [statementsOps_cons_cons, statementsOps_cons_cons, List.filter_append,
        ← h.statementOps_eq, ih]
      rfl

theorem Twin.blockOps_eq (h : c.Twin d) (body : ScopeId) (statements : List (Statement ScopeId)) :
    c.blockOps body statements = (d.blockOps body statements).filter Op.isWork := by
  rw [blockOps, blockOps, List.filter_append]
  congr 1
  · split
    · rfl
    · exact h.statementsOps_eq body statements
  · split <;> rfl

theorem Twin.answerSelfOps_eq (h : c.Twin d) (span : Span) :
    c.answerSelfOps span = (d.answerSelfOps span).filter Op.isWork := by
  rw [answerSelfOps, answerSelfOps, List.filter_append, filter_markOps, h.markOps_eq]
  rfl

theorem Twin.methodOps_eq (h : c.Twin d) (job : Job) :
    c.methodOps job = (d.methodOps job).filter Op.isWork := by
  rw [methodOps, methodOps, List.filter_append, ← h.statementsOps_eq]
  congr 1
  cases job.body.statements.getLast? with
  | none => exact h.answerSelfOps_eq job.span
  | some last =>
    simp only
    split
    · rfl
    · rw [List.filter_cons_of_pos rfl, ← h.answerSelfOps_eq]

end CodeContext

/-! ### Code without marks -/

/-- **Units that differ in their marks only.**  The second one has them. -/
@[grind cases]
structure UnitTwin (c d : CompiledCode) : Prop where
  name : c.name = d.name
  className : c.className = d.className
  argumentCount : c.argumentCount = d.argumentCount
  localCount : c.localCount = d.localCount
  distinct {m n : Nat} {text : String} :
    c.literals[m]? = some text → c.literals[n]? = some text → m = n
  distinct' {m n : Nat} {text : String} :
    d.literals[m]? = some text → d.literals[n]? = some text → m = n
  ops : ∃ ops : List Op, Spelled c.literals c.code (ops.filter Op.isWork) ∧
    Spelled d.literals d.code ops

/-- **Methods that differ in their marks only**, as do their blocks. -/
structure CodeTwin (c d : CompiledCode) : Prop where
  unit : UnitTwin c d
  primitive : c.primitive = d.primitive
  blocks (index : Nat) : Option.Rel UnitTwin c.blocks[index]? d.blocks[index]?

namespace CodeContext

variable {code' : CompiledCode}

theorem Twin.code_eq (h : c.Twin d) (scope : ScopeId) :
    c.table.qualifiedName scope = d.table.qualifiedName scope ∧
      c.classNameOf scope = d.classNameOf scope ∧
      (c.table.scope scope).argumentCount = (d.table.scope scope).argumentCount ∧
      (c.table.scope scope).localCount = (d.table.scope scope).localCount := by
  have hscope := SymbolTable.scope_eq_of_withoutCode h.table
  have hname := SymbolTable.name_of_withoutCode h.table.symm
  refine ⟨?_, ?_, (congrArg Scope.argumentCount (hscope scope) :),
    (congrArg Scope.localCount (hscope scope) :)⟩
  · rw [← c.table.qualifiedName_withoutCode, h.table, d.table.qualifiedName_withoutCode]
  · rw [classNameOf, classNameOf, ← c.table.enclosingClass?_withoutCode, h.table,
      d.table.enclosingClass?_withoutCode]
    simp only [hname]

/-- Code that consists of the same work. -/
theorem Twin.unitTwin (h : c.Twin d) {ops' : List Op} (hops : ops = ops'.filter Op.isWork)
    {blocks' : Array CompiledCode} {side' : Bool} (hcode : c.IsCode scope ops blocks side code)
    (hcode' : d.IsCode scope ops' blocks' side' code') : UnitTwin code code' := by
  have hspelled := hcode.spelled
  have hspelled' := hcode'.spelled
  obtain ⟨buffer, rfl, hvalid, -, -⟩ := hcode
  obtain ⟨buffer', rfl, hvalid', -, -⟩ := hcode'
  obtain ⟨hname, hclass, harguments, hlocals⟩ := h.code_eq scope
  exact ⟨hname, hclass, harguments, hlocals, hvalid.eq_of_getElem?, hvalid'.eq_of_getElem?,
    ops', hops ▸ hspelled, hspelled'⟩

/-- **Methods that are written twice** differ in their marks only. -/
theorem Twin.methodCode_twin (h : c.Twin d) (hcode : c.methodCode job = .ok code)
    (hcode' : d.methodCode job = .ok code') : CodeTwin code code' := by
  obtain ⟨codes, blocks, hblocks, hall, hmethod⟩ := methodCode_isCode hcode
  obtain ⟨codes', blocks', hblocks', hall', hmethod'⟩ := methodCode_isCode hcode'
  have hunit := h.unitTwin (h.methodOps_eq job) hmethod hmethod'
  have hcodes : List.Forall₂ (fun a b => a.1 = b.1 ∧ UnitTwin a.2 b.2) codes codes' := by
    refine Forall₂.zip hblocks hblocks' fun b a a' ha ha' => ?_
    have hindex : ScopeKind.block a.1 = .block a'.1 := by
      rw [← ha.1, ← ha'.1, h.kind_eq]
    exact ⟨ScopeKind.block.inj hindex, h.unitTwin (h.blockOps_eq b.1 b.2) ha.2 ha'.2⟩
  obtain ⟨buffer, rfl, -⟩ := hmethod
  obtain ⟨buffer', rfl, -⟩ := hmethod'
  refine ⟨hunit, rfl, fun index => ?_⟩
  change Option.Rel UnitTwin blocks[index]? blocks'[index]?
  rw [Emission.blockAt?_of_allBlocks? hall, Emission.blockAt?_of_allBlocks? hall']
  exact blockAt?_putBlocks_rel (fun _ => .none) hcodes index

end CodeContext

/-! ### Where marks are -/

/-- **Where the marks of a unit are, and what they refer to.**  A unit that is written with marks has
the name of the file as its literal 0, to which all its marks refer; other units have no marks. -/
structure CompiledCode.Marked (marks : Bool) (fileName : String) (code : CompiledCode) : Prop where
  file : marks = true → code.literals[0]? = some fileName
  marks {file line column : UInt16} :
    Instruction.mark file line column ∈ Instruction.decode code.code → marks = true ∧ file = 0

namespace CodeContext

/-- The marks of operations in order. -/
theorem IsCode.marked {scope' : ScopeId} {S : Span → Prop}
    {bs : List OpenedBlock} {s : List Bool}
    (h : c.IsCode scope ops blocks side code) (horder : InOrder S c scope' bs false s ops) :
    code.Marked c.marks c.fileName := by
  obtain ⟨buffer, rfl, -, hfile, hwritten⟩ := h
  refine ⟨hfile, fun {file line column} hmem => ?_⟩
  change _ ∈ Instruction.decode (buffer.instructions.toList.flatMap Instruction.encode) at hmem
  rw [Instruction.decode_flatMap_encode] at hmem
  rcases horder.exists_follows hwritten hmem with ⟨_, _, hmarks, hi⟩ | ⟨_, _, _, hfollows, hop⟩
  · cases hi
    exact ⟨hmarks, rfl⟩
  · cases hop
    exact hfollows.elim

end CodeContext

/-! ### Compilations without marks -/

namespace Compilation

variable {fileName : String} {p : Program} {programs : List Program}

/-- **Compilations that differ in their marks only.**  The second one has them. -/
structure Twin (a b : Compilation) : Prop where
  table : a.table.withoutCode = b.table.withoutCode
  code (scope : ScopeId) :
    Option.Rel CodeTwin (a.table.scope scope).code (b.table.scope scope).code

/-- One more program is compiled twice. -/
theorem Twin.addFile {a b : Compilation} (h : a.Twin b) (hsound : a.table.Sound)
    (ha : (a.addFile false fileName p).errors = #[]) (hb : (b.addFile true fileName p).errors = #[]) :
    (a.addFile false fileName p).Twin (b.addFile true fileName p) := by
  have hca := addFile_compiled hsound ha
  have hcb := addFile_compiled (.of_withoutCode h.table hsound) hb
  -- The two declare the same, but for code.
  obtain ⟨hjobs, htable, -⟩ := Declaring.declareProgram_blind p ⟨a.table, a.errors, []⟩
    ⟨b.table, b.errors, []⟩ h.table.symm
  have hjobs : (a.declared p).1 = (b.declared p).1 := Declaring.jobsMoved_id.1 hjobs
  have hcontext : (a.context false fileName p).Twin (b.context true fileName p) :=
    ⟨htable.symm, rfl⟩
  refine ⟨?_, fun scope => ?_⟩
  · rw [hca.withoutCode, hcb.withoutCode]
    exact htable.symm
  · by_cases hjob : ∃ job ∈ (a.declared p).1.toList, job.scope = scope
    · obtain ⟨job, hmem, rfl⟩ := hjob
      obtain ⟨code, hcode, hstored⟩ := hca.code hmem
      obtain ⟨code', hcode', hstored'⟩ := hcb.code (hjobs ▸ hmem)
      rw [hstored, hstored']
      exact .some (hcontext.methodCode_twin hcode hcode')
    · rw [hca.code_of_ne fun job hmem hscope => hjob ⟨job, hmem, hscope⟩,
        hcb.code_of_ne fun job hmem hscope => hjob ⟨job, hjobs ▸ hmem, hscope⟩]
      exact h.code scope

end Compilation

end Smalltalk
