/-
**Code that finds its operands.**

The operations of a routine take operands that earlier ones have left, and what they name is there:
the variables are those of a routine around, the blocks are those inside of the method, and a
message has as many arguments as its selector asks for. This can be told from the operations alone,
from the first to the last, if one keeps count of the operands.

* `Flows` — **code that can be run** with some number of operands;
* `Naming.methodCode_flows`, `Naming.blockCode_flows` — **the code of a routine
  can be run** without operands.
-/

import Smalltalk.Proofs.Methods
import Smalltalk.Proofs.Sources

namespace Smalltalk

variable {n : Nat}

/-! ### Operations in a routine -/

/-- Is there a name for the variable with this number, in the routine that is so far out? -/
def Routine.HasSlot (q : Routine) (depth index : Nat) : Prop :=
  ∃ name, slotOf? q.scopes name = some (depth, index)

/-- **An operation that pushes an operand**, in the routine `q` of a method. -/
inductive Op.Pushes (method q : Routine) : Op → Prop
  | pushNil : Op.Pushes method q (.plain .pushNil)
  | pushTrue : Op.Pushes method q (.plain .pushTrue)
  | pushFalse : Op.Pushes method q (.plain .pushFalse)
  | pushSelf : Op.Pushes method q (.plain .pushSelf)
  | pushInteger (bits : UInt32) : Op.Pushes method q (.plain (.pushInteger bits))
  | pushFloat (bits : UInt32) : Op.Pushes method q (.plain (.pushFloat bits))
  | pushCharacter (c : Char) : Op.Pushes method q (.plain (.pushCharacter c.val))
  | pushField (index : UInt16) : Op.Pushes method q (.plain (.pushField index))
  | pushLocal {depth index : UInt16} (h : q.HasSlot depth.toNat index.toNat) :
      Op.Pushes method q (.plain (.pushLocal depth index))
  | block {number : UInt16} {parameters locals : List Token} {statements : List (Statement Unit)}
      (h : method.Has number.toNat (q.inner number.toNat parameters locals statements)) :
      Op.Pushes method q (.plain (.block number))
  | literal (text : String) : Op.Pushes method q (.literal text)
  | global (name : String) : Op.Pushes method q (.global name)

/-- An operation that stores the top operand, in the routine `q`. -/
inductive Op.Stores (q : Routine) : Op → Prop
  | storeField (index : UInt16) : Op.Stores q (.plain (.storeField index))
  | storeLocal {depth index : UInt16} (h : q.HasSlot depth.toNat index.toNat) :
      Op.Stores q (.plain (.storeLocal depth index))

/-- **Code of the routine `q` of a method that can be run** with some number of operands. It ends
where an activation ends, and what comes behind that does not matter. -/
inductive Flows (method q : Routine) : Nat → List Op → Prop
  | push {count : Nat} {op : Op} {ops : List Op} (hop : op.Pushes method q)
      (h : Flows method q (count + 1) ops) : Flows method q count (op :: ops)
  | store {count : Nat} {op : Op} {ops : List Op} (hop : op.Stores q)
      (h : Flows method q (count + 1) ops) : Flows method q (count + 1) (op :: ops)
  | pop {count : Nat} {ops : List Op} (h : Flows method q count ops) :
      Flows method q (count + 1) (.plain .pop :: ops)
  | array {count size : Nat} {ops : List Op} (h : Flows method q (count + 1) ops) :
      Flows method q (count + size) (.array size :: ops)
  | send {count arguments : Nat} {toSuper : Bool} {selector : String} {ops : List Op}
      (hselector : argumentsOf selector = arguments) (h : Flows method q (count + 1) ops) :
      Flows method q (count + 1 + arguments) (.send toSuper arguments selector :: ops)
  | mark {count : Nat} {op : Op} {ops : List Op} (hop : op.isWork = false)
      (h : Flows method q count ops) : Flows method q count (op :: ops)
  | leave {count : Nat} {ops : List Op} : Flows method q (count + 1) (.plain .blockReturn :: ops)
  | answer {count : Nat} {ops : List Op} :
      Flows method q (count + 1) (.plain .methodReturn :: ops)
  /-- There is no instruction for it, so that it cannot be reached. -/
  | invalid {count : Nat} {ops : List Op} : Flows method q count (.invalid :: ops)

variable {method q : Routine} {count depth index : Nat} {rest ops : List Op} {name : String}

theorem Flows.marks (hops : ∀ op ∈ ops, op.isWork = false) (h : Flows method q count rest) :
    Flows method q count (ops ++ rest) := by
  induction ops with
  | nil => exact h
  | cons op ops ih =>
    rw [List.forall_mem_cons] at hops
    exact .mark hops.1 (ih hops.2)

/-- Code that can be run does not just stop. -/
theorem Flows.exists_cons (h : Flows method q count ops) : ∃ op rest, ops = op :: rest := by
  cases h <;> exact ⟨_, _, rfl⟩

/-- The variables that code names are those around its routine. -/
theorem Flows.hasSlot {i : Instruction} {depth index : UInt16}
    (h : Flows method q count (.plain i :: rest))
    (hi : i = .pushLocal depth index ∨ i = .storeLocal depth index) :
    q.HasSlot depth.toNat index.toNat := by
  rcases hi with rfl | rfl
  · cases h with
    | push hop _ =>
      cases hop with
      | pushLocal hslot => exact hslot
    | store hop _ | mark hop _ => cases hop
  · cases h with
    | push hop _ | mark hop _ => cases hop
    | store hop _ =>
      cases hop with
      | storeLocal hslot => exact hslot

/-- The blocks that code makes are those inside of its routine. -/
theorem Flows.pushes_block {n : UInt16} (h : Flows method q count (.plain (.block n) :: rest)) :
    (Op.plain (.block n)).Pushes method q := by
  cases h with
  | push hop _ => exact hop
  | store hop _ | mark hop _ => cases hop

/-! ### The code of a tree -/

/-- **A routine all of whose parts can be numbered**: the variables of the routines around it and
the blocks of its method. -/
structure Routine.Numbered (method q : Routine) : Prop where
  depth : q.scopes.length ≤ 65536
  room : ∀ names ∈ q.scopes, names.length ≤ SymbolTable.capacity
  blocks : statementsBlockCount method.statements ≤ 65535

/-- The positions of variables can be written in two bytes. -/
theorem Routine.Numbered.toNat_slot (h : method.Numbered q)
    (hslot : slotOf? q.scopes name = some (depth, index)) :
    (UInt16.ofNat depth).toNat = depth ∧ (UInt16.ofNat index).toNat = index := by
  obtain ⟨names, hnames, hlt⟩ := slotOf?_lt hslot
  have hdepth : depth < UInt16.size :=
    Nat.lt_of_lt_of_le (List.getElem?_eq_some_iff.1 hnames).1 h.depth
  have hindex : index < UInt16.size :=
    Nat.lt_of_lt_of_le hlt (Nat.le_succ_of_le (h.room names (List.mem_of_getElem? hnames)))
  exact ⟨UInt16.toNat_ofNat_of_lt' hdepth, UInt16.toNat_ofNat_of_lt' hindex⟩

theorem Routine.Numbered.hasSlot (h : method.Numbered q)
    (hslot : slotOf? q.scopes name = some (depth, index)) :
    q.HasSlot (UInt16.ofNat depth).toNat (UInt16.ofNat index).toNat := by
  obtain ⟨hdepth, hindex⟩ := h.toNat_slot hslot
  rw [hdepth, hindex]
  exact ⟨name, hslot⟩

theorem Routine.Numbered.toNat_ofNat (h : method.Numbered q) {q' : Routine} (hq : method.Has n q') :
    (UInt16.ofNat n).toNat = n :=
  UInt16.toNat_ofNat_of_lt' (Nat.lt_of_lt_of_le hq.lt (Nat.le_succ_of_le h.blocks))

namespace Naming

variable {N : Naming}

theorem variableCode_flows (hmarks : N.MarksOnly) (hnumbered : method.Numbered q) (name : Token)
    (h : Flows method q (count + 1) rest) :
    Flows method q count (N.variableCode q.scopes name ++ rest) := by
  rw [variableCode, placeOf?]
  cases hslot : slotOf? q.scopes name.text with
  | some found => exact .push (.pushLocal (hnumbered.hasSlot hslot)) h
  | none =>
    cases fieldOf? N.fields name.text with
    | some index => exact .push (.pushField _) h
    | none =>
      dsimp only [Option.map_none]
      rw [List.append_assoc]
      exact .marks (hmarks name.span) (.push (.global name.text) h)

theorem storeCode_flows (hnumbered : method.Numbered q) (target : Token)
    (h : Flows method q (count + 1) rest) :
    Flows method q (count + 1) (N.storeCode q.scopes target ++ rest) := by
  rw [storeCode, placeOf?]
  cases hslot : slotOf? q.scopes target.name with
  | some found => exact .store (.storeLocal (hnumbered.hasSlot hslot)) h
  | none =>
    cases fieldOf? N.fields target.name with
    | some index => exact .store (.storeField _) h
    | none => exact .invalid

theorem literalOp_pushes (value : Literal) : (CodeContext.literalOp value).Pushes method q := by
  cases value with
  | nil => exact .pushNil
  | boolean value =>
    cases value
    · exact .pushFalse
    · exact .pushTrue
  | receiver => exact .pushSelf
  | integer value => exact .pushInteger _
  | float value => exact .pushFloat _
  | character value => exact .pushCharacter value
  | string value | symbol value => exact .literal value

/-- A message takes its receiver and its arguments. -/
theorem send_flows (hmarks : N.MarksOnly) (span : Span) (toSuper : Bool) {arguments : Nat}
    {selector : String} (hselector : argumentsOf selector = arguments)
    (h : Flows method q (count + 1) rest) :
    Flows method q (count + 1 + arguments)
      (N.marks span ++ ([.send toSuper arguments selector] ++ rest)) :=
  .marks (hmarks span) (.send hselector h)

mutual

/-- **An expression leaves one operand more.** -/
theorem exprCode_flows (hmarks : N.MarksOnly) (hnumbered : method.Numbered q) :
    ∀ (e : Expr Unit) {n count : Nat} {rest : List Op},
      NumberedFrom method.Has n (exprRoutines q n e) → exprRegular e →
      Flows method q (count + 1) rest → Flows method q count (N.exprCode q.scopes n e ++ rest)
  | .array _ items _, n, count, rest, hall, hregular, h => by
    rw [exprRoutines] at hall
    rw [exprRegular] at hregular
    rw [exprCode, List.append_assoc]
    exact exprsCode_flows hmarks hnumbered items hall hregular (.array h)
  | .block _ parameters locals statements _ _, n, count, rest, hall, _, h => by
    rw [exprRoutines, numberedFrom_cons] at hall
    have hblock : method.Has (UInt16.ofNat n).toNat
        (q.inner (UInt16.ofNat n).toNat parameters locals statements) := by
      rw [hnumbered.toNat_ofNat hall.1]
      exact hall.1
    exact .push (.block hblock) h
  | .group _ inner _, n, count, rest, hall, hregular, h => by
    rw [exprRoutines] at hall
    rw [exprRegular] at hregular
    exact exprCode_flows hmarks hnumbered inner hall hregular h
  | .literal _ _ value, n, count, rest, _, _, h => by
    exact .push (literalOp_pushes value) h
  | .unary receiver selector, n, count, rest, hall, hregular, h => by
    rw [exprRoutines] at hall
    rw [exprRegular] at hregular
    rw [exprCode, List.append_assoc, List.append_assoc]
    exact exprCode_flows hmarks hnumbered receiver hall hregular.1
      (send_flows hmarks selector.span _ hregular.2 h)
  | .binary receiver operator argument, n, count, rest, hall, hregular, h => by
    rw [exprRoutines, numberedFrom_append (length_exprRoutines q n receiver)] at hall
    rw [exprRegular] at hregular
    rw [exprCode, List.append_assoc, List.append_assoc, List.append_assoc]
    exact exprCode_flows hmarks hnumbered receiver hall.1 hregular.1
      (exprCode_flows hmarks hnumbered argument hall.2 hregular.2.1
        (send_flows hmarks operator.span _ hregular.2.2 h))
  | .keyword receiver keywords arguments, n, count, rest, hall, hregular, h => by
    rw [exprRoutines, numberedFrom_append (length_exprRoutines q n receiver)] at hall
    rw [exprRegular] at hregular
    rw [exprCode, List.append_assoc, List.append_assoc, List.append_assoc]
    exact exprCode_flows hmarks hnumbered receiver hall.1 hregular.1
      (exprsCode_flows hmarks hnumbered arguments hall.2 hregular.2.1
        (send_flows hmarks _ _ hregular.2.2 h))
  | .super _, n, count, rest, _, _, h => by
    exact .push .pushSelf h
  | .variable name, n, count, rest, _, _, h => by
    exact variableCode_flows hmarks hnumbered name h
  | .invalid _, n, count, rest, _, hregular, _ => by
    rw [exprRegular] at hregular
    exact hregular.elim

/-- Each of some expressions leaves an operand. -/
theorem exprsCode_flows (hmarks : N.MarksOnly) (hnumbered : method.Numbered q) :
    ∀ (es : List (Expr Unit)) {n count : Nat} {rest : List Op},
      NumberedFrom method.Has n (exprsRoutines q n es) → exprsRegular es →
      Flows method q (count + es.length) rest →
      Flows method q count (N.exprsCode q.scopes n es ++ rest)
  | [], n, count, rest, _, _, h => by
    exact h
  | e :: es, n, count, rest, hall, hregular, h => by
    rw [exprsRoutines, numberedFrom_append (length_exprRoutines q n e)] at hall
    rw [exprsRegular] at hregular
    rw [exprsCode, List.append_assoc]
    refine exprCode_flows hmarks hnumbered e hall.1 hregular.1
      (exprsCode_flows hmarks hnumbered es hall.2 hregular.2 ?_)
    grind

end

/-- A statement leaves one operand more, unless it leaves the method. -/
theorem statementCode_flows (hmarks : N.MarksOnly) (hnumbered : method.Numbered q)
    (s : Statement Unit) (hall : NumberedFrom method.Has n (statementRoutines q n s))
    (hregular : statementRegular s) (h : s.isAnswer = true ∨ Flows method q (count + 1) rest) :
    Flows method q count (N.statementCode q.scopes n s ++ rest) := by
  cases s with
  | assignment target value =>
    rw [statementRoutines] at hall
    rw [statementRegular] at hregular
    rw [statementCode, List.append_assoc, List.append_assoc]
    exact exprCode_flows hmarks hnumbered value hall hregular
      (.marks (hmarks _) (storeCode_flows hnumbered target (h.resolve_left Bool.false_ne_true)))
  | answer caret value =>
    rw [statementRoutines] at hall
    rw [statementRegular] at hregular
    rw [statementCode, List.append_assoc, List.append_assoc]
    exact exprCode_flows hmarks hnumbered value hall hregular (.marks (hmarks _) .answer)
  | expression value =>
    rw [statementRoutines] at hall
    rw [statementRegular] at hregular
    exact exprCode_flows hmarks hnumbered value hall hregular (h.resolve_left Bool.false_ne_true)

/-- Statements leave one operand more, unless the last of them leaves the method. -/
theorem statementsCode_flows (hmarks : N.MarksOnly) (hnumbered : method.Numbered q)
    (ss : List (Statement Unit)) (hne : ss ≠ [])
    (hall : NumberedFrom method.Has n (statementsRoutines q n ss)) (hregular : statementsRegular ss)
    (h : endsWithAnswer ss = true ∨ Flows method q (count + 1) rest) :
    Flows method q count (N.statementsCode q.scopes n ss ++ rest) := by
  induction ss generalizing n with
  | nil => exact absurd rfl hne
  | cons s ss ih =>
    rw [statementsRoutines, numberedFrom_append (length_statementRoutines q n s)] at hall
    rw [statementsRegular] at hregular
    cases ss with
    | nil =>
      refine statementCode_flows hmarks hnumbered s hall.1 hregular.1
        (h.imp_left fun hlast => ?_)
      simpa [endsWithAnswer] using hlast
    | cons s' ss =>
      have hrest := ih (List.cons_ne_nil s' ss) hall.2 hregular.2
        (h.imp_left fun hlast => by simpa [endsWithAnswer] using hlast)
      change Flows method q count (N.statementCode q.scopes n s ++ .plain .pop
        :: N.statementsCode q.scopes (n + statementBlockCount s) (s' :: ss) ++ rest)
      rw [List.append_assoc]
      exact statementCode_flows hmarks hnumbered s hall.1 hregular.1 (.inr (.pop hrest))

/-- **The code of a method can be run.** -/
theorem methodCode_flows (hmarks : N.MarksOnly) (hfit : method.IsFit)
    (hnumbered : method.Numbered method) (span : Span) :
    Flows method method 0 (N.methodCode method.scopes span method.statements) := by
  have hall := Routine.has_blocks hfit.isMethod.block
  have hregular := hfit.isRegular.statements
  have hself {spot : Span} {count : Nat} :
      Flows method method count (N.marks spot ++ [.plain .pushSelf, .plain .methodReturn]) :=
    .marks (hmarks spot) (.push .pushSelf .answer)
  rw [methodCode, methodEnd]
  cases hlast : method.statements.getLast? with
  | none =>
    rw [List.getLast?_eq_none_iff] at hlast
    rw [hlast, statementsCode]
    exact hself
  | some last =>
    have hne : method.statements ≠ [] := by
      rintro hnil
      rw [hnil] at hlast
      cases hlast
    refine statementsCode_flows hmarks hnumbered _ hne hall hregular ?_
    dsimp only
    split
    case isTrue hanswer =>
      rw [endsWithAnswer, hlast]
      exact .inl hanswer
    case isFalse => exact .inr (.pop hself)

/-- **The code of a block can be run.** -/
theorem blockCode_flows (hmarks : N.MarksOnly) (hfit : method.IsFit) (hq : method.Has n q)
    (hnumbered : method.Numbered q) :
    Flows method q 0 (N.blockCode q.scopes q.firstBlock q.statements) := by
  have hinside := hq.inside hfit.isMethod.block hfit.isMethod.scopes
  have hfirst : q.firstBlock = n + 1 := by
    rw [Routine.firstBlock, hinside.block]
  rw [hfirst, blockCode, blockEnd]
  split
  case isTrue hempty =>
    rw [List.isEmpty_iff.1 hempty]
    exact .push .pushNil .leave
  case isFalse hne =>
    refine statementsCode_flows hmarks hnumbered _ (fun hnil => hne (by rw [hnil]; rfl))
      hinside.blocks (hq.regular hfit.isRegular.statements) ?_
    split
    case isTrue hanswer => exact .inl hanswer
    case isFalse => exact .inr .leave

end Naming

end Smalltalk
