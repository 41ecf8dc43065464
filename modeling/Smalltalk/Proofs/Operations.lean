/-
**What an operation can reply, and what an instruction can ask for.**

An operation either replies or fails with a fault of the program; it never finds fault with the
code, and never misses a field. It makes numbers, characters, truth values, strings and arrays of
its own, but the objects, classes and blocks that it hands out are those it was given: the receiver,
the arguments, or the items of an array. When it asks for a block to be run it has counted the
arguments, and when it asks for a loop it has made sure that both blocks have none. So a machine
that does as it is asked can always start the block.

Instructions, too, can ask for few things only. Activations are started by messages and ended by
returns, and variables change by assignment.

* `Frame.Sends`, `Machine.Asks` — **what an instruction can ask for**;
* `Primitive.perform_meets` — **all replies are proper**, and only the program is at fault.
-/

import Smalltalk.Proofs.Action

namespace Smalltalk

variable {arguments operands left : List Value} {receiver v : Value} {α : Type} {x : Except Fault α}
  {V : Value → Prop} {s : Store} {f : Frame} {i : Instruction} {index : UInt16}
  {k : Nat × Value → Action}

/-- Is it the code that is at fault, not the program it was made from? -/
def Fault.isOfCode : Fault → Bool
  | .stackUnderflow | .internal _ => true
  | _ => false

/-- Is it a field that is missing? -/
def Fault.isOfField : Fault → Bool
  | .unknownField _ _ => true
  | _ => false

/-- A result has a property; if there is none, neither the code nor a field is at fault. -/
def Meets {α : Type} (Q : α → Prop) : Except Fault α → Prop
  | .ok a => Q a
  | .error fault => fault.isOfCode = false ∧ fault.isOfField = false

theorem Meets.bind {β : Type} {Q : α → Prop} {R : β → Prop} {k : α → Except Fault β}
    (hx : Meets Q x) (hk : ∀ a, Q a → Meets R (k a)) : Meets R (x >>= k) := by
  cases x with
  | error fault => exact hx
  | ok a => exact hk a hx

/-! ### Operations -/

/-- Is it a value that an operation can make by itself? -/
def Value.isPlain : Value → Bool
  | .block _ _ | .object _ _ | .classObject _ => false
  | _ => true

/-- **Something is true of all values that are handed out**; the class of a new object counts, and so
do the blocks that are to be run. These can be started. -/
def Reply.Proper (V : Value → Prop) : Reply → Prop
  | .value v | .setItem _ _ v | .writeLine _ v => V v
  | .newString _ => True
  | .newArray items => ∀ v ∈ items, V v
  | .newObject cls => V (.classObject cls)
  | .invoke closure arguments => arguments.length = closure.code.argumentCount ∧
      (∃ number, V (.block number closure)) ∧ ∀ v ∈ arguments, V v
  | .loop condition body _ => (condition.code.argumentCount = 0 ∧ body.code.argumentCount = 0) ∧
      (∃ number, V (.block number condition)) ∧ ∃ number, V (.block number body)

namespace Operation

theorem floatOf_meets (v : Value) : Meets (fun _ => True) (floatOf v) := by
  cases v <;> trivial

theorem checkDivisor_meets (v : Value) : Meets (fun _ => True) (checkDivisor v) := by
  cases v with
  | integer value | float value =>
    simp only [checkDivisor]
    split <;> trivial
  | _ => trivial

theorem booleanOf_meets (v : Value) : Meets (fun _ => True) (booleanOf v) := by
  cases v <;> trivial

theorem blockOf_meets (hv : V v) :
    Meets (fun closure => ∃ number, V (.block number closure)) (blockOf v) := by
  cases v with
  | block number closure => exact ⟨number, hv⟩
  | _ => trivial

theorem offset_meets (v : Value) (length : Nat) : Meets (fun _ => True) (offset v length) := by
  cases v with
  | integer index =>
    simp only [offset]
    split <;> trivial
  | _ => trivial

theorem countOf_meets (v : Value) : Meets (fun _ => True) (countOf v) := by
  cases v with
  | integer size =>
    simp only [countOf]
    split <;> trivial
  | _ => trivial

section Plain

variable (hplain : ∀ v : Value, v.isPlain = true → V v)

include hplain

theorem numeric_meets (v w : Value) (onIntegers : Int32 → Int32 → Int32)
    (onFloats : Single → Single → Single) :
    Meets (Reply.Proper V) (numeric v w onIntegers onFloats) := by
  rw [numeric.eq_def]
  split
  · exact hplain _ rfl
  · exact (floatOf_meets v).bind fun _ _ => (floatOf_meets w).bind fun _ _ => hplain _ rfl

theorem comparison_meets (v w : Value) (test : Ordering → Bool) :
    Meets (Reply.Proper V) (comparison v w test) := by
  rw [comparison.eq_def]
  split
  · exact hplain _ rfl
  · exact (floatOf_meets v).bind fun _ _ => (floatOf_meets w).bind fun _ _ => hplain _ rfl

theorem toCharacter_meets (v : Value) : Meets (Reply.Proper V) (toCharacter v) := by
  cases v with
  | integer value =>
    simp only [toCharacter]
    split
    · exact hplain _ rfl
    · trivial
  | character c => exact hplain _ rfl
  | _ => trivial

end Plain

section

variable {closure : Closure Value} (hclosure : ∃ number, V (.block number closure))
  (harguments : ∀ v ∈ arguments, V v)

include hclosure harguments

/-- A block is run with as many arguments as it has. -/
theorem invoke_meets :
    Meets (fun reply => reply.Proper V ∧ closure.code.argumentCount = arguments.length)
      (invoke closure arguments) := by
  rw [invoke]
  split
  next hcount => exact ⟨⟨hcount.symm, hclosure, harguments⟩, hcount⟩
  next => trivial

theorem invoke_proper : Meets (Reply.Proper V) (invoke closure arguments) := by
  rw [← bind_pure (invoke closure arguments)]
  exact (invoke_meets hclosure harguments).bind fun _ hreply => hreply.1

end

theorem evaluate_meets (hv : V v) : Meets (Reply.Proper V) (evaluate v) := by
  cases v with
  | block number closure => exact invoke_proper ⟨number, hv⟩ nofun
  | _ => exact hv

theorem branchReply_meets (hplain : ∀ v : Value, v.isPlain = true → V v) (v : Value)
    (expected : Bool) {branch : Value} (hbranch : V branch) :
    Meets (Reply.Proper V) (branchReply v expected branch) := by
  refine (booleanOf_meets v).bind fun b _ => ?_
  split
  · exact evaluate_meets hbranch
  · exact hplain _ rfl

theorem elementReply_meets (hplain : ∀ v : Value, v.isPlain = true → V v)
    (hitems : ∀ number, ∀ v ∈ s.itemsOf number, V v) (v index : Value) :
    Meets (Reply.Proper V) (elementReply s v index) := by
  cases v with
  | string identity text =>
    refine (offset_meets index _).bind fun i _ => ?_
    change V ((text.toList[i]?.map Value.character).getD .nil)
    cases text.toList[i]? <;> exact hplain _ rfl
  | array number =>
    refine (offset_meets index _).bind fun i _ => ?_
    change V ((s.itemsOf number).getD i .nil)
    rw [Array.getD_eq_getD_getElem?]
    cases hi : (s.itemsOf number)[i]? with
    | none => exact hplain _ rfl
    | some v => exact hitems number v (Array.mem_of_getElem? hi)
  | _ => trivial

theorem putReply_meets (s : Store) (v index : Value) {item : Value} (hitem : V item) :
    Meets (Reply.Proper V) (putReply s v index item) := by
  cases v with
  | array number => exact (offset_meets index _).bind fun _ _ => hitem
  | _ => trivial

theorem spreadReply_meets (hitems : ∀ number, ∀ v ∈ s.itemsOf number, V v) (hv : V v)
    (argument : Value) : Meets (Reply.Proper V) (spreadReply s v argument) := by
  refine (blockOf_meets hv).bind fun closure hclosure => ?_
  cases argument with
  | array number =>
    exact invoke_proper hclosure fun v hv => hitems number v (Array.mem_toList_iff.1 hv)
  | _ => trivial

/-- A loop has blocks without arguments. -/
theorem loopReply_meets {w : Value} (hv : V v) (hw : V w) (repeatWhile : Bool) :
    Meets (Reply.Proper V) (loopReply v w repeatWhile) := by
  have hnone : ∀ v ∈ ([] : List Value), V v := fun _ h => absurd h List.not_mem_nil
  refine (blockOf_meets hv).bind fun condition hcondition =>
    (blockOf_meets hw).bind fun body hbody => ?_
  refine (invoke_meets hcondition hnone).bind fun _ hfirst => ?_
  exact (invoke_meets hbody hnone).bind fun _ hsecond =>
    ⟨⟨hfirst.2, hsecond.2⟩, hcondition, hbody⟩

end Operation

open Operation in
/-- **An operation hands out what it was given**, blocks only if they can be started, and if it fails
then neither the code nor a field is at fault. -/
theorem Primitive.perform_meets (hplain : ∀ v : Value, v.isPlain = true → V v) (p : Primitive)
    (hitems : ∀ number, ∀ v ∈ s.itemsOf number, V v) (hreceiver : V receiver)
    (harguments : ∀ v ∈ arguments, V v) :
    Meets (Reply.Proper V) (p.perform s receiver arguments) := by
  have hnil : V .nil := hplain _ rfl
  have hfirst : V (arguments.headD .nil) := by
    cases arguments with
    | nil => exact hnil
    | cons v _ => exact harguments v List.mem_cons_self
  have hsecond : V (arguments.getD 1 .nil) := by
    grind
  cases p with
  | add | subtract | multiply => exact numeric_meets hplain receiver _ _ _
  | divide | floorDivide | remainder | modulo =>
    exact (checkDivisor_meets _).bind fun _ _ => numeric_meets hplain receiver _ _ _
  | less | lessEqual | greater | greaterEqual => exact comparison_meets hplain receiver _ _
  | equal | notEqual | hash | identical => exact hplain _ rfl
  | asFloat | asInteger | size => cases receiver <;> first | exact hplain _ rfl | trivial
  | asCharacter => exact toCharacter_meets hplain receiver
  | asString | printString | className => trivial
  | concatenate => cases receiver <;> trivial
  | elementAt => exact elementReply_meets hplain hitems receiver _
  | elementAtPut => exact putReply_meets s receiver _ hsecond
  | asArray =>
    cases receiver with
    | string identity text =>
      intro v hv
      obtain ⟨c, -, rfl⟩ := List.mem_map.1 (List.mem_toArray.1 hv)
      exact hplain _ rfl
    | array number => exact hplain _ rfl
    | _ => trivial
  | ifTrue | ifFalse => exact branchReply_meets hplain receiver _ hfirst
  | ifTrueIfFalse | ifFalseIfTrue =>
    refine (booleanOf_meets receiver).bind fun b _ => evaluate_meets ?_
    grind
  | logicalNot => exact (booleanOf_meets receiver).bind fun _ _ => hplain _ rfl
  | logicalAnd | logicalOr =>
    exact (booleanOf_meets receiver).bind fun _ _ =>
      (booleanOf_meets _).bind fun _ _ => hplain _ rfl
  | value arity =>
    exact (blockOf_meets hreceiver).bind fun _ hclosure => invoke_proper hclosure harguments
  | valueWithArguments => exact spreadReply_meets hitems hreceiver _
  | numArgs => exact (blockOf_meets hreceiver).bind fun _ _ => hplain _ rfl
  | whileTrue | whileFalse => exact loopReply_meets hreceiver hfirst _
  | basicNew =>
    cases receiver with
    | classObject cls => exact hreceiver
    | _ => trivial
  | newArray =>
    refine (countOf_meets _).bind fun _ _ v hv => ?_
    rw [Array.eq_of_mem_replicate hv]
    exact hnil
  | newString => exact (countOf_meets _).bind fun _ _ => trivial
  | showLine => exact hreceiver

/-- Whatever an operation is given, its reply is proper. -/
theorem Primitive.perform_proper (p : Primitive) (s : Store) (receiver : Value)
    (arguments : List Value) :
    Meets (Reply.Proper fun _ => True) (p.perform s receiver arguments) :=
  p.perform_meets (fun _ _ => trivial) (fun _ _ _ => trivial) trivial fun _ _ => trivial

/-! ### Instructions -/

/-- Can the instruction make the activation wait, or fail because of what was written? Reading a
field is left out. -/
def Instruction.needsPlace : Instruction → Bool
  | .pushGlobal _ | .storeField _ | .send _ _ | .sendSuper _ _ | .methodReturn => true
  | _ => false

/-- The instruction sends a message that takes the receiver and the arguments from the operands, and
leaves some others. -/
def Frame.Sends (f : Frame) (i : Instruction) (receiver : Value) (arguments left : List Value) :
    Prop :=
  f.operands = arguments.reverse ++ receiver :: left ∧ ∃ count selector : UInt16,
    count.toNat = arguments.length ∧ (i = .send count selector ∨ i = .sendSuper count selector)

theorem Frame.Sends.needsPlace (h : f.Sends i receiver arguments left) : i.needsPlace = true := by
  obtain ⟨-, _, _, -, rfl | rfl⟩ := h <;> rfl

namespace Machine

/-- **What an instruction can ask for.** -/
inductive Asks (m : Machine) (f : Frame) (i : Instruction) : Action → Prop where
  /-- Go on without a change to variables. -/
  | proceed {store : Store} {operands : List Value}
      (hrows : store.activations = m.store.activations) : Asks m f i (.proceed store operands)
  /-- Assign the top operand to a variable. -/
  | assign {depth index : UInt16} {a : Nat} {v w : Value} (hi : i = .storeLocal depth index)
      (hv : f.operands.head? = some v) (ha : m.slotAt f depth index = .ok (a, w)) :
      Asks m f i (.proceed (m.store.setSlot a index.toNat v) f.operands)
  | record {mark : Mark} (hi : i = .mark mark.file mark.line mark.column) :
      Asks m f i (.record mark)
  | call {receiver : Value} {method : Method} {arguments left : List Value}
      (hsends : f.Sends i receiver arguments left) : Asks m f i (.call left method receiver arguments)
  /-- An operation that was performed for a message asks for a block. -/
  | invoke {receiver : Value} {closure : Closure Value} {arguments given left : List Value}
      (hsends : f.Sends i receiver arguments left)
      (hcount : given.length = closure.code.argumentCount) : Asks m f i (.invoke left closure given)
  /-- An operation that was performed for a message asks for a loop. -/
  | loop {receiver : Value} {condition body : Closure Value} {arguments left : List Value}
      {repeatWhile : Bool} (hsends : f.Sends i receiver arguments left)
      (hcounts : condition.code.argumentCount = 0 ∧ body.code.argumentCount = 0) :
      Asks m f i (.loop left condition body repeatWhile)
  | leave {v : Value} {operands : List Value} (hi : i = .blockReturn)
      (hv : f.operands = v :: operands) : Asks m f i (.leave v)
  | answer {v : Value} {operands : List Value} (hi : i = .methodReturn)
      (hv : f.operands = v :: operands) : Asks m f i (.answer v)
  /-- Only an instruction that uses a field can miss one, and only few others can fail unless the code
  is at fault. -/
  | fail {fault : Fault} (hfield : fault.isOfField = true →
      ∃ index, (i = .pushField index ∨ i = .storeField index) ∧
        ∀ found, m.fieldAt f index ≠ .ok found)
      (hplace : fault.isOfCode = true ∨ i.needsPlace = true ∨
        fault.isOfField = true ∧ ∃ index, i = .pushField index) : Asks m f i (.fail fault)

variable {m : Machine} {fault : Fault} {k : α → Action} {depth : UInt16}

theorem Asks.fail_of_not (h : fault.isOfField = false)
    (hplace : fault.isOfCode = true ∨ i.needsPlace = true) : m.Asks f i (.fail fault) :=
  .fail (fun hfield => by rw [h] at hfield; cases hfield) (hplace.imp_right .inl)

theorem Asks.fail_of_code (h : fault.isOfCode = true) : m.Asks f i (.fail fault) :=
  .fail_of_not (by cases fault <;> first | rfl | cases h) (.inl h)

theorem Asks.need (hfault : fault.isOfCode = true) {x : Option α}
    (hk : ∀ a, x = some a → m.Asks f i (k a)) : m.Asks f i (.need fault x k) := by
  cases x with
  | none => exact .fail_of_code hfault
  | some a => exact hk a rfl

theorem Asks.attempt (hx : ∀ fault, x = .error fault → m.Asks f i (.fail fault))
    (hk : ∀ a, x = .ok a → m.Asks f i (k a)) : m.Asks f i (.attempt x k) := by
  cases x with
  | error fault => exact hx fault rfl
  | ok a => exact hk a rfl

theorem Asks.ofPrimitive (hsends : f.Sends i receiver arguments left) (p : Primitive) :
    m.Asks f i (.ofPrimitive m.store left p receiver arguments) := by
  have hmeets := p.perform_proper m.store receiver arguments
  refine .attempt (fun fault hfault => ?_) fun reply hreply => ?_
  · rw [hfault] at hmeets
    exact .fail_of_not hmeets.2 (.inr hsends.needsPlace)
  · rw [hreply] at hmeets
    cases reply with
    | invoke closure given => exact .invoke hsends hmeets.1
    | loop condition body repeatWhile => exact .loop hsends hmeets.1
    | _ => exact .proceed rfl

theorem isOfField_missing (receiver : Value) (selector : String) (otherSide : Option Method) :
    (missing receiver selector otherSide).isOfField = false := by
  rw [missing.eq_def]
  split
  · rfl
  · split <;> rfl

theorem messageAction_asks (hsends : f.Sends i receiver arguments left) (toSuper : Bool)
    (className selector : String) :
    m.Asks f i (m.messageAction toSuper className selector left receiver arguments) := by
  rw [messageAction]
  split
  · exact .ofPrimitive hsends _
  · refine .attempt (fun fault hfault => .fail_of_not ?_ (.inr hsends.needsPlace))
      fun method _ => ?_
    · rw [methodFor] at hfault
      split at hfault
      · cases hfault
      · obtain rfl := Except.error.inj hfault
        exact isOfField_missing ..
    · split
      · exact .ofPrimitive hsends _
      · exact .call hsends

theorem sendAction_asks (toSuper : Bool) {count selector : UInt16}
    (hi : i = .send count selector ∨ i = .sendSuper count selector) :
    m.Asks f i (m.sendAction f toSuper count selector) := by
  refine .need rfl fun name _ => ?_
  split
  next arguments receiver left htake =>
    obtain ⟨hle, rfl, hrest⟩ := takeOperands_eq_some_iff.1 htake
    exact messageAction_asks ⟨by simp [hrest], count, selector, by simp [hle], hi⟩ ..
  next => exact .fail_of_code rfl

/-- A variable that is found is one of an activation around the code. -/
theorem of_slotAt {found : Nat × Value} (h : m.slotAt f depth index = .ok found) :
    f.environment.chain[depth.toNat]? = some found.1 ∧
      m.store.slot? found.1 index.toNat = some found.2 := by
  rw [slotAt] at h
  grind

theorem slotAt_asks {k : Nat × Value → Action}
    (hk : ∀ found, m.slotAt f depth index = .ok found → m.Asks f i (k found)) :
    m.Asks f i (.attempt (m.slotAt f depth index) k) := by
  refine .attempt (fun fault hfault => .fail_of_code ?_) hk
  rw [slotAt] at hfault
  grind [Fault.isOfCode]

theorem fieldAt_asks (hi : i = .pushField index ∨ i = .storeField index) {k : Nat × Value → Action}
    (hk : ∀ found, m.Asks f i (k found)) : m.Asks f i (.attempt (m.fieldAt f index) k) := by
  refine .attempt (fun fault hfault => .fail (fun _ => ⟨index, hi, fun found => by
    rw [hfault]; nofun⟩) (.inr ?_)) fun found _ => hk found
  rcases hi with rfl | rfl
  · rw [fieldAt] at hfault
    grind [Fault.isOfField]
  · exact .inl rfl

/-- **An instruction asks for nothing else.** -/
theorem action_asks (m : Machine) (f : Frame) (i : Instruction) : m.Asks f i (m.action f i) := by
  have htop {v : Value} (hv : f.operands.head? = some v) : ∃ operands, f.operands = v :: operands :=
    List.head?_eq_some_iff.1 hv
  cases i with
  | pushCharacter code | pushLiteral literal | pop
  | block index | pushArray count => exact .need rfl fun _ _ => .proceed rfl
  | pushGlobal literal =>
    refine .need rfl fun name _ => ?_
    cases m.global? name with
    | some v => exact .proceed rfl
    | none =>
      refine .fail_of_not ?_ (.inr rfl)
      rw [globalFault]
      split <;> rfl
  | pushLocal depth index => exact slotAt_asks fun _ _ => .proceed rfl
  | pushField index => exact fieldAt_asks (.inl rfl) fun _ => .proceed rfl
  | storeLocal depth index =>
    exact .need rfl fun v hv => slotAt_asks fun found hfound => .assign rfl hv hfound
  | storeField index => exact .need rfl fun v _ => fieldAt_asks (.inr rfl) fun _ => .proceed rfl
  | send count selector => exact sendAction_asks false (.inl rfl)
  | sendSuper count selector => exact sendAction_asks true (.inr rfl)
  | blockReturn => exact .need rfl fun v hv => (htop hv).elim fun _ hv => .leave rfl hv
  | methodReturn => exact .need rfl fun v hv => (htop hv).elim fun _ hv => .answer rfl hv
  | mark file line column => exact .record rfl
  | _ => exact .proceed rfl

/-- An instruction that goes on in the same activation starts no other. -/
theorem Asks.size_eq {store : Store} (h : m.Asks f i (.proceed store operands)) :
    store.activations.size = m.store.activations.size := by
  cases h with
  | proceed hrows => rw [hrows]
  | assign => exact Array.size_modify

end Machine

end Smalltalk
