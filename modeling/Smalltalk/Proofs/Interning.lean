/-
**Literals are interned.**

A pool keeps its texts in a list and their positions in a map. Whatever texts are asked for, and
however often, the two agree: the list holds each text once, in the order in which the texts were
first asked for, as far as there is room.

* `LiteralPool.literals_interned` — **what a pool answers**, whatever was asked before.
-/

import Mathlib.Data.List.Basic
import Mathlib.Data.List.Induction
import Smalltalk.Code.Compiled

namespace Smalltalk.LiteralPool

/-- The positions are those of the texts, of which there is room for all. -/
@[grind cases]
structure Valid (p : LiteralPool) : Prop where
  positions (text : String) (n : Nat) : p.positions[text]? = some n ↔ p.texts[n]? = some text
  size : p.texts.size ≤ capacity

theorem empty_valid : empty.Valid where
  positions text n := by simp [empty]
  size := by simp [empty, capacity]

variable {p p' : LiteralPool} {text : String} {m n : Nat} {asked : List String}

/-- The texts of a valid pool are all different. -/
theorem Valid.eq_of_getElem? (h : p.Valid) (hm : p.texts[m]? = some text)
    (hn : p.texts[n]? = some text) : m = n := by
  rw [← h.positions] at hm hn
  exact Option.some.inj (hm.symm.trans hn)

/-- The pool with a text that is new. -/
def push (p : LiteralPool) (text : String) : LiteralPool :=
  ⟨p.texts.push text, p.positions.insert text p.texts.size⟩

/-- A text is there, or it is new; then it gets the next position if there is one. -/
theorem Valid.intern_cases (h : p.Valid) (text : String) :
    (∃ n, p.texts[n]? = some text ∧ p.intern text = (some n, p)) ∨ text ∉ p.texts ∧
      (p.texts.size < capacity ∧ p.intern text = (some p.texts.size, p.push text) ∨
        p.texts.size = capacity ∧ p.intern text = (none, p)) := by
  rw [LiteralPool.intern]
  cases hposition : p.positions[text]? with
  | some n => exact .inl ⟨n, (h.positions text n).1 hposition, rfl⟩
  | none =>
    refine .inr ⟨fun hmem => ?_, ?_⟩
    · obtain ⟨n, hn⟩ := Array.getElem?_of_mem hmem
      cases hposition.symm.trans ((h.positions text n).2 hn)
    · rcases Nat.lt_or_eq_of_le h.size with hlt | heq
      · exact .inl ⟨hlt, if_pos hlt⟩
      · exact .inr ⟨heq, if_neg (Nat.not_lt.2 (Nat.le_of_eq heq.symm))⟩

theorem Valid.push (h : p.Valid) (hnew : text ∉ p.texts) (hroom : p.texts.size < capacity) :
    (p.push text).Valid where
  positions text' n := by
    have hold := h.positions text'
    grind [LiteralPool.push]
  size := by
    rw [LiteralPool.push, Array.size_push]
    exact hroom

/-- **A text that was asked for has a place in the pool**, which holds each text once. -/
theorem Valid.intern (h : p.Valid) (hintern : p.intern text = (some n, p')) :
    p'.Valid ∧ p.texts.toList <+: p'.texts.toList ∧ p'.texts[n]? = some text ∧ n < capacity := by
  obtain ⟨m, hm, heq⟩ | ⟨hnew, ⟨hroom, heq⟩ | ⟨-, heq⟩⟩ := h.intern_cases text
  all_goals rw [heq] at hintern; cases hintern
  · exact ⟨h, List.prefix_rfl, hm, Nat.lt_of_lt_of_le (Array.getElem?_eq_some_iff.1 hm).1 h.size⟩
  · exact ⟨h.push hnew hroom, by simp [LiteralPool.push], by simp [LiteralPool.push], hroom⟩

/-! ### Any texts -/

/-- The pool after some texts were asked for. -/
def after (asked : List String) : LiteralPool :=
  asked.foldl (fun p text => (p.intern text).2) empty

theorem after_concat (asked : List String) (text : String) :
    after (asked ++ [text]) = ((after asked).intern text).2 := by
  rw [after, List.foldl_append]
  rfl

theorem eraseDups_concat (asked : List String) (text : String) :
    (asked ++ [text]).eraseDups = asked.eraseDups ++ if text ∈ asked then [] else [text] := by
  rw [List.eraseDups_append, List.cons_removeAll]
  split <;> simp_all [List.eraseDups_cons]

/-- **The texts of a pool are those that were asked for first**, each of them once. -/
theorem texts_after (asked : List String) :
    (after asked).Valid ∧ (after asked).texts.toList = asked.eraseDups.take capacity := by
  induction asked using List.reverseRecOn with
  | nil => exact ⟨empty_valid, rfl⟩
  | append_singleton asked text ih =>
    obtain ⟨hvalid, htexts⟩ := ih
    have hsize : (after asked).texts.size = min capacity asked.eraseDups.length := by
      rw [← Array.length_toList, htexts, List.length_take]
    rw [after_concat, eraseDups_concat, List.take_append, ← htexts]
    obtain ⟨n, hn, heq⟩ | ⟨hnew, ⟨hroom, heq⟩ | ⟨hfull, heq⟩⟩ := hvalid.intern_cases text <;>
      rw [heq]
    · have hasked : text ∈ asked := List.mem_eraseDups.1
        (List.mem_of_mem_take (htexts ▸ Array.mem_toList_iff.2 (Array.mem_of_getElem? hn)))
      rw [if_pos hasked, List.take_nil, List.append_nil]
      exact ⟨hvalid, rfl⟩
    · rw [List.take_of_length_le (by omega)] at htexts
      have hasked : text ∉ asked := fun h =>
        hnew (Array.mem_toList_iff.1 (htexts ▸ List.mem_eraseDups.2 h))
      rw [if_neg hasked, List.take_of_length_le (by simp; omega)]
      exact ⟨hvalid.push hnew hroom, Array.toList_push⟩
    · rw [Nat.sub_eq_zero_of_le (by omega), List.take_zero, List.append_nil]
      exact ⟨hvalid, rfl⟩

theorem getElem?_after_append (hn : (after asked).texts[n]? = some text) (more : List String) :
    (after (asked ++ more)).texts[n]? = some text := by
  rw [← Array.getElem?_toList, (texts_after _).2] at hn ⊢
  rw [List.eraseDups_append, List.take_append]
  exact List.getElem?_append_left (List.getElem?_eq_some_iff.1 hn).1 ▸ hn

/-- The position that is answered is that of the text from then on. -/
theorem getElem?_of_intern (hn : ((after asked).intern text).1 = some n) (more : List String) :
    n < capacity ∧ (after (asked ++ text :: more)).texts[n]? = some text := by
  have hintern : (after asked).intern text = (some n, after (asked ++ [text])) :=
    Prod.ext hn (after_concat asked text).symm
  obtain ⟨-, -, htext, hlt⟩ := (texts_after asked).1.intern hintern
  have hlater := getElem?_after_append htext more
  rw [List.append_assoc] at hlater
  exact ⟨hlt, hlater⟩

/-- **What a pool answers**, whatever was asked for before. It holds no text twice, and its texts
are the first that were asked for, in this order. The position that is answered for a text is the
one where it stands from then on, and no other text gets it. There is no answer exactly if the text
is new and the pool is full, and then the pool stays as it is. -/
theorem literals_interned (asked : List String) (text : String) :
    (after asked).texts.toList.Nodup ∧
      (after asked).texts.toList = asked.eraseDups.take 65536 ∧
      (∀ n, ((after asked).intern text).1 = some n → ∀ more,
        n < 65536 ∧ (after (asked ++ text :: more)).texts[n]? = some text ∧
          ∀ other m, ((after (asked ++ text :: more)).intern other).1 = some m →
            (n = m ↔ text = other)) ∧
      (((after asked).intern text).1 = none ↔
        text ∉ (after asked).texts ∧ (after asked).texts.size = 65536) ∧
      (((after asked).intern text).1 = none → after (asked ++ [text]) = after asked) := by
  obtain ⟨hvalid, htexts⟩ := texts_after asked
  refine ⟨?_, htexts, fun n hn more => ?_, ?_⟩
  · refine List.pairwise_iff_getElem.2 fun i j hi hj hlt heq => Nat.ne_of_lt hlt ?_
    have htext : (after asked).texts[i]? = some (after asked).texts.toList[i] := by
      rw [← Array.getElem?_toList, List.getElem?_eq_getElem hi]
    refine hvalid.eq_of_getElem? htext ?_
    rw [← Array.getElem?_toList, List.getElem?_eq_getElem hj, heq]
  · obtain ⟨hlt, htext⟩ := getElem?_of_intern hn more
    refine ⟨hlt, htext, fun other m hm => ?_⟩
    obtain ⟨-, hother⟩ := getElem?_of_intern hm []
    have htext' := getElem?_after_append htext [other]
    constructor
    · rintro rfl
      exact Option.some.inj (htext'.symm.trans hother)
    · rintro rfl
      exact (texts_after _).1.eq_of_getElem? htext' hother
  · rw [after_concat]
    obtain ⟨n, hn, heq⟩ | ⟨hnew, ⟨hroom, heq⟩ | ⟨hfull, heq⟩⟩ := hvalid.intern_cases text <;>
      rw [heq]
    · simp [Array.mem_of_getElem? hn]
    · have hne : (after asked).texts.size ≠ 65536 := Nat.ne_of_lt hroom
      simp [hne]
    · simpa using ⟨hnew, hfull⟩

end Smalltalk.LiteralPool
