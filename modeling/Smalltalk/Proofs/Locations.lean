/-
**Lines and columns of offsets.**

The line index of a source is settled by where its newlines are. An offset is on the line after the
last newline before it, and the binary search finds that line since the lines start in order.

* `Lines.locations_and_spans` — **offsets, locations and lines correspond**.
-/

import Smalltalk.Proofs.Tiling
import Smalltalk.Source.Lines

namespace Smalltalk

variable {k start i o j : Nat}

/-- **What a binary search finds**: where the test fails first. -/
theorem partitionPoint_eq {p : Nat → Bool} {lo hi : Nat}
    (h : ∀ i, lo ≤ i → i < hi → (p i = true ↔ i < k)) (hlo : lo ≤ k) (hhi : k ≤ hi) :
    partitionPoint p lo hi = k := by
  fun_induction partitionPoint p lo hi with
  | case1 lo hi hlt middle hp ih =>
    have hk := (h middle (by omega) (by omega)).1 hp
    exact ih (fun i hi => h i (by omega)) hk hhi
  | case2 lo hi hlt middle hp ih =>
    have hk := mt (h middle (by omega) (by omega)).2 hp
    exact ih (fun i hi hi' => h i hi (by omega)) hlo (by omega)
  | case3 lo hi hlt => omega

namespace Lines

/-! ### Newlines -/

def newline : UInt8 := 0x0a

/-- The bytes of a source. -/
def bytesOf (source : String) : List UInt8 := source.toByteArray.data.toList

/-- Where the newlines of a source are. -/
def newlines (source : String) : List Nat := (bytesOf source).findIdxs (· == newline)

theorem bytesOf_eq (source : String) : bytesOf source = Token.octets source.toList := by
  exact Token.data_toUTF8 source

theorem length_bytesOf (source : String) : (bytesOf source).length = source.utf8ByteSize := by
  rw [bytesOf_eq, Token.length_octets, String.utf8Len_toList]

/-- Only a newline has the byte of one. -/
theorem findIdxs_utf8EncodeChar (c : Char) (offset : Nat) :
    (String.utf8EncodeChar c).findIdxs (· == newline) offset = if c = '\n' then [offset] else [] := by
  split
  next h => rw [h]; rfl
  next h =>
    rw [List.findIdxs_eq_nil_iff]
    intro b hb
    rw [beq_eq_false_iff_ne]
    rintro rfl
    exact Token.ne_of_mem_encodeChar (d := '\n') rfl h _ (List.mem_map_of_mem hb) rfl

theorem startsFrom_eq (offset : Nat) (found : Array Nat) (cs : List Char) :
    (startsFrom offset found cs).toList =
      found.toList ++ ((Token.octets cs).findIdxs (· == newline) offset).map (· + 1) := by
  induction cs generalizing offset found with
  | nil => simp [startsFrom, Token.octets]
  | cons c cs ih =>
    have hbytes : Token.octets (c :: cs) = String.utf8EncodeChar c ++ Token.octets cs := rfl
    rw [startsFrom, ih, hbytes, List.findIdxs_append, findIdxs_utf8EncodeChar,
      String.length_utf8EncodeChar]
    split
    next h =>
      have hsize : '\n'.utf8Size = 1 := rfl
      simp [h, hsize]
    next => rfl

/-- **The lines start at the front and after each newline.** -/
theorem starts_ofSource (source : String) :
    (ofSource source).starts = (0 :: (newlines source).map (· + 1)).toArray := by
  rw [ofSource, ← Array.toList_inj, startsFrom_eq, ← bytesOf_eq]
  rfl

/-! ### Lines -/

/-- A line starts at one offset and goes on up to the other. -/
structure Begins (source : String) (start stop : Nat) : Prop where
  le : start ≤ stop
  first : start = 0 ∨ (bytesOf source)[start - 1]? = some newline
  rest : ∀ i, start ≤ i → i < stop → (bytesOf source)[i]? ≠ some newline

variable {source : String}

theorem exists_newline :
    (bytesOf source)[i]? = some newline ↔ ∃ j : Nat, (newlines source)[j]? = some i := by
  rw [← List.mem_iff_getElem?, newlines, List.mem_findIdxs_iff_exists_getElem_pos]
  grind

theorem newlines_lt {i' : Nat} (hj : (newlines source)[j]? = some i)
    (hk : (newlines source)[k]? = some i') (h : j < k) : i < i' := by
  obtain ⟨hj', rfl⟩ := List.getElem?_eq_some_iff.1 hj
  obtain ⟨hk', rfl⟩ := List.getElem?_eq_some_iff.1 hk
  exact List.pairwise_iff_getElem.1 List.pairwise_findIdxs j k hj' hk' h

/-- The newlines before an offset come before all others. -/
theorem newlines_lt_iff (hj : (newlines source)[j]? = some i) :
    i < o ↔ j < ((bytesOf source).take o).count newline := by
  have htake : ((bytesOf source).take o).findIdxs (· == newline) =
      (newlines source).take (((bytesOf source).take o).count newline) := List.findIdxs_take
  have hmem : i < o ↔ i ∈ ((bytesOf source).take o).findIdxs (· == newline) := by
    have hnewline := exists_newline.2 ⟨j, hj⟩
    rw [List.mem_findIdxs_iff_exists_getElem_pos]
    grind
  rw [hmem, htake, List.mem_take_iff_getElem]
  obtain ⟨hlt, hi⟩ := List.getElem?_eq_some_iff.1 hj
  refine ⟨fun ⟨k, hk, hi'⟩ => ?_, fun h => ⟨j, Nat.lt_min.2 ⟨h, hlt⟩, hi⟩⟩
  have hk' := List.getElem?_eq_some_iff.2 ⟨(Nat.lt_min.1 hk).2, hi'⟩
  rcases Nat.lt_trichotomy j k with h | rfl | h
  · exact absurd (newlines_lt hj hk' h) (Nat.lt_irrefl i)
  · exact (Nat.lt_min.1 hk).1
  · exact absurd (newlines_lt hk' hj h) (Nat.lt_irrefl i)

/-! ### Where lines start -/

theorem size_starts (source : String) :
    (ofSource source).starts.size = (bytesOf source).count newline + 1 := by
  rw [starts_ofSource]
  simp [newlines, List.count]

theorem exists_start (h : k < (bytesOf source).count newline + 1) :
    ∃ start, (ofSource source).starts[k]? = some start :=
  ⟨_, Array.getElem?_eq_getElem (h.trans_eq (size_starts source).symm)⟩

/-- A line starts at the front or after a newline. -/
theorem cases_of_start (h : (ofSource source).starts[k]? = some start) :
    k = 0 ∧ start = 0 ∨ ∃ j i, k = j + 1 ∧ (newlines source)[j]? = some i ∧ start = i + 1 := by
  rw [starts_ofSource, List.getElem?_toArray] at h
  cases k with
  | zero => exact .inl ⟨rfl, (Option.some.inj h).symm⟩
  | succ k =>
    rw [List.getElem?_cons_succ, List.getElem?_map, Option.map_eq_some_iff] at h
    obtain ⟨i, hi, rfl⟩ := h
    exact .inr ⟨k, i, rfl, hi, rfl⟩

/-- The lines that start up to an offset come after the newlines before it. -/
theorem start_le_iff (h : (ofSource source).starts[k]? = some start) :
    start ≤ o ↔ k < ((bytesOf source).take o).count newline + 1 := by
  rcases cases_of_start h with ⟨rfl, rfl⟩ | ⟨j, i, rfl, hi, rfl⟩
  · exact iff_of_true (Nat.zero_le _) (Nat.succ_pos _)
  · rw [Nat.succ_le_iff, newlines_lt_iff hi, Nat.add_lt_add_iff_right]

/-- A line goes on as long as there is no later newline. -/
theorem begins_of_start {stop : Nat} (h : (ofSource source).starts[k]? = some start)
    (hle : start ≤ stop) (hlater : ∀ j i, k ≤ j → (newlines source)[j]? = some i → stop ≤ i) :
    Begins source start stop := by
  rcases cases_of_start h with ⟨rfl, rfl⟩ | ⟨k, last, rfl, hlast, rfl⟩
  · refine ⟨hle, .inl rfl, fun i _ hi hnewline => ?_⟩
    obtain ⟨j, hj⟩ := exists_newline.1 hnewline
    exact absurd hi (Nat.not_lt.2 (hlater j i (Nat.zero_le j) hj))
  · refine ⟨hle, .inr (exists_newline.2 ⟨k, hlast⟩), fun i hstart hi hnewline => ?_⟩
    obtain ⟨j, hj⟩ := exists_newline.1 hnewline
    rcases Nat.lt_trichotomy j k with hjk | rfl | hjk
    · exact Nat.lt_asymm hstart (newlines_lt hj hlast hjk)
    · cases hj.symm.trans hlast
      exact Nat.lt_irrefl _ hstart
    · exact absurd hi (Nat.not_lt.2 (hlater j i hjk hj))

/-! ### Offsets -/

/-- The line of an offset comes after all newlines before it. -/
theorem lineOf_eq (source : String) (o : Nat) :
    (ofSource source).lineOf o = ((bytesOf source).take o).count newline + 1 := by
  refine partitionPoint_eq (fun i _ hi => ?_) (Nat.zero_le _) ?_
  · rw [size_starts] at hi
    obtain ⟨start, hstart⟩ := exists_start hi
    rw [Array.getD_eq_getD_getElem?, hstart, decide_eq_true_iff]
    exact start_le_iff hstart
  · rw [size_starts]
    exact Nat.succ_le_succ ((List.take_sublist ..).count_le _)

/-- The location of an offset, and the start of its line. -/
theorem location_eq (source : String) (o : Nat) : ∃ start, Begins source start o ∧
    (ofSource source).starts[((bytesOf source).take o).count newline]? = some start ∧
    (ofSource source).location o =
      ⟨((bytesOf source).take o).count newline + 1, o - start + 1⟩ := by
  obtain ⟨start, hstart⟩ := exists_start
    (Nat.lt_succ_of_le ((List.take_sublist o (bytesOf source)).count_le newline))
  refine ⟨start, begins_of_start hstart ((start_le_iff hstart).2 (Nat.lt_succ_self _)) ?_, hstart, ?_⟩
  · intro j i hj hi
    exact Nat.le_of_not_lt fun h => Nat.not_lt.2 hj ((newlines_lt_iff hi).1 h)
  · rw [location, lineOf_eq, Nat.add_sub_cancel, Array.getD_eq_getD_getElem?, hstart]
    rfl

/-- **A location is that of its offset.** -/
theorem offset?_location (ho : o ≤ source.utf8ByteSize) :
    (ofSource source).offset? ((ofSource source).location o) = some o := by
  obtain ⟨start, hbegins, hstart, hlocation⟩ := location_eq source o
  rw [hlocation, offset?, hstart, Option.bind_some, Nat.add_sub_cancel' hbegins.le]
  exact if_pos ho

/-! ### Spans -/

theorem lineSpan_succ (h : (ofSource source).starts[k]? = some start) :
    (ofSource source).lineSpan (k + 1) =
      ⟨start, ((ofSource source).starts[k + 1]?).getD source.utf8ByteSize⟩ := by
  rw [lineSpan, Array.getD_eq_getD_getElem?, Array.getD_eq_getD_getElem?, h]
  rfl

/-- A line with another one after it ends with its only newline. -/
theorem lineSpan_of_lt (hk : k < (bytesOf source).count newline) :
    ∃ i, ((ofSource source).lineSpan (k + 1)).stop = i + 1 ∧
      (bytesOf source)[i]? = some newline ∧
      Begins source ((ofSource source).lineSpan (k + 1)).start i := by
  obtain ⟨start, hstart⟩ := exists_start (Nat.lt_succ_of_lt hk)
  obtain ⟨next, hnext⟩ := exists_start (Nat.succ_lt_succ hk)
  rw [lineSpan_succ hstart, hnext]
  obtain ⟨h, -⟩ | ⟨j, i, hj, hi, rfl⟩ := cases_of_start hnext
  · cases h
  obtain rfl := Nat.succ.inj hj
  refine ⟨i, rfl, exists_newline.2 ⟨k, hi⟩, begins_of_start hstart ?_ fun j i' hj hi' => ?_⟩
  · rcases cases_of_start hstart with ⟨-, rfl⟩ | ⟨j, i', rfl, hi', rfl⟩
    · exact Nat.zero_le i
    · exact newlines_lt hi' hi (Nat.lt_succ_self j)
  · rcases Nat.lt_or_eq_of_le hj with hlt | rfl
    · exact Nat.le_of_lt (newlines_lt hi hi' hlt)
    · cases hi.symm.trans hi'
      exact Nat.le_refl i

/-- The last line goes on up to the end. -/
theorem lineSpan_last (source : String) :
    let span := (ofSource source).lineSpan ((bytesOf source).count newline + 1)
    span.stop = source.utf8ByteSize ∧ Begins source span.start span.stop := by
  obtain ⟨start, hstart⟩ := exists_start (Nat.lt_succ_self ((bytesOf source).count newline))
  have hend : (ofSource source).starts[(bytesOf source).count newline + 1]? = none :=
    Array.getElem?_eq_none (Nat.le_of_eq (size_starts source))
  intro span
  rw [show span = _ from lineSpan_succ hstart, hend]
  refine ⟨rfl, begins_of_start hstart ((start_le_iff hstart).2 ?_) fun j i hj hi => ?_⟩
  · rw [Option.getD_none, ← length_bytesOf, List.take_length]
    exact Nat.lt_succ_self _
  · obtain ⟨hlt, -⟩ := List.getElem?_eq_some_iff.1 hi
    rw [newlines, List.length_findIdxs] at hlt
    exact absurd hlt (Nat.not_lt.2 hj)

/-- **Offsets, locations and lines correspond.**  The line of an offset is one more than the number of
newlines before it, its column is one more than the distance from where the line begins, and the
location leads back to the offset. The lines follow each other from the front of the source to its
end, and each but the last ends with the only newline it has. -/
theorem locations_and_spans (source : String) :
    let lines := ofSource source
    let n := (bytesOf source).count newline + 1
    (∀ o ≤ source.utf8ByteSize,
      (lines.location o).line = ((bytesOf source).take o).count newline + 1 ∧
      (∃ start, Begins source start o ∧ (lines.location o).column = o - start + 1) ∧
      lines.offset? (lines.location o) = some o) ∧
    (lines.lineSpan 1).start = 0 ∧ (lines.lineSpan n).stop = source.utf8ByteSize ∧
    Begins source (lines.lineSpan n).start (lines.lineSpan n).stop ∧
    ∀ k, 1 ≤ k → k < n → (lines.lineSpan k).stop = (lines.lineSpan (k + 1)).start ∧
      ∃ i, (lines.lineSpan k).stop = i + 1 ∧ (bytesOf source)[i]? = some newline ∧
        Begins source (lines.lineSpan k).start i := by
  intro lines n
  refine ⟨fun o ho => ?_, ?_, (lineSpan_last source).1, (lineSpan_last source).2, fun k hk hlt => ?_⟩
  · obtain ⟨start, hbegins, -, hlocation⟩ := location_eq source o
    refine ⟨?_, ⟨start, hbegins, ?_⟩, offset?_location ho⟩ <;> rw [hlocation]
  · have hfirst : lines.starts[0]? = some 0 := by
      rw [starts_ofSource]
      rfl
    rw [lineSpan_succ hfirst]
  · obtain ⟨k, rfl⟩ := Nat.exists_eq_add_of_le' hk
    exact ⟨rfl, lineSpan_of_lt (Nat.lt_of_succ_lt_succ hlt)⟩

end Lines

end Smalltalk
