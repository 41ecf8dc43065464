/-
**Tokens and blanks make up a source.**

The spans that the scanner finds in the bytes of a source are those of the tokens in its characters.
So they follow each other without overlap, each of them starts and ends between two characters, and
every byte outside of them is a blank.

* `Token.scan_eq` — **bytes and characters have the same tokens**;
* `Token.Tiles` — **spans that make up a source**, up to blanks;
* `Token.scan_tiles` — **the tokens of a source make it up**.
-/

import Smalltalk.Proofs.Bytes

namespace Smalltalk

/-! ### Cutting a text between two characters -/

open String (utf8Len)

/-- A place between two parts of a text. -/
theorem isValid_append (a b : String) : String.Pos.Raw.IsValid (a ++ b) ⟨a.utf8ByteSize⟩ :=
  String.Pos.Raw.isValid_iff_exists_append.2 ⟨a, b, rfl, rfl⟩

/-- The text of a span that cuts no character. -/
theorem Span.text_of_append (a b c : String) :
    (⟨a.utf8ByteSize, a.utf8ByteSize + b.utf8ByteSize⟩ : Span).text (a ++ b ++ c) = b := by
  have hstart := isValid_append a (b ++ c)
  have hstop := isValid_append (a ++ b) c
  have htext := String.extract_of_valid a.toList b.toList c.toList
  simp only [String.ofList_append, String.ofList_toList, String.utf8Len_toList] at htext
  rw [← String.append_assoc] at hstart
  rw [String.utf8ByteSize_append] at hstop
  rw [Span.text, String.utf8ByteSize_append, String.utf8ByteSize_append,
    Nat.min_eq_left (Nat.le_add_right _ _), if_pos, htext]
  simp only [Bool.and_eq_true, decide_eq_true_eq, String.Pos.Raw.isValid_eq_true_iff]
  exact ⟨⟨Nat.le_add_right _ _, hstart⟩, hstop⟩

namespace Token

/-! ### Tokens as pieces of a source -/

/-- **A token is what stands at its place** in a text, with some characters before and after it. -/
def IsPiece (text : List Char) (t : Token) : Prop :=
  ∃ before after, text = before ++ (t.text.toList ++ after) ∧ t.start = utf8Len before ∧ t.text ≠ ""

/-- **Spans that make up a source**, up to blanks. -/
structure Tiles (source : String) (spans : List Span) : Prop where
  /-- No span is empty. -/
  nonempty : ∀ s ∈ spans, s.start < s.stop
  /-- Each span ends before the next one starts. -/
  ordered : spans.Pairwise fun s t => s.stop ≤ t.start
  /-- No span goes on after the end of the source. -/
  within : ∀ s ∈ spans, s.stop ≤ source.utf8ByteSize
  /-- A byte outside of all spans is a space, a tab, a carriage return or a newline. -/
  gaps : ∀ i (h : i < source.toByteArray.size),
    (∃ s ∈ spans, s.start ≤ i ∧ i < s.stop) ∨ source.toByteArray[i] ∈ [0x20, 0x09, 0x0d, 0x0a]
  /-- Spans start and end between two characters. -/
  boundaries : ∀ s ∈ spans, String.Pos.Raw.IsValid source ⟨s.start⟩ ∧
    String.Pos.Raw.IsValid source ⟨s.stop⟩
  /-- The text of a span is exactly its bytes. -/
  texts : ∀ s ∈ spans,
    (s.text source).toByteArray = source.toByteArray.extract s.start s.stop ∧ s.text source ≠ ""

variable {source : String} {t : Token} {ts : List Token} {offset : Nat} {c : Char} {cs : List Char}

theorem IsPiece.stop_le (h : t.IsPiece source.toList) :
    t.start < t.stop ∧ t.stop ≤ source.utf8ByteSize := by
  obtain ⟨before, after, hsource, hstart, hne⟩ := h
  have hpos : t.text.utf8ByteSize ≠ 0 := fun h => hne (String.utf8ByteSize_eq_zero_iff.1 h)
  have hsize := congrArg utf8Len hsource
  simp only [String.utf8Len_append, String.utf8Len_toList] at hsize
  rw [stop, length]
  omega

/-- A piece, with what is before and after it. -/
theorem IsPiece.exists_append (h : t.IsPiece source.toList) :
    ∃ a b, source = a ++ t.text ++ b ∧ t.start = a.utf8ByteSize := by
  obtain ⟨before, after, hsource, hstart, -⟩ := h
  refine ⟨String.ofList before, String.ofList after, ?_, ?_⟩
  · rw [← String.toList_inj, hsource]
    simp
  · rw [hstart, String.utf8ByteSize_ofList]

theorem IsPiece.boundaries (h : t.IsPiece source.toList) :
    String.Pos.Raw.IsValid source ⟨t.start⟩ ∧ String.Pos.Raw.IsValid source ⟨t.stop⟩ := by
  obtain ⟨a, b, rfl, hstart⟩ := h.exists_append
  rw [stop, hstart, length, ← String.utf8ByteSize_append]
  refine ⟨?_, isValid_append _ _⟩
  rw [String.append_assoc]
  exact isValid_append _ _

theorem IsPiece.text_span (h : t.IsPiece source.toList) : t.span.text source = t.text := by
  obtain ⟨a, b, rfl, hstart⟩ := h.exists_append
  rw [span, stop, hstart, length]
  exact Span.text_of_append _ _ _

theorem IsPiece.extract_eq (h : t.IsPiece source.toList) :
    source.toByteArray.extract t.start t.stop = t.text.toByteArray := by
  obtain ⟨a, b, rfl, hstart⟩ := h.exists_append
  rw [stop, hstart, length, String.append_assoc, String.toByteArray_append,
    String.toByteArray_append]
  have h := ByteArray.extract_append_size_add (a := a.toByteArray)
    (b := t.text.toByteArray ++ b.toByteArray) (i := 0) (j := t.text.utf8ByteSize)
  exact h.trans (ByteArray.extract_append_eq_left rfl)

theorem utf8Len_cut (offset : Nat) (c : Char) (cs : List Char) :
    (cut offset c cs).stop = offset + utf8Len ((c :: cs).take (lexeme c cs).2) := by
  rw [stop, cut, length, String.utf8ByteSize_ofList]

/-- The tokens of the rest of a text are pieces of it, none of which starts before the rest. -/
theorem Scans.pieces (h : Scans offset cs ts) (before : List Char)
    (hoffset : offset = utf8Len before) :
    (∀ t ∈ ts, offset ≤ t.start ∧ t.IsPiece (before ++ cs)) ∧
      ts.Pairwise fun t u => t.stop ≤ u.start := by
  induction h generalizing before with
  | nil => exact ⟨nofun, .nil⟩
  | @blank offset c cs ts hc _ ih =>
    obtain ⟨hpieces, hordered⟩ := ih (before ++ [c]) (by simp [hoffset])
    grind
  | @token offset c cs ts hc _ ih =>
    have hstop := utf8Len_cut offset c cs
    obtain ⟨hpieces, hordered⟩ := ih (before ++ (c :: cs).take (lexeme c cs).2)
      (by rw [String.utf8Len_append, hstop, hoffset])
    refine ⟨fun t ht => ?_, .cons (fun t ht => (hpieces t ht).1) hordered⟩
    rcases List.mem_cons.1 ht with rfl | ht
    · have hne : (c :: cs).take (lexeme c cs).2 ≠ [] := by
        have hpos := (lexeme_bounds c cs).1
        simp [Nat.ne_of_gt hpos]
      refine ⟨Nat.le_refl _, before, (c :: cs).drop (lexeme c cs).2, ?_, hoffset, ?_⟩
      · simp [cut]
      · simpa [cut] using hne
    · obtain ⟨hle, hpiece⟩ := hpieces t ht
      rw [List.append_assoc, List.take_append_drop] at hpiece
      exact ⟨by omega, hpiece⟩

/-- A token starts with a byte that is no blank. -/
theorem isBlank_encode (hc : ¬isBlank c = true) {b : Char} {bs : List Char}
    (h : encode (c :: cs) = b :: bs) : ¬isBlank b = true := by
  rcases encode_cons c cs with ⟨-, hcs⟩ | ⟨-, d, ds, hcs, hd, -⟩
  · rwa [(List.cons.inj (h.symm.trans hcs)).1]
  · rw [(List.cons.inj (h.symm.trans hcs)).1]
    intro hblank
    rcases eq_of_isBlank hblank with rfl | rfl | rfl | rfl <;> exact hd rfl

/-- As many steps as there are bytes are enough. -/
theorem Scans.spansFrom_eq (h : Scans offset cs ts) {steps : Nat}
    (hsteps : (encode cs).length ≤ steps) (done : List (Kind × Span)) :
    spansFrom steps offset done (encode cs) = done.reverse ++ ts.map fun t => (t.kind, t.span) := by
  induction h generalizing steps done with
  | nil =>
    rw [List.map_nil, List.append_nil]
    cases steps <;> rfl
  | @blank offset c cs ts hc _ ih =>
    have hone : c.utf8Size = 1 := by rcases eq_of_isBlank hc with rfl | rfl | rfl | rfl <;> rfl
    obtain ⟨-, hcs⟩ := (encode_cons c cs).resolve_right fun h => h.1 hone
    rw [hcs] at hsteps ⊢
    obtain ⟨steps, rfl⟩ := Nat.exists_eq_add_of_le' (Nat.le_trans (Nat.le_add_left 1 _) hsteps)
    rw [hone] at ih
    rw [spansFrom, if_pos hc]
    exact ih (Nat.le_of_succ_le_succ hsteps) done
  | @token offset c cs ts hc _ ih =>
    obtain ⟨b, bs, hcs, -⟩ := exists_encode_cons c cs
    have hpos := (lexeme_bounds c cs).1
    have hdrop := drop_encode (lexeme c cs).2 (c :: cs)
    have hstop := utf8Len_cut offset c cs
    have hlt : 0 < utf8Len ((c :: cs).take (lexeme c cs).2) := by
      obtain ⟨n, hn⟩ := Nat.exists_eq_succ_of_ne_zero (Nat.ne_of_gt hpos)
      rw [hn, List.take_succ_cons, String.utf8Len_cons]
      exact Nat.add_pos_right _ c.utf8Size_pos
    have hlength := congrArg List.length hdrop
    rw [List.length_drop] at hlength
    rw [hcs] at hsteps hdrop hlength ⊢
    obtain ⟨steps, rfl⟩ := Nat.exists_eq_add_of_le' (Nat.le_trans (Nat.le_add_left 1 _) hsteps)
    rw [List.length_cons] at hsteps hlength
    rw [spansFrom, if_neg (isBlank_encode hc hcs), lexemeBy_encode hcs]
    dsimp only
    rw [hdrop, ← hstop, ih (by omega), List.reverse_cons, List.append_assoc]
    rfl

/-- **Bytes and characters have the same tokens.** -/
theorem Scans.scan_eq (h : Scans 0 source.toList ts) :
    spans source = ts.map (fun t => (t.kind, t.span)) ∧ Token.scan source = ts := by
  have hspans : spans source = ts.map fun t => (t.kind, t.span) := by
    rw [spans, bytes_eq]
    exact h.spansFrom_eq (Nat.le_refl _) []
  refine ⟨hspans, ?_⟩
  have htext (t : Token) (ht : t ∈ ts) : (⟨t.kind, t.start, t.span.text source⟩ : Token) = t := by
    rw [((h.pieces [] rfl).1 t ht).2.text_span]
  rw [Token.scan, hspans, List.map_map]
  exact (List.map_congr_left htext).trans (List.map_id ts)

theorem Scans.scan (source : String) : Scans 0 source.toList (scan source) := by
  have hscans := Scans.scanText source.toList
  rwa [hscans.scan_eq.2]

/-- **The spelling of the tokens of a source.** -/
theorem spelled_of_mem_scan (h : t ∈ scan source) : Spelled t.kind t.text.toList := by
  rw [(Scans.scanText source.toList).scan_eq.2] at h
  exact spelled_of_mem_scanText h

theorem mem_scan_of_mem_withoutComments (h : t ∈ withoutComments (scan source)) :
    t ∈ scan source := List.mem_filter.1 h |>.1

/-- **A byte of a text belongs to a token or is a blank.** -/
theorem Scans.byte_cases (h : Scans offset cs ts) {i : Nat} {byte : UInt8}
    (hbyte : (octets cs)[i]? = some byte) :
    (∃ t ∈ ts, t.start ≤ offset + i ∧ offset + i < t.stop) ∨ byte ∈ [0x20, 0x09, 0x0d, 0x0a] := by
  induction h generalizing i with
  | nil => simp [octets] at hbyte
  | @blank offset c cs ts hc _ ih =>
    have hone : c.utf8Size = 1 ∧ c.val.toUInt8 ∈ [0x20, 0x09, 0x0d, 0x0a] := by
      rcases eq_of_isBlank hc with rfl | rfl | rfl | rfl <;> decide
    rw [octets, List.flatMap_cons, String.utf8EncodeChar_eq_singleton hone.1,
      List.singleton_append] at hbyte
    cases i with
    | zero =>
      grind
    | succ i =>
      have hrest := ih hbyte
      rwa [hone.1, Nat.add_assoc, Nat.add_comm 1 i] at hrest
  | @token offset c cs ts hc _ ih =>
    have hstop := utf8Len_cut offset c cs
    rcases Nat.lt_or_ge i (utf8Len ((c :: cs).take (lexeme c cs).2)) with hi | hi
    · exact .inl ⟨_, List.mem_cons_self, Nat.le_add_right _ _, by omega⟩
    · rw [← List.take_append_drop (lexeme c cs).2 (c :: cs), octets, List.flatMap_append,
        List.getElem?_append_right (by rwa [← octets, length_octets])] at hbyte
      rcases ih hbyte with ⟨t, ht, hstart, hend⟩ | hblank
      · rw [← octets, length_octets] at hstart hend
        exact .inl ⟨t, List.mem_cons_of_mem _ ht, by omega, by omega⟩
      · exact .inr hblank

/-- **The tokens of a source make it up**, and each has the span that was found in the bytes. -/
theorem scan_tiles (source : String) : Tiles source ((spans source).map Prod.snd) ∧
    (scan source).map (fun t => (t.kind, t.span)) = spans source := by
  have hscans := Scans.scan source
  obtain ⟨hpieces, hordered⟩ := hscans.pieces [] rfl
  have hpiece (t : Token) (ht : t ∈ scan source) : t.IsPiece source.toList := (hpieces t ht).2
  refine ⟨?_, hscans.scan_eq.1.symm⟩
  rw [hscans.scan_eq.1, List.map_map]
  refine ⟨?_, ?_, ?_, ?_, ?_, ?_⟩
  · exact List.forall_mem_map.2 fun t ht => (hpiece t ht).stop_le.1
  · exact List.pairwise_map.2 hordered
  · exact List.forall_mem_map.2 fun t ht => (hpiece t ht).stop_le.2
  · intro i hi
    have hbyte : (octets source.toList)[i]? = some source.toByteArray[i] := by
      rw [← data_toUTF8]
      exact List.getElem?_eq_getElem _
    rcases hscans.byte_cases hbyte with ⟨t, ht, hbounds⟩ | hblank
    · rw [Nat.zero_add] at hbounds
      exact .inl ⟨t.span, List.mem_map_of_mem ht, hbounds⟩
    · exact .inr hblank
  · exact List.forall_mem_map.2 fun t ht => (hpiece t ht).boundaries
  · refine List.forall_mem_map.2 fun t ht => ?_
    have htext : (Prod.snd ∘ fun t : Token => (t.kind, t.span)) t = t.span := rfl
    obtain ⟨-, -, -, -, hne⟩ := hpiece t ht
    rw [htext, (hpiece t ht).text_span]
    exact ⟨(hpiece t ht).extract_eq.symm, hne⟩

end Token

end Smalltalk
