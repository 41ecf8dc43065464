/-
**Colours leave the text alone.**

A line in colours is put together from its tokens and as many spaces as there are bytes between
them. As the tokens make up the line, nothing but blanks is replaced, and every token stays where
it was.

* `StyledText.escaped` — **only escape sequences are put in**;
* `highlight_recolours` — **a line in colours is the line**, up to blanks.
-/

import Smalltalk.Proofs.Tiling
import Smalltalk.Report.Highlight

namespace Smalltalk

open String (utf8Len)

variable {cs ds : List Char} {ts : List Token}

/-! ### Escape sequences -/

/-- The second text is the first one with escape sequences put into it. -/
inductive Escaped : List Char → List Char → Prop
  | nil : Escaped [] []
  | char (c : Char) {cs ds : List Char} (h : Escaped cs ds) : Escaped (c :: cs) (c :: ds)
  | escape (n : Nat) {cs ds : List Char} (h : Escaped cs ds) :
      Escaped cs ((Style.escape n).toList ++ ds)

theorem Escaped.text (h : Escaped cs ds) (text : List Char) :
    Escaped (text ++ cs) (text ++ ds) := by
  induction text with
  | nil => exact h
  | cons c text ih => exact .char c ih

theorem Escaped.codes (h : Escaped cs ds) (numbers : List Nat) :
    Escaped cs ((numbers.map Style.escape).flatMap String.toList ++ ds) := by
  induction numbers with
  | nil => exact h
  | cons n numbers ih =>
    rw [List.map_cons, List.flatMap_cons, List.append_assoc]
    exact .escape n ih

namespace StyledText

theorem toList_plain (t : StyledText) : t.plain.toList = t.flatMap fun piece => piece.2.toList := by
  rw [plain, ← List.foldl_map, ← String.join, String.toList_join, List.flatMap_map]

theorem toList_coloured (t : StyledText) :
    t.coloured.toList = t.flatMap fun piece => (piece.1.wrap piece.2).toList := by
  rw [coloured, ← List.foldl_map, ← String.join, String.toList_join, List.flatMap_map]

/-- **Only escape sequences are put in.** -/
theorem escaped (t : StyledText) : Escaped t.plain.toList t.coloured.toList := by
  rw [toList_plain, toList_coloured]
  induction t with
  | nil => exact .nil
  | cons piece t ih =>
    have h := ((ih.codes piece.1.codes.2).text piece.2.toList).codes piece.1.codes.1
    simpa [Style.wrap, Style.pieces] using h

end StyledText

/-! ### Tokens with gaps between them -/

theorem toList_blanks (n : Nat) : (blanks n).toList = List.replicate n ' ' := by
  induction n with
  | zero => rfl
  | succ n ih =>
    rw [List.replicate_succ', ← ih]
    exact String.toList_push ..

theorem utf8Len_spaces (n : Nat) : utf8Len (List.replicate n ' ') = n := by
  induction n with
  | zero => rfl
  | succ n ih => rw [List.replicate_succ, String.utf8Len_cons, ih]; rfl

namespace Token

/-- The texts of some tokens, with a gap in front of each. -/
def laid : List (List Char) → List Token → List Char
  | gap :: gaps, t :: ts => gap ++ (t.text.toList ++ laid gaps ts)
  | _, _ => []

/-- What is shown of some tokens behind a position. -/
def shown (position : Nat) : List Token → List Char
  | [] => []
  | t :: ts => List.replicate (t.start - position) ' ' ++ (t.text.toList ++ shown t.stop ts)

theorem toList_plain_highlightFrom {line : String} (h : ∀ t ∈ ts, t.span.text line = t.text)
    (position : Nat) (found : StyledText) :
    (StyledText.plain (highlightFrom line position found ts)).toList
      = (StyledText.plain found.reverse).toList ++ shown position ts := by
  induction ts generalizing position found with
  | nil => rw [highlightFrom, shown, List.append_nil]
  | cons t ts ih =>
    obtain ⟨ht, hts⟩ := List.forall_mem_cons.1 h
    rw [highlightFrom, ih hts, shown, StyledText.toList_plain, StyledText.toList_plain, ht]
    simp [toList_blanks]

/-- **A text consists of its tokens**, with blanks between them and at the end. What is shown of it
has spaces in the gaps, as many as there are bytes. -/
theorem Scans.gaps {offset : Nat} (h : Scans offset cs ts) :
    ∃ gaps rest, gaps.length = ts.length ∧ (∀ c ∈ gaps.flatten ++ rest, isBlank c = true) ∧
      cs = laid gaps ts ++ rest ∧
      shown offset ts = laid (gaps.map fun gap => List.replicate (utf8Len gap) ' ') ts := by
  induction h with
  | nil => exact ⟨[], [], rfl, nofun, rfl, rfl⟩
  | @blank offset c cs ts hc h ih =>
    obtain ⟨gaps, rest, hlength, hblank, hcs, hshown⟩ := ih
    cases ts with
    | nil =>
      obtain rfl := List.length_eq_zero_iff.1 hlength
      exact ⟨[], c :: rest, rfl, List.forall_mem_cons.2 ⟨hc, hblank⟩, congrArg (c :: ·) hcs, rfl⟩
    | cons t ts =>
      obtain ⟨gap, gaps, rfl⟩ := List.exists_cons_of_length_eq_add_one hlength
      have hstart := ((h.pieces _ (utf8Len_spaces _).symm).1 t List.mem_cons_self).1
      have hgap : t.start - offset = c.utf8Size + (t.start - (offset + c.utf8Size)) := by omega
      refine ⟨(c :: gap) :: gaps, rest, hlength, List.forall_mem_cons.2 ⟨hc, hblank⟩,
        congrArg (c :: ·) hcs, ?_⟩
      rw [shown, List.map_cons, laid] at hshown ⊢
      rw [hgap, String.utf8Len_cons, Nat.add_comm (utf8Len gap), List.replicate_add,
        List.replicate_add, List.append_assoc, List.append_assoc, hshown]
  | @token offset c cs ts hc _ ih =>
    obtain ⟨gaps, rest, hlength, hblank, hcs, hshown⟩ := ih
    refine ⟨[] :: gaps, rest, by simp [hlength], hblank, ?_, ?_⟩
    · rw [laid, List.nil_append, List.append_assoc, ← hcs]
      simp [cut]
    · rw [shown, hshown]
      simp [cut, laid]

/-- What is shown has every token at its place. -/
theorem isPiece_shown (hordered : ts.Pairwise fun t u => t.stop ≤ u.start) (before : List Char)
    (hstart : ∀ t ∈ ts, utf8Len before ≤ t.start) {t : Token} (ht : t ∈ ts) (hne : t.text ≠ "") :
    t.IsPiece (before ++ shown (utf8Len before) ts) := by
  induction ts generalizing before with
  | nil => cases ht
  | cons u ts ih =>
    obtain ⟨hu, hordered⟩ := List.pairwise_cons.1 hordered
    have hle := hstart u List.mem_cons_self
    have hgap : utf8Len (before ++ List.replicate (u.start - utf8Len before) ' ') = u.start := by
      rw [String.utf8Len_append, utf8Len_spaces]
      omega
    rw [shown, ← List.append_assoc]
    rcases List.mem_cons.1 ht with rfl | ht
    · exact ⟨_, _, rfl, hgap.symm, hne⟩
    · have hstop : utf8Len (before ++ List.replicate (u.start - utf8Len before) ' '
          ++ u.text.toList) = u.stop := by
        rw [String.utf8Len_append, hgap, String.utf8Len_toList, stop, length]
      rw [← List.append_assoc, ← hstop]
      exact ih hordered _ (hstop ▸ hu) ht

end Token

/-- **A line in colours is the line**, up to blanks: with the escape sequences left off it consists
of the tokens of the line, each at its place, and a space for each byte in front of a token that
belongs to none. -/
theorem highlight_recolours (line : String) :
    (∃ gaps rest, gaps.length = (Token.scan line).length ∧
      (∀ c ∈ gaps.flatten ++ rest, Token.isBlank c = true) ∧
      line.toList = Token.laid gaps (Token.scan line) ++ rest ∧
      (highlight line).plain.toList = Token.laid
        (gaps.map fun gap => List.replicate (utf8Len gap) ' ') (Token.scan line)) ∧
    (∀ t ∈ Token.scan line, t.IsPiece line.toList ∧ t.IsPiece (highlight line).plain.toList) ∧
    Escaped (highlight line).plain.toList (highlight line).coloured.toList := by
  have hscans := Token.Scans.scan line
  obtain ⟨hpieces, hordered⟩ := hscans.pieces [] rfl
  have hplain : (highlight line).plain.toList = Token.shown 0 (Token.scan line) :=
    Token.toList_plain_highlightFrom (fun t ht => (hpieces t ht).2.text_span) 0 []
  refine ⟨?_, fun t ht => ⟨(hpieces t ht).2, ?_⟩, StyledText.escaped _⟩
  · rw [hplain]
    exact hscans.gaps
  · obtain ⟨-, -, -, -, hne⟩ := (hpieces t ht).2
    rw [hplain]
    exact Token.isPiece_shown hordered [] (fun t _ => Nat.zero_le t.start) ht hne

end Smalltalk
