/-
**Tokens do not depend on the layout.**

How much room there is between two tokens makes no difference: if the texts of the tokens of a source
are written one after the other, with one space in between, the result has the same tokens, but for
their places. In particular the text of a token, taken alone, is that token.

* `Token.spaced` — **the texts of some tokens** with one space in between;
* `Token.scan_spaced` — **the tokens of a source that is written anew**.
-/

import Smalltalk.Proofs.Tiling

namespace Smalltalk.Token

/-- A token without its place. -/
def spelling (t : Token) : Kind × String := (t.kind, t.text)

/-- **The texts of some tokens**, with one space in between. -/
def spaced (ts : List Token) : String := " ".intercalate (ts.map text)

variable {c : Char} {cs : List Char} {offset : Nat} {t : Token} {ts : List Token}

theorem toList_spaced_singleton (t : Token) : (spaced [t]).toList = t.text.toList := by
  simp [spaced]

theorem toList_spaced_cons (t u : Token) (ts : List Token) :
    (spaced (t :: u :: ts)).toList = t.text.toList ++ ' ' :: (spaced (u :: ts)).toList := by
  simp [spaced, String.toList_intercalate, List.intercalate]

/-- The characters of a token after the first one. -/
def tail (c : Char) (cs : List Char) : List Char := cs.take ((lexeme c cs).2 - 1)

theorem text_cut (offset : Nat) (c : Char) (cs : List Char) :
    (cut offset c cs).text.toList = c :: tail c cs := by
  obtain ⟨n, hn⟩ := Nat.exists_eq_succ_of_ne_zero (Nat.ne_of_gt (lexeme_bounds c cs).1)
  simp [cut, tail, hn]

/-- A token that is written anew, before something that makes no difference to it. -/
theorem cut_append (offset : Nat) {ds : List Char} (h : lexeme c (tail c cs ++ ds) = lexeme c cs)
    (start : Nat) :
    cut start c (tail c cs ++ ds) = { cut offset c cs with start := start } ∧
      (c :: (tail c cs ++ ds)).drop (lexeme c (tail c cs ++ ds)).2 = ds := by
  obtain ⟨hpos, hle, -⟩ := lexeme_bounds c cs
  have hlength : (c :: tail c cs).length = (lexeme c cs).2 := by
    simp only [tail, List.length_cons, List.length_take]
    omega
  have htext := text_cut offset c cs
  rw [h, ← List.cons_append, ← hlength, List.drop_left]
  refine ⟨?_, rfl⟩
  rw [cut, h, ← List.cons_append, ← hlength, List.take_left, ← htext, String.ofList_toList]
  rfl

/-- A space after a token makes no difference to it, if there was another token after it. -/
theorem lexeme_tail_append (h : Scans (cut offset c cs).stop ((c :: cs).drop (lexeme c cs).2) (t :: ts))
    (ds : List Char) : lexeme c (tail c cs ++ ' ' :: ds) = lexeme c cs := by
  obtain ⟨hopen, hne⟩ := h.closed_of_cons
  have htake : lexeme c (tail c cs) = lexeme c cs := lexeme_take c cs
  refine (lexeme_append rfl (by rwa [htake]) (fun hc => ?_) ds).trans htake
  subst hc
  obtain ⟨d, ds, rfl⟩ := List.exists_cons_of_ne_nil hne
  exact List.cons_ne_nil d []

/-- **The tokens of a text that is written anew.** -/
theorem Scans.spaced (h : Scans offset cs ts) (start : Nat) : ∃ us,
    Scans start (spaced ts).toList us ∧ us.map spelling = ts.map spelling := by
  induction h generalizing start with
  | nil => exact ⟨[], .nil, rfl⟩
  | blank hc _ ih => exact ih start
  | @token offset c cs ts hc hrest ih =>
    -- What follows the token is a space and the other tokens, or nothing at all.
    obtain ⟨ds, hds, hlexeme, hus⟩ : ∃ ds, (Token.spaced (cut offset c cs :: ts)).toList =
        c :: (tail c cs ++ ds) ∧ lexeme c (tail c cs ++ ds) = lexeme c cs ∧
        ∀ start, ∃ us, Scans start ds us ∧ us.map spelling = ts.map spelling := by
      cases ts with
      | nil =>
        refine ⟨[], ?_, ?_, fun _ => ⟨[], .nil, rfl⟩⟩
        · rw [toList_spaced_singleton, text_cut, List.append_nil]
        · rw [List.append_nil]
          exact lexeme_take c cs
      | cons t ts =>
        refine ⟨' ' :: (Token.spaced (t :: ts)).toList, ?_, lexeme_tail_append hrest _, ?_⟩
        · rw [toList_spaced_cons, text_cut, List.cons_append]
        · intro start
          obtain ⟨us, hus, hspelling⟩ := ih (start + ' '.utf8Size)
          exact ⟨us, .blank rfl hus, hspelling⟩
    obtain ⟨hcut, hdrop⟩ := cut_append offset hlexeme start
    obtain ⟨us, hus, hspelling⟩ := hus (cut start c (tail c cs ++ ds)).stop
    rw [hds]
    refine ⟨_ :: us, .token hc (by rwa [hdrop]), ?_⟩
    rw [List.map_cons, List.map_cons, hspelling, hcut]
    rfl

/-- A token can stand alone. -/
theorem Scans.scan_text (h : Scans offset cs ts) :
    ∀ t ∈ ts, Token.scan t.text = [{ t with start := 0 }] := by
  induction h with
  | nil => exact nofun
  | blank _ _ ih => exact ih
  | @token offset c cs ts hc _ ih =>
    intro t ht
    rcases List.mem_cons.1 ht with rfl | ht
    · have hlexeme : lexeme c (tail c cs ++ []) = lexeme c cs := by
        rw [List.append_nil]
        exact lexeme_take c cs
      obtain ⟨hcut, hdrop⟩ := cut_append offset hlexeme 0
      rw [List.append_nil] at hcut hdrop
      have hscans : Scans 0 (c :: tail c cs) [{ cut offset c cs with start := 0 }] := by
        rw [← hcut]
        exact .token hc (by rw [hdrop]; exact .nil)
      rw [← text_cut offset] at hscans
      exact hscans.scan_eq.2
    · exact ih t ht

/-- **The tokens of a source do not depend on its layout**, and each of them can stand alone. -/
theorem scan_spaced (source : String) :
    (scan (spaced (scan source))).map spelling = (scan source).map spelling ∧
      ∀ t ∈ scan source, scan t.text = [{ t with start := 0 }] := by
  obtain ⟨us, hus, hspelling⟩ := (Scans.scan source).spaced 0
  refine ⟨?_, (Scans.scan source).scan_text⟩
  rw [hus.scan_eq.2]
  exact hspelling

end Smalltalk.Token
