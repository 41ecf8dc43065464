/-
**Strings are read as they are written.**

The scanner takes quotes in pairs until one is left over, and the value of a string is found by
reading pairs of quotes from left to right. Both split a run of quotes in the same way, wherever it
stands, so that every string has one written form and every string token is the written form of its
value.

* `Quote.strings_round_trip` — **strings are read as they are written**.
-/

import Smalltalk.Proofs.Parsing
import Smalltalk.Proofs.Tiling

namespace Smalltalk.Quote

open Token (double)

theorem encode_eq (done cs : List Char) :
    encode done cs = done.reverse ++ cs.flatMap double := by
  fun_induction encode done cs with
  | case1 done => simp
  | case2 done cs ih => simp [ih, double]
  | case3 done c cs h ih => simp [ih, double, if_neg h]

theorem decode_eq (done cs : List Char) :
    decode done (cs.flatMap double) = done.reverse ++ cs := by
  induction cs generalizing done with
  | nil => simp [decode]
  | cons c cs ih =>
    rw [List.flatMap_cons, double]
    split
    next h =>
      rw [h, List.cons_append, List.singleton_append, decode, ih]
      simp
    next h =>
      rw [List.singleton_append, decode, ih]
      · simp
      · exact fun _ hc _ => h hc

theorem toList_write (s : String) :
    (write s).toList = '\'' :: (s.toList.flatMap double ++ ['\'']) := by
  rw [write, String.toList_ofList, encode_eq]
  rfl

/-- What stands between the quotes is the value. -/
theorem read_of_eq {text value : String}
    (h : text.toList = '\'' :: (value.toList.flatMap double ++ ['\''])) : read text = value := by
  rw [read, h, List.drop_one, List.tail_cons, List.dropLast_concat, decode_eq]
  exact String.ofList_toList

/-- **The written form of a string is read as the string.** -/
theorem read_write (s : String) : read (write s) = s := read_of_eq (toList_write s)

/-- A string is closed by the quote after its characters. -/
theorem stringLexeme_double (n : Nat) (cs : List Char) :
    Token.stringLexeme n (cs.flatMap double ++ ['\'']) =
      (.string, n + (cs.flatMap double).length + 1) := by
  induction cs generalizing n with
  | nil => rfl
  | cons c cs ih =>
    rw [List.flatMap_cons, double]
    split
    next h =>
      rw [h, List.append_assoc, List.cons_append, List.singleton_append, Token.stringLexeme, ih]
      simp only [List.length_append, List.length_cons, List.length_nil]
      exact congrArg (Prod.mk _) (by omega)
    next h =>
      rw [List.append_assoc, List.singleton_append, Token.stringLexeme, ih]
      · simp only [List.length_append, List.length_cons, List.length_nil]
        exact congrArg (Prod.mk _) (by omega)
      · exact fun _ hc _ => h hc
      · exact h

/-- **The written form of a string is one token.** -/
theorem scan_write (s : String) : Token.scan (write s) = [⟨.string, 0, write s⟩] := by
  have hlexeme : Token.lexeme '\'' (s.toList.flatMap double ++ ['\'']) =
      (.string, (write s).toList.length) := by
    rw [toList_write, List.length_cons, List.length_append, Nat.add_comm _ 1, ← Nat.add_assoc]
    exact stringLexeme_double 1 s.toList
  have hcut : Token.cut 0 '\'' (s.toList.flatMap double ++ ['\'']) = ⟨.string, 0, write s⟩ := by
    rw [Token.cut, hlexeme, ← toList_write, List.take_length, String.ofList_toList]
  have hscans : Token.Scans 0 (write s).toList [⟨.string, 0, write s⟩] := by
    rw [← hcut, toList_write]
    refine .token (by decide) ?_
    rw [hlexeme, ← toList_write, List.drop_length]
    exact .nil
  exact hscans.scan_eq.2

/-- **Strings are read as they are written.**  The written form of a string is one token, and the
program that consists of it is one expression, the string. And every string token of a source is the
written form of its value. -/
theorem strings_round_trip :
    (∀ s, Token.scan (write s) = [⟨.string, 0, write s⟩] ∧
      (Program.parse (write s)).isValid = true ∧ (Program.parse (write s)).classes = [] ∧
      (Program.parse (write s)).main = ⟨[], [.expression
        (.literal ⟨.string, 0, write s⟩ ⟨.string, 0, write s⟩ (.string s))]⟩) ∧
    ∀ source, ∀ t ∈ Token.scan source, t.kind = .string → write (read t.text) = t.text := by
  constructor
  · intro s
    have hatom : Grammar.Atom ⟨.string, 0, write s⟩ (.string s) := by
      have h := Grammar.Atom.string (t := ⟨.string, 0, write s⟩) rfl
      rwa [read_write] at h
    have hfile : Grammar.File [⟨.string, 0, write s⟩] [] ⟨[], [.expression
        (.literal ⟨.string, 0, write s⟩ ⟨.string, 0, write s⟩ (.string s))]⟩ :=
      .mk .nil (.mk .none (.last .nil (.expression (.binary (.unary (.primary (.literal hatom)))))))
    have htokens : Token.withoutComments (Token.scan (write s)) = [⟨.string, 0, write s⟩] := by
      rw [scan_write]
      rfl
    refine ⟨scan_write s, ?_⟩
    rw [Program.parse, htokens]
    exact (Program.ofTokens_iff_file (fun t ht => by rwa [scan_write]) _ _).1 hfile
  · intro source t ht hkind
    have hspelled := Token.spelled_of_mem_scan ht
    rw [hkind] at hspelled
    obtain ⟨value, hvalue⟩ := hspelled
    have hread : read t.text = String.ofList value :=
      read_of_eq (by rw [hvalue, String.toList_ofList])
    rw [← String.toList_inj, toList_write, hread, String.toList_ofList, hvalue]

end Smalltalk.Quote
