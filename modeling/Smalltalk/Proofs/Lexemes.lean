/-
**What the tokens of a source look like.**

A text can be cut into tokens character by character, where each character has the length one. Every
token has been cut off the front of a text, with the kind and the length that the characters there
settle. So what holds of each such piece holds of all tokens: identifiers consist of letters and
digits, a keyword has a colon at its end and nowhere else, an operator consists of operator
characters, a string has its quotes doubled, and no token stands for the end of the file.

* `Token.lexeme` — the kind and the number of characters of a token;
* `Token.scanText` — **the tokens of a text**, read character by character;
* `Token.spelled_of_mem_scanText` — **the spelling of the tokens of a text**.
-/

import Smalltalk.Token.Scan
import Mathlib.Data.List.TakeWhile

namespace Smalltalk.Token

/-! ### Tokens as pieces of a text -/

variable {t : Token} {p : Prop} {kind : Kind} {text : List Char}

/-- The kind and the number of characters of the token at the front of a text. -/
def lexeme (c : Char) (cs : List Char) : Kind × Nat := lexemeBy (fun _ => 1) c cs

/-- The tokens of a text that starts at an offset, after those already read. -/
def scanFrom (steps offset : Nat) (done : List Token) (cs : List Char) : List Token :=
  match steps, cs with
  | 0, _ | _, [] => done.reverse
  | steps + 1, c :: cs =>
    if isBlank c then scanFrom steps (offset + c.utf8Size) done cs
    else
      let (kind, length) := lexeme c cs
      let (text, rest) := (c :: cs).splitAt length
      let token : Token := ⟨kind, offset, String.ofList text⟩
      scanFrom steps token.stop (token :: done) rest

/-- **The tokens of a text**, read character by character. -/
def scanText (cs : List Char) : List Token := scanFrom cs.length 0 [] cs

/-- The token at the front of a text. -/
def cut (offset : Nat) (c : Char) (cs : List Char) : Token :=
  ⟨(lexeme c cs).1, offset, String.ofList ((c :: cs).take (lexeme c cs).2)⟩

theorem scanFrom_of_not_blank {c : Char} (h : ¬isBlank c = true) (steps offset : Nat)
    (done : List Token) (cs : List Char) :
    scanFrom (steps + 1) offset done (c :: cs) =
      scanFrom steps (cut offset c cs).stop (cut offset c cs :: done)
        ((c :: cs).drop (lexeme c cs).2) := by
  rw [scanFrom, if_neg h]
  simp only [List.splitAt_eq]
  rfl

theorem forall_mem_scanFrom {P : Token → Prop} (hP : ∀ offset c cs, P (cut offset c cs))
    (steps offset : Nat) (done : List Token) (cs : List Char) (hdone : ∀ t ∈ done, P t) :
    ∀ t ∈ scanFrom steps offset done cs, P t := by
  induction steps generalizing offset done cs with
  | zero =>
    intro t ht
    rw [scanFrom] at ht
    exact hdone t (List.mem_reverse.1 ht)
  | succ steps ih =>
    cases cs with
    | nil =>
      intro t ht
      rw [scanFrom.eq_2 _ _ _ (by simp)] at ht
      exact hdone t (List.mem_reverse.1 ht)
    | cons c cs =>
      by_cases hblank : isBlank c = true
      · rw [scanFrom, if_pos hblank]
        exact ih _ _ _ hdone
      · rw [scanFrom_of_not_blank hblank]
        grind

/-! ### Spelling -/

/-- How a character of a string is written. -/
def double (c : Char) : List Char := if c = '\'' then [c, c] else [c]

/-- How the tokens of a kind are spelled. -/
def Spelled : Kind → List Char → Prop
  | .identifier, cs => ∀ c ∈ cs, isWordChar c = true
  | .keyword, cs => ∃ word, cs = word ++ [':'] ∧ ∀ c ∈ word, isWordChar c = true
  | .operator, cs => cs ≠ [] ∧ ∀ c ∈ cs, isOperator c = true
  | .string, cs => ∃ value : List Char, cs = '\'' :: (value.flatMap double ++ ['\''])
  | .endOfFile, _ => False
  | _, _ => True

theorem take_runLength (p : Char → Bool) (cs : List Char) :
    cs.take (runLength p cs) = cs.takeWhile p := by
  rw [runLength]
  exact (List.prefix_iff_eq_take.1 (List.takeWhile_prefix p)).symm

theorem spelled_comment (cs text : List Char) : Spelled (commentLexeme cs).1 text := by
  rw [commentLexeme]
  split <;> trivial

/-- A string goes on up to a quote that is not doubled. -/
theorem stringLexeme_cases (n : Nat) (cs : List Char) :
    (stringLexeme n cs).1 = .unterminatedString ∨
      ∃ value rest : List Char, cs = value.flatMap double ++ '\'' :: rest ∧
        stringLexeme n cs = (.string, n + (value.flatMap double).length + 1) := by
  fun_induction stringLexeme n cs with
  | case1 => exact .inl rfl
  | case2 n cs ih =>
    refine ih.imp_right fun ⟨value, rest, hcs, hlexeme⟩ => ⟨'\'' :: value, rest, ?_, ?_⟩
    · rw [hcs]
      rfl
    · rw [hlexeme, List.flatMap_cons, List.length_append]
      exact congrArg (Prod.mk _) (by simp [double]; omega)
  | case3 n cs _ => exact .inr ⟨[], cs, rfl, rfl⟩
  | case4 n c cs _ hquote ih =>
    refine ih.imp_right fun ⟨value, rest, hcs, hlexeme⟩ => ⟨c :: value, rest, ?_, ?_⟩
    · rw [hcs, List.flatMap_cons, double, if_neg hquote]
      rfl
    · rw [hlexeme, List.flatMap_cons, List.length_append, double, if_neg hquote]
      exact congrArg (Prod.mk _) (by simp; omega)

theorem spelled_symbol (cs text : List Char) : Spelled (symbolLexeme cs).1 text := by
  unfold symbolLexeme
  split
  · trivial
  · split
    · trivial
    · split <;> trivial

theorem spelled_ite [Decidable p] {kind' : Kind} (h : Spelled kind text) (h' : Spelled kind' text) :
    Spelled (if p then kind else kind') text := by
  grind

theorem spelled_wordKind {word : List Char} (h : ∀ c ∈ word, isWordChar c = true) :
    Spelled (wordKind word) word := by
  unfold wordKind
  repeat refine spelled_ite trivial ?_
  exact h

theorem spelled_word (cs : List Char) : Spelled (wordLexeme cs).1 (cs.take (wordLexeme cs).2) := by
  have hword : ∀ c ∈ cs.takeWhile isWordChar, isWordChar c = true :=
    fun c hc => List.mem_takeWhile_imp hc
  have htake := take_runLength isWordChar cs
  rw [runLength] at htake
  rw [wordLexeme]
  split
  next rest hdrop =>
    split
    · rw [htake]
      exact spelled_wordKind hword
    · refine ⟨cs.takeWhile isWordChar, ?_, hword⟩
      rw [List.take_add, htake, hdrop]
      rfl
  next =>
    rw [htake]
    exact spelled_wordKind hword

theorem spelled_of_ite [Decidable p] {rest : Option Kind} (h : Spelled kind text)
    (hrest : ∀ k, rest = some k → Spelled k text) :
    ∀ k, (if p then some kind else rest) = some k → Spelled k text := by
  grind

theorem spelled_punctuation (c : Char) (text : List Char) :
    ∀ kind, punctuation? c = some kind → Spelled kind text := by
  unfold punctuation?
  repeat refine spelled_of_ite trivial ?_
  intro kind h
  cases h

theorem spelled_lexeme (c : Char) (cs : List Char) :
    Spelled (lexeme c cs).1 ((c :: cs).take (lexeme c cs).2) := by
  rw [lexeme, lexemeBy]
  by_cases hcomment : c = '"'
  · rw [if_pos hcomment]
    exact spelled_comment cs _
  rw [if_neg hcomment]
  by_cases hstring : c = '\''
  · rw [if_pos hstring, hstring]
    rcases stringLexeme_cases 1 cs with hopen | ⟨value, rest, rfl, hlexeme⟩
    · rw [hopen]
      trivial
    · refine hlexeme ▸ ⟨value, ?_⟩
      rw [Nat.add_assoc, Nat.add_comm 1, List.take_succ_cons, List.take_length_add_append]
      rfl
  rw [if_neg hstring]
  by_cases hcharacter : c = '$'
  · rw [if_pos hcharacter]
    cases cs <;> trivial
  rw [if_neg hcharacter]
  by_cases hsymbol : c = '#'
  · rw [if_pos hsymbol]
    exact spelled_symbol cs _
  rw [if_neg hsymbol]
  by_cases hdigit : isDigit c = true
  · rw [if_pos hdigit]
    trivial
  rw [if_neg hdigit]
  by_cases hletter : isLetter c = true
  · rw [if_pos hletter]
    exact spelled_word (c :: cs)
  rw [if_neg hletter]
  by_cases hcolon : c = ':'
  · rw [if_pos hcolon]
    by_cases hassign : cs.head? = some '='
    · rw [if_pos hassign]
      trivial
    · rw [if_neg hassign]
      trivial
  rw [if_neg hcolon]
  by_cases hoperator : isOperator c = true
  · rw [if_pos hoperator, take_runLength]
    refine ⟨?_, fun d hd => List.mem_takeWhile_imp hd⟩
    rw [List.takeWhile_cons, if_pos hoperator]
    exact List.cons_ne_nil _ _
  rw [if_neg hoperator]
  cases hpunctuation : punctuation? c with
  | some kind => exact spelled_punctuation c _ kind hpunctuation
  | none => trivial

/-- **The spelling of the tokens of a text.** -/
theorem spelled_of_mem_scanText (h : t ∈ scanText text) : Spelled t.kind t.text.toList := by
  refine forall_mem_scanFrom (P := fun t => Spelled t.kind t.text.toList) ?_ _ _ _ _
    (fun _ h => absurd h List.not_mem_nil) t h
  intro offset c cs
  rw [cut, String.toList_ofList]
  exact spelled_lexeme c cs

end Smalltalk.Token
