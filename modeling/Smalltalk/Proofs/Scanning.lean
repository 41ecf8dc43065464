/-
**How a text is cut into tokens.**

A token takes at least one character and no more than there are. Where it ends is settled by what
it is made of: the characters of the token alone, with nothing behind them, are cut in the same way,
and a blank ends every token that a text can end with, save for a string or a comment that is not
closed and a dollar sign that stands alone.

* `Token.Scans` — **the tokens of a text**, without steps to count;
* `Token.lexeme_append` — **a blank ends a token**;
* `Token.lexeme_take` — **a token does not depend on what follows it**.
-/

import Smalltalk.Proofs.Lexemes

namespace Smalltalk.Token

/-! ### How long tokens are -/

variable {c : Char} {p : Char → Bool}

theorem runLength_le (p : Char → Bool) (cs : List Char) : runLength p cs ≤ cs.length :=
  (List.takeWhile_prefix p).length_le

theorem runLength_pos (h : p c = true) (cs : List Char) : 0 < runLength p (c :: cs) := by
  rw [runLength, List.takeWhile_cons_of_pos h]
  exact Nat.succ_pos _

/-- Is it a string or a comment that is not closed? -/
def Kind.isOpen : Kind → Bool
  | .unterminatedString | .unterminatedComment => true
  | _ => false

theorem stringLexeme_bounds (n : Nat) (cs : List Char) :
    n ≤ (stringLexeme n cs).2 ∧ (stringLexeme n cs).2 ≤ n + cs.length ∧
      ((stringLexeme n cs).1.isOpen = true → (stringLexeme n cs).2 = n + cs.length) := by
  fun_induction stringLexeme n cs with
  | case1 n => exact ⟨Nat.le_refl _, Nat.le_refl _, fun _ => rfl⟩
  | case2 n cs ih | case4 n c cs _ _ ih =>
    grind
  | case3 n cs _ =>
    simp only [List.length_cons]
    exact ⟨by omega, by omega, fun h => by cases h⟩

theorem symbolLexeme_bounds (cs : List Char) :
    0 < (symbolLexeme cs).2 ∧ (symbolLexeme cs).2 ≤ cs.length + 1 ∧
      (symbolLexeme cs).1.isOpen = false := by
  unfold symbolLexeme
  split
  · exact ⟨Nat.one_pos, Nat.le_refl _, rfl⟩
  · split
    · exact ⟨Nat.succ_pos _, Nat.succ_le_succ (runLength_le _ _), rfl⟩
    · split
      · exact ⟨Nat.succ_pos _, Nat.succ_le_succ (runLength_le _ _), rfl⟩
      · exact ⟨Nat.one_pos, Nat.succ_pos _, rfl⟩

theorem numberLength_bounds (h : isDigit c = true) (cs : List Char) :
    0 < numberLength (c :: cs) ∧ numberLength (c :: cs) ≤ cs.length + 1 := by
  have hpos := runLength_pos h cs
  have hle := runLength_le isDigit (c :: cs)
  rw [List.length_cons] at hle
  rw [numberLength]
  split
  next rest hdrop =>
    have hlength := congrArg List.length hdrop
    rw [List.length_drop, List.length_cons, List.length_cons] at hlength
    have hrest := runLength_le isDigit rest
    dsimp only
    split <;> omega
  next => exact ⟨hpos, hle⟩

theorem isOpen_wordKind (word : List Char) : (wordKind word).isOpen = false := by
  unfold wordKind
  repeat' split
  all_goals rfl

theorem wordLexeme_bounds (h : isWordChar c = true) (cs : List Char) :
    0 < (wordLexeme (c :: cs)).2 ∧ (wordLexeme (c :: cs)).2 ≤ cs.length + 1 ∧
      (wordLexeme (c :: cs)).1.isOpen = false := by
  have hpos : 0 < ((c :: cs).takeWhile isWordChar).length := runLength_pos h cs
  have hle : ((c :: cs).takeWhile isWordChar).length ≤ cs.length + 1 := runLength_le isWordChar _
  rw [wordLexeme]
  split
  next rest hdrop =>
    have hlength := congrArg List.length hdrop
    rw [List.length_drop, List.length_cons, List.length_cons] at hlength
    split
    · exact ⟨hpos, hle, isOpen_wordKind _⟩
    · exact ⟨Nat.succ_pos _, by dsimp only; omega, rfl⟩
  next => exact ⟨hpos, hle, isOpen_wordKind _⟩

theorem isOpen_punctuation {kind : Kind} (h : punctuation? c = some kind) :
    kind.isOpen = false := by
  unfold punctuation? at h
  split_ifs at h <;> cases h <;> rfl

/-- **A token has a character at least**, and no more than there are; one that is not closed takes
them all. -/
theorem lexeme_bounds (c : Char) (cs : List Char) :
    0 < (lexeme c cs).2 ∧ (lexeme c cs).2 ≤ cs.length + 1 ∧
      ((lexeme c cs).1.isOpen = true → (lexeme c cs).2 = cs.length + 1) := by
  have hclosed {kind : Kind} {length : Nat}
      (h : 0 < length ∧ length ≤ cs.length + 1 ∧ kind.isOpen = false) :
      0 < length ∧ length ≤ cs.length + 1 ∧ (kind.isOpen = true → length = cs.length + 1) :=
    ⟨h.1, h.2.1, fun hopen => by rw [h.2.2] at hopen; cases hopen⟩
  unfold lexeme lexemeBy
  split
  · rw [commentLexeme]
    split
    next n hn =>
        obtain ⟨hlt, -⟩ := List.findIdx?_eq_some_iff_getElem.1 hn
        exact hclosed ⟨Nat.succ_pos _, by omega, rfl⟩
    next => exact ⟨Nat.succ_pos _, Nat.le_refl _, fun _ => rfl⟩
  split
  · obtain ⟨hlow, hhigh, hopen⟩ := stringLexeme_bounds 1 cs
    exact ⟨hlow, by omega, fun h => by rw [hopen h]; omega⟩
  split
  · cases cs with
    | nil => exact hclosed ⟨Nat.one_pos, Nat.le_refl _, rfl⟩
    | cons d ds => exact hclosed ⟨Nat.two_pos, Nat.succ_le_succ (Nat.succ_pos _), rfl⟩
  split
  · exact hclosed (symbolLexeme_bounds cs)
  split
  next hdigit =>
    obtain ⟨hpos, hle⟩ := numberLength_bounds hdigit cs
    exact hclosed ⟨hpos, hle, rfl⟩
  split
  next hletter =>
    refine hclosed (wordLexeme_bounds ?_ cs)
    rw [isWordChar, hletter, Bool.true_or]
  split
  · cases cs with
    | nil => exact hclosed ⟨Nat.one_pos, Nat.le_refl _, rfl⟩
    | cons d ds =>
      split
      · exact hclosed ⟨Nat.two_pos, Nat.succ_le_succ (Nat.succ_pos _), rfl⟩
      · exact hclosed ⟨Nat.one_pos, Nat.succ_pos _, rfl⟩
  split
  next hoperator =>
    exact hclosed ⟨runLength_pos hoperator cs, runLength_le isOperator _, rfl⟩
  split
  next kind hkind => exact hclosed ⟨Nat.one_pos, Nat.succ_pos _, isOpen_punctuation hkind⟩
  next => exact hclosed ⟨Nat.one_pos, Nat.succ_pos _, rfl⟩

/-! ### A blank ends a token -/

variable {cs : List Char} {b : Char}

theorem eq_of_isBlank (h : isBlank b = true) : b = ' ' ∨ b = '\r' ∨ b = '\t' ∨ b = '\n' := by
  simpa [isBlank, or_assoc] using h

/-- A blank belongs to no run of characters. -/
theorem not_of_isBlank (h : isBlank b = true) : isDigit b = false ∧ isWordChar b = false ∧
    isOperator b = false ∧ (isWordChar b || b = ':') = false := by
  rcases eq_of_isBlank h with rfl | rfl | rfl | rfl <;> decide

theorem takeWhile_append_blank (hp : p b = false) (cs ds : List Char) :
    (cs ++ b :: ds).takeWhile p = cs.takeWhile p := by
  induction cs with
  | nil => simp [hp]
  | cons c cs ih => rw [List.cons_append, List.takeWhile_cons, List.takeWhile_cons, ih]

theorem runLength_append (hp : p b = false) (cs ds : List Char) :
    runLength p (cs ++ b :: ds) = runLength p cs := by
  rw [runLength, runLength, takeWhile_append_blank hp]

theorem commentLexeme_append (h : (commentLexeme cs).1.isOpen = false) (ds : List Char) :
    commentLexeme (cs ++ ds) = commentLexeme cs := by
  unfold commentLexeme at h ⊢
  rw [List.findIdx?_append]
  cases hfind : cs.findIdx? (· = '"') with
  | none =>
    rw [hfind] at h
    cases h
  | some n => rfl

section

variable (hb : isBlank b = true)

include hb

theorem stringLexeme_append {n : Nat} (h : (stringLexeme n cs).1.isOpen = false) (ds : List Char) :
    stringLexeme n (cs ++ b :: ds) = stringLexeme n cs := by
  fun_induction stringLexeme n cs with
  | case1 n => cases h
  | case2 n cs ih =>
    rw [List.cons_append, List.cons_append, stringLexeme]
    exact ih h
  | case3 n cs hquote =>
    cases cs with
    | nil =>
      have hb : b ≠ '\'' := by rintro rfl; cases hb
      simp [stringLexeme, hb]
    | cons d cs =>
      have hd : d ≠ '\'' := fun hd => hquote cs (by rw [hd])
      simp [stringLexeme, hd]
  | case4 n c cs hquotes hquote ih =>
    rw [List.cons_append, stringLexeme]
    · exact ih h
    · exact fun _ hc _ => hquote hc
    · exact hquote

theorem symbolLexeme_append (cs ds : List Char) :
    symbolLexeme (cs ++ b :: ds) = symbolLexeme cs := by
  obtain ⟨-, hword, hoperator, hsymbol⟩ := not_of_isBlank hb
  cases cs with
  | nil =>
    have hletter : isLetter b = false := (Bool.or_eq_false_iff.1 hword).1
    simp [symbolLexeme, hletter, hoperator]
  | cons c cs =>
    simp only [List.cons_append, symbolLexeme]
    rw [← List.cons_append, runLength_append hsymbol, runLength_append hoperator]

theorem numberLength_append (cs ds : List Char) :
    numberLength (cs ++ b :: ds) = numberLength cs := by
  have hdigit := (not_of_isBlank hb).1
  have hdot : b ≠ '.' := by rintro rfl; cases hb
  have hle := runLength_le isDigit cs
  rw [numberLength, numberLength, runLength_append hdigit, List.drop_append_of_le_length hle]
  rcases cs.drop (runLength isDigit cs) with _ | ⟨d, rest⟩
  · simp [hdot]
  · by_cases hd : d = '.'
    · subst hd
      simp only [List.cons_append, runLength_append hdigit]
    · simp [hd]

theorem wordLexeme_append (cs ds : List Char) : wordLexeme (cs ++ b :: ds) = wordLexeme cs := by
  have hcolon : b ≠ ':' := by rintro rfl; cases hb
  have hequals : b ≠ '=' := by rintro rfl; cases hb
  have hle : (cs.takeWhile isWordChar).length ≤ cs.length := runLength_le isWordChar cs
  rw [wordLexeme, wordLexeme, takeWhile_append_blank (not_of_isBlank hb).2.1,
    List.drop_append_of_le_length hle]
  rcases cs.drop (cs.takeWhile isWordChar).length with _ | ⟨d, rest⟩
  · simp [hcolon]
  · by_cases hd : d = ':'
    · subst hd
      cases rest <;> simp [hequals]
    · simp [hd]

/-- **A blank ends a token**, if it is closed and is not a dollar sign that stands alone. -/
theorem lexeme_append (hopen : (lexeme c cs).1.isOpen = false) (hdollar : c = '$' → cs ≠ [])
    (ds : List Char) : lexeme c (cs ++ b :: ds) = lexeme c cs := by
  by_cases hcomment : c = '"'
  · rw [lexeme, lexemeBy, if_pos hcomment] at hopen
    rw [lexeme, lexeme, lexemeBy, lexemeBy, if_pos hcomment, if_pos hcomment,
      commentLexeme_append hopen]
  by_cases hstring : c = '\''
  · rw [lexeme, lexemeBy, if_neg hcomment, if_pos hstring] at hopen
    rw [lexeme, lexeme, lexemeBy, lexemeBy, if_neg hcomment, if_pos hstring, if_neg hcomment,
      if_pos hstring, stringLexeme_append hb hopen]
  rw [lexeme, lexeme, lexemeBy, lexemeBy, if_neg hcomment, if_neg hstring, if_neg hcomment,
    if_neg hstring]
  split
  next hc =>
    cases cs with
    | nil => exact absurd rfl (hdollar hc)
    | cons d cs => rfl
  split
  · rw [symbolLexeme_append hb]
  split
  · rw [← List.cons_append, numberLength_append hb]
  split
  · rw [← List.cons_append, wordLexeme_append hb]
  split
  · cases cs with
    | nil =>
      have hequals : b ≠ '=' := by rintro rfl; cases hb
      simp [hequals]
    | cons d cs => rfl
  split
  · rw [← List.cons_append, runLength_append (not_of_isBlank hb).2.2.1]
  · rfl

end

/-! ### The characters of a token -/

theorem runLength_take (p : Char → Bool) (cs : List Char) :
    runLength p (cs.take (runLength p cs)) = runLength p cs := by
  rw [take_runLength, runLength, runLength, List.takeWhile_idem]

theorem commentLexeme_take (cs : List Char) :
    commentLexeme (cs.take ((commentLexeme cs).2 - 1)) = commentLexeme cs := by
  rw [commentLexeme.eq_def cs]
  cases hfind : cs.findIdx? (· = '"') with
  | none => simp [commentLexeme, hfind]
  | some n => simp [commentLexeme, List.findIdx?_take, hfind]

theorem stringLexeme_take (n : Nat) (cs : List Char) :
    stringLexeme n (cs.take ((stringLexeme n cs).2 - n)) = stringLexeme n cs := by
  fun_induction stringLexeme n cs with
  | case1 n => simp [stringLexeme]
  | case2 n cs ih =>
    have hle := (stringLexeme_bounds (n + 2) cs).1
    have hsub : (stringLexeme (n + 2) cs).2 - n = (stringLexeme (n + 2) cs).2 - (n + 2) + 2 := by
      omega
    rw [hsub, List.take_succ_cons, List.take_succ_cons, stringLexeme, ih]
  | case3 n cs hquote => simp [stringLexeme]
  | case4 n c cs hquotes hquote ih =>
    have hle := (stringLexeme_bounds (n + 1) cs).1
    have hsub : (stringLexeme (n + 1) cs).2 - n = (stringLexeme (n + 1) cs).2 - (n + 1) + 1 := by
      omega
    rw [hsub, List.take_succ_cons, stringLexeme, ih]
    · exact fun _ hc _ => hquote hc
    · exact hquote

theorem symbolLexeme_take (cs : List Char) :
    symbolLexeme (cs.take ((symbolLexeme cs).2 - 1)) = symbolLexeme cs := by
  cases cs with
  | nil => rfl
  | cons c cs =>
    have hrun {p : Char → Bool} (hp : p c = true) :
        (c :: cs).take (runLength p (c :: cs)) = c :: cs.takeWhile p ∧
          runLength p (c :: cs.takeWhile p) = runLength p (c :: cs) := by
      have htake := take_runLength p (c :: cs)
      rw [List.takeWhile_cons_of_pos hp] at htake
      exact ⟨htake, by rw [← htake, runLength_take]⟩
    by_cases hletter : isLetter c = true
    · obtain ⟨htake, hlength⟩ := hrun (p := fun c => isWordChar c || c = ':')
        (by simp [isWordChar, hletter])
      simp [symbolLexeme, hletter, htake, hlength]
    · by_cases hoperator : isOperator c = true
      · obtain ⟨htake, hlength⟩ := hrun hoperator
        simp [symbolLexeme, hletter, hoperator, htake, hlength]
      · simp [symbolLexeme, hletter, hoperator]

/-- A run of characters that is followed by another one. -/
theorem takeWhile_append_of_not (cs : List Char) {d : Char} (hd : p d = false) (ds : List Char) :
    (cs.takeWhile p ++ d :: ds).takeWhile p = cs.takeWhile p := by
  rw [takeWhile_append_blank hd, List.takeWhile_idem]

theorem numberLength_take (cs : List Char) :
    numberLength (cs.take (numberLength cs)) = numberLength cs := by
  have hwhole := take_runLength isDigit cs
  have halone : numberLength (cs.takeWhile isDigit) = runLength isDigit cs := by
    rw [numberLength, runLength, List.takeWhile_idem, List.drop_length, runLength]
  rw [numberLength.eq_def cs]
  dsimp only
  split
  next rest hdrop =>
    split
    next => rw [hwhole, halone]
    next hne =>
      have hcs : cs.take (runLength isDigit cs + 1 + runLength isDigit rest) =
          cs.takeWhile isDigit ++ '.' :: rest.takeWhile isDigit := by
        rw [Nat.add_assoc, List.take_add, hwhole, hdrop, Nat.add_comm, List.take_succ_cons,
          take_runLength]
      have hrest : runLength isDigit (rest.takeWhile isDigit) = runLength isDigit rest := by
        rw [runLength, List.takeWhile_idem, runLength]
      rw [hcs, numberLength, runLength, takeWhile_append_of_not cs rfl, List.drop_left]
      simp only [hrest, if_neg hne]
      rfl
  next => rw [hwhole, halone]

theorem wordLexeme_take (cs : List Char) :
    wordLexeme (cs.take (wordLexeme cs).2) = wordLexeme cs := by
  have hword : cs.take (cs.takeWhile isWordChar).length = cs.takeWhile isWordChar :=
    take_runLength isWordChar cs
  rw [wordLexeme.eq_def cs]
  dsimp only
  split
  next rest hdrop =>
    split
    · simp [hword, wordLexeme, List.takeWhile_idem]
    · have hcs : cs.take ((cs.takeWhile isWordChar).length + 1) =
          cs.takeWhile isWordChar ++ [':'] := by
        rw [List.take_add, hword, hdrop, List.take_succ_cons, List.take_zero]
      rw [hcs, wordLexeme, takeWhile_append_of_not cs rfl, List.drop_left]
      rfl
  next => simp [hword, wordLexeme, List.takeWhile_idem]

/-- **A token does not depend on what follows it.** -/
theorem lexeme_take (c : Char) (cs : List Char) :
    lexeme c (cs.take ((lexeme c cs).2 - 1)) = lexeme c cs := by
  have hcons {n : Nat} (hn : 0 < n) : c :: cs.take (n - 1) = (c :: cs).take n := by
    obtain ⟨m, rfl⟩ := Nat.exists_eq_succ_of_ne_zero (Nat.ne_of_gt hn)
    rfl
  generalize hn : (lexeme c cs).2 - 1 = n
  revert hn
  rw [lexeme, lexeme, lexemeBy, lexemeBy]
  split
  · rintro rfl
    exact commentLexeme_take cs
  split
  · rintro rfl
    exact stringLexeme_take 1 cs
  split
  · rintro rfl
    cases cs <;> rfl
  split
  · rintro rfl
    exact symbolLexeme_take cs
  split
  next hdigit =>
    rintro rfl
    rw [hcons (numberLength_bounds hdigit cs).1, numberLength_take]
  split
  next hletter =>
    have hword : isWordChar c = true := by rw [isWordChar, hletter, Bool.true_or]
    rintro rfl
    rw [hcons (wordLexeme_bounds hword cs).1, wordLexeme_take]
  split
  · by_cases hassign : cs.head? = some '='
    · rw [if_pos hassign]
      rintro rfl
      simp [List.head?_take, hassign]
    · rw [if_neg hassign]
      rintro rfl
      rfl
  split
  next hoperator =>
    rintro rfl
    rw [hcons (runLength_pos hoperator cs), runLength_take]
  · exact fun _ => rfl

/-! ### The tokens of a text -/

/-- **The tokens of a text** that starts at an offset. -/
inductive Scans : Nat → List Char → List Token → Prop
  | nil {offset : Nat} : Scans offset [] []
  | blank {offset : Nat} {c : Char} {cs : List Char} {ts : List Token} (hc : isBlank c = true)
      (h : Scans (offset + c.utf8Size) cs ts) : Scans offset (c :: cs) ts
  | token {offset : Nat} {c : Char} {cs : List Char} {ts : List Token} (hc : ¬isBlank c = true)
      (h : Scans (cut offset c cs).stop ((c :: cs).drop (lexeme c cs).2) ts) :
      Scans offset (c :: cs) (cut offset c cs :: ts)

namespace Scans

variable {offset : Nat} {ts : List Token}

/-- As many steps as there are characters are enough. -/
theorem scanFrom_eq (h : Scans offset cs ts) {steps : Nat} (hsteps : cs.length ≤ steps)
    (done : List Token) : scanFrom steps offset done cs = done.reverse ++ ts := by
  induction h generalizing steps done with
  | nil =>
    rw [List.append_nil]
    cases steps <;> rfl
  | @blank offset c cs ts hc _ ih =>
    cases steps with
    | zero => cases hsteps
    | succ steps =>
      rw [scanFrom, if_pos hc]
      exact ih (Nat.le_of_succ_le_succ hsteps) done
  | @token offset c cs ts hc _ ih =>
    cases steps with
    | zero => cases hsteps
    | succ steps =>
      have hpos := (lexeme_bounds c cs).1
      rw [scanFrom_of_not_blank hc, ih, List.reverse_cons, List.append_assoc]
      · rfl
      · grind

/-- Every text has tokens. -/
theorem exists_scans (offset : Nat) (cs : List Char) : ∃ ts, Scans offset cs ts := by
  induction hn : cs.length using Nat.strongRecOn generalizing offset cs with
  | ind n ih =>
    cases cs with
    | nil => exact ⟨[], .nil⟩
    | cons c cs =>
      rw [List.length_cons] at hn
      by_cases hc : isBlank c = true
      · obtain ⟨ts, hts⟩ := ih cs.length (by omega) (offset + c.utf8Size) cs rfl
        exact ⟨ts, .blank hc hts⟩
      · have hpos := (lexeme_bounds c cs).1
        obtain ⟨ts, hts⟩ := ih ((c :: cs).drop (lexeme c cs).2).length
          (by rw [List.length_drop, List.length_cons]; omega) (cut offset c cs).stop _ rfl
        exact ⟨_, .token hc hts⟩

theorem scanText (cs : List Char) : Scans 0 cs (scanText cs) := by
  obtain ⟨ts, hts⟩ := exists_scans 0 cs
  rw [Token.scanText, hts.scanFrom_eq (Nat.le_refl _) []]
  exact hts

/-- A text without characters has no tokens. -/
theorem ne_nil (h : Scans offset cs ts) (hts : ts ≠ []) : cs ≠ [] := by
  rintro rfl
  cases h
  exact hts rfl

/-- A token with another one after it is closed, and its text does not end with its first
character. -/
theorem closed_of_cons {t : Token}
    (h : Scans (cut offset c cs).stop ((c :: cs).drop (lexeme c cs).2) (t :: ts)) :
    (lexeme c cs).1.isOpen = false ∧ cs ≠ [] := by
  obtain ⟨hpos, -, hall⟩ := lexeme_bounds c cs
  have hrest := h.ne_nil (List.cons_ne_nil t ts)
  constructor
  · grind
  · rintro rfl
    exact hrest (List.drop_of_length_le hpos)

end Scans

end Smalltalk.Token
