/-
**Tokens in bytes.**

The scanner reads bytes and not characters. All that it looks for is within ASCII, where a character
is its one byte. The bytes of every other character are outside of ASCII, and the first of them
tells how many there are. So the tokens in bytes are those in characters, but for their lengths.

* `Token.encode` — the bytes of some characters;
* `Token.lexemeBy_encode` — **the token at the front of a text**, in bytes.
-/

import Smalltalk.Proofs.Scanning
import Mathlib.Data.String.Basic

namespace Smalltalk.Token

open String (utf8Len)

variable {c d : Char} {cs ds : List Char} {p : Char → Bool}

/-! ### The bytes of a character -/

/-- The bytes of a character. -/
def encodeChar (c : Char) : List Char := (String.utf8EncodeChar c).map Char.ofUInt8

/-- The bytes of some characters. -/
def encode (cs : List Char) : List Char := cs.flatMap encodeChar

theorem length_encodeChar (c : Char) : (encodeChar c).length = c.utf8Size := by
  rw [encodeChar, List.length_map, String.length_utf8EncodeChar]

/-- Within ASCII a character is its byte. -/
theorem encodeChar_of_narrow (h : c.utf8Size = 1) : encodeChar c = [c] ∧ utf8Length c = 1 := by
  have hlt : c.toNat < 128 :=
    Nat.lt_succ_of_le (UInt32.le_iff_toNat_le.1 (Char.utf8Size_eq_one_iff.1 h))
  have hall : ∀ n < 128, encodeChar (.ofNat n) = [.ofNat n] ∧ utf8Length (.ofNat n) = 1 := by
    decide +kernel
  rw [← Char.ofNat_toNat c]
  exact hall c.toNat hlt

/-- The bytes of other characters are outside of ASCII, and the first one tells their number. -/
theorem exists_encodeChar (h : c.utf8Size ≠ 1) : ∃ d ds, encodeChar c = d :: ds ∧
    utf8Length d = c.utf8Size ∧ ∀ e ∈ d :: ds, e.utf8Size ≠ 1 := by
  have htwo : ∀ n < 32, utf8Length (.ofUInt8 (.ofNat (n + 192))) = 2 ∧
      (Char.ofUInt8 (.ofNat (n + 192))).utf8Size ≠ 1 := by decide +kernel
  have hthree : ∀ n < 16, utf8Length (.ofUInt8 (.ofNat (n + 224))) = 3 ∧
      (Char.ofUInt8 (.ofNat (n + 224))).utf8Size ≠ 1 := by decide +kernel
  have hfour : ∀ n < 8, utf8Length (.ofUInt8 (.ofNat (n + 240))) = 4 ∧
      (Char.ofUInt8 (.ofNat (n + 240))).utf8Size ≠ 1 := by decide +kernel
  have hrest : ∀ n < 64, (Char.ofUInt8 (.ofNat (n + 128))).utf8Size ≠ 1 := by decide +kernel
  have hmod (n m : Nat) : n % (m + 1) < m + 1 := Nat.mod_lt n (Nat.succ_pos m)
  have hcons {d : Char} {l : List Char} (hd : d.utf8Size ≠ 1) (hl : ∀ e ∈ l, e.utf8Size ≠ 1) :
      ∀ e ∈ d :: l, e.utf8Size ≠ 1 := List.forall_mem_cons.2 ⟨hd, hl⟩
  have hlast (n : Nat) {l : List Char} := hcons (l := l) (hrest _ (hmod n 63))
  have hnil : ∀ e ∈ ([] : List Char), e.utf8Size ≠ 1 := fun _ he => absurd he List.not_mem_nil
  rw [← length_encodeChar] at h ⊢
  rw [encodeChar, String.utf8EncodeChar] at h ⊢
  split_ifs at h ⊢
  · exact absurd rfl h
  · obtain ⟨hlength, hwide⟩ := htwo _ (hmod _ 31)
    exact ⟨_, _, rfl, hlength, hcons hwide (hlast _ hnil)⟩
  · obtain ⟨hlength, hwide⟩ := hthree _ (hmod _ 15)
    exact ⟨_, _, rfl, hlength, hcons hwide (hlast _ (hlast _ hnil))⟩
  · obtain ⟨hlength, hwide⟩ := hfour _ (hmod _ 7)
    exact ⟨_, _, rfl, hlength, hcons hwide (hlast _ (hlast _ (hlast _ hnil)))⟩

/-! ### The bytes of a text -/

/-- The bytes of some characters, as numbers. -/
def octets (cs : List Char) : List UInt8 := cs.flatMap String.utf8EncodeChar

theorem encode_eq (cs : List Char) : encode cs = (octets cs).map Char.ofUInt8 :=
  List.map_flatMap.symm

theorem data_toUTF8 (source : String) : source.toUTF8.data.toList = octets source.toList := by
  rw [String.toUTF8_eq_toByteArray, ← String.utf8Encode_toList, List.utf8Encode,
    List.data_toByteArray, octets]

theorem bytes_eq (source : String) : bytes source = encode source.toList := by
  rw [bytes, data_toUTF8, encode_eq]

theorem length_encode (cs : List Char) : (encode cs).length = utf8Len cs := by
  induction cs with
  | nil => rfl
  | cons c cs ih =>
    rw [encode, List.flatMap_cons, List.length_append, length_encodeChar, ← encode, ih,
      String.utf8Len_cons, Nat.add_comm]

theorem length_octets (cs : List Char) : (octets cs).length = utf8Len cs := by
  rw [← length_encode, encode_eq, List.length_map]

/-- What follows some characters. -/
theorem drop_encode (n : Nat) (cs : List Char) :
    (encode cs).drop (utf8Len (cs.take n)) = encode (cs.drop n) := by
  conv_lhs => rw [← List.take_append_drop n cs, encode, List.flatMap_append, ← encode, ← encode]
  rw [List.take_append_drop, ← length_encode, List.drop_left]

/-- The first byte of a text is its first character, or both are outside of ASCII. -/
theorem encode_cons (c : Char) (cs : List Char) :
    c.utf8Size = 1 ∧ encode (c :: cs) = c :: encode cs ∨ c.utf8Size ≠ 1 ∧ ∃ d ds,
      encode (c :: cs) = d :: ds ∧ d.utf8Size ≠ 1 ∧ utf8Length d = c.utf8Size := by
  rw [encode, List.flatMap_cons, ← encode]
  by_cases hc : c.utf8Size = 1
  · exact .inl ⟨hc, by rw [(encodeChar_of_narrow hc).1, List.singleton_append]⟩
  · obtain ⟨d, ds, hbytes, hlength, hwide⟩ := exists_encodeChar hc
    exact .inr ⟨hc, d, ds ++ encode cs, by rw [hbytes, List.cons_append],
      hwide d List.mem_cons_self, hlength⟩

/-- The first byte of a character tells its length. -/
theorem exists_encode_cons (c : Char) (cs : List Char) :
    ∃ d ds, encode (c :: cs) = d :: ds ∧ utf8Length d = c.utf8Size := by
  rcases encode_cons c cs with ⟨hc, hcs⟩ | ⟨-, d, ds, hcs, -, hlength⟩
  · exact ⟨c, _, hcs, (encodeChar_of_narrow hc).2.trans hc.symm⟩
  · exact ⟨d, ds, hcs, hlength⟩

/-- A text starts with a character of ASCII if its bytes do. -/
theorem encode_head (hd : d.utf8Size = 1) (cs : List Char) :
    (∃ ds, cs = d :: ds ∧ encode cs = d :: encode ds) ∨
      (∀ ds, cs ≠ d :: ds) ∧ ∀ ds, encode cs ≠ d :: ds := by
  cases cs with
  | nil => exact .inr ⟨nofun, nofun⟩
  | cons c cs =>
    by_cases hc : c = d
    · subst hc
      refine .inl ⟨cs, rfl, ?_⟩
      rw [encode, List.flatMap_cons, (encodeChar_of_narrow hd).1]
      rfl
    · refine .inr ⟨fun ds h => hc (List.cons.inj h).1, fun ds h => ?_⟩
      rcases encode_cons c cs with ⟨-, hcs⟩ | ⟨-, e, es, hcs, he, -⟩
      · exact hc (List.cons.inj (hcs.symm.trans h)).1
      · exact he ((List.cons.inj (hcs.symm.trans h)).1 ▸ hd)

theorem head?_encode (hd : d.utf8Size = 1) (cs : List Char) :
    (encode cs).head? = some d ↔ cs.head? = some d := by
  rcases encode_head hd cs with ⟨ds, rfl, hds⟩ | ⟨hne, hne'⟩
  · rw [hds]
    rfl
  · rw [List.head?_eq_some_iff, List.head?_eq_some_iff]
    exact iff_of_false (fun ⟨ds, h⟩ => hne' ds h) fun ⟨ds, h⟩ => hne ds h

/-! ### Runs -/

theorem utf8Size_of_isDigit (c : Char) (h : isDigit c = true) : c.utf8Size = 1 := by
  have hle : c ≤ '9' := of_decide_eq_true (Bool.and_eq_true_iff.1 h).2
  exact Char.utf8Size_eq_one_iff.2 (UInt32.le_trans hle (by decide))

theorem utf8Size_of_isLetter (c : Char) (h : isLetter c = true) : c.utf8Size = 1 := by
  simp only [isLetter, Bool.or_eq_true, Bool.and_eq_true, decide_eq_true_eq] at h
  rcases h with (rfl | ⟨-, hle⟩) | ⟨-, hle⟩
  · rfl
  · exact Char.utf8Size_eq_one_iff.2 (UInt32.le_trans hle (by decide))
  · exact Char.utf8Size_eq_one_iff.2 (UInt32.le_trans hle (by decide))

theorem utf8Size_of_isWordChar (c : Char) (h : isWordChar c = true) : c.utf8Size = 1 :=
  (Bool.or_eq_true_iff.1 h).elim (utf8Size_of_isLetter c) (utf8Size_of_isDigit c)

theorem utf8Size_of_isOperator (c : Char) (h : isOperator c = true) : c.utf8Size = 1 := by
  simp only [isOperator, List.contains_iff_mem, List.mem_cons, List.not_mem_nil, or_false] at h
  rcases h with h | h | h | h | h | h | h | h | h | h | h | h | h | h <;> rw [h] <;> rfl

theorem utf8Size_of_punctuation {kind : Kind} (h : punctuation? c = some kind) :
    c.utf8Size = 1 := by
  unfold punctuation? at h
  split_ifs at h with hc hc hc hc hc hc hc hc hc hc <;> rw [hc] <;> rfl

section

variable (hp : ∀ c, p c = true → c.utf8Size = 1)

include hp

theorem takeWhile_encode (cs : List Char) : (encode cs).takeWhile p = cs.takeWhile p := by
  induction cs with
  | nil => rfl
  | cons c cs ih =>
    rcases encode_cons c cs with ⟨-, hcs⟩ | ⟨hc, d, ds, hcs, hd, -⟩
    · rw [hcs, List.takeWhile_cons, List.takeWhile_cons, ih]
    · rw [hcs, List.takeWhile_cons_of_neg fun h => hd (hp _ h),
        List.takeWhile_cons_of_neg fun h => hc (hp _ h)]

theorem runLength_encode (cs : List Char) : runLength p (encode cs) = runLength p cs := by
  rw [runLength, takeWhile_encode hp, runLength]

theorem utf8Len_run (cs : List Char) : utf8Len (cs.take (runLength p cs)) = runLength p cs := by
  rw [take_runLength, runLength]
  induction cs with
  | nil => rfl
  | cons c cs ih =>
    by_cases hc : p c = true
    · rw [List.takeWhile_cons_of_pos hc, String.utf8Len_cons, ih, hp c hc, List.length_cons]
    · rw [List.takeWhile_cons_of_neg hc]
      rfl

theorem drop_run_encode (cs : List Char) :
    (encode cs).drop (runLength p cs) = encode (cs.drop (runLength p cs)) := by
  rw [← drop_encode, utf8Len_run hp]

end

/-! ### Tokens -/

/-- A number is as long in bytes as in characters. -/
theorem numberLength_encode (cs : List Char) : numberLength (encode cs) = numberLength cs ∧
    utf8Len (cs.take (numberLength cs)) = numberLength cs := by
  have hrun := utf8Len_run utf8Size_of_isDigit cs
  rw [numberLength, numberLength, runLength_encode utf8Size_of_isDigit,
    drop_run_encode utf8Size_of_isDigit]
  rcases encode_head (d := '.') rfl (cs.drop (runLength isDigit cs)) with
    ⟨ds, hdrop, hds⟩ | ⟨hne, hne'⟩
  · rw [hds, hdrop]
    simp only [runLength_encode utf8Size_of_isDigit, true_and]
    split
    · exact hrun
    · rw [Nat.add_assoc, List.take_add, hdrop, String.utf8Len_append, hrun, Nat.add_comm 1,
        List.take_succ_cons, String.utf8Len_cons, utf8Len_run utf8Size_of_isDigit]
      rfl
  · split
    next ds hds => exact absurd hds (hne' ds)
    next => exact ⟨rfl, hrun⟩

theorem wordLexeme_encode (cs : List Char) : wordLexeme (encode cs) = wordLexeme cs ∧
    utf8Len (cs.take (wordLexeme cs).2) = (wordLexeme cs).2 := by
  have hrun := utf8Len_run utf8Size_of_isWordChar cs
  have hdrop := drop_run_encode utf8Size_of_isWordChar cs
  rw [runLength] at hrun hdrop
  rw [wordLexeme, wordLexeme, takeWhile_encode utf8Size_of_isWordChar, hdrop]
  rcases encode_head (d := ':') rfl (cs.drop (cs.takeWhile isWordChar).length) with
    ⟨ds, hdrop, hds⟩ | ⟨hne, hne'⟩
  · rw [hds, hdrop]
    simp only [head?_encode (d := '=') rfl, true_and]
    split
    · exact hrun
    · rw [List.take_add, hdrop, String.utf8Len_append, hrun]
      rfl
  · split
    next ds hds => exact absurd hds (hne' ds)
    next => exact ⟨rfl, hrun⟩

theorem symbolLexeme_encode (cs : List Char) : symbolLexeme (encode cs) = symbolLexeme cs ∧
    utf8Len (cs.take ((symbolLexeme cs).2 - 1)) = (symbolLexeme cs).2 - 1 := by
  cases cs with
  | nil => exact ⟨rfl, rfl⟩
  | cons c cs =>
    have hsymbol (c : Char) (h : (isWordChar c || c = ':') = true) : c.utf8Size = 1 := by
      rcases Bool.or_eq_true_iff.1 h with h | h
      · exact utf8Size_of_isWordChar c h
      · rw [of_decide_eq_true h]
        rfl
    rcases encode_cons c cs with ⟨-, hcs⟩ | ⟨hc, d, ds, hcs, hd, -⟩
    · rw [hcs, symbolLexeme, symbolLexeme, ← hcs, runLength_encode hsymbol,
        runLength_encode utf8Size_of_isOperator]
      refine ⟨rfl, ?_⟩
      split_ifs
      · exact utf8Len_run hsymbol (c :: cs)
      · exact utf8Len_run utf8Size_of_isOperator (c :: cs)
      · rfl
    · have hnot {c : Char} (hc : c.utf8Size ≠ 1) : ¬isLetter c = true ∧ ¬isOperator c = true :=
        ⟨fun h => hc (utf8Size_of_isLetter _ h), fun h => hc (utf8Size_of_isOperator _ h)⟩
      simp [symbolLexeme, hcs, hnot hc, hnot hd]

/-- A character within ASCII is not among the bytes of another one. -/
theorem ne_of_mem_encodeChar (hd : d.utf8Size = 1) (h : c ≠ d) : ∀ e ∈ encodeChar c, e ≠ d := by
  by_cases hc : c.utf8Size = 1
  · rw [(encodeChar_of_narrow hc).1]
    exact fun e he => List.mem_singleton.1 he ▸ h
  · obtain ⟨b, bs, hbytes, -, hwide⟩ := exists_encodeChar hc
    rw [hbytes]
    rintro e he rfl
    exact hwide e he hd

/-- Bytes that are no quotes belong to a string. -/
theorem stringLexeme_append_of_ne (hds : ∀ d ∈ ds, d ≠ '\'') (m : Nat) (bs : List Char) :
    stringLexeme m (ds ++ bs) = stringLexeme (m + ds.length) bs := by
  induction ds generalizing m with
  | nil => rfl
  | cons d ds ih =>
    obtain ⟨hd, hds⟩ := List.forall_mem_cons.1 hds
    rw [List.cons_append, stringLexeme, ih hds, List.length_cons, Nat.add_assoc,
      Nat.add_comm 1]
    · exact fun _ hc _ => hd hc
    · exact hd

theorem stringLexeme_encode (n m : Nat) (cs : List Char) :
    stringLexeme m (encode cs) =
      ((stringLexeme n cs).1, m + utf8Len (cs.take ((stringLexeme n cs).2 - n))) := by
  have hquote : '\''.utf8Size = 1 := rfl
  fun_induction stringLexeme n cs generalizing m with
  | case1 n => simp [encode, stringLexeme]
  | case2 n cs ih =>
    have hle := (stringLexeme_bounds (n + 2) cs).1
    have hsub : (stringLexeme (n + 2) cs).2 - n = (stringLexeme (n + 2) cs).2 - (n + 2) + 2 := by
      omega
    rw [show encode ('\'' :: '\'' :: cs) = '\'' :: '\'' :: encode cs from rfl, stringLexeme, ih,
      hsub, List.take_succ_cons, List.take_succ_cons, String.utf8Len_cons, String.utf8Len_cons]
    exact congrArg (Prod.mk _) (by omega)
  | case3 n cs hnot =>
    rw [show encode ('\'' :: cs) = '\'' :: encode cs from rfl, stringLexeme]
    · simp [hquote]
    · intro ds hds
      have hhead := (head?_encode hquote cs).1 (congrArg List.head? hds)
      obtain ⟨ds, hcs⟩ := List.head?_eq_some_iff.1 hhead
      exact hnot ds hcs
  | case4 n c cs _ hnot ih =>
    have hle := (stringLexeme_bounds (n + 1) cs).1
    have hsub : (stringLexeme (n + 1) cs).2 - n = (stringLexeme (n + 1) cs).2 - (n + 1) + 1 := by
      omega
    rw [encode, List.flatMap_cons, ← encode,
      stringLexeme_append_of_ne (ne_of_mem_encodeChar hquote hnot), ih, hsub, List.take_succ_cons, length_encodeChar, String.utf8Len_cons, Nat.add_assoc,
      Nat.add_comm c.utf8Size]

theorem findIdx?_encode (hd : d.utf8Size = 1) (cs : List Char) :
    (encode cs).findIdx? (· = d) = (cs.findIdx? (· = d)).map fun n => utf8Len (cs.take n) := by
  induction cs with
  | nil => rfl
  | cons c cs ih =>
    rw [List.findIdx?_cons]
    by_cases hc : c = d
    · subst hc
      rw [encode, List.flatMap_cons, (encodeChar_of_narrow hd).1, List.singleton_append,
        List.findIdx?_cons]
      simp
    · have hnone : (encodeChar c).findIdx? (· = d) = none := by
        simpa using ne_of_mem_encodeChar hd hc
      rw [encode, List.flatMap_cons, ← encode, List.findIdx?_append, hnone, ih, if_neg (by simpa),
        length_encodeChar]
      simp [Function.comp_def]

theorem commentLexeme_encode (cs : List Char) : commentLexeme (encode cs) =
    ((commentLexeme cs).1, 1 + utf8Len (cs.take ((commentLexeme cs).2 - 1))) := by
  rw [commentLexeme, commentLexeme, findIdx?_encode rfl]
  cases hfind : cs.findIdx? (· = '"') with
  | none => simp [length_encode, Nat.add_comm]
  | some n =>
    obtain ⟨hn, hquote, -⟩ := List.findIdx?_eq_some_iff_getElem.1 hfind
    have hquote : cs[n] = '"' := of_decide_eq_true hquote
    have htake : cs.take (n + 1) = cs.take n ++ ['"'] := by
      rw [← hquote, List.take_succ_eq_append_getElem hn]
    refine congrArg (Prod.mk _) ?_
    simp only [Nat.add_succ_sub_one]
    rw [htake, String.utf8Len_append, Nat.add_comm 1]
    rfl

/-- A byte outside of ASCII is no token that is known. -/
theorem lexemeBy_of_wide (h : c.utf8Size ≠ 1) (width : Char → Nat) (cs : List Char) :
    lexemeBy width c cs = (.unknown, width c) := by
  have hne {d : Char} (hd : d.utf8Size = 1) : c ≠ d := fun hc => h (hc ▸ hd)
  rw [lexemeBy, if_neg (hne rfl), if_neg (hne rfl), if_neg (hne rfl), if_neg (hne rfl),
    if_neg fun hc => h (utf8Size_of_isDigit c hc), if_neg fun hc => h (utf8Size_of_isLetter c hc),
    if_neg (hne rfl), if_neg fun hc => h (utf8Size_of_isOperator c hc)]
  cases hc : punctuation? c with
  | none => rfl
  | some kind => exact absurd (utf8Size_of_punctuation hc) h

/-- **The token at the front of a text**, in bytes: its kind is the same, and its length is that of
its characters. -/
theorem lexemeBy_encode {b : Char} {bs : List Char} (h : encode (c :: cs) = b :: bs) :
    lexemeBy utf8Length b bs = ((lexeme c cs).1, utf8Len ((c :: cs).take (lexeme c cs).2)) := by
  rcases encode_cons c cs with ⟨hc, hcs⟩ | ⟨hc, d, ds, hcs, hd, hlength⟩
  · obtain ⟨rfl, rfl⟩ := List.cons.inj (h.symm.trans hcs)
    have htake (n : Nat) : utf8Len ((b :: cs).take (n + 1)) = 1 + utf8Len (cs.take n) := by
      rw [List.take_succ_cons, String.utf8Len_cons, hc, Nat.add_comm]
    have hpred {n : Nat} (hn : 0 < n) :
        utf8Len ((b :: cs).take n) = 1 + utf8Len (cs.take (n - 1)) := by
      rw [← htake, Nat.sub_add_cancel hn]
    have hpos := (lexeme_bounds b cs).1
    revert hpos
    rw [lexeme, lexemeBy, lexemeBy]
    split
    · intro hpos
      rw [commentLexeme_encode, hpred hpos]
    split
    · intro hpos
      rw [stringLexeme_encode 1, hpred hpos]
    split
    · intro hpos
      cases cs with
      | nil => exact congrArg (Prod.mk _) (htake 0).symm
      | cons d ds =>
        obtain ⟨e, es, hds, hlength⟩ := exists_encode_cons d ds
        rw [hds, characterLexeme, characterLexeme, hlength, htake]
        simp
    split
    · intro hpos
      obtain ⟨hsymbol, hlength⟩ := symbolLexeme_encode cs
      rw [hsymbol, hpred hpos, hlength, Nat.add_sub_cancel' hpos]
    split
    · intro _
      obtain ⟨hnumber, hlength⟩ := numberLength_encode (b :: cs)
      rw [← hcs, hnumber, hlength]
    split
    · intro _
      obtain ⟨hword, hlength⟩ := wordLexeme_encode (b :: cs)
      rw [← hcs, hword, hlength]
    split
    · intro _
      rw [if_congr (head?_encode (d := '=') rfl cs) rfl rfl]
      split
      next hassign =>
        obtain ⟨ds, rfl⟩ := List.head?_eq_some_iff.1 hassign
        exact congrArg (Prod.mk _) (htake 1).symm
      next => exact congrArg (Prod.mk _) (htake 0).symm
    split
    · intro _
      rw [← hcs, runLength_encode utf8Size_of_isOperator, utf8Len_run utf8Size_of_isOperator]
    · intro _
      rw [(encodeChar_of_narrow hc).2]
      cases punctuation? b <;> exact congrArg (Prod.mk _) (htake 0).symm
  · obtain ⟨rfl, rfl⟩ := List.cons.inj (h.symm.trans hcs)
    rw [lexeme, lexemeBy_of_wide hc, lexemeBy_of_wide hd, hlength]
    simp

end Smalltalk.Token
