/-
**Hashes and equality.**

Floats are compared by what their patterns stand for and hashed by the patterns themselves. All
numbers but zero have one pattern each, so the two agree but for the zeros. An integer is its own
hash, which has nothing to do with that of the float it is equal to: some floats are equal to more
than one integer.

* `Value.HashedApart` — **equal numbers that are hashed apart**;
* `Single.cases_of_beq` — **equal floats have the same pattern**, or are the two zeros;
* `Value.hash_eq_iff_of_isEqual` — **when equal values have the same hash**.
-/

import Mathlib
import Smalltalk.Object.Hash

namespace Smalltalk

open Float.Model (Format UnpackedFloat)
open Float.Model.UnpackedFloat

namespace Single

/-! ### Patterns -/

/-- The format of the patterns. -/
abbrev format : Format := Format.binary32

/-- What a pattern stands for. -/
def parts (x : Single) : UnpackedFloat := unpack format x.bits.toBitVec

variable {b : BitVec format.numBits} {x : Single}

theorem packComponents_eq {e : BitVec format.exponentBits}
    {m : BitVec format.mantissaBitsWithoutImplicit} (he : unpackExponent b = e)
    (hm : unpackMantissa b = m) : packComponents format (.ofBitVec (unpackSign b)) e m = b := by
  have hsign (s : BitVec 1) : (Sign.ofBitVec s).toBitVec = s := by revert s; decide
  subst he hm
  rw [packComponents, hsign]
  simp only [unpackSign, unpackExponent, unpackMantissa, BitVec.extractLsb]
  ext i hi
  grind

theorem pack_unpack (h : unpack format b ≠ notANumber) : pack format (unpack format b) = b := by
  revert h
  have hbits : format.mantissaBits = 24 := rfl
  have hlt : (unpackMantissa b).toNat < 2 ^ 23 := (unpackMantissa b).isLt
  rw [unpack]
  dsimp only
  split
  next hones =>
    split
    next hmantissa => exact fun _ => packComponents_eq hones hmantissa
    next => exact fun h => absurd rfl h
  next hones =>
    intro _
    split
    next hzero =>
      split
      next hmantissa => exact packComponents_eq hzero hmantissa
      next hmantissa =>
        -- A subnormal number: there is no leading one.
        have hlog : (unpackMantissa b).toNat.log2 < 23 :=
          (Nat.log2_lt fun h => hmantissa (BitVec.eq_of_toNat_eq h)).2 hlt
        rw [pack, hzero, if_neg (by decide), if_neg (by omega), BitVec.ofNat_toNat,
          BitVec.setWidth_eq]
        exact packComponents_eq hzero rfl
    next hzero =>
      have hne : (unpackExponent b).toNat ≠ 255 := fun h => hones (BitVec.eq_of_toNat_eq h)
      have hexponent : (unpackExponent b).toNat < 2 ^ 8 := (unpackExponent b).isLt
      have hnat : (1#1 ++ unpackMantissa b).toNat = 2 ^ 23 + (unpackMantissa b).toNat := by
        rw [BitVec.toNat_append]
        exact (Nat.two_pow_add_eq_or_of_lt hlt 1).symm
      have hlog : (1#1 ++ unpackMantissa b).toNat.log2 = 23 := by
        rw [hnat, Nat.log2_eq_iff (by omega)]
        omega
      have hbiased : ((unpackExponent b).toNat -
          (format.exponentBias + format.mantissaBitsWithoutImplicit : Int) + format.exponentBias +
            format.mantissaBitsWithoutImplicit).toNat = (unpackExponent b).toNat := by omega
      rw [pack]
      simp only [hlog, hbiased]
      rw [if_neg, if_pos hbits.symm, BitVec.ofNat_toNat, BitVec.setWidth_eq]
      · refine packComponents_eq rfl ?_
        rw [← BitVec.toNat_inj, BitVec.toNat_ofNat, hnat]
        exact ((Nat.add_mod_left ..).trans (Nat.mod_eq_of_lt hlt)).symm
      · omega

/-- **A number has one pattern only**: its parts can be put together again. -/
theorem pack_parts (h : x.parts ≠ notANumber) :
    pack format x.parts = x.bits.toBitVec := pack_unpack h

/-- The machine reads a pattern as what it stands for. -/
theorem unpack_toFloat32 (x : Single) : x.toFloat32.toModel.unpack = x.parts := by
  change unpack format (pack format x.parts) = x.parts
  by_cases h : x.parts = notANumber
  · rw [h]
    rfl
  · rw [pack_parts h]
    rfl

/-! ### Equal floats -/

/-- What is neither greater nor less is the same, or both are zero. -/
theorem cases_of_compare {u v : UnpackedFloat} (h : u.compare v = some .eq) :
    u = v ∧ u ≠ notANumber ∨ ∃ s s', u = zero s ∧ v = zero s' := by
  cases u with
  | notANumber => cases h
  | infinity s =>
    cases v with
    | infinity s' => cases s <;> cases s' <;> first | exact .inl ⟨rfl, fun h => by cases h⟩ | cases h
    | _ => cases s <;> cases h
  | zero s =>
    cases v with
    | zero s' => exact .inr ⟨s, s', rfl, rfl⟩
    | infinity s' | finite s' => cases s' <;> cases h
    | notANumber => cases h
  | finite s m e hm =>
    cases v with
    | finite s' m' e' hm' =>
      have hsame : s = s' ∧ e = e' ∧ m = m' := by
        cases s <;> cases s' <;> simp_all [UnpackedFloat.compare, Ordering.then_eq_eq]
      obtain ⟨rfl, rfl, rfl⟩ := hsame
      exact .inl ⟨rfl, fun h => by cases h⟩
    | infinity s' => cases s <;> cases s' <;> cases h
    | zero | notANumber => cases s <;> cases h

/-- Is it the zero without a sign, or the one with a sign? -/
def zeroOf : Sign → Single
  | .positive => ⟨0⟩
  | .negative => ⟨0x80000000⟩

theorem eq_zeroOf {s : Sign} (h : x.parts = zero s) : x = zeroOf s := by
  have hpack := pack_parts (h ▸ nofun : x.parts ≠ notANumber)
  rw [h] at hpack
  obtain ⟨bits⟩ := x
  cases s <;> exact congrArg mk (UInt32.toBitVec_inj.1 hpack.symm)

/-- **Equal floats have the same pattern**, or are the two zeros. -/
theorem cases_of_beq {x y : Single} (h : x.beq y = true) :
    x = y ∨ ∃ s s', x = zeroOf s ∧ y = zeroOf s' := by
  have hcompare : x.parts.compare y.parts = some .eq := by
    rw [← unpack_toFloat32, ← unpack_toFloat32]
    exact eq_of_beq h
  rcases cases_of_compare hcompare with ⟨heq, hx⟩ | ⟨s, s', hx, hy⟩
  · have hpack := pack_parts hx
    rw [heq, pack_parts (heq ▸ hx), UInt32.toBitVec_inj] at hpack
    obtain ⟨bits⟩ := x
    exact .inl (congrArg mk hpack.symm)
  · exact .inr ⟨s, s', eq_zeroOf hx, eq_zeroOf hy⟩

end Single

/-! ### Hashes -/

namespace Value

/-- Is the value held directly, and not by a number? -/
def isDirect : Value → Bool
  | nil | boolean _ | integer _ | float _ | character _ | string _ _ => true
  | _ => false

/-- **Equal numbers that are hashed apart**: the two zeros, and an integer and a float. -/
def HashedApart : Value → Value → Prop
  | float x, float y => x ≠ y
  | integer _, float _ | float _, integer _ => True
  | _, _ => False

variable {a b : Value} (addresses : Addresses)

/-- Equal values are an integer and a float, or the two zeros, or the hash takes in the same of
both. -/
theorem cases_of_isEqual (ha : a.isDirect = true) (hb : b.isDirect = true)
    (h : a.isEqual b = true) :
    (∃ n x, a = integer n ∧ b = float x ∨ a = float x ∧ b = integer n) ∨
    (∃ s s', s ≠ s' ∧ a = float (.zeroOf s) ∧ b = float (.zeroOf s')) ∨
    ¬a.HashedApart b ∧ ∀ ofWords, a.hashBy ofWords addresses = b.hashBy ofWords addresses := by
  cases a with
  | array | block | object | classObject => cases ha
  | integer n =>
    cases b with
    | integer m =>
      obtain rfl : n = m := of_decide_eq_true h
      exact .inr (.inr ⟨id, fun _ => rfl⟩)
    | float x => exact .inl ⟨n, x, .inl ⟨rfl, rfl⟩⟩
    | _ => cases h
  | float x =>
    cases b with
    | integer n => exact .inl ⟨n, x, .inr ⟨rfl, rfl⟩⟩
    | float y =>
      rcases Single.cases_of_beq h with rfl | ⟨s, s', rfl, rfl⟩
      · exact .inr (.inr ⟨fun hne => hne rfl, fun _ => rfl⟩)
      · by_cases hs : s = s'
        · subst hs
          exact .inr (.inr ⟨fun hne => hne rfl, fun _ => rfl⟩)
        · exact .inr (.inl ⟨s, s', hs, rfl, rfl⟩)
    | _ => cases h
  | nil | boolean | character | string =>
    cases b <;> simp_all [isEqual, isIdentical, HashedApart, hashBy]

/-- The hash in use tells the zeros apart. -/
theorem hashBy_zeroOf_ne {s s' : Sign} (h : s ≠ s') :
    (float (.zeroOf s)).hashBy Hash.ofWords addresses ≠
      (float (.zeroOf s')).hashBy Hash.ofWords addresses := by
  simp only [hashBy]
  cases s <;> cases s' <;> first | exact absurd rfl h | decide +kernel

/-- Two integers are equal to one float, so that its hash differs from one of them. -/
theorem exists_integer_hashBy_ne (ofWords : List UInt64 → Int32) :
    ∃ n x, (integer n).isEqual (float x) = true ∧
      (integer n).hashBy ofWords addresses ≠ (float x).hashBy ofWords addresses := by
  by_cases h : (16777216 : Int32) = ofWords [0x4b800000]
  · refine ⟨16777217, ⟨0x4b800000⟩, by decide, ?_⟩
    change 16777217 ≠ ofWords [0x4b800000]
    rw [← h]
    decide
  · exact ⟨16777216, ⟨0x4b800000⟩, by decide, h⟩

/-- **When equal values have the same hash.**  Whatever the hash of words is, they have the same hash
but for the two zeros and for integers and floats. With the hash in use those have the same hash
only if the one is the hash of the other; and no hash of words is right for all of them. -/
theorem hash_eq_iff_of_isEqual (ha : a.isDirect = true) (hb : b.isDirect = true)
    (h : a.isEqual b = true) :
    ((∀ ofWords, a.hashBy ofWords addresses = b.hashBy ofWords addresses) ↔ ¬a.HashedApart b) ∧
    (a.hash = b.hash ↔ (a.HashedApart b → a = integer b.hash ∨ b = integer a.hash)) ∧
    ∀ ofWords, ∃ n x, (integer n).isEqual (float x) = true ∧
      (integer n).hashBy ofWords addresses ≠ (float x).hashBy ofWords addresses := by
  refine ⟨?_, ?_, exists_integer_hashBy_ne addresses⟩
  · rcases cases_of_isEqual addresses ha hb h with
      ⟨n, x, ⟨rfl, rfl⟩ | ⟨rfl, rfl⟩⟩ | ⟨s, s', hs, rfl, rfl⟩ | ⟨hapart, hsame⟩
    · refine iff_of_false (fun hall => ?_) (not_not_intro trivial)
      exact absurd ((hall fun _ => 0).symm.trans (hall fun _ => 1)) (by decide : (0 : Int32) ≠ 1)
    · refine iff_of_false (fun hall => ?_) (not_not_intro trivial)
      exact absurd ((hall fun _ => 0).trans (hall fun _ => 1).symm) (by decide : (0 : Int32) ≠ 1)
    · refine iff_of_false (fun hall => hashBy_zeroOf_ne addresses hs (hall _)) ?_
      exact not_not_intro fun heq => hashBy_zeroOf_ne addresses hs (by rw [heq])
    · exact iff_of_true hsame hapart
  · simp only [hash]
    rcases cases_of_isEqual .usual ha hb h with
      ⟨n, x, ⟨rfl, rfl⟩ | ⟨rfl, rfl⟩⟩ | ⟨s, s', hs, rfl, rfl⟩ | ⟨hapart, hsame⟩
    · simp [HashedApart, hashBy]
    · simp [HashedApart, hashBy, eq_comm]
    · refine iff_of_false (hashBy_zeroOf_ne .usual hs) fun hor => ?_
      rcases hor fun heq => hashBy_zeroOf_ne .usual hs (by rw [heq]) with heq | heq <;> cases heq
    · exact iff_of_true (hsame _) fun hap => absurd hap hapart

/-- One is equal to the float one, but hashed apart from it. -/
theorem hash_one_ne : (integer 1).isEqual (float ⟨0x3f800000⟩) = true ∧
    (integer 1).hash ≠ (float ⟨0x3f800000⟩).hash := by
  have hequal : (integer 1).isEqual (float ⟨0x3f800000⟩) = true := by decide
  refine ⟨hequal, fun h => ?_⟩
  rcases (hash_eq_iff_of_isEqual .usual rfl rfl hequal).2.1.1 h trivial with heq | heq
  · exact absurd (Value.integer.inj heq) (by decide +kernel)
  · cases heq

end Value

end Smalltalk
