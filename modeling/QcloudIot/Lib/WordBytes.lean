import Mathlib.Algebra.GroupWithZero.Nat
import Mathlib.Algebra.Order.Group.Nat
import Mathlib.Data.Fin.Basic
import Mathlib.Tactic.Common

/-!
# A word of four bytes

A word of 32 bits by its bytes, the low one first (`byteOf`), and the word of four bytes (`word`).

* `byteOf_word`, `word_byteOf`: the two are inverse;
* `word_xor`: the sum of words, byte by byte;
* `word_turn`: a word turned to the left by a byte.
-/

namespace QcloudIot.Lib

/-- The numbers of the bytes are all taken from this one instance. -/
instance neZero_four : NeZero 4 := ⟨by decide⟩

/-- Byte `r` of a word. -/
def byteOf (w : UInt32) : Fin 4 → UInt8
  | 0 => w.toUInt8
  | 1 => (w >>> 8).toUInt8
  | 2 => (w >>> 16).toUInt8
  | 3 => (w >>> 24).toUInt8

/-- The word with these bytes. -/
def word (c : Fin 4 → UInt8) : UInt32 :=
  (c 0).toUInt32 ||| (c 1).toUInt32 <<< 8 ||| (c 2).toUInt32 <<< 16 ||| (c 3).toUInt32 <<< 24

section Numbers

variable (w : UInt32) (c : Fin 4 → UInt8)

theorem byteOf_zero_toNat : (byteOf w 0).toNat = w.toNat % 256 := by simp [byteOf]

theorem byteOf_one_toNat : (byteOf w 1).toNat = w.toNat / 256 % 256 := by
  simp [byteOf, Nat.shiftRight_eq_div_pow]

theorem byteOf_two_toNat : (byteOf w 2).toNat = w.toNat / 65536 % 256 := by
  simp [byteOf, Nat.shiftRight_eq_div_pow]

theorem byteOf_three_toNat : (byteOf w 3).toNat = w.toNat / 16777216 % 256 := by
  simp [byteOf, Nat.shiftRight_eq_div_pow]

/-- What stands behind a number's `k` low bits, and the bits. -/
theorem or_shiftLeft {a b k : Nat} (h : a < 2 ^ k) : a ||| b <<< k = a + b * 2 ^ k := by
  rw [Nat.or_comm, ← Nat.shiftLeft_add_eq_or_of_lt h, Nat.shiftLeft_eq, Nat.add_comm]

/-- A byte shifted inside the word. -/
theorem toNat_shiftLeft_byte (a : UInt8) {k : UInt32} (h : k.toNat ≤ 24) :
    (a.toUInt32 <<< k).toNat = a.toNat <<< k.toNat := by
  have ha := a.toNat_lt
  have hpow : 2 ^ k.toNat ≤ 2 ^ 24 := Nat.pow_le_pow_right (by omega) h
  rw [UInt32.toNat_shiftLeft, UInt8.toNat_toUInt32, Nat.mod_eq_of_lt (show k.toNat < 32 by omega)]
  refine Nat.mod_eq_of_lt ?_
  rw [Nat.shiftLeft_eq]
  exact (Nat.mul_le_mul (Nat.le_of_lt_succ ha) hpow).trans_lt (by decide)

/-- The word as a number. -/
theorem word_toNat : (word c).toNat =
    (c 0).toNat + (c 1).toNat * 256 + (c 2).toNat * 65536 + (c 3).toNat * 16777216 := by
  have h0 := (c 0).toNat_lt
  have h1 := (c 1).toNat_lt
  have h2 := (c 2).toNat_lt
  rw [word, UInt32.toNat_or, UInt32.toNat_or, UInt32.toNat_or, toNat_shiftLeft_byte _ (by decide),
    toNat_shiftLeft_byte _ (by decide), toNat_shiftLeft_byte _ (by decide), UInt8.toNat_toUInt32]
  change (((c 0).toNat ||| (c 1).toNat <<< 8) ||| (c 2).toNat <<< 16) ||| (c 3).toNat <<< 24 = _
  rw [or_shiftLeft (k := 8) (by omega), or_shiftLeft (k := 16) (by omega),
    or_shiftLeft (k := 24) (by omega)]
  omega

end Numbers

/-- What holds of each byte of a word. -/
theorem forall_place {P : Fin 4 → Prop} (h0 : P 0) (h1 : P 1) (h2 : P 2) (h3 : P 3) : ∀ r, P r
  | 0 => h0
  | 1 => h1
  | 2 => h2
  | 3 => h3

@[simp] theorem byteOf_word (c : Fin 4 → UInt8) : byteOf (word c) = c := by
  have h0 := (c 0).toNat_lt
  have h1 := (c 1).toNat_lt
  have h2 := (c 2).toNat_lt
  have h3 := (c 3).toNat_lt
  funext r
  revert r
  apply forall_place <;> apply UInt8.toNat_inj.mp
  · rw [byteOf_zero_toNat, word_toNat]
    omega
  · rw [byteOf_one_toNat, word_toNat]
    omega
  · rw [byteOf_two_toNat, word_toNat]
    omega
  · rw [byteOf_three_toNat, word_toNat]
    omega

@[simp] theorem word_byteOf (w : UInt32) : word (byteOf w) = w := by
  have hw := w.toNat_lt
  apply UInt32.toNat_inj.mp
  rw [word_toNat, byteOf_zero_toNat, byteOf_one_toNat, byteOf_two_toNat, byteOf_three_toNat]
  omega

/-- Words with the same bytes are the same. -/
theorem word_ext {v w : UInt32} (h : byteOf v = byteOf w) : v = w := by
  rw [← word_byteOf v, h, word_byteOf]

theorem byteOf_xor (v w : UInt32) (r : Fin 4) : byteOf (v ^^^ w) r = byteOf v r ^^^ byteOf w r := by
  revert r
  apply forall_place <;> simp [byteOf, UInt32.shiftRight_xor]

theorem word_xor (a b : Fin 4 → UInt8) : word (fun r => a r ^^^ b r) = word a ^^^ word b := by
  refine word_ext (funext fun r => ?_)
  rw [byteOf_xor, byteOf_word, byteOf_word, byteOf_word]

/-- The word by sums. -/
theorem word_eq_xor (c : Fin 4 → UInt8) : word c =
    (c 0).toUInt32 ^^^ (c 1).toUInt32 <<< 8 ^^^ (c 2).toUInt32 <<< 16 ^^^ (c 3).toUInt32 <<< 24 := by
  have hsum : c = fun r => (((if r = 0 then c 0 else 0) ^^^ (if r = 1 then c 1 else 0)) ^^^
      (if r = 2 then c 2 else 0)) ^^^ (if r = 3 then c 3 else 0) := by
    funext r
    revert r
    apply forall_place <;> simp
  have h0 : (word fun r => if r = 0 then c 0 else 0) = (c 0).toUInt32 := by simp [word]
  have h1 : (word fun r => if r = 1 then c 1 else 0) = (c 1).toUInt32 <<< 8 := by simp [word]
  have h2 : (word fun r => if r = 2 then c 2 else 0) = (c 2).toUInt32 <<< 16 := by simp [word]
  have h3 : (word fun r => if r = 3 then c 3 else 0) = (c 3).toUInt32 <<< 24 := by simp [word]
  conv_lhs => rw [hsum]
  rw [word_xor, word_xor, word_xor, h0, h1, h2, h3]

/-- **A word turned to the left by a byte.** -/
theorem word_turn (c : Fin 4 → UInt8) :
    word c <<< 8 ||| word c >>> 24 = word fun r => c (r - 1) := by
  have h0 := (c 0).toNat_lt
  have h1 := (c 1).toNat_lt
  have h2 := (c 2).toNat_lt
  have h3 := (c 3).toNat_lt
  apply UInt32.toNat_inj.mp
  have hleft : (word c <<< 8).toNat = (word c).toNat % 16777216 * 2 ^ 8 := by
    rw [UInt32.toNat_shiftLeft, Nat.shiftLeft_eq]
    change (word c).toNat * 2 ^ 8 % 2 ^ 32 = _
    omega
  have hright : (word c >>> 24).toNat = (word c).toNat / 16777216 := by
    rw [UInt32.toNat_shiftRight, Nat.shiftRight_eq_div_pow]
    rfl
  rw [UInt32.toNat_or, hleft, hright, ← Nat.shiftLeft_eq, Nat.or_comm, or_shiftLeft, word_toNat,
    word_toNat]
  · change _ = (c 3).toNat + (c 0).toNat * 256 + (c 1).toNat * 65536 + (c 2).toNat * 16777216
    omega
  · rw [word_toNat]
    omega

end QcloudIot.Lib
