import Mathlib.Tactic.Common
import Mathlib.Tactic.Linarith
import Mathlib.Tactic.Ring

/-!
# Numbers in base 128

A number written least significant digit first, one digit a byte, with the top bit of every byte
but the last set (`Varint`). The encoding is the shortest one: what follows a byte with the top bit
set is not zero.

* `Varint.le`, `Varint.length_le`, `Varint.length_le_iff`: how many bytes a number takes;
* `Varint.continues`: which bytes have the top bit set;
* `Varint.unique`: a number has one encoding.
-/

namespace QcloudIot.Lib

/-- The bytes are the shortest encoding of the number. -/
inductive Varint : List UInt8 → Nat → Prop where
  | last {b : UInt8} {n : Nat} (hb : b.toNat < 128) (hn : n = b.toNat) : Varint [b] n
  | more {b : UInt8} {bs : List UInt8} {m n : Nat} (hb : 128 ≤ b.toNat) (h : Varint bs m)
      (hm : m ≠ 0) (hn : n = b.toNat - 128 + 128 * m) : Varint (b :: bs) n

namespace Varint

variable {bs bs' : List UInt8} {n : Nat}

theorem length_pos (h : Varint bs n) : 1 ≤ bs.length := by
  cases h <;> simp

/-- No shorter encoding would do. -/
theorem le (h : Varint bs n) (h0 : n ≠ 0) : 128 ^ (bs.length - 1) ≤ n := by
  induction h with
  | last hb hn => simpa using Nat.one_le_iff_ne_zero.mpr h0
  | @more b bs m n hb h hm hn ih =>
    have hle := ih hm
    obtain ⟨k, hk⟩ : ∃ k, bs.length = k + 1 := ⟨_, (Nat.succ_pred_eq_of_pos h.length_pos).symm⟩
    rw [hk, Nat.add_sub_cancel] at hle
    rw [List.length_cons, hk, Nat.add_sub_cancel, Nat.pow_succ]
    omega

/-- A number below `128 ^ k` takes at most `k` bytes. -/
theorem length_le {k : Nat} (h : Varint bs n) (hk : 1 ≤ k) (hn : n < 128 ^ k) : bs.length ≤ k := by
  by_cases h0 : n = 0
  · cases h with
    | last hb hn' => simpa using hk
    | more hb h hm hn' => omega
  · have hlt : 128 ^ (bs.length - 1) < 128 ^ k := Nat.lt_of_le_of_lt (h.le h0) hn
    have hexp := (Nat.pow_lt_pow_iff_right (by omega : 1 < 128)).mp hlt
    omega

theorem lt (h : Varint bs n) : n < 128 ^ bs.length := by
  induction h with
  | last hb hn => simpa [hn] using hb
  | @more b bs m n hb h hm hn ih =>
    have hlt := b.toNat_lt
    rw [List.length_cons, Nat.pow_succ]
    omega

/-- **A number takes at most `k` bytes iff it is below `128 ^ k`.** -/
theorem length_le_iff {k : Nat} (h : Varint bs n) (hk : 1 ≤ k) : bs.length ≤ k ↔ n < 128 ^ k :=
  ⟨fun hle => h.lt.trans_le (Nat.pow_le_pow_right (by omega) hle), h.length_le hk⟩

/-- A number of more digits goes on behind the digit. -/
theorem continues (h : Varint bs n) : ∀ {i : Nat}, 128 ^ (i + 1) ≤ n → 128 ≤ (bs.getD i 0).toNat := by
  induction h with
  | @last b n hb hn =>
    intro i hi
    have hpow : 128 ≤ 128 ^ (i + 1) := Nat.le_self_pow (by omega) 128
    omega
  | @more b bs m n hb h hm hn ih =>
    rintro (- | i) hi
    · exact hb
    · have hlt := b.toNat_lt
      have hnext : 128 ^ (i + 1) ≤ m := by
        rw [Nat.pow_succ] at hi
        omega
      exact ih hnext

/-- **A number has one encoding.** -/
theorem unique (h : Varint bs n) (h' : Varint bs' n) : bs = bs' := by
  induction h generalizing bs' with
  | @last b n hb hn =>
    cases h' with
    | last hb' hn' =>
      obtain rfl := UInt8.toNat_inj.mp (hn.symm.trans hn')
      rfl
    | more hb' h' hm' hn' => omega
  | @more b bs m n hb h hm hn ih =>
    cases h' with
    | last hb' hn' => omega
    | @more b' bs' m' _ hb' h' hm' hn' =>
      have hlt := b.toNat_lt
      have hlt' := b'.toNat_lt
      obtain rfl : m = m' := by omega
      obtain rfl : b = b' := UInt8.toNat_inj.mp (by omega)
      rw [ih h']

end Varint

end QcloudIot.Lib
