import Mathlib.Data.Finset.Card
import Mathlib.Data.Finset.Image
import Mathlib.Logic.Function.Iterate
import Mathlib.Order.Interval.Finset.Nat
import QcloudIot.Lib.Bytes

/-!
# The field of the bytes

The polynomials over two elements modulo `x^8 + x^4 + x^3 + x + 1`, as bytes: the sum is `^^^`, and
`xtime` is the product with `x`. The powers of `x + 1` go through all the bytes but 0, so a product is
a sum of logarithms.

* `mul_xor`, `mul_xtime`: a product is linear in its second factor;
* `mul_gen`: the product of two powers of the generator;
* `gen_injOn`, `exists_gen`: each byte but 0 is exactly one of the powers 1 to 255;
* **`inv_gen`**: the inverse of a power.
-/

namespace QcloudIot.Lib

theorem xor_xor_self (a b : UInt8) : a ^^^ (a ^^^ b) = b := by
  rw [← UInt8.xor_assoc, UInt8.xor_self, UInt8.zero_xor]

/-- Two sums of two terms each, added term by term. -/
theorem xor_xor_xor_comm (a b c d : UInt8) : (a ^^^ b) ^^^ (c ^^^ d) = (a ^^^ c) ^^^ (b ^^^ d) := by
  rw [UInt8.xor_assoc, UInt8.xor_assoc, ← UInt8.xor_assoc b, UInt8.xor_comm b c, UInt8.xor_assoc]

namespace ByteField

/-- The product with `x`. -/
def xtime (a : UInt8) : UInt8 := (a <<< 1) ^^^ (if a &&& 0x80 = 0 then 0 else 0x1B)

/-- The product, with the low `n` bits of the first factor. -/
def mulBits : (n : Nat) → Nat → UInt8 → UInt8
  | 0, _, _ => 0
  | n + 1, a, b => (if a % 2 = 0 then 0 else b) ^^^ mulBits n (a / 2) (xtime b)

/-- The product. -/
def mul (a b : UInt8) : UInt8 := mulBits 8 a.toNat b

/-- The product with `x + 1`. -/
def times3 (a : UInt8) : UInt8 := a ^^^ xtime a

/-- The powers of `x + 1`. -/
def gen : Nat → UInt8
  | 0 => 1
  | i + 1 => times3 (gen i)

/-- A power. -/
def power (a : UInt8) : Nat → UInt8
  | 0 => 1
  | n + 1 => mul a (power a n)

/-- The inverse: there are 255 bytes but 0. -/
def inv (a : UInt8) : UInt8 := power a 254

/-! ## Linearity -/

theorem and_128_cases (a : UInt8) : a &&& 0x80 = 0 ∨ a &&& 0x80 = 0x80 := by
  have hbit : (a &&& 0x80).toNat = (a.toNat.testBit 7).toNat * 2 ^ 7 := Nat.and_two_pow a.toNat 7
  cases ha : a.toNat.testBit 7 with
  | false => exact .inl (UInt8.toNat_inj.mp (by rw [hbit, ha]; rfl))
  | true => exact .inr (UInt8.toNat_inj.mp (by rw [hbit, ha]; rfl))

theorem xor_and_128 (a b : UInt8) : (a ^^^ b) &&& 0x80 = (a &&& 0x80) ^^^ (b &&& 0x80) :=
  UInt8.toNat_inj.mp Nat.and_xor_distrib_right

theorem xtime_xor (a b : UInt8) : xtime (a ^^^ b) = xtime a ^^^ xtime b := by
  have hreduce : (if (a ^^^ b) &&& 0x80 = 0 then (0 : UInt8) else 0x1B) =
      (if a &&& 0x80 = 0 then 0 else 0x1B) ^^^ (if b &&& 0x80 = 0 then 0 else 0x1B) := by
    rw [xor_and_128]
    rcases and_128_cases a with ha | ha <;> rcases and_128_cases b with hb | hb <;>
      rw [ha, hb] <;> decide
  rw [xtime, hreduce, UInt8.shiftLeft_xor]
  exact xor_xor_xor_comm _ _ _ _

theorem xtime_zero : xtime 0 = 0 := rfl

theorem mulBits_xor (n a : Nat) (b c : UInt8) :
    mulBits n a (b ^^^ c) = mulBits n a b ^^^ mulBits n a c := by
  induction n generalizing a b c with
  | zero => exact (UInt8.xor_self).symm
  | succ n ih =>
    rw [mulBits, xtime_xor, ih, mulBits, mulBits, xor_xor_xor_comm (ite _ _ _)]
    congr 1
    split
    · rfl
    · rfl

theorem mulBits_xtime (n a : Nat) (b : UInt8) : mulBits n a (xtime b) = xtime (mulBits n a b) := by
  induction n generalizing a b with
  | zero => exact xtime_zero.symm
  | succ n ih =>
    rw [mulBits, ih, mulBits, xtime_xor]
    congr 1
    split
    · rfl
    · rfl

/-- A product is linear in its second factor. -/
theorem mul_xor (a b c : UInt8) : mul a (b ^^^ c) = mul a b ^^^ mul a c := mulBits_xor 8 a.toNat b c

theorem mul_xtime (a b : UInt8) : mul a (xtime b) = xtime (mul a b) := mulBits_xtime 8 a.toNat b

theorem mul_times3 (a b : UInt8) : mul a (times3 b) = times3 (mul a b) := by
  rw [times3, mul_xor, mul_xtime]
  rfl

theorem mul_one (a : UInt8) : mul a 1 = a :=
  forall_byte (P := fun a => mul a 1 = a) (by decide +kernel) a

theorem mul_zero (a : UInt8) : mul a 0 = 0 := by
  have h := mul_xor a 0 0
  rwa [UInt8.xor_self, UInt8.xor_self] at h

/-! ## Powers of the generator -/

/-- **The product of two powers.** -/
theorem mul_gen (i j : Nat) : mul (gen i) (gen j) = gen (i + j) := by
  induction j with
  | zero => exact mul_one (gen i)
  | succ j ih => rw [gen, mul_times3, ih, ← Nat.add_assoc, gen]

theorem power_gen (i n : Nat) : power (gen i) n = gen (i * n) := by
  induction n with
  | zero => rfl
  | succ n ih => rw [power, ih, mul_gen, Nat.mul_succ, Nat.add_comm]

/-- The generator has the order 255. -/
theorem gen_255 : gen 255 = 1 := by
  rw [← power_gen 15 17]
  decide

theorem gen_add_mul (i n : Nat) : gen (i + 255 * n) = gen i := by
  induction n with
  | zero => rfl
  | succ n ih => rw [Nat.mul_succ, ← Nat.add_assoc, ← mul_gen, gen_255, mul_one, ih]

theorem gen_mod (i : Nat) : gen (i % 255) = gen i := by
  have h := gen_add_mul (i % 255) (i / 255)
  rwa [Nat.mod_add_div, eq_comm] at h

theorem gen_ne_one : ∀ d < 255, 0 < d → gen d ≠ 1 := by decide +kernel

theorem gen_ne_zero (i : Nat) : gen i ≠ 0 := by
  intro h
  have hone : mul (gen (255 * i - i)) (gen i) = 1 := by
    rw [mul_gen, Nat.sub_add_cancel (by omega), ← Nat.zero_add (255 * i), gen_add_mul]
    rfl
  rw [h, mul_zero] at hone
  exact absurd hone (by decide)

/-- Equal powers are a multiple of 255 apart. -/
theorem gen_eq_of_le {i j : Nat} (hij : i ≤ j) (hj : j < i + 255) (h : gen i = gen j) : i = j := by
  by_contra hne
  refine gen_ne_one (j - i) (by omega) (by omega) ?_
  -- the power that takes `gen i` to 1 takes `gen j` to `gen (j - i)`
  have hi : mul (gen (255 * i - i)) (gen i) = 1 := by
    rw [mul_gen, Nat.sub_add_cancel (by omega), ← Nat.zero_add (255 * i), gen_add_mul]
    rfl
  rw [h, mul_gen, show 255 * i - i + j = j - i + 255 * i by omega, gen_add_mul] at hi
  exact hi

theorem gen_inj {i j : Nat} (hi : i ∈ Finset.Icc 1 255) (hj : j ∈ Finset.Icc 1 255)
    (h : gen i = gen j) : i = j := by
  rw [Finset.mem_Icc] at hi hj
  rcases Nat.le_total i j with hle | hle
  · exact gen_eq_of_le hle (by omega) h
  · exact (gen_eq_of_le hle (by omega) h.symm).symm

/-- Each byte but 0 is a power. -/
theorem exists_gen {b : UInt8} (h : b ≠ 0) : ∃ i, 1 ≤ i ∧ i ≤ 255 ∧ gen i = b := by
  have hsub : (Finset.Icc 1 255).image (fun i => (gen i).toNat) ⊆ Finset.Icc 1 255 := by
    intro n hn
    obtain ⟨i, -, rfl⟩ := Finset.mem_image.mp hn
    have hlt := (gen i).toNat_lt
    have hpos : (gen i).toNat ≠ 0 := fun hz => gen_ne_zero i (UInt8.toNat_inj.mp hz)
    rw [Finset.mem_Icc]
    omega
  have hcard : ((Finset.Icc 1 255).image fun i => (gen i).toNat).card = 255 := by
    rw [Finset.card_image_of_injOn fun i hi j hj h => gen_inj hi hj (UInt8.toNat_inj.mp h)]
    simp
  have himage := Finset.eq_of_subset_of_card_le hsub (by rw [hcard]; simp)
  have hmem : b.toNat ∈ Finset.Icc 1 255 := by
    have hlt := b.toNat_lt
    have hpos : b.toNat ≠ 0 := fun hz => h (UInt8.toNat_inj.mp hz)
    rw [Finset.mem_Icc]
    omega
  rw [← himage] at hmem
  obtain ⟨i, hi, hb⟩ := Finset.mem_image.mp hmem
  rw [Finset.mem_Icc] at hi
  exact ⟨i, hi.1, hi.2, UInt8.toNat_inj.mp hb⟩

/-! ## Inverses -/

theorem zero_mulBits (n : Nat) (a : UInt8) : mulBits n 0 a = 0 := by
  induction n generalizing a with
  | zero => rfl
  | succ n ih => exact (UInt8.zero_xor).trans (ih (xtime a))

theorem inv_zero : inv 0 = 0 := zero_mulBits 8 (power 0 253)

/-- **The inverse of a power.** -/
theorem inv_gen {i : Nat} (h : i ≤ 255) : inv (gen i) = gen (255 - i) := by
  rw [inv, power_gen, ← gen_mod (i * 254), ← gen_mod (255 - i)]
  congr 1
  omega

theorem mul_inv {b : UInt8} (h : b ≠ 0) : mul b (inv b) = 1 := by
  obtain ⟨i, -, hi, rfl⟩ := exists_gen h
  rw [inv_gen hi, mul_gen, Nat.add_sub_cancel' hi, gen_255]

theorem inv_inv (b : UInt8) : inv (inv b) = b := by
  by_cases h : b = 0
  · rw [h, inv_zero, inv_zero]
  · obtain ⟨i, -, hi, rfl⟩ := exists_gen h
    rw [inv_gen hi, inv_gen (Nat.sub_le _ _), Nat.sub_sub_self hi]

end ByteField

end QcloudIot.Lib
