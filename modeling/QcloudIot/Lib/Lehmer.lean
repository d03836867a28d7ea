import Mathlib.Data.Int.ModEq
import Mathlib.RingTheory.Coprime.Lemmas
import Mathlib.Tactic.Ring

/-!
# Multiplicative generators

A generator that steps from `x` to `a * x mod m`. Where `a` is coprime to `m` it stays off 0, and
where `a - 1` is so too no step stands still (`lehmer_pos`, `lehmer_ne`).

Schrage's way to compute a step without the product: with `m = a * q + r`, the remainder of `x` by
`q` and its quotient are multiplied apart, and the difference is put right by `m` where it is
negative. Neither product, nor the difference, is as great as `m` (`schrage_bounds`), and the step is
exact (**`schrageStep_eq`**).
-/

namespace QcloudIot.Lib

/-- A step of the generator. -/
def lehmer (a m x : Int) : Int := a * x % m

/-- Schrage's difference. -/
def schrage (a q r x : Int) : Int := a * x.tmod q - r * x.tdiv q

/-- Schrage's step. -/
def schrageStep (a q r m x : Int) : Int :=
  if schrage a q r x < 0 then schrage a q r x + m else schrage a q r x

variable {a m q r x b : Int}

/-! ## The generator -/

theorem lehmer_range (hm : 0 < m) (a x : Int) : 0 ≤ lehmer a m x ∧ lehmer a m x < m :=
  ⟨Int.emod_nonneg _ (Int.ne_of_gt hm), Int.emod_lt_of_pos _ hm⟩

/-- The steps in a row. -/
theorem iterate_lehmer (hx : 0 ≤ x) (hxm : x < m) (n : Nat) :
    (lehmer a m)^[n] x = a ^ n * x % m := by
  induction n with
  | zero => rw [Function.iterate_zero_apply, pow_zero, one_mul, Int.emod_eq_of_lt hx hxm]
  | succ n ih =>
    rw [Function.iterate_succ_apply', ih, lehmer, Int.mul_emod, Int.emod_emod, ← Int.mul_emod,
      ← mul_assoc, ← pow_succ']

theorem lehmer_eq_zero_iff (h : IsCoprime a m) : lehmer a m x = 0 ↔ m ∣ x := by
  rw [lehmer, ← Int.dvd_iff_emod_eq_zero]
  exact ⟨h.symm.dvd_of_dvd_mul_left, fun hdvd => Dvd.dvd.mul_left hdvd a⟩

theorem not_dvd_of_range (hx : 0 < x) (hxm : x < m) : ¬m ∣ x := fun hdvd =>
  absurd (Int.le_of_dvd hx hdvd) (Int.not_le.mpr hxm)

/-- A step stays off 0. -/
theorem lehmer_pos (h : IsCoprime a m) (hx : 0 < x) (hxm : x < m) : 0 < lehmer a m x := by
  have hne : lehmer a m x ≠ 0 := fun hzero =>
    not_dvd_of_range hx hxm ((lehmer_eq_zero_iff h).mp hzero)
  have hrange := lehmer_range (hx.trans hxm) a x
  omega

/-- No step stands still. -/
theorem lehmer_ne (h : IsCoprime (a - 1) m) (hx : 0 < x) (hxm : x < m) : lehmer a m x ≠ x := by
  intro heq
  have hmod : a * x ≡ x [ZMOD m] := by
    rw [Int.ModEq, ← lehmer, heq, Int.emod_eq_of_lt hx.le hxm]
  have hdvd : m ∣ (a - 1) * x := by
    have hsub := hmod.symm.dvd
    rwa [show a * x - x = (a - 1) * x by ring] at hsub
  exact not_dvd_of_range hx hxm (h.symm.dvd_of_dvd_mul_left hdvd)

/-- What stays off 0 and below `m` after one step does so after any number of them. -/
theorem iterate_lehmer_range (h : IsCoprime a m) (hx : 0 < x) (hxm : x < m) (n : Nat) :
    0 < (lehmer a m)^[n] x ∧ (lehmer a m)^[n] x < m := by
  induction n with
  | zero => exact ⟨hx, hxm⟩
  | succ n ih =>
    rw [Function.iterate_succ_apply']
    exact ⟨lehmer_pos h ih.1 ih.2, (lehmer_range (hx.trans hxm) a _).2⟩

/-! ## Schrage's step -/

/-- The difference is the product, less a multiple of `m`. -/
theorem schrage_eq (hm : m = a * q + r) (x : Int) : schrage a q r x = a * x - m * x.tdiv q := by
  have hdiv := Int.tmod_add_mul_tdiv x q
  calc schrage a q r x = a * (x.tmod q + q * x.tdiv q) - (a * q + r) * x.tdiv q := by
        rw [schrage]
        ring
    _ = a * x - m * x.tdiv q := by rw [hdiv, hm]

section Bounds

variable (hm : m = a * q + r) (ha : 0 < a) (hq : 0 < q) (hr : 0 ≤ r)
include hm ha hq hr

/-- The two products of a number that is not negative. -/
theorem schrage_products (hx : 0 ≤ x) (hxb : x ≤ b) (hb : r * (b / q) < m) :
    (0 ≤ a * x.tmod q ∧ a * x.tmod q < m) ∧ (0 ≤ r * x.tdiv q ∧ r * x.tdiv q < m) := by
  rw [Int.tmod_eq_emod_of_nonneg hx, Int.tdiv_eq_ediv_of_nonneg hx]
  have hmod := Int.emod_nonneg x (Int.ne_of_gt hq)
  have hlt := Int.emod_lt_of_pos x hq
  refine ⟨⟨Int.mul_nonneg ha.le hmod, ?_⟩, Int.mul_nonneg hr (Int.ediv_nonneg hx hq.le), ?_⟩
  · calc a * (x % q) < a * q := Int.mul_lt_mul_of_pos_left hlt ha
      _ ≤ m := by omega
  · calc r * (x / q) ≤ r * (b / q) :=
          Int.mul_le_mul_of_nonneg_left (Int.ediv_le_ediv hq hxb) hr
      _ < m := hb

/-- **No number on the way is as great as `m`.** -/
theorem schrage_bounds (hxb : -b ≤ x ∧ x ≤ b) (hb : r * (b / q) < m) :
    (-m < a * x.tmod q ∧ a * x.tmod q < m) ∧ (-m < r * x.tdiv q ∧ r * x.tdiv q < m) ∧
      (-m < schrage a q r x ∧ schrage a q r x < m) := by
  unfold schrage
  rcases Int.le_total 0 x with hx | hx
  · obtain ⟨hlow, hhigh⟩ := schrage_products hm ha hq hr hx hxb.2 hb
    omega
  · obtain ⟨hlow, hhigh⟩ :=
      schrage_products (x := -x) hm ha hq hr (by omega) (by omega) hb
    rw [Int.neg_tmod, Int.mul_neg] at hlow
    rw [Int.neg_tdiv, Int.mul_neg] at hhigh
    omega

/-- **Schrage's step is exact.** -/
theorem schrageStep_eq (hxb : -b ≤ x ∧ x ≤ b) (hb : r * (b / q) < m) :
    schrageStep a q r m x = lehmer a m x := by
  obtain ⟨-, -, hgt, hlt⟩ := schrage_bounds hm ha hq hr hxb hb
  have hmod : schrage a q r x % m = lehmer a m x := by
    rw [schrage_eq hm, lehmer, Int.sub_mul_emod_self_left]
  rw [schrageStep, ← hmod]
  split
  · rw [← Int.add_emod_right, Int.emod_eq_of_lt (by omega) (by omega)]
  · rw [Int.emod_eq_of_lt (by omega) hlt]

end Bounds

end QcloudIot.Lib
