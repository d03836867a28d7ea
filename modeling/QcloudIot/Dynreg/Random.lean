import Mathlib.Tactic.NormNum
import Mathlib.Tactic.NormNum.IsCoprime
import QcloudIot.Lib.Lehmer

/-!
# The generator of the nonce

`rand_r`, `rand_d` and `srand_d` of `dynreg.c`: a multiplicative generator modulo `2^31 - 1`, whose step
is computed in `int32_t` by Schrage's way. A signed operation whose value does not fit is undefined:
`int32` gives none.

## Results

* `randR_eq`: the step overflows for no seed at all, and is the exact one of the seed as a signed number;
* `randDs_eq`: so are all steps of a run;
* **`randD_runs`**: from a seed between 1 and `2^31 - 2` the numbers are the powers of `A` times the seed,
  in the same range, and no state stands still;
* `nonce_eq_zero_iff`: the three times at which the nonce is 0.
-/

namespace QcloudIot.Dynreg.Random

open QcloudIot.Lib

/-- `M`. -/
def M : UInt32 := ((1 : UInt32) <<< 31) - 1

/-- `A`. -/
def A : Int := 48271

/-- `Q`, which is `M / A`. -/
def Q : Int := 44488

/-- `R`, which is `M % A`. -/
def R : Int := 3399

/-- What an operation on `int32_t` yields, if its value fits. -/
def int32 (x : Int) : Option Int :=
  if -2147483648 ≤ x ∧ x ≤ 2147483647 then some x else none

/-- 32 bits as an `int32_t`. -/
def toInt32 (u : UInt32) : Int :=
  if u.toNat ≤ 2147483647 then u.toNat else u.toNat - 4294967296

/-- `rand_r`: what it returns, and the seed it leaves. -/
def randR (seed : UInt32) : Option (Int × UInt32) := do
  let x := toInt32 seed
  let low ← int32 (A * x.tmod Q)
  let high ← int32 (R * x.tdiv Q)
  let x ← int32 (low - high)
  -- `M` is unsigned, so the sum is taken without sign
  let x := if x < 0 then toInt32 (UInt32.ofInt x + M) else x
  return (x, UInt32.ofInt x)

/-- `_seed`, as it is at first. -/
def firstSeed : UInt32 := 1

/-- `srand_d`: the seed it leaves. -/
def srandD (i : UInt32) : UInt32 := i

/-- `rand_d`, from the global seed. -/
def randD (seed : UInt32) : Option (Int × UInt32) := randR seed

/-- What `n` calls of `rand_d` return, and the seed they leave. -/
def randDs : (n : Nat) → UInt32 → Option (List Int × UInt32)
  | 0, seed => some ([], seed)
  | n + 1, seed => do
    let (x, seed) ← randD seed
    let (xs, seed) ← randDs n seed
    return (x :: xs, seed)

/-- The nonce of a registration, which seeds the generator with the time (`IOT_DynReg_Device`). -/
def nonce (timeMs : UInt32) : Option Int := (randD (srandD timeMs)).map Prod.fst

/-! ## 32 bits with and without sign -/

theorem toNat_ofInt (x : Int) : (UInt32.ofInt x).toNat = (x % 4294967296).toNat := by
  rw [UInt32.ofInt, UInt32.toNat_ofNat']
  omega

theorem toNat_ofInt_natCast {n : Nat} (h : n ≤ 2147483646) : (UInt32.ofInt n).toNat = n := by
  rw [toNat_ofInt]
  omega

theorem toInt32_ofInt {x : Int} (hx : 0 ≤ x) (hx' : x < 2147483647) :
    toInt32 (UInt32.ofInt x) = x := by
  rw [toInt32, toNat_ofInt]
  split <;> omega

theorem ofInt_toInt32 (u : UInt32) : UInt32.ofInt (toInt32 u) = u := by
  have hlt := u.toNat_lt
  rw [← UInt32.toNat_inj, toNat_ofInt, toInt32]
  split <;> omega

theorem toInt32_range (u : UInt32) : -2147483648 ≤ toInt32 u ∧ toInt32 u ≤ 2147483648 := by
  have hlt := u.toNat_lt
  unfold toInt32
  split <;> omega

theorem toInt32_of_le {u : UInt32} (h : u.toNat ≤ 2147483647) : toInt32 u = u.toNat :=
  if_pos h

theorem int32_eq {x : Int} (h : -2147483647 < x ∧ x < 2147483647) : int32 x = some x :=
  if_pos ⟨by omega, by omega⟩

/-- `X += M` for a negative `X`. -/
theorem toInt32_add_M {x : Int} (h : -2147483647 < x) (hneg : x < 0) :
    toInt32 (UInt32.ofInt x + M) = x + 2147483647 := by
  have hM : M.toNat = 2147483647 := rfl
  have hsum : (UInt32.ofInt x + M).toNat = (x + 2147483647).toNat := by
    rw [UInt32.toNat_add, toNat_ofInt, hM]
    omega
  rw [toInt32, hsum]
  split <;> omega

/-! ## The step -/

theorem A_coprime : IsCoprime A 2147483647 := by
  rw [A]
  norm_num

theorem A_sub_one_coprime : IsCoprime (A - 1) 2147483647 := by
  rw [A]
  norm_num

/-- No operation of a step overflows, whatever the seed. -/
theorem randR_bounds (seed : UInt32) :
    (-2147483647 < A * (toInt32 seed).tmod Q ∧ A * (toInt32 seed).tmod Q < 2147483647) ∧
    (-2147483647 < R * (toInt32 seed).tdiv Q ∧ R * (toInt32 seed).tdiv Q < 2147483647) ∧
      (-2147483647 < schrage A Q R (toInt32 seed) ∧ schrage A Q R (toInt32 seed) < 2147483647) :=
  schrage_bounds (by decide) (by decide) (by decide) (by decide) (toInt32_range seed) (by decide)

/-- **The step of `rand_r`**, for every seed. -/
theorem randR_eq (seed : UInt32) : randR seed =
    some (lehmer A 2147483647 (toInt32 seed), UInt32.ofInt (lehmer A 2147483647 (toInt32 seed))) := by
  obtain ⟨hlow, hhigh, hdiff⟩ := randR_bounds seed
  have hstep : schrageStep A Q R 2147483647 (toInt32 seed) = lehmer A 2147483647 (toInt32 seed) :=
    schrageStep_eq (by decide) (by decide) (by decide) (by decide) (toInt32_range seed) (by decide)
  have hput : (if schrage A Q R (toInt32 seed) < 0 then
      toInt32 (UInt32.ofInt (schrage A Q R (toInt32 seed)) + M) else schrage A Q R (toInt32 seed)) =
        lehmer A 2147483647 (toInt32 seed) := by
    rw [← hstep, schrageStep]
    split
    · rename_i hneg
      exact toInt32_add_M hdiff.1 hneg
    · rfl
  unfold schrage at hdiff hput
  simp only [randR, int32_eq hlow, int32_eq hhigh, int32_eq hdiff, hput, Option.bind_eq_bind,
    Option.bind_some, Option.pure_def]

/-! ## Runs -/

theorem toInt32_step (x : Int) :
    toInt32 (UInt32.ofInt (lehmer A 2147483647 x)) = lehmer A 2147483647 x := by
  obtain ⟨hnonneg, hlt⟩ := lehmer_range (m := 2147483647) (by decide) A x
  exact toInt32_ofInt hnonneg hlt

/-- **The calls of `rand_d` in a row**, from every seed. -/
theorem randDs_eq (n : Nat) (seed : UInt32) : randDs n seed =
    some ((List.range n).map fun j => (lehmer A 2147483647)^[j + 1] (toInt32 seed),
      UInt32.ofInt ((lehmer A 2147483647)^[n] (toInt32 seed))) := by
  induction n generalizing seed with
  | zero => rw [randDs, Function.iterate_zero_apply, ofInt_toInt32, List.range_zero, List.map_nil]
  | succ n ih =>
    have hrest := ih (UInt32.ofInt (lehmer A 2147483647 (toInt32 seed)))
    rw [toInt32_step] at hrest
    simp only [randDs, randD, randR_eq, hrest, Option.bind_eq_bind, Option.bind_some,
      Option.pure_def]
    rw [List.range_succ_eq_map, List.map_cons, List.map_map]
    rfl

section InRange

variable {seed : UInt32} (hpos : 1 ≤ seed.toNat) (hle : seed.toNat ≤ 2147483646)
include hpos hle

/-- The number after `n` steps. -/
theorem iterate_eq (n : Nat) : (lehmer A 2147483647)^[n] (toInt32 seed) =
    (48271 ^ n * seed.toNat % 2147483647 : Nat) := by
  rw [toInt32_of_le (by omega), iterate_lehmer (by omega) (by omega), A]
  push_cast
  rfl

/-- It stays in the range. -/
theorem iterate_range (n : Nat) : 1 ≤ 48271 ^ n * seed.toNat % 2147483647 ∧
    48271 ^ n * seed.toNat % 2147483647 ≤ 2147483646 := by
  have hx := toInt32_of_le (u := seed) (by omega)
  have hrange := iterate_lehmer_range A_coprime (x := toInt32 seed) (by omega) (by omega) n
  rw [iterate_eq hpos hle n] at hrange
  omega

/-- What a step leaves. -/
theorem randR_inRange : ∃ seed', randR seed = some (((seed'.toNat : Nat) : Int), seed') ∧
    seed'.toNat = 48271 * seed.toNat % 2147483647 ∧
    1 ≤ seed'.toNat ∧ seed'.toNat ≤ 2147483646 ∧ seed' ≠ seed := by
  have hval := iterate_eq hpos hle 1
  have hrange := iterate_range hpos hle 1
  have hx := toInt32_of_le (u := seed) (by omega)
  have hmoves := lehmer_ne A_sub_one_coprime (x := toInt32 seed) (by omega) (by omega)
  rw [Function.iterate_one, pow_one] at hval
  rw [pow_one] at hrange
  have hnat : (UInt32.ofInt (lehmer A 2147483647 (toInt32 seed))).toNat =
      48271 * seed.toNat % 2147483647 := by
    rw [hval]
    exact toNat_ofInt_natCast hrange.2
  refine ⟨UInt32.ofInt (lehmer A 2147483647 (toInt32 seed)), ?_, hnat, ?_, ?_, ?_⟩
  · rw [randR_eq, hnat, hval]
  · rw [hnat]
    exact hrange.1
  · rw [hnat]
    exact hrange.2
  · intro heq
    rw [heq] at hnat
    rw [hval, hx] at hmoves
    exact hmoves (congrArg Nat.cast hnat.symm)

end InRange

/-- **The generator of the nonce**: from a seed in the range a step is exact, with no overflow, and so
is every run, which never comes to a state that stands still. -/
theorem randD_runs (seed : UInt32) (hpos : 1 ≤ seed.toNat) (hle : seed.toNat ≤ 2147483646) :
    (∃ seed', randR seed = some (((seed'.toNat : Nat) : Int), seed') ∧
      seed'.toNat = 48271 * seed.toNat % 2147483647 ∧
      1 ≤ seed'.toNat ∧ seed'.toNat ≤ 2147483646) ∧
    ∀ n, ∃ xs seed', randDs n seed = some (xs, seed') ∧
      xs = (List.range n).map (fun j =>
        ((48271 ^ (j + 1) * seed.toNat % 2147483647 : Nat) : Int)) ∧
      seed'.toNat = 48271 ^ n * seed.toNat % 2147483647 ∧
      1 ≤ seed'.toNat ∧ seed'.toNat ≤ 2147483646 ∧
      ∃ next, randR seed' = some (((next.toNat : Nat) : Int), next) ∧ next ≠ seed' ∧
        1 ≤ next.toNat ∧ next.toNat ≤ 2147483646 := by
  refine ⟨?_, fun n => ?_⟩
  · obtain ⟨seed', hrand, hval, hge, hle', -⟩ := randR_inRange hpos hle
    exact ⟨seed', hrand, hval, hge, hle'⟩
  · have hrange := iterate_range hpos hle n
    have hnat : (UInt32.ofInt ((lehmer A 2147483647)^[n] (toInt32 seed))).toNat =
        48271 ^ n * seed.toNat % 2147483647 := by
      rw [iterate_eq hpos hle]
      exact toNat_ofInt_natCast hrange.2
    rw [← hnat] at hrange
    obtain ⟨next, hrand, -, hge, hle', hmoves⟩ := randR_inRange hrange.1 hrange.2
    refine ⟨_, _, randDs_eq n seed, ?_, hnat, hrange.1, hrange.2, next, hrand, hmoves, hge, hle'⟩
    exact List.map_congr_left fun j _ => iterate_eq hpos hle (j + 1)

/-- From the first seed. -/
theorem randD_runs_firstSeed : ∃ xs seed', randDs 1000 firstSeed = some (xs, seed') ∧
    1 ≤ seed'.toNat ∧ seed'.toNat ≤ 2147483646 := by
  obtain ⟨xs, seed', hruns, -, -, hge, hle, -⟩ :=
    (randD_runs firstSeed (by decide) (by decide)).2 1000
  exact ⟨xs, seed', hruns, hge, hle⟩

/-- The multiples of the modulus in 32 bits. -/
theorem dvd_toInt32_iff (u : UInt32) : 2147483647 ∣ toInt32 u ↔
    u.toNat = 0 ∨ u.toNat = 2147483647 ∨ u.toNat = 2147483649 := by
  have hlt := u.toNat_lt
  have hrange := toInt32_range u
  constructor
  · rintro ⟨k, hk⟩
    have hk' : k = -1 ∨ k = 0 ∨ k = 1 := by omega
    unfold toInt32 at hk
    rcases hk' with rfl | rfl | rfl
    all_goals split at hk <;> omega
  · rintro (h | h | h)
    all_goals rw [toInt32, h]; decide

/-- The times at which the nonce is 0. -/
theorem nonce_eq_zero_iff (timeMs : UInt32) : nonce timeMs = some 0 ↔
    timeMs = 0 ∨ timeMs = 2147483647 ∨ timeMs = 2147483649 := by
  rw [nonce, srandD, randD, randR_eq, Option.map_some, Option.some_inj,
    lehmer_eq_zero_iff A_coprime, dvd_toInt32_iff, ← UInt32.toNat_inj, ← UInt32.toNat_inj,
    ← UInt32.toNat_inj]
  rfl

end QcloudIot.Dynreg.Random
