import Mathlib.Data.List.Basic

/-!
# Hashing block by block

A hash that works on blocks of `n` symbols goes through its input with a compression function
`process : σ → List α → σ`. Fed in pieces, it keeps what does not fill a block for later.

* `absorb`: the state after the whole blocks of an input, and the part that is left;
* `absorb_append`: an input fed in two pieces is the input fed at once, so the pieces do not matter.
-/

namespace QcloudIot.Lib

variable {σ α : Type*} (process : σ → List α → σ) (n : Nat)

/-- The first `count` blocks, and the rest. -/
def blocks : (count : Nat) → σ → List α → σ × List α
  | 0, s, xs => (s, xs)
  | count + 1, s, xs => blocks count (process s (xs.take n)) (xs.drop n)

/-- All whole blocks, and the rest. -/
def absorb (s : σ) (xs : List α) : σ × List α := blocks process n (xs.length / n) s xs

variable {process n}

theorem absorb_of_lt {s : σ} {xs : List α} (h : xs.length < n) :
    absorb process n s xs = (s, xs) := by
  rw [absorb, Nat.div_eq_of_lt h]
  rfl

/-- One block. -/
theorem absorb_of_ge (hn : 0 < n) {s : σ} {xs : List α} (h : n ≤ xs.length) :
    absorb process n s xs = absorb process n (process s (xs.take n)) (xs.drop n) := by
  rw [absorb, absorb, Nat.div_eq_sub_div hn h, blocks, List.length_drop]

/-- Induction block by block. -/
theorem block_induction (hn : 0 < n) {motive : List α → Prop}
    (short : ∀ xs, xs.length < n → motive xs)
    (long : ∀ xs, n ≤ xs.length → motive (xs.drop n) → motive xs) : ∀ xs, motive xs := by
  intro xs
  by_cases h : n ≤ xs.length
  · exact long xs h (block_induction hn short long (xs.drop n))
  · exact short xs (Nat.lt_of_not_le h)
termination_by xs => xs.length
decreasing_by
  rw [List.length_drop]
  omega

/-- What is left does not fill a block. -/
theorem length_absorb_rest (hn : 0 < n) (s : σ) (xs : List α) :
    (absorb process n s xs).2.length = xs.length % n := by
  induction xs using block_induction hn generalizing s with
  | short xs h => rw [absorb_of_lt h, Nat.mod_eq_of_lt h]
  | long xs h ih => rw [absorb_of_ge hn h, ih, List.length_drop, Nat.mod_eq_sub_mod h]

/-- **Two pieces.** -/
theorem absorb_append (hn : 0 < n) (s : σ) (xs ys : List α) :
    absorb process n s (xs ++ ys) =
      absorb process n (absorb process n s xs).1 ((absorb process n s xs).2 ++ ys) := by
  induction xs using block_induction hn generalizing s with
  | short xs h => rw [absorb_of_lt h]
  | long xs h ih =>
    have hlong : n ≤ (xs ++ ys).length := by
      rw [List.length_append]
      omega
    rw [absorb_of_ge hn hlong, List.take_append_of_le_length h,
      List.drop_append_of_le_length h, ih, absorb_of_ge hn h]

end QcloudIot.Lib
