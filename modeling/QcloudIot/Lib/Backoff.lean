import Mathlib.Data.List.Pairwise
import Mathlib.Tactic.Ring

/-!
# Exponential back-off

Waits of which each is at least twice the one before and none is longer than a limit
(`Doubling limit start`). They grow, and there are few of them: `Doubling.pairwise` and
`Doubling.bound`.
-/

namespace QcloudIot.Lib

/-- The waits are at most `limit`, the first at least `start`, and each at least twice the one before. -/
inductive Doubling (limit : Nat) : (start : Nat) → List Nat → Prop where
  | nil (start : Nat) : Doubling limit start []
  | cons {start w : Nat} {ws : List Nat} (hstart : start ≤ w) (hlimit : w ≤ limit)
      (h : Doubling limit (2 * w) ws) : Doubling limit start (w :: ws)

namespace Doubling

variable {limit start : Nat} {ws : List Nat}

theorem mono {start' : Nat} (h : Doubling limit start ws) (hle : start' ≤ start) :
    Doubling limit start' ws := by
  cases h with
  | nil => exact .nil _
  | cons hstart hlimit h => exact .cons (Nat.le_trans hle hstart) hlimit h

theorem le_of_mem (h : Doubling limit start ws) : ∀ w ∈ ws, start ≤ w := by
  induction h with
  | nil => exact fun w hw => absurd hw List.not_mem_nil
  | cons hstart _ _ ih =>
    intro w hw
    rcases List.mem_cons.mp hw with rfl | hw
    · exact hstart
    · have := ih w hw
      omega

/-- The waits grow. -/
theorem pairwise (h : Doubling limit start ws) (hpos : 0 < start) : ws.Pairwise (· < ·) := by
  induction h with
  | nil => exact List.Pairwise.nil
  | @cons start w ws hstart _ h ih =>
    refine List.Pairwise.cons (fun w' hw' => ?_) (ih (by omega))
    have := h.le_of_mem w' hw'
    omega

/-- After `n` waits there was room for as many doublings less one. -/
theorem bound (h : Doubling limit start ws) {n : Nat} (hn : ws.length = n + 1) :
    start * 2 ^ n ≤ limit := by
  induction h generalizing n with
  | nil => exact absurd hn (by simp)
  | @cons start w ws hstart hlimit h ih =>
    have hle : start * 2 ^ n ≤ w * 2 ^ n := Nat.mul_le_mul_right _ hstart
    rw [List.length_cons] at hn
    cases n with
    | zero => omega
    | succ n =>
      have hrest := ih (n := n) (by omega)
      calc start * 2 ^ (n + 1) ≤ w * 2 ^ (n + 1) := hle
        _ = 2 * w * 2 ^ n := by rw [Nat.pow_succ]; ring
        _ ≤ limit := hrest

end Doubling

end QcloudIot.Lib
