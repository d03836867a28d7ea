import Mathlib.Data.List.Basic

/-!
# Strings packed behind one another

Strings without the terminator `t`, each followed by it (`pack`), and the walk over them that goes
past one terminator after another (`skip`).

* `upTo_ended`: the first string;
* `skip_pack`: past the first `k`;
* `upTo_skip_pack`: the one behind them.
-/

namespace QcloudIot.Lib

variable {α : Type*} [DecidableEq α] {t : α} {x s rest : List α} {xs : List (List α)} {k : Nat}

/-- The strings, each ended by `t`. -/
def pack (t : α) : List (List α) → List α
  | [] => []
  | x :: xs => x ++ t :: pack t xs

/-- What precedes the first `t`. -/
def upTo (t : α) (s : List α) : List α := s.takeWhile (· ≠ t)

/-- What follows the first `k` terminators. -/
def skip (t : α) : Nat → List α → List α
  | 0, s => s
  | k + 1, s => skip t k (s.drop ((upTo t s).length + 1))

/-- The first string. -/
theorem upTo_ended (h : t ∉ x) : upTo t (x ++ t :: s) = x := by
  unfold upTo
  rw [List.takeWhile_append_of_pos, List.takeWhile_cons_of_neg (by simp), List.append_nil]
  intro a ha
  exact decide_eq_true fun h0 => h (h0 ▸ ha)

theorem skip_one (h : t ∉ x) : skip t (k + 1) (x ++ t :: s) = skip t k s := by
  have hdrop : (x ++ t :: s).drop (x.length + 1) = s := by
    rw [List.drop_length_add_append]
    rfl
  rw [skip, upTo_ended h, hdrop]

/-- **Past the first `k` strings.** -/
theorem skip_pack : ∀ {k : Nat} {xs : List (List α)}, (∀ x ∈ xs, t ∉ x) → k ≤ xs.length →
    skip t k (pack t xs ++ rest) = pack t (xs.drop k) ++ rest
  | 0, _, _, _ => rfl
  | k + 1, [], _, hk => absurd hk (Nat.not_succ_le_zero k)
  | k + 1, x :: xs, h, hk => by
    rw [pack, List.append_assoc, List.cons_append, skip_one (h x List.mem_cons_self),
      skip_pack (fun y hy => h y (List.mem_cons_of_mem x hy)) (Nat.le_of_succ_le_succ hk),
      List.drop_succ_cons]

/-- **The string behind the first `k`.** -/
theorem upTo_skip_pack (h : ∀ x ∈ xs, t ∉ x) (hk : k < xs.length) :
    upTo t (skip t k (pack t xs ++ rest)) = xs[k] := by
  rw [skip_pack h (Nat.le_of_lt hk), List.drop_eq_getElem_cons hk, pack, List.append_assoc,
    List.cons_append, upTo_ended (h _ (List.getElem_mem hk))]

end QcloudIot.Lib
