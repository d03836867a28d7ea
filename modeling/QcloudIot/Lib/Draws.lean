import Mathlib.Data.List.Nodup
import Mathlib.Data.List.Range
import Mathlib.Logic.Function.Iterate

/-!
# Calls in a row

A machine hands out a value with each call: the result of `call s` is the value and the state it
leaves. `draws call n s` are the values of `n` calls in a row.

Where every call hands out the next value of a counter (`IsCounter`), the values are those of the
counter one after the other (`IsCounter.draws_eq`), and where the counter comes back to a value after
`N` more at the earliest, `N` calls in a row hand out distinct values (**`IsCounter.nodup_draws`**).
-/

namespace QcloudIot.Lib

variable {σ α : Type*}

/-- The values of `n` calls in a row. -/
def draws (call : σ → α × σ) : (n : Nat) → σ → List α
  | 0, _ => []
  | n + 1, s => (call s).1 :: draws call n (call s).2

/-- Every call hands out the value that comes next, and the counter then stands there. -/
structure IsCounter (call : σ → α × σ) (last : σ → α) (next : α → α) : Prop where
  value : ∀ s, (call s).1 = next (last s)
  stands : ∀ s, last (call s).2 = next (last s)

variable {call : σ → α × σ} {last : σ → α} {next : α → α}

@[simp] theorem length_draws (n : Nat) (s : σ) : (draws call n s).length = n := by
  induction n generalizing s with
  | zero => rfl
  | succ n ih => rw [draws, List.length_cons, ih]

/-- The values are the counter's, one after the other. -/
theorem IsCounter.draws_eq (h : IsCounter call last next) (n : Nat) (s : σ) :
    draws call n s = (List.range n).map fun j => next^[j + 1] (last s) := by
  induction n generalizing s with
  | zero => rfl
  | succ n ih =>
    rw [draws, ih, h.value, h.stands, List.range_succ_eq_map, List.map_cons, List.map_map]
    rfl

/-- Every value is one that comes next to another. -/
theorem IsCounter.exists_of_mem_draws (h : IsCounter call last next) {n : Nat} {s : σ} {x : α}
    (hx : x ∈ draws call n s) : ∃ y, x = next y := by
  rw [h.draws_eq] at hx
  obtain ⟨j, -, rfl⟩ := List.mem_map.mp hx
  exact ⟨next^[j] (last s), Function.iterate_succ_apply' next j (last s)⟩

/-- Two values of the counter that are equal stand a whole round apart. -/
theorem dvd_sub_of_iterate_eq {N : Nat} (hround : ∀ i k, next^[k] (next i) = next i → N ∣ k) {i : α}
    {j k : Nat} (hjk : j ≤ k) (heq : next^[j + 1] i = next^[k + 1] i) : N ∣ k - j := by
  refine hround (next^[j] i) (k - j) ?_
  rw [← Function.iterate_succ_apply' next j i, ← Function.iterate_add_apply,
    show k - j + (j + 1) = k + 1 by omega]
  exact heq.symm

/-- **Calls in a row**: before the counter comes round, the values are distinct. -/
theorem IsCounter.nodup_draws (h : IsCounter call last next) {N : Nat}
    (hround : ∀ i k, next^[k] (next i) = next i → N ∣ k) {n : Nat} (hn : n ≤ N) (s : σ) :
    (draws call n s).Nodup := by
  rw [h.draws_eq]
  refine List.Nodup.map_on (fun j hj k hk heq => ?_) List.nodup_range
  rw [List.mem_range] at hj hk
  rcases Nat.le_total j k with hjk | hkj
  · have hdvd := dvd_sub_of_iterate_eq hround hjk heq
    have hzero := Nat.eq_zero_of_dvd_of_lt hdvd (by omega)
    omega
  · have hdvd := dvd_sub_of_iterate_eq hround hkj heq.symm
    have hzero := Nat.eq_zero_of_dvd_of_lt hdvd (by omega)
    omega

end QcloudIot.Lib
