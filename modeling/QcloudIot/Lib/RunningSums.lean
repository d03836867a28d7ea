import Mathlib.Algebra.BigOperators.Group.List.Basic
import Mathlib.Data.Nat.ModEq

/-!
# Running sums

Numbers sent as the differences of each to the one before: `sums s` adds them up from `s` on, and
`sumsMod M s` does so modulo `M`, as a counter of fixed width.

* `sums_ascending`: the numbers do not go down;
* **`sumsMod_eq_sums_iff`**: the counter has the true numbers iff it adds every difference as it is,
  modulo `M`, and the last number is below `M`.
-/

namespace QcloudIot.Lib

/-- The running sums of the differences, from `s` on. -/
def sums (s : Nat) : List Nat → List Nat
  | [] => []
  | d :: ds => (s + d) :: sums (s + d) ds

/-- The same in a counter that wraps at `M`. -/
def sumsMod (M s : Nat) : List Nat → List Nat
  | [] => []
  | d :: ds => ((s + d) % M) :: sumsMod M ((s + d) % M) ds

theorem le_of_mem_sums {n s : Nat} {ds : List Nat} (h : n ∈ sums s ds) : s ≤ n := by
  induction ds generalizing s with
  | nil => exact absurd h List.not_mem_nil
  | cons d ds ih =>
    rcases List.mem_cons.mp h with rfl | h
    · exact Nat.le_add_right s d
    · exact le_trans (Nat.le_add_right s d) (ih h)

theorem sums_ascending (s : Nat) (ds : List Nat) : (sums s ds).Pairwise (· ≤ ·) := by
  induction ds generalizing s with
  | nil => exact .nil
  | cons d ds ih => exact .cons (fun _ h => le_of_mem_sums h) (ih (s + d))

/-- **A counter is right** as long as it is given the differences and does not wrap. -/
theorem sumsMod_eq_sums_iff {δ : Type*} {M : Nat} (given sent : δ → Nat) {s : Nat} {ds : List δ}
    (hs : s < M) : sumsMod M s (ds.map given) = sums s (ds.map sent) ↔
      (∀ d ∈ ds, given d % M = sent d % M) ∧ s + (ds.map sent).sum < M := by
  induction ds generalizing s with
  | nil => simpa [sums, sumsMod] using hs
  | cons d ds ih =>
    have hM : 0 < M := Nat.zero_lt_of_lt hs
    -- one step is right iff the difference is and the number is below `M`
    have hhere : (s + given d) % M = s + sent d ↔
        given d % M = sent d % M ∧ s + sent d < M := by
      constructor
      · intro h
        have hlt : s + sent d < M := h ▸ Nat.mod_lt _ hM
        refine ⟨?_, hlt⟩
        have hmod : (s + given d) % M = (s + sent d) % M := h.trans (Nat.mod_eq_of_lt hlt).symm
        exact Nat.ModEq.add_left_cancel' s hmod
      · rintro ⟨h, hlt⟩
        rw [Nat.add_mod, h, ← Nat.add_mod, Nat.mod_eq_of_lt hlt]
    simp only [List.map_cons, sums, sumsMod, List.cons.injEq, List.forall_mem_cons, List.sum_cons]
    constructor
    · rintro ⟨hd, hds⟩
      obtain ⟨hgiven, hlt⟩ := hhere.mp hd
      rw [hd] at hds
      obtain ⟨hall, hsum⟩ := (ih hlt).mp hds
      exact ⟨⟨hgiven, hall⟩, by omega⟩
    · rintro ⟨⟨hgiven, hall⟩, hsum⟩
      have hlt : s + sent d < M := by omega
      have hd := hhere.mpr ⟨hgiven, hlt⟩
      rw [hd]
      exact ⟨rfl, (ih hlt).mpr ⟨hall, by omega⟩⟩

end QcloudIot.Lib
