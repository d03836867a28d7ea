import Mathlib.Data.List.Basic

/-!
# Sweeps from the tail

A loop that visits a list from its last element on and keeps or drops each element by a test that
also sees the number of elements already visited (`tailFilter`). Two such tests that agree with
each other's negation on the elements of interest split them (`tailFilter_split`).
-/

namespace QcloudIot.Lib

variable {α : Type*} {p q : Nat → α → Bool} {r : α → Bool}

/-- The elements that pass the test `p`, which sees how many elements follow. -/
def tailFilter (p : Nat → α → Bool) : List α → List α
  | [] => []
  | x :: xs => if p xs.length x then x :: tailFilter p xs else tailFilter p xs

theorem of_mem_tailFilter {x : α} {xs : List α} (h : x ∈ tailFilter p xs) :
    x ∈ xs ∧ ∃ k, p k x = true := by
  induction xs with
  | nil => exact absurd h (by simp [tailFilter])
  | cons y ys ih =>
    simp only [tailFilter] at h
    split at h
    · rename_i hp
      rcases List.mem_cons.mp h with rfl | h
      · exact ⟨List.mem_cons_self, _, hp⟩
      · obtain ⟨hx, hk⟩ := ih h
        exact ⟨List.mem_cons_of_mem y hx, hk⟩
    · obtain ⟨hx, hk⟩ := ih h
      exact ⟨List.mem_cons_of_mem y hx, hk⟩

theorem tailFilter_sublist (xs : List α) : (tailFilter p xs).Sublist xs := by
  induction xs with
  | nil => exact List.Sublist.slnil
  | cons x xs ih =>
    rw [tailFilter]
    split
    · exact ih.cons_cons x
    · exact ih.cons x

/-- Where `p` and `q` exclude each other on the elements that satisfy `r` and leave none of them
out, the two filters share these elements out. -/
theorem tailFilter_split (hpq : ∀ k x, r x = true → p k x = !q k x) (xs : List α) :
    ((tailFilter p xs).filter r ++ (tailFilter q xs).filter r).Perm (xs.filter r) := by
  induction xs with
  | nil => exact List.Perm.refl _
  | cons x xs ih =>
    by_cases hr : r x = true
    · have hx := hpq xs.length x hr
      cases hq : q xs.length x with
      | true =>
        have hp : p xs.length x = false := by simpa [hq] using hx
        rw [tailFilter, tailFilter, if_neg (by simp [hp]), if_pos hq, List.filter_cons_of_pos hr,
          List.filter_cons_of_pos hr]
        exact List.perm_middle.trans (ih.cons x)
      | false =>
        have hp : p xs.length x = true := by simpa [hq] using hx
        rw [tailFilter, tailFilter, if_pos hp, if_neg (by simp [hq]), List.filter_cons_of_pos hr,
          List.filter_cons_of_pos hr]
        exact ih.cons x
    · have hskip : ∀ s : Nat → α → Bool,
          (tailFilter s (x :: xs)).filter r = (tailFilter s xs).filter r := by
        intro s
        rw [tailFilter]
        split <;> simp [hr]
      rw [hskip, hskip, List.filter_cons, if_neg hr]
      exact ih

end QcloudIot.Lib
