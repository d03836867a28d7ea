import Mathlib.Data.List.Perm.Basic

/-!
# A table of slots

A table of fixed length whose slots are occupied or free. `view` shows what an occupied slot holds
and nothing of a free one; the table holds what its slots show.

* `filterMap_set_same`: a slot changed to one that shows the same;
* `filterMap_set_free`: a free slot filled;
* `filterMap_clear`: some slots emptied.
-/

namespace QcloudIot.Lib

variable {α β : Type*} {view : α → Option β}

theorem filterMap_set_same {x d : α} {slots : List α} {i : Nat}
    (h : view x = view (slots.getD i d)) : (slots.set i x).filterMap view = slots.filterMap view := by
  induction slots generalizing i with
  | nil => rfl
  | cons s slots ih =>
    cases i with
    | zero =>
      have hs : view x = view s := h
      rw [List.set_cons_zero, List.filterMap_cons, List.filterMap_cons, hs]
    | succ i => rw [List.set_cons_succ, List.filterMap_cons, List.filterMap_cons, ih h]

/-- **A free slot filled** adds what the new occupant shows. -/
theorem filterMap_set_free {x : α} {free : α → Bool} (hfree : ∀ s, free s = true → view s = none)
    {slots : List α} {i : Nat} (hi : slots.findIdx? free = some i) :
    ((slots.set i x).filterMap view).Perm ((view x).toList ++ slots.filterMap view) := by
  induction slots generalizing i with
  | nil => exact absurd hi (by simp)
  | cons s slots ih =>
    rw [List.findIdx?_cons] at hi
    by_cases hs : free s = true
    · rw [if_pos hs] at hi
      obtain rfl := Option.some.inj hi
      rw [List.set_cons_zero, List.filterMap_cons, List.filterMap_cons, hfree s hs]
      cases view x <;> exact List.Perm.refl _
    · rw [if_neg hs] at hi
      obtain ⟨j, hj, rfl⟩ := Option.map_eq_some_iff.mp hi
      rw [List.set_cons_succ, List.filterMap_cons, List.filterMap_cons]
      cases view s with
      | none => exact ih hj
      | some b => exact ((ih hj).cons b).trans List.perm_middle.symm

/-- **Slots emptied** show no more than before. -/
theorem filterMap_clear {clear : α → α} (h : ∀ s, view (clear s) = none ∨ view (clear s) = view s)
    (slots : List α) : ((slots.map clear).filterMap view).Sublist (slots.filterMap view) := by
  induction slots with
  | nil => exact List.Sublist.refl _
  | cons s slots ih =>
    rw [List.map_cons, List.filterMap_cons, List.filterMap_cons]
    rcases h s with hs | hs
    · rw [hs]
      cases view s with
      | none => exact ih
      | some b => exact ih.cons b
    · rw [hs]
      cases view s with
      | none => exact ih
      | some b => exact ih.cons_cons b

end QcloudIot.Lib
