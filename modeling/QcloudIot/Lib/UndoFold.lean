import Mathlib.Data.List.Basic

/-!
# Folds that can be undone

A fold whose every step has an inverse is undone by folding the inverses from the other end
(`foldr_foldl_undo`).
-/

namespace QcloudIot.Lib

variable {α σ : Type*} {f : σ → α → σ} {g : α → σ → σ}

/-- **Undone from the other end.** -/
theorem foldr_foldl_undo {as : List α} (hg : ∀ a ∈ as, ∀ s, g a (f s a) = s) (s : σ) :
    as.foldr g (as.foldl f s) = s := by
  induction as generalizing s with
  | nil => rfl
  | cons a as ih =>
    rw [List.foldl_cons, List.foldr_cons, ih fun b hb => hg b (List.mem_cons_of_mem a hb),
      hg a List.mem_cons_self]

end QcloudIot.Lib
