import Mathlib.Tactic.Common

/-!
# Lists cut at a separator

`s.splitOn sep` cuts a list into its levels. What a proof over the levels of a list needs beyond
the core lemmas: a list is its first level, alone or followed by the separator and the rest
(`levels_induction`), and reading a level equal to another, or past it, is a question about the
first separator (`prefix_of_level`).
-/

namespace QcloudIot.Lib

variable {α : Type*} {sep : α}

/-- A list is one level, or a level, the separator and a shorter list. -/
theorem level_cases [DecidableEq α] (sep : α) (s : List α) :
    sep ∉ s ∨ ∃ l rest, sep ∉ l ∧ s = l ++ sep :: rest := by
  by_cases h : sep ∈ s
  · obtain ⟨l, rest, rfl, hl⟩ := List.eq_append_cons_of_mem h
    exact Or.inr ⟨l, rest, hl, rfl⟩
  · exact Or.inl h

/-- Induction over the levels of a list. -/
theorem levels_induction [DecidableEq α] {motive : List α → Prop} (sep : α)
    (last : ∀ l, sep ∉ l → motive l)
    (cons : ∀ l rest, sep ∉ l → motive rest → motive (l ++ sep :: rest)) :
    ∀ s, motive s := by
  intro s
  induction h : s.length using Nat.strongRecOn generalizing s with
  | ind k ih =>
    rcases level_cases sep s with hs | ⟨l, rest, hl, rfl⟩
    · exact last s hs
    · exact cons l rest hl (ih rest.length (by simp at h; omega) rest rfl)

/-- A separator-free list that begins `l ++ sep :: rest` begins the level `l`. -/
theorem prefix_of_level {p l rest : List α} (hp : sep ∉ p) (h : p <+: l ++ sep :: rest) :
    p <+: l := by
  induction p generalizing l with
  | nil => exact List.nil_prefix
  | cons x p ih =>
    cases l with
    | nil =>
      obtain ⟨t, ht⟩ := h
      simp only [List.nil_append, List.cons_append, List.cons.injEq] at ht
      exact absurd (ht.1 ▸ List.mem_cons_self) hp
    | cons y l =>
      rw [List.cons_append, List.cons_prefix_cons] at h
      rw [List.cons_prefix_cons]
      exact ⟨h.1, ih (fun hx => hp (List.mem_cons_of_mem x hx)) h.2⟩

end QcloudIot.Lib
