import Mathlib.Data.List.Basic

/-!
# The first occurrence of a pattern

`find`, and how it goes past what does not hold the pattern.

* `find_skip`: past elements that cannot start it;
* `find_past`: past a part without it, up to an element that it does not hold;
* `find_take`: in a beginning of the list the same place is found, or nothing.
-/

namespace QcloudIot.Lib

variable {α : Type*} {pat s x y : List α} {c : α} {k : Nat}

/-- A pattern without `c` that stands in front of a `c` ends there. -/
theorem prefix_of_notMem (hc : c ∉ pat) (h : pat <+: x ++ c :: y) : pat <+: x := by
  rcases Nat.lt_or_ge x.length pat.length with hlt | hle
  · have hsplit : x ++ [c] <+: x ++ c :: y := ⟨y, by rw [List.append_assoc]; rfl⟩
    have hpre : x ++ [c] <+: pat := by
      refine List.prefix_of_prefix_length_le hsplit h ?_
      rw [List.length_append, List.length_singleton]
      omega
    exact absurd (hpre.subset (List.mem_append_right x (List.mem_singleton_self c))) hc
  · exact List.prefix_of_prefix_length_le h (List.prefix_append x _) hle

theorem prefix_take_iff {m : Nat} : pat <+: s.take m ↔ pat <+: s ∧ pat.length ≤ m := by
  constructor
  · intro h
    have hle := h.length_le
    rw [List.length_take] at hle
    exact ⟨h.trans (List.take_prefix m s), by omega⟩
  · rintro ⟨h, hle⟩
    have htake : pat = (s.take m).take pat.length := by
      rw [List.take_take, Nat.min_eq_left hle]
      exact List.prefix_iff_eq_take.mp h
    rw [htake]
    exact List.take_prefix _ _

variable [DecidableEq α]

/-- Where a pattern first stands in a list. -/
def find (pat : List α) : List α → Option Nat
  | [] => if pat = [] then some 0 else none
  | c :: s => if pat <+: c :: s then some 0 else (find pat s).map (· + 1)

theorem find_of_isPrefix (h : pat <+: s) : find pat s = some 0 := by
  cases s with
  | nil => exact if_pos (List.prefix_nil.mp h)
  | cons c s => exact if_pos h

theorem find_cons (h : ¬ pat <+: c :: s) : find pat (c :: s) = (find pat s).map (· + 1) := if_neg h

/-- What is found stands there. -/
theorem prefix_of_find (h : find pat s = some k) : pat <+: s.drop k := by
  induction s generalizing k with
  | nil =>
    unfold find at h
    split at h
    · rename_i hpat
      rw [hpat]
      exact List.nil_prefix
    · cases h
  | cons c s ih =>
    unfold find at h
    split at h
    · rename_i hpat
      cases h
      exact hpat
    · obtain ⟨j, hj, rfl⟩ := Option.map_eq_some_iff.mp h
      exact ih hj

theorem mem_of_find (h : find pat s = some k) (hc : c ∈ pat) : c ∈ s :=
  List.mem_of_mem_drop ((prefix_of_find h).subset hc)

/-! ## Going past -/

/-- Elements other than the first of the pattern are skipped. -/
theorem find_skip (hc : c ∉ x) :
    find (c :: pat) (x ++ y) = (find (c :: pat) y).map (· + x.length) := by
  induction x with
  | nil => simp only [List.nil_append, List.length_nil, Nat.add_zero, Option.map_id']
  | cons a x ih =>
    have hne : c ≠ a := fun h => hc (h ▸ List.mem_cons_self)
    have hnot : ¬ c :: pat <+: a :: (x ++ y) := fun h => hne (List.cons_prefix_cons.mp h).1
    rw [List.cons_append, find_cons hnot, ih fun h => hc (List.mem_cons_of_mem a h), Option.map_map]
    rfl

/-- A part that does not hold the pattern is gone past, with an element that the pattern does not
hold behind it. -/
theorem find_past (hpat : pat ≠ []) (hc : c ∉ pat) (hx : ¬ pat <:+: x) :
    find pat (x ++ c :: y) = (find pat y).map (· + (x.length + 1)) := by
  induction x with
  | nil =>
    have hnot : ¬ pat <+: c :: y := fun h =>
      hpat (List.prefix_nil.mp (prefix_of_notMem (x := []) hc h))
    rw [List.nil_append, find_cons hnot]
    rfl
  | cons a x ih =>
    have hnot : ¬ pat <+: a :: (x ++ c :: y) := fun h =>
      hx (prefix_of_notMem (x := a :: x) hc h).isInfix
    rw [List.cons_append, find_cons hnot, ih fun h => hx (List.infix_cons h), Option.map_map]
    rfl

/-! ## In a beginning -/

/-- **A beginning holds the first occurrence, or none.** -/
theorem find_take (pat s : List α) (m : Nat) :
    find pat (s.take m) = (find pat s).filter fun k => k + pat.length ≤ m := by
  induction s generalizing m with
  | nil =>
    rw [List.take_nil]
    unfold find
    split
    · rename_i hpat
      rw [hpat]
      rfl
    · rfl
  | cons c s ih =>
    cases m with
    | zero =>
      by_cases hpat : pat = []
      · rw [hpat]
        rfl
      · rw [List.take_zero]
        have hpos : 0 < pat.length := List.length_pos_of_ne_nil hpat
        rw [Option.filter_eq_none_iff.mpr fun k _ => by rw [decide_eq_true_iff]; omega]
        exact if_neg hpat
    | succ m =>
      rw [List.take_succ_cons]
      by_cases hpre : pat <+: c :: s
      · rw [find_of_isPrefix hpre]
        by_cases hle : pat.length ≤ m + 1
        · have htake : pat <+: c :: s.take m := by
            rw [← List.take_succ_cons]
            exact prefix_take_iff.mpr ⟨hpre, hle⟩
          rw [find_of_isPrefix htake, Option.filter_some, if_pos (by simpa using hle)]
        · have htake : ¬ pat <+: c :: s.take m := by
            rw [← List.take_succ_cons]
            exact fun h => hle (prefix_take_iff.mp h).2
          rw [find_cons htake, ih m, Option.filter_some, if_neg (by simpa using hle),
            Option.filter_eq_none_iff.mpr fun k _ => by rw [decide_eq_true_iff]; omega]
          rfl
      · have htake : ¬ pat <+: c :: s.take m := by
          rw [← List.take_succ_cons]
          exact fun h => hpre (prefix_take_iff.mp h).1
        rw [find_cons hpre, find_cons htake, ih m, Option.filter_map]
        congr 2
        funext k
        have hshift : k + pat.length ≤ m ↔ k + 1 + pat.length ≤ m + 1 := by omega
        exact decide_eq_decide.mpr hshift

end QcloudIot.Lib
