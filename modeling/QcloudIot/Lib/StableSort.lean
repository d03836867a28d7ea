import Mathlib.Data.List.Perm.Basic
import Mathlib.Order.Lattice

/-!
# Stable sorting

A list sorted by a key such that elements of one key keep their order. There is one such list
(`StableSort.unique`), the one that `List.mergeSort` computes.

* `StableSort.insert`: an element goes behind those of its key and before those of a larger one;
* **`StableSort.eq_mergeSort`**: sorted stably is sorted by `List.mergeSort`.
-/

namespace QcloudIot.Lib

variable {α κ : Type*} [LinearOrder κ] {key : α → κ} {x : α} {xs ys zs : List α}

/-- `ys` has the elements of `xs` by their keys, and those of one key as they stand in `xs`. -/
structure StableSort (key : α → κ) (xs ys : List α) : Prop where
  sorted : ys.Pairwise fun a b => key a ≤ key b
  same : ∀ k, ys.filter (fun a => key a = k) = xs.filter fun a => key a = k

namespace StableSort

theorem nil : StableSort key [] [] := ⟨.nil, fun _ => rfl⟩

theorem mem_iff (h : StableSort key xs ys) : x ∈ ys ↔ x ∈ xs := by
  have hsame : x ∈ ys.filter (fun a => key a = key x) ↔ x ∈ xs.filter fun a => key a = key x := by
    rw [h.same]
  simpa using hsame

theorem insert {front back : List α} (h : StableSort key xs (front ++ back))
    (hfront : ∀ a ∈ front, key a ≤ key x) (hback : ∀ a ∈ back, key x < key a) :
    StableSort key (xs ++ [x]) (front ++ x :: back) := by
  obtain ⟨hf, hb, hfb⟩ := List.pairwise_append.mp h.sorted
  constructor
  · refine List.pairwise_append.mpr ⟨hf, .cons (fun a ha => le_of_lt (hback a ha)) hb, fun a ha b hb => ?_⟩
    rcases List.mem_cons.mp hb with rfl | hb
    · exact hfront a ha
    · exact hfb a ha b hb
  · intro k
    have hsame := h.same k
    rw [List.filter_append] at hsame
    rw [List.filter_append, List.filter_append]
    by_cases hk : key x = k
    · -- nothing behind `x` has its key
      have hnone : back.filter (fun a => key a = k) = [] := by
        refine List.filter_eq_nil_iff.mpr fun a ha hak => ?_
        exact absurd (hk.trans (of_decide_eq_true hak).symm) (ne_of_lt (hback a ha))
      rw [hnone, List.append_nil] at hsame
      rw [List.filter_cons_of_pos (by simpa using hk), hnone, hsame,
        List.filter_cons_of_pos (by simpa using hk), List.filter_nil]
    · rw [List.filter_cons_of_neg (by simpa using hk), hsame,
        List.filter_cons_of_neg (by simpa using hk), List.filter_nil, List.append_nil]

theorem tail {y z : α} (h : StableSort key xs (y :: ys)) (hz : StableSort key xs (z :: zs))
    (hyz : y = z) : StableSort key zs ys := by
  refine ⟨(List.pairwise_cons.mp h.sorted).2, fun k => ?_⟩
  have hsame := (h.same k).trans (hz.same k).symm
  rw [hyz] at hsame
  by_cases hk : key z = k
  · rw [List.filter_cons_of_pos (by simpa using hk), List.filter_cons_of_pos (by simpa using hk)] at hsame
    exact List.tail_eq_of_cons_eq hsame
  · rwa [List.filter_cons_of_neg (by simpa using hk), List.filter_cons_of_neg (by simpa using hk)] at hsame

/-- Two ways to sort stably give one list. -/
theorem unique (hy : StableSort key xs ys) (hz : StableSort key xs zs) : ys = zs := by
  induction ys generalizing xs zs with
  | nil =>
    cases zs with
    | nil => rfl
    | cons z zs => exact absurd (hy.mem_iff.mpr (hz.mem_iff.mp List.mem_cons_self)) List.not_mem_nil
  | cons y ys ih =>
    cases zs with
    | nil => exact absurd (hz.mem_iff.mpr (hy.mem_iff.mp List.mem_cons_self)) List.not_mem_nil
    | cons z zs =>
      have hle : key y ≤ key z := by
        rcases List.mem_cons.mp (hy.mem_iff.mpr (hz.mem_iff.mp List.mem_cons_self)) with rfl | h
        · exact le_rfl
        · exact (List.pairwise_cons.mp hy.sorted).1 z h
      have hge : key z ≤ key y := by
        rcases List.mem_cons.mp (hz.mem_iff.mpr (hy.mem_iff.mp List.mem_cons_self)) with rfl | h
        · exact le_rfl
        · exact (List.pairwise_cons.mp hz.sorted).1 y h
      -- both begin with the first element of the smallest key
      have hkey : key y = key z := le_antisymm hle hge
      have hsame := (hy.same (key z)).trans (hz.same (key z)).symm
      rw [List.filter_cons_of_pos (by simpa using hkey), List.filter_cons_of_pos (by simp)] at hsame
      have hyz : y = z := List.head_eq_of_cons_eq hsame
      have hzs : StableSort key zs zs := ⟨(List.pairwise_cons.mp hz.sorted).2, fun _ => rfl⟩
      rw [hyz, ih (hy.tail hz hyz) hzs]

end StableSort

theorem stableSort_mergeSort (xs : List α) :
    StableSort key xs (xs.mergeSort fun a b => decide (key a ≤ key b)) := by
  have htrans : ∀ a b c : α, decide (key a ≤ key b) = true → decide (key b ≤ key c) = true →
      decide (key a ≤ key c) = true := by
    intro a b c hab hbc
    exact decide_eq_true (le_trans (of_decide_eq_true hab) (of_decide_eq_true hbc))
  have htotal : ∀ a b : α, (decide (key a ≤ key b) || decide (key b ≤ key a)) = true := by
    intro a b
    rw [Bool.or_eq_true, decide_eq_true_iff, decide_eq_true_iff]
    exact le_total _ _
  refine ⟨(List.pairwise_mergeSort htrans htotal xs).imp of_decide_eq_true, fun k => ?_⟩
  have hperm := (List.mergeSort_perm xs fun a b => decide (key a ≤ key b)).filter fun a => key a = k
  have hordered : (xs.filter fun a => key a = k).Pairwise
      fun a b => decide (key a ≤ key b) = true := by
    refine List.pairwise_of_forall_mem_list fun a ha b hb => decide_eq_true ?_
    have hak := of_decide_eq_true (List.mem_filter.mp ha).2
    have hbk := of_decide_eq_true (List.mem_filter.mp hb).2
    exact le_of_eq (hak.trans hbk.symm)
  -- the elements of one key are a sorted sublist, and there are as many of them before and after
  have hsub := (List.sublist_mergeSort htrans htotal hordered List.filter_sublist).filter
    fun a => decide (key a = k)
  rw [List.filter_filter] at hsub
  simp only [Bool.and_self] at hsub
  exact (hsub.eq_of_length hperm.length_eq.symm).symm

theorem StableSort.eq_mergeSort (h : StableSort key xs ys) :
    ys = xs.mergeSort fun a b => decide (key a ≤ key b) :=
  h.unique (stableSort_mergeSort xs)

end QcloudIot.Lib
