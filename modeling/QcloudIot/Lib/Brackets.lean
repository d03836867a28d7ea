import Mathlib.Data.List.Basic

/-!
# Balanced brackets

Lists that never close more brackets than they have opened, and in the end have closed them all,
counted alone: what stands between does not matter.

* `balanced_of_notMem`, `Balanced.append`, `Balanced.bracket`: how they are put together;
* `Balanced.strict`: between its two brackets such a list never closes all.
-/

namespace QcloudIot.Lib

variable {α : Type*} [DecidableEq α] {o c : α} {s t : List α}

/-- Never more closed than opened, and all closed in the end. -/
def Balanced (o c : α) (t : List α) : Prop :=
  (∀ n, (t.take n).count c ≤ (t.take n).count o) ∧ t.count c = t.count o

theorem balanced_of_notMem (ho : o ∉ t) (hc : c ∉ t) : Balanced o c t := by
  constructor
  · intro n
    rw [List.count_eq_zero_of_not_mem fun h => hc (List.mem_of_mem_take h)]
    exact Nat.zero_le _
  · rw [List.count_eq_zero_of_not_mem hc, List.count_eq_zero_of_not_mem ho]

theorem Balanced.append (hs : Balanced o c s) (ht : Balanced o c t) : Balanced o c (s ++ t) := by
  constructor
  · intro n
    rw [List.take_append, List.count_append, List.count_append]
    exact Nat.add_le_add (hs.1 n) (ht.1 (n - s.length))
  · rw [List.count_append, List.count_append, hs.2, ht.2]

/-- **Between its two brackets** not all is closed. -/
theorem Balanced.strict (hne : o ≠ c) (ht : Balanced o c t) :
    (∀ n < (o :: (t ++ [c])).length, 0 < n →
      ((o :: (t ++ [c])).take n).count c < ((o :: (t ++ [c])).take n).count o) ∧
    (o :: (t ++ [c])).count c = (o :: (t ++ [c])).count o := by
  constructor
  · intro n hn hpos
    obtain ⟨k, rfl⟩ := Nat.exists_eq_succ_of_ne_zero (Nat.ne_of_gt hpos)
    rw [List.length_cons, List.length_append, List.length_singleton] at hn
    rw [List.take_succ_cons, List.count_cons_of_ne hne, List.count_cons_self,
      List.take_append_of_le_length (by omega)]
    exact Nat.lt_succ_of_le (ht.1 k)
  · rw [List.count_cons_of_ne hne, List.count_cons_self, List.count_append, List.count_append, ht.2,
      List.count_singleton_self, List.count_eq_zero_of_not_mem (a := o)
        (fun h => hne (List.mem_singleton.mp h))]

theorem Balanced.bracket (hne : o ≠ c) (ht : Balanced o c t) : Balanced o c (o :: (t ++ [c])) := by
  obtain ⟨hlt, heq⟩ := ht.strict hne
  refine ⟨fun n => ?_, heq⟩
  rcases Nat.eq_zero_or_pos n with rfl | hpos
  · exact Nat.le_refl _
  rcases Nat.lt_or_ge n (o :: (t ++ [c])).length with hn | hn
  · exact Nat.le_of_lt (hlt n hn hpos)
  · rw [List.take_of_length_le hn]
    exact Nat.le_of_eq heq

end QcloudIot.Lib
