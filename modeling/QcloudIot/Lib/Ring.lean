import Mathlib.Data.List.Basic

/-!
# A list written in a circle

A buffer of fixed length with a write position that goes round. Read from the position backwards
it is the list of the last entries, newest first (`newestFirst`), and a write puts an entry at the
front of this list and drops its last (`newestFirst_write`).
-/

namespace QcloudIot.Lib

variable {α : Type*}

/-- The entries of the ring, newest first, when the next one goes to `cnt`. -/
def newestFirst (ids : List α) (cnt : Nat) : List α := (ids.drop cnt ++ ids.take cnt).reverse

theorem mem_newestFirst {x : α} {ids : List α} {cnt : Nat} : x ∈ newestFirst ids cnt ↔ x ∈ ids := by
  rw [newestFirst, List.mem_reverse, List.mem_append, or_comm, ← List.mem_append,
    List.take_append_drop]

theorem newestFirst_perm (ids : List α) (cnt : Nat) : (newestFirst ids cnt).Perm ids := by
  refine (List.reverse_perm _).trans (List.perm_append_comm.trans ?_)
  rw [List.take_append_drop]

/-- The last `n` entries after another one are found among the last `n` before it. -/
theorem take_cons_take (x : α) (n : Nat) (xs : List α) :
    (x :: xs.take n).take n = (x :: xs).take n := by
  cases n with
  | zero => rfl
  | succ n => rw [List.take_succ_cons, List.take_succ_cons, List.take_take, Nat.min_eq_left (by omega)]

/-- A list with an entry singled out. -/
theorem split_at {ids : List α} {cnt : Nat} (h : cnt < ids.length) :
    ∃ a y b, ids = a ++ y :: b ∧ a.length = cnt :=
  ⟨ids.take cnt, ids[cnt], ids.drop (cnt + 1), by simp, by simp; omega⟩

/-- **A write** makes the entry the newest, and the oldest is gone. -/
theorem newestFirst_write {ids : List α} {cnt : Nat} (h : cnt < ids.length) (x : α) :
    newestFirst (ids.set cnt x) ((cnt + 1) % ids.length) =
      (x :: newestFirst ids cnt).take ids.length := by
  obtain ⟨a, y, b, rfl, rfl⟩ := split_at h
  have hset : (a ++ y :: b).set a.length x = a ++ x :: b := by simp
  have hbefore : newestFirst (a ++ y :: b) a.length = (b ++ a).reverse ++ [y] := by
    simp [newestFirst]
  have hafter : newestFirst (a ++ x :: b) ((a.length + 1) % (a ++ y :: b).length) =
      x :: (b ++ a).reverse := by
    cases b with
    | nil => simp [newestFirst]
    | cons z b =>
      have hmod : (a.length + 1) % (a ++ y :: z :: b).length = a.length + 1 := by
        refine Nat.mod_eq_of_lt ?_
        simp only [List.length_append, List.length_cons]
        omega
      rw [hmod, newestFirst, List.append_cons]
      have hlen : a.length + 1 = (a ++ [x]).length := by simp
      rw [hlen, List.drop_left, List.take_left]
      simp
  rw [hset, hbefore, hafter, ← List.cons_append]
  have hlen : (a ++ y :: b).length = (x :: (b ++ a).reverse).length := by
    simp only [List.length_append, List.length_cons, List.length_reverse]
    omega
  rw [hlen, List.take_left]

end QcloudIot.Lib
