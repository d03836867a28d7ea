import Mathlib.Data.List.Rotate
import Mathlib.Data.Nat.ModEq

/-!
# A bounded queue, and a circle it is written in

A queue of at most `cap` entries takes as many of the first entries offered as it has room for
(`enqueue`). Written in a list of fixed length it is a window on the list, which may go on at the
front when it comes to the end (`window`).

* `window_set`: an entry written behind the window is added at its end;
* `window_cons`: the first entry of a window, and the window behind it;
* `enqueue_cons`, `enqueue_full`: what is offered is taken entry by entry.
-/

namespace QcloudIot.Lib

variable {α : Type*}

/-! ## Windows -/

/-- The `n` entries from the index `start` on, round the end of the list. -/
def window (xs : List α) (start n : Nat) : List α := (xs.rotate start).take n

theorem length_window {xs : List α} {n : Nat} (start : Nat) (h : n ≤ xs.length) :
    (window xs start n).length = n := by
  rw [window, List.length_take, List.length_rotate, Nat.min_eq_left h]

theorem window_mod (xs : List α) (start n : Nat) :
    window xs (start % xs.length) n = window xs start n := by
  rw [window, List.rotate_mod, window]

/-- Two offsets within the list that lead to one index are the same. -/
theorem add_mod_inj {start n i j : Nat} (hi : i < n) (hj : j < n)
    (h : (i + start) % n = (j + start) % n) : i = j := by
  have hmod : i % n = j % n := Nat.ModEq.add_right_cancel' start h
  rwa [Nat.mod_eq_of_lt hi, Nat.mod_eq_of_lt hj] at hmod

theorem rotate_set {xs : List α} {n : Nat} (start : Nat) (h : n < xs.length) (x : α) :
    (xs.set ((n + start) % xs.length) x).rotate start = (xs.rotate start).set n x := by
  refine List.ext_getElem? fun i => ?_
  obtain hi | hi := Nat.lt_or_ge i xs.length
  · have hpos : 0 < xs.length := by omega
    rw [List.getElem?_rotate (by rwa [List.length_set]), List.length_set, List.getElem?_set,
      List.getElem?_set, List.getElem?_rotate hi, List.length_rotate]
    by_cases hin : n = i
    · rw [if_pos hin, if_pos (by rw [hin]), if_pos (Nat.mod_lt _ hpos), if_pos h]
    · rw [if_neg hin, if_neg fun heq => hin (add_mod_inj h hi heq)]
  · rw [List.getElem?_eq_none (by simpa using hi), List.getElem?_eq_none (by simpa using hi)]

/-- **An entry written behind the window** is added at its end. -/
theorem window_set {xs : List α} {n : Nat} (start : Nat) (h : n < xs.length) (x : α) :
    window (xs.set ((n + start) % xs.length) x) start (n + 1) = window xs start n ++ [x] := by
  have hlen : n < ((xs.rotate start).set n x).length := by simpa using h
  rw [window, rotate_set start h, List.take_succ_eq_append_getElem hlen, List.getElem_set_self,
    List.take_set_of_le (le_refl n), window]

/-- **The first entry** of a window, and the window behind it. -/
theorem window_cons (xs : List α) {n : Nat} (start : Nat) (h : n < xs.length) :
    ∃ x, xs[start % xs.length]? = some x ∧ window xs start (n + 1) = x :: window xs (start + 1) n := by
  have hpos : 0 < xs.length := by omega
  obtain ⟨x, rest, hrotate⟩ : ∃ x rest, xs.rotate start = x :: rest := by
    refine List.exists_cons_of_ne_nil fun hnil => ?_
    rw [List.rotate_eq_nil_iff] at hnil
    simp [hnil] at hpos
  have hrest : rest.length + 1 = xs.length := by
    rw [← List.length_rotate xs start, hrotate, List.length_cons]
  refine ⟨x, ?_, ?_⟩
  · rw [← List.head?_rotate (Nat.mod_lt _ hpos), List.rotate_mod, hrotate]
    rfl
  · rw [window, window, ← List.rotate_rotate, hrotate, List.take_succ_cons, List.rotate_cons_succ,
      List.rotate_zero, List.take_append_of_le_length (by omega)]

/-! ## Queues -/

/-- What a queue of at most `cap` entries holds after the entries `xs` are offered to it. -/
def enqueue (cap : Nat) (q xs : List α) : List α := q ++ xs.take (cap - q.length)

theorem length_enqueue_le {cap : Nat} {q : List α} (h : q.length ≤ cap) (xs : List α) :
    (enqueue cap q xs).length ≤ cap := by
  rw [enqueue, List.length_append, List.length_take]
  omega

theorem enqueue_full {cap : Nat} {q : List α} (h : cap ≤ q.length) (xs : List α) :
    enqueue cap q xs = q := by
  rw [enqueue, Nat.sub_eq_zero_of_le h, List.take_zero, List.append_nil]

theorem enqueue_cons {cap : Nat} {q : List α} (h : q.length < cap) (x : α) (xs : List α) :
    enqueue cap q (x :: xs) = enqueue cap (q ++ [x]) xs := by
  have hroom : cap - q.length = cap - (q ++ [x]).length + 1 := by
    rw [List.length_append, List.length_singleton]
    omega
  rw [enqueue, enqueue, hroom, List.take_succ_cons, List.append_assoc, List.singleton_append]

end QcloudIot.Lib
