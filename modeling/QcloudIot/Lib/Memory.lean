import Mathlib.Data.List.Basic
import Mathlib.Data.List.GetD

/-!
# Memory read and written in blocks

A memory is a function from addresses to cells. A block of it is read as a list (`load`), and a
list is written over it from an address on (`store`); `move` is `memmove` and `fill` is `memset`.

* `load_add`: a block is its front part and the rest;
* `load_store`, `load_store_before`, `load_store_after`: a block written, and one beside it;
* `load_move`: a block moved; it may overlap the place it is moved to.
-/

namespace QcloudIot.Lib

/-- Cells by address. -/
abbrev Memory (α : Type*) := Nat → α

namespace Memory

variable {α : Type*}

/-- The `n` cells from `p` on. -/
def load (m : Memory α) (p n : Nat) : List α := (List.range n).map fun i => m (p + i)

/-- The cells from `p` on replaced by `xs`. -/
def store (m : Memory α) (p : Nat) (xs : List α) : Memory α :=
  fun i => if p ≤ i then xs.getD (i - p) (m i) else m i

/-- `memmove`: the `n` cells at `src` copied to `dst`. -/
def move (m : Memory α) (dst src n : Nat) : Memory α := m.store dst (m.load src n)

/-- `memset`: the `n` cells at `p` set to `x`. -/
def fill (m : Memory α) (p : Nat) (x : α) (n : Nat) : Memory α := m.store p (List.replicate n x)

variable (m : Memory α) (p q n k : Nat) (xs : List α) (x : α)

@[simp] theorem length_load : (m.load p n).length = n := by simp [load]

@[simp] theorem load_zero : m.load p 0 = [] := rfl

/-- Two memories with the same cells there. -/
theorem load_congr {m m' : Memory α} {p n : Nat} (h : ∀ i, p ≤ i → i < p + n → m i = m' i) :
    m.load p n = m'.load p n := by
  refine List.map_congr_left fun i hi => ?_
  rw [List.mem_range] at hi
  exact h (p + i) (by omega) (by omega)

theorem load_add : m.load p (n + k) = m.load p n ++ m.load (p + n) k := by
  simp only [load, List.range_add, List.map_append, List.map_map]
  refine congrArg _ (List.map_congr_left fun i _ => ?_)
  simp [Nat.add_assoc]

/-- A block cut at an address inside it. -/
theorem load_split {a b c : Nat} (hab : a ≤ b) (hbc : b ≤ c) :
    m.load a (c - a) = m.load a (b - a) ++ m.load b (c - b) := by
  rw [show c - a = (b - a) + (c - b) by omega, load_add, show a + (b - a) = b by omega]

theorem store_of_lt {p i : Nat} (h : i < p) : m.store p xs i = m i := by
  rw [store, if_neg (by omega)]

theorem store_of_ge {p i : Nat} (h : p + xs.length ≤ i) : m.store p xs i = m i := by
  rw [store, if_pos (by omega), List.getD_eq_default _ _ (by omega)]

/-- A cell that is not written. -/
theorem store_outside {p i : Nat} (h : i < p ∨ p + xs.length ≤ i) : m.store p xs i = m i :=
  h.elim (store_of_lt m xs) (store_of_ge m xs)

theorem store_inside {p i : Nat} (h : i < xs.length) : m.store p xs (p + i) = xs[i] := by
  rw [store, if_pos (by omega), Nat.add_sub_cancel_left, List.getD_eq_getElem _ _ h]

/-- The block written. -/
@[simp] theorem load_store : (m.store p xs).load p xs.length = xs := by
  apply List.ext_getElem
  · simp
  · intro i _ hi
    simp only [load, List.getElem_map, List.getElem_range]
    exact store_inside m xs hi

/-- A block before it. -/
theorem load_store_before {p q n : Nat} (h : p + n ≤ q) : (m.store q xs).load p n = m.load p n :=
  load_congr fun _ _ hi => store_of_lt m xs (by omega)

/-- A block after it. -/
theorem load_store_after {p q n : Nat} (h : q + xs.length ≤ p) :
    (m.store q xs).load p n = m.load p n :=
  load_congr fun _ hp _ => store_of_ge m xs (by omega)

theorem store_nil : m.store p [] = m := by
  funext i
  rw [store, List.getD_nil, ite_self]

/-- A block written over another. -/
theorem store_store {xs ys : List α} (h : xs.length = ys.length) :
    (m.store p xs).store p ys = m.store p ys := by
  funext i
  by_cases hp : i < p
  · rw [store_of_lt _ _ hp, store_of_lt _ _ hp, store_of_lt _ _ hp]
  · by_cases hi : p + ys.length ≤ i
    · rw [store_of_ge _ _ hi, store_of_ge _ _ (by omega), store_of_ge _ _ hi]
    · obtain ⟨k, rfl⟩ := Nat.exists_eq_add_of_le (Nat.le_of_not_lt hp)
      rw [store_inside _ ys (by omega), store_inside _ ys (by omega)]

/-- One cell more. -/
theorem store_snoc : (m.store p xs).store (p + xs.length) [x] = m.store p (xs ++ [x]) := by
  funext i
  rcases Nat.lt_trichotomy i (p + xs.length) with h | h | h
  · rw [store_of_lt _ _ h]
    by_cases hp : i < p
    · rw [store_of_lt _ _ hp, store_of_lt _ _ hp]
    · obtain ⟨k, rfl⟩ := Nat.exists_eq_add_of_le (Nat.le_of_not_lt hp)
      have hk : k < xs.length := by omega
      rw [store_inside m xs hk, store_inside m (xs ++ [x]) (by rw [List.length_append]; omega),
        List.getElem_append_left hk]
  · rw [h, store_inside m (p := p) (xs ++ [x]) (i := xs.length) (by simp)]
    have hlast := store_inside (m.store p xs) (p := p + xs.length) [x] (i := 0) (by simp)
    rw [Nat.add_zero] at hlast
    rw [hlast]
    simp
  · rw [store_of_ge _ _ (by simp; omega), store_of_ge _ _ (by omega), store_of_ge _ _ (by simp; omega)]

/-- A block written behind another. -/
theorem load_store_append {m : Memory α} {p n : Nat} {xs : List α} (h : m.load p n = xs)
    (ys : List α) : (m.store (p + n) ys).load p (n + ys.length) = xs ++ ys := by
  rw [load_add, load_store_before _ _ (Nat.le_refl _), h, load_store]

/-- The block moved. -/
@[simp] theorem load_move : (m.move q p n).load q n = m.load p n := by
  have h := load_store m q (m.load p n)
  rwa [length_load] at h

theorem load_move_before {p q n k src : Nat} (h : p + n ≤ q) :
    (m.move q src k).load p n = m.load p n :=
  load_store_before m _ h

theorem load_move_after {p q n k src : Nat} (h : q + k ≤ p) :
    (m.move q src k).load p n = m.load p n :=
  load_store_after m _ (by rwa [length_load])

theorem load_fill_before {p q n k : Nat} (h : p + n ≤ q) : (m.fill q x k).load p n = m.load p n :=
  load_store_before m _ h

theorem load_fill_after {p q n k : Nat} (h : q + k ≤ p) : (m.fill q x k).load p n = m.load p n :=
  load_store_after m _ (by rwa [List.length_replicate])

theorem move_of_lt {p src k i : Nat} (h : i < p) : m.move p src k i = m i := store_of_lt m _ h

theorem fill_of_lt {p k i : Nat} (h : i < p) : m.fill p x k i = m i := store_of_lt m _ h

theorem fill_inside {p k i : Nat} (hp : p ≤ i) (hi : i < p + k) : m.fill p x k i = x := by
  have h := store_inside m (p := p) (List.replicate k x) (i := i - p)
    (by rw [List.length_replicate]; omega)
  rwa [Nat.add_sub_cancel' hp, List.getElem_replicate] at h

/-! ## A block pulled to the front, and what stood there cleared -/

/-- The block pulled to `p`, with `k` cells cleared from `w` on. -/
theorem load_pull {p src n w k : Nat} (h : p + n ≤ w) :
    ((m.move p src n).fill w x k).load p n = m.load src n := by
  rw [load_fill_before _ _ h, load_move]

theorem pull_of_lt {p src n w k i : Nat} (hp : i < p) (hw : i < w) :
    ((m.move p src n).fill w x k) i = m i := by
  rw [fill_of_lt _ _ hw, move_of_lt _ hp]

end Memory

end QcloudIot.Lib
