import Mathlib.Data.List.Nodup
import Mathlib.Logic.Function.Basic

/-!
# A list as a map

A list of entries that is searched from its head, against the partial function from keys to values
it stands for (`Represents`).

* `Represents.cons`, `Represents.eraseP`, `Represents.modifyFirst`: adding an entry for a new key,
  removing the first entry of a key and changing it, as updates of the function;
* `modifyFirst_congr`, `eraseP_congr`: a search by any test that finds the same entries.
-/

namespace QcloudIot.Lib

variable {α κ β : Type*}

/-- The list with its first entry that passes the test changed. -/
def modifyFirst (p : α → Bool) (f : α → α) : List α → List α
  | [] => []
  | a :: l => if p a then f a :: l else a :: modifyFirst p f l

/-! ## Two tests that agree -/

variable {p q : α → Bool} {l : List α}

theorem modifyFirst_congr (f : α → α) (h : ∀ a ∈ l, p a = q a) :
    modifyFirst p f l = modifyFirst q f l := by
  induction l with
  | nil => rfl
  | cons a l ih =>
    obtain ⟨ha, hl⟩ := List.forall_mem_cons.mp h
    rw [modifyFirst, modifyFirst, ha, ih hl]

theorem eraseP_congr (h : ∀ a ∈ l, p a = q a) : l.eraseP p = l.eraseP q := by
  induction l with
  | nil => rfl
  | cons a l ih =>
    obtain ⟨ha, hl⟩ := List.forall_mem_cons.mp h
    rw [List.eraseP_cons, List.eraseP_cons, ha, ih hl]

theorem find?_congr_mem (h : ∀ a ∈ l, p a = q a) : l.find? p = l.find? q := by
  induction l with
  | nil => rfl
  | cons a l ih =>
    obtain ⟨ha, hl⟩ := List.forall_mem_cons.mp h
    rw [List.find?_cons, List.find?_cons, ha, ih hl]

/-! ## Keys -/

variable [DecidableEq κ] {key : α → κ} {val : α → β} {m : κ → Option β} {k : κ}

variable (key val) in
/-- The list has one entry for each key of the map, with its value, and no other. -/
structure Represents (l : List α) (m : κ → Option β) : Prop where
  nodup : (l.map key).Nodup
  find : ∀ k, (l.find? (key · = k)).map val = m k

/-- Who has no entry is no key of the list. -/
theorem find?_key_none : l.find? (key · = k) = none ↔ k ∉ l.map key := by
  simp [List.find?_eq_none]

omit [DecidableEq κ] in
theorem map_key_modifyFirst {f : α → α} (hf : ∀ a, key (f a) = key a) :
    (modifyFirst p f l).map key = l.map key := by
  induction l with
  | nil => rfl
  | cons a l ih =>
    rw [modifyFirst]
    split
    · rw [List.map_cons, List.map_cons, hf]
    · rw [List.map_cons, List.map_cons, ih]

theorem find?_eraseP_self (hnodup : (l.map key).Nodup) :
    (l.eraseP (key · = k)).find? (key · = k) = none := by
  induction l with
  | nil => rfl
  | cons a l ih =>
    obtain ⟨hnew, hnodup⟩ := List.nodup_cons.mp hnodup
    by_cases ha : key a = k
    · rw [List.eraseP_cons_of_pos (by simpa using ha), find?_key_none, ← ha]
      exact hnew
    · rw [List.eraseP_cons_of_neg (by simpa using ha), List.find?_cons_of_neg (by simpa using ha),
        ih hnodup]

theorem find?_eraseP_of_ne {k' : κ} (hne : k' ≠ k) :
    (l.eraseP (key · = k)).find? (key · = k') = l.find? (key · = k') := by
  induction l with
  | nil => rfl
  | cons a l ih =>
    by_cases ha : key a = k
    · rw [List.eraseP_cons_of_pos (by simpa using ha),
        List.find?_cons_of_neg (by simpa [ha] using Ne.symm hne)]
    · rw [List.eraseP_cons_of_neg (by simpa using ha), List.find?_cons, List.find?_cons, ih]

theorem find?_modifyFirst_self {f : α → α} (hf : ∀ a, key (f a) = key a) :
    (modifyFirst (key · = k) f l).find? (key · = k) = (l.find? (key · = k)).map f := by
  induction l with
  | nil => rfl
  | cons a l ih =>
    by_cases ha : key a = k
    · rw [modifyFirst, if_pos (by simpa using ha),
        List.find?_cons_of_pos (by simpa [hf] using ha), List.find?_cons_of_pos (by simpa using ha)]
      rfl
    · rw [modifyFirst, if_neg (by simpa using ha), List.find?_cons_of_neg (by simpa using ha), ih,
        List.find?_cons_of_neg (by simpa using ha)]

theorem find?_modifyFirst_of_ne {f : α → α} (hf : ∀ a, key (f a) = key a) {k' : κ} (hne : k' ≠ k) :
    (modifyFirst (key · = k) f l).find? (key · = k') = l.find? (key · = k') := by
  induction l with
  | nil => rfl
  | cons a l ih =>
    by_cases ha : key a = k
    · rw [modifyFirst, if_pos (by simpa using ha),
        List.find?_cons_of_neg (by simpa [hf, ha] using Ne.symm hne),
        List.find?_cons_of_neg (by simpa [ha] using Ne.symm hne)]
    · rw [modifyFirst, if_neg (by simpa using ha), List.find?_cons, List.find?_cons, ih]

namespace Represents

theorem nil : Represents key val [] fun _ => none := ⟨List.nodup_nil, fun _ => rfl⟩

theorem not_mem (h : Represents key val l m) (hk : m k = none) : k ∉ l.map key := by
  rw [← find?_key_none, ← Option.map_eq_none_iff (f := val), h.find k, hk]

/-- An entry for a new key. -/
theorem cons (h : Represents key val l m) {a : α} (ha : m (key a) = none) :
    Represents key val (a :: l) (Function.update m (key a) (some (val a))) := by
  refine ⟨List.nodup_cons.mpr ⟨h.not_mem ha, h.nodup⟩, fun k => ?_⟩
  by_cases hk : key a = k
  · rw [List.find?_cons_of_pos (by simpa using hk), ← hk, Function.update_self]
    rfl
  · rw [List.find?_cons_of_neg (by simpa using hk), Function.update_of_ne (Ne.symm hk), h.find k]

/-- The entry of a key removed. -/
theorem eraseP (h : Represents key val l m) (k : κ) :
    Represents key val (l.eraseP (key · = k)) (Function.update m k none) := by
  refine ⟨(List.eraseP_sublist.map key).nodup h.nodup, fun k' => ?_⟩
  by_cases hk : k' = k
  · rw [hk, find?_eraseP_self h.nodup, Function.update_self]
    rfl
  · rw [find?_eraseP_of_ne hk, Function.update_of_ne hk, h.find k']

/-- The entry of a key given another value. -/
theorem modifyFirst (h : Represents key val l m) (hk : m k ≠ none) {f : α → α} {b : β}
    (hf : ∀ a, key (f a) = key a) (hval : ∀ a, val (f a) = b) :
    Represents key val (modifyFirst (key · = k) f l) (Function.update m k (some b)) := by
  refine ⟨by rw [map_key_modifyFirst hf]; exact h.nodup, fun k' => ?_⟩
  by_cases hk' : k' = k
  · obtain ⟨a, ha⟩ : ∃ a, l.find? (key · = k) = some a := by
      rw [← Option.ne_none_iff_exists']
      intro hnone
      rw [← h.find k, hnone] at hk
      exact hk rfl
    rw [hk', find?_modifyFirst_self hf, ha, Function.update_self]
    exact congrArg some (hval a)
  · rw [find?_modifyFirst_of_ne hf hk', Function.update_of_ne hk', h.find k']

end Represents

end QcloudIot.Lib
