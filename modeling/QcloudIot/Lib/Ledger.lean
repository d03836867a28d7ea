import Mathlib.Data.List.Count
import Mathlib.Data.List.Nodup

/-!
# A ledger of allocations

Allocations are numbered in the order they are made. A ledger lists the ones that have an owner,
once for each owner, and the ones freed, once for each time. It is balanced when every allocation
made has one owner or has been freed once, and nothing else is listed.

* `Balanced.settle`, `Balanced.alloc`: what keeps a ledger balanced;
* `Turns`: what an operation does to a ledger, whatever else is owned there: `Turns.trans`,
  `Turns.frame`, `Turns.both`, `turns_alloc`, `turns_free`, `turns_perm`;
* `Balanced.owner`, `Balanced.nodup_freed`, `Balanced.not_freed`, `Balanced.freed_iff`: what a
  balanced ledger says of owners, double frees, dangling references and leaks;
* `Balanced.live_iff`, `Balanced.live_iff_mine`: which allocations have not been freed.
-/

namespace QcloudIot.Lib

/-- The allocations with an owner, those freed, and the number of allocations made. -/
structure Ledger where
  owned : List Nat
  freed : List Nat
  next : Nat

namespace Ledger

/-- How often an allocation is listed. -/
def total (l : Ledger) (a : Nat) : Nat := l.owned.count a + l.freed.count a

/-- Every allocation made is listed once, and nothing else is. -/
def Balanced (l : Ledger) : Prop := ∀ a, l.total a = if a < l.next then 1 else 0

variable {l l' : Ledger}

theorem balanced_empty : Balanced ⟨[], [], 0⟩ := fun a => by simp [total]

/-- Owners change and allocations are freed, and none is lost or listed again. -/
theorem Balanced.settle (h : l.Balanced) (htotal : ∀ a, l'.total a = l.total a)
    (hnext : l'.next = l.next) : l'.Balanced := by
  intro a
  rw [htotal, h a, hnext]

/-- A new allocation is listed as well. -/
theorem Balanced.alloc (h : l.Balanced)
    (htotal : ∀ a, l'.total a = l.total a + if a = l.next then 1 else 0)
    (hnext : l'.next = l.next + 1) : l'.Balanced := by
  intro a
  rw [htotal, h a, hnext]
  by_cases ha : a = l.next
  · simp [ha]
  · by_cases hlt : a < l.next
    · simp [ha, hlt, Nat.lt_succ_of_lt hlt]
    · have hge : ¬ a < l.next + 1 := by omega
      simp [ha, hlt, hge]

/-- An allocation that is not freed has one owner. -/
theorem Balanced.owner (h : l.Balanced) {a : Nat} (ha : a < l.next) (hfree : a ∉ l.freed) :
    l.owned.count a = 1 := by
  have hone := h a
  rw [total, List.count_eq_zero_of_not_mem hfree, if_pos ha] at hone
  exact hone

/-- Nothing is freed twice. -/
theorem Balanced.nodup_freed (h : l.Balanced) : l.freed.Nodup := by
  rw [List.nodup_iff_count_le_one]
  intro a
  have hone := h a
  rw [total] at hone
  split at hone <;> omega

/-- What has an owner is not freed. -/
theorem Balanced.not_freed (h : l.Balanced) {a : Nat} (ha : a ∈ l.owned) : a ∉ l.freed := by
  intro hfree
  have hone := h a
  have h1 := List.count_pos_iff.mpr ha
  have h2 := List.count_pos_iff.mpr hfree
  rw [total] at hone
  split at hone <;> omega

/-- Everything has been freed, each allocation once, iff nothing has an owner. -/
theorem Balanced.freed_iff (h : l.Balanced) :
    l.freed.Perm (List.range l.next) ↔ l.owned = [] := by
  constructor
  · intro hperm
    refine List.eq_nil_iff_forall_not_mem.mpr fun a ha => h.not_freed ha (hperm.mem_iff.mpr ?_)
    have hone := h a
    have h1 := List.count_pos_iff.mpr ha
    rw [total] at hone
    rw [List.mem_range]
    by_contra hlt
    rw [if_neg hlt] at hone
    omega
  · intro hnil
    rw [List.perm_iff_count]
    intro a
    have hone := h a
    rw [total, hnil, List.count_nil, Nat.zero_add] at hone
    rw [hone, List.count_range]

/-- The allocations that have not been freed are those with an owner. -/
theorem Balanced.live_iff (h : l.Balanced) (a : Nat) :
    (a < l.next ∧ a ∉ l.freed) ↔ a ∈ l.owned := by
  constructor
  · rintro ⟨hlt, hfree⟩
    refine List.count_pos_iff.mp ?_
    rw [h.owner hlt hfree]
    exact Nat.one_pos
  · intro ha
    refine ⟨?_, h.not_freed ha⟩
    have hone := h a
    have hpos := List.count_pos_iff.mpr ha
    rw [total] at hone
    by_contra hlt
    rw [if_neg hlt] at hone
    omega

/-- The allocations that have not been freed are `mine`, iff none is owned besides. -/
theorem Balanced.live_iff_mine {mine besides freed : List Nat} {next : Nat}
    (h : Balanced ⟨mine ++ besides, freed, next⟩) :
    (∀ a, (a < next ∧ a ∉ freed) ↔ a ∈ mine) ↔ besides = [] := by
  constructor
  · intro hlive
    refine List.eq_nil_iff_forall_not_mem.mpr fun a ha => ?_
    have halive := (h.live_iff a).mpr (List.mem_append_right mine ha)
    have hone := h.owner halive.1 halive.2
    have hmine := List.count_pos_iff.mpr ((hlive a).mp halive)
    have hbesides := List.count_pos_iff.mpr ha
    rw [List.count_append] at hone
    omega
  · rintro rfl a
    rw [h.live_iff a, List.append_nil]

/-! ## What an operation does -/

/-- What is owned in `l` becomes what is owned in `l'`: the ledger stays balanced whatever else is
owned. -/
def Turns (l l' : Ledger) : Prop :=
  ∀ rest, Balanced ⟨l.owned ++ rest, l.freed, l.next⟩ →
    Balanced ⟨l'.owned ++ rest, l'.freed, l'.next⟩

variable {l'' : Ledger} {owned owned' freed freed' : List Nat} {next next' : Nat}

theorem Turns.refl (l : Ledger) : Turns l l := fun _ h => h

theorem Turns.trans (h : Turns l l') (h' : Turns l' l'') : Turns l l'' :=
  fun rest hb => h' rest (h rest hb)

theorem Turns.balanced (h : Turns l l') (hb : l.Balanced) : l'.Balanced := by
  have hrest := h [] (by rw [List.append_nil]; exact hb)
  rw [List.append_nil] at hrest
  exact hrest

/-- What is owned besides stays owned. -/
theorem Turns.frame (h : Turns ⟨owned, freed, next⟩ ⟨owned', freed', next'⟩) (besides : List Nat) :
    Turns ⟨owned ++ besides, freed, next⟩ ⟨owned' ++ besides, freed', next'⟩ := by
  intro rest hb
  dsimp only at hb ⊢
  rw [List.append_assoc] at hb ⊢
  exact h (besides ++ rest) hb

/-- The order in which owned allocations are listed does not matter. -/
theorem turns_perm (h : owned.Perm owned') : Turns ⟨owned, freed, next⟩ ⟨owned', freed, next⟩ :=
  fun rest hb => hb.settle (fun a => by simp only [total, List.count_append, h.count_eq]) rfl

/-- One operation after the other, on what each owns. -/
theorem Turns.both {freed'' mine mine' : List Nat} {next'' : Nat}
    (h : Turns ⟨owned, freed, next⟩ ⟨owned', freed', next'⟩)
    (h' : Turns ⟨mine, freed', next'⟩ ⟨mine', freed'', next''⟩) :
    Turns ⟨mine ++ owned, freed, next⟩ ⟨mine' ++ owned', freed'', next''⟩ := by
  have hfirst := (turns_perm List.perm_append_comm).trans (h.frame mine)
  exact hfirst.trans ((turns_perm List.perm_append_comm).trans (h'.frame owned'))

theorem turns_alloc (owned freed : List Nat) (next : Nat) :
    Turns ⟨owned, freed, next⟩ ⟨next :: owned, freed, next + 1⟩ := by
  intro rest hb
  refine hb.alloc (fun a => ?_) rfl
  simp only [total, List.cons_append, List.count_cons, beq_iff_eq, eq_comm (a := next)]
  omega

theorem turns_free (a : Nat) (owned freed : List Nat) (next : Nat) :
    Turns ⟨a :: owned, freed, next⟩ ⟨owned, freed ++ [a], next⟩ := by
  intro rest hb
  refine hb.settle (fun b => ?_) rfl
  simp only [total, List.cons_append, List.count_cons, List.count_append, List.count_nil]
  omega

/-- Several frees, in order. -/
theorem turns_freeAll (blocks owned freed : List Nat) (next : Nat) :
    Turns ⟨blocks ++ owned, freed, next⟩ ⟨owned, freed ++ blocks, next⟩ := by
  intro rest hb
  refine hb.settle (fun b => ?_) rfl
  simp only [total, List.count_append]
  omega

end Ledger

end QcloudIot.Lib
