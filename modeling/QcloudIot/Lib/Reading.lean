import QcloudIot.Lib.Memory

/-!
# Computations that read memory

A computation is its result together with the addresses it reads, in order. `cell` reads one cell,
`block` as many as it is told, and a computation that goes on with a result reads what both read.

* `Below n`: every address read is below `n`;
* `below_bind`, `below_cell`, `below_block`: it is enough to look at the parts.
-/

namespace QcloudIot.Lib

universe u

/-- A result and the addresses read for it. -/
structure Reading (α : Type u) where
  result : α
  addrs : List Nat
  deriving DecidableEq, Repr

namespace Reading

instance : Monad Reading where
  pure a := ⟨a, []⟩
  bind x f := ⟨(f x.result).result, x.addrs ++ (f x.result).addrs⟩

variable {α β : Type u}

/-- The cell at `p`. -/
def cell (m : Memory α) (p : Nat) : Reading α := ⟨m p, [p]⟩

/-- The `n` cells from `p` on. -/
def block (m : Memory α) (p n : Nat) : Reading (List α) := ⟨m.load p n, List.range' p n⟩

/-- Every address read is below `n`. -/
def Below (x : Reading α) (n : Nat) : Prop := ∀ i ∈ x.addrs, i < n

section

variable (a : α) (x : Reading α) (f : α → Reading β) (m : Memory α) (p n : Nat)

@[simp] theorem result_pure : (pure a : Reading α).result = a := rfl

@[simp] theorem result_ite (c : Prop) [Decidable c] (x y : Reading α) :
    (if c then x else y).result = if c then x.result else y.result := apply_ite result c x y

@[simp] theorem result_bind : (x >>= f).result = (f x.result).result := rfl

@[simp] theorem addrs_bind : (x >>= f).addrs = x.addrs ++ (f x.result).addrs := rfl

/-- The computation goes on with the cell itself, so that its conditions read as they do there. -/
@[simp] theorem result_cell_bind (g : α → Reading β) :
    (cell m p >>= g).result = (g (m p)).result := rfl

@[simp] theorem result_block_bind (g : List α → Reading β) :
    (block m p n >>= g).result = (g (m.load p n)).result := rfl

theorem below_pure : (pure a : Reading α).Below n := fun _ h => absurd h List.not_mem_nil

end

section

variable {x : Reading α} {f : α → Reading β} {m : Memory α} {p k n : Nat}

/-- A computation reads where its parts do. -/
theorem below_bind : (x >>= f).Below n ↔ x.Below n ∧ (f x.result).Below n := by
  unfold Below
  rw [addrs_bind]
  exact List.forall_mem_append

theorem below_cell : (cell m p).Below n ↔ p < n := List.forall_mem_singleton

theorem below_block (h : p + k ≤ n) : (block m p k).Below n := by
  intro i hi
  obtain ⟨j, hj, rfl⟩ := List.mem_range'.mp hi
  omega

end

end Reading

end QcloudIot.Lib
