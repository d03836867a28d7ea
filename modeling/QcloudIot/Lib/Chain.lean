import QcloudIot.Lib.LinkedList

/-!
# Singly linked lists with a last pointer

Cells by address, each with a link to the next, and a header with the first and the last address.
Following a link to a cell that is not there is a fault, `none`. `Chain.Spells` says that the links
spell a list of addresses and values; other cells may be there too.

* `Spells.single`, `Spells.pushFront`, `Spells.insertBehind`, `Spells.pushBack`: a new cell linked in.
-/

namespace QcloudIot.Lib

variable {α : Type*}

/-- A cell. -/
structure ChainCell (α : Type*) where
  val : α
  next : Option Nat

/-- The cells, and the header. -/
structure Chain (α : Type*) where
  cells : Nat → Option (ChainCell α)
  first : Option Nat
  last : Option Nat

namespace Chain

/-- A cell written, new or not. -/
def put (l : Chain α) (a : Nat) (c : ChainCell α) : Chain α :=
  { l with cells := Function.update l.cells a (some c) }

/-- The link of a cell set; a fault if it is not there. -/
def setNext (l : Chain α) (a : Nat) (next : Option Nat) : Option (Chain α) :=
  (l.cells a).map fun c => l.put a { c with next := next }

/-- The links spell `as`, from the first address to the last, and the header has both. -/
structure Spells (l : Chain α) (as : List (Nat × α)) : Prop where
  cell : ∀ {pre a x post}, as = pre ++ (a, x) :: post → l.cells a = some ⟨x, headAddr post⟩
  first : l.first = headAddr as
  last : l.last = lastAddr as
  nodup : (as.map Prod.fst).Nodup

/-- A new cell before all others. -/
def pushFront (l : Chain α) (a : Nat) (x : α) : Chain α :=
  { l.put a ⟨x, l.first⟩ with first := some a }

/-- The only cell of a list. -/
def single (l : Chain α) (a : Nat) (x : α) : Chain α :=
  { l.put a ⟨x, none⟩ with first := some a, last := some a }

/-- A new cell behind the cell at `p`. -/
def insertBehind (l : Chain α) (p a : Nat) (x : α) : Option (Chain α) :=
  (l.cells p).bind fun c => (l.put a ⟨x, c.next⟩).setNext p (some a)

/-- A new cell behind the last one. -/
def pushBack (l : Chain α) (a : Nat) (x : α) : Option (Chain α) :=
  l.last.bind fun t => ((l.put a ⟨x, none⟩).setNext t (some a)).map fun l' =>
    { l' with last := some a }

variable {l : Chain α} {as pre post : List (Nat × α)} {a p : Nat} {x y : α}

theorem put_same (c : ChainCell α) : (l.put a c).cells a = some c := Function.update_self _ _ _

theorem put_other (c : ChainCell α) (h : p ≠ a) : (l.put a c).cells p = l.cells p :=
  Function.update_of_ne h _ _

namespace Spells

/-- Where a cell of a list with one more stands. -/
theorem split_cases {pre' post' : List (Nat × α)}
    (h : pre ++ (a, x) :: post = pre' ++ (p, y) :: post') :
    (∃ mid, pre = pre' ++ (p, y) :: mid ∧ post' = mid ++ (a, x) :: post) ∨
      (pre' = pre ∧ p = a ∧ y = x ∧ post' = post) ∨
      ∃ mid, pre' = pre ++ (a, x) :: mid ∧ post = mid ++ (p, y) :: post' := by
  rcases List.append_eq_append_iff.mp h with ⟨mid, hpre, hrest⟩ | ⟨mid, hpre, hrest⟩
  · cases mid with
    | nil =>
      simp only [List.append_nil] at hpre
      cases hrest
      exact .inr (.inl ⟨hpre, rfl, rfl, rfl⟩)
    | cons c mid =>
      cases hrest
      exact .inr (.inr ⟨mid, hpre, rfl⟩)
  · cases mid with
    | nil =>
      simp only [List.append_nil] at hpre
      cases hrest
      exact .inr (.inl ⟨hpre.symm, rfl, rfl, rfl⟩)
    | cons c mid =>
      cases hrest
      exact .inl ⟨mid, hpre, rfl⟩

theorem ne_of_split {pre' post' : List (Nat × α)} (has : as = pre' ++ (p, y) :: post')
    (hnew : a ∉ as.map Prod.fst) : p ≠ a := by
  rintro rfl
  exact hnew (has ▸ List.mem_map_of_mem (List.mem_append_right _ List.mem_cons_self))

theorem nodup_insert (h : Spells l (pre ++ post)) (hnew : a ∉ (pre ++ post).map Prod.fst) :
    ((pre ++ (a, x) :: post).map Prod.fst).Nodup := by
  have hperm : ((pre ++ (a, x) :: post).map Prod.fst).Perm (a :: (pre ++ post).map Prod.fst) :=
    (List.perm_middle (a := (a, x))).map Prod.fst
  exact hperm.nodup_iff.mpr (List.nodup_cons.mpr ⟨hnew, h.nodup⟩)

theorem single (l : Chain α) (a : Nat) (x : α) : Spells (l.single a x) [(a, x)] where
  cell := by
    intro pre p y post h
    rcases split_cases ((List.nil_append [(a, x)]).trans h) with
      ⟨mid, hnil, -⟩ | ⟨-, rfl, rfl, rfl⟩ | ⟨mid, -, hnil⟩
    · exact absurd hnil (by simp)
    · exact put_same _
    · exact absurd hnil (by simp)
  first := rfl
  last := rfl
  nodup := List.nodup_singleton a

theorem pushFront (h : Spells l as) (hne : as ≠ []) (hnew : a ∉ as.map Prod.fst) :
    Spells (l.pushFront a x) ((a, x) :: as) where
  cell := by
    intro pre p y post has
    rcases split_cases ((List.nil_append _).trans has) with
      ⟨mid, hnil, -⟩ | ⟨-, rfl, rfl, rfl⟩ | ⟨mid, -, hmid⟩
    · exact absurd hnil (by simp)
    · rw [← h.first]
      exact put_same _
    · exact (put_other _ (ne_of_split hmid hnew)).trans (h.cell hmid)
  first := rfl
  last := h.last.trans (lastAddr_cons hne).symm
  nodup := List.nodup_cons.mpr ⟨hnew, h.nodup⟩

/-- The links after a new cell has been written and the one before it made to point there. -/
theorem cell_insert {l' : Chain α} (h : Spells l (pre ++ (p, y) :: post))
    (hnew : a ∉ (pre ++ (p, y) :: post).map Prod.fst)
    (hlink : ((l.put a ⟨x, headAddr post⟩).setNext p (some a)) = some l') :
    ∀ {pre' q z post'}, pre ++ (p, y) :: (a, x) :: post = pre' ++ (q, z) :: post' →
      l'.cells q = some ⟨z, headAddr post'⟩ := by
  intro pre' q z post' has
  have hpa : p ≠ a := ne_of_split rfl hnew
  have hcell : (l.put a ⟨x, headAddr post⟩).cells p = some ⟨y, headAddr post⟩ :=
    (put_other _ hpa).trans (h.cell rfl)
  rw [setNext, hcell, Option.map_some, Option.some_inj] at hlink
  subst hlink
  have hold : ∀ (front : List (Nat × α)) {back}, pre ++ (p, y) :: post = front ++ (q, z) :: back → q ≠ p →
      (((l.put a ⟨x, headAddr post⟩).put p ⟨y, some a⟩).cells q) = some ⟨z, headAddr back⟩ := by
    intro front back hsplit hqp
    rw [put_other _ hqp, put_other _ (ne_of_split hsplit hnew), h.cell hsplit]
  have hnodup : ∀ {r : Nat}, r ∈ pre.map Prod.fst ∨ r ∈ post.map Prod.fst → r ≠ p := by
    rintro r hr rfl
    have hperm : ((pre ++ (r, y) :: post).map Prod.fst).Perm (r :: (pre ++ post).map Prod.fst) :=
      (List.perm_middle (a := (r, y))).map Prod.fst
    have hmem := (List.nodup_cons.mp (hperm.nodup_iff.mp h.nodup)).1
    rw [List.map_append, List.mem_append] at hmem
    exact hmem hr
  rcases split_cases has with ⟨mid, rfl, rfl⟩ | ⟨-, rfl, rfl, rfl⟩ | ⟨mid, rfl, hmid⟩
  · -- before the cell that points to the new one
    have hqp : q ≠ p := hnodup (.inl (by simp))
    rw [hold _ (by rw [List.append_assoc, List.cons_append]) hqp]
    cases mid <;> rfl
  · exact put_same _
  · rcases split_cases ((List.nil_append _).trans hmid) with
      ⟨mid', hnil, -⟩ | ⟨rfl, rfl, rfl, rfl⟩ | ⟨mid', rfl, rfl⟩
    · exact absurd hnil (by simp)
    · rw [put_other _ (Ne.symm hpa), put_same]
    · have hqp : q ≠ p := hnodup (.inr (by simp))
      exact hold (pre ++ (p, y) :: mid') (by simp) hqp

theorem insertBehind (h : Spells l (pre ++ (p, y) :: post)) (hne : post ≠ [])
    (hnew : a ∉ (pre ++ (p, y) :: post).map Prod.fst) :
    ∃ l', l.insertBehind p a x = some l' ∧ Spells l' (pre ++ (p, y) :: (a, x) :: post) := by
  have hpa : p ≠ a := ne_of_split rfl hnew
  have hcell : (l.put a ⟨x, headAddr post⟩).cells p = some ⟨y, headAddr post⟩ :=
    (put_other _ hpa).trans (h.cell rfl)
  have hlink : (l.put a ⟨x, headAddr post⟩).setNext p (some a) =
      some ((l.put a ⟨x, headAddr post⟩).put p ⟨y, some a⟩) := by
    rw [setNext, hcell, Option.map_some]
  refine ⟨_, ?_, ⟨h.cell_insert hnew hlink, ?_, ?_, ?_⟩⟩
  · rw [Chain.insertBehind, h.cell rfl, Option.bind_some, hlink]
  · refine h.first.trans ?_
    cases pre <;> rfl
  · refine h.last.trans ?_
    rw [lastAddr_append (List.cons_ne_nil _ _), lastAddr_cons hne,
      lastAddr_append (List.cons_ne_nil _ _), lastAddr_cons (List.cons_ne_nil _ _), lastAddr_cons hne]
  · have hcons : pre ++ (p, y) :: post = (pre ++ [(p, y)]) ++ post := by simp
    rw [hcons] at h hnew
    have hnodup := h.nodup_insert (x := x) hnew
    rwa [List.append_assoc] at hnodup

theorem pushBack (h : Spells l as) (hne : as ≠ []) (hnew : a ∉ as.map Prod.fst) :
    ∃ l', l.pushBack a x = some l' ∧ Spells l' (as ++ [(a, x)]) := by
  obtain ⟨pre, ⟨p, y⟩, rfl⟩ : ∃ pre c, as = pre ++ [c] :=
    ⟨_, _, (List.dropLast_append_getLast hne).symm⟩
  have hpa : p ≠ a := ne_of_split rfl hnew
  have hcell : (l.put a ⟨x, none⟩).cells p = some ⟨y, none⟩ :=
    (put_other _ hpa).trans (h.cell rfl)
  have hlink : (l.put a ⟨x, none⟩).setNext p (some a) =
      some ((l.put a ⟨x, none⟩).put p ⟨y, some a⟩) := by
    rw [setNext, hcell, Option.map_some]
  have hlast : l.last = some p := h.last.trans lastAddr_concat
  refine ⟨{ (l.put a ⟨x, none⟩).put p ⟨y, some a⟩ with last := some a }, ?_, ?_, ?_, ?_, ?_⟩
  · rw [Chain.pushBack, hlast, Option.bind_some, hlink, Option.map_some]
  · intro pre' q z post' has
    rw [List.append_assoc] at has
    exact h.cell_insert hnew hlink has
  · refine h.first.trans ?_
    cases pre <;> rfl
  · exact lastAddr_concat.symm
  · have hnodup := nodup_insert (x := x) (by rwa [List.append_nil])
      (by rwa [List.append_nil])
    exact hnodup

end Spells

end Chain

end QcloudIot.Lib
