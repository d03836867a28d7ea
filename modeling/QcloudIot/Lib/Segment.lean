import Mathlib.Data.List.Nodup
import Mathlib.Logic.Function.Basic

/-!
# Segments of a doubly linked list

Cells by address with links both ways. `Seg s nodes before as behind`: walked from the side `s`, the
cells of `as` follow one another, the first one is linked back to `before` and the last one on to
`behind`. From the other side the same cells are the reversed segment (**`seg_reverse`**), so that what is
done at the front of a segment is done at its end as well.

* `seg_append`: a segment in two parts;
* `Seg.frame`: cells elsewhere do not matter;
* **`Seg.push`**, **`Seg.unlink`**: a cell linked in front of the others, and one taken out.
-/

namespace QcloudIot.Lib

variable {α : Type*}

/-- A cell. -/
structure ListNode (α : Type*) where
  prev : Option Nat
  next : Option Nat
  val : α

/-- The first address of a list. -/
def headAddr (as : List (Nat × α)) : Option Nat := as.head?.map Prod.fst

/-- The last address. -/
def lastAddr (as : List (Nat × α)) : Option Nat := as.getLast?.map Prod.fst

/-- The two sides of a list. -/
inductive Side where
  | head
  | tail
  deriving DecidableEq, Repr

/-- The other side. -/
def Side.opp : Side → Side
  | .head => .tail
  | .tail => .head

namespace ListNode

/-- The link onward, of a list that is walked from the side `s`. -/
def link (s : Side) (n : ListNode α) : Option Nat :=
  match s with
  | .head => n.next
  | .tail => n.prev

/-- That link set. -/
def setLink (s : Side) (n : ListNode α) (p : Option Nat) : ListNode α :=
  match s with
  | .head => { n with next := p }
  | .tail => { n with prev := p }

/-- The cell with a link back and a link onward. -/
def linked (s : Side) (back onward : Option Nat) (x : α) : ListNode α :=
  match s with
  | .head => ⟨back, onward, x⟩
  | .tail => ⟨onward, back, x⟩

end ListNode

/-- Walked from the side `s`, the cells of `as` stand between `before` and `behind`. -/
def Seg (s : Side) (nodes : Nat → Option (ListNode α)) :
    (before : Option Nat) → List (Nat × α) → (behind : Option Nat) → Prop
  | _, [], _ => True
  | before, (a, x) :: as, behind =>
    nodes a = some (.linked s before ((headAddr as).or behind) x) ∧ Seg s nodes (some a) as behind

/-- The cells with one link of the cell at `p` set, if there is such a cell. -/
def relinked (s : Side) (p v : Option Nat) (nodes : Nat → Option (ListNode α)) :
    Nat → Option (ListNode α) :=
  fun b => if p = some b then (nodes b).map fun n => n.setLink s v else nodes b

/-! ## Addresses -/

section Addresses

variable {as bs : List (Nat × α)} {a : Nat} {x : α}

@[simp] theorem headAddr_nil : headAddr ([] : List (Nat × α)) = none := rfl
@[simp] theorem headAddr_cons : headAddr ((a, x) :: as) = some a := rfl
@[simp] theorem lastAddr_nil : lastAddr ([] : List (Nat × α)) = none := rfl
@[simp] theorem lastAddr_concat : lastAddr (as ++ [(a, x)]) = some a := by simp [lastAddr]

theorem lastAddr_append (h : bs ≠ []) : lastAddr (as ++ bs) = lastAddr bs := by
  rw [lastAddr, lastAddr, List.getLast?_append_of_ne_nil as h]

theorem lastAddr_cons (h : as ≠ []) : lastAddr ((a, x) :: as) = lastAddr as :=
  show lastAddr ([(a, x)] ++ as) = lastAddr as from lastAddr_append h

theorem headAddr_mem (h : headAddr as = some a) : a ∈ as.map Prod.fst := by
  obtain ⟨y, hy, rfl⟩ := Option.map_eq_some_iff.mp h
  exact List.mem_map_of_mem (List.mem_of_mem_head? hy)

theorem lastAddr_mem (h : lastAddr as = some a) : a ∈ as.map Prod.fst := by
  obtain ⟨y, hy, rfl⟩ := Option.map_eq_some_iff.mp h
  exact List.mem_map_of_mem (List.mem_of_getLast? hy)

theorem headAddr_append_or (as bs : List (Nat × α)) :
    headAddr (as ++ bs) = (headAddr as).or (headAddr bs) := by
  cases as <;> rfl

theorem lastAddr_cons_or (as : List (Nat × α)) (a : Nat) (x : α) :
    lastAddr ((a, x) :: as) = (lastAddr as).or (some a) := by
  rcases List.eq_nil_or_concat' as with rfl | ⟨init, ⟨b, y⟩, rfl⟩
  · rfl
  · rw [← List.cons_append, lastAddr_concat, lastAddr_concat]
    rfl

/-- The first address of a list without a cell, by the links to the cell. -/
theorem headAddr_past (pre post : List (Nat × α)) (c : Nat × α) :
    (if lastAddr pre = none then headAddr post else headAddr (pre ++ c :: post)) =
      headAddr (pre ++ post) := by
  cases pre with
  | nil => rfl
  | cons b pre =>
    rw [if_neg (by rw [lastAddr, List.getLast?_cons]; exact Option.some_ne_none _)]
    rfl

/-- The last address. -/
theorem lastAddr_past (pre post : List (Nat × α)) (c : Nat × α) :
    (if headAddr post = none then lastAddr pre else lastAddr (pre ++ c :: post)) =
      lastAddr (pre ++ post) := by
  cases post with
  | nil => rw [headAddr_nil, if_pos rfl, List.append_nil]
  | cons b post =>
    rw [if_neg (by exact Option.some_ne_none _), lastAddr_append (List.cons_ne_nil _ _),
      lastAddr_cons (List.cons_ne_nil _ _), lastAddr_append (List.cons_ne_nil _ _)]

theorem headAddr_reverse (as : List (Nat × α)) : headAddr as.reverse = lastAddr as := by
  rw [headAddr, lastAddr, List.head?_reverse]

theorem lastAddr_reverse (as : List (Nat × α)) : lastAddr as.reverse = headAddr as := by
  rw [headAddr, lastAddr, List.getLast?_reverse]

end Addresses

/-! ## Cells -/

section Cells

variable (s : Side) (back onward p : Option Nat) (x : α) (n : ListNode α)

@[simp] theorem Side.opp_opp : s.opp.opp = s := by cases s <;> rfl

namespace ListNode

@[simp] theorem linked_opp : linked s.opp back onward x = linked s onward back x := by
  cases s <;> rfl

@[simp] theorem link_linked : (linked s back onward x).link s = onward := by cases s <;> rfl

@[simp] theorem link_opp_linked : (linked s back onward x).link s.opp = back := by
  cases s <;> rfl

@[simp] theorem val_linked : (linked s back onward x).val = x := by cases s <;> rfl

@[simp] theorem setLink_linked : (linked s back onward x).setLink s p = linked s back p x := by
  cases s <;> rfl

@[simp] theorem setLink_opp_linked :
    (linked s back onward x).setLink s.opp p = linked s p onward x := by cases s <;> rfl

@[simp] theorem val_setLink : (n.setLink s p).val = n.val := by cases s <;> rfl

theorem setLink_both : (n.setLink s onward).setLink s.opp back = linked s back onward n.val := by
  cases s <;> rfl

end ListNode

end Cells

/-! ## Segments -/

section Segments

variable {s : Side} {nodes nodes' : Nat → Option (ListNode α)} {before behind : Option Nat}
variable {as bs : List (Nat × α)} {a : Nat} {x : α}

theorem seg_append : Seg s nodes before (as ++ bs) behind ↔
    Seg s nodes before as ((headAddr bs).or behind) ∧
      Seg s nodes ((lastAddr as).or before) bs behind := by
  induction as generalizing before with
  | nil => exact ⟨fun h => ⟨trivial, h⟩, And.right⟩
  | cons c as ih =>
    obtain ⟨a, x⟩ := c
    rw [List.cons_append, Seg, Seg, ih, headAddr_append_or, lastAddr_cons_or, Option.or_assoc,
      Option.or_assoc, and_assoc]
    rfl

/-- **A segment from the other side.** -/
theorem seg_reverse : Seg s.opp nodes behind as.reverse before ↔ Seg s nodes before as behind := by
  induction as generalizing before with
  | nil => exact Iff.rfl
  | cons c as ih =>
    obtain ⟨a, x⟩ := c
    rw [List.reverse_cons, seg_append, headAddr_cons, Option.some_or, ih, Seg, Seg,
      ListNode.linked_opp, headAddr_nil, Option.none_or, lastAddr_reverse]
    exact ⟨fun h => ⟨h.2.1, h.1⟩, fun h => ⟨h.2, h.1, trivial⟩⟩

/-- Cells elsewhere do not matter. -/
theorem Seg.frame (h : Seg s nodes before as behind)
    (heq : ∀ a ∈ as.map Prod.fst, nodes' a = nodes a) : Seg s nodes' before as behind := by
  induction as generalizing before with
  | nil => trivial
  | cons c as ih =>
    rw [List.map_cons, List.forall_mem_cons] at heq
    exact ⟨heq.1.trans h.1, ih h.2 heq.2⟩

theorem relinked_of_ne {p v : Option Nat} {b : Nat} (h : p ≠ some b) :
    relinked s p v nodes b = nodes b := if_neg h

theorem relinked_self (v : Option Nat) :
    relinked s (some a) v nodes a = (nodes a).map fun n => n.setLink s v := if_pos rfl

theorem relinked_congr {p v : Option Nat} {b : Nat} (h : nodes' b = nodes b) :
    relinked s p v nodes' b = relinked s p v nodes b := by
  rw [relinked, relinked, h]

theorem relinked_none {p v : Option Nat} {b : Nat} (h : nodes b = none) :
    relinked s p v nodes b = none := by
  rw [relinked, h, Option.map_none, ite_self]

/-- No value changes. -/
theorem map_val_relinked (p v : Option Nat) (b : Nat) :
    (relinked s p v nodes b).map ListNode.val = (nodes b).map ListNode.val := by
  unfold relinked
  split
  · cases nodes b with
    | none => rfl
    | some n => simp only [Option.map_some, ListNode.val_setLink]
  · rfl

theorem relinked_eq {n : ListNode α} (h : nodes a = some n) (v : Option Nat) :
    relinked s (some a) v nodes = Function.update nodes a (some (n.setLink s v)) := by
  funext b
  by_cases hb : b = a
  · subst hb
    rw [relinked_self, h, Option.map_some, Function.update_self]
  · rw [relinked_of_ne (fun heq => hb (Option.some.inj heq).symm), Function.update_of_ne hb]

/-- The link back of the first cell set. -/
theorem Seg.setBack (h : Seg s nodes before as behind) (hnodup : (as.map Prod.fst).Nodup)
    (v : Option Nat) : Seg s (relinked s.opp (headAddr as) v nodes) v as behind := by
  cases as with
  | nil => trivial
  | cons c as =>
    obtain ⟨a, x⟩ := c
    rw [List.map_cons, List.nodup_cons] at hnodup
    refine ⟨?_, h.2.frame fun b hb => relinked_of_ne fun heq => hnodup.1 ?_⟩
    · rw [headAddr_cons, relinked_self, h.1, Option.map_some, ListNode.setLink_opp_linked]
    · rwa [Option.some.inj heq]

/-- The cells of a segment are there. -/
theorem Seg.exists_node (h : Seg s nodes before as behind) (ha : a ∈ as.map Prod.fst) :
    ∃ n, nodes a = some n := by
  induction as generalizing before with
  | nil => exact absurd ha (by simp)
  | cons c as ih =>
    rw [List.map_cons, List.mem_cons] at ha
    rcases ha with rfl | ha
    · exact ⟨_, h.1⟩
    · exact ih h.2 ha

/-- The cell between two parts of a list. -/
theorem Seg.middle {pre post : List (Nat × α)}
    (h : Seg s nodes none (pre ++ (a, x) :: post) none) :
    nodes a = some (.linked s (lastAddr pre) (headAddr post) x) := by
  have hcell := (seg_append.mp h).2.1
  rwa [Option.or_none, Option.or_none] at hcell

/-- **A cell linked in** before the first one. -/
theorem Seg.push (h : Seg s nodes none as none) (hnodup : (as.map Prod.fst).Nodup)
    (hcell : nodes' a = some (.linked s none (headAddr as) x))
    (hrest : ∀ b ∈ as.map Prod.fst, nodes' b = relinked s.opp (headAddr as) (some a) nodes b) :
    Seg s nodes' none ((a, x) :: as) none :=
  ⟨by rw [hcell, Option.or_none], (h.setBack hnodup (some a)).frame hrest⟩

/-- **A cell taken out**, when the two links to it are set past it. -/
theorem Seg.unlink {pre post : List (Nat × α)}
    (h : Seg s nodes none (pre ++ (a, x) :: post) none)
    (hnodup : ((pre ++ (a, x) :: post).map Prod.fst).Nodup)
    (hrest : ∀ b ∈ (pre ++ post).map Prod.fst, nodes' b =
      relinked s.opp (headAddr post) (lastAddr pre)
        (relinked s (lastAddr pre) (headAddr post) nodes) b) :
    Seg s nodes' none (pre ++ post) none := by
  rw [List.map_append, List.map_cons, List.nodup_append, List.nodup_cons] at hnodup
  obtain ⟨hpre, ⟨-, hpost⟩, hdisj⟩ := hnodup
  obtain ⟨hbefore, -, hbehind⟩ := seg_append.mp h
  refine Seg.frame (seg_append.mpr ⟨?_, ?_⟩) hrest
  · -- the part before is walked backwards from the cell
    rw [← seg_reverse] at hbefore ⊢
    have hset := hbefore.setBack (by rwa [List.map_reverse, List.nodup_reverse]) (headAddr post)
    rw [Side.opp_opp, headAddr_reverse] at hset
    rw [Option.or_none]
    refine hset.frame fun b hb => relinked_of_ne fun heq => ?_
    rw [List.map_reverse, List.mem_reverse] at hb
    exact hdisj b hb b (List.mem_cons_of_mem _ (headAddr_mem heq)) rfl
  · rw [Option.or_none]
    refine (hbehind.setBack hpost (lastAddr pre)).frame fun b hb => ?_
    exact relinked_congr (relinked_of_ne fun heq =>
      hdisj b (lastAddr_mem heq) b (List.mem_cons_of_mem _ hb) rfl)

end Segments

end QcloudIot.Lib
