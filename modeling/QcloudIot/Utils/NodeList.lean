import QcloudIot.Lib.Segment

/-!
# The doubly linked list

`list_node_new`, `list_rpush`, `list_lpush`, `list_rpop`, `list_lpop`, `list_remove` and the iterator of
`utils_list.c`, statement by statement on a memory of nodes. `NULL` is `none`, and following a link to a
node that is not allocated is a fault, `none` as well. `len` has 32 bits.

The functions for the two ends are the same with the links exchanged: `pushAt`, `popAt`. `Linked` says
that the links spell a list, walked from one side; from the other side they spell it reversed.

* **`pushAt_spec`**, **`popAt_spec`**, **`listRemove_spec`**: what each function does to the list that is
  spelled, to `len` and to the nodes;
* `Linked.walk_eq`: an iterator returns the list.
-/

namespace QcloudIot.Utils

open Lib

variable {α : Type}

/-- `List` without `match`, with the nodes that are allocated and what `free` was called with. -/
structure NodeList (α : Type) where
  nodes : Nat → Option (ListNode α)
  head : Option Nat
  tail : Option Nat
  len : UInt32
  /-- Whether `free` is set. -/
  free : Bool
  freed : List α

namespace NodeList

/-- `list_new`, in a memory with these nodes; the caller sets `free`. -/
def new (nodes : Nat → Option (ListNode α)) (free : Bool) : NodeList α :=
  ⟨nodes, none, none, 0, free, []⟩

variable (l : NodeList α)

/-- `self->head` or `self->tail`. -/
def endAt (s : Side) : Option Nat :=
  match s with
  | .head => l.head
  | .tail => l.tail

def setEnd (s : Side) (p : Option Nat) : NodeList α :=
  match s with
  | .head => { l with head := p }
  | .tail => { l with tail := p }

/-- The node a pointer leads to. -/
def deref (p : Option Nat) : Option (ListNode α) := p.bind l.nodes

/-- `p->next = v` for a list walked from the head, `p->prev = v` for one walked from the tail. -/
def setLink (s : Side) (p v : Option Nat) : Option (NodeList α) := do
  let a ← p
  let n ← l.nodes a
  return { l with nodes := Function.update l.nodes a (some (n.setLink s v)) }

/-- `list_node_new` where `HAL_Malloc` has the address `a`. -/
def listNodeNew (a : Nat) (val : α) : NodeList α :=
  { l with nodes := Function.update l.nodes a (some ⟨none, none, val⟩) }

/-- `list_rpush` and `list_lpush`: what is returned, and the list. -/
def pushAt (s : Side) : Option Nat → Option (Option Nat × NodeList α)
  | none => some (none, l)
  | some a => do
    let l ← if l.len ≠ 0 then do
        let l ← l.setLink s (some a) (l.endAt s)
        let l ← l.setLink s.opp (some a) none
        let l ← l.setLink s.opp (l.endAt s) (some a)
        pure (l.setEnd s (some a))
      else do
        let l := (l.setEnd .tail (some a)).setEnd .head (some a)
        let l ← l.setLink .head (some a) none
        l.setLink .tail (some a) none
    return (some a, { l with len := l.len + 1 })

/-- `list_rpush`. -/
def listRpush (node : Option Nat) : Option (Option Nat × NodeList α) := l.pushAt .tail node

/-- `list_lpush`. -/
def listLpush (node : Option Nat) : Option (Option Nat × NodeList α) := l.pushAt .head node

/-- `list_rpop` and `list_lpop`. -/
def popAt (s : Side) : Option (Option Nat × NodeList α) :=
  if l.len = 0 then some (none, l)
  else do
    let node := l.endAt s
    let l := { l with len := l.len - 1 }
    let l ← if l.len ≠ 0 then do
        let n ← l.deref node
        let l := l.setEnd s (n.link s)
        l.setLink s.opp (l.endAt s) none
      else pure ((l.setEnd s.opp none).setEnd s none)
    let l ← l.setLink .tail node none
    let l ← l.setLink .head node none
    return (node, l)

/-- `list_rpop`. -/
def listRpop : Option (Option Nat × NodeList α) := l.popAt .tail

/-- `list_lpop`. -/
def listLpop : Option (Option Nat × NodeList α) := l.popAt .head

/-- The link to `a` from the node before it, or from the list, set to the node behind it; seen from the
side `s`. -/
def bypass (s : Side) (a : Nat) : Option (NodeList α) := do
  let n ← l.nodes a
  match n.link s.opp with
  | some p => l.setLink s (some p) (n.link s)
  | none => pure (l.setEnd s (n.link s))

/-- `list_remove`. -/
def listRemove (a : Nat) : Option (NodeList α) := do
  let l ← l.bypass .head a
  let l ← l.bypass .tail a
  let n ← l.nodes a
  let l := if l.free then { l with freed := l.freed ++ [n.val] } else l
  let l := { l with nodes := Function.update l.nodes a none }
  return if l.len ≠ 0 then { l with len := l.len - 1 } else l

/-- `list_iterator_next`: what is returned, and where the iterator then stands. -/
def listIteratorNext (direction : Side) (next : Option Nat) : Option (Option Nat × Option Nat) :=
  match next with
  | none => some (none, none)
  | some curr => do
    let n ← l.nodes curr
    return (some curr, n.link direction)

/-- The nodes an iterator returns until it returns none, with their values. -/
def walk (direction : Side) : (fuel : Nat) → (next : Option Nat) → Option (List (Nat × α))
  | 0, _ => none
  | fuel + 1, next => do
    match ← l.listIteratorNext direction next with
    | (none, _) => return []
    | (some a, next) =>
      let n ← l.nodes a
      let rest ← walk direction fuel next
      return (a, n.val) :: rest

/-- The values of the nodes that are allocated. -/
def vals (a : Nat) : Option α := (l.nodes a).map ListNode.val

end NodeList

/-- The links spell `as`, walked from the side `s`, and the list has its ends; other nodes may be
allocated. -/
structure Linked (s : Side) (l : NodeList α) (as : List (Nat × α)) : Prop where
  seg : Seg s l.nodes none as none
  near : l.endAt s = headAddr as
  far : l.endAt s.opp = lastAddr as
  nodup : (as.map Prod.fst).Nodup

namespace NodeList

variable {l : NodeList α} {s : Side} {as : List (Nat × α)} {a : Nat} {x : α} {n : ListNode α}

/-! ## The statements -/

@[simp] theorem endAt_setEnd (p : Option Nat) : (l.setEnd s p).endAt s = p := by cases s <;> rfl

@[simp] theorem endAt_setEnd_opp (p : Option Nat) :
    (l.setEnd s p).endAt s.opp = l.endAt s.opp := by cases s <;> rfl

@[simp] theorem endAt_opp_setEnd (p : Option Nat) :
    (l.setEnd s.opp p).endAt s = l.endAt s := by cases s <;> rfl

@[simp] theorem nodes_setEnd (p : Option Nat) : (l.setEnd s p).nodes = l.nodes := by
  cases s <;> rfl

@[simp] theorem len_setEnd (p : Option Nat) : (l.setEnd s p).len = l.len := by cases s <;> rfl

theorem setLink_eq (h : l.nodes a = some n) (s : Side) (v : Option Nat) :
    l.setLink s (some a) v = some { l with nodes := relinked s (some a) v l.nodes } := by
  rw [relinked_eq h]
  simp [setLink, h]

/-- Both links of a node set, one after the other. -/
theorem bind_setLink_both {β : Type} (h : l.nodes a = some n) (s : Side) (v w : Option Nat)
    (f : NodeList α → Option β) :
    ((l.setLink s (some a) v).bind fun l => (l.setLink s.opp (some a) w).bind f) =
      f { l with nodes := Function.update l.nodes a (some (.linked s w v n.val)) } := by
  rw [setLink_eq h, Option.bind_some, setLink_eq (n := n.setLink s v), Option.bind_some]
  · rw [relinked_eq h, relinked_eq (n := n.setLink s v) (Function.update_self _ _ _),
      Function.update_idem, ListNode.setLink_both]
  · exact (relinked_self v).trans (by rw [h, Option.map_some])

/-! ## Pushes -/

/-- A push on an empty list. -/
theorem pushAt_empty (s : Side) (hlen : l.len = 0) (hn : l.nodes a = some n) :
    l.pushAt s (some a) = some (some a, { (l.setEnd .tail (some a)).setEnd .head (some a) with
      nodes := Function.update l.nodes a (some (.linked .head none none n.val))
      len := l.len + 1 }) := by
  have hn' : ((l.setEnd .tail (some a)).setEnd .head (some a)).nodes a = some n := hn
  simp only [pushAt, hlen, ne_eq, not_true_eq_false, if_false, Option.bind_eq_bind]
  exact (bind_setLink_both hn' .head none none _).trans (by rw [len_setEnd, len_setEnd, hlen]; rfl)

/-- A push on a list that has an end. -/
theorem pushAt_cons {t : Nat} {m : ListNode α} (hlen : l.len ≠ 0) (hn : l.nodes a = some n)
    (hend : l.endAt s = some t) (hm : l.nodes t = some m) (hat : a ≠ t) :
    l.pushAt s (some a) = some (some a, { l.setEnd s (some a) with
      nodes := relinked s.opp (some t) (some a)
        (Function.update l.nodes a (some (.linked s none (some t) n.val)))
      len := l.len + 1 }) := by
  simp only [pushAt, hlen, ne_eq, not_false_eq_true, if_true, hend, Option.bind_eq_bind]
  rw [bind_setLink_both hn]
  have hend' : ({ l with
      nodes := Function.update l.nodes a (some (.linked s none (some t) n.val)) } :
        NodeList α).endAt s = some t := hend
  rw [hend', setLink_eq (n := m)]
  · cases s <;> rfl
  · exact (Function.update_of_ne hat.symm _ _).trans hm

/-- **A push**: the node stands before the others, seen from its side. -/
theorem pushAt_spec (h : Linked s l as) (hlen : l.len = 0 ↔ as = []) (hn : l.nodes a = some n)
    (ha : a ∉ as.map Prod.fst) : ∃ l', l.pushAt s (some a) = some (some a, l') ∧
      Linked s l' ((a, n.val) :: as) ∧ l'.len = l.len + 1 ∧ l'.vals = l.vals := by
  have hnodup : (((a, n.val) :: as).map Prod.fst).Nodup := by
    rw [List.map_cons, List.nodup_cons]
    exact ⟨ha, h.nodup⟩
  have hvals : ∀ m : ListNode α, m.val = n.val →
      (fun b => (Function.update l.nodes a (some m) b).map ListNode.val) = l.vals := by
    intro m hm
    funext b
    by_cases hb : b = a
    · rw [hb, Function.update_self, vals, hn, Option.map_some, Option.map_some, hm]
    · rw [Function.update_of_ne hb]
      rfl
  cases as with
  | nil =>
    refine ⟨_, pushAt_empty s (hlen.mpr rfl) hn, ⟨?_, ?_, ?_, hnodup⟩, rfl, hvals _ ?_⟩
    · exact ⟨(Function.update_self _ _ _).trans (by cases s <;> rfl), trivial⟩
    · cases s <;> rfl
    · cases s <;> rfl
    · exact ListNode.val_linked _ _ _ _
  | cons c as =>
    obtain ⟨t, y⟩ := c
    have hat : a ≠ t := by
      rintro rfl
      exact ha List.mem_cons_self
    have hne : l.len ≠ 0 := fun hzero => by simpa using hlen.mp hzero
    refine ⟨_, pushAt_cons hne hn h.near h.seg.1 hat, ⟨?_, ?_, ?_, hnodup⟩, rfl, ?_⟩
    · refine h.seg.push h.nodup ?_ fun b hb => ?_
      · exact (relinked_of_ne fun heq => hat (Option.some.inj heq).symm).trans
          (Function.update_self _ _ _)
      · have hba : b ≠ a := fun heq => ha (heq ▸ hb)
        exact relinked_congr (Function.update_of_ne hba _ _)
    · exact endAt_setEnd (l := l) (some a)
    · rw [lastAddr_cons (List.cons_ne_nil _ _), ← h.far]
      exact endAt_setEnd_opp (l := l) (some a)
    · funext b
      refine (map_val_relinked _ _ b).trans ?_
      exact congrFun (hvals _ (ListNode.val_linked _ _ _ _)) b

/-! ## Pops -/

/-- The node popped is unlinked, and not freed. -/
theorem vals_unlinked (hn : l.nodes a = some n) {nodes : Nat → Option (ListNode α)}
    (hcell : nodes a = some ⟨none, none, n.val⟩)
    (hrest : ∀ b, b ≠ a → (nodes b).map ListNode.val = l.vals b) :
    (fun b => (nodes b).map ListNode.val) = l.vals := by
  funext b
  by_cases hb : b = a
  · rw [hb, hcell, vals, hn, Option.map_some, Option.map_some]
  · exact hrest b hb

/-- The end of a pop. -/
theorem bind_unlink (hn : l.nodes a = some n) (r : Option Nat) :
    ((l.setLink .tail (some a) none).bind fun l => (l.setLink .head (some a) none).bind fun l =>
      some (r, l)) =
        some (r, { l with nodes := Function.update l.nodes a (some ⟨none, none, n.val⟩) }) :=
  bind_setLink_both hn .tail none none fun l => some (r, l)

theorem toNat_sub_one {u : UInt32} {k : Nat} (h : u.toNat = k + 1) : (u - 1).toNat = k := by
  have hlt := u.toNat_lt
  rw [UInt32.toNat_sub, show (1 : UInt32).toNat = 1 from rfl]
  omega

/-- A pop of the only node. -/
theorem popAt_single (hne : l.len ≠ 0) (hone : l.len - 1 = 0) (hend : l.endAt s = some a)
    (hn : l.nodes a = some n) : l.popAt s = some (some a,
      { (({ l with len := l.len - 1 } : NodeList α).setEnd s.opp none).setEnd s none with
        nodes := Function.update l.nodes a (some ⟨none, none, n.val⟩) }) := by
  simp only [popAt, hne, if_false, hone, ne_eq, not_true_eq_false, Option.bind_eq_bind, hend,
    Option.pure_def, Option.bind_some]
  refine (bind_unlink (n := n) ?_ _).trans ?_
  · rw [nodes_setEnd, nodes_setEnd]
    exact hn
  · rw [nodes_setEnd, nodes_setEnd]

/-- A pop of a node with another one behind it. -/
theorem popAt_cons {t : Nat} {m : ListNode α} (hne : l.len ≠ 0) (hmore : l.len - 1 ≠ 0)
    (hend : l.endAt s = some a) (hn : l.nodes a = some n) (hlink : n.link s = some t)
    (hm : l.nodes t = some m) (hat : a ≠ t) : l.popAt s = some (some a,
      { ({ l with len := l.len - 1 } : NodeList α).setEnd s (some t) with
        nodes := Function.update (relinked s.opp (some t) none l.nodes) a
          (some ⟨none, none, n.val⟩) }) := by
  have hderef : ({ l with len := l.len - 1 } : NodeList α).deref (some a) = some n := hn
  simp only [popAt, hne, if_false, hmore, ne_eq, not_false_eq_true, if_true, Option.bind_eq_bind,
    hend, Option.pure_def, hderef, Option.bind_some, hlink, endAt_setEnd]
  rw [setLink_eq (n := m) (by rw [nodes_setEnd]; exact hm), Option.bind_some]
  refine (bind_unlink (n := n) ?_ _).trans ?_
  · rw [nodes_setEnd]
    exact (relinked_of_ne fun heq => hat (Option.some.inj heq).symm).trans hn
  · rw [nodes_setEnd]

/-- **A pop**: the first node, seen from its side, is returned. -/
theorem popAt_spec (h : Linked s l ((a, x) :: as)) (hlen : l.len.toNat = as.length + 1) :
    ∃ l', l.popAt s = some (some a, l') ∧ Linked s l' as ∧ l'.len.toNat = as.length ∧
      l'.vals = l.vals ∧ l'.nodes a = some ⟨none, none, x⟩ := by
  have hnodup := h.nodup
  rw [List.map_cons, List.nodup_cons] at hnodup
  have hcell := h.seg.1
  have hne : l.len ≠ 0 := by
    intro hzero
    rw [hzero] at hlen
    exact absurd hlen (by simp)
  have hlen' := toNat_sub_one hlen
  have hiff : l.len - 1 = 0 ↔ as = [] := by
    rw [← List.length_eq_zero_iff, ← hlen', ← UInt32.toNat_inj]
    rfl
  cases as with
  | nil =>
    have hpop := popAt_single hne (hiff.mpr rfl) h.near hcell
    rw [ListNode.val_linked] at hpop
    refine ⟨_, hpop, ⟨trivial, ?_, ?_, List.nodup_nil⟩, ?_, ?_, Function.update_self _ _ _⟩
    · cases s <;> rfl
    · cases s <;> rfl
    · cases s <;> exact hlen'
    · refine vals_unlinked hcell ?_ fun b hb => ?_
      · rw [ListNode.val_linked]
        exact Function.update_self _ _ _
      · exact congrArg (Option.map ListNode.val) (Function.update_of_ne hb _ _)
  | cons c as =>
    obtain ⟨t, y⟩ := c
    have hat : a ≠ t := by
      rintro rfl
      exact hnodup.1 List.mem_cons_self
    have hpop := popAt_cons hne (fun hzero => by simpa using hiff.mp hzero) h.near hcell
      (ListNode.link_linked _ _ _ _) h.seg.2.1 hat
    rw [ListNode.val_linked] at hpop
    refine ⟨_, hpop, ⟨?_, ?_, ?_, hnodup.2⟩, ?_, ?_, Function.update_self _ _ _⟩
    · exact (h.seg.2.setBack hnodup.2 none).frame fun b hb =>
        Function.update_of_ne (fun heq : b = a => hnodup.1 (heq ▸ hb)) _ _
    · cases s <;> rfl
    · have hfar := h.far
      rw [lastAddr_cons (List.cons_ne_nil _ _)] at hfar
      cases s <;> exact hfar
    · cases s <;> exact hlen'
    · refine vals_unlinked hcell ?_ fun b hb => ?_
      · rw [ListNode.val_linked]
        exact Function.update_self _ _ _
      · exact (congrArg (Option.map ListNode.val) (Function.update_of_ne hb _ _)).trans
          (map_val_relinked _ _ b)

theorem popAt_empty (hlen : l.len = 0) : l.popAt s = some (none, l) := if_pos hlen

/-! ## Removal -/

/-- The link past a node set, and nothing else. -/
theorem bypass_spec (hn : l.nodes a = some n)
    (hlive : ∀ p, n.link s.opp = some p → ∃ m, l.nodes p = some m) :
    ∃ l', l.bypass s a = some l' ∧ l'.nodes = relinked s (n.link s.opp) (n.link s) l.nodes ∧
      l'.endAt s = (if n.link s.opp = none then n.link s else l.endAt s) ∧
      l'.endAt s.opp = l.endAt s.opp ∧ l'.len = l.len ∧ l'.free = l.free ∧ l'.freed = l.freed := by
  simp only [bypass, hn, Option.bind_eq_bind, Option.bind_some]
  cases hlink : n.link s.opp with
  | none =>
    refine ⟨_, rfl, nodes_setEnd _, endAt_setEnd _, endAt_setEnd_opp _, len_setEnd _, ?_, ?_⟩
    · cases s <;> rfl
    · cases s <;> rfl
  | some p =>
    obtain ⟨m, hm⟩ := hlive p hlink
    exact ⟨_, setLink_eq hm s _, rfl, rfl, rfl, rfl, rfl, rfl⟩

/-- `list_remove`, up to the links. -/
theorem listRemove_eq {l1 l2 : NodeList α} (h1 : l.bypass .head a = some l1)
    (h2 : l1.bypass .tail a = some l2) (hn : l2.nodes a = some n) (hlen : l2.len ≠ 0) :
    l.listRemove a = some { l2 with
      nodes := Function.update l2.nodes a none
      len := l2.len - 1
      freed := if l2.free then l2.freed ++ [n.val] else l2.freed } := by
  simp only [listRemove, h1, h2, hn, Option.bind_eq_bind, Option.bind_some, Option.pure_def]
  cases hfree : l2.free <;> simp [hlen, hfree]

/-- **A removal**: the node is taken out of the list and freed. -/
theorem listRemove_spec {pre post : List (Nat × α)}
    (h : Linked .head l (pre ++ (a, x) :: post)) (hlen : l.len ≠ 0) :
    ∃ l', l.listRemove a = some l' ∧ Linked .head l' (pre ++ post) ∧ l'.len = l.len - 1 ∧
      l'.vals = Function.update l.vals a none ∧
      l'.freed = if l.free then l.freed ++ [x] else l.freed := by
  have hcell := h.seg.middle
  have hnodup := h.nodup
  rw [List.map_append, List.map_cons, List.nodup_middle, List.nodup_cons, List.mem_append, not_or]
    at hnodup
  obtain ⟨⟨hpre, hpost⟩, hrest⟩ := hnodup
  have hdisj := List.disjoint_of_nodup_append hrest
  have hin : ∀ {b}, b ∈ pre.map Prod.fst ∨ b ∈ post.map Prod.fst → ∃ m, l.nodes b = some m := by
    intro b hb
    refine h.seg.exists_node ?_
    rw [List.map_append, List.mem_append, List.map_cons, List.mem_cons]
    exact hb.imp_right Or.inr
  obtain ⟨l1, h1, hnodes1, hhead1, htail1, hlen1, hfree1, hfreed1⟩ := bypass_spec (s := .head) hcell
    fun p hp => hin (.inl (lastAddr_mem ((ListNode.link_opp_linked ..).symm.trans hp)))
  rw [ListNode.link_opp_linked, ListNode.link_linked] at hnodes1 hhead1
  have hcell1 : l1.nodes a = some (.linked .head (lastAddr pre) (headAddr post) x) := by
    rw [hnodes1, relinked_of_ne fun heq => hpre (lastAddr_mem heq), hcell]
  obtain ⟨l2, h2, hnodes2, htail2, hhead2, hlen2, hfree2, hfreed2⟩ := bypass_spec (s := .tail) hcell1
    fun p hp => by
      have hp' := headAddr_mem ((ListNode.link_linked ..).symm.trans hp)
      obtain ⟨m, hm⟩ := hin (.inr hp')
      refine ⟨m, ?_⟩
      rw [hnodes1, relinked_of_ne fun heq => hdisj (lastAddr_mem heq) hp', hm]
  have hcell2 : l2.nodes a = some (.linked .head (lastAddr pre) (headAddr post) x) := by
    rw [hnodes2]
    exact (relinked_of_ne fun heq => hpost (headAddr_mem heq)).trans hcell1
  refine ⟨_, listRemove_eq h1 h2 hcell2 (by rw [hlen2, hlen1]; exact hlen), ⟨?_, ?_, ?_, ?_⟩, ?_, ?_,
    ?_⟩
  · refine h.seg.unlink h.nodup fun b hb => ?_
    have hba : b ≠ a := by
      rintro rfl
      rw [List.map_append, List.mem_append] at hb
      exact hb.elim hpre hpost
    refine (Function.update_of_ne hba _ _).trans ?_
    rw [hnodes2, hnodes1]
    rfl
  · have hnear := h.near
    change l2.endAt .head = _
    rw [← headAddr_past pre post (a, x), ← hnear, ← hhead1]
    exact hhead2
  · have hfar := h.far
    change l2.endAt .tail = _
    rw [← lastAddr_past pre post (a, x), ← hfar, ← htail1]
    exact htail2
  · rw [List.map_append]
    exact hrest
  · change l2.len - 1 = _
    rw [hlen2, hlen1]
  · funext b
    change (Function.update l2.nodes a none b).map ListNode.val = _
    by_cases hba : b = a
    · rw [hba, Function.update_self, Function.update_self, Option.map_none]
    · rw [Function.update_of_ne hba, Function.update_of_ne hba, hnodes2, map_val_relinked, hnodes1,
        map_val_relinked, vals]
  · change (if l2.free = true then l2.freed ++ [_] else l2.freed) = _
    rw [hfree2, hfree1, hfreed2, hfreed1]
    rfl

/-! ## Walks -/

/-- An iterator over a segment. -/
theorem walk_seg {before : Option Nat} {fuel : Nat} (h : Seg s l.nodes before as none)
    (hfuel : as.length < fuel) : l.walk s fuel (headAddr as) = some as := by
  induction as generalizing before fuel with
  | nil =>
    obtain ⟨fuel, rfl⟩ := Nat.exists_eq_add_one.mpr hfuel
    rfl
  | cons c as ih =>
    obtain ⟨a, x⟩ := c
    obtain ⟨fuel, rfl⟩ := Nat.exists_eq_add_one.mpr (Nat.zero_lt_of_lt hfuel)
    have hrest := ih h.2 (Nat.lt_of_succ_lt_succ hfuel)
    simp only [walk, listIteratorNext, headAddr_cons, h.1, Option.bind_eq_bind, Option.bind_some,
      Option.pure_def, ListNode.link_linked, Option.or_none, ListNode.val_linked, hrest]

end NodeList

namespace Linked

variable {l : NodeList α} {s : Side} {as : List (Nat × α)}

/-- **From the other side.** -/
theorem opp (h : Linked s l as) : Linked s.opp l as.reverse where
  seg := seg_reverse.mpr h.seg
  near := h.far.trans (headAddr_reverse as).symm
  far := by rw [Side.opp_opp, h.near, lastAddr_reverse]
  nodup := by
    rw [List.map_reverse, List.nodup_reverse]
    exact h.nodup

/-- **An iterator returns the list.** -/
theorem walk_eq (h : Linked s l as) : l.walk s (as.length + 1) (l.endAt s) = some as := by
  rw [h.near]
  exact NodeList.walk_seg h.seg (Nat.lt_succ_self _)

end Linked

end QcloudIot.Utils
