import Mathlib.Algebra.GroupWithZero.Nat
import QcloudIot.Lib.Calls
import QcloudIot.Lib.LinkedList
import QcloudIot.Lib.Run
import QcloudIot.Utils.NodeList

/-!
# The list as a deque

What the functions of `utils_list.c` are for: a deque of nodes with their values. A call is `Legal` when
a pushed node is allocated and not in the list already, a removed one is in it, and the list does not
come to hold `2^32` nodes. Every caller in the SDK pushes a node it has just made.

* **`list_refines_deque`**: in every run of legal calls the list does what the deque does, and spells its
  nodes in both directions;
* `Refines.seen_rpush`, `Refines.seen_remove`: the `LinkedList` of the sweeps is this list without the
  other nodes.

The count comes round to 0 at `2^32` nodes, and a node pushed twice is linked to itself
(`count_and_links_break`).
-/

namespace QcloudIot.Utils

open Lib

variable {α : Type}

/-- A call. -/
inductive ListOp (α : Type) where
  | nodeNew (a : Nat) (val : α)
  | rpush (node : Option Nat)
  | lpush (node : Option Nat)
  | rpop
  | lpop
  | remove (a : Nat)

/-- What a call returns, and the list it leaves. -/
def NodeList.step (l : NodeList α) : ListOp α → Option (Option Nat × NodeList α)
  | .nodeNew a val => some (some a, l.listNodeNew a val)
  | .rpush node => l.listRpush node
  | .lpush node => l.listLpush node
  | .rpop => l.listRpop
  | .lpop => l.listLpop
  | .remove a => (l.listRemove a).map fun l => (none, l)

/-- A sequence of calls, with what they return. -/
def NodeList.runOps (l : NodeList α) : List (ListOp α) → Option (List (Option Nat) × NodeList α)
  | [] => some ([], l)
  | op :: ops => do
    let (r, l) ← l.step op
    let (rs, l) ← l.runOps ops
    return (r :: rs, l)

/-! ## The deque -/

/-- The nodes there are, with their values, and those in the deque, from the head to the tail. -/
structure Deque (α : Type) where
  val : Nat → Option α
  items : List (Nat × α)

namespace Deque

/-- A node put at one side. -/
def push (d : Deque α) (s : Side) (node : Option Nat) : Deque α × Option Nat :=
  match node with
  | none => (d, none)
  | some a =>
    match d.val a, s with
    | none, _ => (d, none)
    | some x, .head => ({ d with items := (a, x) :: d.items }, some a)
    | some x, .tail => ({ d with items := d.items ++ [(a, x)] }, some a)

/-- The node at one side taken. -/
def pop (d : Deque α) (s : Side) : Deque α × Option Nat :=
  match s with
  | .head => ({ d with items := d.items.tail }, headAddr d.items)
  | .tail => ({ d with items := d.items.dropLast }, lastAddr d.items)

/-- A call, and what it returns. -/
def step (d : Deque α) : ListOp α → Deque α × Option Nat
  | .nodeNew a val => ({ d with val := Function.update d.val a (some val) }, some a)
  | .rpush node => d.push .tail node
  | .lpush node => d.push .head node
  | .rpop => d.pop .tail
  | .lpop => d.pop .head
  | .remove a => (⟨Function.update d.val a none, d.items.filter fun c => c.1 ≠ a⟩, none)

theorem pop_nil {d : Deque α} (h : d.items = []) (s : Side) : d.pop s = (d, none) := by
  obtain ⟨val, items⟩ := d
  obtain rfl : items = [] := h
  cases s <;> rfl

/-- A node that may be pushed. -/
def MayPush (d : Deque α) (node : Option Nat) : Prop :=
  ∀ a ∈ node, (d.val a).isSome ∧ a ∉ d.items.map Prod.fst ∧ d.items.length + 1 < 2 ^ 32

/-- A call that the list is made for. -/
def Legal (d : Deque α) : ListOp α → Prop
  | .nodeNew a _ => (d.val a).isNone
  | .rpush node => d.MayPush node
  | .lpush node => d.MayPush node
  | .rpop => True
  | .lpop => True
  | .remove a => a ∈ d.items.map Prod.fst

instance MayPush.decidable (d : Deque α) (node : Option Nat) : Decidable (d.MayPush node) :=
  inferInstanceAs (Decidable (∀ a ∈ node, (d.val a).isSome ∧ a ∉ d.items.map Prod.fst ∧
    d.items.length + 1 < 2 ^ 32))

instance Legal.decidable (d : Deque α) : ∀ op : ListOp α, Decidable (d.Legal op)
  | .nodeNew a _ => inferInstanceAs (Decidable ((d.val a).isNone = true))
  | .rpush node => inferInstanceAs (Decidable (d.MayPush node))
  | .lpush node => inferInstanceAs (Decidable (d.MayPush node))
  | .rpop => .isTrue trivial
  | .lpop => .isTrue trivial
  | .remove a => inferInstanceAs (Decidable (a ∈ d.items.map Prod.fst))

end Deque

/-- What stays when one node goes. -/
theorem filter_others {pre post : List (Nat × α)} {a : Nat} {x : α}
    (h : ((pre ++ (a, x) :: post).map Prod.fst).Nodup) :
    (pre ++ (a, x) :: post).filter (fun c => c.1 ≠ a) = pre ++ post := by
  rw [List.map_append, List.map_cons, List.nodup_middle, List.nodup_cons, List.mem_append, not_or]
    at h
  have hothers : ∀ as : List (Nat × α), a ∉ as.map Prod.fst → as.filter (fun c => c.1 ≠ a) = as := by
    intro as ha
    rw [List.filter_eq_self]
    intro c hc
    exact decide_eq_true fun heq : c.1 = a => ha (heq ▸ List.mem_map_of_mem hc)
  rw [List.filter_append, List.filter_cons_of_neg (by simp), hothers pre h.1.1, hothers post h.1.2]

/-- The list holds what the deque holds. -/
structure Refines (l : NodeList α) (d : Deque α) : Prop where
  linked : Linked .head l d.items
  len : l.len.toNat = d.items.length
  vals : l.vals = d.val

namespace Refines

variable {l : NodeList α} {d : Deque α} {a : Nat} {x : α}

theorem new (nodes : Nat → Option (ListNode α)) (free : Bool) :
    Refines (.new nodes free) ⟨(NodeList.new nodes free).vals, []⟩ where
  linked := ⟨trivial, rfl, rfl, List.nodup_nil⟩
  len := rfl
  vals := rfl

theorem len_eq_zero_iff (h : Refines l d) : l.len = 0 ↔ d.items = [] := by
  rw [← List.length_eq_zero_iff, ← h.len, ← UInt32.toNat_inj]
  rfl

theorem exists_node (h : Refines l d) (ha : d.val a = some x) :
    ∃ n, l.nodes a = some n ∧ n.val = x := by
  rw [← h.vals] at ha
  exact Option.map_eq_some_iff.mp ha

/-- Every node in the deque is allocated. -/
theorem val_of_mem (h : Refines l d) (ha : a ∈ d.items.map Prod.fst) : d.val a ≠ none := by
  obtain ⟨n, hn⟩ := h.linked.seg.exists_node ha
  rw [← h.vals, NodeList.vals, hn]
  exact Option.some_ne_none _

/-! ## The calls -/

/-- A new node. -/
theorem nodeNew (h : Refines l d) (ha : (d.val a).isNone) (val : α) :
    Refines (l.listNodeNew a val) ⟨Function.update d.val a (some val), d.items⟩ where
  linked :=
    { seg := h.linked.seg.frame fun b hb => Function.update_of_ne
        (fun heq : b = a => h.val_of_mem hb (by rw [heq]; exact Option.isNone_iff_eq_none.mp ha)) _ _
      near := h.linked.near
      far := h.linked.far
      nodup := h.linked.nodup }
  len := h.len
  vals := by
    rw [← h.vals]
    funext b
    change (Function.update l.nodes a _ b).map ListNode.val =
      Function.update l.vals a (some val) b
    by_cases hb : b = a
    · rw [hb, Function.update_self, Function.update_self, Option.map_some]
    · rw [Function.update_of_ne hb, Function.update_of_ne hb, NodeList.vals]

/-- A push. -/
theorem push (h : Refines l d) (s : Side) {node : Option Nat} (hmay : d.MayPush node) :
    ∃ l', l.pushAt s node = some ((d.push s node).2, l') ∧ Refines l' (d.push s node).1 := by
  cases node with
  | none => exact ⟨l, rfl, h⟩
  | some a =>
    obtain ⟨hval, ha, hroom⟩ := hmay a rfl
    obtain ⟨x, hx⟩ := Option.isSome_iff_exists.mp hval
    obtain ⟨n, hn, rfl⟩ := h.exists_node hx
    have hlen : ∀ {l' : NodeList α}, l'.len = l.len + 1 → l'.len.toNat = d.items.length + 1 := by
      intro l' heq
      rw [heq, UInt32.toNat_add, h.len]
      exact Nat.mod_eq_of_lt hroom
    cases s with
    | head =>
      obtain ⟨l', hpush, hlinked, hlen', hvals⟩ := NodeList.pushAt_spec h.linked h.len_eq_zero_iff hn ha
      refine ⟨l', ?_, ?_⟩
      · simp only [Deque.push, hx, hpush]
      · simp only [Deque.push, hx]
        exact ⟨hlinked, hlen hlen', hvals.trans h.vals⟩
    | tail =>
      obtain ⟨l', hpush, hlinked, hlen', hvals⟩ := NodeList.pushAt_spec h.linked.opp
        (h.len_eq_zero_iff.trans List.reverse_eq_nil_iff.symm) hn
        (by rw [List.map_reverse, List.mem_reverse]; exact ha)
      have hback := hlinked.opp
      rw [List.reverse_cons, List.reverse_reverse] at hback
      refine ⟨l', ?_, ?_⟩
      · simp only [Deque.push, hx]
        exact hpush
      · simp only [Deque.push, hx]
        refine ⟨hback, ?_, hvals.trans h.vals⟩
        rw [hlen hlen', List.length_append]
        rfl

/-- A pop. -/
theorem pop (h : Refines l d) (s : Side) :
    ∃ l', l.popAt s = some ((d.pop s).2, l') ∧ Refines l' (d.pop s).1 := by
  by_cases hnil : d.items = []
  · rw [Deque.pop_nil hnil]
    exact ⟨l, NodeList.popAt_empty (h.len_eq_zero_iff.mpr hnil), h⟩
  cases s with
  | head =>
    obtain ⟨⟨a, x⟩, rest, hitems⟩ := List.exists_cons_of_ne_nil hnil
    have hlinked := h.linked
    have hlen := h.len
    rw [hitems] at hlinked hlen
    obtain ⟨l', hpop, hlinked', hlen', hvals, -⟩ := NodeList.popAt_spec hlinked hlen
    simp only [Deque.pop, hitems, headAddr_cons, List.tail_cons]
    exact ⟨l', hpop, hlinked', hlen', hvals.trans h.vals⟩
  | tail =>
    obtain ⟨rest, ⟨a, x⟩, hitems⟩ := List.eq_nil_or_concat' d.items |>.resolve_left hnil
    have hlinked := h.linked.opp
    have hlen := h.len
    rw [hitems, List.reverse_concat] at hlinked
    rw [hitems, List.length_append] at hlen
    obtain ⟨l', hpop, hlinked', hlen', hvals, -⟩ := NodeList.popAt_spec hlinked
      (by rw [List.length_reverse]; exact hlen)
    have hback := hlinked'.opp
    rw [List.reverse_reverse] at hback
    rw [List.length_reverse] at hlen'
    simp only [Deque.pop, hitems, lastAddr_concat, List.dropLast_concat]
    exact ⟨l', hpop, hback, hlen', hvals.trans h.vals⟩

/-- A removal. -/
theorem remove (h : Refines l d) (ha : a ∈ d.items.map Prod.fst) :
    ∃ l', l.listRemove a = some l' ∧
      Refines l' ⟨Function.update d.val a none, d.items.filter fun c => c.1 ≠ a⟩ := by
  obtain ⟨⟨a, x⟩, hmem, rfl⟩ := List.mem_map.mp ha
  obtain ⟨pre, post, hitems⟩ := List.append_of_mem hmem
  have hlinked := h.linked
  have hlen := h.len
  rw [hitems] at hlinked hlen
  have hlen0 : l.len.toNat = (pre ++ post).length + 1 := by
    rw [hlen, List.length_append, List.length_append, List.length_cons]
    omega
  have hne : l.len ≠ 0 := by
    intro hzero
    rw [hzero] at hlen0
    exact absurd hlen0 (by simp)
  obtain ⟨l', hremove, hlinked', hlen', hvals, -⟩ := NodeList.listRemove_spec hlinked hne
  refine ⟨l', hremove, ?_⟩
  rw [hitems, filter_others hlinked.nodup]
  refine ⟨hlinked', ?_, by rw [hvals, h.vals]⟩
  rw [hlen', NodeList.toNat_sub_one hlen0]

/-- **Every legal call.** -/
theorem step (h : Refines l d) {op : ListOp α} (hlegal : d.Legal op) :
    ∃ l', l.step op = some ((d.step op).2, l') ∧ Refines l' (d.step op).1 := by
  cases op with
  | nodeNew a val => exact ⟨_, rfl, h.nodeNew hlegal val⟩
  | rpush node => exact h.push .tail hlegal
  | lpush node => exact h.push .head hlegal
  | rpop => exact h.pop .tail
  | lpop => exact h.pop .head
  | remove a =>
    obtain ⟨l', hremove, h'⟩ := h.remove hlegal
    exact ⟨l', by rw [NodeList.step, hremove]; rfl, h'⟩

end Refines

/-! ## Runs -/

/-- The deque after the calls, and what they return. -/
def Deque.run (d : Deque α) (ops : List (ListOp α)) : Deque α × List (Option Nat) :=
  calls Deque.step d ops

/-- **A run of legal calls.** -/
theorem Refines.run {l : NodeList α} {d : Deque α} {ops : List (ListOp α)} (h : Refines l d)
    (hlegal : Meets (fun d op => (Deque.step d op).1) Deque.Legal d ops) :
    ∃ l', l.runOps ops = some ((d.run ops).2, l') ∧ Refines l' (d.run ops).1 := by
  induction ops generalizing l d with
  | nil => exact ⟨l, rfl, h⟩
  | cons op ops ih =>
    obtain ⟨l1, hstep, h1⟩ := h.step hlegal.1
    obtain ⟨l', hrun, h'⟩ := ih h1 hlegal.2
    refine ⟨l', ?_, h'⟩
    simp only [NodeList.runOps, hstep, Option.bind_eq_bind, Option.bind_some, hrun, Option.pure_def]
    rfl

/-- **The list is a deque**: in a run of legal calls no link leads astray, every call returns what the
deque returns, `len` is the number of nodes, and both directions have the same nodes. -/
theorem list_refines_deque (nodes : Nat → Option (ListNode α)) (free : Bool)
    (ops : List (ListOp α))
    (hlegal : Meets (fun d op => (Deque.step d op).1) Deque.Legal
      ⟨(NodeList.new nodes free).vals, []⟩ ops) :
    let d := Deque.run ⟨(NodeList.new nodes free).vals, []⟩ ops
    ∃ l, (NodeList.new nodes free).runOps ops = some (d.2, l) ∧
      Linked .head l d.1.items ∧ l.len.toNat = d.1.items.length ∧
      l.walk .head (l.len.toNat + 1) l.head = some d.1.items ∧
      l.walk .tail (l.len.toNat + 1) l.tail = some d.1.items.reverse := by
  intro d
  obtain ⟨l, hrun, h⟩ := (Refines.new nodes free).run hlegal
  have hback := h.linked.opp.walk_eq
  rw [List.length_reverse] at hback
  refine ⟨l, hrun, h.linked, h.len, ?_, ?_⟩
  · rw [h.len]
    exact h.linked.walk_eq
  · rw [h.len]
    exact hback

/-- Nodes are pushed at both ends, one is removed and its address used again, two are popped. -/
def mixedOps : List (ListOp Nat) :=
  [.nodeNew 1 10, .rpush (some 1), .nodeNew 2 20, .lpush (some 2), .rpush none, .nodeNew 3 30,
    .rpush (some 3), .remove 1, .nodeNew 1 40, .lpush (some 1), .rpop, .rpush (some 3), .lpop]

theorem list_refines_deque_mixed : ∃ l, (NodeList.new (fun _ => none) true).runOps mixedOps =
      some ([some 1, some 1, some 2, some 2, none, some 3, some 3, none, some 1, some 1, some 3,
        some 3, some 1], l) ∧
    l.walk .head (l.len.toNat + 1) l.head = some [(2, 20), (3, 30)] := by
  obtain ⟨l, hrun, -, -, hwalk, -⟩ := list_refines_deque (fun _ => none) true mixedOps (by decide)
  exact ⟨l, hrun, hwalk⟩

/-! ## The list of the sweeps -/

/-- The list without the nodes that are not in it. -/
def NodeList.seen (l : NodeList α) (as : List (Nat × α)) : LinkedList α where
  nodes a := if a ∈ as.map Prod.fst then l.nodes a else none
  head := l.head
  tail := l.tail
  len := l.len.toNat

section Sweeps

variable {l l' : NodeList α} {d : Deque α} {a : Nat} {x : α}

theorem Refines.spells (h : Refines l d) : Lib.Spells (l.seen d.items) d.items :=
  Lib.Spells.of_seg (h.linked.seg.frame fun _ ha => if_pos ha) (fun ha => if_neg ha) h.linked.near
    h.linked.far h.len h.linked.nodup

/-- `list_rpush` of a node is a push on that list. -/
theorem Refines.seen_rpush (h : Refines l d) (hval : d.val a = some x)
    (hmay : d.MayPush (some a)) (hpush : l.listRpush (some a) = some (some a, l')) :
    (l.seen d.items).rpush a x = some (l'.seen (d.items ++ [(a, x)])) := by
  obtain ⟨l1, hpush1, h1⟩ := h.push .tail hmay
  obtain rfl : l1 = l' := by
    have heq := hpush1.symm.trans hpush
    exact (Prod.mk.inj (Option.some.inj heq)).2
  simp only [Deque.push, hval] at h1
  obtain ⟨m, hrpush, hspells⟩ := h.spells.rpush (hmay a rfl).2.1 x
  rw [hrpush, hspells.unique h1.spells]

/-- `list_remove` of a node is a removal. -/
theorem Refines.seen_remove (h : Refines l d) (ha : a ∈ d.items.map Prod.fst)
    (hremove : l.listRemove a = some l') :
    (l.seen d.items).remove a = some (l'.seen (d.items.filter fun c => c.1 ≠ a)) := by
  obtain ⟨l1, hremove1, h1⟩ := h.remove ha
  obtain rfl : l1 = l' := Option.some.inj (hremove1.symm.trans hremove)
  obtain ⟨⟨a, x⟩, hmem, rfl⟩ := List.mem_map.mp ha
  obtain ⟨pre, post, hitems⟩ := List.append_of_mem hmem
  have hspells := h.spells
  have hnodup := h.linked.nodup
  have h1spells := h1.spells
  dsimp only at h1spells
  rw [hitems] at hspells hnodup h1spells ⊢
  rw [filter_others hnodup] at h1spells ⊢
  obtain ⟨m, hm, hspells'⟩ := hspells.remove
  rw [hm, hspells'.unique h1spells]

end Sweeps

/-! ## Where the list is none -/

/-- One call more. -/
theorem NodeList.runOps_concat {l l1 l2 : NodeList α} {ops : List (ListOp α)} {op : ListOp α}
    {rs : List (Option Nat)} {r : Option Nat} (hrun : l.runOps ops = some (rs, l1))
    (hstep : l1.step op = some (r, l2)) : l.runOps (ops ++ [op]) = some (rs ++ [r], l2) := by
  induction ops generalizing l rs with
  | nil =>
    obtain ⟨rfl, rfl⟩ := Prod.mk.inj (Option.some.inj hrun)
    simp only [List.nil_append, runOps, hstep, Option.bind_eq_bind, Option.bind_some,
      Option.pure_def]
  | cons op' ops ih =>
    simp only [runOps, Option.bind_eq_bind, Option.bind_eq_some_iff, Option.pure_def] at hrun
    obtain ⟨⟨r', l'⟩, hstep', ⟨rs', l1'⟩, hrest, heq⟩ := hrun
    obtain ⟨rfl, rfl⟩ := Prod.mk.inj (Option.some.inj heq)
    simp only [List.cons_append, runOps, hstep', Option.bind_eq_bind, Option.bind_some,
      ih hrest, Option.pure_def]

/-- Every address has a node, whose value is the address. -/
def allNodes : NodeList Nat := .new (fun a => some ⟨none, none, a⟩) false

/-- The first `n` of them pushed. -/
def pushes (n : Nat) : List (ListOp Nat) := (List.range n).map fun a => .rpush (some a)

/-- The deque that holds them. -/
def pushed (n : Nat) : Deque Nat := ⟨fun a => some a, (List.range n).map fun a => (a, a)⟩

theorem push_pushed (n : Nat) : (pushed n).push .tail (some n) = (pushed (n + 1), some n) := by
  simp only [pushed, List.range_succ, List.map_append, List.map_singleton]
  rfl

theorem pushes_succ (n : Nat) : pushes (n + 1) = pushes n ++ [.rpush (some n)] := by
  rw [pushes, pushes, List.range_succ, List.map_append, List.map_singleton]

theorem length_pushed (n : Nat) : (pushed n).items.length = n := by
  rw [pushed, List.length_map, List.length_range]

theorem not_mem_pushed (n : Nat) : n ∉ (pushed n).items.map Prod.fst := by
  simp [pushed]

theorem refines_pushes {n : Nat} (hn : n < 2 ^ 32) :
    ∃ rs l, allNodes.runOps (pushes n) = some (rs, l) ∧ Refines l (pushed n) := by
  induction n with
  | zero => exact ⟨[], allNodes, rfl, Refines.new _ _⟩
  | succ n ih =>
    obtain ⟨rs, l, hrun, h⟩ := ih (Nat.lt_of_succ_lt hn)
    have hmay : (pushed n).MayPush (some n) := by
      rintro a ⟨⟩
      exact ⟨rfl, not_mem_pushed n, by rw [length_pushed]; exact hn⟩
    obtain ⟨l', hpush, h'⟩ := h.push .tail hmay
    rw [push_pushed] at hpush h'
    rw [pushes_succ]
    exact ⟨rs ++ [some n], l', NodeList.runOps_concat hrun hpush, h'⟩

/-- One push more than the count has room for. -/
theorem pushes_wrap {n N : Nat} (hn : N = n + 1) (hN : N = 2 ^ 32) :
    ∃ rs l as, allNodes.runOps (pushes N) = some (rs, l) ∧
      l.walk .head (N + 1) l.head = some as ∧ as.length = N ∧ l.len = 0 := by
  obtain ⟨rs, l, hrun, h⟩ := refines_pushes (n := n) (by omega)
  obtain ⟨m, hm, hval⟩ := h.exists_node (a := n) rfl
  obtain ⟨l', hpush, hlinked, hlen, -⟩ := NodeList.pushAt_spec h.linked.opp
    (h.len_eq_zero_iff.trans List.reverse_eq_nil_iff.symm) hm
    (by rw [List.map_reverse, List.mem_reverse]; exact not_mem_pushed n)
  have hcount : (((n, m.val) :: (pushed n).items.reverse).reverse).length = N := by
    rw [List.length_reverse, List.length_cons, List.length_reverse, length_pushed, hn]
  have hwalk := hlinked.opp.walk_eq
  rw [hcount] at hwalk
  refine ⟨rs ++ [some n], l', _, ?_, hwalk, hcount, ?_⟩
  · rw [hn, pushes_succ]
    exact NodeList.runOps_concat hrun hpush
  · rw [hlen, ← UInt32.toNat_inj, UInt32.toNat_add, h.len, length_pushed,
      show (1 : UInt32).toNat = 1 from rfl, ← hn, hN]
    rfl

/-- A node that is its own neighbour keeps an iterator going. -/
theorem walk_loop {l : NodeList α} {a : Nat} {x : α} (h : l.nodes a = some ⟨some a, some a, x⟩)
    (fuel : Nat) : l.walk .head fuel (some a) = none := by
  induction fuel with
  | zero => rfl
  | succ fuel ih =>
    simp only [NodeList.walk, NodeList.listIteratorNext, h, Option.bind_eq_bind, Option.bind_some,
      Option.pure_def]
    rw [show (ListNode.mk (some a) (some a) x).link .head = some a from rfl, ih, Option.bind_none]

/-- **The count and the links break**: after `2^32` pushes of as many nodes the count is 0, and a node
pushed twice follows itself. -/
theorem count_and_links_break :
    (∃ rs l as, allNodes.runOps (pushes (2 ^ 32)) = some (rs, l) ∧
      l.walk .head (2 ^ 32 + 1) l.head = some as ∧ as.length = 2 ^ 32 ∧ l.len = 0) ∧
    ∃ rs l, allNodes.runOps [.rpush (some 1), .rpush (some 1)] = some (rs, l) ∧ l.len = 2 ∧
      ∀ fuel, l.walk .head fuel l.head = none := by
  refine ⟨pushes_wrap (n := 4294967295) (by omega) rfl, _, _, rfl, rfl, fun fuel => ?_⟩
  exact walk_loop (x := 1) rfl fuel

end QcloudIot.Utils
