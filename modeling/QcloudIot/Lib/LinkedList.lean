import Mathlib.Data.List.Induction
import QcloudIot.Lib.Segment
import QcloudIot.Lib.Sweep

/-!
# Doubly linked lists and a sweep over them

A doubly linked list in memory: cells by address with links both ways, and a header with the first
and the last address and a length. Following a link to a cell that is not there is a fault, `none`.
`Spells` says that the links spell a list of addresses and values.

A sweep walks the list with an iterator from the last cell on, visits each value and removes a cell
when the iterator has gone past it, so that the iterator never stands on a cell that is removed.

* `Spells.rpush`, `Spells.remove`: the two operations on the list that is spelled;
* `Spells.iterator`: the iterator goes back cell by cell;
* **`sweepLoop_eq`**: a sweep ends without a fault, and what it leaves is what `sweep` computes.
-/

namespace QcloudIot.Lib

variable {α σ : Type*}

/-- The cells that are there, and the header. -/
structure LinkedList (α : Type*) where
  nodes : Nat → Option (ListNode α)
  head : Option Nat
  tail : Option Nat
  len : Nat

/-- The links spell `as`, the header has its ends and its length, and there are no other cells. -/
structure Spells (l : LinkedList α) (as : List (Nat × α)) : Prop where
  node : ∀ {pre a x post}, as = pre ++ (a, x) :: post →
    l.nodes a = some ⟨lastAddr pre, headAddr post, x⟩
  live : ∀ {a}, a ∉ as.map Prod.fst → l.nodes a = none
  head : l.head = headAddr as
  tail : l.tail = lastAddr as
  len : l.len = as.length
  nodup : (as.map Prod.fst).Nodup

namespace LinkedList

/-- The list without cells. -/
def empty : LinkedList α := ⟨fun _ => none, none, none, 0⟩

/-- A cell changed; a fault if it is not there. -/
def modify (l : LinkedList α) (a : Nat) (f : ListNode α → ListNode α) : Option (LinkedList α) :=
  (l.nodes a).map fun n => { l with nodes := Function.update l.nodes a (some (f n)) }

/-- The cell at the new address `a` linked behind the last one. -/
def rpush (l : LinkedList α) (a : Nat) (x : α) : Option (LinkedList α) :=
  if l.len = 0 then
    some ⟨Function.update l.nodes a (some ⟨none, none, x⟩), some a, some a, l.len + 1⟩
  else
    l.tail.bind fun t => (l.modify t fun n => { n with next := some a }).map fun l' =>
      ⟨Function.update l'.nodes a (some ⟨l.tail, none, x⟩), l'.head, some a, l'.len + 1⟩

/-- The link to a cell from the one before it, or from the header. -/
def setNext (l : LinkedList α) (prev next : Option Nat) : Option (LinkedList α) :=
  match prev with
  | some p => l.modify p fun n => { n with next := next }
  | none => some { l with head := next }

/-- The link to a cell from the one behind it, or from the header. -/
def setPrev (l : LinkedList α) (next prev : Option Nat) : Option (LinkedList α) :=
  match next with
  | some q => l.modify q fun n => { n with prev := prev }
  | none => some { l with tail := prev }

/-- A cell unlinked and freed. -/
def remove (l : LinkedList α) (a : Nat) : Option (LinkedList α) :=
  (l.nodes a).bind fun n => (l.setNext n.prev n.next).bind fun l =>
    (l.setPrev n.next n.prev).map fun l =>
    { l with nodes := Function.update l.nodes a none, len := l.len - 1 }

/-- What an iterator from the last cell on returns, and where it stands then. -/
def prev (l : LinkedList α) (iter : Option Nat) : Option (Option Nat × Option Nat) :=
  match iter with
  | none => some (none, none)
  | some a => (l.nodes a).map fun n => (some a, n.prev)

/-- The cell put aside is removed. -/
def removeAside (l : LinkedList α) : Option Nat → Option (LinkedList α)
  | none => some l
  | some t => l.remove t

/-- The loop of a sweep: the iterator moves on, the cell put aside by the round before is removed, and
the value of the cell returned is visited, which says whether this one is put aside. -/
def sweepLoop (visit : σ → α → Bool × σ) :
    (fuel : Nat) → LinkedList α → (iter aside : Option Nat) → σ → Option (LinkedList α × σ)
  | 0, _, _, _, _ => none
  | fuel + 1, l, iter, aside, s =>
    (l.prev iter).bind fun r => (l.removeAside aside).bind fun l =>
      match r.1 with
      | none => some (l, s)
      | some a => (l.nodes a).bind fun n =>
        sweepLoop visit fuel l r.2 (if (visit s n.val).1 then some a else none) (visit s n.val).2

end LinkedList

/-- What a sweep leaves of a list, and the state it ends in. -/
def sweep (visit : σ → α → Bool × σ) (s : σ) : List (Nat × α) → List (Nat × α) × σ
  | [] => ([], s)
  | x :: xs =>
    let r := sweep visit s xs
    (if (visit r.2 x.2).1 then r.1 else x :: r.1, (visit r.2 x.2).2)

/-! ## The operations on the list that is spelled -/

namespace LinkedList

variable {l : LinkedList α}

theorem modify_eq {a : Nat} {n : ListNode α} (h : l.nodes a = some n) (f : ListNode α → ListNode α) :
    l.modify a f = some { l with nodes := Function.update l.nodes a (some (f n)) } := by
  rw [modify, h, Option.map_some]

/-- The link to a cell set, and nothing else. -/
theorem setNext_spec {p : Option Nat} (next : Option Nat)
    (hlive : ∀ a, p = some a → ∃ n, l.nodes a = some n) :
    ∃ l', l.setNext p next = some l' ∧ l'.nodes = relinked .head p next l.nodes ∧
      l'.head = (if p = none then next else l.head) ∧ l'.tail = l.tail ∧ l'.len = l.len := by
  cases p with
  | none => exact ⟨_, rfl, rfl, rfl, rfl, rfl⟩
  | some a =>
    obtain ⟨n, hn⟩ := hlive a rfl
    exact ⟨_, modify_eq hn _, (relinked_eq (s := .head) hn next).symm, rfl, rfl, rfl⟩

theorem setPrev_spec {q : Option Nat} (prev : Option Nat)
    (hlive : ∀ a, q = some a → ∃ n, l.nodes a = some n) :
    ∃ l', l.setPrev q prev = some l' ∧ l'.nodes = relinked .tail q prev l.nodes ∧
      l'.tail = (if q = none then prev else l.tail) ∧ l'.head = l.head ∧ l'.len = l.len := by
  cases q with
  | none => exact ⟨_, rfl, rfl, rfl, rfl, rfl⟩
  | some a =>
    obtain ⟨n, hn⟩ := hlive a rfl
    exact ⟨_, modify_eq hn _, (relinked_eq (s := .tail) hn prev).symm, rfl, rfl, rfl⟩

end LinkedList

namespace Spells

variable {l : LinkedList α} {as pre post : List (Nat × α)} {a : Nat} {x : α}

theorem empty : Spells (LinkedList.empty : LinkedList α) [] where
  node h := absurd h (by simp)
  live _ := rfl
  head := rfl
  tail := rfl
  len := rfl
  nodup := List.nodup_nil

theorem exists_node (h : Spells l as) (ha : a ∈ as.map Prod.fst) : ∃ n, l.nodes a = some n := by
  obtain ⟨⟨b, y⟩, hmem, rfl⟩ := List.mem_map.mp ha
  obtain ⟨pre, post, hsplit⟩ := List.append_of_mem hmem
  exact ⟨_, h.node hsplit⟩

/-- The addresses around a cell are others. -/
theorem around (h : Spells l (pre ++ (a, x) :: post)) :
    a ∉ pre.map Prod.fst ∧ a ∉ post.map Prod.fst ∧ (pre.map Prod.fst).Disjoint (post.map Prod.fst) ∧
      ((pre ++ post).map Prod.fst).Nodup := by
  have hnodup := h.nodup
  rw [List.map_append, List.map_cons, List.nodup_middle, List.nodup_cons, List.mem_append, not_or]
    at hnodup
  obtain ⟨⟨hpre, hpost⟩, hrest⟩ := hnodup
  rw [List.map_append]
  exact ⟨hpre, hpost, List.disjoint_of_nodup_append hrest, hrest⟩

/-- The cells are a segment. -/
theorem seg (h : Spells l as) : Seg .head l.nodes none as none := by
  suffices hparts : ∀ post pre, as = pre ++ post → Seg .head l.nodes (lastAddr pre) post none from
    hparts as [] rfl
  intro post
  induction post with
  | nil => exact fun _ _ => trivial
  | cons c post ih =>
    intro pre hsplit
    obtain ⟨a, x⟩ := c
    refine ⟨?_, ?_⟩
    · rw [h.node hsplit, Option.or_none]
      rfl
    · have hrest := ih (pre ++ [(a, x)]) (by rw [hsplit, List.append_assoc]; rfl)
      rwa [lastAddr_concat] at hrest

/-- What is to be seen of a list that is changed. -/
theorem of_seg (hseg : Seg .head l.nodes none as none)
    (hlive : ∀ {a}, a ∉ as.map Prod.fst → l.nodes a = none) (hhead : l.head = headAddr as)
    (htail : l.tail = lastAddr as) (hlen : l.len = as.length) (hnodup : (as.map Prod.fst).Nodup) :
    Spells l as where
  node hsplit := by
    subst hsplit
    exact hseg.middle
  live := hlive
  head := hhead
  tail := htail
  len := hlen
  nodup := hnodup

/-- Only one list of cells spells `as`. -/
theorem unique {l' : LinkedList α} (h : Spells l as) (h' : Spells l' as) : l = l' := by
  obtain ⟨nodes, head, tail, len⟩ := l
  obtain ⟨nodes', head', tail', len'⟩ := l'
  obtain rfl : head = head' := h.head.trans h'.head.symm
  obtain rfl : tail = tail' := h.tail.trans h'.tail.symm
  obtain rfl : len = len' := h.len.trans h'.len.symm
  obtain rfl : nodes = nodes' := by
    funext a
    by_cases ha : a ∈ as.map Prod.fst
    · obtain ⟨c, hc, rfl⟩ := List.mem_map.mp ha
      obtain ⟨pre, post, hsplit⟩ := List.append_of_mem hc
      exact (h.node hsplit).trans (h'.node hsplit).symm
    · exact (h.live ha).trans (h'.live ha).symm
  rfl

/-- **A cell removed.** -/
theorem remove (h : Spells l (pre ++ (a, x) :: post)) :
    ∃ l', l.remove a = some l' ∧ Spells l' (pre ++ post) := by
  obtain ⟨hpre, hpost, hdisj, hnodup⟩ := h.around
  have hnode := h.node rfl
  have hmem : ∀ {b}, b ∈ (pre ++ post).map Prod.fst → b ∈ (pre ++ (a, x) :: post).map Prod.fst := by
    intro b hb
    rw [List.map_append, List.mem_append] at hb
    rw [List.map_append, List.mem_append, List.map_cons, List.mem_cons]
    exact hb.imp_right Or.inr
  have ha : ∀ {b}, b ∈ (pre ++ post).map Prod.fst → b ≠ a := by
    rintro b hb rfl
    rw [List.map_append, List.mem_append] at hb
    exact hb.elim hpre hpost
  obtain ⟨l1, h1, hnodes1, hhead1, htail1, hlen1⟩ := l.setNext_spec (p := lastAddr pre) (headAddr post)
    fun b hb => h.exists_node (hmem (by
      rw [List.map_append]
      exact List.mem_append_left _ (lastAddr_mem hb)))
  obtain ⟨l2, h2, hnodes2, htail2, hhead2, hlen2⟩ := l1.setPrev_spec (q := headAddr post) (lastAddr pre)
    fun b hb => by
      obtain ⟨n, hn⟩ := h.exists_node (hmem (by
        rw [List.map_append]
        exact List.mem_append_right _ (headAddr_mem hb)))
      refine ⟨n, ?_⟩
      rw [hnodes1, relinked_of_ne fun hlast => hdisj (lastAddr_mem hlast) (headAddr_mem hb), hn]
  refine ⟨{ l2 with nodes := Function.update l2.nodes a none, len := l.len - 1 }, ?_, ?_⟩
  · simp only [LinkedList.remove, hnode, Option.bind_some, h1, h2, Option.map_some, hlen2, hlen1]
  refine of_seg (h.seg.unlink h.nodup fun b hb => ?_) (fun {b} hb => ?_) ?_ ?_ ?_ hnodup
  · change Function.update l2.nodes a none b = _
    rw [Function.update_of_ne (ha hb), hnodes2, hnodes1]
    rfl
  · change Function.update l2.nodes a none b = none
    by_cases hba : b = a
    · subst hba
      exact Function.update_self _ _ _
    · have hnone : l.nodes b = none := h.live fun hin => by
        rw [List.map_append, List.mem_append, List.map_cons, List.mem_cons] at hin
        rw [List.map_append, List.mem_append] at hb
        rcases hin with hin | hin | hin
        · exact hb (Or.inl hin)
        · exact hba hin
        · exact hb (Or.inr hin)
      rw [Function.update_of_ne hba, hnodes2, hnodes1, relinked_none (relinked_none hnone)]
  · change l2.head = _
    rw [hhead2, hhead1, h.head, headAddr_past]
  · change l2.tail = _
    rw [htail2, htail1, h.tail, lastAddr_past]
  · change l.len - 1 = _
    rw [h.len, List.length_append, List.length_append, List.length_cons]
    omega

/-- **A cell linked behind the last one**, at an address that is not in use. -/
theorem rpush (h : Spells l as) (ha : a ∉ as.map Prod.fst) (x : α) :
    ∃ l', l.rpush a x = some l' ∧ Spells l' (as ++ [(a, x)]) := by
  have hnodup : ((as ++ [(a, x)]).map Prod.fst).Nodup := by
    rw [List.map_append, List.nodup_append]
    refine ⟨h.nodup, List.nodup_singleton _, fun b hb c hc hbc => ?_⟩
    rw [List.map_singleton, List.mem_singleton] at hc
    obtain rfl : b = a := hbc.trans hc
    exact ha hb
  -- seen from the tail, the cell is linked in before the others
  obtain ⟨l', hpush, hcell, hrest, hhead, htail, hlen⟩ : ∃ l', l.rpush a x = some l' ∧
      l'.nodes a = some (.linked .tail none (lastAddr as) x) ∧
      (∀ b, b ≠ a → l'.nodes b = relinked .head (lastAddr as) (some a) l.nodes b) ∧
      l'.head = (headAddr as).or (some a) ∧ l'.tail = some a ∧ l'.len = as.length + 1 := by
    rcases List.eq_nil_or_concat' as with rfl | ⟨init, ⟨t, y⟩, rfl⟩
    · refine ⟨_, if_pos h.len, Function.update_self _ _ _, fun b hb => Function.update_of_ne hb _ _,
        rfl, rfl, ?_⟩
      rw [h.len]
    · have hlast : l.tail = some t := by rw [h.tail, lastAddr_concat]
      have hlive : l.nodes t = some ⟨lastAddr init, none, y⟩ := h.node rfl
      refine ⟨⟨Function.update (Function.update l.nodes t (some ⟨lastAddr init, some a, y⟩)) a
        (some ⟨some t, none, x⟩), l.head, some a, l.len + 1⟩, ?_, ?_, fun b hb => ?_, ?_, rfl, ?_⟩
      · rw [LinkedList.rpush, if_neg (by rw [h.len]; simp), hlast, Option.bind_some,
          LinkedList.modify_eq hlive, Option.map_some]
      · rw [lastAddr_concat]
        exact Function.update_self _ _ _
      · rw [lastAddr_concat, relinked_eq hlive]
        exact Function.update_of_ne hb _ _
      · change l.head = _
        rw [h.head, headAddr_append_or, headAddr_cons, Option.or_assoc, Option.some_or]
      · change l.len + 1 = _
        rw [h.len]
  have hseg : Seg .head l'.nodes none (as ++ [(a, x)]) none := by
    rw [← seg_reverse, List.reverse_append, List.reverse_singleton, List.singleton_append]
    refine Seg.push (seg_reverse.mpr h.seg) ?_ ?_ fun b hb => ?_
    · rw [List.map_reverse, List.nodup_reverse]
      exact h.nodup
    · rw [hcell, headAddr_reverse]
      rfl
    · rw [List.map_reverse, List.mem_reverse] at hb
      rw [headAddr_reverse, hrest b fun heq => ha (heq ▸ hb)]
      rfl
  refine ⟨l', hpush, of_seg hseg (fun {b} hb => ?_) ?_ ?_ ?_ hnodup⟩
  · rw [List.map_append, List.mem_append, List.map_singleton, List.mem_singleton, not_or] at hb
    rw [hrest b hb.2, relinked_none (h.live hb.1)]
  · rw [hhead, headAddr_append_or]
    rfl
  · rw [htail, lastAddr_concat]
  · rw [hlen, List.length_append]
    rfl

/-- The iterator at a cell returns it and goes on to the one before it. -/
theorem iterator (h : Spells l (pre ++ (a, x) :: post)) :
    l.prev (some a) = some (some a, lastAddr pre) := by
  rw [LinkedList.prev, h.node rfl, Option.map_some]

end Spells

/-! ## The loop -/

section Loop

variable {visit : σ → α → Bool × σ} {l : LinkedList α}

theorem sweep_concat (s : σ) (before : List (Nat × α)) (c : Nat × α) :
    sweep visit s (before ++ [c]) =
      ((sweep visit (visit s c.2).2 before).1 ++ (if (visit s c.2).1 then [] else [c]),
        (sweep visit (visit s c.2).2 before).2) := by
  induction before with
  | nil => rfl
  | cons b before ih =>
    rw [List.cons_append, sweep, ih, sweep]
    by_cases hb : (visit (sweep visit (visit s c.2).2 before).2 b.2).1 = true
    · simp only [hb, if_true]
    · simp only [hb, if_false, List.cons_append, Bool.false_eq_true]

/-- **A sweep**: with the cells `kept` behind those still to come and one cell put aside, the loop ends
without a fault, and the links then spell what the sweep leaves. -/
theorem sweepLoop_eq {fuel : Nat} {s : σ} {before kept : List (Nat × α)} (pending : Option (Nat × α))
    (h : Spells l (before ++ (pending.toList ++ kept))) (hfuel : before.length < fuel) :
    ∃ l', l.sweepLoop visit fuel (lastAddr before) (pending.map Prod.fst) s =
        some (l', (sweep visit s before).2) ∧
      Spells l' ((sweep visit s before).1 ++ kept) := by
  induction before using List.reverseRecOn generalizing l fuel s kept pending with
  | nil =>
    obtain ⟨fuel, rfl⟩ := Nat.exists_eq_add_one.mpr hfuel
    cases pending with
    | none => exact ⟨l, rfl, h⟩
    | some c =>
      have hcell : Spells l ([] ++ (c.1, c.2) :: kept) := h
      obtain ⟨l', hremove, h'⟩ := hcell.remove
      exact ⟨l', by simp [LinkedList.sweepLoop, LinkedList.prev, LinkedList.removeAside, hremove,
        sweep], h'⟩
  | append_singleton before c ih =>
    obtain ⟨a, x⟩ := c
    obtain ⟨fuel, rfl⟩ := Nat.exists_eq_add_one.mpr (Nat.zero_lt_of_lt hfuel)
    have hiter : l.prev (lastAddr (before ++ [(a, x)])) = some (some a, lastAddr before) := by
      rw [lastAddr_concat]
      rw [List.append_assoc] at h
      exact h.iterator
    -- the cell put aside before goes first
    obtain ⟨l1, haside, h1⟩ : ∃ l1, l.removeAside (pending.map Prod.fst) = some l1 ∧
        Spells l1 (before ++ (a, x) :: kept) := by
      cases pending with
      | none => exact ⟨l, rfl, by simpa using h⟩
      | some c =>
        have hcell : Spells l (before ++ [(a, x)] ++ (c.1, c.2) :: kept) := h
        obtain ⟨l1, hremove, h1⟩ := hcell.remove
        exact ⟨l1, hremove, by simpa using h1⟩
    obtain ⟨l', hloop, h'⟩ : ∃ l', l1.sweepLoop visit fuel (lastAddr before)
          ((if (visit s x).1 then some (a, x) else none).map Prod.fst) (visit s x).2 =
            some (l', (sweep visit (visit s x).2 before).2) ∧
        Spells l' ((sweep visit (visit s x).2 before).1 ++
          if (visit s x).1 then kept else (a, x) :: kept) := ih _
      (by split <;> simpa using h1)
      (by rw [List.length_append, List.length_singleton] at hfuel; omega)
    refine ⟨l', ?_, ?_⟩
    · rw [LinkedList.sweepLoop, hiter, Option.bind_some, haside, Option.bind_some]
      simp only [h1.node rfl, Option.bind_some, sweep_concat]
      rw [← hloop]
      congr 1
      split <;> rfl
    · rw [sweep_concat]
      by_cases hv : (visit s x).1 = true
      · simpa [hv] using h'
      · simpa [hv] using h'

end Loop

end QcloudIot.Lib
