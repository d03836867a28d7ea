import Mathlib.Data.List.Perm.Subperm
import QcloudIot.Coap.Message
import QcloudIot.Lib.Chain
import QcloudIot.Lib.StableSort

/-!
# The list of options

`coap_message_option_add` on `CoAPMsgOptionList` as it lies in memory: the options linked by `next`,
with the pointers `first` and `last`.

* A result `none` of a call: a `NULL` pointer is followed, or the loop does not end. The loop is given
  as many turns as there are blocks.
* `optionAddAt_refines`: a call does what `coapMessageOptionAdd` does to the list;
* **`optionAdds_sorted`**: after any calls, the list is the stable sort of the options added.
-/

namespace QcloudIot.Coap

open Lib

/-! ## The code -/

/-- `CoAPMsgOptionList`, with the options that are in memory. -/
abbrev OptionChain := Chain CoapMsgOption

/-- Both pointers `NULL`. -/
def OptionChain.empty (cells : Nat → Option (ChainCell CoapMsgOption)) : OptionChain :=
  ⟨cells, none, none⟩

/-- The arguments of `coap_message_option_add`, and the answers to its allocations. -/
structure OptionAdd where
  num : UInt32
  val : Bytes
  okOption : Bool := true
  okVal : Bool := true
  deriving DecidableEq, Repr

/-- The loop of `coap_message_option_add`, from `prev` on, and what stands behind it. -/
def addLoop (option : CoapMsgOption) : (fuel : Nat) → OptionChain → (prev : Nat) → Option OptionChain
  | 0, _, _ => none
  | fuel + 1, l, prev =>
    if l.last = some prev then l.pushBack option.addr option
    else
      (l.cells prev).bind fun p => p.next.bind fun next => (l.cells next).bind fun n =>
        if p.val.optionNum ≤ option.optionNum ∧ option.optionNum < n.val.optionNum then
          l.insertBehind prev option.addr option
        else addLoop option fuel l next

/-- `coap_message_option_add`, from the new option on. -/
def linkOption (fuel : Nat) (l : OptionChain) (option : CoapMsgOption) : Option OptionChain :=
  match l.first with
  | none => some (l.single option.addr option)
  | some first =>
    (l.cells first).bind fun f =>
      if option.optionNum < f.val.optionNum then some (l.pushFront option.addr option)
      else addLoop option fuel l first

/-- `coap_message_option_add`. -/
def optionAddAt (h : Heap) (l : OptionChain) (call : OptionAdd) :
    Option (ReturnCode × Heap × OptionChain) :=
  match qcloudIotCoapOptionInit h call.okOption call.okVal call.num call.val with
  | (none, h) => some (.errFailure, h, l)
  | (some option, h) => (linkOption h.next l option).map fun l => (.retSuccess, h, l)

/-- Calls one after the other. -/
def optionAdds (h : Heap) (l : OptionChain) : List OptionAdd → Option (Heap × OptionChain)
  | [] => some (h, l)
  | call :: calls => (optionAddAt h l call).bind fun r => optionAdds r.2.1 r.2.2 calls

/-- The options of the calls that have got their memory. -/
def addedOptions (h : Heap) : List OptionAdd → List CoapMsgOption
  | [] => []
  | call :: calls =>
    match qcloudIotCoapOptionInit h call.okOption call.okVal call.num call.val with
    | (none, h) => addedOptions h calls
    | (some option, h) => option :: addedOptions h calls

/-! ## Lists of options in memory -/

/-- Options, each at its address. -/
def addressed (ops : List CoapMsgOption) : List (Nat × CoapMsgOption) := ops.map fun op => (op.addr, op)

theorem addressed_append (ops ops' : List CoapMsgOption) :
    addressed (ops ++ ops') = addressed ops ++ addressed ops' :=
  List.map_append

theorem addressed_cons (op : CoapMsgOption) (ops : List CoapMsgOption) :
    addressed (op :: ops) = (op.addr, op) :: addressed ops := rfl

theorem addrs_addressed (ops : List CoapMsgOption) :
    (addressed ops).map Prod.fst = ops.map (·.addr) :=
  List.map_map

/-- Where the new option goes. -/
def placeOption (option : CoapMsgOption) : List CoapMsgOption → List CoapMsgOption
  | [] => [option]
  | first :: ops =>
    if option.optionNum < first.optionNum then option :: first :: ops
    else insertOption option (first :: ops)

theorem placeOption_perm (option : CoapMsgOption) (ops : List CoapMsgOption) :
    (placeOption option ops).Perm (option :: ops) := by
  cases ops with
  | nil => exact .refl _
  | cons first ops =>
    rw [placeOption]
    split
    · exact .refl _
    · exact insertOption_perm option _

/-- The loop inserts where `insertOption` does. -/
theorem addLoop_spells {option : CoapMsgOption} {ops : List CoapMsgOption} {fuel : Nat}
    (hfuel : ops.length < fuel) {l : OptionChain} {pre : List CoapMsgOption} {prev : CoapMsgOption}
    (hl : l.Spells (addressed (pre ++ prev :: ops)))
    (hnew : option.addr ∉ (pre ++ prev :: ops).map (·.addr)) :
    ∃ l', addLoop option fuel l prev.addr = some l' ∧
      l'.Spells (addressed (pre ++ insertOption option (prev :: ops))) := by
  induction ops generalizing fuel pre prev with
  | nil =>
    obtain ⟨fuel, rfl⟩ := Nat.exists_eq_add_one_of_ne_zero (Nat.ne_of_gt hfuel)
    have hlast : l.last = some prev.addr := by
      rw [hl.last, addressed_append]
      exact lastAddr_concat
    obtain ⟨l', hpush, hl'⟩ := hl.pushBack (a := option.addr) (x := option) (by simp [addressed])
      (by rwa [addrs_addressed])
    refine ⟨l', by rw [addLoop, if_pos hlast, hpush], ?_⟩
    rw [addressed_append, List.append_assoc] at hl'
    rw [addressed_append]
    exact hl'
  | cons next ops ih =>
    obtain ⟨fuel, rfl⟩ := Nat.exists_eq_add_one_of_ne_zero (Nat.ne_of_gt (Nat.zero_lt_of_lt hfuel))
    rw [List.length_cons] at hfuel
    have hprev : l.cells prev.addr = some ⟨prev, some next.addr⟩ :=
      hl.cell (by rw [addressed_append]; rfl)
    have hsplit : addressed (pre ++ prev :: next :: ops) =
        (addressed pre ++ [(prev.addr, prev)]) ++ (next.addr, next) :: addressed ops := by
      rw [addressed_append, List.append_assoc]
      rfl
    have hnext : l.cells next.addr = some ⟨next, headAddr (addressed ops)⟩ := hl.cell hsplit
    -- the last option is another one
    have hlast : l.last ≠ some prev.addr := by
      intro hlast
      rw [hl.last, addressed_append, addressed_cons, addressed_cons,
        lastAddr_append (List.cons_ne_nil _ _), lastAddr_cons (List.cons_ne_nil _ _)] at hlast
      have hmem := lastAddr_mem hlast
      have hnodup := hl.nodup
      rw [addressed_append, List.map_append] at hnodup
      exact (List.nodup_cons.mp (List.nodup_append.mp hnodup).2.1).1 hmem
    rw [addLoop, if_neg hlast, hprev, Option.bind_some, Option.bind_some, hnext, Option.bind_some,
      insertOption]
    by_cases hbetween : prev.optionNum ≤ option.optionNum ∧ option.optionNum < next.optionNum
    · rw [if_pos hbetween, if_pos hbetween]
      rw [addressed_append, addressed_cons] at hl
      obtain ⟨l', hinsert, hl'⟩ := hl.insertBehind (a := option.addr) (x := option)
        (List.cons_ne_nil _ _) (by rwa [← addressed_cons, ← addressed_append, addrs_addressed])
      refine ⟨l', hinsert, ?_⟩
      rw [addressed_append]
      exact hl'
    · rw [if_neg hbetween, if_neg hbetween]
      have hshift : pre ++ prev :: next :: ops = (pre ++ [prev]) ++ next :: ops := by simp
      rw [hshift] at hl hnew
      obtain ⟨l', hloop, hl'⟩ := ih (Nat.lt_of_succ_lt_succ hfuel) hl hnew
      refine ⟨l', hloop, ?_⟩
      rwa [List.append_assoc] at hl'

theorem linkOption_spells {option : CoapMsgOption} {ops : List CoapMsgOption} {fuel : Nat}
    (hfuel : ops.length ≤ fuel) {l : OptionChain} (hl : l.Spells (addressed ops))
    (hnew : option.addr ∉ ops.map (·.addr)) :
    ∃ l', linkOption fuel l option = some l' ∧ l'.Spells (addressed (placeOption option ops)) := by
  cases ops with
  | nil =>
    have hfirst : l.first = none := hl.first
    refine ⟨l.single option.addr option, by rw [linkOption, hfirst], ?_⟩
    exact Chain.Spells.single l option.addr option
  | cons first ops =>
    have hfirst : l.first = some first.addr := hl.first
    have hsplit : addressed (first :: ops) = [] ++ (first.addr, first) :: addressed ops := rfl
    have hcell : l.cells first.addr = some ⟨first, headAddr (addressed ops)⟩ := hl.cell hsplit
    rw [linkOption, hfirst]
    simp only [hcell, Option.bind_some, placeOption]
    split
    · refine ⟨_, rfl, ?_⟩
      exact hl.pushFront (List.cons_ne_nil _ _) (by rwa [addrs_addressed])
    · have hl' : l.Spells (addressed ([] ++ first :: ops)) := hl
      exact addLoop_spells hfuel hl' hnew

/-! ## A call -/

/-- The list of a message is in memory: linked, of blocks of this heap. -/
structure Linked (h : Heap) (l : OptionChain) (ops : List CoapMsgOption) : Prop where
  spells : l.Spells (addressed ops)
  old : ∀ op ∈ ops, op.addr < h.next

theorem linked_empty (h : Heap) (cells : Nat → Option (ChainCell CoapMsgOption)) :
    Linked h (.empty cells) [] where
  spells := ⟨fun has => absurd has (by simp [addressed]), rfl, rfl, List.nodup_nil⟩
  old := fun _ hop => absurd hop List.not_mem_nil

/-- There are no more options than blocks. -/
theorem Linked.length_le {h : Heap} {l : OptionChain} {ops : List CoapMsgOption} (hl : Linked h l ops) :
    ops.length ≤ h.next := by
  have hnodup : (ops.map (·.addr)).Nodup := addrs_addressed ops ▸ hl.spells.nodup
  have hsub : ops.map (·.addr) ⊆ List.range h.next := by
    intro a ha
    obtain ⟨op, hop, rfl⟩ := List.mem_map.mp ha
    exact List.mem_range.mpr (hl.old op hop)
  have hle := (hnodup.subperm hsub).length_le
  rwa [List.length_map, List.length_range] at hle

/-- A new option: a block for it that was not there. -/
theorem optionInit_fresh {h h' : Heap} {okOption okVal : Bool} {num : UInt32} {val : Bytes} :
    (∀ {op}, qcloudIotCoapOptionInit h okOption okVal num val = (some op, h') →
      op.addr = h.next ∧ h.next < h'.next) ∧
    (qcloudIotCoapOptionInit h okOption okVal num val = (none, h') → h.next ≤ h'.next) := by
  unfold qcloudIotCoapOptionInit Heap.malloc
  cases okOption with
  | false =>
    refine ⟨fun hop => ?_, fun hop => ?_⟩
    · cases hop
    · cases hop
      exact Nat.le_refl _
  | true =>
    cases okVal with
    | false =>
      refine ⟨fun hop => ?_, fun hop => ?_⟩
      · cases hop
      · cases hop
        exact Nat.le_succ _
    | true =>
      refine ⟨fun hop => ?_, fun hop => ?_⟩
      · cases hop
        exact ⟨rfl, Nat.lt_succ_of_lt (Nat.lt_succ_self _)⟩
      · cases hop

section

variable {h h' : Heap} {l : OptionChain} {m : CoapMessage} {call : OptionAdd} {op : CoapMsgOption}

theorem optionAdd_some
    (hinit : qcloudIotCoapOptionInit h call.okOption call.okVal call.num call.val = (some op, h')) :
    coapMessageOptionAdd h call.okOption call.okVal m call.num call.val =
      (.retSuccess, { m with opList := placeOption op m.opList }, h') := by
  unfold coapMessageOptionAdd
  rw [hinit]
  cases m.opList with
  | nil => rfl
  | cons first ops =>
    simp only [placeOption]
    split <;> rfl

theorem optionAdd_none
    (hinit : qcloudIotCoapOptionInit h call.okOption call.okVal call.num call.val = (none, h')) :
    coapMessageOptionAdd h call.okOption call.okVal m call.num call.val = (.errFailure, m, h') := by
  unfold coapMessageOptionAdd
  rw [hinit]

/-- **A call in memory** does what it does to the list. -/
theorem optionAddAt_refines (hl : Linked h l m.opList) (call : OptionAdd) :
    ∃ l', optionAddAt h l call =
        some ((coapMessageOptionAdd h call.okOption call.okVal m call.num call.val).1,
          (coapMessageOptionAdd h call.okOption call.okVal m call.num call.val).2.2, l') ∧
      Linked (coapMessageOptionAdd h call.okOption call.okVal m call.num call.val).2.2 l'
        (coapMessageOptionAdd h call.okOption call.okVal m call.num call.val).2.1.opList := by
  unfold optionAddAt
  cases hinit : qcloudIotCoapOptionInit h call.okOption call.okVal call.num call.val with
  | mk op? h' =>
    cases op? with
    | none =>
      have hle := optionInit_fresh.2 hinit
      rw [optionAdd_none hinit]
      exact ⟨l, rfl, hl.spells, fun op hop => Nat.lt_of_lt_of_le (hl.old op hop) hle⟩
    | some op =>
      obtain ⟨haddr, hlt⟩ := optionInit_fresh.1 hinit
      have hnew : op.addr ∉ m.opList.map (·.addr) := by
        rw [haddr]
        intro hmem
        obtain ⟨op', hop', heq⟩ := List.mem_map.mp hmem
        exact absurd heq (Nat.ne_of_lt (hl.old op' hop'))
      obtain ⟨l', hlink, hl'⟩ := linkOption_spells
        (Nat.le_of_lt (Nat.lt_of_le_of_lt hl.length_le hlt)) hl.spells hnew
      rw [optionAdd_some hinit]
      refine ⟨l', by simp only [hlink, Option.map_some], hl', fun op' hop' => ?_⟩
      rcases List.mem_cons.mp ((placeOption_perm op m.opList).mem_iff.mp hop') with rfl | hop'
      · rw [haddr]
        exact hlt
      · exact Nat.lt_trans (hl.old op' hop') hlt

end

/-! ## Sorted -/

/-- The number options are sorted by. -/
def CoapMsgOption.number (op : CoapMsgOption) : Nat := op.optionNum.toNat

theorem CoapMsgOption.number_lt {a b : CoapMsgOption} : a.optionNum < b.optionNum ↔ a.number < b.number :=
  UInt16.lt_iff_toNat_lt

theorem CoapMsgOption.number_le {a b : CoapMsgOption} : a.optionNum ≤ b.optionNum ↔ a.number ≤ b.number :=
  UInt16.le_iff_toNat_le

/-- Among sorted options that begin with none larger, the new one goes behind the last that is not
larger. -/
theorem insertOption_split {option : CoapMsgOption} {first : CoapMsgOption} {ops : List CoapMsgOption}
    (hfirst : first.number ≤ option.number)
    (hsorted : (first :: ops).Pairwise fun a b => a.number ≤ b.number) :
    ∃ front back, first :: ops = front ++ back ∧
      insertOption option (first :: ops) = front ++ option :: back ∧
      (∀ a ∈ front, a.number ≤ option.number) ∧ ∀ a ∈ back, option.number < a.number := by
  induction ops generalizing first with
  | nil =>
    exact ⟨[first], [], rfl, rfl, fun a ha => List.mem_singleton.mp ha ▸ hfirst,
      fun _ ha => absurd ha List.not_mem_nil⟩
  | cons next ops ih =>
    have hrest := (List.pairwise_cons.mp hsorted).2
    rw [insertOption]
    by_cases hnext : option.number < next.number
    · rw [if_pos ⟨CoapMsgOption.number_le.mpr hfirst, CoapMsgOption.number_lt.mpr hnext⟩]
      refine ⟨[first], next :: ops, rfl, rfl, fun a ha => List.mem_singleton.mp ha ▸ hfirst, ?_⟩
      intro a ha
      rcases List.mem_cons.mp ha with rfl | ha
      · exact hnext
      · exact lt_of_lt_of_le hnext ((List.pairwise_cons.mp hrest).1 a ha)
    · obtain ⟨front, back, hsplit, hinsert, hfront, hback⟩ := ih (not_lt.mp hnext) hrest
      rw [if_neg fun h => hnext (CoapMsgOption.number_lt.mp h.2), hinsert, hsplit]
      refine ⟨first :: front, back, rfl, rfl, fun a ha => ?_, hback⟩
      rcases List.mem_cons.mp ha with rfl | ha
      · exact hfirst
      · exact hfront a ha

/-- **An option placed** is sorted in behind those of its number. -/
theorem placeOption_stable {added ops : List CoapMsgOption}
    (h : StableSort CoapMsgOption.number added ops) (option : CoapMsgOption) :
    StableSort CoapMsgOption.number (added ++ [option]) (placeOption option ops) := by
  cases ops with
  | nil =>
    exact h.insert (fun _ ha => absurd ha List.not_mem_nil)
      fun _ ha => absurd ha List.not_mem_nil
  | cons first ops =>
    rw [placeOption]
    split
    · rename_i hfirst
      refine h.insert (fun _ ha => absurd ha List.not_mem_nil) fun a ha => ?_
      rcases List.mem_cons.mp ha with rfl | ha
      · exact CoapMsgOption.number_lt.mp hfirst
      · exact lt_of_lt_of_le (CoapMsgOption.number_lt.mp hfirst) ((List.pairwise_cons.mp h.sorted).1 a ha)
    · rename_i hfirst
      obtain ⟨front, back, hsplit, hinsert, hfront, hback⟩ :=
        insertOption_split (not_lt.mp fun hlt => hfirst (CoapMsgOption.number_lt.mpr hlt)) h.sorted
      rw [hinsert]
      rw [hsplit] at h
      exact h.insert hfront hback

/-- Calls on a list that is the stable sort of what was added before. -/
theorem optionAdds_stable {h : Heap} {l : OptionChain} {m : CoapMessage} {added : List CoapMsgOption}
    (hl : Linked h l m.opList) (hsort : StableSort CoapMsgOption.number added m.opList)
    (calls : List OptionAdd) :
    ∃ h' l' ops, optionAdds h l calls = some (h', l') ∧ Linked h' l' ops ∧
      StableSort CoapMsgOption.number (added ++ addedOptions h calls) ops := by
  induction calls generalizing h l m added with
  | nil => exact ⟨h, l, m.opList, rfl, hl, by rwa [addedOptions, List.append_nil]⟩
  | cons call calls ih =>
    obtain ⟨l', hcall, hl'⟩ := optionAddAt_refines hl call
    rw [optionAdds, hcall, Option.bind_some, addedOptions]
    cases hinit : qcloudIotCoapOptionInit h call.okOption call.okVal call.num call.val with
    | mk op? h' =>
      cases op? with
      | none =>
        rw [optionAdd_none hinit] at hl' ⊢
        exact ih hl' hsort
      | some op =>
        rw [optionAdd_some hinit] at hl' ⊢
        have hplaced := ih hl' (placeOption_stable hsort op)
        rwa [List.append_assoc] at hplaced

/-- **The list of options** after any calls on an empty one: linked from `first` to `last`, it is the
stable sort of the options added by their numbers, each of them in it once. -/
theorem optionAdds_sorted (h : Heap) (cells : Nat → Option (ChainCell CoapMsgOption))
    (calls : List OptionAdd) :
    ∃ h' l' ops, optionAdds h (.empty cells) calls = some (h', l') ∧ l'.Spells (addressed ops) ∧
      ops = (addedOptions h calls).mergeSort (fun a b => decide (a.number ≤ b.number)) ∧
      ∀ op ∈ addedOptions h calls, ops.count op = 1 := by
  obtain ⟨h', l', ops, hcalls, hl', hsort⟩ :=
    optionAdds_stable (m := {}) (linked_empty h cells) .nil calls
  refine ⟨h', l', ops, hcalls, hl'.spells, hsort.eq_mergeSort, fun op hop => ?_⟩
  have hnodup : ops.Nodup := List.Nodup.of_map (·.addr) (addrs_addressed ops ▸ hl'.spells.nodup)
  exact List.count_eq_one_of_mem hnodup (hsort.mem_iff.mpr hop)

end QcloudIot.Coap
