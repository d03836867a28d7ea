import Mathlib.Data.List.GetD
import QcloudIot.Mqtt.Runs

/-!
# What acknowledgements act on

`_handle_suback_packet` takes the handle of the first node with the packet id, marks all nodes with
the id invalid, and puts the handle into the first free slot: unless the return code is `0x80`, an
occupied slot is identical to it (the same filter string and handlers), or none is free.
`_handle_unsuback_packet` marks the nodes and frees the string of the first one.

Results:
* `subackEffect_cases`: a SUBACK fills the first free slot, or leaves every slot's filter and
  handlers;
* `InboundStep.acks`: what one acknowledgement does;
* **`ackEffect_of_run`**: the same in every state that a run reaches;
* `resubscribed_notInstalled`: the SUBACK for a filter subscribed twice installs nothing.
-/

namespace QcloudIot.Mqtt

open Lib

/-! ## The books of the subscriptions -/

/-- The slots, the wait list and the filter strings freed. -/
structure SubBooks where
  table : SubHandles
  nodes : List SubInfo
  freed : List Nat

def Client.subBooks (c : Client) : SubBooks := ⟨c.subHandles, c.listSubWaitAck, freedIn c.log⟩

theorem Frame.subBooks {c c' : Client} (h : Frame c c') : c'.subBooks = c.subBooks := by
  simp only [Client.subBooks, h.subHandles, h.listSub, h.freed]

/-- A slot that was free is occupied. -/
def Installs (b b' : SubBooks) : Prop :=
  ∃ i : Nat, (b.table.slots.getD i {}).topicFilter = none ∧
    (b'.table.slots.getD i {}).topicFilter ≠ none

/-- What a slot is besides its user data. -/
def SubTopicHandle.shape (h : SubTopicHandle) : SubTopicHandle := { h with handlerUserData := 0 }

/-- The nodes with the packet id are valid and of this type. -/
def OwnNodes (packetId : UInt16) (type : MessageTypes) (nodes : List SubInfo) : Prop :=
  ∀ n ∈ nodesWith packetId nodes, n.nodeState = .normal ∧ n.type = type

/-- A SUBACK installs a handler iff a subscribe with its packet id is pending, it is not refused, and
there is a place that no identical handle makes unnecessary. Otherwise every slot keeps its filter
and its handlers. -/
structure SubackActs (iterOk : Bool) (packetId : UInt16) (code : UInt8) (b b' : SubBooks) : Prop where
  installs_iff : Installs b b' ↔ iterOk = true ∧ code ≠ 0x80 ∧
    ∃ n, (nodesWith packetId b.nodes).head? = some n ∧ n.nodeState = .normal ∧ n.type = .subscribe ∧
      (∀ s ∈ b.table.slots, isIdentical n.handler s = false) ∧
      ∃ s ∈ b.table.slots, s.topicFilter = none
  installed : Installs b b' → ∃ n i, (nodesWith packetId b.nodes).head? = some n ∧
    b.table.slots.findIdx? (·.topicFilter.isNone) = some i ∧ b'.table = b.table.set i n.handler
  kept : ¬ Installs b b' →
    b'.table.slots.map SubTopicHandle.shape = b.table.slots.map SubTopicHandle.shape

/-- An UNSUBACK marks the nodes with its packet id and frees the filter string of the first. -/
structure UnsubackActs (packetId : UInt16) (n : SubInfo) (b b' : SubBooks) : Prop where
  nodes : b'.nodes = b.nodes.map (SubInfo.mask packetId)
  freed : ∃ f, n.handler.topicFilter = some f ∧ b'.freed = b.freed ++ [f.addr]

/-- What an acknowledgement does: a SUBACK without a node changes nothing, an UNSUBACK never changes a
slot, and where the nodes with the id are valid and of its own type it acts on these. -/
def AckEffect (env : CycleEnv) (b b' : SubBooks) : Inbound → Prop
  | .suback packetId codes => (nodesWith packetId b.nodes = [] → b' = b) ∧
    ∀ code, codes.head? = some code → OwnNodes packetId .subscribe b.nodes →
      SubackActs env.iterOk packetId code b b'
  | .unsuback packetId => b'.table = b.table ∧
    (OwnNodes packetId .unsubscribe b.nodes → env.iterOk = true →
      ∀ n, (nodesWith packetId b.nodes).head? = some n → UnsubackActs packetId n b b')
  | _ => True

/-! ## The slots after a SUBACK -/

/-- A free slot filled is an installation. -/
theorem installs_of_fill {b b' : SubBooks} {i : Nat} {h : SubTopicHandle}
    (hfree : b.table.slots.findIdx? (·.topicFilter.isNone) = some i)
    (hh : h.topicFilter ≠ none) (hset : b'.table = b.table.set i h) : Installs b b' := by
  obtain ⟨hi, hnone, -⟩ := List.findIdx?_eq_some_iff_getElem.mp hfree
  refine ⟨i, ?_, ?_⟩
  · simpa [List.getD_eq_getElem?_getD, hi] using hnone
  · rw [hset]
    simpa [SubHandles.set, List.getD_eq_getElem?_getD, hi] using hh

/-- Slots of the same shapes: nothing is installed. -/
theorem not_installs_of_shape {b b' : SubBooks}
    (h : b'.table.slots.map SubTopicHandle.shape = b.table.slots.map SubTopicHandle.shape) :
    ¬ Installs b b' := by
  rintro ⟨i, hfree, hfull⟩
  have hget : (b'.table.slots.getD i {}).shape = (b.table.slots.getD i {}).shape := by
    have hi := congrArg (fun l : List SubTopicHandle => l.getD i (SubTopicHandle.shape {})) h
    simpa only [List.getD_map] using hi
  have hfilter := congrArg SubTopicHandle.topicFilter hget
  exact hfull (hfilter.trans hfree)

/-- The user data is not part of a slot's shape. -/
theorem map_shape_set {userData : Nat} : ∀ (slots : List SubTopicHandle) (i : Nat),
    (slots.set i { slots.getD i {} with handlerUserData := userData }).map SubTopicHandle.shape =
      slots.map SubTopicHandle.shape := by
  intro slots
  induction slots with
  | nil => intro i; rfl
  | cons s slots ih =>
    intro i
    cases i with
    | zero => rfl
    | succ i => exact congrArg (s.shape :: ·) (ih i)

/-- **What a SUBACK with a handle does to the slots**: it fills the first free one, or leaves the
shapes. -/
theorem subackEffect_cases (nack : Bool) {h : SubTopicHandle} (t : SubHandles)
    (hh : h.topicFilter ≠ none) :
    (nack = false ∧ (∀ s ∈ t.slots, isIdentical h s = false) ∧
      ∃ i, t.slots.findIdx? (·.topicFilter.isNone) = some i ∧
        (subackEffect nack h t).1 = t.set i h) ∨
    (¬ (nack = false ∧ (∀ s ∈ t.slots, isIdentical h s = false) ∧
        ∃ s ∈ t.slots, s.topicFilter = none) ∧
      (subackEffect nack h t).1.slots.map SubTopicHandle.shape =
        t.slots.map SubTopicHandle.shape) := by
  obtain ⟨f, hf⟩ := Option.ne_none_iff_exists'.mp hh
  cases nack with
  | true => exact Or.inr ⟨by simp, by simp [subackEffect, hf]⟩
  | false =>
    have hscan := scanSlots_eq h t.slots
    cases hid : t.slots.findIdx? (isIdentical h) with
    | some i =>
      obtain ⟨hi, hident, -⟩ := List.findIdx?_eq_some_iff_getElem.mp hid
      refine Or.inr ⟨fun hno => ?_, ?_⟩
      · exact absurd (hno.2.1 _ (List.getElem_mem hi)) (by simp [hident])
      · have hset : (subackEffect false h t).1 = t.set i
            { t.slots.getD i {} with handlerUserData := h.handlerUserData } := by
          simp [subackEffect, hf, hscan, hid]
        rw [hset]
        exact map_shape_set _ i
    | none =>
      have hnone : ∀ s ∈ t.slots, isIdentical h s = false := by
        simpa [List.findIdx?_eq_none_iff] using hid
      cases hfree : t.slots.findIdx? (·.topicFilter.isNone) with
      | some i =>
        exact Or.inl ⟨rfl, hnone, i, rfl, by simp [subackEffect, hf, hscan, hid, hfree]⟩
      | none =>
        refine Or.inr ⟨?_, by simp [subackEffect, hf, hscan, hid, hfree]⟩
        rintro ⟨-, -, s, hs, hsnone⟩
        have hfull := List.findIdx?_eq_none_iff.mp hfree s hs
        exact absurd hfull (by simp [hsnone])

/-! ## One acknowledgement -/

/-- Every node has a filter string. -/
def NodesStored (c : Client) : Prop := ∀ n ∈ c.listSubWaitAck, n.handler.topicFilter ≠ none

theorem SubackActs.of_same {iterOk : Bool} {packetId : UInt16} {code : UInt8} {b b' : SubBooks}
    (hsame : b' = b) (hno : iterOk = false ∨ nodesWith packetId b.nodes = []) :
    SubackActs iterOk packetId code b b' := by
  subst hsame
  refine ⟨iff_of_false (not_installs_of_shape rfl) ?_, ?_, fun _ => rfl⟩
  · rintro ⟨hiter, -, n, hn, -⟩
    rcases hno with hfalse | hnil
    · exact absurd hiter (by simp [hfalse])
    · exact absurd hn (by simp [hnil])
  · exact fun h => absurd h (not_installs_of_shape rfl)

/-- A SUBACK that has found the node `n`. -/
theorem SubackActs.of_node {iterOk : Bool} {packetId : UInt16} {code : UInt8} {b b' : SubBooks}
    {n : SubInfo} {ns : List SubInfo} (hiter : iterOk = true)
    (hnodes : nodesWith packetId b.nodes = n :: ns) (hstate : n.nodeState = .normal)
    (htype : n.type = .subscribe) (hstored : n.handler.topicFilter ≠ none)
    (htable : b'.table = (subackEffect (code == 0x80) n.handler b.table).1) :
    SubackActs iterOk packetId code b b' := by
  have hhead : (nodesWith packetId b.nodes).head? = some n := by rw [hnodes]; rfl
  rcases subackEffect_cases (code == 0x80) b.table hstored with
    ⟨hnack, hnone, i, hi, heffect⟩ | ⟨hno, hshape⟩
  · rw [heffect] at htable
    have hinst := installs_of_fill hi hstored htable
    obtain ⟨hlt, hfree, -⟩ := List.findIdx?_eq_some_iff_getElem.mp hi
    refine ⟨iff_of_true hinst ⟨hiter, by simpa using hnack, n, hhead, hstate, htype, hnone, _,
      List.getElem_mem hlt, by simpa using hfree⟩, fun _ => ⟨n, i, hhead, hi, htable⟩,
      fun h => absurd hinst h⟩
  · rw [← htable] at hshape
    have hinst := not_installs_of_shape hshape
    refine ⟨iff_of_false hinst ?_, fun h => absurd h hinst, fun _ => hshape⟩
    rintro ⟨-, hcode, n', hn', -, -, hnone, hfree⟩
    obtain rfl := Option.some.inj (hhead.symm.trans hn')
    exact hno ⟨by simpa using hcode, hnone, hfree⟩

/-- **An acknowledgement**, whatever waits for it. -/
theorem InboundStep.acks {env : CycleEnv} {c c' : Client} {pkt : Inbound}
    (h : InboundStep env c pkt c') (hstored : NodesStored c) :
    AckEffect env c.subBooks c'.subBooks pkt := by
  cases h with
  | puback => trivial
  | publish => trivial
  | @suback packetId codes _ hstep =>
    have hkept := hstep.kept
    have hfreed := hstep.freed
    have htable : c'.subHandles = (subackEffect (codes.headD 0 == 0x80)
        (ackedSub env packetId {} c.listSubWaitAck).1 c.subHandles).1 := by rw [hkept]
    have hlist : c'.listSubWaitAck = (ackedSub env packetId {} c.listSubWaitAck).2 := by rw [hkept]
    have hsame : (env.iterOk = true → nodesWith packetId c.listSubWaitAck = []) →
        c'.subBooks = c.subBooks := by
      intro hnone
      rw [ackedSub_none hnone] at htable hlist hfreed
      simp only [Client.subBooks, htable, hlist, hfreed]
      simp [subackEffect]
    refine ⟨fun hnil => hsame fun _ => hnil, fun code hcode hown => ?_⟩
    have hhead : codes.headD 0 = code := by simp [List.headD_eq_head?_getD, hcode]
    cases hiter : env.iterOk with
    | false => exact .of_same (hsame (by simp [hiter])) (Or.inl rfl)
    | true =>
      cases hnodes : nodesWith packetId c.listSubWaitAck with
      | nil => exact .of_same (hsame fun _ => hnodes) (Or.inr hnodes)
      | cons n ns =>
        rw [ackedSub_first hiter hnodes, hhead] at htable
        have hmem : n ∈ nodesWith packetId c.listSubWaitAck := by simp [hnodes]
        obtain ⟨hstate, htype⟩ := hown n hmem
        exact .of_node rfl hnodes hstate htype (hstored n (List.mem_filter.mp hmem).1) htable
  | unsuback packetId =>
    refine ⟨rfl, fun _ hiter n hn => ?_⟩
    obtain ⟨ns, hnodes⟩ := List.head?_eq_some_iff.mp hn
    have hmem : n ∈ nodesWith packetId c.listSubWaitAck := by
      have hcons : nodesWith packetId c.listSubWaitAck = n :: ns := hnodes
      simp [hcons]
    obtain ⟨f, hf⟩ := Option.ne_none_iff_exists'.mp (hstored n (List.mem_filter.mp hmem).1)
    have hacked : ackedSub env packetId env.junk c.listSubWaitAck = (n.handler, _) :=
      ackedSub_first hiter hnodes
    refine ⟨by simp only [Client.subBooks, hacked], f, hf, ?_⟩
    simp [Client.subBooks, hacked, hf]

/-! ## In every state of a run -/

theorem SubRefused.nodes {c c' : Client} (h : SubRefused c c') :
    c'.listSubWaitAck = c.listSubWaitAck := by
  have hkept : c' = _ := h.kept
  rw [hkept]

/-- The node of an accepted request has its string. -/
theorem SubAccepted.nodesStored {node : SubInfo} {packet : Bytes} {c c' : Client}
    (h : SubAccepted node packet c c') (hnode : node.handler.topicFilter ≠ none)
    (hstored : NodesStored c) : NodesStored c' := by
  have hlist : c'.listSubWaitAck = c.listSubWaitAck ++ [node] := by rw [h.kept]
  intro n hn
  rw [hlist, List.mem_append, List.mem_singleton] at hn
  rcases hn with hn | rfl
  · exact hstored n hn
  · exact hnode

/-- Marking keeps the handles. -/
theorem ackedSub_stored {env : CycleEnv} {packetId : UInt16} {h : SubTopicHandle}
    {nodes : List SubInfo} (hstored : ∀ n ∈ nodes, n.handler.topicFilter ≠ none) :
    ∀ n ∈ (ackedSub env packetId h nodes).2, n.handler.topicFilter ≠ none := by
  unfold ackedSub
  split
  · rw [maskSubLoop_eq]
    intro n hn
    obtain ⟨m, hm, rfl⟩ := List.mem_map.mp hn
    unfold SubInfo.mask
    split <;> exact hstored m hm
  · exact hstored

theorem InboundStep.nodesStored {env : CycleEnv} {c c' : Client} {pkt : Inbound}
    (h : InboundStep env c pkt c') (hstored : NodesStored c) : NodesStored c' := by
  cases h with
  | puback => exact hstored
  | suback hstep =>
    have hkept := hstep.kept
    unfold NodesStored
    rw [hkept]
    exact ackedSub_stored hstored
  | unsuback => exact ackedSub_stored hstored
  | publish _ hf =>
    unfold NodesStored
    rw [hf.listSub]
    exact hstored

theorem removeHandlers_nodes (c : Client) (topic : Bytes) :
    (removeHandlers c topic).listSubWaitAck = c.listSubWaitAck := by rw [removeHandlers_eq]

theorem NodesStored.of_eq {c c' : Client} (hstored : NodesStored c)
    (h : c'.listSubWaitAck = c.listSubWaitAck) : NodesStored c' := by
  unfold NodesStored
  rw [h]
  exact hstored

theorem ActStep.nodesStored {c c' : Client} {a : Act} (h : ActStep c a c')
    (hstored : NodesStored c) : NodesStored c' := by
  cases h with
  | quiet _ h => exact hstored.of_eq h.listSub
  | subscribed _ h => exact h.nodesStored (by simp [subNode, SubscribeParams.handle]) hstored
  | subscribeRefused h => exact hstored.of_eq h.nodes
  | unsubscribeInvalid => exact hstored
  | unsubscribed _ h =>
    exact h.nodesStored (by simp [subNode, unsubscribeHandle])
      (hstored.of_eq (removeHandlers_nodes c _))
  | unsubscribeRefused _ h => exact hstored.of_eq (h.nodes.trans (removeHandlers_nodes c _))
  | @published _ _ _ _ _ _ c1 _ h =>
    have hlist : c1.listSubWaitAck = c.listSubWaitAck := by rw [h.kept]
    split <;> exact hstored.of_eq hlist
  | publishRefused h =>
    have hkept := h.kept
    exact hstored.of_eq (by rw [hkept])
  | inbound _ h1 hstep h2 =>
    exact (hstep.nodesStored (hstored.of_eq h1.listSub)).of_eq h2.listSub
  | noInbound _ h => exact hstored.of_eq h.listSub
  | pubSwept => exact hstored
  | subSwept env =>
    intro n hn
    simp only [keptSubs] at hn
    split at hn
    · exact hstored n (of_mem_tailFilter hn).1
    · exact hstored n hn

/-- **Acknowledgements act on their own requests**: in every state that a run reaches a SUBACK or an
UNSUBACK has its effect. -/
theorem ackEffect_of_run (eventHandle : Option FnPtr) (nextPacketId : UInt16)
    (commandTimeoutMs : Nat) (options : MqttConnectParams) (as : List Act) (packetType : UInt8)
    (env : CycleEnv) (pkt : Inbound)
    (h : inboundOf (run act (Client.init eventHandle nextPacketId commandTimeoutMs options) as)
      packetType env = some pkt) :
    AckEffect env (run act (Client.init eventHandle nextPacketId commandTimeoutMs options) as).subBooks
      (act (run act (Client.init eventHandle nextPacketId commandTimeoutMs options) as)
        (.cycle packetType env)).subBooks pkt := by
  obtain ⟨hheld, hstored⟩ := run_preserves (fun c => c.held = [] ∧ NodesStored c)
    (fun c a hc => ⟨(act_sameThread a hc.1).held.trans hc.1, (act_step a hc.1).nodesStored hc.2⟩)
    (s := Client.init eventHandle nextPacketId commandTimeoutMs options) as
    ⟨rfl, fun _ hn => absurd hn List.not_mem_nil⟩
  generalize run act (Client.init eventHandle nextPacketId commandTimeoutMs options) as = c at *
  have hstep := act_step (.cycle packetType env) hheld
  generalize act c (.cycle packetType env) = c' at hstep ⊢
  cases hstep with
  | quiet hquiet => exact absurd hquiet (by simp [Act.quiet])
  | noInbound hnone => exact absurd (hnone.symm.trans h) (by simp)
  | @inbound _ _ pkt' _ _ _ hpkt h1 hin h2 =>
    obtain rfl := Option.some.inj (h.symm.trans hpkt)
    rw [h2.subBooks, ← h1.subBooks]
    exact hin.acks (hstored.of_eq h1.listSub)

/-- The SUBACK for `subscribeOnce` fills the first slot. -/
theorem ackEffect_subscribed :
    AckEffect { reads := packetReads 0x90 [0, 1, 0] }
      (run act freshClient (sessionActs ++ [subscribeOnce])).subBooks
      (act (run act freshClient (sessionActs ++ [subscribeOnce])) subackOnce).subBooks
      (.suback 1 [0]) :=
  ackEffect_of_run (some 1) 0 5000 ⟨60, true⟩ (sessionActs ++ [subscribeOnce]) 0
    { reads := packetReads 0x90 [0, 1, 0] } (.suback 1 [0]) (by decide)

/-- The client subscribed to "t", with a second subscribe for "t" pending under the packet id 2. -/
def twiceSubscribed : Client := run act freshClient
  (sessionActs ++ [subscribeOnce, subackOnce, .subInfoProc {}, subscribeOnce])

/-- A subscribe is pending and the SUBACK grants it, and no handler is installed: the slot has the
same filter and handlers already. -/
theorem resubscribed_notInstalled :
    inboundOf twiceSubscribed 0 { reads := packetReads 0x90 [0, 2, 0] } = some (.suback 2 [0]) ∧
      (∃ n ∈ twiceSubscribed.listSubWaitAck,
        n.nodeState = .normal ∧ n.type = .subscribe ∧ n.msgId = 2) ∧
      ¬ Installs twiceSubscribed.subBooks
        (act twiceSubscribed (.cycle 0 { reads := packetReads 0x90 [0, 2, 0] })).subBooks := by
  refine ⟨by decide, by decide, not_installs_of_shape ?_⟩
  decide

end QcloudIot.Mqtt
