import QcloudIot.Lib.Ledger
import QcloudIot.Lib.Slots
import QcloudIot.Mqtt.Runs

/-!
# Owners of the stored topic filters

Every subscribe and unsubscribe allocates a copy of its topic filter, which its node in
`list_sub_wait_ack` owns as long as it is valid. A SUBACK hands the string on to a slot or frees
it, an UNSUBACK and a timeout free it, an unsubscribe frees the strings of the slots it clears, and
`IOT_MQTT_Destroy` those of the slots left. The account of a client is a ledger of allocations.

Results:
* `ActStep.balanced`: a step that `KeepsOwners` keeps the ledger balanced;
* **`soundOwners_of_run`**: after a run of such steps every string has one owner or has been freed
  once, and the destruction frees the rest iff no node is valid any more;
* `duplicateSuback_dangles`: a second SUBACK before the sweep frees the string of the slot that the
  first has filled.
-/

namespace QcloudIot.Mqtt

open Lib

/-! ## The account of a client -/

/-- The strings the slots own. -/
def ownedBySlots (slots : List SubTopicHandle) : List Nat := slots.filterMap SubTopicHandle.addr?

/-- The strings the valid nodes own. -/
def ownedByNodes (nodes : List SubInfo) : List Nat :=
  (nodes.filter (·.nodeState == .normal)).filterMap (·.handler.addr?)

/-- The ledger: who owns what, and what has been freed. -/
def Client.ledger (c : Client) : Ledger where
  owned := ownedBySlots c.subHandles.slots ++ ownedByNodes c.listSubWaitAck
  freed := freedIn c.log
  next := c.nextAddr

/-- A string not yet freed has one owner, none is freed twice, and none that a slot refers to is
freed. -/
structure SoundOwners (c : Client) : Prop where
  owner : ∀ a < c.nextAddr, a ∉ freedIn c.log →
    (ownedBySlots c.subHandles.slots ++ ownedByNodes c.listSubWaitAck).count a = 1
  freedOnce : (freedIn c.log).Nodup
  slots : ∀ a ∈ ownedBySlots c.subHandles.slots, a ∉ freedIn c.log

theorem SoundOwners.of_balanced {c : Client} (h : c.ledger.Balanced) : SoundOwners c where
  owner _ ha hfree := h.owner ha hfree
  freedOnce := h.nodup_freed
  slots _ ha := h.not_freed (List.mem_append_left _ ha)

theorem total_ledger (c : Client) (a : Nat) : c.ledger.total a =
    (ownedBySlots c.subHandles.slots).count a + (ownedByNodes c.listSubWaitAck).count a +
      (freedIn c.log).count a := by
  rw [Ledger.total, Client.ledger, List.count_append]

/-- A step that moves nothing in the account. -/
theorem balanced_of_eq {c c' : Client} (h : c.ledger.Balanced)
    (hslots : c'.subHandles = c.subHandles) (hnodes : c'.listSubWaitAck = c.listSubWaitAck)
    (hfreed : freedIn c'.log = freedIn c.log) (hnext : c'.nextAddr = c.nextAddr) :
    c'.ledger.Balanced :=
  h.settle (fun a => by rw [total_ledger, total_ledger, hslots, hnodes, hfreed]) hnext

theorem Frame.balanced {c c' : Client} (hf : Frame c c') (h : c.ledger.Balanced) :
    c'.ledger.Balanced :=
  balanced_of_eq h hf.subHandles hf.listSub hf.freed hf.nextAddr

/-! ## The requests -/

/-- A refused request has freed its string again. -/
theorem SubRefused.balanced {c c' : Client} (hr : SubRefused c c') (h : c.ledger.Balanced) :
    c'.ledger.Balanced := by
  have hkept : c' = _ := hr.kept
  have hslots : c'.subHandles = c.subHandles := by rw [hkept]
  have hnodes : c'.listSubWaitAck = c.listSubWaitAck := by rw [hkept]
  rcases hr.log with ⟨hnext, hlog⟩ | ⟨hnext, hlog⟩
  · exact balanced_of_eq h hslots hnodes (by rw [hlog.freed, List.append_nil]) hnext
  · refine h.alloc (fun a => ?_) hnext
    rw [total_ledger, total_ledger, hslots, hnodes, hlog.freed, List.count_append,
      List.count_singleton]
    by_cases ha : a = c.nextAddr
    · simp [ha, Client.ledger]
      omega
    · have ha' : ¬ c.nextAddr = a := fun h => ha h.symm
      simp [ha, ha', Client.ledger]

/-- The node of an accepted request owns its string. -/
theorem SubAccepted.balanced {node : SubInfo} {packet : Bytes} {c c' : Client}
    (ha : SubAccepted node packet c c') (hstate : node.nodeState = .normal)
    (haddr : node.handler.addr? = some c.nextAddr) (h : c.ledger.Balanced) :
    c'.ledger.Balanced := by
  have hslots : c'.subHandles = c.subHandles := by rw [ha.kept]
  have hnodes : c'.listSubWaitAck = c.listSubWaitAck ++ [node] := by rw [ha.kept]
  have hnext : c'.nextAddr = c.nextAddr + 1 := by rw [ha.kept]
  refine h.alloc (fun a => ?_) hnext
  have hnode : ownedByNodes [node] = [c.nextAddr] := by simp [ownedByNodes, hstate, haddr]
  rw [total_ledger, total_ledger, hslots, hnodes, ha.log.freed, List.append_nil, ownedByNodes,
    List.filter_append, List.filterMap_append, List.count_append, ← ownedByNodes, ← ownedByNodes,
    hnode, List.count_singleton]
  by_cases heq : a = c.nextAddr
  · simp [heq, Client.ledger]
    omega
  · have heq' : ¬ c.nextAddr = a := fun h => heq h.symm
    simp [heq, heq', Client.ledger]

/-- The strings of the slots cleared are the ones freed. -/
theorem count_cleared (f : Bytes) (a : Nat) (slots : List SubTopicHandle) :
    (ownedBySlots (slots.map (clearSlot f))).count a +
      ((slots.filter (slotMatches f)).filterMap SubTopicHandle.addr?).count a =
        (ownedBySlots slots).count a := by
  induction slots with
  | nil => rfl
  | cons s slots ih =>
    simp only [ownedBySlots] at ih ⊢
    rw [List.map_cons, List.filter_cons, List.filterMap_cons, List.filterMap_cons]
    by_cases hm : slotMatches f s = true
    · have hcleared : (clearSlot f s).addr? = none := by
        simp [clearSlot, hm, SubTopicHandle.addr?]
      rw [if_pos hm, hcleared, List.filterMap_cons]
      cases s.addr? with
      | none => exact ih
      | some x => simp only [List.count_cons]; omega
    · have hkept : clearSlot f s = s := by simp [clearSlot, hm]
      rw [if_neg hm, hkept]
      cases s.addr? with
      | none => exact ih
      | some x => simp only [List.count_cons]; omega

theorem removeHandlers_balanced {c : Client} (topic : Bytes) (h : c.ledger.Balanced) :
    (removeHandlers c topic).ledger.Balanced := by
  rw [removeHandlers_eq]
  refine h.settle (fun a => ?_) rfl
  have hcleared := count_cleared topic a c.subHandles.slots
  rw [total_ledger, total_ledger]
  simp only [SubHandles.map, freedIn_append, freedIn_clear, List.count_append]
  simp
  omega

/-! ## The acknowledgements -/

/-- The node with the packet id is the only one, and valid. -/
def SoleNode (msgId : UInt16) (nodes : List SubInfo) (n : SubInfo) : Prop :=
  nodesWith msgId nodes = [n] ∧ n.nodeState = .normal

/-- An acknowledgement takes the string from the only node with its id. -/
theorem count_acked {msgId : UInt16} {n : SubInfo} (a : Nat) : ∀ nodes : List SubInfo,
    SoleNode msgId nodes n →
      (ownedByNodes (nodes.map (SubInfo.mask msgId))).count a + n.handler.addr?.toList.count a =
        (ownedByNodes nodes).count a := by
  intro nodes
  induction nodes with
  | nil => intro h; exact absurd h.1 (by simp [nodesWith])
  | cons m ms ih =>
    rintro ⟨hsole, hstate⟩
    simp only [nodesWith, List.filter_cons] at hsole
    by_cases hm : m.msgId = msgId
    · rw [if_pos (by simpa using hm)] at hsole
      obtain ⟨rfl, hrest⟩ := List.cons.inj hsole
      have hmask : (m.mask msgId).nodeState = .invalid := by simp [SubInfo.mask, hm]
      rw [List.map_cons, map_mask_eq hrest]
      simp only [ownedByNodes, List.filter_cons, hmask, hstate]
      cases haddr : m.handler.addr? with
      | none => simp [haddr]
      | some x => simp [haddr, List.count_cons]
    · rw [if_neg (by simpa using hm)] at hsole
      have ih := ih ⟨hsole, hstate⟩
      have hmask : m.mask msgId = m := by simp [SubInfo.mask, hm]
      rw [List.map_cons, hmask]
      simp only [ownedByNodes, List.filter_cons] at ih ⊢
      split
      · simp only [List.filterMap_cons]
        cases m.handler.addr? with
        | none => exact ih
        | some x => simp only [List.count_cons]; omega
      · exact ih

/-- A free slot filled. -/
theorem count_filled {a : Nat} {h : SubTopicHandle} {slots : List SubTopicHandle} {i : Nat}
    (hi : slots.findIdx? (·.topicFilter.isNone) = some i) :
    (ownedBySlots (slots.set i h)).count a = (ownedBySlots slots).count a + h.addr?.toList.count a := by
  have hfree : ∀ s : SubTopicHandle, s.topicFilter.isNone = true → s.addr? = none := fun s hs => by
    rw [SubTopicHandle.addr?, Option.isNone_iff_eq_none.mp hs, Option.map_none]
  rw [ownedBySlots, (filterMap_set_free hfree hi).count_eq, List.count_append, Nat.add_comm]
  rfl

/-- A SUBACK that finds a place frees the string of its handle or hands it to a slot. -/
theorem count_suback (nack : Bool) {h : SubTopicHandle} {t : SubHandles}
    (hplace : nack = true ∨ scanSlots h t.slots 0 none ≠ .different none) (a : Nat) :
    (ownedBySlots (subackEffect nack h t).1.slots).count a + (subackEffect nack h t).2.count a =
      (ownedBySlots t.slots).count a + h.addr?.toList.count a := by
  unfold subackEffect
  cases hf : h.topicFilter with
  | none => simp [SubTopicHandle.addr?, hf]
  | some f =>
    have haddr : h.addr?.toList = [f.addr] := by simp [SubTopicHandle.addr?, hf]
    simp only
    cases nack with
    | true => simp [haddr]
    | false =>
      rw [scanSlots_eq] at hplace
      rw [scanSlots_eq]
      cases hid : t.slots.findIdx? (isIdentical h) with
      | some i =>
        simp only [SubHandles.set]
        rw [if_neg (by simp), ownedBySlots, filterMap_set_same (d := {}) (by simp [SubTopicHandle.addr?]), haddr]
        rfl
      | none =>
        cases hfree : t.slots.findIdx? (·.topicFilter.isNone) with
        | none => exact absurd hplace (by simp [hid, hfree])
        | some i =>
          simp only [SubHandles.set]
          rw [if_neg (by simp), count_filled hfree]
          simp

/-- The acknowledgement finds one valid node with its id, or none. A SUBACK then finds an identical
or a free slot, and an UNSUBACK without a node finds NULL in its uninitialised handle. -/
def Inbound.KeepsOwners (pkt : Inbound) (c : Client) (env : CycleEnv) : Prop :=
  match pkt with
  | .puback _ | .publish _ _ => True
  | .suback id codes => env.iterOk = true → nodesWith id c.listSubWaitAck = [] ∨
    ∃ n, SoleNode id c.listSubWaitAck n ∧
      (codes.headD 0 = 0x80 ∨
        scanSlots n.handler c.subHandles.slots 0 none ≠ .different none)
  | .unsuback id => (env.iterOk = true ∧ ∃ n, SoleNode id c.listSubWaitAck n) ∨
    ((env.iterOk = true → nodesWith id c.listSubWaitAck = []) ∧ env.junk.topicFilter = none)

/-- What an acknowledgement finds with the only node. -/
theorem ackedSub_sole {env : CycleEnv} {id : UInt16} {h : SubTopicHandle} {nodes : List SubInfo}
    {n : SubInfo} (hiter : env.iterOk = true) (hn : SoleNode id nodes n) :
    ackedSub env id h nodes = (n.handler, nodes.map (SubInfo.mask id)) :=
  ackedSub_first hiter hn.1

theorem InboundStep.balanced {env : CycleEnv} {c c' : Client} {pkt : Inbound} (hs : InboundStep env c pkt c')
    (hpkt : pkt.KeepsOwners c env) (h : c.ledger.Balanced) : c'.ledger.Balanced := by
  cases hs with
  | puback id => exact balanced_of_eq h rfl rfl (by simp) rfl
  | @suback id codes _ hstep =>
    generalize hnack : (codes.headD 0 == 0x80) = nack at hstep
    have hkept := hstep.kept
    have hslots : c'.subHandles =
        (subackEffect nack (ackedSub env id {} c.listSubWaitAck).1 c.subHandles).1 := by rw [hkept]
    have hnodes : c'.listSubWaitAck = (ackedSub env id {} c.listSubWaitAck).2 := by rw [hkept]
    have hnext : c'.nextAddr = c.nextAddr := by rw [hkept]
    have hfreed := hstep.freed
    by_cases hnone : env.iterOk = true → nodesWith id c.listSubWaitAck = []
    · rw [ackedSub_none hnone] at hslots hnodes hfreed
      exact balanced_of_eq h hslots hnodes (by rw [hfreed]; simp [subackEffect]) hnext
    · obtain ⟨hiter, hne⟩ := Classical.not_imp.mp hnone
      rcases hpkt hiter with hnil | ⟨n, hn, hplace⟩
      · exact absurd hnil hne
      · rw [ackedSub_sole hiter hn] at hslots hnodes hfreed
        simp only at hslots hnodes hfreed
        refine h.settle (fun a => ?_) hnext
        have h1 := count_suback nack
          (hplace.imp_left fun h => by rw [← hnack, h]; rfl) a
        have h2 := count_acked a _ hn
        rw [total_ledger, total_ledger, hslots, hnodes, hfreed, List.count_append]
        omega
  | unsuback id =>
    refine h.settle (fun a => ?_) rfl
    rw [total_ledger, total_ledger]
    simp only [freedIn_append, freedIn_frees, freedIn_eventCall, List.count_append]
    rcases hpkt with ⟨hiter, n, hn⟩ | ⟨hnone, hjunk⟩
    · have h2 := count_acked a _ hn
      rw [ackedSub_sole hiter hn]
      cases hf : n.handler.topicFilter with
      | none =>
        simp [SubTopicHandle.addr?, hf] at h2 ⊢
        omega
      | some f =>
        simp [SubTopicHandle.addr?, hf] at h2 ⊢
        omega
    · rw [ackedSub_none hnone]
      simp [hjunk]
  | @publish packetId msg _ _ hf =>
    refine hf.balanced (balanced_of_eq h rfl rfl ?_ rfl)
    simp only [receivePublish]
    split <;> simp

/-! ## The sweep -/

/-- A sweep frees the strings of the nodes it times out. -/
theorem count_sweptSubs (c : Client) (env : SweepEnv) (a : Nat) :
    (ownedByNodes (keptSubs c env)).count a +
      ((expiredSubs c env).filterMap (·.handler.addr?)).count a =
        (ownedByNodes c.listSubWaitAck).count a := by
  unfold keptSubs expiredSubs
  cases env.iterOk with
  | false => simp
  | true =>
    simp only [if_true]
    have hexpired : (tailFilter (subExpires c.isConnected env.clock) c.listSubWaitAck).filter
        (·.nodeState == .normal) = tailFilter (subExpires c.isConnected env.clock)
          c.listSubWaitAck := by
      refine List.filter_eq_self.mpr fun n hn => ?_
      obtain ⟨-, k, hk⟩ := of_mem_tailFilter hn
      simp [normal_of_nodeExpires hk]
    have hsplit := tailFilter_split (p := subStays c.isConnected env.clock)
      (q := subExpires c.isConnected env.clock) (r := fun n : SubInfo => n.nodeState == .normal)
      (fun k n hn => nodeStays_eq_not (by simpa using hn)) c.listSubWaitAck
    have hcount := (hsplit.filterMap (·.handler.addr?)).count_eq a
    rw [List.filterMap_append, List.count_append, hexpired] at hcount
    exact hcount

/-! ## Over a run -/

/-- A step's condition is about the acknowledgements. -/
def KeepsOwners (c : Client) : Act → Prop
  | .cycle packetType env => ∀ pkt ∈ inboundOf c packetType env, pkt.KeepsOwners c env
  | _ => True

theorem PubAccepted.balanced {nodes : List PubInfo} {packet : Bytes} {c c' : Client}
    (ha : PubAccepted nodes packet c c') (h : c.ledger.Balanced) : c'.ledger.Balanced :=
  balanced_of_eq h (by rw [ha.kept]) (by rw [ha.kept]) (by rw [ha.log.freed, List.append_nil])
    (by rw [ha.kept])

theorem subInfoProc_balanced {c : Client} (env : SweepEnv) (h : c.ledger.Balanced) :
    (qcloudIotMqttSubInfoProc c env).ledger.Balanced := by
  rw [subInfoProc_eq]
  refine h.settle (fun a => ?_) rfl
  have hcount := count_sweptSubs c env a
  have hfreed : ((expiredSubs c env).reverse.filterMap (·.handler.addr?)).count a =
      ((expiredSubs c env).filterMap (·.handler.addr?)).count a :=
    ((List.reverse_perm _).filterMap _).count_eq a
  rw [total_ledger, total_ledger]
  simp only [freedIn_append, freedIn_subTimeout, List.count_append, hfreed]
  simp
  omega

/-- **Every step** that keeps the owners keeps the ledger balanced. -/
theorem ActStep.balanced {c c' : Client} {a : Act} (hs : ActStep c a c') (hkeeps : KeepsOwners c a)
    (h : c.ledger.Balanced) : c'.ledger.Balanced := by
  cases hs with
  | quiet _ hf => exact hf.balanced h
  | subscribed _ hacc => exact hacc.balanced rfl rfl h
  | subscribeRefused href => exact href.balanced h
  | unsubscribeInvalid => exact h
  | @unsubscribed _ _ topic _ _ _ hacc =>
    have hnext : (removeHandlers c topic).nextAddr = c.nextAddr := by rw [removeHandlers_eq]
    exact hacc.balanced rfl (by rw [hnext]; rfl) (removeHandlers_balanced topic h)
  | @unsubscribeRefused _ _ topic _ _ href => exact href.balanced (removeHandlers_balanced topic h)
  | published _ hacc =>
    split
    · exact balanced_of_eq (hacc.balanced h) rfl rfl (by simp) rfl
    · exact hacc.balanced h
  | publishRefused href =>
    have hkept := href.kept
    exact balanced_of_eq h (by rw [hkept]) (by rw [hkept]) (by rw [href.log.freed, List.append_nil])
      (by rw [hkept])
  | @inbound _ env pkt c1 _ _ hpkt h1 hstep h2 =>
    have hkeeps1 : pkt.KeepsOwners c1 env := by
      have := hkeeps pkt hpkt
      cases pkt with
      | puback => trivial
      | publish => trivial
      | suback => simpa only [Inbound.KeepsOwners, h1.listSub, h1.subHandles] using this
      | unsuback => simpa only [Inbound.KeepsOwners, h1.listSub] using this
    exact h2.balanced (hstep.balanced hkeeps1 (h1.balanced h))
  | noInbound _ hf => exact hf.balanced h
  | pubSwept env => exact balanced_of_eq h rfl rfl (by simp [freedIn_pubTimeout]) rfl
  | subSwept env => exact subInfoProc_eq c env ▸ subInfoProc_balanced env h

/-- `IOT_MQTT_Destroy` frees the strings of the slots. -/
theorem freedIn_destroySlots : ∀ (slots : List SubTopicHandle) (c : Client),
    freedIn (destroySlots c slots).2.log = freedIn c.log ++ ownedBySlots slots := by
  intro slots
  induction slots with
  | nil => intro c; simp [destroySlots, ownedBySlots]
  | cons s slots ih =>
    intro c
    simp only [destroySlots, ih]
    cases hf : s.topicFilter <;>
      simp [ownedBySlots, SubTopicHandle.addr?, hf, Client.free_eq, Client.notifySub_eq]

theorem freedIn_destroy (c : Client) (env : SendEnv) : freedIn (iotMqttDestroy c env).2.log =
    freedIn c.log ++ ownedBySlots c.subHandles.slots := by
  have hframe := forceDisconnect_frame c env
  simp only [iotMqttDestroy]
  rw [freedIn_destroySlots, hframe.freed, hframe.subHandles]

/-- With a balanced ledger the destruction has freed every string once iff no valid node is
left. -/
theorem destroy_freed_iff {c : Client} (env : SendEnv) (h : c.ledger.Balanced) :
    (freedIn (iotMqttDestroy c env).2.log).Perm (List.range c.nextAddr) ↔
      ownedByNodes c.listSubWaitAck = [] := by
  have hafter : (⟨ownedByNodes c.listSubWaitAck, freedIn (iotMqttDestroy c env).2.log,
      c.nextAddr⟩ : Ledger).Balanced := by
    refine h.settle (fun a => ?_) rfl
    rw [total_ledger, Ledger.total, freedIn_destroy]
    simp only [List.count_append]
    omega
  exact hafter.freed_iff

/-- **The owners of the stored filters**: after a run whose acknowledgements each find one valid
node, or none, every string has one owner or has been freed once; and then the destruction of the
client frees all the others iff no valid node is left. -/
theorem soundOwners_of_run (eventHandle : Option FnPtr) (nextPacketId : UInt16)
    (commandTimeoutMs : Nat) (options : MqttConnectParams) (as : List Act)
    (h : Meets act KeepsOwners (Client.init eventHandle nextPacketId commandTimeoutMs options) as) :
    let c := run act (Client.init eventHandle nextPacketId commandTimeoutMs options) as
    SoundOwners c ∧ ∀ env, (freedIn (iotMqttDestroy c env).2.log).Perm (List.range c.nextAddr) ↔
      ownedByNodes c.listSubWaitAck = [] := by
  have hend := run_invariant (fun c => c.held = [] ∧ c.ledger.Balanced)
    (fun c a hc ha => ⟨(act_sameThread a hc.1).held.trans hc.1,
      (act_step a hc.1).balanced ha hc.2⟩)
    (s := Client.init eventHandle nextPacketId commandTimeoutMs options)
    as ⟨rfl, Ledger.balanced_empty⟩ h
  exact ⟨.of_balanced hend.2, fun env => destroy_freed_iff env hend.2⟩

/-- Subscribed, acknowledged and swept, unsubscribed and acknowledged. -/
theorem soundOwners_unsubscribed :
    let c := run act freshClient (sessionActs ++ [subscribeOnce, subackOnce, .subInfoProc {},
      unsubscribeOnce, unsubackOnce])
    SoundOwners c ∧ ∀ env, (freedIn (iotMqttDestroy c env).2.log).Perm (List.range c.nextAddr) ↔
      ownedByNodes c.listSubWaitAck = [] := by
  refine soundOwners_of_run (some 1) 0 5000 ⟨60, true⟩ _
    ⟨?_, trivial, trivial, ?_, trivial, trivial, ?_, trivial⟩
  · intro pkt hpkt
    have hnone : inboundOf freshClient 0 { reads := packetReads 0x20 [0, 0] } = none := by
      decide
    exact absurd (hnone.symm.trans hpkt) (by simp)
  · intro pkt hpkt
    have hsome : inboundOf (run act freshClient (sessionActs ++ [subscribeOnce])) 0
        { reads := packetReads 0x90 [0, 1, 0] } = some (.suback 1 [0]) := by decide
    obtain rfl := Option.some.inj (hsome.symm.trans hpkt)
    have hnode : nodesWith 1 (run act freshClient (sessionActs ++ [subscribeOnce])).listSubWaitAck =
        [⟨.subscribe, 1, 5000, .normal, { topicFilter := some ⟨0, [116]⟩ }⟩] := by decide
    have hfree : scanSlots { topicFilter := some ⟨0, [116]⟩ }
        (run act freshClient (sessionActs ++ [subscribeOnce])).subHandles.slots 0 none =
          .different (some 0) := by decide
    exact fun _ => Or.inr ⟨_, ⟨hnode, rfl⟩, Or.inr fun h => absurd (hfree.symm.trans h) (by simp)⟩
  · intro pkt hpkt
    have hsome : inboundOf (run act freshClient (sessionActs ++ [subscribeOnce, subackOnce,
        .subInfoProc {}, unsubscribeOnce])) 0 { reads := packetReads 0xB0 [0, 2] } =
          some (.unsuback 2) := by decide
    obtain rfl := Option.some.inj (hsome.symm.trans hpkt)
    have hnode : nodesWith 2 (run act freshClient (sessionActs ++ [subscribeOnce, subackOnce,
        .subInfoProc {}, unsubscribeOnce])).listSubWaitAck =
          [⟨.unsubscribe, 2, 5000, .normal, { topicFilter := some ⟨1, [116]⟩ }⟩] := by
      decide
    exact Or.inl ⟨rfl, _, hnode, rfl⟩

/-- A second SUBACK for the subscription, before the sweep, frees the string that the slot refers
to. -/
theorem duplicateSuback_dangles : ¬ SoundOwners (run act freshClient
    (sessionActs ++ [subscribeOnce, subackOnce, subackOnce])) := by
  intro h
  refine absurd (h.slots 0 ?_) ?_ <;> decide

end QcloudIot.Mqtt
