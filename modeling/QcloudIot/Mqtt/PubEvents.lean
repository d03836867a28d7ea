import QcloudIot.Mqtt.Runs

/-!
# The terminal events of a publish

A QoS 1 publish that has returned its packet id is pending as long as its node is in
`list_pub_wait_ack` and valid. A terminal event is `MQTT_EVENT_PUBLISH_SUCCESS`, raised by
`_handle_puback_packet` whatever the wait list holds, or `MQTT_EVENT_PUBLISH_TIMEOUT`, raised by the
sweep for a pending node.

Results:
* `ActStep.consumes`: where a PUBACK is solicited, each terminal event uses up a pending publish;
* **`endedOnce_of_run`**: a run in which every PUBACK is solicited reports at most one terminal
  event for each publish;
* `duplicatePuback_endsTwice`: the second PUBACK for a publish is reported like the first.
-/

namespace QcloudIot.Mqtt

open Lib

/-! ## At most one terminal event -/

/-- The number of terminal events with id `p` since a publish last returned `p`. -/
def endsSince (p : UInt16) (fates : List PubFate) : Nat :=
  fates.foldl (fun k f =>
    match f with
    | .returned id => if id = p then 0 else k
    | .ended id => if id = p then k + 1 else k) 0

/-- The number there may be: one once a publish has returned `p`. -/
def endsAllowed (p : UInt16) (fates : List PubFate) : Nat := if .returned p ∈ fates then 1 else 0

/-- Since a publish returned `p`, at most one terminal event with id `p` has been reported, and
none if no publish has. -/
def EndedOnce (fates : List PubFate) : Prop := ∀ p, endsSince p fates ≤ endsAllowed p fates

section EndsSince

variable (p : UInt16) (fates : List PubFate)

@[simp] theorem endsSince_returned (id : UInt16) : endsSince p (fates ++ [.returned id]) =
    if id = p then 0 else endsSince p fates := by
  simp [endsSince]

/-- Terminal events add up. -/
@[simp] theorem endsSince_ended (ids : List UInt16) :
    endsSince p (fates ++ ids.map .ended) = endsSince p fates + ids.count p := by
  induction ids generalizing fates with
  | nil => simp
  | cons id ids ih =>
    have hone : endsSince p (fates ++ [.ended id]) =
        if id = p then endsSince p fates + 1 else endsSince p fates := by simp [endsSince]
    rw [List.map_cons, List.append_cons, ih, hone, List.count_cons]
    by_cases h : id = p
    · simp [h]
      omega
    · simp [h]

@[simp] theorem endsAllowed_returned (id : UInt16) : endsAllowed p (fates ++ [.returned id]) =
    if id = p then 1 else endsAllowed p fates := by
  by_cases h : id = p
  · simp [endsAllowed, h]
  · have h' : p ≠ id := fun hp => h hp.symm
    simp [endsAllowed, h, h']

@[simp] theorem endsAllowed_ended (ids : List UInt16) :
    endsAllowed p (fates ++ ids.map .ended) = endsAllowed p fates := by
  simp [endsAllowed]

end EndsSince

/-! ## Pending publishes -/

/-- The node of a publish with id `p` that still waits for its PUBACK. -/
def PubInfo.awaits (p : UInt16) (n : PubInfo) : Bool := n.nodeState == .normal && n.msgId == p

/-- How many publishes with id `p` are pending. -/
def Client.pending (c : Client) (p : UInt16) : Nat := c.listPubWaitAck.countP (PubInfo.awaits p)

/-- A PUBACK with id `q` ends the waiting of the nodes with this id and of no others. -/
theorem awaits_mask (p q : UInt16) (n : PubInfo) :
    (n.mask q).awaits p = (n.awaits p && !(q == p)) := by
  unfold PubInfo.mask PubInfo.awaits
  by_cases hp : q = p
  · by_cases hn : n.msgId = q
    · simp [hn, hp]
    · simp [hp ▸ hn, hp]
  · rw [beq_false_of_ne hp]
    by_cases hn : n.msgId = q
    · simp [hn, beq_false_of_ne hp]
    · simp [hn]

theorem countP_mask (p q : UInt16) (nodes : List PubInfo) :
    (nodes.map (PubInfo.mask q)).countP (PubInfo.awaits p) =
      if q = p then 0 else nodes.countP (PubInfo.awaits p) := by
  have hcomp : PubInfo.awaits p ∘ PubInfo.mask q = fun n => n.awaits p && !(q == p) :=
    funext (awaits_mask p q)
  rw [List.countP_map, hcomp]
  by_cases h : q = p
  · simp [h]
  · simp [h, beq_false_of_ne h]

/-- A sweep splits the pending nodes into those it leaves and those it times out. -/
theorem countP_swept (c : Client) (env : SweepEnv) (p : UInt16) :
    ((expiredPubs c env).map (·.msgId)).count p + (keptPubs c env).countP (PubInfo.awaits p) =
      c.pending p := by
  unfold expiredPubs keptPubs Client.pending
  cases env.iterOk with
  | false => simp
  | true =>
    simp only [if_true]
    have hcount : ((tailFilter (pubExpires c.isConnected env.clock) c.listPubWaitAck).map
        (·.msgId)).count p = (tailFilter (pubExpires c.isConnected env.clock)
          c.listPubWaitAck).countP (PubInfo.awaits p) := by
      rw [List.count, List.countP_map]
      refine List.countP_congr fun n hn => ?_
      obtain ⟨-, k, hk⟩ := of_mem_tailFilter hn
      simp [PubInfo.awaits, normal_of_nodeExpires hk]
    have hsplit := (tailFilter_split (p := pubStays c.isConnected env.clock)
      (q := pubExpires c.isConnected env.clock) (r := PubInfo.awaits p) (fun k n hn => by
        simp only [PubInfo.awaits, Bool.and_eq_true, beq_iff_eq] at hn
        exact nodeStays_eq_not hn.1) c.listPubWaitAck).length_eq
    rw [List.length_append, ← List.countP_eq_length_filter, ← List.countP_eq_length_filter,
      ← List.countP_eq_length_filter] at hsplit
    omega

/-! ## Each terminal event uses up a pending publish -/

/-- From `c` to `c'` terminal events are reported for some ids, each for a publish pending
before and not after. -/
def Consumes (c c' : Client) : Prop :=
  ∃ ids : List UInt16, fatesIn c'.log = fatesIn c.log ++ ids.map .ended ∧
    ∀ p, ids.count p + c'.pending p ≤ c.pending p

theorem Consumes.of_eq {c c' : Client} (hf : fatesIn c'.log = fatesIn c.log)
    (hl : c'.listPubWaitAck = c.listPubWaitAck) : Consumes c c' :=
  ⟨[], by simp [hf], fun p => by simp [Client.pending, hl]⟩

theorem Frame.consumes {c c' : Client} (h : Frame c c') : Consumes c c' :=
  .of_eq h.fates h.listPub

theorem Consumes.trans {c c' c'' : Client} (h : Consumes c c') (h' : Consumes c' c'') :
    Consumes c c'' := by
  obtain ⟨ids, hf, hp⟩ := h
  obtain ⟨ids', hf', hp'⟩ := h'
  refine ⟨ids ++ ids', by rw [hf', hf, List.map_append, List.append_assoc], fun p => ?_⟩
  have h1 := hp p
  have h2 := hp' p
  rw [List.count_append]
  omega

/-- The acknowledgement is no PUBACK, or there is nobody to tell, or the PUBACK is for a pending
publish and the iterator to mark it can be had. -/
def Inbound.Solicited (pkt : Inbound) (c : Client) (iterOk : Bool) : Prop :=
  match pkt with
  | .puback p => c.eventHandle = none ∨ iterOk = true ∧ 0 < c.pending p
  | _ => True

/-- A step's condition: a PUBACK is solicited, and a publish gets no packet id of one that is still
pending. -/
def Solicited (c : Client) : Act → Prop
  | .cycle packetType env => ∀ pkt ∈ inboundOf c packetType env, pkt.Solicited c env.iterOk
  | .publish topicName pParams env => ∀ topic params packet,
    PublishGranted c topicName pParams env topic params packet → params.qos.toNat > 0 →
      c.pending (publishId c params) = 0
  | _ => True

/-- A solicited PUBACK is reported for a pending publish, and with it the publish is pending no
longer. -/
theorem InboundStep.consumes {env : CycleEnv} {c c' : Client} {pkt : Inbound} (h : InboundStep env c pkt c')
    (hsol : pkt.Solicited c env.iterOk) : Consumes c c' := by
  cases h with
  | puback p =>
    rcases hsol with hnone | ⟨hiter, hpending⟩
    · refine ⟨[], by simp [hnone], fun q => ?_⟩
      cases hi : env.iterOk with
      | false => simp [Client.pending]
      | true =>
        simp only [Client.pending, if_true, countP_mask]
        split <;> simp
    · refine ⟨c.eventHandle.toList.map fun _ => p, by simp, fun q => ?_⟩
      simp only [Client.pending, hiter, if_true, countP_mask]
      by_cases hpq : p = q
      · subst hpq
        have hone : (c.eventHandle.toList.map fun _ => p).count p ≤ 1 := by
          cases c.eventHandle <;> simp
        rw [if_pos rfl]
        exact le_trans hone hpending
      · have hnone : (c.eventHandle.toList.map fun _ => p).count q = 0 := by
          cases c.eventHandle <;> simp [hpq]
        rw [if_neg hpq, hnone, Nat.zero_add]
  | suback h =>
    refine .of_eq h.fates ?_
    have hkept := h.kept
    rw [hkept]
  | unsuback p => exact .of_eq (by simp) rfl
  | @publish packetId msg _ _ h =>
    refine .of_eq (h.fates.trans ?_) h.listPub
    simp only [receivePublish]
    split <;> simp

theorem SubRefused.consumes {c c' : Client} (h : SubRefused c c') : Consumes c c' := by
  have hkept : c' = _ := h.kept
  obtain ⟨_, hlog⟩ := h.logged
  exact .of_eq hlog.fates (by rw [hkept])

theorem SubAccepted.consumes {node : SubInfo} {packet : Bytes} {c c' : Client}
    (h : SubAccepted node packet c c') : Consumes c c' :=
  .of_eq h.log.fates (by rw [h.kept])

theorem removeHandlers_consumes (c : Client) (topic : Bytes) :
    Consumes c (removeHandlers c topic) := by
  have hclear := (clear_views topic (.generic :: c.held) c.subHandles.slots).2.1
  rw [removeHandlers_eq]
  exact .of_eq (by simp [hclear]) rfl

/-- A sweep reports the publishes it times out. -/
theorem pubInfoProc_consumes (c : Client) (env : SweepEnv) :
    Consumes c (qcloudIotMqttPubInfoProc c env) := by
  rw [pubInfoProc_eq]
  refine ⟨if c.eventHandle.isSome then (expiredPubs c env).reverse.map (·.msgId) else [], ?_,
    fun p => ?_⟩
  · simp only [fatesIn_append, fatesIn_pubTimeout, Client.lock_eventHandle]
    split <;> simp
  · have hcount := countP_swept c env p
    simp only [Client.pending] at hcount ⊢
    split
    · rw [List.map_reverse, List.count_reverse]
      omega
    · simp only [List.count_nil]
      omega

/-- **Every step but a publish** reports terminal events only for publishes pending until then. -/
theorem ActStep.consumes {c c' : Client} {a : Act} (h : ActStep c a c') (hsol : Solicited c a)
    (hpub : ∀ topicName pParams env, a ≠ .publish topicName pParams env) : Consumes c c' := by
  cases h with
  | quiet _ h => exact h.consumes
  | subscribed _ h => exact h.consumes
  | subscribeRefused h => exact h.consumes
  | unsubscribeInvalid => exact .of_eq rfl rfl
  | unsubscribed _ h => exact (removeHandlers_consumes c _).trans h.consumes
  | unsubscribeRefused _ h => exact (removeHandlers_consumes c _).trans h.consumes
  | published => exact absurd rfl (hpub _ _ _)
  | publishRefused => exact absurd rfl (hpub _ _ _)
  | @inbound _ env pkt c1 _ _ hpkt h1 hstep h2 =>
    have hsol1 : pkt.Solicited c1 env.iterOk := by
      have := hsol pkt hpkt
      cases pkt with
      | puback p =>
        simp only [Inbound.Solicited, Client.pending, h1.eventHandle, h1.listPub] at this ⊢
        exact this
      | suback => trivial
      | unsuback => trivial
      | publish => trivial
    exact (h1.consumes.trans (hstep.consumes hsol1)).trans h2.consumes
  | noInbound _ h => exact h.consumes
  | pubSwept env => exact pubInfoProc_eq c env ▸ pubInfoProc_consumes c env
  | subSwept env => exact .of_eq (by simp [fatesIn_subTimeout]) rfl

/-! ## Over a run -/

/-- The invariant: nothing is held between two steps, and what has been reported for `p` since it
was last returned, with what may still be, is at most one. -/
structure EndsInv (c : Client) : Prop where
  held : c.held = []
  ends : ∀ p, endsSince p (fatesIn c.log) + c.pending p ≤ endsAllowed p (fatesIn c.log)

theorem EndsInv.consumes {c c' : Client} (h : EndsInv c) (hc : Consumes c c')
    (hheld : c'.held = []) : EndsInv c' := by
  obtain ⟨ids, hf, hp⟩ := hc
  refine ⟨hheld, fun p => ?_⟩
  have h1 := h.ends p
  have h2 := hp p
  rw [hf, endsSince_ended, endsAllowed_ended]
  omega

/-- A publish that returns `p` starts the count for `p`. -/
theorem EndsInv.published {c c' : Client} {params : PublishParams} {env : CallEnv} {packet : Bytes}
    (h : EndsInv c) (hacc : PubAccepted (pubNodes c params.qos (publishId c params) env) packet c c')
    (hfresh : params.qos.toNat > 0 → c.pending (publishId c params) = 0) :
    EndsInv (if params.qos.toNat > 0 then c'.emit (.published (publishId c params)) else c') := by
  have hheld := hacc.sameThread.held.trans h.held
  have hlist : c'.listPubWaitAck = c.listPubWaitAck ++ pubNodes c params.qos
      (publishId c params) env := by rw [hacc.kept]
  by_cases hq : params.qos.toNat > 0
  · rw [if_pos hq]
    refine ⟨hheld, fun p => ?_⟩
    have hp := h.ends p
    have hpending : (c'.emit (.published (publishId c params))).pending p =
        c.pending p + if publishId c params = p then 1 else 0 := by
      simp [Client.pending, hlist, pubNodes, hq, PubInfo.awaits]
    have hfates : fatesIn (c'.emit (.published (publishId c params))).log =
        fatesIn c.log ++ [.returned (publishId c params)] := by simp [hacc.log.fates]
    rw [hpending, hfates, endsSince_returned, endsAllowed_returned]
    by_cases hpid : publishId c params = p
    · rw [if_pos hpid, if_pos hpid, if_pos hpid, ← hpid, hfresh hq]
    · simpa [hpid] using hp
  · rw [if_neg hq]
    rw [pubNodes, if_neg hq, List.append_nil] at hlist
    exact h.consumes (.of_eq hacc.log.fates hlist) hheld

theorem EndsInv.act {c : Client} {a : Act} (h : EndsInv c) (hsol : Solicited c a) :
    EndsInv (act c a) := by
  have hstep := act_step a h.held
  have hheld := hstep.sameThread.held.trans h.held
  by_cases hpub : ∃ topicName pParams env, a = .publish topicName pParams env
  · obtain ⟨topicName, pParams, env, rfl⟩ := hpub
    generalize Mqtt.act c (.publish topicName pParams env) = c' at hstep hheld ⊢
    cases hstep with
    | quiet hquiet => exact absurd hquiet (by simp [Act.quiet])
    | published hg hacc => exact h.published hacc (hsol _ _ _ hg)
    | publishRefused href =>
      have hkept := href.kept
      exact h.consumes (.of_eq href.log.fates (by rw [hkept])) hheld
  · exact h.consumes (hstep.consumes hsol fun t p e ha => hpub ⟨t, p, e, ha⟩) hheld

/-- **At most one terminal event**: in a run whose PUBACKs are solicited and whose publishes get no
packet id still pending, at every moment at most one terminal event with id `p` has been reported
since a publish last returned `p`, and none if no publish has. -/
theorem endedOnce_of_run (eventHandle : Option FnPtr) (nextPacketId : UInt16)
    (commandTimeoutMs : Nat) (options : MqttConnectParams) (as : List Act)
    (h : Meets act Solicited (Client.init eventHandle nextPacketId commandTimeoutMs options) as) :
    EndedOnce (fatesIn
      (run act (Client.init eventHandle nextPacketId commandTimeoutMs options) as).log) := by
  have hinit : EndsInv (Client.init eventHandle nextPacketId commandTimeoutMs options) :=
    ⟨rfl, fun p => by simp [Client.init, endsSince, endsAllowed, Client.pending]⟩
  have hend := run_invariant EndsInv (fun c a hc ha => hc.act ha) as hinit h
  exact fun p => le_trans (Nat.le_add_right _ _) (hend.ends p)

/-- The PUBACK for `publishOnce`. -/
def pubackOnce : Act := .cycle 0 { reads := packetReads 0x40 [0, 1] }

/-- The run of one publish and its PUBACK. -/
theorem endedOnce_acked : EndedOnce (fatesIn
    (run act freshClient (sessionActs ++ [publishOnce, pubackOnce])).log) := by
  refine endedOnce_of_run (some 1) 0 5000 ⟨60, true⟩ (sessionActs ++ [publishOnce, pubackOnce])
    ⟨?_, trivial, ?_, ?_, trivial⟩
  · intro pkt hpkt
    have hnone : inboundOf freshClient 0 { reads := packetReads 0x20 [0, 0] } = none := by
      decide
    exact absurd (hnone.symm.trans hpkt) (by simp)
  · intro topic params packet _ _
    have hlist : (run act freshClient sessionActs).listPubWaitAck = [] := by decide
    exact congrArg (List.countP _) hlist
  · intro pkt hpkt
    have hsome : inboundOf (run act freshClient (sessionActs ++ [publishOnce])) 0
        { reads := packetReads 0x40 [0, 1] } = some (.puback 1) := by decide
    obtain rfl := Option.some.inj (hsome.symm.trans hpkt)
    have hpending : 0 < (run act freshClient (sessionActs ++ [publishOnce])).pending 1 := by
      decide
    exact Or.inr ⟨rfl, hpending⟩

/-- A second PUBACK for the publish is reported as well. -/
theorem duplicatePuback_endsTwice : ¬ EndedOnce (fatesIn
    (run act freshClient (sessionActs ++ [publishOnce, pubackOnce, pubackOnce])).log) := by
  intro h
  have htwice := h 1
  revert htwice
  decide

end QcloudIot.Mqtt
