import QcloudIot.Lib.FreshIds
import QcloudIot.Mqtt.RoundTrip
import QcloudIot.Mqtt.Runs

/-!
# Packet ids

`get_next_packet_id` counts from 1 to 65535 and round again, and does not look at the wait lists.

* `quiet_nextPacketId`, `publish_nextPacketId`: a step takes at most one packet id;
* `act_takes`: what a step does to the ids that are pending;
* **`pendingIds_of_run`**: a pending packet id is never 0, and the pending ones are distinct in
  every run in which none stays pending while 65535 others are taken;
* `pendingIds_clash`: otherwise two publishes may wait under one packet id.
-/

namespace QcloudIot.Mqtt

open Lib

/-! ## The counter -/

/-- The packet id after `id`. -/
def nextId (id : UInt16) : UInt16 := if id = 65535 then 1 else id + 1

theorem getNextPacketId_fst (c : Client) : c.getNextPacketId.1 = nextId c.nextPacketId := rfl

theorem toNat_nextId (id : UInt16) : (nextId id).toNat = id.toNat % 65535 + 1 := by
  unfold nextId
  split
  · rename_i h
    rw [h]
    rfl
  · rename_i h
    have hne : id.toNat ≠ 65535 := fun he => h (UInt16.toNat_inj.mp he)
    have hlt := id.toNat_lt
    rw [UInt16.toNat_add]
    simp only [UInt16.toNat_one]
    omega

theorem nextId_ne_zero (id : UInt16) : nextId id ≠ 0 := by
  intro h
  have hval := toNat_nextId id
  rw [h] at hval
  exact absurd hval (by simp)

theorem nextId_ne (id : UInt16) : nextId id ≠ id := by
  intro h
  have hval := toNat_nextId id
  have hlt := id.toNat_lt
  rw [h] at hval
  omega

theorem toNat_iterate_nextId (id : UInt16) : ∀ k,
    (nextId^[k + 1] id).toNat = (id.toNat + k) % 65535 + 1 := by
  intro k
  induction k with
  | zero => exact toNat_nextId id
  | succ k ih =>
    rw [Function.iterate_succ_apply', toNat_nextId, ih]
    omega

/-- The counter comes round after 65535 ids, and not before. -/
theorem iterate_nextId_eq_iff (id : UInt16) (k : Nat) :
    nextId^[k] (nextId id) = nextId id ↔ 65535 ∣ k := by
  rw [← Function.iterate_succ_apply, ← UInt16.toNat_inj, toNat_iterate_nextId, toNat_nextId]
  omega

/-! ## Who takes an id -/

section NoId

variable (c : Client)

theorem notify_nextPacketId (type : MqttEventType) (id : UInt16) :
    (c.notify type id).nextPacketId = c.nextPacketId := by
  rw [Client.notify_eq]

theorem free_nextPacketId (f : Option StoredFilter) : (c.free f).nextPacketId = c.nextPacketId := by
  rw [Client.free_eq]

theorem sendMqttPacket_nextPacketId (length : Nat) (env : SendEnv) :
    (sendMqttPacket c length env).2.nextPacketId = c.nextPacketId := by
  rw [sendMqttPacket_client]

theorem sendSubPacket_nextPacketId (id : UInt16) (stored : StoredFilter) (node len : Nat)
    (env : SendEnv) : (sendSubPacket c id stored node len env).2.nextPacketId = c.nextPacketId := by
  have hsend := sendMqttPacket_nextPacketId c len env
  unfold sendSubPacket
  dsimp only
  split
  · simp only [free_nextPacketId, Client.unlock_nextPacketId, Client.lock_nextPacketId, hsend]
  · simp only [Client.unlock_nextPacketId, hsend]

theorem pushSub_nextPacketId (msgId : UInt16) (type : MessageTypes) (handler : SubTopicHandle)
    (env : CallEnv) : (pushSubInfoTo c msgId type handler env).2.nextPacketId = c.nextPacketId := by
  unfold pushSubInfoTo
  dsimp only
  split_ifs <;> rfl

theorem pushPub_nextPacketId (len : Nat) (msgId : UInt16) (env : CallEnv) :
    (maskPushPubInfoTo c len msgId env).2.nextPacketId = c.nextPacketId := by
  unfold maskPushPubInfoTo
  dsimp only
  split_ifs <;> rfl

theorem sendPubPacket_nextPacketId (id : UInt16) (node : Option Nat) (len : Nat) (env : SendEnv) :
    (sendPubPacket c id node len env).2.nextPacketId = c.nextPacketId := by
  have hsend := sendMqttPacket_nextPacketId c len env
  unfold sendPubPacket
  dsimp only
  split
  · cases node <;> simp only [Client.unlock_nextPacketId, Client.lock_nextPacketId, hsend]
  · simp only [Client.unlock_nextPacketId, hsend]

theorem sendPublish_nextPacketId (params : PublishParams) (topic : Bytes) (id : UInt16)
    (env : CallEnv) : (sendPublish c params topic id env).2.nextPacketId = c.nextPacketId := by
  unfold sendPublish
  split
  · rfl
  · rename_i packet _
    dsimp only
    split
    · have hpush := pushPub_nextPacketId (c.write packet) packet.length id env
      split
      · rename_i heq
        rw [heq] at hpush
        exact hpush
      · rename_i heq
        rw [heq] at hpush
        rw [sendPubPacket_nextPacketId]
        exact hpush
    · exact sendPubPacket_nextPacketId ..

theorem sendSubRequest_noMemory (type : MessageTypes) (handle : StoredFilter → SubTopicHandle)
    (serialize : Nat → UInt16 → Bytes → Except ReturnCode Bytes) (topicFilter : Bytes)
    {env : CallEnv} (hm : ¬ env.mallocFilter = true) :
    sendSubRequest type handle serialize c topicFilter env = (.error .errFailure, c) := by
  unfold sendSubRequest
  rw [if_pos hm]

/-- A subscribe or unsubscribe that gets as far as its memory takes an id. -/
theorem sendSubRequest_nextPacketId (type : MessageTypes) (handle : StoredFilter → SubTopicHandle)
    (serialize : Nat → UInt16 → Bytes → Except ReturnCode Bytes) (topicFilter : Bytes)
    (env : CallEnv) : (sendSubRequest type handle serialize c topicFilter env).2.nextPacketId =
      if env.mallocFilter then nextId c.nextPacketId else c.nextPacketId := by
  unfold sendSubRequest
  by_cases hm : env.mallocFilter = true
  swap
  · rw [if_pos hm, if_neg hm]
  rw [if_neg (not_not.mpr hm), if_pos hm]
  simp only [subStart_eq]
  split
  · rw [free_nextPacketId]
    rfl
  · rename_i packet _
    have hpush := pushSub_nextPacketId ((subStart c).write packet) c.getNextPacketId.1 type
      (handle ⟨c.nextAddr, topicFilter⟩) env
    split
    · rename_i heq
      rw [heq] at hpush
      rw [free_nextPacketId]
      exact hpush
    · rename_i heq
      rw [heq] at hpush
      rw [sendSubPacket_nextPacketId]
      exact hpush

theorem removeHandlers_nextPacketId (topic : Bytes) :
    (removeHandlers c topic).nextPacketId = c.nextPacketId := by
  rw [removeHandlers_eq]

/-- A subscribe takes an id or fails. -/
theorem subscribe_nextPacketId (topicFilter : Option Bytes) (pParams : Option SubscribeParams)
    (env : CallEnv) :
    (qcloudIotMqttSubscribe c topicFilter pParams env).2.nextPacketId = nextId c.nextPacketId ∨
      ((∃ rc, (qcloudIotMqttSubscribe c topicFilter pParams env).1 = .error rc) ∧
        (qcloudIotMqttSubscribe c topicFilter pParams env).2.nextPacketId = c.nextPacketId) := by
  unfold qcloudIotMqttSubscribe
  split
  · exact .inr ⟨⟨_, rfl⟩, rfl⟩
  split
  · exact .inr ⟨⟨_, rfl⟩, rfl⟩
  split
  · exact .inr ⟨⟨_, rfl⟩, rfl⟩
  simp only [Client.getClientConnState_eq]
  split
  · exact .inr ⟨⟨_, rfl⟩, rfl⟩
  rw [sendSubRequest_nextPacketId]
  split
  · exact .inl rfl
  · rename_i hm
    exact .inr ⟨⟨.errFailure, by rw [sendSubRequest_noMemory _ _ _ _ _ hm]⟩, rfl⟩

/-- So does an unsubscribe. -/
theorem unsubscribe_nextPacketId (topicFilter : Option Bytes) (env : CallEnv) :
    (qcloudIotMqttUnsubscribe c topicFilter env).2.nextPacketId = nextId c.nextPacketId ∨
      ((∃ rc, (qcloudIotMqttUnsubscribe c topicFilter env).1 = .error rc) ∧
        (qcloudIotMqttUnsubscribe c topicFilter env).2.nextPacketId = c.nextPacketId) := by
  unfold qcloudIotMqttUnsubscribe
  split
  · exact .inr ⟨⟨_, rfl⟩, rfl⟩
  rename_i topic _
  have hremove := removeHandlers_nextPacketId c topic
  dsimp only
  split
  · exact .inr ⟨⟨_, rfl⟩, hremove⟩
  simp only [Client.getClientConnState_eq]
  split
  · exact .inr ⟨⟨_, rfl⟩, hremove⟩
  rw [sendSubRequest_nextPacketId]
  split
  · exact .inl (congrArg nextId hremove)
  · rename_i hm
    exact .inr ⟨⟨.errFailure, by rw [sendSubRequest_noMemory _ _ _ _ _ hm]⟩, hremove⟩

/-- A publish whose arguments pass takes an id iff it is one with QoS 1. -/
theorem publishStarted_nextPacketId {topicName : Option Bytes} {params : PublishParams}
    {env : CallEnv} {topic : Bytes} (ht : checkTopic topicName = .ok topic)
    (hq : params.qos ≠ .qos2) (hconn : c.isConnected = true) :
    (qcloudIotMqttPublish c topicName (some params) env).2.nextPacketId =
      if params.qos = .qos1 then nextId c.nextPacketId else c.nextPacketId := by
  rw [publish_start ht hq hconn, sendPublish_nextPacketId]
  rfl

/-- The record of the id that a publish returns takes none. -/
theorem publishAct_nextPacketId (topicName : Option Bytes) (pParams : Option PublishParams)
    (env : CallEnv) : (publishAct c topicName pParams env).nextPacketId =
      (qcloudIotMqttPublish c topicName pParams env).2.nextPacketId := by
  unfold publishAct
  obtain ⟨rc | id, c'⟩ := qcloudIotMqttPublish c topicName pParams env
  · rfl
  · dsimp only
    split <;> rfl

theorem publish_nextPacketId (topicName : Option Bytes) (pParams : Option PublishParams)
    (env : CallEnv) :
    (qcloudIotMqttPublish c topicName pParams env).2.nextPacketId = nextId c.nextPacketId ∨
      (qcloudIotMqttPublish c topicName pParams env).2.nextPacketId = c.nextPacketId := by
  cases pParams with
  | none => exact .inr rfl
  | some params =>
    cases ht : checkTopic topicName with
    | error rc => exact .inr (by simp only [qcloudIotMqttPublish, ht])
    | ok topic =>
      by_cases hq : params.qos = .qos2
      · exact .inr (by simp only [qcloudIotMqttPublish, ht, if_pos hq])
      by_cases hconn : c.isConnected = true
      · rw [publishStarted_nextPacketId c ht hq hconn]
        split
        · exact .inl rfl
        · exact .inr rfl
      · exact .inr (by
          simp only [qcloudIotMqttPublish, ht, if_neg hq, Client.getClientConnState_eq,
            if_pos hconn])

/-! ### Inbound packets -/

/-- An acknowledgement takes no id. -/
theorem handleAck_nextPacketId (env : CycleEnv) :
    (handlePubackPacket c env).2.nextPacketId = c.nextPacketId ∧
      (handleSubackPacket c env).2.nextPacketId = c.nextPacketId ∧
      (handleUnsubackPacket c env).2.nextPacketId = c.nextPacketId := by
  refine ⟨?_, ?_, ?_⟩
  · cases h : deserializeAckPacket c.readBuf c.readBufSize with
    | error rc => simp only [handlePubackPacket, h]
    | ok r => rw [handlePuback_eq env h]
  · cases h : deserializeSubackPacket 1 c.readBuf c.readBufSize with
    | error rc => simp only [handleSubackPacket, h]
    | ok r => rw [(handleSuback_step h).kept]
  · cases h : deserializeUnsubackPacket c.readBuf c.readBufSize with
    | error rc => simp only [handleUnsubackPacket, h]
    | ok id => rw [handleUnsuback_eq env h]

theorem deliverLoop_nextPacketId (decision : Bytes → Bool) (msg : MqttMessage) :
    ∀ (slots : List SubTopicHandle) (c : Client),
      (deliverLoop decision msg c slots).2.nextPacketId = c.nextPacketId := by
  intro slots
  induction slots with
  | nil => intro c; rfl
  | cons slot slots ih =>
    intro c
    unfold deliverLoop
    split
    · dsimp only
      split
      · rfl
      · rw [ih]
        rfl
    · exact ih c

theorem deliverMessage_nextPacketId (before : UInt8) (topicName : Bytes) (len : UInt16)
    (msg : MqttMessage) : (deliverMessage c before topicName len msg).nextPacketId =
      c.nextPacketId := by
  unfold deliverMessage
  have hloop := deliverLoop_nextPacketId (fun f => topicDecision before f topicName len) msg
    ((c.emit (.deliver msg)).lock .generic).subHandles.slots ((c.emit (.deliver msg)).lock .generic)
  dsimp only
  split
  · rename_i heq
    rw [heq] at hloop
    exact hloop
  · rename_i heq
    rw [heq] at hloop
    rw [notify_nextPacketId]
    exact hloop

theorem sendPubAck_nextPacketId (type : MessageTypes) (id : UInt16) (env : SendEnv) :
    (sendPubAck c type id env).2.nextPacketId = c.nextPacketId := by
  unfold sendPubAck
  dsimp only
  split
  · rfl
  · rw [Client.unlock_nextPacketId, sendMqttPacket_nextPacketId]
    rfl

theorem handlePublish_nextPacketId (env : CycleEnv) :
    (handlePublishPacket c env).2.nextPacketId = c.nextPacketId := by
  unfold handlePublishPacket
  split
  · rfl
  · dsimp only
    split
    · exact deliverMessage_nextPacketId ..
    · rw [sendPubAck_nextPacketId]
      dsimp only
      split
      · exact deliverMessage_nextPacketId ..
      · rfl

theorem handlePubrec_nextPacketId (env : CycleEnv) :
    (handlePubrecPacket c env).2.nextPacketId = c.nextPacketId := by
  unfold handlePubrecPacket
  split
  · rfl
  · exact sendPubAck_nextPacketId ..

theorem ite_nextPacketId {p : Prop} [Decidable p] {r r' : ReturnCode × Client} {i : UInt16}
    (h : r.2.nextPacketId = i) (h' : r'.2.nextPacketId = i) :
    (if p then r else r').2.nextPacketId = i := by
  split
  · exact h
  · exact h'

theorem handlePacket_nextPacketId (packetType : UInt8) (env : CycleEnv) :
    (handlePacket c packetType env).2.nextPacketId = c.nextPacketId := by
  obtain ⟨hpuback, hsuback, hunsuback⟩ := handleAck_nextPacketId c env
  have hpublish := handlePublish_nextPacketId c env
  have hpubrec := handlePubrec_nextPacketId c env
  unfold handlePacket
  repeat' refine ite_nextPacketId ?_ ?_
  all_goals first | assumption | rfl

theorem afterPacket_nextPacketId (packetType : UInt8) (env : CycleEnv) :
    (afterPacket c packetType env).nextPacketId = c.nextPacketId := by
  unfold afterPacket
  split_ifs <;> rfl

theorem cycle_nextPacketId (packetType : UInt8) (env : CycleEnv) :
    (cycleForRead c packetType env).2.2.nextPacketId = c.nextPacketId := by
  obtain ⟨buf, hread⟩ := readMqttPacket_client c packetType env.reads
  have hclient : (readMqttPacket c packetType env.reads).client.nextPacketId = c.nextPacketId := by
    rw [hread]
  unfold cycleForRead
  dsimp only
  split_ifs
  · exact hclient
  · exact hclient
  · rw [afterPacket_nextPacketId, handlePacket_nextPacketId, hclient]

/-! ### The session -/

theorem disconnect_nextPacketId (env : SendEnv) :
    (qcloudIotMqttDisconnect c env).2.nextPacketId = c.nextPacketId := by
  unfold qcloudIotMqttDisconnect
  dsimp only
  split
  · rfl
  split
  · rfl
  · rename_i packet _
    have hsend := sendMqttPacket_nextPacketId
      ((c.getClientConnState.2.lock .writeBuf).write packet) packet.length env
    generalize sendMqttPacket ((c.getClientConnState.2.lock .writeBuf).write packet)
      packet.length env = r at hsend ⊢
    obtain ⟨rc, c'⟩ := r
    dsimp only at hsend ⊢
    split
    · exact hsend
    · exact hsend

theorem handleDisconnect_nextPacketId (env : SendEnv) :
    (handleDisconnect c env).nextPacketId = c.nextPacketId := by
  have hdis := disconnect_nextPacketId c.getClientConnState.2 env
  unfold handleDisconnect
  dsimp only
  split
  · rfl
  · rw [notify_nextPacketId]
    unfold forceDisconnect
    dsimp only
    split_ifs
    · exact hdis
    · exact hdis

theorem sendPing_nextPacketId (length : Nat) : ∀ (retries : Nat) (envs : List SendEnv) (c : Client),
    (sendPing c length retries envs).2.nextPacketId = c.nextPacketId := by
  intro retries
  induction retries with
  | zero =>
    intro envs c
    exact sendMqttPacket_nextPacketId c length (envs.headD {})
  | succ retries ih =>
    intro envs c
    have hsend := sendMqttPacket_nextPacketId c length (envs.headD {})
    unfold sendPing
    dsimp only
    split_ifs
    · rw [ih, hsend]
    · exact hsend

theorem keepAlive_nextPacketId (env : KeepAliveEnv) :
    (mqttKeepAlive c env).2.nextPacketId = c.nextPacketId := by
  unfold mqttKeepAlive
  split_ifs
  · rfl
  · rfl
  · exact handleDisconnect_nextPacketId c env.disconnect
  dsimp only
  split
  · rfl
  · rename_i packet _
    have hping := sendPing_nextPacketId packet.length 3 env.pings ((c.lock .writeBuf).write packet)
    generalize sendPing ((c.lock .writeBuf).write packet) packet.length 3 env.pings = sent at hping ⊢
    split_ifs
    · rw [handleDisconnect_nextPacketId]
      exact hping
    · exact hping

theorem openSession_nextPacketId (options : MqttConnectParams) (env : ConnectEnv) :
    (openSession c options env).2.nextPacketId = c.nextPacketId := by
  unfold openSession
  dsimp only
  split_ifs
  · rfl
  split
  · rfl
  · rename_i packet _
    split_ifs
    · rfl
    · have hsend := sendMqttPacket_nextPacketId
        ((({ c with options := options }.emit .netConnect).lock .writeBuf).write packet)
        packet.length env.send
      exact hsend
    · have hsend := sendMqttPacket_nextPacketId
        ((({ c with options := options }.emit .netConnect).lock .writeBuf).write packet)
        packet.length env.send
      exact hsend

/-- A quiet step takes no id. -/
theorem quiet_nextPacketId {a : Act} (hquiet : a.quiet = true) :
    (act c a).nextPacketId = c.nextPacketId := by
  cases a with
  | subscribe => exact absurd hquiet (by simp [Act.quiet])
  | unsubscribe => exact absurd hquiet (by simp [Act.quiet])
  | publish => exact absurd hquiet (by simp [Act.quiet])
  | cycle => exact absurd hquiet (by simp [Act.quiet])
  | pubInfoProc => exact absurd hquiet (by simp [Act.quiet])
  | subInfoProc => exact absurd hquiet (by simp [Act.quiet])
  | isSubReady topicFilter =>
    simp only [act, qcloudIotMqttIsSubReady]
    split <;> rfl
  | disconnect env => exact disconnect_nextPacketId c env
  | keepAlive env => exact keepAlive_nextPacketId c env
  | handleDisconnect env => exact handleDisconnect_nextPacketId c env
  | getClientConnState => rfl
  | openSession options env => exact openSession_nextPacketId c options env
  | acceptSession clock =>
    simp only [act, acceptSession]
    split
    · rfl
    · split_ifs <;> rfl
  | closeNetwork => rfl
  | countDisconnect => rfl
  | scheduleReconnect => rfl
  | backOff rc clock =>
    simp only [act, backOff]
    split_ifs <;> rfl
  | notifyReconnect => exact notify_nextPacketId c .reconnect 0

end NoId

/-! ## The ids that are pending -/

/-- The packet ids of the valid nodes of a wait list of publishes. -/
def pubIds (nodes : List PubInfo) : List UInt16 :=
  (nodes.filter fun n => n.nodeState = .normal).map (·.msgId)

/-- The same for subscribes and unsubscribes. -/
def subIds (nodes : List SubInfo) : List UInt16 :=
  (nodes.filter fun n => n.nodeState = .normal).map (·.msgId)

/-- The packet ids of the valid nodes of both wait lists. -/
def Client.pendingIds (c : Client) : List UInt16 := pubIds c.listPubWaitAck ++ subIds c.listSubWaitAck

theorem pubIds_sublist {xs ys : List PubInfo} (h : xs.Sublist ys) :
    (pubIds xs).Sublist (pubIds ys) :=
  (h.filter _).map _

theorem subIds_sublist {xs ys : List SubInfo} (h : xs.Sublist ys) :
    (subIds xs).Sublist (subIds ys) :=
  (h.filter _).map _

theorem pubIds_mask (id : UInt16) (nodes : List PubInfo) :
    (pubIds (nodes.map (PubInfo.mask id))).Sublist (pubIds nodes) := by
  induction nodes with
  | nil => exact List.Sublist.slnil
  | cons n nodes ih =>
    by_cases hid : n.msgId = id
    · refine List.Sublist.trans ?_ (pubIds_sublist (List.sublist_cons_self n nodes))
      simpa [pubIds, PubInfo.mask, hid] using ih
    · by_cases hn : n.nodeState = .normal
      · simpa [pubIds, PubInfo.mask, hid, hn] using ih
      · simpa [pubIds, PubInfo.mask, hid, hn] using ih

theorem subIds_mask (id : UInt16) (nodes : List SubInfo) :
    (subIds (nodes.map (SubInfo.mask id))).Sublist (subIds nodes) := by
  induction nodes with
  | nil => exact List.Sublist.slnil
  | cons n nodes ih =>
    by_cases hid : n.msgId = id
    · refine List.Sublist.trans ?_ (subIds_sublist (List.sublist_cons_self n nodes))
      simpa [subIds, SubInfo.mask, hid] using ih
    · by_cases hn : n.nodeState = .normal
      · simpa [subIds, SubInfo.mask, hid, hn] using ih
      · simpa [subIds, SubInfo.mask, hid, hn] using ih

theorem Frame.pendingIds {c c' : Client} (h : Frame c c') : c'.pendingIds = c.pendingIds := by
  rw [Client.pendingIds, Client.pendingIds, h.listPub, h.listSub]

theorem InboundStep.pendingIds {env : CycleEnv} {c c' : Client} {pkt : Inbound}
    (h : InboundStep env c pkt c') : c'.pendingIds.Sublist c.pendingIds := by
  have hacked : ∀ id h, (subIds (ackedSub env id h c.listSubWaitAck).2).Sublist
      (subIds c.listSubWaitAck) := by
    intro id h
    unfold ackedSub
    split
    · rw [maskSubLoop_eq]
      exact subIds_mask id _
    · exact List.Sublist.refl _
  cases h with
  | puback id =>
    refine List.Sublist.append ?_ (List.Sublist.refl _)
    dsimp only
    split
    · exact pubIds_mask id _
    · exact List.Sublist.refl _
  | suback h =>
    rw [h.kept]
    exact (List.Sublist.refl _).append (hacked _ _)
  | unsuback id => exact (List.Sublist.refl _).append (hacked _ _)
  | publish _ h => rw [h.pendingIds]; exact List.Sublist.refl _

/-! ## One step -/

/-- The QoS of a publish is an enumerator of the source's type. -/
def Act.QosNamed : Act → Prop
  | .publish _ (some params) _ => params.qos ≠ .qos3
  | _ => True

/-- The number of packet ids a step takes. -/
def idsTaken (c : Client) (a : Act) : Nat := if (act c a).nextPacketId = c.nextPacketId then 0 else 1

/-- What a step does to the packet ids, with the number it takes. -/
abbrev TakesIds (c c' : Client) : Nat → Prop :=
  Takes Client.pendingIds Client.nextPacketId nextId c c'

section Step

variable {c c' : Client}

theorem takes_of_sublist
    (hlast : c'.nextPacketId = nextId c.nextPacketId ∨ c'.nextPacketId = c.nextPacketId)
    (hsub : c'.pendingIds.Sublist c.pendingIds) :
    TakesIds c c' (if c'.nextPacketId = c.nextPacketId then 0 else 1) := by
  rcases hlast with hlast | hlast
  · rw [if_neg (by rw [hlast]; exact nextId_ne _)]
    exact .lost hlast hsub
  · rw [if_pos hlast]
    exact .none hlast hsub

theorem takes_of_perm (hlast : c'.nextPacketId = nextId c.nextPacketId)
    (hperm : c'.pendingIds.Perm (nextId c.nextPacketId :: c.pendingIds)) :
    TakesIds c c' (if c'.nextPacketId = c.nextPacketId then 0 else 1) := by
  rw [if_neg (by rw [hlast]; exact nextId_ne _)]
  exact .kept hlast hperm

/-- A refused subscribe or unsubscribe. -/
theorem SubRefused.pendingIds (h : SubRefused c c') : c'.pendingIds = c.pendingIds := by
  have hkept := h.kept
  rw [Client.pendingIds, hkept]
  rfl

/-- An accepted one: its id is pending. -/
theorem SubAccepted.pendingIds {node : SubInfo} {packet : Bytes} (h : SubAccepted node packet c c')
    (hn : node.nodeState = .normal) : c'.pendingIds.Perm (node.msgId :: c.pendingIds) := by
  have hids : subIds (c.listSubWaitAck ++ [node]) = subIds c.listSubWaitAck ++ [node.msgId] := by
    simp [subIds, hn]
  rw [Client.pendingIds, h.kept, hids, ← List.append_assoc]
  exact List.perm_append_singleton _ _

theorem PubRefused.pendingIds (h : PubRefused c c') : c'.pendingIds = c.pendingIds := by
  have hkept := h.kept
  rw [Client.pendingIds, hkept]
  rfl

/-- An accepted publish: the ids of its nodes are pending. -/
theorem PubAccepted.pendingIds {nodes : List PubInfo} {packet : Bytes}
    (h : PubAccepted nodes packet c c') :
    c'.pendingIds = pubIds c.listPubWaitAck ++ (pubIds nodes ++ subIds c.listSubWaitAck) := by
  have hids : pubIds (c.listPubWaitAck ++ nodes) = pubIds c.listPubWaitAck ++ pubIds nodes := by
    simp [pubIds]
  rw [Client.pendingIds, h.kept, hids, List.append_assoc]

theorem removeHandlers_pendingIds (topic : Bytes) :
    (removeHandlers c topic).pendingIds = c.pendingIds := by
  rw [removeHandlers_eq]
  rfl

/-- The id of a publish's nodes, for a QoS that the source has. -/
theorem pubIds_pubNodes {params : PublishParams} (hq2 : params.qos ≠ .qos2)
    (hq3 : params.qos ≠ .qos3) (env : CallEnv) :
    pubIds (pubNodes c params.qos (publishId c params) env) =
      if params.qos = .qos1 then [nextId c.nextPacketId] else [] := by
  rw [publishId, getNextPacketId_fst]
  cases hq : params.qos with
  | qos0 => rfl
  | qos1 => rfl
  | qos2 => exact absurd hq hq2
  | qos3 => exact absurd hq hq3

/-- The ids pending after a publish that is granted. -/
theorem publishGranted_pendingIds {topicName : Option Bytes} {pParams : Option PublishParams}
    {env : CallEnv} {topic : Bytes} {params : PublishParams} {packet : Bytes}
    (hg : PublishGranted c topicName pParams env topic params packet) :
    (publishAct c topicName pParams env).pendingIds = pubIds c.listPubWaitAck ++
      (pubIds (pubNodes c params.qos (publishId c params) env) ++ subIds c.listSubWaitAck) := by
  rcases publishAct_cases c topicName pParams env with ⟨topic', params', packet', c1, hg', h, heq⟩ |
    ⟨hno, -⟩
  · obtain rfl := Option.some.inj (hg.params_eq.symm.trans hg'.params_eq)
    have hids : (publishAct c topicName pParams env).pendingIds = c1.pendingIds := by
      rw [heq]
      split <;> rfl
    rw [hids, h.pendingIds]
  · exact absurd hg (hno topic params packet)

/-- A publish takes an id and leaves it pending, or takes one at most. -/
theorem publish_takes (topicName : Option Bytes) (pParams : Option PublishParams) (env : CallEnv)
    (hnamed : Act.QosNamed (.publish topicName pParams env)) :
    TakesIds c (publishAct c topicName pParams env)
      (if (publishAct c topicName pParams env).nextPacketId = c.nextPacketId then 0 else 1) := by
  rcases publishAct_cases c topicName pParams env with ⟨topic, params, packet, -, hg, -, -⟩ |
    ⟨-, h⟩
  · have hpending := publishGranted_pendingIds hg
    obtain rfl := hg.params_eq
    have hlast := (publishAct_nextPacketId c topicName (some params) env).trans
      (publishStarted_nextPacketId c hg.topic_eq hg.qos_ne hg.connected)
    rw [pubIds_pubNodes hg.qos_ne hnamed] at hpending
    by_cases hq : params.qos = .qos1
    · rw [if_pos hq] at hlast hpending
      refine takes_of_perm hlast ?_
      rw [hpending]
      exact List.perm_middle
    · rw [if_neg hq] at hlast hpending
      refine takes_of_sublist (.inr hlast) ?_
      rw [hpending]
      exact List.Sublist.refl _
  · refine takes_of_sublist ?_ (by rw [h.pendingIds])
    rw [publishAct_nextPacketId]
    exact publish_nextPacketId c topicName pParams env

/-- A subscribe or unsubscribe. -/
theorem subRequest_takes {c₁ : Client} {r : Except ReturnCode UInt16}
    (hsame : c₁.pendingIds = c.pendingIds) (hid : c₁.nextPacketId = c.nextPacketId)
    (hlast : c'.nextPacketId = nextId c.nextPacketId ∨
      ((∃ rc, r = .error rc) ∧ c'.nextPacketId = c.nextPacketId))
    (h : (∃ node packet, r = .ok c₁.getNextPacketId.1 ∧ node.nodeState = .normal ∧
        node.msgId = c₁.getNextPacketId.1 ∧ SubAccepted node packet c₁ c') ∨ SubRefused c₁ c') :
    TakesIds c c' (if c'.nextPacketId = c.nextPacketId then 0 else 1) := by
  rcases h with ⟨node, packet, hok, hn, hmsg, hacc⟩ | href
  · rcases hlast with hlast | ⟨⟨rc, herr⟩, -⟩
    · have hperm := hacc.pendingIds hn
      rw [hmsg, getNextPacketId_fst, hid, hsame] at hperm
      exact takes_of_perm hlast hperm
    · exact absurd (herr.symm.trans hok) (by simp)
  · refine takes_of_sublist (hlast.imp_right And.right) ?_
    rw [href.pendingIds, hsame]

/-- **What a step does to the packet ids**: it takes at most one, and only one just taken becomes
pending. -/
theorem act_takes {a : Act} (hheld : c.held = []) (hnamed : a.QosNamed) :
    TakesIds c (act c a) (idsTaken c a) := by
  unfold idsTaken
  by_cases hquiet : a.quiet = true
  · refine takes_of_sublist (.inr (quiet_nextPacketId c hquiet)) ?_
    rw [(act_frame hquiet hheld).pendingIds]
  cases a with
  | subscribe topicFilter pParams env =>
    refine subRequest_takes rfl rfl (subscribe_nextPacketId c topicFilter pParams env) ?_
    rcases subscribe_cases c topicFilter pParams env with ⟨_, _, packet, -, hok, h⟩ | ⟨-, -, h⟩
    · exact .inl ⟨_, packet, hok, rfl, rfl, h⟩
    · exact .inr h
  | unsubscribe topicFilter env =>
    have hlast := unsubscribe_nextPacketId c topicFilter env
    rcases unsubscribe_cases c topicFilter env with ⟨rc, -, heq⟩ |
      ⟨topic, -, ⟨packet, -, hok, h⟩ | ⟨-, -, h⟩⟩
    · refine takes_of_sublist (hlast.imp_right And.right) ?_
      simp only [act, heq]
      exact List.Sublist.refl _
    · have hid := removeHandlers_nextPacketId c topic
      refine subRequest_takes (removeHandlers_pendingIds topic) hid hlast
        (.inl ⟨_, packet, ?_, rfl, ?_, h⟩)
      · rw [hok, getNextPacketId_fst, getNextPacketId_fst, hid]
      · simp only [subNode, getNextPacketId_fst, hid]
    · exact subRequest_takes (removeHandlers_pendingIds topic)
        (removeHandlers_nextPacketId c topic) hlast (.inr h)
  | publish topicName pParams env => exact publish_takes topicName pParams env hnamed
  | cycle packetType env =>
    refine takes_of_sublist (.inr (cycle_nextPacketId c packetType env)) ?_
    rcases cycle_cases packetType env hheld with ⟨pkt, c1, c2, -, h1, hstep, h2⟩ | ⟨-, h⟩
    · have hsub := hstep.pendingIds
      rw [h1.pendingIds] at hsub
      simp only [act, h2.pendingIds]
      exact hsub
    · simp only [act, h.pendingIds]
      exact List.Sublist.refl _
  | pubInfoProc env =>
    have hkept : (keptPubs c env).Sublist c.listPubWaitAck := by
      unfold keptPubs
      split
      · exact tailFilter_sublist _
      · exact List.Sublist.refl _
    have heq : act c (.pubInfoProc env) = _ := pubInfoProc_eq c env
    rw [heq]
    exact takes_of_sublist (.inr rfl) ((pubIds_sublist hkept).append (List.Sublist.refl _))
  | subInfoProc env =>
    have hkept : (keptSubs c env).Sublist c.listSubWaitAck := by
      unfold keptSubs
      split
      · exact tailFilter_sublist _
      · exact List.Sublist.refl _
    have heq : act c (.subInfoProc env) = _ := subInfoProc_eq c env
    rw [heq]
    exact takes_of_sublist (.inr rfl) ((List.Sublist.refl _).append (subIds_sublist hkept))
  | _ => exact absurd rfl hquiet

end Step

/-! ## Runs -/

/-- **Pending packet ids**: none is 0, and in a run in which none stays pending while 65535 ids are
taken they are distinct. -/
theorem pendingIds_of_run (eventHandle : Option FnPtr) (nextPacketId : UInt16)
    (commandTimeoutMs : Nat) (options : MqttConnectParams) (as : List Act)
    (hnamed : ∀ a ∈ as, a.QosNamed) :
    let c := Client.init eventHandle nextPacketId commandTimeoutMs options
    (∀ id ∈ (run act c as).pendingIds, id ≠ 0) ∧
      (Timely act Client.pendingIds idsTaken 65535 c as → (run act c as).pendingIds.Nodup) := by
  intro c
  have hstep : ∀ (c : Client) (a : Act), c.held = [] → a.QosNamed → (act c a).held = [] ∧
      TakesIds c (act c a) (idsTaken c a) :=
    fun c a hheld ha => ⟨(act_sameThread a hheld).held.trans hheld, act_takes hheld ha⟩
  have hmeets : Meets act (fun _ a => Act.QosNamed a) c as := meets_of_forall hnamed
  refine ⟨fun id hid => ?_, fun htimely => ?_⟩
  · obtain ⟨j, rfl⟩ := pending_next_of_run hstep rfl rfl hmeets id hid
    exact nextId_ne_zero j
  · exact pending_nodup_of_run hstep (fun i k => (iterate_nextId_eq_iff i k).mp) rfl rfl hmeets
      htimely


theorem idsTaken_le (c : Client) (a : Act) : idsTaken c a ≤ 1 := by
  unfold idsTaken
  split <;> omega

/-- Two publishes in a row. -/
theorem pendingIds_twoPublishes :
    (run act freshClient (sessionActs ++ [publishOnce, publishOnce])).pendingIds.Nodup :=
  (pendingIds_of_run (some 1) 0 5000 ⟨60, true⟩ (sessionActs ++ [publishOnce, publishOnce])
    (by simp [sessionActs, publishOnce, Act.QosNamed])).2
      (timely_of_length idsTaken_le freshClient (by decide))

/-! ### A full round of the counter -/

/-- A QoS 1 publish to topic "t" that the network does not take. -/
def failedPublish : Act := .publish (some [116]) (some { qos := .qos1, payload := some [] }) {}

/-- It takes an id, and leaves the wait lists and the connection alone. -/
theorem act_failedPublish {c : Client} (hconn : c.isConnected = true) :
    ∃ buf log, act c failedPublish =
      { c with nextPacketId := nextId c.nextPacketId, writeBuf := buf, log := log } := by
  have hid := (publishAct_nextPacketId c (some [116]) (some { qos := .qos1, payload := some [] }) {}).trans
    (publishStarted_nextPacketId c (show checkTopic (some [116]) = .ok [116] by decide) (by decide)
      hconn)
  rcases publishAct_cases c (some [116]) (some { qos := .qos1, payload := some [] }) {} with
    ⟨topic, params, packet, c1, hg, -, -⟩ | ⟨-, h⟩
  · -- the network takes no packet that is not empty
    obtain rfl := Option.some.inj hg.params_eq
    obtain ⟨header, -, rfl⟩ := serializePublish_ok hg.packet_eq
    obtain ⟨-, -, hend⟩ := hg.grants.delivers
    exact absurd hend (by simp [sendLoop, sendEnd])
  · exact ⟨_, _, by rw [← show _ = nextId c.nextPacketId from hid]; exact h.kept⟩

/-- So do many of them. -/
theorem run_failedPublish {c : Client} (hconn : c.isConnected = true) : ∀ n : Nat,
    ∃ buf log, run act c (List.replicate n failedPublish) =
      { c with nextPacketId := nextId^[n] c.nextPacketId, writeBuf := buf, log := log } := by
  intro n
  induction n with
  | zero => exact ⟨_, _, rfl⟩
  | succ n ih =>
    obtain ⟨buf, log, hrun⟩ := ih
    obtain ⟨buf', log', hact⟩ := act_failedPublish
      (c := { c with nextPacketId := nextId^[n] c.nextPacketId, writeBuf := buf, log := log }) hconn
    refine ⟨buf', log', ?_⟩
    rw [List.replicate_succ', run_append, hrun, run_cons, run_nil, hact, Function.iterate_succ_apply']

/-- The client after `publishOnce`, which waits for its PUBACK. -/
def waitingClient : Client := run act freshClient (sessionActs ++ [publishOnce])

/-- **Two publishes may wait under one packet id**: 65534 failed ones between them are enough. -/
theorem pendingIds_clash : (run act freshClient (sessionActs ++ [publishOnce] ++
    List.replicate 65534 failedPublish ++ [publishOnce])).pendingIds = [1, 1] := by
  have hconn : waitingClient.isConnected = true := by decide
  obtain ⟨buf, log, hrun⟩ := run_failedPublish hconn 65534
  have hlast : nextId^[65534] waitingClient.nextPacketId = 65535 := by
    have hone : waitingClient.nextPacketId = 1 := by decide
    rw [hone, ← UInt16.toNat_inj, toNat_iterate_nextId]
    rfl
  rw [hlast] at hrun
  have hrun' : run act freshClient (sessionActs ++ [publishOnce] ++
      List.replicate 65534 failedPublish) =
        { waitingClient with nextPacketId := 65535, writeBuf := buf, log := log } := by
    rw [run_append]
    exact hrun
  have hsize : waitingClient.writeBufSize = 2048 := by decide
  have hlist : waitingClient.listPubWaitAck.length = 1 := by decide
  have hids : pubIds waitingClient.listPubWaitAck = [1] ∧
      subIds waitingClient.listSubWaitAck = [] := by decide
  rw [run_append, hrun', run_cons, run_nil]
  have hg : PublishGranted { waitingClient with nextPacketId := 65535, writeBuf := buf, log := log }
      (some [116]) (some { qos := .qos1, payload := some [] })
      { send := { writes := [(.retSuccess, 7)] } } [116] { qos := .qos1, payload := some [] }
      [50, 5, 0, 1, 116, 0, 1] := by
    refine ⟨rfl, by decide, by decide, hconn, ?_, fun _ => ⟨?_, ?_, rfl, rfl⟩, ?_⟩
    · show serializePublishPacket waitingClient.writeBufSize 0 .qos1 0 1 [116] (some []) = _
      rw [hsize]
      decide
    · dsimp only
      rw [hsize]
      decide
    · dsimp only
      rw [hlist]
      decide
    · dsimp only
      rw [hsize]
      decide
  refine (publishGranted_pendingIds hg).trans ?_
  dsimp only
  rw [hids.1, hids.2]
  rfl

end QcloudIot.Mqtt
