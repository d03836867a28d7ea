import QcloudIot.Mqtt.Transport

/-!
# Requests of the application

`qcloud_iot_mqtt_subscribe`, `qcloud_iot_mqtt_unsubscribe`, `qcloud_iot_mqtt_publish`,
`qcloud_iot_mqtt_resubscribe` and `qcloud_iot_mqtt_is_sub_ready`, with the two functions that put a
node on a wait list (`push_sub_info_to`, `_mask_push_pubInfo_to`).

A node pointer into a wait list is the node's index. Subscribe and unsubscribe end alike, from
the allocation of the stored filter on (`sendSubRequest`).

Results, one specification lemma for each function:
* `sendSubRequest_cases`: the request is accepted, with one more node and one more packet sent, or
  refused with all the books as before;
* `publish_cases`, `unsubscribe_cases`, `subscribe_cases` for the calls.
-/

namespace QcloudIot.Mqtt

/-- What a request meets: whether each allocation succeeds, the clock, the network, and the `qos`
that unsubscribe leaves unset in its handle. -/
structure CallEnv where
  mallocFilter : Bool := true
  mallocInfo : Bool := true
  mallocNode : Bool := true
  clock : Nat := 0
  send : SendEnv := {}
  junkQos : QoS := .qos0
  deriving DecidableEq, Repr

/-! ## The wait lists -/

/-- `push_sub_info_to`; the node it hands out is the node's index. -/
def pushSubInfoTo (c : Client) (msgId : UInt16) (type : MessageTypes) (handler : SubTopicHandle)
    (env : CallEnv) : Except ReturnCode Nat × Client :=
  let c := c.lock .listSub
  if c.listSubWaitAck.length ≥ maxMessageHandlers then
    (.error .errMqttMaxSubscriptions, c.unlock .listSub)
  else if ¬ env.mallocInfo then (.error .errFailure, c.unlock .listSub)
  else
    let subInfo : SubInfo :=
      ⟨type, msgId, env.clock + c.commandTimeoutMs, .normal, handler⟩
    if ¬ env.mallocNode then (.error .errFailure, c.unlock .listSub)
    else
      let node := c.listSubWaitAck.length
      let c := { c with listSubWaitAck := c.listSubWaitAck ++ [subInfo] }
      (.ok node, c.unlock .listSub)

/-- `_mask_push_pubInfo_to`. -/
def maskPushPubInfoTo (c : Client) (len : Nat) (msgId : UInt16) (env : CallEnv) :
    Except ReturnCode Nat × Client :=
  if len > c.writeBufSize then (.error .errFailure, c)
  else
    let c := c.lock .listPub
    if c.listPubWaitAck.length ≥ maxRepubNum then (.error .errFailure, c.unlock .listPub)
    else if ¬ env.mallocInfo then (.error .errFailure, c.unlock .listPub)
    else
      let repubInfo : PubInfo := ⟨env.clock + c.commandTimeoutMs, .normal, msgId⟩
      if ¬ env.mallocNode then (.error .errFailure, c.unlock .listPub)
      else
        let node := c.listPubWaitAck.length
        let c := { c with listPubWaitAck := c.listPubWaitAck ++ [repubInfo] }
        (.ok node, c.unlock .listPub)

/-! ## Subscribing and unsubscribing -/

/-- `SubscribeParams`. -/
structure SubscribeParams where
  qos : QoS := .qos0
  onMessageHandler : Option FnPtr := none
  onSubEventHandler : Option FnPtr := none
  userData : Nat := 0
  deriving DecidableEq, Repr

/-- `STRING_PTR_SANITY_CHECK` and the test of the length; NULL is `none`. -/
def checkTopic : Option Bytes → Except ReturnCode Bytes
  | none => .error .errInval
  | some topic =>
    if topic.length = 0 then .error .errInval
    else if topic.length > maxSizeOfCloudTopic then .error .errMaxTopicLength
    else .ok topic

/-- The end of `qcloud_iot_mqtt_subscribe` and of `qcloud_iot_mqtt_unsubscribe`, with the node on
the wait list: the packet is sent, or the node removed and the stored filter freed. -/
def sendSubPacket (c : Client) (packetId : UInt16) (stored : StoredFilter) (node len : Nat)
    (env : SendEnv) : Except ReturnCode UInt16 × Client :=
  let (rc, c) := sendMqttPacket c len env
  if rc ≠ .retSuccess then
    let c := c.lock .listSub
    let c := { c with listSubWaitAck := c.listSubWaitAck.eraseIdx node }
    (.error rc, ((c.unlock .listSub).unlock .writeBuf).free (some stored))
  else (.ok packetId, c.unlock .writeBuf)

/-- What `qcloud_iot_mqtt_subscribe` and `qcloud_iot_mqtt_unsubscribe` do from the allocation of
the stored filter on: the packet by `serialize`, the node of type `type` with the handle `handle`
for the stored filter, the sending, and the way back when one of them fails. -/
def sendSubRequest (type : MessageTypes) (handle : StoredFilter → SubTopicHandle)
    (serialize : (writeBufSize : Nat) → (packetId : UInt16) → Bytes → Except ReturnCode Bytes)
    (c : Client) (topicFilter : Bytes) (env : CallEnv) : Except ReturnCode UInt16 × Client :=
  if ¬ env.mallocFilter then (.error .errFailure, c)
  else
    let stored : StoredFilter := ⟨c.nextAddr, topicFilter⟩
    let c := { c with nextAddr := c.nextAddr + 1 }.lock .writeBuf
    let (packetId, c) := c.getNextPacketId
    match serialize c.writeBufSize packetId topicFilter with
    | .error rc => (.error rc, (c.unlock .writeBuf).free (some stored))
    | .ok packet =>
      match pushSubInfoTo (c.write packet) packetId type (handle stored) env with
      | (.error rc, c) => (.error rc, (c.unlock .writeBuf).free (some stored))
      | (.ok node, c) => sendSubPacket c packetId stored node packet.length env.send

/-- The handle that subscribe puts on the wait list. -/
def SubscribeParams.handle (pParams : SubscribeParams) (stored : StoredFilter) : SubTopicHandle where
  topicFilter := some stored
  messageHandler := pParams.onMessageHandler
  subEventHandler := pParams.onSubEventHandler
  qos := pParams.qos
  handlerUserData := pParams.userData

/-- `qcloud_iot_mqtt_subscribe`. -/
def qcloudIotMqttSubscribe (c : Client) (topicFilter : Option Bytes)
    (pParams : Option SubscribeParams) (env : CallEnv) : Except ReturnCode UInt16 × Client :=
  match pParams with
  | none => (.error .errInval, c)
  | some params =>
    match checkTopic topicFilter with
    | .error rc => (.error rc, c)
    | .ok topicFilter =>
      if params.qos = .qos2 then (.error .errMqttQosNotSupport, c)
      else
        let (connected, c) := c.getClientConnState
        if ¬ connected then (.error .errMqttNoConn, c)
        else
          sendSubRequest .subscribe params.handle
            (fun size packetId topic => serializeSubscribePacket size 0 packetId 1 [topic] [params.qos])
            c topicFilter env

/-- `strstr(s, pat) != NULL`. -/
def strstr (s pat : Bytes) : Bool := s.tails.any (pat.isPrefixOf ·)

/-- `strstr(topicFilter, "/#") != NULL || strstr(topicFilter, "/+") != NULL`. -/
def hasWildcard (topicFilter : Bytes) : Bool := strstr topicFilter [47, 35] || strstr topicFilter [47, 43]

/-- The condition on a slot by which unsubscribe and `is_sub_ready` find the argument: the slot's
string equals it, or it has a wildcard. -/
def slotMatches (topicFilter : Bytes) (slot : SubTopicHandle) : Bool :=
  (match slot.topicFilter with
    | some f => f.str == topicFilter
    | none => false) || hasWildcard topicFilter

/-- The loop of `qcloud_iot_mqtt_unsubscribe` over the slots: each one found is reported to its
`sub_event_handler`, its string is freed and the pointer set to NULL. Iteration `i` reads and
writes slot `i` only. -/
def clearSlots (topicFilter : Bytes) (c : Client) : List SubTopicHandle → List SubTopicHandle × Client
  | [] => ([], c)
  | slot :: slots =>
    if slotMatches topicFilter slot then
      let c := (c.notifySub slot .unsubscribe).free slot.topicFilter
      let (slots, c) := clearSlots topicFilter c slots
      ({ slot with topicFilter := none } :: slots, c)
    else
      let (slots, c) := clearSlots topicFilter c slots
      (slot :: slots, c)

/-- A slot after the loop. -/
def clearSlot (topicFilter : Bytes) (slot : SubTopicHandle) : SubTopicHandle :=
  if slotMatches topicFilter slot then { slot with topicFilter := none } else slot

theorem clearSlots_fst (f : Bytes) : ∀ (slots : List SubTopicHandle) (c : Client),
    (clearSlots f c slots).1 = slots.map (clearSlot f) := by
  intro slots
  induction slots with
  | nil => intro c; rfl
  | cons s slots ih =>
    intro c
    simp only [clearSlots, List.map_cons, clearSlot]
    split <;> simp [ih]

/-- The part of `qcloud_iot_mqtt_unsubscribe` under `lock_generic`: remove from message handler
array. -/
def removeHandlers (c : Client) (topicFilter : Bytes) : Client :=
  let r := clearSlots topicFilter (c.lock .generic) c.subHandles.slots
  { r.2 with subHandles :=
    ⟨r.1, by rw [clearSlots_fst, List.length_map, c.subHandles.length_eq]⟩ }.unlock .generic

/-- The handle that unsubscribe puts on the wait list; its `qos` is never set. -/
def unsubscribeHandle (junkQos : QoS) (stored : StoredFilter) : SubTopicHandle where
  topicFilter := some stored
  qos := junkQos

/-- `qcloud_iot_mqtt_unsubscribe`. -/
def qcloudIotMqttUnsubscribe (c : Client) (topicFilter : Option Bytes) (env : CallEnv) :
    Except ReturnCode UInt16 × Client :=
  match checkTopic topicFilter with
  | .error rc => (.error rc, c)
  | .ok topicFilter =>
    let suberExists := c.subHandles.slots.any (slotMatches topicFilter)
    let c := removeHandlers c topicFilter
    if suberExists = false then (.error .errMqttUnsubFail, c)
    else
      let (connected, c) := c.getClientConnState
      if ¬ connected then (.error .errMqttNoConn, c)
      else
        sendSubRequest .unsubscribe (unsubscribeHandle env.junkQos)
          (fun size packetId topic => serializeUnsubscribePacket size 0 packetId 1 [topic])
          c topicFilter env

/-- `qcloud_iot_mqtt_is_sub_ready`. -/
def qcloudIotMqttIsSubReady (c : Client) (topicFilter : Option Bytes) : Bool × Client :=
  match checkTopic topicFilter with
  | .error _ => (false, c)
  | .ok topicFilter =>
    (c.subHandles.slots.any (slotMatches topicFilter), (c.lock .generic).unlock .generic)

/-- The loop of `qcloud_iot_mqtt_resubscribe`, over the slots still to visit; `envs` are what the
subscribe calls meet. -/
def resubscribeLoop : (slots : List SubTopicHandle) → Client → List CallEnv → ReturnCode × Client
  | [], c, _ => (.retSuccess, c)
  | slot :: slots, c, envs =>
    match slot.topicFilter with
    | none => resubscribeLoop slots c envs
    | some topic =>
      let params : SubscribeParams :=
        ⟨slot.qos, slot.messageHandler, slot.subEventHandler, slot.handlerUserData⟩
      match qcloudIotMqttSubscribe c (some topic.str) (some params) (envs.headD {}) with
      | (.error rc, c) => (rc, c)
      | (.ok _, c) => resubscribeLoop slots c envs.tail

/-- `qcloud_iot_mqtt_resubscribe`. -/
def qcloudIotMqttResubscribe (c : Client) (envs : List CallEnv) : ReturnCode × Client :=
  let (connected, c) := c.getClientConnState
  if ¬ connected then (.errMqttNoConn, c)
  else resubscribeLoop c.subHandles.slots c envs

/-! ## Publishing -/

/-- `PublishParams`; a `payload` of `none` is NULL, and `payload_len` is its length. -/
structure PublishParams where
  qos : QoS := .qos0
  retained : UInt8 := 0
  id : UInt16 := 0
  payload : Option Bytes := none
  deriving DecidableEq, Repr

/-- The end of `qcloud_iot_mqtt_publish`: the packet is sent, or the node, if there is one,
removed. -/
def sendPubPacket (c : Client) (id : UInt16) (node : Option Nat) (len : Nat) (env : SendEnv) :
    Except ReturnCode UInt16 × Client :=
  let (rc, c) := sendMqttPacket c len env
  if rc ≠ .retSuccess then
    match node with
    | some node =>
      let c := c.lock .listPub
      let c := { c with listPubWaitAck := c.listPubWaitAck.eraseIdx node }
      (.error rc, (c.unlock .listPub).unlock .writeBuf)
    | none => (.error rc, c.unlock .writeBuf)
  else (.ok id, c.unlock .writeBuf)

/-- `qcloud_iot_mqtt_publish` from the serialisation on, with the packet id. -/
def sendPublish (c : Client) (params : PublishParams) (topicName : Bytes) (id : UInt16)
    (env : CallEnv) : Except ReturnCode UInt16 × Client :=
  match serializePublishPacket c.writeBufSize 0 params.qos params.retained id topicName
      params.payload with
  | .error rc => (.error rc, c.unlock .writeBuf)
  | .ok packet =>
    let c := c.write packet
    if params.qos.toNat > 0 then
      match maskPushPubInfoTo c packet.length id env with
      | (.error rc, c) => (.error rc, c.unlock .writeBuf)
      | (.ok node, c) => sendPubPacket c id (some node) packet.length env.send
    else sendPubPacket c id none packet.length env.send

/-- `qcloud_iot_mqtt_publish`. -/
def qcloudIotMqttPublish (c : Client) (topicName : Option Bytes) (pParams : Option PublishParams)
    (env : CallEnv) : Except ReturnCode UInt16 × Client :=
  match pParams with
  | none => (.error .errInval, c)
  | some params =>
    match checkTopic topicName with
    | .error rc => (.error rc, c)
    | .ok topicName =>
      if params.qos = .qos2 then (.error .errMqttQosNotSupport, c)
      else
        let (connected, c) := c.getClientConnState
        if ¬ connected then (.error .errMqttNoConn, c)
        else
          let c := c.lock .writeBuf
          if params.qos = .qos1 then
            let (id, c) := c.getNextPacketId
            sendPublish c params topicName id env
          else sendPublish c params topicName params.id env

/-! ## What a request does -/

/-- The request left the client as it was, but for the packet id, the write buffer and the log. -/
def Kept (c c' : Client) : Prop :=
  c' = { c with
    nextPacketId := c'.nextPacketId, writeBuf := c'.writeBuf, log := c'.log, nextAddr := c'.nextAddr }

/-- A refused subscribe or unsubscribe: nothing is sent, and the filter string it had allocated, if
it got that far, is freed again. -/
structure SubRefused (c c' : Client) : Prop where
  kept : Kept c c'
  log : (c'.nextAddr = c.nextAddr ∧ Logged c.log c'.log [] []) ∨
    (c'.nextAddr = c.nextAddr + 1 ∧ Logged c.log c'.log [c.nextAddr] [])

/-- Nothing but the freed string shows in the log. -/
theorem SubRefused.logged {c c' : Client} (h : SubRefused c c') :
    ∃ freed, Logged c.log c'.log freed [] :=
  h.log.elim (fun h => ⟨_, h.2⟩) fun h => ⟨_, h.2⟩

/-- An accepted one: `node` is the last of the wait list, and `packet` has been sent. -/
structure SubAccepted (node : SubInfo) (packet : Bytes) (c c' : Client) : Prop where
  kept : c' = { c with
    nextPacketId := c'.nextPacketId, writeBuf := c'.writeBuf, log := c'.log
    nextAddr := c.nextAddr + 1, listSubWaitAck := c.listSubWaitAck ++ [node] }
  log : Logged c.log c'.log [] [packet]

/-- What the environment has to grant a subscribe or unsubscribe that sends `packet`: memory, a
place in the wait list, and the network. -/
structure CallEnv.Grants (env : CallEnv) (c : Client) (packet : Bytes) : Prop where
  mallocFilter : env.mallocFilter = true
  room : c.listSubWaitAck.length < maxMessageHandlers
  mallocInfo : env.mallocInfo = true
  mallocNode : env.mallocNode = true
  delivers : env.send.Delivers c.writeBufSize packet.length

section SubRequest

variable (c : Client) (msgId : UInt16) (type : MessageTypes) (handler : SubTopicHandle)
variable {env : CallEnv}

/-- `push_sub_info_to` when there is room and memory. -/
theorem pushSub_ok (hroom : c.listSubWaitAck.length < maxMessageHandlers)
    (hinfo : env.mallocInfo = true) (hnode : env.mallocNode = true) :
    pushSubInfoTo c msgId type handler env = (.ok c.listSubWaitAck.length, { c with
      listSubWaitAck := c.listSubWaitAck ++
        [⟨type, msgId, env.clock + c.commandTimeoutMs, .normal, handler⟩]
      log := c.log ++ [.lock .listSub, .unlock .listSub] }) := by
  unfold pushSubInfoTo
  simp [Client.lock, Client.unlock, hinfo, hnode, Nat.not_le.mpr hroom]

/-- `push_sub_info_to` when there is not. -/
theorem pushSub_error (h : ¬ (c.listSubWaitAck.length < maxMessageHandlers ∧
    env.mallocInfo = true ∧ env.mallocNode = true)) :
    ∃ rc, pushSubInfoTo c msgId type handler env =
      (.error rc, { c with log := c.log ++ [.lock .listSub, .unlock .listSub] }) := by
  unfold pushSubInfoTo
  by_cases hroom : c.listSubWaitAck.length < maxMessageHandlers
  · by_cases hinfo : env.mallocInfo = true
    · have hnode : env.mallocNode = false := by simpa [hroom, hinfo] using h
      exact ⟨.errFailure, by
        simp [Client.lock, Client.unlock, hinfo, hnode, Nat.not_le.mpr hroom]⟩
    · exact ⟨.errFailure, by simp [Client.lock, Client.unlock, hinfo, Nat.not_le.mpr hroom]⟩
  · exact ⟨.errMqttMaxSubscriptions, by
      simp [Client.lock, Client.unlock, Nat.not_lt.mp hroom]⟩

/-- The end of a request whose node is on the wait list: with the packet sent only the lock is
given back, otherwise the node goes and its filter is freed. -/
theorem sendSubPacket_cases (packetId : UInt16) (stored : StoredFilter) {len : Nat}
    (env : SendEnv) {nodes : List SubInfo} {node : SubInfo} {packet : Bytes} {held : List Lock}
    (hl : c.listSubWaitAck = nodes ++ [node]) (hh : c.held = .writeBuf :: held)
    (hb : c.writeBuf.load 0 len = packet) :
    (env.Delivers c.writeBufSize len ∧ ∃ log,
      sendSubPacket c packetId stored nodes.length len env =
        (.ok packetId, { c with held := held, log := log }) ∧ Logged c.log log [] [packet]) ∨
    (¬ env.Delivers c.writeBufSize len ∧ ∃ rc log,
      sendSubPacket c packetId stored nodes.length len env =
        (.error rc, { c with held := held, listSubWaitAck := nodes, log := log }) ∧
      Logged c.log log [stored.addr] []) := by
  unfold sendSubPacket
  obtain ⟨hd, log, hsend, hlog⟩ | ⟨hd, rc, log, hrc, hsend, hlog⟩ := sendMqttPacket_cases c len env
  · refine Or.inl ⟨hd, log ++ [.unlock .writeBuf], ?_,
      hb ▸ hlog.trans (Logged.append log [.unlock .writeBuf] rfl rfl rfl)⟩
    rw [hsend]
    simp [Client.unlock, hh]
  · refine Or.inr ⟨hd, rc, log ++ [.lock .listSub, .unlock .listSub, .unlock .writeBuf,
      .free stored.addr], ?_, hlog.trans (Logged.append log [.lock .listSub, .unlock .listSub,
        .unlock .writeBuf, .free stored.addr] rfl rfl rfl)⟩
    rw [hsend]
    simp [Client.lock, Client.unlock, Client.free, Client.emit, hrc, hh, hl,
      List.eraseIdx_append_of_length_le]

/-- The node an accepted request leaves in the wait list. -/
def subNode (type : MessageTypes) (handle : StoredFilter → SubTopicHandle) (c : Client)
    (topicFilter : Bytes) (env : CallEnv) : SubInfo :=
  ⟨type, c.getNextPacketId.1, env.clock + c.commandTimeoutMs, .normal,
    handle ⟨c.nextAddr, topicFilter⟩⟩

/-- The client once the request has its packet id: the stored filter allocated, the write buffer
locked. -/
def subStart (c : Client) : Client := { c with
  nextAddr := c.nextAddr + 1
  nextPacketId := c.getNextPacketId.1
  held := .writeBuf :: c.held
  log := c.log ++ [.lock .writeBuf, .lock .generic, .unlock .generic] }

theorem subStart_eq (c : Client) :
    ({ c with nextAddr := c.nextAddr + 1 }.lock .writeBuf).getNextPacketId =
      (c.getNextPacketId.1, subStart c) := by
  simp [subStart, Client.getNextPacketId, Client.lock, Client.unlock]
  rfl

/-- The client once the packet is written and the node is on the wait list. -/
def subPushed (type : MessageTypes) (handle : StoredFilter → SubTopicHandle) (c : Client)
    (topicFilter packet : Bytes) (env : CallEnv) : Client :=
  { (subStart c).write packet with
    listSubWaitAck := c.listSubWaitAck ++ [subNode type handle c topicFilter env]
    log := (subStart c).log ++ [.lock .listSub, .unlock .listSub] }

/-- **What the end of a subscribe or unsubscribe does**: it succeeds iff the packet fits the write
buffer and the environment grants it. -/
theorem sendSubRequest_cases (type : MessageTypes) (handle : StoredFilter → SubTopicHandle)
    (serialize : Nat → UInt16 → Bytes → Except ReturnCode Bytes) (c : Client) (topicFilter : Bytes)
    (env : CallEnv) :
    (∃ packet, serialize c.writeBufSize c.getNextPacketId.1 topicFilter = .ok packet ∧
      env.Grants c packet ∧
      (sendSubRequest type handle serialize c topicFilter env).1 = .ok c.getNextPacketId.1 ∧
      SubAccepted (subNode type handle c topicFilter env) packet c
        (sendSubRequest type handle serialize c topicFilter env).2) ∨
    ((∀ packet, serialize c.writeBufSize c.getNextPacketId.1 topicFilter = .ok packet →
        ¬ env.Grants c packet) ∧
      (∃ rc, (sendSubRequest type handle serialize c topicFilter env).1 = .error rc) ∧
      SubRefused c (sendSubRequest type handle serialize c topicFilter env).2) := by
  by_cases hm : env.mallocFilter = true
  swap
  · refine Or.inr ⟨fun packet _ hg => hm hg.mallocFilter, ?_⟩
    simp only [sendSubRequest, hm]
    exact ⟨⟨_, rfl⟩, rfl, Or.inl ⟨rfl, Logged.refl c.log⟩⟩
  simp only [sendSubRequest, hm, not_true_eq_false, if_false, subStart_eq]
  have hsize : (subStart c).writeBufSize = c.writeBufSize := rfl
  have hstart : Logged c.log (subStart c).log [] [] :=
    Logged.append c.log [.lock .writeBuf, .lock .generic, .unlock .generic] rfl rfl rfl
  rw [hsize]
  cases hs : serialize c.writeBufSize c.getNextPacketId.1 topicFilter with
  | error rc =>
    refine Or.inr ⟨fun packet h => absurd h (by simp), ⟨rc, rfl⟩, ?_, Or.inr ⟨rfl, ?_⟩⟩
    · simp [Kept, subStart, Client.unlock, Client.free, Client.emit]
    · constructor <;> simp [subStart, Client.free]
  | ok packet =>
    simp only
    by_cases hroom : c.listSubWaitAck.length < maxMessageHandlers ∧ env.mallocInfo = true ∧
        env.mallocNode = true
    swap
    · obtain ⟨rc, hpush⟩ := pushSub_error ((subStart c).write packet) c.getNextPacketId.1 type
        (handle ⟨c.nextAddr, topicFilter⟩) hroom
      simp only [hpush]
      refine Or.inr ⟨fun packet' _ hg => hroom ⟨hg.room, hg.mallocInfo, hg.mallocNode⟩, ⟨rc, rfl⟩,
        ?_, Or.inr ⟨rfl, ?_⟩⟩
      · simp [Kept, subStart, Client.write, Client.unlock, Client.free, Client.emit]
      · constructor <;> simp [subStart, Client.free]
    · obtain ⟨hlen, hinfo, hnode⟩ := hroom
      have hpush : pushSubInfoTo ((subStart c).write packet) c.getNextPacketId.1 type
          (handle ⟨c.nextAddr, topicFilter⟩) env =
            (.ok c.listSubWaitAck.length, subPushed type handle c topicFilter packet env) :=
        pushSub_ok ((subStart c).write packet) _ _ _ hlen hinfo hnode
      have hpushed := hstart.trans (Logged.append (subStart c).log
        [.lock .listSub, .unlock .listSub] rfl rfl rfl)
      simp only [hpush]
      rcases sendSubPacket_cases (subPushed type handle c topicFilter packet env)
        c.getNextPacketId.1 ⟨c.nextAddr, topicFilter⟩ env.send
        rfl rfl (Mem.load_store (subStart c).writeBuf 0 packet)
        with ⟨hd, log, hout, hlog⟩ | ⟨hd, rc, log, hout, hlog⟩
      · exact Or.inl ⟨packet, rfl, ⟨hm, hlen, hinfo, hnode, hd⟩, by rw [hout], by rw [hout]; rfl,
          by rw [hout]; exact hpushed.trans hlog⟩
      · refine Or.inr ⟨fun packet' h hg => ?_, ⟨rc, by rw [hout]⟩, by rw [hout]; rfl,
          by rw [hout]; exact Or.inr ⟨rfl, hpushed.trans hlog⟩⟩
        rw [Except.ok.injEq] at h
        exact hd (h ▸ hg.delivers)

end SubRequest

/-- The way to the request's end logs no more than the question for the connection. -/
theorem SubRefused.of_log {c c' : Client} {log : List Ev} (hlog : Logged c.log log [] [])
    (h : SubRefused { c with log := log } c') : SubRefused c c' :=
  ⟨h.kept, h.log.imp (fun h => ⟨h.1, hlog.trans h.2⟩) fun h => ⟨h.1, hlog.trans h.2⟩⟩

theorem SubAccepted.of_log {node : SubInfo} {packet : Bytes} {c c' : Client} {log : List Ev}
    (hlog : Logged c.log log [] []) (h : SubAccepted node packet { c with log := log } c') :
    SubAccepted node packet c c' :=
  ⟨h.kept, hlog.trans h.log⟩

/-- An argument that passes the check is the string itself. -/
theorem checkTopic_ok {f topic : Bytes} (h : checkTopic (some f) = .ok topic) : topic = f := by
  unfold checkTopic at h
  simp only at h
  split at h
  · exact absurd h (by simp)
  · split at h
    · exact absurd h (by simp)
    · exact (Except.ok.inj h).symm

/-- What a subscribe call has to bring and to meet. -/
structure SubscribeGranted (c : Client) (topicFilter : Option Bytes)
    (pParams : Option SubscribeParams) (env : CallEnv) (topic : Bytes) (params : SubscribeParams)
    (packet : Bytes) : Prop where
  params_eq : pParams = some params
  topic_eq : checkTopic topicFilter = .ok topic
  qos_ne : params.qos ≠ .qos2
  connected : c.isConnected = true
  packet_eq : serializeSubscribePacket c.writeBufSize 0 c.getNextPacketId.1 1 [topic] [params.qos] =
    .ok packet
  grants : env.Grants c packet

theorem connState_logged (log : List Ev) :
    Logged log (log ++ [.lock .generic, .unlock .generic]) [] [] :=
  Logged.append log _ rfl rfl rfl

/-- **What `qcloud_iot_mqtt_subscribe` does.** -/
theorem subscribe_cases (c : Client) (topicFilter : Option Bytes) (pParams : Option SubscribeParams)
    (env : CallEnv) :
    (∃ topic params packet, SubscribeGranted c topicFilter pParams env topic params packet ∧
      (qcloudIotMqttSubscribe c topicFilter pParams env).1 = .ok c.getNextPacketId.1 ∧
      SubAccepted (subNode .subscribe params.handle c topic env) packet c
        (qcloudIotMqttSubscribe c topicFilter pParams env).2) ∨
    ((∀ topic params packet, ¬ SubscribeGranted c topicFilter pParams env topic params packet) ∧
      (∃ rc, (qcloudIotMqttSubscribe c topicFilter pParams env).1 = .error rc) ∧
      SubRefused c (qcloudIotMqttSubscribe c topicFilter pParams env).2) := by
  have hself : SubRefused c c := ⟨rfl, Or.inl ⟨rfl, Logged.refl c.log⟩⟩
  unfold qcloudIotMqttSubscribe
  cases pParams with
  | none => exact Or.inr ⟨fun _ _ _ h => absurd h.params_eq (by simp), ⟨_, rfl⟩, hself⟩
  | some params =>
    cases ht : checkTopic topicFilter with
    | error rc =>
      exact Or.inr ⟨fun _ _ _ h => absurd (ht.symm.trans h.topic_eq) (by simp), ⟨_, rfl⟩, hself⟩
    | ok topic =>
      simp only
      by_cases hq : params.qos = .qos2
      · rw [if_pos hq]
        refine Or.inr ⟨fun _ _ _ h => h.qos_ne ?_, ⟨_, rfl⟩, hself⟩
        rw [← Option.some.inj h.params_eq, hq]
      rw [if_neg hq, Client.getClientConnState_eq]
      by_cases hconn : c.isConnected = true
      swap
      · simp only
        rw [if_pos hconn]
        exact Or.inr ⟨fun _ _ _ h => hconn h.connected, ⟨_, rfl⟩, rfl,
          Or.inl ⟨rfl, connState_logged c.log⟩⟩
      simp only
      rw [if_neg (not_not.mpr hconn)]
      rcases sendSubRequest_cases .subscribe params.handle
          (fun size packetId topic => serializeSubscribePacket size 0 packetId 1 [topic] [params.qos])
          { c with log := c.log ++ [.lock .generic, .unlock .generic] } topic env with
        ⟨packet, hs, hg, hout, hacc⟩ | ⟨hno, hout, href⟩
      · exact Or.inl ⟨topic, params, packet,
          ⟨rfl, ht, hq, hconn, hs, ⟨hg.mallocFilter, hg.room, hg.mallocInfo, hg.mallocNode,
            hg.delivers⟩⟩, hout, hacc.of_log (connState_logged c.log)⟩
      · refine Or.inr ⟨fun topic' params' packet h => ?_, hout, href.of_log (connState_logged c.log)⟩
        obtain ⟨hp, ht', -, -, hs, hg⟩ := h
        obtain rfl := Option.some.inj hp
        obtain rfl := Except.ok.inj (ht.symm.trans ht')
        exact hno packet hs ⟨hg.mallocFilter, hg.room, hg.mallocInfo, hg.mallocNode, hg.delivers⟩

/-! ### Unsubscribing -/

/-- What the loop of `qcloud_iot_mqtt_unsubscribe` does to a slot: the slot's handler is called and
its string freed. -/
def clearEvents (f : Bytes) (held : List Lock) (slot : SubTopicHandle) : List Ev :=
  if slotMatches f slot then
    Client.subEventCall slot .unsubscribe held ++ slot.topicFilter.toList.map fun s => .free s.addr
  else []

theorem clearSlots_snd (f : Bytes) : ∀ (slots : List SubTopicHandle) (c : Client),
    (clearSlots f c slots).2 = { c with log := c.log ++ slots.flatMap (clearEvents f c.held) } := by
  intro slots
  induction slots with
  | nil => intro c; simp [clearSlots]
  | cons s slots ih =>
    intro c
    by_cases h : slotMatches f s = true
    · simp [clearSlots, h, ih, clearEvents, Client.notifySub_eq, Client.free_eq]
    · simp [clearSlots, h, ih, clearEvents]

/-- What unsubscribe does before it looks at the connection. -/
theorem removeHandlers_eq (c : Client) (f : Bytes) : removeHandlers c f = { c with
    subHandles := c.subHandles.map (clearSlot f)
    log := c.log ++ ([.lock .generic] ++
      c.subHandles.slots.flatMap (clearEvents f (.generic :: c.held)) ++ [.unlock .generic]) } := by
  have hslots : (⟨(clearSlots f (c.lock .generic) c.subHandles.slots).1,
      by rw [clearSlots_fst, List.length_map, c.subHandles.length_eq]⟩ : SubHandles) =
        c.subHandles.map (clearSlot f) := SubHandles.ext (clearSlots_fst f _ _)
  unfold removeHandlers
  simp only [hslots, clearSlots_snd]
  simp [Client.lock, Client.unlock]

section ClearViews

variable (f : Bytes) (held : List Lock) (slots : List SubTopicHandle)

/-- The strings freed are those of the slots found. -/
theorem freedIn_clear : freedIn (slots.flatMap (clearEvents f held)) =
    (slots.filter (slotMatches f)).filterMap SubTopicHandle.addr? := by
  induction slots with
  | nil => rfl
  | cons s slots ih =>
    rw [List.flatMap_cons, freedIn_append, ih, List.filter_cons]
    by_cases h : slotMatches f s = true
    · cases he : s.subEventHandler <;> cases ht : s.topicFilter <;>
        simp [clearEvents, h, Client.subEventCall, he, ht, SubTopicHandle.addr?]
    · simp [clearEvents, h]

/-- Nothing else is recorded but the calls of the slots' handlers. -/
theorem clear_views : sentIn (slots.flatMap (clearEvents f held)) = [] ∧
    fatesIn (slots.flatMap (clearEvents f held)) = [] ∧
    deliveredIn (slots.flatMap (clearEvents f held)) = [] := by
  induction slots with
  | nil => exact ⟨rfl, rfl, rfl⟩
  | cons s slots ih =>
    rw [List.flatMap_cons, sentIn_append, fatesIn_append, deliveredIn_append, ih.1, ih.2.1, ih.2.2]
    by_cases h : slotMatches f s = true
    · cases he : s.subEventHandler <;> cases ht : s.topicFilter <;>
        simp [clearEvents, h, Client.subEventCall, he, ht]
    · simp [clearEvents, h]

/-- No handler is called iff no slot found has one. -/
theorem lockedIn_clear (hheld : held ≠ []) : lockedIn (slots.flatMap (clearEvents f held)) = [] ↔
    ∀ s ∈ slots, slotMatches f s = true → s.subEventHandler = none := by
  induction slots with
  | nil => simp
  | cons s slots ih =>
    rw [List.flatMap_cons, lockedIn_append, List.append_eq_nil_iff, ih, List.forall_mem_cons]
    refine and_congr_left' ?_
    by_cases h : slotMatches f s = true
    · cases he : s.subEventHandler <;> cases ht : s.topicFilter <;>
        simp [clearEvents, h, Client.subEventCall, he, ht, hheld]
    · simp [clearEvents, h]

end ClearViews

/-- What an unsubscribe call has to bring and to meet. -/
structure UnsubscribeGranted (c : Client) (env : CallEnv) (topic packet : Bytes) : Prop where
  found : c.subHandles.slots.any (slotMatches topic) = true
  connected : c.isConnected = true
  packet_eq : serializeUnsubscribePacket c.writeBufSize 0 c.getNextPacketId.1 1 [topic] = .ok packet
  grants : env.Grants c packet

/-- **What `qcloud_iot_mqtt_unsubscribe` does**: the slots it finds are cleared before anything
that can fail. -/
theorem unsubscribe_cases (c : Client) (topicFilter : Option Bytes) (env : CallEnv) :
    (∃ rc, checkTopic topicFilter = .error rc ∧
      qcloudIotMqttUnsubscribe c topicFilter env = (.error rc, c)) ∨
    ∃ topic, checkTopic topicFilter = .ok topic ∧
      ((∃ packet, UnsubscribeGranted c env topic packet ∧
        (qcloudIotMqttUnsubscribe c topicFilter env).1 = .ok c.getNextPacketId.1 ∧
        SubAccepted (subNode .unsubscribe (unsubscribeHandle env.junkQos) c topic env) packet
          (removeHandlers c topic) (qcloudIotMqttUnsubscribe c topicFilter env).2) ∨
      ((∀ packet, ¬ UnsubscribeGranted c env topic packet) ∧
        (∃ rc, (qcloudIotMqttUnsubscribe c topicFilter env).1 = .error rc) ∧
        SubRefused (removeHandlers c topic) (qcloudIotMqttUnsubscribe c topicFilter env).2)) := by
  unfold qcloudIotMqttUnsubscribe
  cases ht : checkTopic topicFilter with
  | error rc => exact Or.inl ⟨rc, rfl, rfl⟩
  | ok topic =>
    refine Or.inr ⟨topic, rfl, ?_⟩
    simp only
    have heq := removeHandlers_eq c topic
    generalize removeHandlers c topic = c1 at heq ⊢
    have hconn1 : c1.isConnected = c.isConnected := by rw [heq]
    have hsize1 : c1.writeBufSize = c.writeBufSize := by rw [heq]
    have hlist1 : c1.listSubWaitAck = c.listSubWaitAck := by rw [heq]
    have hid1 : c1.getNextPacketId.1 = c.getNextPacketId.1 := by rw [heq]; rfl
    have hnode1 : subNode .unsubscribe (unsubscribeHandle env.junkQos) c1 topic env =
        subNode .unsubscribe (unsubscribeHandle env.junkQos) c topic env := by rw [heq]; rfl
    by_cases hfound : c.subHandles.slots.any (slotMatches topic) = true
    swap
    · rw [if_pos (by simpa using hfound)]
      exact Or.inr ⟨fun _ h => hfound h.found, ⟨_, rfl⟩, rfl, Or.inl ⟨rfl, Logged.refl c1.log⟩⟩
    rw [if_neg (by simp [hfound]), Client.getClientConnState_eq]
    simp only
    by_cases hconn : c1.isConnected = true
    swap
    · rw [if_pos hconn]
      exact Or.inr ⟨fun _ h => hconn (hconn1.trans h.connected), ⟨_, rfl⟩, rfl,
        Or.inl ⟨rfl, connState_logged c1.log⟩⟩
    rw [if_neg (not_not.mpr hconn)]
    rcases sendSubRequest_cases .unsubscribe (unsubscribeHandle env.junkQos)
        (fun size packetId topic => serializeUnsubscribePacket size 0 packetId 1 [topic])
        { c1 with log := c1.log ++ [.lock .generic, .unlock .generic] } topic env with
      ⟨packet, hs, hg, hout, hacc⟩ | ⟨hno, hout, href⟩
    · have hs' : serializeUnsubscribePacket c.writeBufSize 0 c.getNextPacketId.1 1 [topic] =
          .ok packet := by rw [← hsize1, ← hid1]; exact hs
      refine Or.inl ⟨packet, ⟨hfound, hconn1.symm.trans hconn, hs', ⟨hg.mallocFilter, ?_,
        hg.mallocInfo, hg.mallocNode, ?_⟩⟩, by rw [hout, ← hid1]; rfl, ?_⟩
      · rw [← hlist1]
        exact hg.room
      · rw [← hsize1]
        exact hg.delivers
      · rw [← hnode1]
        exact hacc.of_log (connState_logged c1.log)
    · refine Or.inr ⟨fun packet h => hno packet ?_ ⟨h.grants.mallocFilter, ?_, h.grants.mallocInfo,
        h.grants.mallocNode, ?_⟩, hout, href.of_log (connState_logged c1.log)⟩
      · have := h.packet_eq
        rw [← hsize1, ← hid1] at this
        exact this
      · exact hlist1 ▸ h.grants.room
      · exact hsize1 ▸ h.grants.delivers

/-! ### Publishing -/

/-- A refused publish. -/
structure PubRefused (c c' : Client) : Prop where
  kept : c' = { c with
    nextPacketId := c'.nextPacketId, writeBuf := c'.writeBuf, log := c'.log }
  log : Logged c.log c'.log [] []

/-- An accepted one: `nodes` are the new last ones of the wait list. -/
structure PubAccepted (nodes : List PubInfo) (packet : Bytes) (c c' : Client) : Prop where
  kept : c' = { c with
    nextPacketId := c'.nextPacketId, writeBuf := c'.writeBuf, log := c'.log
    listPubWaitAck := c.listPubWaitAck ++ nodes }
  log : Logged c.log c'.log [] [packet]

/-- The packet id a publish carries: the next one for QoS 1, the caller's otherwise. -/
def publishId (c : Client) (params : PublishParams) : UInt16 :=
  if params.qos = .qos1 then c.getNextPacketId.1 else params.id

/-- The node of a publish with the packet id `id`, none for QoS 0. -/
def pubNodes (c : Client) (qos : QoS) (id : UInt16) (env : CallEnv) : List PubInfo :=
  if qos.toNat > 0 then [⟨env.clock + c.commandTimeoutMs, .normal, id⟩] else []

/-- What `_mask_push_pubInfo_to` needs for a node. -/
def CallEnv.HoldsPub (env : CallEnv) (c : Client) (len : Nat) : Prop :=
  len ≤ c.writeBufSize ∧ c.listPubWaitAck.length < maxRepubNum ∧ env.mallocInfo = true ∧
    env.mallocNode = true

/-- What the environment has to grant a publish that sends `packet`: above QoS 0 a node, and the
network. -/
structure CallEnv.GrantsPub (env : CallEnv) (c : Client) (qos : QoS) (packet : Bytes) : Prop where
  node : qos.toNat > 0 → env.HoldsPub c packet.length
  delivers : env.send.Delivers c.writeBufSize packet.length

/-- What a publish call has to bring and to meet. -/
structure PublishGranted (c : Client) (topicName : Option Bytes) (pParams : Option PublishParams)
    (env : CallEnv) (topic : Bytes) (params : PublishParams) (packet : Bytes) : Prop where
  params_eq : pParams = some params
  topic_eq : checkTopic topicName = .ok topic
  qos_ne : params.qos ≠ .qos2
  connected : c.isConnected = true
  packet_eq : serializePublishPacket c.writeBufSize 0 params.qos params.retained
    (publishId c params) topic params.payload = .ok packet
  grants : env.GrantsPub c params.qos packet

section Publish

variable {c : Client} {id : UInt16} {env : CallEnv}

/-- The client with one more node on the wait list. -/
def pubPushed (c : Client) (node : PubInfo) : Client := { c with
  listPubWaitAck := c.listPubWaitAck ++ [node]
  log := c.log ++ [.lock .listPub, .unlock .listPub] }

/-- `_mask_push_pubInfo_to` pushes one node or changes nothing. -/
theorem pushPub_cases (c : Client) (len : Nat) (msgId : UInt16) (env : CallEnv) :
    (env.HoldsPub c len ∧ maskPushPubInfoTo c len msgId env = (.ok c.listPubWaitAck.length,
      pubPushed c ⟨env.clock + c.commandTimeoutMs, .normal, msgId⟩)) ∨
    ¬ env.HoldsPub c len ∧ ∃ rc log, maskPushPubInfoTo c len msgId env =
      (.error rc, { c with log := log }) ∧ Logged c.log log [] [] := by
  have hlocks : Logged c.log (c.log ++ [.lock .listPub, .unlock .listPub]) [] [] :=
    Logged.append c.log _ rfl rfl rfl
  unfold maskPushPubInfoTo CallEnv.HoldsPub
  by_cases hlen : len > c.writeBufSize
  · rw [if_pos hlen]
    exact Or.inr ⟨by omega, .errFailure, c.log, rfl, Logged.refl c.log⟩
  rw [if_neg hlen]
  simp only [Client.lock, Client.unlock, List.erase_cons_head]
  by_cases hroom : c.listPubWaitAck.length ≥ maxRepubNum
  · rw [if_pos hroom]
    exact Or.inr ⟨by omega, .errFailure, _, rfl, by simpa using hlocks⟩
  rw [if_neg hroom]
  cases hinfo : env.mallocInfo with
  | false => exact Or.inr ⟨by simp, .errFailure, _, rfl, by simpa using hlocks⟩
  | true =>
    cases hnode : env.mallocNode with
    | false => exact Or.inr ⟨by simp, .errFailure, _, rfl, by simpa using hlocks⟩
    | true => exact Or.inl ⟨⟨by omega, by omega, rfl, rfl⟩, by simp [pubPushed]⟩

/-- The end of a publish whose `nodes` are on the wait list. -/
theorem sendPubPacket_cases (c : Client) (id : UInt16) (env : SendEnv) {nodes new : List PubInfo}
    {node : Option Nat} {len : Nat} {packet : Bytes} {held : List Lock} (hl : c.listPubWaitAck = nodes ++ new)
    (hnew : new = [] ∧ node = none ∨ (∃ n, new = [n]) ∧ node = some nodes.length)
    (hh : c.held = .writeBuf :: held) (hb : c.writeBuf.load 0 len = packet) :
    (env.Delivers c.writeBufSize len ∧ ∃ log,
      sendPubPacket c id node len env = (.ok id, { c with held := held, log := log }) ∧
      Logged c.log log [] [packet]) ∨
    ¬ env.Delivers c.writeBufSize len ∧ ∃ rc log, sendPubPacket c id node len env =
      (.error rc, { c with held := held, listPubWaitAck := nodes, log := log }) ∧
      Logged c.log log [] [] := by
  unfold sendPubPacket
  obtain ⟨hd, log, hsend, hlog⟩ | ⟨hd, rc, log, hrc, hsend, hlog⟩ := sendMqttPacket_cases c len env
  · refine Or.inl ⟨hd, log ++ [.unlock .writeBuf], ?_,
      hb ▸ hlog.trans (Logged.append log [.unlock .writeBuf] rfl rfl rfl)⟩
    rw [hsend]
    simp [Client.unlock, hh]
  · rw [hsend]
    rcases hnew with ⟨rfl, rfl⟩ | ⟨⟨n, rfl⟩, rfl⟩
    · refine Or.inr ⟨hd, rc, log ++ [.unlock .writeBuf], ?_,
        hlog.trans (Logged.append log [.unlock .writeBuf] rfl rfl rfl)⟩
      simp [Client.unlock, hrc, hh, hl]
    · refine Or.inr ⟨hd, rc, log ++ [.lock .listPub, .unlock .listPub, .unlock .writeBuf],
        ?_, hlog.trans (Logged.append log
          [.lock .listPub, .unlock .listPub, .unlock .writeBuf] rfl rfl rfl)⟩
      simp [Client.lock, Client.unlock, hrc, hh, hl, List.eraseIdx_append_of_length_le]

/-- A publish from the serialisation on, with `lock_write_buf` held. -/
theorem sendPublish_cases (params : PublishParams) (topic : Bytes) (id : UInt16) (env : CallEnv)
    {held : List Lock} (hh : c.held = .writeBuf :: held) :
    (∃ packet, serializePublishPacket c.writeBufSize 0 params.qos params.retained id topic
        params.payload = .ok packet ∧ env.GrantsPub c params.qos packet ∧
      (sendPublish c params topic id env).1 = .ok id ∧
      PubAccepted (pubNodes c params.qos id env) packet { c with held := held }
        (sendPublish c params topic id env).2) ∨
    ((∀ packet, serializePublishPacket c.writeBufSize 0 params.qos params.retained id topic
        params.payload = .ok packet → ¬ env.GrantsPub c params.qos packet) ∧
      (∃ rc, (sendPublish c params topic id env).1 = .error rc) ∧
      PubRefused { c with held := held } (sendPublish c params topic id env).2) := by
  have hunlock : Logged c.log (c.log ++ [.unlock .writeBuf]) [] [] := Logged.append c.log _ rfl rfl rfl
  unfold sendPublish pubNodes
  cases hs : serializePublishPacket c.writeBufSize 0 params.qos params.retained id topic
      params.payload with
  | error rc =>
    exact Or.inr ⟨fun _ h => absurd h (by simp), ⟨rc, rfl⟩, by simp [Client.unlock, hh], hunlock⟩
  | ok packet =>
    have hno : ¬ env.GrantsPub c params.qos packet →
        ∀ p, Except.ok packet = (Except.ok p : Except ReturnCode Bytes) →
          ¬ env.GrantsPub c params.qos p := by
      intro h p hp
      exact Except.ok.inj hp ▸ h
    simp only
    by_cases hq : params.qos.toNat > 0
    · rw [if_pos hq, if_pos hq]
      rcases pushPub_cases (c.write packet) packet.length id env with
        ⟨hholds, hpush⟩ | ⟨hholds, rc, log, hpush, hlog⟩
      · have hpushed : Logged c.log (c.log ++ [.lock .listPub, .unlock .listPub]) [] [] :=
          Logged.append c.log _ rfl rfl rfl
        rw [hpush]
        simp only
        rcases sendPubPacket_cases
            (pubPushed (c.write packet)
              ⟨env.clock + (c.write packet).commandTimeoutMs, .normal, id⟩)
            id env.send rfl (Or.inr ⟨⟨_, rfl⟩, rfl⟩) hh
            (Mem.load_store c.writeBuf 0 packet)
          with ⟨hd, log, hout, hlog⟩ | ⟨hd, rc, log, hout, hlog⟩
        · exact Or.inl ⟨packet, rfl, ⟨fun _ => hholds, hd⟩, by rw [hout], by rw [hout]; rfl,
            by rw [hout]; exact hpushed.trans hlog⟩
        · exact Or.inr ⟨hno fun h => hd h.delivers, ⟨rc, by rw [hout]⟩, by rw [hout]; rfl,
            by rw [hout]; exact hpushed.trans hlog⟩
      · rw [hpush]
        exact Or.inr ⟨hno fun h => hholds (h.node hq), ⟨rc, rfl⟩, by simp [Client.unlock, hh],
          hlog.trans (Logged.append log [.unlock .writeBuf] rfl rfl rfl)⟩
    · rw [if_neg hq, if_neg hq]
      rcases sendPubPacket_cases (c.write packet) id env.send
          (List.append_nil _).symm (Or.inl ⟨rfl, rfl⟩) hh (Mem.load_store c.writeBuf 0 packet)
        with ⟨hd, log, hout, hlog⟩ | ⟨hd, rc, log, hout, hlog⟩
      · exact Or.inl ⟨packet, rfl, ⟨fun h => absurd h hq, hd⟩, by rw [hout], by rw [hout]; simp,
          by rw [hout]; exact hlog⟩
      · exact Or.inr ⟨hno fun h => hd h.delivers, ⟨rc, by rw [hout]⟩, by rw [hout]; rfl,
          by rw [hout]; exact hlog⟩

/-- The client when a publish has its packet id: the next one is taken for QoS 1. -/
def pubStart (c : Client) (qos : QoS) : Client := { c with
  nextPacketId := if qos = .qos1 then c.getNextPacketId.1 else c.nextPacketId
  held := .writeBuf :: c.held
  log := c.log ++ ([.lock .generic, .unlock .generic, .lock .writeBuf] ++
    if qos = .qos1 then [.lock .generic, .unlock .generic] else []) }

theorem pubStart_logged (c : Client) (qos : QoS) : Logged c.log (pubStart c qos).log [] [] := by
  unfold pubStart
  by_cases h : qos = .qos1
  · rw [if_pos h, if_pos h]
    exact Logged.append c.log _ rfl rfl rfl
  · rw [if_neg h, if_neg h]
    exact Logged.append c.log _ rfl rfl rfl

/-- Up to the packet id a publish changes no more than the id and the log. -/
theorem PubRefused.of_start {c c' : Client} {qos : QoS}
    (h : PubRefused { pubStart c qos with held := c.held } c') : PubRefused c c' :=
  ⟨h.kept, (pubStart_logged c qos).trans h.log⟩

theorem PubAccepted.of_start {c c' : Client} {qos : QoS} {nodes : List PubInfo} {packet : Bytes}
    (h : PubAccepted nodes packet { pubStart c qos with held := c.held } c') :
    PubAccepted nodes packet c c' :=
  ⟨h.kept, (pubStart_logged c qos).trans h.log⟩

/-- `qcloud_iot_mqtt_publish` with its arguments checked. -/
theorem publish_start {c : Client} {topicName : Option Bytes} {params : PublishParams}
    {env : CallEnv} {topic : Bytes} (ht : checkTopic topicName = .ok topic)
    (hq : params.qos ≠ .qos2) (hconn : c.isConnected = true) :
    qcloudIotMqttPublish c topicName (some params) env =
      sendPublish (pubStart c params.qos) params topic (publishId c params) env := by
  have hid : ∀ c : Client, c.getNextPacketId = (c.getNextPacketId.1, { c with
      nextPacketId := c.getNextPacketId.1
      log := c.log ++ [.lock .generic, .unlock .generic] }) := Client.getNextPacketId_eq
  unfold qcloudIotMqttPublish publishId
  simp only [ht]
  rw [if_neg hq, Client.getClientConnState_eq]
  simp only
  rw [if_neg (not_not.mpr hconn)]
  by_cases h1 : params.qos = .qos1
  · rw [if_pos h1, if_pos h1, hid]
    simp [pubStart, h1, Client.lock, Client.getNextPacketId]
  · rw [if_neg h1, if_neg h1]
    simp [pubStart, h1, Client.lock]

/-- **What `qcloud_iot_mqtt_publish` does.** -/
theorem publish_cases (c : Client) (topicName : Option Bytes) (pParams : Option PublishParams)
    (env : CallEnv) :
    (∃ topic params packet, PublishGranted c topicName pParams env topic params packet ∧
      (qcloudIotMqttPublish c topicName pParams env).1 = .ok (publishId c params) ∧
      PubAccepted (pubNodes c params.qos (publishId c params) env) packet c
        (qcloudIotMqttPublish c topicName pParams env).2) ∨
    ((∀ topic params packet, ¬ PublishGranted c topicName pParams env topic params packet) ∧
      (∃ rc, (qcloudIotMqttPublish c topicName pParams env).1 = .error rc) ∧
      PubRefused c (qcloudIotMqttPublish c topicName pParams env).2) := by
  have hself : PubRefused c c := ⟨rfl, Logged.refl c.log⟩
  cases pParams with
  | none => exact Or.inr ⟨fun _ _ _ h => absurd h.params_eq (by simp), ⟨_, rfl⟩, hself⟩
  | some params =>
    cases ht : checkTopic topicName with
    | error rc =>
      refine Or.inr ⟨fun _ _ _ h => absurd (ht.symm.trans h.topic_eq) (by simp), ?_⟩
      simp only [qcloudIotMqttPublish, ht]
      exact ⟨⟨rc, rfl⟩, hself⟩
    | ok topic =>
      by_cases hq : params.qos = .qos2
      · refine Or.inr ⟨fun _ _ _ h => h.qos_ne (Option.some.inj h.params_eq ▸ hq), ?_⟩
        simp only [qcloudIotMqttPublish, ht, if_pos hq]
        exact ⟨⟨_, rfl⟩, hself⟩
      by_cases hconn : c.isConnected = true
      swap
      · refine Or.inr ⟨fun _ _ _ h => hconn h.connected, ?_⟩
        simp only [qcloudIotMqttPublish, ht, if_neg hq, Client.getClientConnState_eq, if_pos hconn]
        exact ⟨⟨_, rfl⟩, rfl, connState_logged c.log⟩
      rw [publish_start ht hq hconn]
      rcases sendPublish_cases (c := pubStart c params.qos) params topic (publishId c params) env
          rfl with ⟨packet, hs, hg, hout, hacc⟩ | ⟨hno, hout, href⟩
      · exact Or.inl ⟨topic, params, packet, ⟨rfl, ht, hq, hconn, hs, hg.node, hg.delivers⟩, hout,
          hacc.of_start⟩
      · refine Or.inr ⟨fun topic' params' packet h => ?_, hout, href.of_start⟩
        obtain ⟨hp, ht', -, -, hs, hg⟩ := h
        obtain rfl := Option.some.inj hp
        obtain rfl := Except.ok.inj (ht.symm.trans ht')
        exact hno packet hs ⟨hg.node, hg.delivers⟩

end Publish

end QcloudIot.Mqtt
