import QcloudIot.Mqtt.TopicMatch
import QcloudIot.Mqtt.Transport

/-!
# Inbound packets

The handlers of `mqtt_client_common.c` for what `_read_mqtt_packet` has put into the read buffer
(`_handle_puback_packet`, `_handle_suback_packet`, `_handle_unsuback_packet`,
`_handle_publish_packet`, `_handle_pubrec_packet`, `_handle_pingresp_packet`), the delivery of a
message (`_deliver_message`), the ring of packet ids seen, and the two functions that read and
dispatch (`cycle_for_read`, `wait_for_read`).

Results, what each handler does to the tables and the log:
* `handlePuback_eq`, `handleUnsuback_eq`, `handleSuback_step` for the acknowledgements;
* `deliverMessage_frame`, `receivePublish_frame`, `handlePubrec_frame` for the rest;
* `cycle_cases`: what one `cycle_for_read` amounts to.
-/

namespace QcloudIot.Mqtt

/-- What reading and handling a packet meets: the network, whether the list iterator can be
allocated, the stack where the source leaves it uninitialised (`junk`, the handle that
`_handle_unsuback_packet` declares, and the bytes around `fix_topic`), the clock, and the width of
`size_t`. -/
structure CycleEnv where
  reads : NetReads := []
  send : SendEnv := {}
  iterOk : Bool := true
  junk : SubTopicHandle := {}
  stackBefore : UInt8 := 0
  stackBeyond : Bytes := []
  clock : Nat := 0
  wordSize : WordSize := .w32

/-! ## The wait lists -/

/-- `node_state = MQTT_NODE_STATE_INVALID` on the nodes with the packet id. -/
def PubInfo.mask (msgId : UInt16) (n : PubInfo) : PubInfo :=
  if n.msgId = msgId then { n with nodeState := .invalid } else n

/-- `_mask_pubInfo_from`. -/
def maskPubInfoFrom (c : Client) (msgId : UInt16) (iterOk : Bool) : Client :=
  let c := c.lock .listPub
  if iterOk then { c with listPubWaitAck := c.listPubWaitAck.map (PubInfo.mask msgId) }.unlock .listPub
  else c.unlock .listPub

/-- The loop of `_mask_sub_info_from`, which runs from the tail: the handle it leaves in
`*messageHandler`, and the list. -/
def maskSubLoop (msgId : UInt16) (messageHandler : SubTopicHandle) :
    List SubInfo → SubTopicHandle × List SubInfo
  | [] => (messageHandler, [])
  | n :: ns =>
    let r := maskSubLoop msgId messageHandler ns
    if n.msgId = msgId then (n.handler, { n with nodeState := .invalid } :: r.2) else (r.1, n :: r.2)

/-- `_mask_sub_info_from`. -/
def maskSubInfoFrom (c : Client) (msgId : UInt16) (messageHandler : SubTopicHandle)
    (iterOk : Bool) : SubTopicHandle × Client :=
  let c := c.lock .listSub
  if iterOk then
    let r := maskSubLoop msgId messageHandler c.listSubWaitAck
    (r.1, { c with listSubWaitAck := r.2 }.unlock .listSub)
  else (messageHandler, c.unlock .listSub)

/-! ## Acknowledgements -/

/-- `_handle_puback_packet`. -/
def handlePubackPacket (c : Client) (env : CycleEnv) : ReturnCode × Client :=
  match deserializeAckPacket c.readBuf c.readBufSize with
  | .error rc => (rc, c)
  | .ok (_, _, packetId) =>
    (.retSuccess, (maskPubInfoFrom c packetId env.iterOk).notify .publishSuccess packetId)

/-- `_check_handle_is_identical(&slot, &handle) == 0`, for an occupied slot and a handle whose
filter is not NULL. -/
def checkHandleIsIdentical (slot handle : SubTopicHandle) : Bool :=
  slot.topicFilter.map (·.str) == handle.topicFilter.map (·.str) &&
    slot.messageHandler == handle.messageHandler && slot.subEventHandler == handle.subEventHandler

/-- What the slot loop of `_handle_suback_packet` finds: an identical handle in slot `i`, or none,
and then the first free slot. -/
inductive SlotScan where
  | identical (i : Nat)
  | different (iFree : Option Nat)
  deriving DecidableEq, Repr

/-- The slot loop of `_handle_suback_packet`, from slot `i` on. -/
def scanSlots (handle : SubTopicHandle) :
    (slots : List SubTopicHandle) → (i : Nat) → (iFree : Option Nat) → SlotScan
  | [], _, iFree => .different iFree
  | slot :: slots, i, iFree =>
    if slot.topicFilter.isSome then
      if checkHandleIsIdentical slot handle then .identical i
      else scanSlots handle slots (i + 1) iFree
    else scanSlots handle slots (i + 1) (if iFree.isNone then some i else iFree)

/-- The end of `_handle_suback_packet`: the application and the subscriber are told. -/
def notifySubscribed (c : Client) (packetId : UInt16) (h : SubTopicHandle) : ReturnCode × Client :=
  let c := c.unlock .generic
  let c := c.notify .subcribeSuccess packetId
  (.retSuccess, c.notifySub h .subcribeSuccess)

/-- `_handle_suback_packet`; `grantedQoS` starts as zeros, so no return code reads as `0x00`. -/
def handleSubackPacket (c : Client) (env : CycleEnv) : ReturnCode × Client :=
  match deserializeSubackPacket 1 c.readBuf c.readBufSize with
  | .error rc => (rc, c)
  | .ok (packetId, grantedQoS) =>
    let subNack := grantedQoS.headD 0 == 0x80
    -- `h_fp` is called here without a check for NULL
    let c := if subNack then
        match c.eventHandle with
        | some f => c.call (.event f .subcribeNack packetId)
        | none => c.emit .nullCall
      else c
    let c := c.lock .generic
    let (h, c) := maskSubInfoFrom c packetId {} env.iterOk
    match h.topicFilter with
    | none => (.errMqttSub, c.unlock .generic)
    | some _ =>
      if subNack then
        let c := (c.unlock .generic).notifySub h .subcribeNack
        (.errMqttSub, c.free h.topicFilter)
      else
        match scanSlots h c.subHandles.slots 0 none with
        | .identical i =>
          let slot := { c.subHandles.slots.getD i {} with handlerUserData := h.handlerUserData }
          notifySubscribed ({ c with subHandles := c.subHandles.set i slot }.free h.topicFilter)
            packetId h
        | .different none => (.errFailure, c.unlock .generic)
        | .different (some i) =>
          notifySubscribed { c with subHandles := c.subHandles.set i h } packetId h

/-- `_handle_unsuback_packet`; the handle is uninitialised (`env.junk`) until a node is found. -/
def handleUnsubackPacket (c : Client) (env : CycleEnv) : ReturnCode × Client :=
  match deserializeUnsubackPacket c.readBuf c.readBufSize with
  | .error rc => (rc, c)
  | .ok packetId =>
    let (h, c) := maskSubInfoFrom c packetId env.junk env.iterOk
    let c := (c.lock .generic).free h.topicFilter
    (.retSuccess, (c.notify .unsubcribeSuccess packetId).unlock .generic)

/-! ## Messages -/

/-- `_get_packet_id_in_repeat_buf`; -1 is `none`. -/
def getPacketIdInRepeatBuf (b : RepeatBuf) (packetId : UInt16) : Option UInt16 :=
  if packetId ∈ b.ids then some packetId else none

/-- `_add_packet_id_to_repeat_buf`. -/
def addPacketIdToRepeatBuf (b : RepeatBuf) (packetId : UInt16) : RepeatBuf :=
  if ∃ id, getPacketIdInRepeatBuf b packetId = some id ∧ id > 0 then b
  else
    let cnt := b.cnt + 1
    { ids := b.ids.set b.cnt packetId
      cnt := if cnt ≥ mqttMaxRepeatBufLen then cnt % mqttMaxRepeatBufLen else cnt
      length_eq := by rw [List.length_set, b.length_eq]
      cnt_lt := by
        have := Nat.mod_lt cnt (show 0 < mqttMaxRepeatBufLen by decide)
        split <;> omega }

/-- The test on a slot in `_deliver_message`: it is occupied and `decision` takes its filter. -/
def slotTakes (decision : Bytes → Bool) (slot : SubTopicHandle) : Bool :=
  match slot.topicFilter with
  | some f => decision f.str
  | none => false

/-- The loop of `_deliver_message`, with `lock_generic` held; whether a handler has taken the
message. -/
def deliverLoop (decision : Bytes → Bool) (msg : MqttMessage) (c : Client) :
    List SubTopicHandle → Bool × Client
  | [] => (false, c)
  | slot :: slots =>
    if slotTakes decision slot then
      let c := c.unlock .generic
      match slot.messageHandler with
      | some f => (true, c.call (.message f msg slot.handlerUserData))
      | none => deliverLoop decision msg (c.lock .generic) slots
    else deliverLoop decision msg c slots

/-- `_deliver_message`, which always succeeds; `topicName` are the bytes from the name's first on,
`before` the one in front of it. -/
def deliverMessage (c : Client) (before : UInt8) (topicName : Bytes) (topicNameLen : UInt16)
    (message : MqttMessage) : Client :=
  let c := (c.emit (.deliver message)).lock .generic
  match deliverLoop (fun f => topicDecision before f topicName topicNameLen) message c
      c.subHandles.slots with
  | (true, c) => c
  | (false, c) => (c.unlock .generic).notify .publishRecveived 0

/-- `topic_len` after the check against the size of `fix_topic`. -/
def fixTopicLen (topicLen : UInt16) : UInt16 :=
  if topicLen.toNat > maxSizeOfCloudTopic then UInt16.ofNat (maxSizeOfCloudTopic - 1) else topicLen

/-- `fix_topic` once the topic is copied, and what lies beyond it on the stack. -/
def fixTopic (buf : Mem) (topicName : Nat) (topicLen : UInt16) (beyond : Bytes) : Bytes :=
  buf.load topicName topicLen.toNat ++
    List.replicate (maxSizeOfCloudTopic - topicLen.toNat) 0 ++ beyond

/-- The message `_handle_publish_packet` passes on. -/
def publishMessage (buf : Mem) (p : PublishPacket) : MqttMessage where
  qos := p.qos
  retained := p.retained
  dup := p.dup
  id := p.packetId
  topic := buf.load p.topicName (fixTopicLen p.topicNameLen).toNat
  topicLen := fixTopicLen p.topicNameLen
  payload := p.payload
  payloadLen := p.payloadLen

/-- The acknowledgement at the end of `_handle_publish_packet` and of `_handle_pubrec_packet`. -/
def sendPubAck (c : Client) (packetType : MessageTypes) (packetId : UInt16) (env : SendEnv) :
    ReturnCode × Client :=
  let c := c.lock .writeBuf
  match serializePubAckPacket c.writeBufSize packetType 0 packetId with
  | .error rc => (rc, c.unlock .writeBuf)
  | .ok packet =>
    let (rc, c) := sendMqttPacket (c.write packet) packet.length env
    (rc, c.unlock .writeBuf)

/-- `_handle_publish_packet`. -/
def handlePublishPacket (c : Client) (env : CycleEnv) : ReturnCode × Client :=
  match deserializePublishPacket env.wordSize c.readBuf c.readBufSize with
  | .error rc => (rc, c)
  | .ok p =>
    let topicLen := fixTopicLen p.topicNameLen
    let topic := fixTopic c.readBuf p.topicName topicLen env.stackBeyond
    let msg := publishMessage c.readBuf p
    if p.qos = .qos0 then (.retSuccess, deliverMessage c env.stackBefore topic topicLen msg)
    else
      let id := p.packetId.getD 0
      let c := if getPacketIdInRepeatBuf c.repeatBuf id = none then
          deliverMessage c env.stackBefore topic topicLen msg
        else c
      let c := { c with repeatBuf := addPacketIdToRepeatBuf c.repeatBuf id }
      sendPubAck c (if p.qos = .qos1 then .puback else .pubrec) id env.send

/-- `_handle_pubrec_packet`. -/
def handlePubrecPacket (c : Client) (env : CycleEnv) : ReturnCode × Client :=
  match deserializeAckPacket c.readBuf c.readBufSize with
  | .error rc => (rc, c)
  | .ok (_, _, packetId) => sendPubAck c .pubrel packetId env.send

/-- `_handle_pingresp_packet`. -/
def handlePingrespPacket (c : Client) (env : CycleEnv) : Client :=
  { c.lock .generic with
    isPingOutstanding := 0
    pingTimer := env.clock + 1000 * c.options.keepAliveInterval.toNat }.unlock .generic

/-! ## Reading and dispatching -/

/-- The first switch of `cycle_for_read`. -/
def handlePacket (c : Client) (packetType : UInt8) (env : CycleEnv) : ReturnCode × Client :=
  if packetType = MessageTypes.connack.code then (.retSuccess, c)
  else if packetType = MessageTypes.puback.code then handlePubackPacket c env
  else if packetType = MessageTypes.suback.code then handleSubackPacket c env
  else if packetType = MessageTypes.unsuback.code then handleUnsubackPacket c env
  else if packetType = MessageTypes.publish.code then handlePublishPacket c env
  else if packetType = MessageTypes.pubrec.code then handlePubrecPacket c env
  else if packetType = MessageTypes.pubrel.code then (.retSuccess, c)
  else if packetType = MessageTypes.pubcomp.code then (.retSuccess, c)
  else if packetType = MessageTypes.pingresp.code then (.retSuccess, c)
  else (.errRxMessageInval, c)

/-- The second switch of `cycle_for_read`; a type the first one rejects is none of its cases. -/
def afterPacket (c : Client) (packetType : UInt8) (env : CycleEnv) : Client :=
  if packetType = MessageTypes.puback.code ∨ packetType = MessageTypes.suback.code ∨
      packetType = MessageTypes.unsuback.code ∨ packetType = MessageTypes.pingresp.code then
    handlePingrespPacket c env
  else if packetType = MessageTypes.publish.code then
    { c.lock .generic with isPingOutstanding := 0 }.unlock .generic
  else c

/-- `cycle_for_read`; `packetType` is the value `*packet_type` had, and the one it has at the end is
in the result. -/
def cycleForRead (c : Client) (packetType : UInt8) (env : CycleEnv) :
    ReturnCode × UInt8 × Client :=
  let r := readMqttPacket c packetType env.reads
  if r.rc = .errMqttNothingToRead then (.retSuccess, r.packetType, r.client)
  else if r.rc ≠ .retSuccess then (r.rc, r.packetType, r.client)
  else
    let (rc, c) := handlePacket r.client r.packetType env
    (rc, r.packetType, afterPacket c r.packetType env)

/-- `wait_for_read`; `envs` are what the cycles made before the timer expires meet. -/
def waitForRead (c : Client) (packetType : UInt8) :
    (readPacketType : UInt8) → List CycleEnv → ReturnCode × Client
  | _, [] => (.errMqttRequestTimeout, c)
  | readPacketType, env :: envs =>
    let (rc, readPacketType, c) := cycleForRead c readPacketType env
    if rc = .retSuccess ∧ readPacketType ≠ packetType then
      waitForRead c packetType readPacketType envs
    else (rc, c)

/-! ## What the handlers do -/

theorem maskPub_eq (c : Client) (msgId : UInt16) (iterOk : Bool) :
    maskPubInfoFrom c msgId iterOk = { c with
      listPubWaitAck :=
        if iterOk then c.listPubWaitAck.map (PubInfo.mask msgId) else c.listPubWaitAck
      log := c.log ++ [.lock .listPub, .unlock .listPub] } := by
  unfold maskPubInfoFrom
  cases iterOk <;> simp [Client.lock, Client.unlock]

/-- The nodes with the packet id. -/
def nodesWith (msgId : UInt16) (nodes : List SubInfo) : List SubInfo :=
  nodes.filter (·.msgId == msgId)

/-- `node_state = MQTT_NODE_STATE_INVALID` on a node with the packet id. -/
def SubInfo.mask (msgId : UInt16) (n : SubInfo) : SubInfo :=
  if n.msgId = msgId then { n with nodeState := .invalid } else n

/-- The loop returns the handle of the first node with the id and marks them all. -/
theorem maskSubLoop_eq (msgId : UInt16) (h : SubTopicHandle) : ∀ nodes : List SubInfo,
    maskSubLoop msgId h nodes =
      ((nodesWith msgId nodes).head?.elim h (·.handler), nodes.map (SubInfo.mask msgId)) := by
  intro nodes
  induction nodes with
  | nil => rfl
  | cons n ns ih =>
    rw [maskSubLoop, ih, nodesWith, nodesWith, List.filter_cons]
    by_cases hn : n.msgId = msgId
    · simp [hn, SubInfo.mask]
    · simp [hn, SubInfo.mask]

/-- The handle an acknowledgement with this id gets, `h` if there is none, and the wait list it
leaves. -/
def ackedSub (env : CycleEnv) (packetId : UInt16) (h : SubTopicHandle) (nodes : List SubInfo) :
    SubTopicHandle × List SubInfo :=
  if env.iterOk then maskSubLoop packetId h nodes else (h, nodes)

/-- No node has the id: nothing is marked. -/
theorem map_mask_eq {msgId : UInt16} : ∀ {nodes : List SubInfo}, nodesWith msgId nodes = [] →
    nodes.map (SubInfo.mask msgId) = nodes := by
  intro nodes
  induction nodes with
  | nil => intro h; rfl
  | cons n ns ih =>
    intro h
    simp only [nodesWith, List.filter_cons] at h
    split at h
    · exact absurd h (by simp)
    · rename_i hn
      have hn' : ¬ n.msgId = msgId := by simpa using hn
      rw [List.map_cons, ih h, SubInfo.mask, if_neg hn']

/-- What an acknowledgement finds without a node. -/
theorem ackedSub_none {env : CycleEnv} {id : UInt16} {h : SubTopicHandle} {nodes : List SubInfo}
    (hnone : env.iterOk = true → nodesWith id nodes = []) :
    ackedSub env id h nodes = (h, nodes) := by
  unfold ackedSub
  split
  · rename_i hiter
    rw [maskSubLoop_eq, hnone hiter, map_mask_eq (hnone hiter)]
    rfl
  · rfl

/-- What it finds with one: the handle of the first node. -/
theorem ackedSub_first {env : CycleEnv} {id : UInt16} {h : SubTopicHandle} {nodes ns : List SubInfo}
    {n : SubInfo} (hiter : env.iterOk = true) (hn : nodesWith id nodes = n :: ns) :
    ackedSub env id h nodes = (n.handler, nodes.map (SubInfo.mask id)) := by
  rw [ackedSub, if_pos hiter, maskSubLoop_eq, hn]
  rfl

theorem maskSub_eq (c : Client) (msgId : UInt16) (h : SubTopicHandle) (env : CycleEnv) :
    maskSubInfoFrom c msgId h env.iterOk = ((ackedSub env msgId h c.listSubWaitAck).1, { c with
      listSubWaitAck := (ackedSub env msgId h c.listSubWaitAck).2
      log := c.log ++ [.lock .listSub, .unlock .listSub] }) := by
  unfold maskSubInfoFrom ackedSub
  cases env.iterOk <;> simp [Client.lock, Client.unlock]

/-- **A PUBACK** marks the nodes with its id, if the iterator can be had, and is reported whatever
it found. -/
theorem handlePuback_eq {c : Client} (env : CycleEnv) {type dup : UInt8} {packetId : UInt16}
    (h : deserializeAckPacket c.readBuf c.readBufSize = .ok (type, dup, packetId)) :
    handlePubackPacket c env = (.retSuccess, { c with
      listPubWaitAck :=
        if env.iterOk then c.listPubWaitAck.map (PubInfo.mask packetId) else c.listPubWaitAck
      log := c.log ++ ([.lock .listPub, .unlock .listPub] ++
        Client.eventCall c.eventHandle .publishSuccess packetId c.held) }) := by
  unfold handlePubackPacket
  rw [h]
  simp [Client.notify_eq, maskPub_eq]

/-- **An UNSUBACK** marks the nodes with its id and frees the filter of the handle it got, under
`lock_generic`, where the application is told too. -/
theorem handleUnsuback_eq {c : Client} (env : CycleEnv) {packetId : UInt16}
    (h : deserializeUnsubackPacket c.readBuf c.readBufSize = .ok packetId) :
    handleUnsubackPacket c env = (.retSuccess, { c with
      listSubWaitAck := (ackedSub env packetId env.junk c.listSubWaitAck).2
      log := c.log ++ ([.lock .listSub, .unlock .listSub, .lock .generic] ++
        ((ackedSub env packetId env.junk c.listSubWaitAck).1.topicFilter.toList.map
          fun f => .free f.addr) ++
        Client.eventCall c.eventHandle .unsubcribeSuccess packetId (.generic :: c.held) ++
        [.unlock .generic]) }) := by
  unfold handleUnsubackPacket
  rw [h]
  simp [maskSub_eq, Client.notify_eq, Client.free_eq, Client.lock, Client.unlock]

/-- The slot is occupied and identical to the handle. -/
def isIdentical (h slot : SubTopicHandle) : Bool :=
  slot.topicFilter.isSome && checkHandleIsIdentical slot h

/-- The slot loop finds the first identical slot, and else the first free one. -/
theorem scanSlots_go (h : SubTopicHandle) : ∀ (slots : List SubTopicHandle) (i : Nat)
    (iFree : Option Nat), scanSlots h slots i iFree =
      match slots.findIdx? (isIdentical h) with
      | some j => .identical (i + j)
      | none => .different (iFree.or ((slots.findIdx? (·.topicFilter.isNone)).map (i + ·))) := by
  intro slots
  induction slots with
  | nil => intro i iFree; simp [scanSlots]
  | cons slot slots ih =>
    intro i iFree
    simp only [scanSlots, List.findIdx?_cons, ih (i + 1)]
    cases ht : slot.topicFilter with
    | none =>
      cases List.findIdx? (isIdentical h) slots <;> cases iFree <;>
        simp [isIdentical, ht, Nat.add_assoc, Nat.add_comm 1]
    | some f =>
      by_cases hid : checkHandleIsIdentical slot h = true
      · simp [isIdentical, ht, hid]
      · cases List.findIdx? (isIdentical h) slots <;>
          simp [isIdentical, ht, hid, Nat.add_assoc, Nat.add_comm 1, Function.comp_def]

/-- **What the slot loop of `_handle_suback_packet` finds.** -/
theorem scanSlots_eq (h : SubTopicHandle) (slots : List SubTopicHandle) :
    scanSlots h slots 0 none =
      match slots.findIdx? (isIdentical h) with
      | some j => .identical j
      | none => .different (slots.findIdx? (·.topicFilter.isNone)) := by
  rw [scanSlots_go]
  simp

/-- What a SUBACK with the handle `h` does to the slots and which filters it frees. -/
def subackEffect (nack : Bool) (h : SubTopicHandle) (t : SubHandles) : SubHandles × List Nat :=
  match h.topicFilter with
  | none => (t, [])
  | some f =>
    if nack then (t, [f.addr])
    else
      match scanSlots h t.slots 0 none with
      | .identical i =>
        (t.set i { t.slots.getD i {} with handlerUserData := h.handlerUserData }, [f.addr])
      | .different none => (t, [])
      | .different (some i) => (t.set i h, [])

/-- **A SUBACK**, seen by each reader of the client. -/
structure SubackStep (env : CycleEnv) (packetId : UInt16) (nack : Bool) (c c' : Client) : Prop where
  kept : c' = { c with
    subHandles := (subackEffect nack (ackedSub env packetId {} c.listSubWaitAck).1 c.subHandles).1
    listSubWaitAck := (ackedSub env packetId {} c.listSubWaitAck).2
    log := c'.log }
  freed : freedIn c'.log = freedIn c.log ++
    (subackEffect nack (ackedSub env packetId {} c.listSubWaitAck).1 c.subHandles).2
  sent : sentIn c'.log = sentIn c.log
  fates : fatesIn c'.log = fatesIn c.log
  delivered : deliveredIn c'.log = deliveredIn c.log
  locked : c.held = [] → lockedIn c'.log = lockedIn c.log

/-- The entry of the report of a refused subscription, which is made without a check of `h_fp`. -/
def nackCall (c : Client) (packetId : UInt16) : List Ev :=
  match c.eventHandle with
  | some f => [.callback (.event f .subcribeNack packetId) c.held]
  | none => [.nullCall]

/-- **What a SUBACK does**, whatever it finds. -/
theorem handleSuback_step {c : Client} {env : CycleEnv} {packetId : UInt16} {codes : List UInt8}
    (h : deserializeSubackPacket 1 c.readBuf c.readBufSize = .ok (packetId, codes)) :
    SubackStep env packetId (codes.headD 0 == 0x80) c (handleSubackPacket c env).2 := by
  unfold handleSubackPacket
  rw [h]
  simp only
  generalize (codes.headD 0 == 0x80) = nack
  have hstart : (if nack = true then
      match c.eventHandle with
      | some f => c.call (.event f .subcribeNack packetId)
      | none => c.emit .nullCall
      else c) = { c with log := c.log ++ if nack then nackCall c packetId else [] } := by
    unfold nackCall
    cases nack
    · simp
    · simp only [if_true]
      split <;> rfl
  have hviews : ∀ evs, evs = (if nack then nackCall c packetId else []) → freedIn evs = [] ∧
      sentIn evs = [] ∧ fatesIn evs = [] ∧ deliveredIn evs = [] ∧
      (c.held = [] → lockedIn evs = []) := by
    rintro evs rfl
    unfold nackCall
    cases nack <;> cases c.eventHandle <;> simp
  rw [hstart]
  generalize (if nack then nackCall c packetId else []) = evs at hviews ⊢
  obtain ⟨hf, hs, hp, hd, hl⟩ := hviews evs rfl
  simp only [Client.lock, maskSub_eq]
  generalize hr : ackedSub env packetId {} c.listSubWaitAck = r
  obtain ⟨h0, nodes⟩ := r
  simp only
  cases hf0 : h0.topicFilter with
  | none =>
    constructor <;>
      simp +contextual [hr, subackEffect, hf0, Client.unlock, hf, hs, hp, hd, hl]
  | some f =>
    cases nack with
    | true =>
      constructor <;>
        simp +contextual [hr, subackEffect, hf0, Client.unlock, Client.notifySub_eq, Client.free_eq, hf,
          hs, hp, hd, hl]
    | false =>
      cases hscan : scanSlots h0 c.subHandles.slots 0 none with
      | identical i =>
        constructor <;>
          simp +contextual [hr, subackEffect, hf0, hscan, notifySubscribed, Client.unlock,
            Client.notify_eq, Client.notifySub_eq, Client.free_eq, hf, hs, hp, hd, hl]
      | different iFree =>
        cases iFree with
        | none =>
          constructor <;>
            simp +contextual [hr, subackEffect, hf0, hscan, Client.unlock, hf, hs, hp, hd, hl]
        | some i =>
          constructor <;>
            simp +contextual [hr, subackEffect, hf0, hscan, notifySubscribed, Client.unlock,
              Client.notify_eq, Client.notifySub_eq, hf, hs, hp, hd, hl]

/-! ## What the other packets leave alone -/

/-- The loop of `_deliver_message` calls a handler only after `lock_generic` is given back, and
holds the lock again where it goes on. -/
theorem deliverLoop_frame (decision : Bytes → Bool) (msg : MqttMessage) :
    ∀ (slots : List SubTopicHandle) {c : Client}, c.held = [.generic] →
      let r := deliverLoop decision msg c slots
      Frame { c with held := [] } { r.2 with held := [] } ∧
        r.2.held = if r.1 then [] else [.generic] := by
  intro slots
  induction slots with
  | nil =>
    intro c hheld
    exact ⟨Frame.refl _, by simpa [deliverLoop] using hheld⟩
  | cons slot slots ih =>
    intro c hheld
    simp only [deliverLoop]
    by_cases ht : slotTakes decision slot = true
    · rw [if_pos ht]
      cases hh : slot.messageHandler with
      | some f =>
        refine ⟨?_, by simp [Client.unlock, hheld]⟩
        constructor <;> simp [Client.unlock, Client.call, hheld]
      | none =>
        have hlocked : ((c.unlock .generic).lock .generic).held = [.generic] := by simp [hheld]
        obtain ⟨hf, hl⟩ := ih hlocked
        refine ⟨Frame.trans ?_ hf, hl⟩
        constructor <;> simp [Client.lock, Client.unlock]
    · rw [if_neg ht]
      exact ih hheld

/-- Delivering calls back without a mutex and changes no table. -/
theorem deliverMessage_frame {c : Client} (before : UInt8) (topicName : Bytes) (len : UInt16)
    (msg : MqttMessage) (hheld : c.held = []) :
    Frame (c.emit (.deliver msg)) (deliverMessage c before topicName len msg) := by
  unfold deliverMessage
  simp only
  generalize hc0 : c.emit (.deliver msg) = c0
  have hheld0 : c0.held = [] := by rw [← hc0]; exact hheld
  obtain ⟨hf, hl⟩ := deliverLoop_frame (fun f => topicDecision before f topicName len) msg
    (c0.lock .generic).subHandles.slots (c := c0.lock .generic) (by simp [hheld0])
  have hstart : Frame c0 { c0.lock .generic with held := [] } := by
    constructor <;> simp [hheld0]
  generalize deliverLoop _ msg _ _ = r at hf hl
  obtain ⟨taken, c'⟩ := r
  simp only at hf hl
  have hcase := hstart.trans hf
  cases taken with
  | true =>
    have hheld' : c'.held = [] := by simpa using hl
    have he : { c' with held := [] } = c' := by rw [← hheld']
    exact he ▸ hcase
  | false =>
    have hheld' : c'.held = [.generic] := by simpa using hl
    have hunlock : Frame { c' with held := [] } (c'.unlock .generic) := by
      constructor <;> simp [hheld']
    exact (hcase.trans hunlock).trans
      (Frame.notify _ _ (by simp [hheld']) (by decide) (by decide))

theorem sendPubAck_frame (c : Client) (type : MessageTypes) (id : UInt16) (env : SendEnv) :
    Frame c (sendPubAck c type id env).2 := by
  unfold sendPubAck
  simp only
  split
  · exact Frame.lockUnlock (Frame.refl _)
  · exact Frame.lockUnlock ((Frame.write _ _).trans (sendMqttPacket_frame _ _ _))

/-- A PUBLISH above QoS 0: its id is recorded, and it is delivered unless the id was recorded
before. -/
def receivePublish (c : Client) (packetId : UInt16) (msg : MqttMessage) : Client := { c with
  repeatBuf := addPacketIdToRepeatBuf c.repeatBuf packetId
  log := if getPacketIdInRepeatBuf c.repeatBuf packetId = none then c.log ++ [.deliver msg]
    else c.log }

/-- The part of `_handle_publish_packet` between the check of the QoS and the acknowledgement. -/
theorem receivePublish_frame {c : Client} {before : UInt8} {topicName : Bytes} {len : UInt16}
    {packetId : UInt16} {msg : MqttMessage} (hheld : c.held = []) :
    let c' := if getPacketIdInRepeatBuf c.repeatBuf packetId = none then
        deliverMessage c before topicName len msg
      else c
    Frame (receivePublish c packetId msg)
      { c' with repeatBuf := addPacketIdToRepeatBuf c'.repeatBuf packetId } := by
  unfold receivePublish
  by_cases hnew : getPacketIdInRepeatBuf c.repeatBuf packetId = none
  · have hdeliver := deliverMessage_frame before topicName len msg hheld
    have hbuf : (deliverMessage c before topicName len msg).repeatBuf = c.repeatBuf :=
      hdeliver.repeatBuf
    simp only [hnew, if_true, hbuf]
    exact hdeliver.setRepeatBuf _
  · simp only [hnew, if_false]
    exact Frame.refl _

theorem handlePubrec_frame (c : Client) (env : CycleEnv) : Frame c (handlePubrecPacket c env).2 := by
  unfold handlePubrecPacket
  split
  · exact Frame.refl c
  · exact sendPubAck_frame _ _ _ _

theorem afterPacket_frame (c : Client) (packetType : UInt8) (env : CycleEnv) :
    Frame c (afterPacket c packetType env) := by
  unfold afterPacket
  split
  · unfold handlePingrespPacket
    constructor <;> simp
  · split
    · constructor <;> simp
    · exact Frame.refl c

/-! ## One cycle -/

/-- A packet read and decoded that touches more than the connection: an acknowledgement, a SUBACK
with its return codes, or a PUBLISH above QoS 0. -/
inductive Inbound where
  | puback (packetId : UInt16)
  | suback (packetId : UInt16) (codes : List UInt8)
  | unsuback (packetId : UInt16)
  | publish (packetId : UInt16) (msg : MqttMessage)
  deriving DecidableEq, Repr

/-- The packet in the read buffer, by its type. -/
def decodeInbound (c : Client) (packetType : UInt8) (w : WordSize) : Option Inbound :=
  if packetType = MessageTypes.puback.code then
    match deserializeAckPacket c.readBuf c.readBufSize with
    | .ok (_, _, packetId) => some (.puback packetId)
    | .error _ => none
  else if packetType = MessageTypes.suback.code then
    match deserializeSubackPacket 1 c.readBuf c.readBufSize with
    | .ok (packetId, codes) => some (.suback packetId codes)
    | .error _ => none
  else if packetType = MessageTypes.unsuback.code then
    match deserializeUnsubackPacket c.readBuf c.readBufSize with
    | .ok packetId => some (.unsuback packetId)
    | .error _ => none
  else if packetType = MessageTypes.publish.code then
    match deserializePublishPacket w c.readBuf c.readBufSize with
    | .ok p =>
      if p.qos = .qos0 then none
      else some (.publish (p.packetId.getD 0) (publishMessage c.readBuf p))
    | .error _ => none
  else none

/-- The packet that a cycle acts on. -/
def inboundOf (c : Client) (packetType : UInt8) (env : CycleEnv) : Option Inbound :=
  let r := readMqttPacket c packetType env.reads
  if r.rc = .retSuccess then decodeInbound r.client r.packetType env.wordSize else none

/-- Any other type. -/
theorem handlePacket_frame {c : Client} {packetType : UInt8} {env : CycleEnv}
    (hpuback : packetType ≠ MessageTypes.puback.code)
    (hsuback : packetType ≠ MessageTypes.suback.code)
    (hunsuback : packetType ≠ MessageTypes.unsuback.code)
    (hpublish : packetType ≠ MessageTypes.publish.code) :
    Frame c (handlePacket c packetType env).2 := by
  unfold handlePacket
  rw [if_neg hpuback, if_neg hsuback, if_neg hunsuback, if_neg hpublish]
  split
  · exact Frame.refl c
  split
  · exact handlePubrec_frame c env
  · simp only [apply_ite Prod.snd, ite_self]
    exact Frame.refl c

/-- What handling such a packet does to the client. -/
inductive InboundStep (env : CycleEnv) (c : Client) : Inbound → Client → Prop where
  | puback (packetId : UInt16) : InboundStep env c (.puback packetId) { c with
      listPubWaitAck :=
        if env.iterOk then c.listPubWaitAck.map (PubInfo.mask packetId) else c.listPubWaitAck
      log := c.log ++ ([.lock .listPub, .unlock .listPub] ++
        Client.eventCall c.eventHandle .publishSuccess packetId c.held) }
  | suback {packetId : UInt16} {codes : List UInt8} {c' : Client}
      (h : SubackStep env packetId (codes.headD 0 == 0x80) c c') :
      InboundStep env c (.suback packetId codes) c'
  | unsuback (packetId : UInt16) : InboundStep env c (.unsuback packetId) { c with
      listSubWaitAck := (ackedSub env packetId env.junk c.listSubWaitAck).2
      log := c.log ++ ([.lock .listSub, .unlock .listSub, .lock .generic] ++
        ((ackedSub env packetId env.junk c.listSubWaitAck).1.topicFilter.toList.map
          fun f => .free f.addr) ++
        Client.eventCall c.eventHandle .unsubcribeSuccess packetId (.generic :: c.held) ++
        [.unlock .generic]) }
  | publish {packetId : UInt16} {msg : MqttMessage} {c' : Client} (hqos : msg.qos ≠ .qos0)
      (h : Frame (receivePublish c packetId msg) c') : InboundStep env c (.publish packetId msg) c'

/-- An inbound PUBLISH above QoS 0 is recorded and acknowledged, any other delivered at most. -/
theorem handlePublish_cases {c : Client} (env : CycleEnv) (hheld : c.held = []) :
    (∃ p, deserializePublishPacket env.wordSize c.readBuf c.readBufSize = .ok p ∧ p.qos ≠ .qos0 ∧
      Frame (receivePublish c (p.packetId.getD 0) (publishMessage c.readBuf p))
        (handlePublishPacket c env).2) ∨
    ((∀ p, deserializePublishPacket env.wordSize c.readBuf c.readBufSize = .ok p → p.qos = .qos0) ∧
      Frame c (handlePublishPacket c env).2) := by
  unfold handlePublishPacket
  cases hd : deserializePublishPacket env.wordSize c.readBuf c.readBufSize with
  | error e => exact Or.inr ⟨fun _ h => absurd h (by simp), Frame.refl c⟩
  | ok p =>
    simp only
    by_cases hq : p.qos = .qos0
    · rw [if_pos hq]
      refine Or.inr ⟨fun p' h => Except.ok.inj h ▸ hq, Frame.trans ?_ (deliverMessage_frame _ _ _ _ hheld)⟩
      exact Frame.emit c rfl rfl (by simp [publishMessage, hq]) rfl
    · rw [if_neg hq]
      exact Or.inl ⟨p, rfl, hq, (receivePublish_frame hheld).trans (sendPubAck_frame _ _ _ _)⟩

/-- A decoded packet is handled; any other leaves the tables alone. -/
theorem handlePacket_cases {c : Client} (packetType : UInt8) (env : CycleEnv)
    (hheld : c.held = []) :
    (∃ pkt, decodeInbound c packetType env.wordSize = some pkt ∧
      InboundStep env c pkt (handlePacket c packetType env).2) ∨
    (decodeInbound c packetType env.wordSize = none ∧
      Frame c (handlePacket c packetType env).2) := by
  unfold decodeInbound
  by_cases hpuback : packetType = MessageTypes.puback.code
  · have hh : handlePacket c packetType env = handlePubackPacket c env := by
      simp [handlePacket, hpuback, MessageTypes.code]
    rw [if_pos hpuback, hh]
    cases hd : deserializeAckPacket c.readBuf c.readBufSize with
    | ok x =>
      rw [handlePuback_eq env hd]
      exact Or.inl ⟨_, rfl, InboundStep.puback x.2.2⟩
    | error e => exact Or.inr ⟨rfl, by simp [handlePubackPacket, hd, Frame.refl]⟩
  rw [if_neg hpuback]
  by_cases hsuback : packetType = MessageTypes.suback.code
  · have hh : handlePacket c packetType env = handleSubackPacket c env := by
      simp [handlePacket, hsuback, MessageTypes.code]
    rw [if_pos hsuback, hh]
    cases hd : deserializeSubackPacket 1 c.readBuf c.readBufSize with
    | ok x => exact Or.inl ⟨_, rfl, InboundStep.suback (handleSuback_step hd)⟩
    | error e => exact Or.inr ⟨rfl, by simp [handleSubackPacket, hd, Frame.refl]⟩
  rw [if_neg hsuback]
  by_cases hunsuback : packetType = MessageTypes.unsuback.code
  · have hh : handlePacket c packetType env = handleUnsubackPacket c env := by
      simp [handlePacket, hunsuback, MessageTypes.code]
    rw [if_pos hunsuback, hh]
    cases hd : deserializeUnsubackPacket c.readBuf c.readBufSize with
    | ok x =>
      rw [handleUnsuback_eq env hd]
      exact Or.inl ⟨_, rfl, InboundStep.unsuback x⟩
    | error e => exact Or.inr ⟨rfl, by simp [handleUnsubackPacket, hd, Frame.refl]⟩
  rw [if_neg hunsuback]
  by_cases hpublish : packetType = MessageTypes.publish.code
  · have hh : handlePacket c packetType env = handlePublishPacket c env := by
      simp [handlePacket, hpublish, MessageTypes.code]
    rw [if_pos hpublish, hh]
    rcases handlePublish_cases env hheld with ⟨p, hp, hq, hf⟩ | ⟨hq, hf⟩
    · rw [hp]
      simp only [if_neg hq]
      exact Or.inl ⟨_, rfl, InboundStep.publish hq hf⟩
    · refine Or.inr ⟨?_, hf⟩
      cases hd : deserializePublishPacket env.wordSize c.readBuf c.readBufSize with
      | error e => rfl
      | ok p => simp only [if_pos (hq p hd)]
  · rw [if_neg hpublish]
    exact Or.inr ⟨rfl, handlePacket_frame hpuback hsuback hunsuback hpublish⟩

/-- **What a cycle amounts to**, with no mutex held at its start: the packet it has decoded is
handled, or nothing happens to the tables. -/
theorem cycle_cases {c : Client} (packetType : UInt8) (env : CycleEnv) (hheld : c.held = []) :
    (∃ pkt c1 c2, inboundOf c packetType env = some pkt ∧ Frame c c1 ∧
      InboundStep env c1 pkt c2 ∧ Frame c2 (cycleForRead c packetType env).2.2) ∨
    (inboundOf c packetType env = none ∧ Frame c (cycleForRead c packetType env).2.2) := by
  have hread := readMqttPacket_frame c packetType env.reads
  unfold cycleForRead inboundOf
  generalize readMqttPacket c packetType env.reads = r at hread ⊢
  obtain ⟨rc, type, reads, c1⟩ := r
  simp only at hread ⊢
  by_cases hnothing : rc = .errMqttNothingToRead
  · rw [if_pos hnothing, if_neg (by simp [hnothing])]
    exact Or.inr ⟨rfl, hread⟩
  rw [if_neg hnothing]
  by_cases hrc : rc = .retSuccess
  swap
  · rw [if_pos hrc, if_neg hrc]
    exact Or.inr ⟨rfl, hread⟩
  rw [if_neg (not_not.mpr hrc), if_pos hrc]
  have hafter := afterPacket_frame (handlePacket c1 type env).2 type env
  rcases handlePacket_cases type env (hread.held.trans hheld) with ⟨pkt, hpkt, hstep⟩ | ⟨hpkt, hf⟩
  · exact Or.inl ⟨pkt, c1, _, hpkt, hread, hstep, hafter⟩
  · exact Or.inr ⟨hpkt, (hread.trans hf).trans hafter⟩

end QcloudIot.Mqtt
