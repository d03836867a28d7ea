import QcloudIot.Mqtt.Framing
import QcloudIot.Mqtt.Inbound
import QcloudIot.Mqtt.RoundTrip

/-!
# A message, from the network to its callback

A PUBLISH packet that `_read_mqtt_packet` puts into the read buffer, over what an earlier packet has
left there, and the `message_handler` that `_handle_publish_packet` calls for it.

* `readMqttPacket_reads`: the packet in the buffer, and nothing else changed;
* `deserialize_onWire`: what is read of it depends on its own bytes;
* `messagesIn_handlePublish`: the one callback, of the first subscription that takes the topic.
-/

namespace QcloudIot.Mqtt

open Lib

/-! ## Reading a packet -/

/-- The reads of a packet that arrives whole and in time: its bytes are asked for one by one up to
the body. -/
def MqttPacket.reads (p : MqttPacket) : NetReads :=
  (.retSuccess, [p.header]) :: (p.remLen.map fun b => (.retSuccess, [b])) ++ [(.retSuccess, p.body)]

/-- The remaining length is read, and nothing more. -/
theorem decodeRemLenNet_reads {bs : Bytes} {n : Nat} (h : Varint bs n) (rest : NetReads) :
    ∀ {left m v : Nat}, bs.length ≤ left →
      decodeRemLenNet left m v ((bs.map fun b => (.retSuccess, [b])) ++ rest) =
        (.ok (v + n * m), rest) := by
  have hbyte : ∀ (b : UInt8) (reads : NetReads),
      resultsNetwork.read ((.retSuccess, [b]) :: reads) 1 = (.retSuccess, [b], reads) :=
    fun _ _ => rfl
  induction h with
  | @last b n hb hn =>
    intro left m v hleft
    obtain ⟨left, rfl⟩ : ∃ k, left = k + 1 := ⟨left - 1, by rw [List.length_singleton] at hleft; omega⟩
    rw [List.map_singleton, List.singleton_append, ← decodeRemLen_eq,
      decodeRemLen_byte (hbyte b rest), if_neg (by omega), Nat.mod_eq_of_lt hb, ← hn]
  | @more b bs k n hb h hk hn ih =>
    intro left m v hleft
    obtain ⟨left, rfl⟩ : ∃ k, left = k + 1 := ⟨left - 1, by rw [List.length_cons] at hleft; omega⟩
    have hlt := b.toNat_lt
    have hdigit : b.toNat % 128 = b.toNat - 128 := by omega
    rw [List.length_cons] at hleft
    have hrest := ih (m := m * 128) (v := v + (b.toNat - 128) * m) (Nat.le_of_succ_le_succ hleft)
    rw [List.map_cons, List.cons_append, ← decodeRemLen_eq, decodeRemLen_byte (hbyte b _), if_pos hb,
      hdigit, decodeRemLen_eq, hrest, hn]
    simp only [Prod.mk.injEq, Except.ok.injEq, and_true]
    ring

/-- **A packet that fits** ends up in the buffer, and nothing behind it changes. -/
theorem readMqttPacket_reads {c : Client} {p : MqttPacket} (hbody : p.body ≠ [])
    (hfits : p.bytes.length ≤ c.readBufSize) (packetType : UInt8) :
    ∃ m : Mem, m.load 0 p.bytes.length = p.bytes ∧
      (∀ q, p.bytes.length ≤ q → m q = c.readBuf q) ∧
      readMqttPacket c packetType p.reads =
        ⟨.retSuccess, headerType p.header, [], { c with readBuf := m }⟩ := by
  have hlen := p.length_bytes
  have hpos := List.length_pos_iff.mpr hbody
  have hcode := remLen_length p.encoded p.bounded
  have hwritten := varint_eq_written p.encoded (p.bounded.trans (by norm_num))
  have hdec := decodeRemLenNet_reads p.encoded [(.retSuccess, p.body)] (m := 1) (v := 0) hcode.2
  rw [Nat.zero_add, Nat.mul_one] at hdec
  obtain ⟨m, hm⟩ : ∃ m : Mem, ((c.readBuf.store 0 [p.header]).store 1 p.remLen).store
      (1 + p.remLen.length) p.body = m := ⟨_, rfl⟩
  have hload : m.load 0 p.bytes.length = p.bytes := by
    rw [hlen, ← hm]
    exact Mem.load_store_append (Mem.load_store_append (Mem.load_store c.readBuf 0 [p.header]) p.remLen)
      p.body
  refine ⟨m, hload, fun q hq => ?_, ?_⟩
  · have hbeyond : ∀ (m : Mem) {k : Nat} {bs : Bytes}, k + bs.length ≤ q → m.store k bs q = m q := by
      intro m k bs hle
      have hnone : bs[q - k]? = none := List.getElem?_eq_none (by omega)
      rw [Mem.store, if_pos (by omega), List.getD_eq_getElem?_getD, hnone]
      rfl
    rw [← hm, hbeyond _ (by omega), hbeyond _ (by omega), hbeyond _ (by rw [List.length_singleton]; omega)]
  · have hfirst : m 0 = p.header := by
      rw [hlen, Nat.add_assoc, Nat.add_comm 1, Mem.load_succ] at hload
      exact (List.cons.inj hload).1
    have hfirstRead : netRead 1 p.reads = (.retSuccess, [p.header],
        (p.remLen.map fun b => (.retSuccess, [b])) ++ [(.retSuccess, p.body)]) := rfl
    have hbodyRead : netRead p.body.length [(.retSuccess, p.body)] = (.retSuccess, p.body, []) := by
      rw [netRead, List.take_length]
    unfold readMqttPacket
    simp only [hfirstRead, hdec]
    rw [if_neg (by decide), if_neg (by decide), if_neg (by simp only [Client.fill]; omega), ← hwritten]
    unfold readPayload
    rw [if_neg (by simp only [Client.fill]; omega)]
    simp only [gt_iff_lt, hpos, if_true, hbodyRead]
    rw [if_neg (by decide)]
    simp only [Client.fill, hm, hfirst]

/-! ## A PUBLISH -/

/-- A well-formed PUBLISH packet; `id` is not sent at QoS 0. -/
structure PublishOnWire where
  header : UInt8
  topic : Bytes
  id : UInt16
  payload : Bytes
  isPublish : headerType header = MessageTypes.publish.code
  topicFits : topic.length ≤ maxSizeOfCloudTopic
  bounded : 2 + topic.length + (headerQos header).idLen + payload.length < 2 ^ 28

namespace PublishOnWire

variable (p : PublishOnWire)

def body : Bytes :=
  mqttWriteUint16 (UInt16.ofNat p.topic.length) ++
    (p.topic ++ (packetIdBytes (headerQos p.header) p.id ++ p.payload))

theorem length_body :
    p.body.length = 2 + p.topic.length + (headerQos p.header).idLen + p.payload.length := by
  simp only [body, List.length_append, mqttWriteUint16_length, packetIdBytes_length]
  omega

def packet : MqttPacket where
  header := p.header
  remLen := mqttWritePacketRemLen (UInt32.ofNat p.body.length)
  body := p.body
  encoded := by
    have hlen := p.length_body
    have hlt := p.bounded
    have h := mqttWritePacketRemLen_varint (UInt32.ofNat p.body.length)
    rwa [UInt32.toNat_ofNat', Nat.mod_eq_of_lt (by omega)] at h
  bounded := p.length_body ▸ p.bounded

/-- The bytes of the packet. -/
def bytes : Bytes := p.packet.bytes

/-- Where the topic and the payload begin. -/
def topicStart : Nat := 1 + p.packet.remLen.length + 2
def payloadStart : Nat := p.topicStart + p.topic.length + (headerQos p.header).idLen

theorem length_bytes : p.bytes.length = p.payloadStart + p.payload.length := by
  have hlen := p.packet.length_bytes
  have hbody : p.packet.body.length = _ := p.length_body
  rw [bytes, hlen, hbody, payloadStart, topicStart]
  omega

/-- What `deserialize_publish_packet` reads. -/
def read : PublishPacket where
  dup := headerDup p.header
  qos := headerQos p.header
  retained := headerRetain p.header
  packetId := if headerQos p.header ≠ .qos0 then some p.id else none
  topicName := p.topicStart
  topicNameLen := UInt16.ofNat p.topic.length
  payload := p.payloadStart
  payloadLen := p.payload.length

/-- The parts of the packet in a buffer that holds it. -/
structure Holds (buf : Mem) : Prop where
  header : buf 0 = p.header
  remLen : buf.load 1 p.packet.remLen.length = p.packet.remLen
  topicLen : mqttReadUint16 buf (1 + p.packet.remLen.length) = UInt16.ofNat p.topic.length
  topic : buf.load p.topicStart p.topic.length = p.topic
  id : headerQos p.header ≠ .qos0 → mqttReadUint16 buf (p.topicStart + p.topic.length) = p.id
  payload : buf.load p.payloadStart p.payload.length = p.payload

theorem holds_of_load {buf : Mem} (h : buf.load 0 p.bytes.length = p.bytes) : p.Holds buf := by
  have hbytes : p.bytes = p.header :: (p.packet.remLen ++ p.body) := rfl
  rw [hbytes, List.length_cons, Mem.load_succ, List.cons.injEq] at h
  obtain ⟨hfirst, h⟩ := h
  obtain ⟨hcodeAt, h⟩ := Mem.load_append_iff.mp h
  obtain ⟨hlenAt, h⟩ := Mem.load_append_iff.mp h
  obtain ⟨htopicAt, h⟩ := Mem.load_append_iff.mp h
  obtain ⟨hidAt, hpayloadAt⟩ := Mem.load_append_iff.mp h
  rw [packetIdBytes_length] at hidAt hpayloadAt
  refine ⟨hfirst, hcodeAt, readUint16_written hlenAt, htopicAt, fun hqos => ?_, hpayloadAt⟩
  have hpos := (qos_ne_qos0_iff _).mp hqos
  have hidLen : (headerQos p.header).idLen = 2 := by rw [QoS.idLen, if_neg hqos]
  rw [packetIdBytes, if_pos hpos, hidLen] at hidAt
  exact readUint16_written hidAt

theorem toNat_topicLen : (UInt16.ofNat p.topic.length).toNat = p.topic.length := by
  have hfits := p.topicFits
  rw [UInt16.toNat_ofNat', Nat.mod_eq_of_lt (by simp only [maxSizeOfCloudTopic] at hfits; omega)]

/-- **What is read of a PUBLISH** depends on its own bytes. -/
theorem deserialize_onWire (sz : WordSize) {buf : Mem} (h : p.Holds buf) {bufLen : Nat}
    (hfits : p.bytes.length ≤ bufLen) : deserializePublishPacket sz buf bufLen = .ok p.read := by
  have hlen := p.length_body
  have hbytes := p.length_bytes
  have hbound := p.bounded
  have hfitsTopic := p.topicFits
  have hcode := remLen_length p.packet.encoded p.packet.bounded
  have hdec := readRemLen_varint p.packet.encoded p.packet.bounded h.remLen
  have hname : (mqttReadUint16 buf (1 + p.packet.remLen.length)).toNat = p.topic.length := by
    rw [h.topicLen, toNat_topicLen]
  have hread : publishPacketAt sz buf p.packet.body.length p.packet.remLen.length = p.read := by
    have hpayload : ((1 + p.packet.remLen.length + p.packet.body.length : Nat) : Int) -
        (p.payloadStart : Nat) = (p.payload.length : Nat) := by
      rw [show p.packet.body.length = _ from hlen, payloadStart, topicStart]
      push_cast
      omega
    have hcast := sz.cast_of_nat (show p.payload.length < 2 ^ 28 by omega)
    unfold publishPacketAt read
    simp only [h.header, h.topicLen, toNat_topicLen]
    by_cases hqos : headerQos p.header = .qos0
    · have hstart : 1 + p.packet.remLen.length + 2 + p.topic.length = p.payloadStart := by
        rw [payloadStart, topicStart, QoS.idLen, if_pos hqos]
        rfl
      simp only [hqos, ne_eq, not_true, if_false, hstart, hpayload, hcast]
      rfl
    · have hstart : 1 + p.packet.remLen.length + 2 + p.topic.length + 2 = p.payloadStart := by
        rw [payloadStart, topicStart, QoS.idLen, if_neg hqos]
      have hid := h.id hqos
      rw [topicStart] at hid
      simp only [ne_eq, hqos, not_false_eq_true, if_true, hstart, hpayload, hcast, hid]
      rfl
  have htype : headerType (buf 0) = MessageTypes.publish.code := by
    rw [h.header]
    exact p.isPublish
  refine deserialize_ok_iff.mpr ⟨?_, htype, p.packet.body.length, p.packet.remLen.length, hdec, ?_, ?_,
    hread⟩
  · rw [payloadStart, topicStart] at hbytes
    omega
  · rw [hname]
    simp only [maxSizeOfCloudTopic, mqttRxBufLen] at hfitsTopic ⊢
    omega
  · rw [hname, show p.packet.body.length = _ from hlen]
    omega

/-- The message that is passed on. -/
def message : MqttMessage where
  qos := headerQos p.header
  retained := headerRetain p.header
  dup := headerDup p.header
  id := p.read.packetId
  topic := p.topic
  topicLen := UInt16.ofNat p.topic.length
  payload := p.payloadStart
  payloadLen := p.payload.length

theorem publishMessage_onWire {buf : Mem} (h : p.Holds buf) :
    fixTopicLen p.read.topicNameLen = UInt16.ofNat p.topic.length ∧
      publishMessage buf p.read = p.message := by
  have hlen : fixTopicLen p.read.topicNameLen = UInt16.ofNat p.topic.length := by
    have hfits := p.topicFits
    unfold fixTopicLen read
    simp only [toNat_topicLen]
    rw [if_neg (by omega)]
  refine ⟨hlen, ?_⟩
  unfold publishMessage message
  rw [hlen, toNat_topicLen, show p.read.topicName = p.topicStart from rfl, h.topic]
  rfl

end PublishOnWire

/-! ## Its callback -/

/-- The messages that callbacks were called with, and the functions called. -/
def Ev.message? : Ev → Option (FnPtr × MqttMessage)
  | .callback (.message f msg _) _ => some (f, msg)
  | _ => none

def messagesIn (log : List Ev) : List (FnPtr × MqttMessage) := log.filterMap Ev.message?

theorem messagesIn_append (a b : List Ev) : messagesIn (a ++ b) = messagesIn a ++ messagesIn b :=
  List.filterMap_append

/-- The first subscription that takes a topic and has a handler. -/
def taker (decision : Bytes → Bool) : List SubTopicHandle → Option FnPtr
  | [] => none
  | slot :: slots =>
    if slotTakes decision slot then slot.messageHandler.or (taker decision slots)
    else taker decision slots

/-- The call of a handler. -/
def calls (f : Option FnPtr) (msg : MqttMessage) : List (FnPtr × MqttMessage) :=
  f.toList.map fun f => (f, msg)

theorem messagesIn_deliverLoop (decision : Bytes → Bool) (msg : MqttMessage) :
    ∀ (slots : List SubTopicHandle) (c : Client),
      messagesIn (deliverLoop decision msg c slots).2.log =
        messagesIn c.log ++ calls (taker decision slots) msg := by
  intro slots
  induction slots with
  | nil => intro c; exact (List.append_nil _).symm
  | cons slot slots ih =>
    intro c
    rw [deliverLoop, taker]
    by_cases htakes : slotTakes decision slot = true
    · rw [if_pos htakes, if_pos htakes]
      cases hhandler : slot.messageHandler with
      | some f =>
        simp only [Client.call, Client.unlock, messagesIn_append]
        rw [show messagesIn [Ev.unlock .generic] = [] from rfl, List.append_nil]
        rfl
      | none =>
        simp only
        rw [ih]
        simp only [Client.lock, Client.unlock, messagesIn_append]
        rw [show messagesIn [Ev.unlock .generic] = [] from rfl,
          show messagesIn [Ev.lock .generic] = [] from rfl, List.append_nil, List.append_nil]
        rfl
    · rw [if_neg htakes, if_neg htakes]
      exact ih c

theorem messagesIn_eventCall (f : Option FnPtr) (type : MqttEventType) (id : UInt16)
    (held : List Lock) : messagesIn (Client.eventCall f type id held) = [] := by
  cases f <;> rfl

theorem messagesIn_deliverMessage (c : Client) (before : UInt8) (topicName : Bytes) (len : UInt16)
    (msg : MqttMessage) : messagesIn (deliverMessage c before topicName len msg).log =
      messagesIn c.log ++
        calls (taker (fun f => topicDecision before f topicName len) c.subHandles.slots) msg := by
  have hloop := messagesIn_deliverLoop (fun f => topicDecision before f topicName len) msg
    c.subHandles.slots ((c.emit (.deliver msg)).lock .generic)
  have hstart : messagesIn ((c.emit (.deliver msg)).lock .generic).log = messagesIn c.log := by
    simp only [Client.emit, Client.lock, messagesIn_append]
    rw [show messagesIn [Ev.deliver msg] = [] from rfl,
      show messagesIn [Ev.lock .generic] = [] from rfl, List.append_nil, List.append_nil]
  rw [hstart] at hloop
  unfold deliverMessage
  simp only
  split
  · rename_i c' hc'
    rw [← hloop]
    exact congrArg (fun r => messagesIn r.2.log) hc'.symm
  · rename_i c' hc'
    rw [← hloop, Client.notify_eq]
    simp only [Client.unlock, messagesIn_append, messagesIn_eventCall]
    rw [show messagesIn [Ev.unlock .generic] = [] from rfl, List.append_nil, List.append_nil]
    exact congrArg (fun r => messagesIn r.2.log) hc'.symm

theorem messagesIn_sendMqttPacket (c : Client) (length : Nat) (env : SendEnv) :
    messagesIn (sendMqttPacket c length env).2.log = messagesIn c.log := by
  unfold sendMqttPacket
  split
  · rfl
  split
  · rfl
  · simp only
    split
    · simp only [Client.emit, messagesIn_append]
      exact (List.append_nil _).trans (List.append_nil _)
    · simp only [Client.emit, messagesIn_append]
      exact List.append_nil _

theorem messagesIn_sendPubAck (c : Client) (type : MessageTypes) (id : UInt16) (env : SendEnv) :
    messagesIn (sendPubAck c type id env).2.log = messagesIn c.log := by
  unfold sendPubAck
  simp only
  split
  · simp only [Client.lock, Client.unlock, messagesIn_append]
    exact (List.append_nil _).trans (List.append_nil _)
  · simp only [Client.unlock, messagesIn_append, messagesIn_sendMqttPacket]
    simp only [Client.write, Client.lock, messagesIn_append]
    exact (List.append_nil _).trans (List.append_nil _)

/-- A PUBLISH is passed on, unless its packet id has been seen. -/
def IsPassedOn (c : Client) (p : PublishPacket) : Prop :=
  p.qos = .qos0 ∨ getPacketIdInRepeatBuf c.repeatBuf (p.packetId.getD 0) = none

instance (c : Client) (p : PublishPacket) : Decidable (IsPassedOn c p) :=
  inferInstanceAs (Decidable (_ ∨ _))

/-- The array that the topic of a PUBLISH is copied to, and what lies beyond it. -/
def passedTopic (c : Client) (env : CycleEnv) (p : PublishPacket) : Bytes :=
  fixTopic c.readBuf p.topicName (fixTopicLen p.topicNameLen) env.stackBeyond

/-- The callback that an accepted PUBLISH leads to. -/
def callsFor (c : Client) (env : CycleEnv) (p : PublishPacket) : List (FnPtr × MqttMessage) :=
  if IsPassedOn c p then
    calls (taker (fun f => topicDecision env.stackBefore f (passedTopic c env p)
      (fixTopicLen p.topicNameLen)) c.subHandles.slots) (publishMessage c.readBuf p)
  else []

/-- **The one callback of a PUBLISH**, whatever its topic. -/
theorem messagesIn_handlePublishPacket {c : Client} {env : CycleEnv} {p : PublishPacket}
    (h : deserializePublishPacket env.wordSize c.readBuf c.readBufSize = .ok p) :
    messagesIn (handlePublishPacket c env).2.log = messagesIn c.log ++ callsFor c env p := by
  unfold handlePublishPacket callsFor passedTopic
  rw [h]
  simp only
  by_cases hqos : p.qos = .qos0
  · rw [if_pos hqos, if_pos (show IsPassedOn c p from .inl hqos)]
    exact messagesIn_deliverMessage _ _ _ _ _
  · rw [if_neg hqos, messagesIn_sendPubAck]
    by_cases hnew : getPacketIdInRepeatBuf c.repeatBuf (p.packetId.getD 0) = none
    · rw [if_pos hnew, if_pos (show IsPassedOn c p from .inr hnew)]
      exact messagesIn_deliverMessage _ _ _ _ _
    · have hpast : ¬ IsPassedOn c p := fun hp => hp.elim hqos hnew
      rw [if_neg hnew, if_neg hpast, List.append_nil]

/-- The callback that a PUBLISH leads to: none if its packet id has been seen. -/
def callsOf (c : Client) (env : CycleEnv) (p : PublishOnWire) : List (FnPtr × MqttMessage) :=
  if headerQos p.header = .qos0 ∨ getPacketIdInRepeatBuf c.repeatBuf (p.read.packetId.getD 0) = none then
    calls (taker (fun f => topicDecision env.stackBefore f
      (p.topic ++ List.replicate (maxSizeOfCloudTopic - p.topic.length) 0 ++ env.stackBeyond)
      (UInt16.ofNat p.topic.length)) c.subHandles.slots) p.message
  else []

/-- **The one callback of a PUBLISH.** -/
theorem messagesIn_handlePublish {c : Client} (env : CycleEnv) {p : PublishOnWire}
    (h : p.Holds c.readBuf) (hfits : p.bytes.length ≤ c.readBufSize) :
    messagesIn (handlePublishPacket c env).2.log = messagesIn c.log ++ callsOf c env p := by
  obtain ⟨hlen, hmessage⟩ := p.publishMessage_onWire h
  have htopic : fixTopic c.readBuf p.read.topicName (UInt16.ofNat p.topic.length) env.stackBeyond =
      p.topic ++ List.replicate (maxSizeOfCloudTopic - p.topic.length) 0 ++ env.stackBeyond := by
    rw [fixTopic, p.toNat_topicLen, show p.read.topicName = p.topicStart from rfl, h.topic]
  rw [messagesIn_handlePublishPacket (p.deserialize_onWire env.wordSize h hfits)]
  unfold callsFor callsOf passedTopic
  have hname : fixTopicLen p.read.topicNameLen = UInt16.ofNat p.topic.length := hlen
  rw [hname, hmessage, htopic]
  rfl

end QcloudIot.Mqtt
