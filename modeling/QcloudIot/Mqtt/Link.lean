import QcloudIot.Mqtt.Session

/-!
# The connection as the yield loop sees it

The fields of a client that decide when it pings, disconnects and reconnects, and the number of
connection attempts made so far (`Client.link`). Most functions leave them alone, whatever they do to
tables, wait lists and buffers; `cycle_for_read`, keep-alive, disconnecting and connecting are the
others.

Results:
* `subscribe_link`, `unsubscribe_link`, `publish_link`, `resubscribe_link`, `handlePacket_link` and
  the two sweeps: the connection is left alone;
* **`cycle_link`**: a cycle resets the count of pings without an answer, or leaves everything alone;
* `handleDisconnect_link`, **`keepAlive_link`**, **`attemptReconnect_link`**: what the rest does to it.
-/

namespace QcloudIot.Mqtt

open Lib

/-- The state of the connection. -/
structure Link where
  connected : Bool
  manual : Bool
  options : MqttConnectParams
  writeBufSize : Nat
  interval : UInt32
  delayTimer : Nat
  outstanding : UInt8
  pingTimer : Nat
  attempts : Nat

/-- The state of the client's connection; each attempt has called `network_stack.connect`. -/
def Client.link (c : Client) : Link where
  connected := c.isConnected
  manual := c.wasManuallyDisconnected
  options := c.options
  writeBufSize := c.writeBufSize
  interval := c.currentReconnectWaitInterval
  delayTimer := c.reconnectDelayTimer
  outstanding := c.isPingOutstanding
  pingTimer := c.pingTimer
  attempts := c.log.count .netConnect

/-! ## Steps that leave it alone -/

section Steps

variable (c : Client)

/-- Where a result is taken apart. -/
theorem link_of_eq {α : Type*} {r : α × Client} {a : α} {c' : Client} {l : Link} (h : r = (a, c'))
    (hlink : r.2.link = l) : c'.link = l := by
  rw [h] at hlink
  exact hlink

/-- Other entries of the log than a connection attempt. -/
theorem link_log (evs : List Ev) (h : Ev.netConnect ∉ evs) :
    ({ c with log := c.log ++ evs } : Client).link = c.link := by
  simp only [Client.link, List.count_append, List.count_eq_zero.mpr h, Nat.add_zero]

theorem link_emit {e : Ev} (h : e ≠ .netConnect) : (c.emit e).link = c.link :=
  link_log c [e] (by simpa using h.symm)

@[simp] theorem link_lock (l : Lock) : (c.lock l).link = c.link := link_emit c (by simp)
@[simp] theorem link_unlock (l : Lock) : (c.unlock l).link = c.link := link_emit c (by simp)
@[simp] theorem link_call (cb : Callback) : (c.call cb).link = c.link := link_emit c (by simp)
@[simp] theorem link_write (bs : Bytes) : (c.write bs).link = c.link := rfl
@[simp] theorem link_fill (p : Nat) (bs : Bytes) : (c.fill p bs).link = c.link := rfl

@[simp] theorem link_notify (type : MqttEventType) (id : UInt16) :
    (c.notify type id).link = c.link := by
  unfold Client.notify
  split
  · rfl
  · exact link_call c _

@[simp] theorem link_notifySub (h : SubTopicHandle) (type : MqttEventType) :
    (c.notifySub h type).link = c.link := by
  unfold Client.notifySub
  split
  · rfl
  · exact link_call c _

@[simp] theorem link_free (f : Option StoredFilter) : (c.free f).link = c.link := by
  unfold Client.free
  split
  · rfl
  · exact link_emit c (by simp)

@[simp] theorem link_getClientConnState : c.getClientConnState.2.link = c.link := by
  rw [Client.getClientConnState, link_unlock, link_lock]

@[simp] theorem link_getNextPacketId : c.getNextPacketId.2.link = c.link :=
  (link_unlock _ _).trans (link_lock c .generic)

@[simp] theorem link_setClientConnState (b : Bool) :
    (c.setClientConnState b).link = { c.link with connected := b } :=
  (link_unlock _ _).trans (congrArg (fun l : Link => { l with connected := b }) (link_lock c .generic))

@[simp] theorem sendMqttPacket_link (length : Nat) (env : SendEnv) :
    (sendMqttPacket c length env).2.link = c.link := by
  unfold sendMqttPacket
  split
  · rfl
  split
  · rfl
  · simp only
    split
    · exact (link_emit _ (by simp)).trans (link_emit c (by simp))
    · exact link_emit c (by simp)

@[simp] theorem readMqttPacket_link (packetType : UInt8) (reads : NetReads) :
    (readMqttPacket c packetType reads).client.link = c.link := by
  obtain ⟨buf, h⟩ := readMqttPacket_client c packetType reads
  rw [h]
  rfl

end Steps

/-! ## Requests -/

section Requests

variable (c : Client)

theorem pushSubInfoTo_link (msgId : UInt16) (type : MessageTypes) (handler : SubTopicHandle)
    (env : CallEnv) :
    (pushSubInfoTo c msgId type handler env).2.link = c.link := by
  unfold pushSubInfoTo
  simp only
  split
  · rw [link_unlock, link_lock]
  split
  · rw [link_unlock, link_lock]
  split
  · rw [link_unlock, link_lock]
  · exact (link_unlock _ _).trans (link_lock c .listSub)

theorem sendSubPacket_link (packetId : UInt16) (stored : StoredFilter) (node len : Nat)
    (env : SendEnv) :
    (sendSubPacket c packetId stored node len env).2.link = c.link := by
  have hsend := sendMqttPacket_link c len env
  unfold sendSubPacket
  simp only
  split
  · rw [link_free, link_unlock, link_unlock]
    exact (link_lock _ .listSub).trans hsend
  · rw [link_unlock, hsend]

theorem sendSubRequest_link (type : MessageTypes) (handle : StoredFilter → SubTopicHandle)
    (serialize : Nat → UInt16 → Bytes → Except ReturnCode Bytes) (topicFilter : Bytes) (env : CallEnv) :
    (sendSubRequest type handle serialize c topicFilter env).2.link = c.link := by
  unfold sendSubRequest
  simp only
  split
  · rfl
  have hstart :
      (Client.getNextPacketId ({ c with nextAddr := c.nextAddr + 1 }.lock .writeBuf)).2.link = c.link :=
    (link_getNextPacketId _).trans (link_lock _ _)
  split
  · rw [link_free, link_unlock, hstart]
  · rename_i packet _
    split
    · rename_i rc c1 hpush
      rw [link_free, link_unlock]
      exact link_of_eq hpush ((pushSubInfoTo_link _ _ _ _ _).trans ((link_write _ _).trans hstart))
    · rename_i node c1 hpush
      rw [sendSubPacket_link]
      exact link_of_eq hpush ((pushSubInfoTo_link _ _ _ _ _).trans ((link_write _ _).trans hstart))

@[simp] theorem subscribe_link (topicFilter : Option Bytes) (pParams : Option SubscribeParams)
    (env : CallEnv) :
    (qcloudIotMqttSubscribe c topicFilter pParams env).2.link = c.link := by
  unfold qcloudIotMqttSubscribe
  split
  · rfl
  split
  · rfl
  split
  · rfl
  simp only
  split
  · exact link_getClientConnState c
  · rw [sendSubRequest_link, link_getClientConnState]

theorem clearSlots_link (topicFilter : Bytes) (slots : List SubTopicHandle) :
    (clearSlots topicFilter c slots).2.link = c.link := by
  induction slots generalizing c with
  | nil => rfl
  | cons slot slots ih =>
    rw [clearSlots]
    split
    · exact (ih _).trans ((link_free _ _).trans (link_notifySub c slot _))
    · exact ih c

@[simp] theorem unsubscribe_link (topicFilter : Option Bytes) (env : CallEnv) :
    (qcloudIotMqttUnsubscribe c topicFilter env).2.link = c.link := by
  unfold qcloudIotMqttUnsubscribe
  split
  · rfl
  rename_i topic _
  have hremove : (removeHandlers c topic).link = c.link :=
    (link_unlock _ _).trans ((clearSlots_link (c.lock .generic) topic c.subHandles.slots).trans
      (link_lock c .generic))
  simp only
  split
  · exact hremove
  split
  · rw [link_getClientConnState, hremove]
  · rw [sendSubRequest_link, link_getClientConnState, hremove]

theorem maskPushPubInfoTo_link (len : Nat) (msgId : UInt16) (env : CallEnv) :
    (maskPushPubInfoTo c len msgId env).2.link = c.link := by
  unfold maskPushPubInfoTo
  simp only
  split
  · rfl
  split
  · rw [link_unlock, link_lock]
  split
  · rw [link_unlock, link_lock]
  split
  · rw [link_unlock, link_lock]
  · exact (link_unlock _ _).trans (link_lock c .listPub)

theorem sendPubPacket_link (id : UInt16) (node : Option Nat) (len : Nat) (env : SendEnv) :
    (sendPubPacket c id node len env).2.link = c.link := by
  have hsend := sendMqttPacket_link c len env
  unfold sendPubPacket
  simp only
  split
  · split
    · rw [link_unlock, link_unlock]
      exact (link_lock _ .listPub).trans hsend
    · rw [link_unlock, hsend]
  · rw [link_unlock, hsend]

theorem sendPublish_link (params : PublishParams) (topicName : Bytes) (id : UInt16) (env : CallEnv) :
    (sendPublish c params topicName id env).2.link = c.link := by
  unfold sendPublish
  split
  · exact link_unlock c _
  rename_i packet _
  simp only
  split
  · split
    · rename_i rc c1 hpush
      rw [link_unlock]
      exact link_of_eq hpush ((maskPushPubInfoTo_link _ _ _ _).trans (link_write c packet))
    · rename_i node c1 hpush
      rw [sendPubPacket_link]
      exact link_of_eq hpush ((maskPushPubInfoTo_link _ _ _ _).trans (link_write c packet))
  · rw [sendPubPacket_link, link_write]

@[simp] theorem publish_link (topicName : Option Bytes) (pParams : Option PublishParams)
    (env : CallEnv) :
    (qcloudIotMqttPublish c topicName pParams env).2.link = c.link := by
  unfold qcloudIotMqttPublish
  split
  · rfl
  split
  · rfl
  split
  · rfl
  simp only
  split
  · exact link_getClientConnState c
  split
  · rw [sendPublish_link, link_getNextPacketId, link_lock, link_getClientConnState]
  · rw [sendPublish_link, link_lock, link_getClientConnState]

theorem resubscribeLoop_link (slots : List SubTopicHandle) (envs : List CallEnv) :
    (resubscribeLoop slots c envs).2.link = c.link := by
  induction slots generalizing c envs with
  | nil => rfl
  | cons slot slots ih =>
    unfold resubscribeLoop
    split
    · exact ih c envs
    · simp only
      split
      · exact link_of_eq (by assumption) (subscribe_link c _ _ _)
      · exact (ih _ _).trans (link_of_eq (by assumption) (subscribe_link c _ _ _))

@[simp] theorem resubscribe_link (envs : List CallEnv) :
    (qcloudIotMqttResubscribe c envs).2.link = c.link := by
  unfold qcloudIotMqttResubscribe
  simp only
  split
  · exact link_getClientConnState c
  · rw [resubscribeLoop_link, link_getClientConnState]

end Requests

/-! ## A cycle -/

section Cycle

variable (c : Client)

theorem maskPubInfoFrom_link (msgId : UInt16) (iterOk : Bool) :
    (maskPubInfoFrom c msgId iterOk).link = c.link := by
  unfold maskPubInfoFrom
  simp only
  split
  · exact (link_unlock _ _).trans (link_lock c .listPub)
  · rw [link_unlock, link_lock]

theorem maskSubInfoFrom_link (msgId : UInt16) (h : SubTopicHandle) (iterOk : Bool) :
    (maskSubInfoFrom c msgId h iterOk).2.link = c.link := by
  unfold maskSubInfoFrom
  simp only
  split
  · exact (link_unlock _ _).trans (link_lock c .listSub)
  · rw [link_unlock, link_lock]

theorem notifySubscribed_link (packetId : UInt16) (h : SubTopicHandle) :
    (notifySubscribed c packetId h).2.link = c.link := by
  rw [notifySubscribed, link_notifySub, link_notify, link_unlock]

theorem handleSubackPacket_link (env : CycleEnv) : (handleSubackPacket c env).2.link = c.link := by
  unfold handleSubackPacket
  split
  · rfl
  rename_i packetId grantedQoS _
  simp only
  generalize hnack : (grantedQoS.headD 0 == 0x80) = nack
  generalize hcall : (if nack = true then _ else c : Client) = c1
  have h1 : c1.link = c.link := by
    rw [← hcall]
    split
    · split
      · exact link_call c _
      · exact link_emit c (by simp)
    · rfl
  generalize hmask : maskSubInfoFrom (c1.lock .generic) packetId {} env.iterOk = r
  have h2 : r.2.link = c.link := by rw [← hmask, maskSubInfoFrom_link, link_lock, h1]
  split
  · rw [link_unlock, h2]
  split
  · rw [link_free, link_notifySub, link_unlock, h2]
  split
  · rw [notifySubscribed_link, link_free]
    exact h2
  · rw [link_unlock, h2]
  · rw [notifySubscribed_link]
    exact h2

theorem handleUnsubackPacket_link (env : CycleEnv) : (handleUnsubackPacket c env).2.link = c.link := by
  unfold handleUnsubackPacket
  split
  · rfl
  · simp only
    rw [link_unlock, link_notify, link_free, link_lock, maskSubInfoFrom_link]

theorem deliverLoop_link (decision : Bytes → Bool) (msg : MqttMessage) (slots : List SubTopicHandle) :
    (deliverLoop decision msg c slots).2.link = c.link := by
  induction slots generalizing c with
  | nil => rfl
  | cons slot slots ih =>
    unfold deliverLoop
    split
    · simp only
      split
      · rw [link_call, link_unlock]
      · rw [ih, link_lock, link_unlock]
    · exact ih c

theorem deliverMessage_link (before : UInt8) (topicName : Bytes) (len : UInt16) (msg : MqttMessage) :
    (deliverMessage c before topicName len msg).link = c.link := by
  have hstart : ((c.emit (.deliver msg)).lock .generic).link = c.link :=
    (link_lock _ _).trans (link_emit c (by simp))
  unfold deliverMessage
  simp only
  split
  · rename_i hloop
    exact link_of_eq hloop ((deliverLoop_link _ _ _ _).trans hstart)
  · rename_i hloop
    rw [link_notify, link_unlock]
    exact link_of_eq hloop ((deliverLoop_link _ _ _ _).trans hstart)

theorem sendPubAck_link (type : MessageTypes) (id : UInt16) (env : SendEnv) :
    (sendPubAck c type id env).2.link = c.link := by
  unfold sendPubAck
  simp only
  split
  · rw [link_unlock, link_lock]
  · rw [link_unlock, sendMqttPacket_link, link_write, link_lock]

theorem handlePublishPacket_link (env : CycleEnv) : (handlePublishPacket c env).2.link = c.link := by
  unfold handlePublishPacket
  split
  · rfl
  simp only
  split
  · exact deliverMessage_link c _ _ _ _
  · rw [sendPubAck_link]
    refine Eq.trans (b := Client.link (if _ then _ else c)) rfl ?_
    split
    · exact deliverMessage_link c _ _ _ _
    · rfl

/-- **A handler** leaves the connection alone. -/
theorem handlePacket_link (packetType : UInt8) (env : CycleEnv) :
    (handlePacket c packetType env).2.link = c.link := by
  unfold handlePacket
  split
  · rfl
  split
  · unfold handlePubackPacket
    split
    · rfl
    · rw [link_notify, maskPubInfoFrom_link]
  split
  · exact handleSubackPacket_link c env
  split
  · exact handleUnsubackPacket_link c env
  split
  · exact handlePublishPacket_link c env
  split
  · unfold handlePubrecPacket
    split
    · rfl
    · exact sendPubAck_link c _ _ _
  repeat' split
  all_goals rfl

end Cycle

/-- The type of the packet that a cycle reads. -/
def packetRead (c : Client) (packetType : UInt8) (env : CycleEnv) : Option UInt8 :=
  if (readMqttPacket c packetType env.reads).rc = .retSuccess then
    some (readMqttPacket c packetType env.reads).packetType
  else none

/-- The packets after which the connection counts as alive: PUBACK, SUBACK, UNSUBACK, PINGRESP and
PUBLISH. -/
def isTraffic (packetType : UInt8) : Bool :=
  packetType == MessageTypes.puback.code || packetType == MessageTypes.suback.code ||
    packetType == MessageTypes.unsuback.code || packetType == MessageTypes.pingresp.code ||
    packetType == MessageTypes.publish.code

/-- A packet has been handled: such a packet clears the count of pings, and all but PUBLISH start the
ping timer anew. -/
def Link.afterPacket (l : Link) (packetType : UInt8) (clock : Nat) : Link :=
  if isTraffic packetType then
    { l with
      outstanding := 0
      pingTimer := if packetType = MessageTypes.publish.code then l.pingTimer
        else clock + 1000 * l.options.keepAliveInterval.toNat }
  else l

theorem afterPacket_link (c : Client) (packetType : UInt8) (env : CycleEnv) :
    (afterPacket c packetType env).link = c.link.afterPacket packetType env.clock := by
  have hlock := link_lock c .generic
  unfold afterPacket Link.afterPacket isTraffic
  by_cases hpublish : packetType = MessageTypes.publish.code
  · subst hpublish
    exact (link_unlock _ _).trans (congrArg (fun l : Link => { l with outstanding := 0 }) hlock)
  by_cases hack : packetType = MessageTypes.puback.code ∨ packetType = MessageTypes.suback.code ∨
      packetType = MessageTypes.unsuback.code ∨ packetType = MessageTypes.pingresp.code
  · rw [if_pos hack, if_pos (by simpa [or_assoc, hpublish] using hack), if_neg hpublish]
    exact (link_unlock _ _).trans (congrArg (fun l : Link => { l with
      outstanding := 0
      pingTimer := env.clock + 1000 * c.options.keepAliveInterval.toNat }) hlock)
  · rw [if_neg hack, if_neg hpublish, if_neg (by simpa [or_assoc, hpublish] using hack)]

/-- **A cycle**: whatever the handler returns, the packet read counts. -/
theorem cycle_link (c : Client) (packetType : UInt8) (env : CycleEnv) :
    (cycleForRead c packetType env).2.2.link =
      ((packetRead c packetType env).map fun t => c.link.afterPacket t env.clock).getD c.link := by
  have hread := readMqttPacket_link c packetType env.reads
  unfold cycleForRead packetRead
  simp only
  by_cases hnothing : (readMqttPacket c packetType env.reads).rc = .errMqttNothingToRead
  · rw [if_pos hnothing, if_neg (by rw [hnothing]; simp)]
    exact hread
  rw [if_neg hnothing]
  by_cases hrc : (readMqttPacket c packetType env.reads).rc = .retSuccess
  · rw [if_neg (not_not.mpr hrc), if_pos hrc, Option.map_some, Option.getD_some]
    exact (afterPacket_link _ _ _).trans (by rw [handlePacket_link, hread])
  · rw [if_pos hrc, if_neg hrc]
    exact hread

@[simp] theorem pubInfoProc_link (c : Client) (env : SweepEnv) :
    (qcloudIotMqttPubInfoProc c env).link = c.link := by
  rw [pubInfoProc_eq]
  exact link_log { c with listPubWaitAck := _ } _ (by simp [pubTimeoutEvents, Client.eventCall])

@[simp] theorem subInfoProc_link (c : Client) (env : SweepEnv) :
    (qcloudIotMqttSubInfoProc c env).link = c.link := by
  rw [subInfoProc_eq]
  refine link_log { c with listSubWaitAck := _ } _ ?_
  simp only [List.mem_append, List.mem_flatMap, List.mem_singleton, reduceCtorEq, or_false, false_or,
    not_exists, not_and, subTimeoutEvents, List.mem_map]
  rintro n - (hcall | ⟨f, -, h⟩)
  · split at hcall
    · exact absurd hcall List.not_mem_nil
    · split at hcall
      · simp [Client.subEventCall] at hcall
      · simp at hcall
  · exact absurd h (by simp)

/-! ## Disconnecting and pinging -/

/-- The connection is given up, not by the application. -/
def Link.lost (l : Link) : Link := { l with connected := false, manual := false }

/-- When a packet without payload is written. -/
theorem zeroPayload_cases (size : Nat) {type : MessageTypes} (ht : type ≠ .reserved) :
    (size < 4 ∧ serializePacketWithZeroPayload size type = .error .errBufTooShort) ∨
      (4 ≤ size ∧ ∃ packet, serializePacketWithZeroPayload size type = .ok packet) := by
  obtain ⟨header, hheader⟩ := header_ok ht .qos0 0 0
  unfold serializePacketWithZeroPayload
  rw [hheader]
  by_cases hsize : size < 4
  · exact Or.inl ⟨hsize, if_pos hsize⟩
  · exact Or.inr ⟨Nat.le_of_not_lt hsize, _, if_neg hsize⟩

theorem disconnect_link {c : Client} (h : c.isConnected = true) (env : SendEnv) :
    ((qcloudIotMqttDisconnect c env).1 = .retSuccess ∧
      (qcloudIotMqttDisconnect c env).2.link = { c.link with connected := false, manual := true }) ∨
    ((qcloudIotMqttDisconnect c env).1 ≠ .retSuccess ∧
      (qcloudIotMqttDisconnect c env).2.link = c.link) := by
  have hstate : c.getClientConnState.1 = true := h
  have hlock : (c.getClientConnState.2.lock .writeBuf).link = c.link := by
    rw [link_lock, link_getClientConnState]
  unfold qcloudIotMqttDisconnect
  simp only [hstate]
  rw [if_neg (by simp)]
  rcases zeroPayload_cases (c.getClientConnState.2.lock .writeBuf).writeBufSize
    (show MessageTypes.disconnect ≠ .reserved by decide) with ⟨-, hser⟩ | ⟨-, packet, hser⟩
  · rw [hser]
    exact Or.inr ⟨by simp, (link_unlock _ _).trans hlock⟩
  · rw [hser]
    have hsent := (link_unlock _ .writeBuf).trans
      ((sendMqttPacket_link ((c.getClientConnState.2.lock .writeBuf).write packet) packet.length
        env).trans
        ((link_write _ _).trans hlock))
    simp only
    split
    · rename_i hrc
      exact Or.inr ⟨hrc, hsent⟩
    · refine Or.inl ⟨rfl, ?_⟩
      have hclose := (link_setClientConnState (Client.emit _ .netDisconnect) false).trans
        (congrArg (fun l : Link => { l with connected := false }) ((link_emit _ (by simp)).trans hsent))
      exact congrArg (fun l : Link => { l with manual := true }) hclose

/-- **Handling a disconnection** always ends disconnected. -/
theorem handleDisconnect_link {c : Client} (h : c.isConnected = true) (env : SendEnv) :
    (handleDisconnect c env).link = c.link.lost := by
  have hstate : c.getClientConnState.1 = true := h
  have hlink := link_getClientConnState c
  have hforce : ∃ manual, (forceDisconnect c.getClientConnState.2 env).2.link =
      { c.link with connected := false, manual := manual } := by
    unfold forceDisconnect
    rcases disconnect_link (c := c.getClientConnState.2) h env with ⟨hrc, hdone⟩ | ⟨hrc, hsame⟩
    · exact ⟨true, by simp only; rw [if_neg (not_not.mpr hrc), hdone, hlink]⟩
    · refine ⟨c.link.manual, ?_⟩
      simp only
      rw [if_pos hrc, link_setClientConnState, link_emit _ (by simp), hsame, hlink]
  obtain ⟨manual, hforce⟩ := hforce
  unfold handleDisconnect
  simp only [hstate]
  rw [if_neg (by simp)]
  exact congrArg (fun l : Link => { l with manual := false }) ((link_notify _ _ _).trans hforce)

theorem sendPing_link (c : Client) (length retries : Nat) (envs : List SendEnv) :
    (sendPing c length retries envs).2.link = c.link := by
  induction retries generalizing c envs with
  | zero => exact sendMqttPacket_link c _ _
  | succ retries ih =>
    simp only [sendPing]
    split
    · exact (ih _ _).trans (sendMqttPacket_link c _ _)
    · exact sendMqttPacket_link c _ _

/-- No sending gets through, of one and up to `retries` more. -/
def SendFails (writeBufSize length : Nat) : (retries : Nat) → List SendEnv → Prop
  | 0, envs => ¬ (envs.headD {}).Delivers writeBufSize length
  | retries + 1, envs =>
    ¬ (envs.headD {}).Delivers writeBufSize length ∧ SendFails writeBufSize length retries envs.tail

/-- No PINGREQ of keep-alive gets through. -/
def KeepAliveEnv.PingFails (env : KeepAliveEnv) (writeBufSize : Nat) : Prop :=
  SendFails writeBufSize 2 3 env.pings

theorem sendPing_fails {c : Client} {length retries : Nat} {envs : List SendEnv}
    (h : (sendPing c length retries envs).1 ≠ .retSuccess) :
    SendFails c.writeBufSize length retries envs := by
  induction retries generalizing c envs with
  | zero => exact (sendMqttPacket_ok_iff c length _).not.mp h
  | succ retries ih =>
    simp only [sendPing] at h
    split at h
    · rename_i hrc
      refine ⟨(sendMqttPacket_ok_iff c length _).not.mp hrc, ?_⟩
      have hsize : (sendMqttPacket c length (envs.headD {})).2.writeBufSize = c.writeBufSize :=
        congrArg Link.writeBufSize (sendMqttPacket_link c length _)
      exact hsize ▸ ih h
    · rename_i hrc
      exact absurd (not_not.mp hrc) h

theorem pingreq_length {size : Nat} {packet : Bytes}
    (h : serializePacketWithZeroPayload size .pingreq = .ok packet) : packet.length = 2 := by
  unfold serializePacketWithZeroPayload at h
  split at h
  · simp at h
  split at h
  · simp at h
  · obtain rfl := Except.ok.inj h
    rfl

/-- What keep-alive can do: its result and the connection. -/
inductive KeepAliveStep (l : Link) (env : KeepAliveEnv) : ReturnCode → Link → Prop where
  | idle (h : l.options.keepAliveInterval = 0 ∨ env.clock < l.pingTimer) :
      KeepAliveStep l env .retSuccess l
  /-- Two pings have gone without an answer. -/
  | starved (hon : l.options.keepAliveInterval ≠ 0) (hexpired : l.pingTimer ≤ env.clock)
      (h : 2 ≤ l.outstanding) : KeepAliveStep l env .errMqttNoConn l.lost
  | noBuffer (hbuf : l.writeBufSize < 4) : KeepAliveStep l env .errBufTooShort l
  | notSent (hon : l.options.keepAliveInterval ≠ 0) (hexpired : l.pingTimer ≤ env.clock)
      (h : l.outstanding < 2) (hfails : env.PingFails l.writeBufSize) :
      KeepAliveStep l env .errMqttNoConn l.lost
  | pinged (hon : l.options.keepAliveInterval ≠ 0) (hexpired : l.pingTimer ≤ env.clock)
      (h : l.outstanding < 2) (timer : Nat) :
      KeepAliveStep l env .retSuccess { l with outstanding := l.outstanding + 1, pingTimer := timer }

theorem link_ping {c : Client} {l : Link} (h : c.link = l) (timer : Nat) :
    ({ c with isPingOutstanding := c.isPingOutstanding + 1, pingTimer := timer } : Client).link =
      { l with outstanding := l.outstanding + 1, pingTimer := timer } := by
  subst h
  rfl

/-- **Keep-alive.** -/
theorem keepAlive_link {c : Client} (hconn : c.isConnected = true) (env : KeepAliveEnv) :
    KeepAliveStep c.link env (mqttKeepAlive c env).1 (mqttKeepAlive c env).2.link := by
  unfold mqttKeepAlive
  by_cases hon : c.options.keepAliveInterval = 0
  · rw [if_pos hon]
    exact .idle (Or.inl hon)
  rw [if_neg hon]
  by_cases hexpired : c.pingTimer > env.clock
  · rw [if_pos hexpired]
    exact .idle (Or.inr hexpired)
  rw [if_neg hexpired]
  have hexp : c.link.pingTimer ≤ env.clock := Nat.le_of_not_lt hexpired
  by_cases hout : c.isPingOutstanding ≥ mqttPingRetryTimes
  · rw [if_pos hout, handleDisconnect_link hconn]
    exact .starved hon hexp hout
  rw [if_neg hout]
  have hlt : c.link.outstanding < 2 := UInt8.not_le.mp hout
  simp only
  rcases zeroPayload_cases (c.lock .writeBuf).writeBufSize
      (show MessageTypes.pingreq ≠ .reserved by decide) with
    ⟨hsize, hser⟩ | ⟨-, packet, hser⟩
  · rw [hser]
    simp only
    rw [link_unlock, link_lock]
    exact .noBuffer hsize
  · rw [hser]
    have hsent := (link_unlock _ .writeBuf).trans
      ((sendPing_link ((c.lock .writeBuf).write packet) packet.length 3 env.pings).trans
        ((link_write _ _).trans (link_lock c .writeBuf)))
    simp only
    split
    · rename_i hrc
      have hfails := sendPing_fails hrc
      rw [pingreq_length hser] at hfails
      rw [handleDisconnect_link ((congrArg Link.connected hsent).trans hconn), hsent]
      exact .notSent hon hexp hlt hfails
    · rw [link_unlock, link_ping ((link_lock _ .generic).trans hsent)]
      exact .pinged hon hexp hlt _

/-! ## Reconnecting -/

/-- A connection attempt with these options was made: it ends connected with no ping outstanding, or
disconnected. -/
structure Attempted (options : MqttConnectParams) (l l' : Link) : Prop where
  options : l'.options = options
  writeBufSize : l'.writeBufSize = l.writeBufSize
  interval : l'.interval = l.interval
  delayTimer : l'.delayTimer = l.delayTimer
  attempts : l'.attempts = l.attempts + 1
  manual : l'.manual = l.manual ∨ l'.manual = false
  outstanding : l'.outstanding = 0 ∨ (l'.connected = false ∧ l'.outstanding = l.outstanding)

theorem openSession_link (c : Client) (options : MqttConnectParams) (env : ConnectEnv) :
    (openSession c options env).2.link =
      { c.link with options := options, attempts := c.link.attempts + 1 } := by
  have hopen : ({ c with options := options }.emit .netConnect).link =
      { c.link with options := options, attempts := c.link.attempts + 1 } := by
    simp [Client.link, Client.emit]
  unfold openSession
  simp only
  split
  · exact hopen
  split
  · rw [link_unlock, link_lock, hopen]
  split
  · rw [link_unlock, link_lock, hopen]
  split <;> exact (link_unlock _ _).trans ((sendMqttPacket_link _ _ _).trans
    ((link_write _ _).trans ((link_lock _ _).trans hopen)))

theorem waitForRead_link (c : Client) (packetType readPacketType : UInt8) (envs : List CycleEnv) :
    ∃ timer outstanding, (outstanding = 0 ∨ outstanding = c.link.outstanding) ∧
      (waitForRead c packetType readPacketType envs).2.link =
        { c.link with outstanding := outstanding, pingTimer := timer } := by
  induction envs generalizing c readPacketType with
  | nil => exact ⟨_, _, Or.inr rfl, rfl⟩
  | cons env envs ih =>
    have hcycle : ∃ timer outstanding, (outstanding = 0 ∨ outstanding = c.link.outstanding) ∧
        (cycleForRead c readPacketType env).2.2.link =
          { c.link with outstanding := outstanding, pingTimer := timer } := by
      rw [cycle_link]
      cases packetRead c readPacketType env with
      | none => exact ⟨_, _, Or.inr rfl, rfl⟩
      | some t =>
        rw [Option.map_some, Option.getD_some, Link.afterPacket]
        split
        · exact ⟨_, _, Or.inl rfl, rfl⟩
        · exact ⟨_, _, Or.inr rfl, rfl⟩
    obtain ⟨timer, outstanding, hout, hlink⟩ := hcycle
    simp only [waitForRead]
    split
    · obtain ⟨timer', outstanding', hout', hlink'⟩ := ih (cycleForRead c readPacketType env).2.2
        (cycleForRead c readPacketType env).2.1
      rw [hlink] at hout' hlink'
      exact ⟨timer', outstanding', hout'.elim Or.inl fun h => by rw [h]; exact hout, hlink'⟩
    · exact ⟨timer, outstanding, hout, hlink⟩

theorem link_accept {c : Client} {l : Link} (h : c.link = l) (timer : Nat) :
    ({ c with wasManuallyDisconnected := false, isPingOutstanding := 0, pingTimer := timer } :
      Client).link =
      { l with manual := false, outstanding := 0, pingTimer := timer } := by
  subst h
  rfl

theorem acceptSession_link (c : Client) (clock : Nat) :
    (acceptSession c clock).2.link = c.link ∨ ∃ timer, (acceptSession c clock).2.link =
      { c.link with connected := true, manual := false, outstanding := 0, pingTimer := timer } := by
  unfold acceptSession
  split
  · exact Or.inl rfl
  simp only
  split
  · exact Or.inl rfl
  · have hlock := (link_lock (c.setClientConnState true) .generic).trans
      (link_setClientConnState c true)
    exact Or.inr ⟨_, (link_unlock _ _).trans (link_accept hlock _)⟩

theorem mqttConnect_link {c : Client} (hdown : c.isConnected = false) (options : MqttConnectParams)
    (env : ConnectEnv) : Attempted options c.link (mqttConnect c options env).2.link := by
  have hopen := openSession_link c options env
  unfold mqttConnect
  generalize openSession c options env = r at hopen
  obtain ⟨rc | _, c1⟩ := r
  · simp only at hopen ⊢
    rw [hopen]
    exact ⟨rfl, rfl, rfl, rfl, rfl, Or.inl rfl, Or.inr ⟨hdown, rfl⟩⟩
  obtain ⟨timer, outstanding, hout, hwait⟩ := waitForRead_link c1 MessageTypes.connack.code 0 env.cycles
  simp only at hopen hwait ⊢
  rw [hopen] at hout hwait
  have hwaited : Attempted options c.link
      (waitForRead c1 MessageTypes.connack.code 0 env.cycles).2.link := by
    rw [hwait]
    exact ⟨rfl, rfl, rfl, rfl, rfl, Or.inl rfl, hout.imp id fun h => ⟨hdown, h⟩⟩
  split
  · exact hwaited
  rcases acceptSession_link (waitForRead c1 MessageTypes.connack.code 0 env.cycles).2 env.clock with
    hsame | ⟨timer', haccepted⟩
  · rw [hsame]
    exact hwaited
  · rw [haccepted]
    exact ⟨hwaited.options, hwaited.writeBufSize, hwaited.interval, hwaited.delayTimer,
      hwaited.attempts, Or.inr rfl, Or.inl rfl⟩

theorem connect_link {c : Client} (hdown : c.isConnected = false) (options : MqttConnectParams)
    (env : ConnectEnv) : Attempted options c.link (qcloudIotMqttConnect c options env).2.link := by
  have hstate : c.getClientConnState.1 = false := hdown
  have hconnect := mqttConnect_link (c := c.getClientConnState.2) hdown options env
  rw [link_getClientConnState] at hconnect
  unfold qcloudIotMqttConnect
  simp only [hstate]
  rw [if_neg (by simp)]
  change Attempted options c.link (Client.link (if _ then _ else _))
  split
  · rw [link_emit _ (by simp)]
    exact hconnect
  · exact hconnect

/-- **An attempt to reconnect**: what subscribing again does to the connection is nothing. -/
theorem attemptReconnect_link {c : Client} (hdown : c.isConnected = false) (env : ReconnectEnv) :
    Attempted c.options c.link (qcloudIotMqttAttemptReconnect c env).2.link := by
  have hstate : c.getClientConnState.1 = false := hdown
  have hconnect := connect_link (c := c.getClientConnState.2) hdown c.getClientConnState.2.options
    env.connect
  rw [link_getClientConnState] at hconnect
  unfold qcloudIotMqttAttemptReconnect
  simp only [hstate]
  rw [if_neg (by simp)]
  change Attempted c.getClientConnState.2.options c.link _
  generalize qcloudIotMqttConnect c.getClientConnState.2 c.getClientConnState.2.options env.connect = r
    at hconnect
  split
  · rw [link_getClientConnState]
    exact hconnect
  · have hsub := (resubscribe_link r.2.getClientConnState.2 env.subs).trans
      (link_getClientConnState r.2)
    split <;> exact hsub ▸ hconnect

end QcloudIot.Mqtt
