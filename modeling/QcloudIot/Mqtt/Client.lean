import Mathlib.Tactic.Simps.Basic
import QcloudIot.Mqtt.PublishPacket
import QcloudIot.Mqtt.Packets

/-!
# The MQTT client structure

`Qcloud_IoT_Client` (`mqtt_client.h`) with the fields the MQTT functions read, and the accessors
of `mqtt_client_common.c` that every function goes through.

Three fields are no fields of the C structure. `held` are the mutexes the acting thread holds,
`nextAddr` numbers the allocations of topic filter strings, and `log` records what the functions
do outside the structure: locking, callbacks (with the mutexes held at the call), freed filter
strings, and what goes to the network.

A function of the source that returns a code is a function `Client → ReturnCode × Client`. What it
learns from outside (allocation, the network, the clock) comes in as an argument.

* `freedIn`, `fatesIn`, `deliveredIn`, `lockedIn`, `sentIn`: the log as one reader sees it.
* `Frame`: what most of the connection handling leaves alone.
-/

namespace QcloudIot.Mqtt

/-! ## Subscriptions and wait lists -/

/-- A function pointer of the application. -/
abbrev FnPtr := Nat

/-- A topic filter string made by `HAL_Malloc`: the allocation and the characters. -/
structure StoredFilter where
  addr : Nat
  str : Bytes
  deriving DecidableEq, Repr

/-- `SubTopicHandle`; a NULL pointer is `none`. -/
structure SubTopicHandle where
  topicFilter : Option StoredFilter := none
  messageHandler : Option FnPtr := none
  subEventHandler : Option FnPtr := none
  handlerUserData : Nat := 0
  qos : QoS := .qos0
  deriving DecidableEq, Repr

/-- `MAX_MESSAGE_HANDLERS`. -/
def maxMessageHandlers : Nat := 10

/-- `MAX_REPUB_NUM`. -/
def maxRepubNum : Nat := 20

/-- The allocation a handle refers to. -/
def SubTopicHandle.addr? (h : SubTopicHandle) : Option Nat := h.topicFilter.map (·.addr)

/-- `sub_handles[MAX_MESSAGE_HANDLERS]`. -/
@[ext]
structure SubHandles where
  slots : List SubTopicHandle
  length_eq : slots.length = maxMessageHandlers

/-- Every slot through `f`. -/
def SubHandles.map (t : SubHandles) (f : SubTopicHandle → SubTopicHandle) : SubHandles :=
  ⟨t.slots.map f, by rw [List.length_map, t.length_eq]⟩

/-- `sub_handles[i] = h`. -/
def SubHandles.set (t : SubHandles) (i : Nat) (h : SubTopicHandle) : SubHandles :=
  ⟨t.slots.set i h, by rw [List.length_set, t.length_eq]⟩

/-- `sub_handles` as `qcloud_iot_mqtt_init` sets it. -/
def SubHandles.empty : SubHandles := ⟨List.replicate maxMessageHandlers {}, by simp⟩

/-- `MQTTNodeState`. -/
inductive MqttNodeState where
  | normal | invalid
  deriving DecidableEq, Repr

/-- `QcloudIotPubInfo`. -/
structure PubInfo where
  pubStartTime : Nat
  nodeState : MqttNodeState
  msgId : UInt16
  deriving DecidableEq, Repr

/-- `QcloudIotSubInfo`. -/
structure SubInfo where
  type : MessageTypes
  msgId : UInt16
  subStartTime : Nat
  nodeState : MqttNodeState
  handler : SubTopicHandle
  deriving DecidableEq, Repr

/-- `MQTT_MAX_REPEAT_BUF_LEN`. -/
def mqttMaxRepeatBufLen : Nat := 10

/-- `repeat_packet_id_buf` and `current_packet_id_cnt`. -/
structure RepeatBuf where
  ids : List UInt16
  cnt : Nat
  length_eq : ids.length = mqttMaxRepeatBufLen
  cnt_lt : cnt < mqttMaxRepeatBufLen

/-- `reset_repeat_packet_id_buffer`. -/
def RepeatBuf.empty : RepeatBuf :=
  ⟨List.replicate mqttMaxRepeatBufLen 0, 0, by simp, by decide⟩

/-! ## What the functions do outside the structure -/

/-- The mutexes of the client. -/
inductive Lock where
  | generic | writeBuf | listPub | listSub
  deriving DecidableEq, Repr

/-- `MQTTEventType`. -/
inductive MqttEventType where
  | undef | disconnect | reconnect | subcribeSuccess | subcribeTimeout | subcribeNack
  | unsubcribeSuccess | unsubcribeTimeout | unsubcribeNack | publishSuccess | publishTimeout
  | publishNack | publishRecveived | clientDestroy | unsubscribe
  deriving DecidableEq, Repr

/-- `MQTTMessage`. `topic` is what stands at `ptopic`, `payload` the offset into the read buffer;
`id` is `none` where the reader leaves it unset. -/
structure MqttMessage where
  qos : QoS
  retained : UInt8
  dup : UInt8
  id : Option UInt16
  topic : Bytes
  topicLen : UInt16
  payload : Nat
  payloadLen : Nat
  deriving DecidableEq, Repr

/-- A call of one of the application's functions: `event_handle.h_fp` with the packet id its
message carries, a `message_handler` or a `sub_event_handler` with the user data. -/
inductive Callback where
  | event (f : FnPtr) (type : MqttEventType) (id : UInt16)
  | message (f : FnPtr) (msg : MqttMessage) (userData : Nat)
  | subEvent (f : FnPtr) (type : MqttEventType) (userData : Nat)
  deriving DecidableEq, Repr

/-- An entry of the log. -/
inductive Ev where
  | lock (l : Lock)
  | unlock (l : Lock)
  /-- A callback, made while the caller holds `held`. -/
  | callback (cb : Callback) (held : List Lock)
  /-- A call through a function pointer that is NULL. -/
  | nullCall
  /-- `HAL_Free` of a topic filter string. -/
  | free (addr : Nat)
  /-- Bytes that `network_stack.write` accepted. -/
  | wire (bytes : Bytes)
  /-- A packet that `send_mqtt_packet` reported as sent. -/
  | sent (packet : Bytes)
  | netConnect
  | netDisconnect
  /-- `_deliver_message` is entered with `msg`. -/
  | deliver (msg : MqttMessage)
  /-- A publish with QoS above 0 has returned the packet id. -/
  | published (id : UInt16)
  deriving DecidableEq, Repr

/-! ## The client -/

/-- The fields of `MQTTConnectParams` that are read after the CONNECT packet is written. -/
structure MqttConnectParams where
  keepAliveInterval : UInt16
  autoConnectEnable : Bool

/-- `Qcloud_IoT_Client`. A timer is the millisecond it expires at. -/
structure Client where
  isConnected : Bool
  wasManuallyDisconnected : Bool
  isPingOutstanding : UInt8
  nextPacketId : UInt16
  commandTimeoutMs : Nat
  currentReconnectWaitInterval : UInt32
  counterNetworkDisconnected : UInt32
  writeBufSize : Nat
  readBufSize : Nat
  writeBuf : Mem
  readBuf : Mem
  listPubWaitAck : List PubInfo
  listSubWaitAck : List SubInfo
  eventHandle : Option FnPtr
  options : MqttConnectParams
  pingTimer : Nat
  reconnectDelayTimer : Nat
  subHandles : SubHandles
  repeatBuf : RepeatBuf
  held : List Lock
  log : List Ev
  nextAddr : Nat

/-- The client as `qcloud_iot_mqtt_init` leaves it, not yet connected: `nextPacketId` is the random
start, the buffers hold zeros (`memset`). -/
def Client.init (eventHandle : Option FnPtr) (nextPacketId : UInt16) (commandTimeoutMs : Nat)
    (options : MqttConnectParams) : Client where
  isConnected := false
  wasManuallyDisconnected := false
  isPingOutstanding := 0
  nextPacketId := nextPacketId
  commandTimeoutMs := commandTimeoutMs
  currentReconnectWaitInterval := 0
  counterNetworkDisconnected := 0
  writeBufSize := mqttTxBufLen
  readBufSize := mqttRxBufLen
  writeBuf := fun _ => 0
  readBuf := fun _ => 0
  listPubWaitAck := []
  listSubWaitAck := []
  eventHandle := eventHandle
  options := options
  pingTimer := 0
  reconnectDelayTimer := 0
  subHandles := .empty
  repeatBuf := .empty
  held := []
  log := []
  nextAddr := 0

/-- The handles of the occupied slots. -/
def Client.occupied (c : Client) : List SubTopicHandle :=
  c.subHandles.slots.filter (·.topicFilter.isSome)

/-! ## Steps every function is made of -/

/-- The bytes `bs` stored from offset `p` on. -/
def Mem.store (m : Mem) (p : Nat) (bs : Bytes) : Mem :=
  fun i => if p ≤ i then bs.getD (i - p) (m i) else m i

/-- The `n` bytes from offset `p` on. -/
def Mem.load (m : Mem) (p n : Nat) : Bytes := (List.range n).map fun i => m (p + i)

theorem Mem.load_store (m : Mem) (p : Nat) (bs : Bytes) : (m.store p bs).load p bs.length = bs := by
  apply List.ext_getElem
  · simp [Mem.load]
  · intro i h1 h2
    simp [Mem.load, Mem.store, h2]

namespace Client

/-- Another entry of the log. -/
@[simps -fullyApplied]
def emit (c : Client) (e : Ev) : Client := { c with log := c.log ++ [e] }

/-- `HAL_MutexLock`. -/
@[simps -fullyApplied]
def lock (c : Client) (l : Lock) : Client := { c with held := l :: c.held, log := c.log ++ [.lock l] }

/-- `HAL_MutexUnlock`. -/
@[simps -fullyApplied]
def unlock (c : Client) (l : Lock) : Client :=
  { c with held := c.held.erase l, log := c.log ++ [.unlock l] }

/-- A callback with the mutexes held now. -/
@[simps -fullyApplied]
def call (c : Client) (cb : Callback) : Client := { c with log := c.log ++ [.callback cb c.held] }

/-- `if (NULL != pClient->event_handle.h_fp)` and the call. -/
def notify (c : Client) (type : MqttEventType) (id : UInt16) : Client :=
  match c.eventHandle with
  | none => c
  | some f => c.call (.event f type id)

/-- `if (NULL != handle.sub_event_handler)` and the call. -/
def notifySub (c : Client) (h : SubTopicHandle) (type : MqttEventType) : Client :=
  match h.subEventHandler with
  | none => c
  | some f => c.call (.subEvent f type h.handlerUserData)

/-- `HAL_Free` of a topic filter, which may be NULL. -/
def free (c : Client) (f : Option StoredFilter) : Client :=
  match f with
  | none => c
  | some f => c.emit (.free f.addr)

/-- A packet written at the start of the write buffer. -/
@[simps -fullyApplied]
def write (c : Client) (bs : Bytes) : Client := { c with writeBuf := c.writeBuf.store 0 bs }

/-- Bytes read into the read buffer at offset `p`. -/
@[simps -fullyApplied]
def fill (c : Client) (p : Nat) (bs : Bytes) : Client := { c with readBuf := c.readBuf.store p bs }

/-- `get_client_conn_state`. -/
def getClientConnState (c : Client) : Bool × Client :=
  ((c.lock .generic).isConnected, (c.lock .generic).unlock .generic)

/-- `set_client_conn_state`. -/
def setClientConnState (c : Client) (connected : Bool) : Client :=
  { c.lock .generic with isConnected := connected }.unlock .generic

/-- `get_next_packet_id`. -/
def getNextPacketId (c : Client) : UInt16 × Client :=
  let next := if c.nextPacketId = 65535 then 1 else c.nextPacketId + 1
  let c := { c.lock .generic with nextPacketId := next }.unlock .generic
  (c.nextPacketId, c)

/-- The entry of a call of `event_handle.h_fp`, where there is one. -/
def eventCall (f : Option FnPtr) (type : MqttEventType) (id : UInt16) (held : List Lock) : List Ev :=
  f.toList.map fun f => .callback (.event f type id) held

/-- The entry of a call of a handle's `sub_event_handler`, where it has one. -/
def subEventCall (h : SubTopicHandle) (type : MqttEventType) (held : List Lock) : List Ev :=
  h.subEventHandler.toList.map fun f => .callback (.subEvent f type h.handlerUserData) held

theorem notify_eq (c : Client) (type : MqttEventType) (id : UInt16) : c.notify type id =
    { c with log := c.log ++ eventCall c.eventHandle type id c.held } := by
  unfold notify eventCall
  split
  · rename_i h
    have hnone : c.eventHandle.toList = [] := by rw [h]; rfl
    rw [hnone, List.map_nil, List.append_nil]
  · rename_i h
    simp [call, h]

theorem notifySub_eq (c : Client) (h : SubTopicHandle) (type : MqttEventType) :
    c.notifySub h type = { c with log := c.log ++ subEventCall h type c.held } := by
  unfold notifySub subEventCall
  cases h.subEventHandler <;> simp [call]

theorem free_eq (c : Client) (f : Option StoredFilter) : c.free f =
    { c with log := c.log ++ f.toList.map fun f => .free f.addr } := by
  unfold free
  cases f <;> simp [emit]

/-- Its two log entries apart, `get_client_conn_state` changes nothing. -/
theorem getClientConnState_eq (c : Client) : c.getClientConnState =
    (c.isConnected, { c with log := c.log ++ [.lock .generic, .unlock .generic] }) := by
  simp [getClientConnState, lock, unlock]

theorem getNextPacketId_eq (c : Client) : c.getNextPacketId =
    (c.getNextPacketId.1, { c with
      nextPacketId := c.getNextPacketId.1
      log := c.log ++ [.lock .generic, .unlock .generic] }) := by
  simp [getNextPacketId, lock, unlock]

end Client

/-! ## Reading the log -/

/-- The filter string an entry frees. -/
def Ev.freed? : Ev → Option Nat
  | .free addr => some addr
  | _ => none

/-- What the application learns of the publishes with QoS above 0: a call has returned the packet
id, or a terminal event with the packet id has been reported. -/
inductive PubFate where
  | returned (id : UInt16)
  | ended (id : UInt16)
  deriving DecidableEq, Repr

/-- What an entry says of a publish. -/
def Ev.fate? : Ev → Option PubFate
  | .published id => some (.returned id)
  | .callback (.event _ .publishSuccess id) _ => some (.ended id)
  | .callback (.event _ .publishTimeout id) _ => some (.ended id)
  | _ => none

/-- A message with QoS above 0 that is delivered. -/
def Ev.delivered? : Ev → Option MqttMessage
  | .deliver msg => if msg.qos = .qos0 then none else some msg
  | _ => none

/-- A callback made while a mutex is held. -/
def Ev.locked? : Ev → Option Callback
  | .callback cb held => if held = [] then none else some cb
  | _ => none

/-- A packet sent. -/
def Ev.packet? : Ev → Option Bytes
  | .sent packet => some packet
  | _ => none

/-- The freed filter strings, in order. -/
def freedIn (log : List Ev) : List Nat := log.filterMap Ev.freed?

/-- What the application learns of its publishes, in order. -/
def fatesIn (log : List Ev) : List PubFate := log.filterMap Ev.fate?

/-- The messages with QoS above 0 that `_deliver_message` was entered with, in order. -/
def deliveredIn (log : List Ev) : List MqttMessage := log.filterMap Ev.delivered?

/-- The callbacks made while a mutex was held. -/
def lockedIn (log : List Ev) : List Callback := log.filterMap Ev.locked?

/-- The packets sent, in order. -/
def sentIn (log : List Ev) : List Bytes := log.filterMap Ev.packet?

section Views

variable (a b : List Ev)

@[simp] theorem freedIn_append : freedIn (a ++ b) = freedIn a ++ freedIn b := List.filterMap_append
@[simp] theorem fatesIn_append : fatesIn (a ++ b) = fatesIn a ++ fatesIn b := List.filterMap_append
@[simp] theorem deliveredIn_append : deliveredIn (a ++ b) = deliveredIn a ++ deliveredIn b :=
  List.filterMap_append
@[simp] theorem lockedIn_append : lockedIn (a ++ b) = lockedIn a ++ lockedIn b :=
  List.filterMap_append
@[simp] theorem sentIn_append : sentIn (a ++ b) = sentIn a ++ sentIn b := List.filterMap_append

variable (e : Ev)

@[simp] theorem freedIn_nil : freedIn [] = [] := rfl
@[simp] theorem fatesIn_nil : fatesIn [] = [] := rfl
@[simp] theorem deliveredIn_nil : deliveredIn [] = [] := rfl
@[simp] theorem lockedIn_nil : lockedIn [] = [] := rfl
@[simp] theorem sentIn_nil : sentIn [] = [] := rfl
@[simp] theorem freedIn_cons : freedIn (e :: a) = e.freed?.toList ++ freedIn a := by
  cases h : e.freed? <;> simp [freedIn, h]
@[simp] theorem fatesIn_cons : fatesIn (e :: a) = e.fate?.toList ++ fatesIn a := by
  cases h : e.fate? <;> simp [fatesIn, h]
@[simp] theorem deliveredIn_cons : deliveredIn (e :: a) = e.delivered?.toList ++ deliveredIn a := by
  cases h : e.delivered? <;> simp [deliveredIn, h]
@[simp] theorem lockedIn_cons : lockedIn (e :: a) = e.locked?.toList ++ lockedIn a := by
  cases h : e.locked? <;> simp [lockedIn, h]
@[simp] theorem sentIn_cons : sentIn (e :: a) = e.packet?.toList ++ sentIn a := by
  cases h : e.packet? <;> simp [sentIn, h]

end Views

attribute [simp] Ev.freed? Ev.fate? Ev.delivered? Ev.locked? Ev.packet?

section Calls

variable (f : Option FnPtr) (h : SubTopicHandle) (type : MqttEventType) (id : UInt16)
variable (held : List Lock)

@[simp] theorem freedIn_eventCall : freedIn (Client.eventCall f type id held) = [] := by
  cases f <;> simp [Client.eventCall]
@[simp] theorem sentIn_eventCall : sentIn (Client.eventCall f type id held) = [] := by
  cases f <;> simp [Client.eventCall]
@[simp] theorem deliveredIn_eventCall : deliveredIn (Client.eventCall f type id held) = [] := by
  cases f <;> simp [Client.eventCall]

/-- Two types of event end a publish. -/
@[simp] theorem fatesIn_eventCall : fatesIn (Client.eventCall f type id held) =
    if type = .publishSuccess ∨ type = .publishTimeout then f.toList.map fun _ => .ended id
    else [] := by
  cases f <;> cases type <;> simp [Client.eventCall]

@[simp] theorem lockedIn_eventCall : lockedIn (Client.eventCall f type id held) =
    if held = [] then [] else f.toList.map fun f => .event f type id := by
  cases f <;> by_cases hh : held = [] <;> simp [Client.eventCall, hh]

@[simp] theorem freedIn_subEventCall : freedIn (Client.subEventCall h type held) = [] := by
  cases he : h.subEventHandler <;> simp [Client.subEventCall, he]
@[simp] theorem sentIn_subEventCall : sentIn (Client.subEventCall h type held) = [] := by
  cases he : h.subEventHandler <;> simp [Client.subEventCall, he]
@[simp] theorem deliveredIn_subEventCall : deliveredIn (Client.subEventCall h type held) = [] := by
  cases he : h.subEventHandler <;> simp [Client.subEventCall, he]
@[simp] theorem fatesIn_subEventCall : fatesIn (Client.subEventCall h type held) = [] := by
  cases he : h.subEventHandler <;> simp [Client.subEventCall, he]

@[simp] theorem lockedIn_subEventCall : lockedIn (Client.subEventCall h type held) =
    if held = [] then [] else
      h.subEventHandler.toList.map fun f => .subEvent f type h.handlerUserData := by
  cases he : h.subEventHandler <;> by_cases hh : held = [] <;> simp [Client.subEventCall, he, hh]

end Calls

section Frees

variable (f : Option StoredFilter)

@[simp] theorem freedIn_frees : freedIn (f.toList.map fun f => .free f.addr) =
    f.toList.map (·.addr) := by
  cases f <;> simp
@[simp] theorem fatesIn_frees : fatesIn (f.toList.map fun f => .free f.addr) = [] := by
  cases f <;> simp
@[simp] theorem deliveredIn_frees : deliveredIn (f.toList.map fun f => .free f.addr) = [] := by
  cases f <;> simp
@[simp] theorem lockedIn_frees : lockedIn (f.toList.map fun f => .free f.addr) = [] := by
  cases f <;> simp

end Frees

/-- From `log` to `log'` the strings `freed` are freed and the packets `sent` are sent, no publish
returns or ends, no message with QoS above 0 is delivered, and no callback is made under a mutex. -/
structure Logged (log log' : List Ev) (freed : List Nat) (sent : List Bytes) : Prop where
  freed : freedIn log' = freedIn log ++ freed
  sent : sentIn log' = sentIn log ++ sent
  fates : fatesIn log' = fatesIn log
  delivered : deliveredIn log' = deliveredIn log
  locked : lockedIn log' = lockedIn log

theorem Logged.refl (log : List Ev) : Logged log log [] [] := by
  constructor <;> simp

/-- Entries of which none is a publish's or made under a mutex. -/
theorem Logged.append (log evs : List Ev) (hp : fatesIn evs = [])
    (hd : deliveredIn evs = []) (hl : lockedIn evs = []) :
    Logged log (log ++ evs) (freedIn evs) (sentIn evs) := by
  constructor <;> simp [hp, hd, hl]

theorem Logged.trans {l l' l'' : List Ev} {f f' : List Nat} {s s' : List Bytes}
    (h : Logged l l' f s) (h' : Logged l' l'' f' s') : Logged l l'' (f ++ f') (s ++ s') where
  freed := by rw [h'.freed, h.freed, List.append_assoc]
  sent := by rw [h'.sent, h.sent, List.append_assoc]
  fates := h'.fates.trans h.fates
  delivered := h'.delivered.trans h.delivered
  locked := h'.locked.trans h.locked

/-! ## What most steps leave alone -/

/-- The step from `c` to `c'` changes no table, no wait list, no ring of packet ids and no
allocation, ends no publish, delivers no message with QoS above 0, and returns with the same locks,
having called back only without any. -/
structure Frame (c c' : Client) : Prop where
  subHandles : c'.subHandles = c.subHandles
  listSub : c'.listSubWaitAck = c.listSubWaitAck
  listPub : c'.listPubWaitAck = c.listPubWaitAck
  repeatBuf : c'.repeatBuf = c.repeatBuf
  eventHandle : c'.eventHandle = c.eventHandle
  held : c'.held = c.held
  nextAddr : c'.nextAddr = c.nextAddr
  freed : freedIn c'.log = freedIn c.log
  fates : fatesIn c'.log = fatesIn c.log
  delivered : deliveredIn c'.log = deliveredIn c.log
  locked : lockedIn c'.log = lockedIn c.log

namespace Frame

variable {c c' c'' : Client}

theorem refl (c : Client) : Frame c c := ⟨rfl, rfl, rfl, rfl, rfl, rfl, rfl, rfl, rfl, rfl, rfl⟩

theorem trans (h : Frame c c') (h' : Frame c' c'') : Frame c c'' where
  subHandles := h'.subHandles.trans h.subHandles
  listSub := h'.listSub.trans h.listSub
  listPub := h'.listPub.trans h.listPub
  repeatBuf := h'.repeatBuf.trans h.repeatBuf
  eventHandle := h'.eventHandle.trans h.eventHandle
  held := h'.held.trans h.held
  nextAddr := h'.nextAddr.trans h.nextAddr
  freed := h'.freed.trans h.freed
  fates := h'.fates.trans h.fates
  delivered := h'.delivered.trans h.delivered
  locked := h'.locked.trans h.locked

/-- An entry that no view of the log shows but the packets sent. -/
theorem emit (c : Client) {e : Ev} (hf : e.freed? = none) (hp : e.fate? = none)
    (hd : e.delivered? = none) (hl : e.locked? = none) : Frame c (c.emit e) := by
  refine ⟨rfl, rfl, rfl, rfl, rfl, rfl, rfl, ?_, ?_, ?_, ?_⟩
  · simp [hf, -Ev.freed?]
  · simp [hp, -Ev.fate?]
  · simp [hd, -Ev.delivered?]
  · simp [hl, -Ev.locked?]

/-- A callback outside every mutex that ends no publish. -/
theorem call {cb : Callback} (hheld : c.held = [])
    (hp : (Ev.callback cb []).fate? = none) : Frame c (c.call cb) := by
  refine ⟨rfl, rfl, rfl, rfl, rfl, rfl, rfl, by simp, ?_, by simp, by simp [hheld]⟩
  rw [Client.call_log, hheld, fatesIn_append, fatesIn_cons, hp]
  simp

theorem notify (type : MqttEventType) (id : UInt16) (hheld : c.held = [])
    (hs : type ≠ .publishSuccess) (ht : type ≠ .publishTimeout) : Frame c (c.notify type id) := by
  unfold Client.notify
  split
  · exact Frame.refl c
  · refine Frame.call hheld ?_
    cases type <;> first | rfl | exact absurd rfl hs | exact absurd rfl ht

/-- What is done while a lock is held, with the lock taken and given back. -/
theorem lockUnlock {l : Lock} (h : Frame (c.lock l) c') : Frame c (c'.unlock l) where
  subHandles := h.subHandles
  listSub := h.listSub
  listPub := h.listPub
  repeatBuf := h.repeatBuf
  eventHandle := h.eventHandle
  held := by simp [h.held]
  nextAddr := h.nextAddr
  freed := by simp [h.freed]
  fates := by simp [h.fates]
  delivered := by simp [h.delivered]
  locked := by simp [h.locked]

/-- The ring set on both sides. -/
theorem setRepeatBuf (h : Frame c c') (b : RepeatBuf) :
    Frame { c with repeatBuf := b } { c' with repeatBuf := b } :=
  ⟨h.subHandles, h.listSub, h.listPub, rfl, h.eventHandle, h.held, h.nextAddr, h.freed, h.fates,
    h.delivered, h.locked⟩

theorem write (c : Client) (bs : Bytes) : Frame c (c.write bs) := by constructor <;> rfl

theorem getClientConnState (c : Client) : Frame c c.getClientConnState.2 := by
  constructor <;> simp [Client.getClientConnState]

theorem setClientConnState (c : Client) (b : Bool) : Frame c (c.setClientConnState b) := by
  constructor <;> simp [Client.setClientConnState]

end Frame

end QcloudIot.Mqtt
