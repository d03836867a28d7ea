import QcloudIot.Lib.LockOrder
import QcloudIot.Mqtt.Client

/-!
# The client in several threads

The functions of the client as their locks see them: every `HAL_MutexLock`, `HAL_MutexUnlock`,
call and return of the source, in the order and the branches of the source. What decides a branch
(the tables, the wait lists, the network, memory) is left open, as another thread may change it
between any two steps. Functions that take no lock, the callbacks and the network among them, do
not show.

The locks are taken in one order: `lock_write_buf`, then `lock_generic`, then `lock_list_sub` or
`lock_list_pub`. `lock_write_buf` is held over the packet id (`lock_generic`) and the wait lists,
`lock_generic` over the wait list of a SUBACK.

* `requests_disciplined`, `yield_disciplined`: every function keeps to the order and balances its
  locks on every path;
* **`lockDiscipline_of_reachable`**: with any number of threads that make requests and one that
  yields, in every interleaving no lock is taken twice or given back by a thread that does not
  hold it, operations end without a lock, and no threads wait for each other in a circle.
-/

namespace QcloudIot.Mqtt

open Lib Lib.Stmt

/-- The order in which locks are taken. -/
def Lock.rank : Lock → Nat
  | .writeBuf => 0
  | .generic => 1
  | .listPub => 2
  | .listSub => 2

/-- A function of the client. -/
abbrev Code := Stmt Lock

namespace Code

/-! ## The accessors -/

/-- `get_next_packet_id`. -/
def getNextPacketId : Code := block [.lock .generic, .unlock .generic]

/-- `set_client_conn_state`. -/
def setClientConnState : Code := block [.lock .generic, .unlock .generic]

/-- `get_client_conn_state`. -/
def getClientConnState : Code := block [.lock .generic, .unlock .generic]

/-! ## Requests -/

/-- `push_sub_info_to`. -/
def pushSubInfoTo : Code := block [
  bail [],                                -- NULL arguments
  .lock .listSub,
  bail [.unlock .listSub],                -- the list is full
  bail [.unlock .listSub],                -- no memory for the entry
  bail [.unlock .listSub],                -- no memory for the node
  .unlock .listSub]

/-- `_mask_push_pubInfo_to`. -/
def maskPushPubInfoTo : Code := block [
  bail [],                                -- NULL arguments
  bail [],                                -- the length
  .lock .listPub,
  bail [.unlock .listPub],                -- the list is full
  bail [.unlock .listPub],                -- no memory for the entry
  bail [.unlock .listPub],                -- no memory for the node
  .unlock .listPub]

/-- `qcloud_iot_mqtt_subscribe`. -/
def qcloudIotMqttSubscribe : Code := block [
  bail [],                                -- NULL or empty arguments
  bail [],                                -- the topic filter is too long
  bail [],                                -- QoS 2
  .call getClientConnState,
  bail [],                                -- not connected
  bail [],                                -- no memory for the topic filter
  .lock .writeBuf,
  .call getNextPacketId,
  bail [.unlock .writeBuf],               -- not serialized
  .call pushSubInfoTo,
  bail [.unlock .writeBuf],               -- not pushed
  -- not sent
  bail [.lock .listSub, .unlock .listSub, .unlock .writeBuf],
  .unlock .writeBuf]

/-- `qcloud_iot_mqtt_resubscribe`. -/
def qcloudIotMqttResubscribe : Code := block [
  bail [],
  .call getClientConnState,
  bail [],                                -- not connected
  .loop (maybe [.call qcloudIotMqttSubscribe, bail []])]

/-- `qcloud_iot_mqtt_is_sub_ready`. -/
def qcloudIotMqttIsSubReady : Code := block [
  bail [],                                -- NULL or empty arguments
  bail [],                                -- the topic filter is too long
  .lock .generic,
  .loop (bail [.unlock .generic]),        -- found
  .unlock .generic]

/-- `qcloud_iot_mqtt_unsubscribe`. -/
def qcloudIotMqttUnsubscribe : Code := block [
  bail [],                                -- NULL or empty arguments
  bail [],                                -- the topic filter is too long
  .lock .generic,
  .loop .skip,                            -- the slots cleared
  .unlock .generic,
  bail [],                                -- no such subscription
  .call getClientConnState,
  bail [],                                -- not connected
  bail [],                                -- no memory for the topic filter
  .lock .writeBuf,
  .call getNextPacketId,
  bail [.unlock .writeBuf],               -- not serialized
  .call pushSubInfoTo,
  bail [.unlock .writeBuf],               -- not pushed
  -- not sent
  bail [.lock .listSub, .unlock .listSub, .unlock .writeBuf],
  .unlock .writeBuf]

/-- `qcloud_iot_mqtt_publish`. -/
def qcloudIotMqttPublish : Code := block [
  bail [],                                -- NULL or empty arguments
  bail [],                                -- the topic is too long
  bail [],                                -- QoS 2
  .call getClientConnState,
  bail [],                                -- not connected
  .lock .writeBuf,
  maybe [.call getNextPacketId],          -- QoS 1
  bail [.unlock .writeBuf],               -- not serialized
  maybe [.call maskPushPubInfoTo,         -- above QoS 0
    bail [.unlock .writeBuf]],            -- not pushed
  -- not sent
  bail [maybe [.lock .listPub, .unlock .listPub], .unlock .writeBuf],
  .unlock .writeBuf]

/-! ## Packets read -/

/-- `_deliver_message`: the lock is given back around each test for a handler. -/
def deliverMessage : Code := block [
  bail [],                                -- NULL arguments
  .lock .generic,
  .loop (maybe [.unlock .generic,         -- the filter matches
    bail [],                              -- its handler is called
    .lock .generic]),
  .unlock .generic]

/-- `_mask_pubInfo_from`. -/
def maskPubInfoFrom : Code := block [
  bail [],
  .lock .listPub,
  maybe [bail [.unlock .listPub],         -- no memory for the iterator
    .loop .skip],
  .unlock .listPub]

/-- `_mask_sub_info_from`. -/
def maskSubInfoFrom : Code := block [
  bail [],
  .lock .listSub,
  maybe [bail [.unlock .listSub],         -- no memory for the iterator
    .loop .skip],
  .unlock .listSub]

/-- `_handle_puback_packet`. -/
def handlePubackPacket : Code := block [
  bail [],
  bail [],                                -- not decoded
  .call maskPubInfoFrom]

/-- `_handle_suback_packet`. -/
def handleSubackPacket : Code := block [
  bail [],
  bail [],                                -- not decoded
  .lock .generic,
  .call maskSubInfoFrom,
  bail [.unlock .generic],                -- no topic filter
  bail [.unlock .generic],                -- refused by the broker
  .loop .skip,                            -- the slots searched
  bail [.unlock .generic],                -- no free slot
  .unlock .generic]

/-- `_handle_unsuback_packet`. -/
def handleUnsubackPacket : Code := block [
  bail [],
  bail [],                                -- not decoded
  .call maskSubInfoFrom,
  .lock .generic,
  .unlock .generic]

/-- `_handle_publish_packet`. -/
def handlePublishPacket : Code := block [
  bail [],                                -- not decoded
  .choice
    (block [.call deliverMessage, .ret])  -- QoS 0
    (maybe [.call deliverMessage, bail []]),
  .lock .writeBuf,
  bail [.unlock .writeBuf],               -- not serialized
  bail [.unlock .writeBuf],               -- not sent
  .unlock .writeBuf]

/-- `_handle_pubrec_packet`. -/
def handlePubrecPacket : Code := block [
  bail [],                                -- not decoded
  .lock .writeBuf,
  bail [.unlock .writeBuf],               -- not serialized
  bail [.unlock .writeBuf],               -- not sent
  .unlock .writeBuf]

/-- `_handle_pingresp_packet`. -/
def handlePingrespPacket : Code := block [.lock .generic, .unlock .generic]

/-- `cycle_for_read`. -/
def cycleForRead : Code := block [
  bail [],
  bail [],                                -- nothing to read
  bail [],                                -- not read
  -- the first switch, on the packet type
  .choice (.call handlePubackPacket) <|
    .choice (.call handleSubackPacket) <|
    .choice (.call handleUnsubackPacket) <|
    .choice (.call handlePublishPacket) <|
    .choice (.call handlePubrecPacket) (bail []),
  -- the second one
  .choice (.call handlePingrespPacket) (maybe [.lock .generic, .unlock .generic])]

/-- `wait_for_read`. -/
def waitForRead : Code := block [bail [], .loop (.call cycleForRead)]

/-! ## The session -/

/-- `_mqtt_connect`. -/
def mqttConnect : Code := block [
  bail [],                                -- no network
  .lock .writeBuf,
  bail [.unlock .writeBuf],               -- not serialized
  bail [.unlock .writeBuf],               -- not sent
  .unlock .writeBuf,
  .call waitForRead,
  bail [],                                -- no CONNACK
  bail [],                                -- not decoded
  bail [],                                -- not accepted
  .call setClientConnState,
  .lock .generic,
  .unlock .generic]

/-- `qcloud_iot_mqtt_connect`. -/
def qcloudIotMqttConnect : Code := block [
  bail [],
  .call getClientConnState,
  bail [],                                -- connected already
  .call mqttConnect]

/-- `qcloud_iot_mqtt_attempt_reconnect`. -/
def qcloudIotMqttAttemptReconnect : Code := block [
  bail [],
  .call getClientConnState,
  bail [],                                -- connected already
  .call qcloudIotMqttConnect,
  .call getClientConnState,
  bail [],                                -- not connected
  .call qcloudIotMqttResubscribe]

/-- `qcloud_iot_mqtt_disconnect`. -/
def qcloudIotMqttDisconnect : Code := block [
  bail [],
  .call getClientConnState,
  bail [],                                -- not connected
  .lock .writeBuf,
  bail [.unlock .writeBuf],               -- not serialized
  bail [.unlock .writeBuf],               -- not sent
  .unlock .writeBuf,
  .call setClientConnState]

/-- `_handle_disconnect`. -/
def handleDisconnect : Code := block [
  .call getClientConnState,
  bail [],                                -- not connected
  .call qcloudIotMqttDisconnect,
  maybe [.call setClientConnState]]

/-- `_handle_reconnect`. -/
def handleReconnect : Code := block [
  bail [],                                -- the delay is not over
  maybe [.call qcloudIotMqttAttemptReconnect,
    bail []],                             -- reconnected
  bail []]

/-- `_mqtt_keep_alive`. -/
def mqttKeepAlive : Code := block [
  bail [],                                -- no keep-alive
  bail [],                                -- not yet
  bail [.call handleDisconnect],          -- no PINGRESP
  .lock .writeBuf,
  bail [.unlock .writeBuf],               -- not serialized
  .loop .skip,
  bail [.unlock .writeBuf, .call handleDisconnect],
  .unlock .writeBuf,
  .lock .generic,
  .unlock .generic]

/-- `qcloud_iot_mqtt_pub_info_proc`: around a timeout the lock is given back and taken again. -/
def qcloudIotMqttPubInfoProc : Code := block [
  bail [],
  .lock .listPub,
  .loop (maybe [.unlock .listPub, .lock .listPub]),
  .unlock .listPub]

/-- `qcloud_iot_mqtt_sub_info_proc`. -/
def qcloudIotMqttSubInfoProc : Code := block [
  bail [],
  .lock .listSub,
  maybe [bail [.unlock .listSub],         -- no memory for the iterator
    .loop .skip],
  .unlock .listSub]

/-- `qcloud_iot_mqtt_yield`. -/
def qcloudIotMqttYield : Code := block [
  bail [],
  .call getClientConnState,
  bail [],                                -- manually disconnected
  .call getClientConnState,
  bail [],                                -- not connected and no reconnect
  .loop (block [
    .call getClientConnState,
    .choice
      (maybe [.call handleReconnect])     -- not connected
      (block [.call cycleForRead,
        .choice
          (block [.call qcloudIotMqttPubInfoProc, .call qcloudIotMqttSubInfoProc,
            .call mqttKeepAlive])
          (maybe [.call handleDisconnect])])])]

/-- The operations any thread may call. -/
def requests : List Code :=
  [qcloudIotMqttPublish, qcloudIotMqttSubscribe, qcloudIotMqttUnsubscribe, qcloudIotMqttIsSubReady]

/-- **The requests** keep to the order of the locks and balance them on every path. -/
theorem requests_disciplined : ∀ code ∈ requests, code.Disciplined Lock.rank := by decide

/-- **A yield** does too, whatever it reads and however the connection goes. -/
theorem yield_disciplined : qcloudIotMqttYield.Disciplined Lock.rank := by decide

end Code

/-! ## Any number of threads -/

section Threads

variable {ι : Type}

/-- What a thread may start when it is idle: any thread a request, and the `yielder` a yield. -/
def MayRun (yielder : ι) (i : ι) (code : Code) : Prop :=
  code ∈ Code.requests ∨ i = yielder ∧ code = Code.qcloudIotMqttYield

/-- The locks are used as non-recursive mutexes have to be. -/
structure LockDiscipline (S : Threads ι Lock) : Prop where
  /-- A lock given back is held by the thread. -/
  unlock_held : ∀ i l k fs, (S i).frames = (.unlock l :: k) :: fs → l ∈ (S i).held
  /-- A lock taken is not held by the thread. -/
  lock_not_held : ∀ i l k fs, (S i).frames = (.lock l :: k) :: fs → l ∉ (S i).held
  /-- An operation that has returned has left no lock. -/
  returned_free : ∀ i, (S i).frames = [] → (S i).held = []
  /-- No threads wait for each other in a circle. -/
  no_cycle : ∀ i, ¬ Relation.TransGen (Threads.Waits S) i i

/-- **Lock discipline**: with any number of threads that publish, subscribe, unsubscribe and ask
for subscriptions, and one that yields, in every interleaving of their steps. -/
theorem lockDiscipline_of_reachable [DecidableEq ι] (yielder : ι) {S : Threads ι Lock}
    (h : Threads.Reachable (MayRun yielder) S) : LockDiscipline S := by
  have hmay : ∀ i code, MayRun yielder i code → code.Disciplined Lock.rank := by
    rintro i code (hreq | ⟨-, rfl⟩)
    · exact Code.requests_disciplined code hreq
    · exact Code.yield_disciplined
  have hS := Threads.checked_of_reachable hmay h
  refine ⟨fun i l k fs => (hS i).unlock_held, fun i l k fs hnext hheld => ?_,
    fun i => (hS i).idle_held, Threads.not_waits_cycle hS⟩
  have hlt := (hS i).lock_above hnext l hheld
  omega

/-- One thread has begun a publish and another one a yield. -/
theorem lockDiscipline_publish_yield : LockDiscipline (Function.update
    (Function.update Threads.idle 1 ⟨[[.call Code.qcloudIotMqttPublish]], []⟩) 0
    ⟨[[.call Code.qcloudIotMqttYield]], []⟩ : Threads ℕ Lock) :=
  lockDiscipline_of_reachable 0
    ((Relation.ReflTransGen.single
      (Threads.Step.start 1 Code.qcloudIotMqttPublish rfl (Or.inl (by simp [Code.requests])))).tail
      (Threads.Step.start 0 Code.qcloudIotMqttYield rfl (Or.inr ⟨rfl, rfl⟩)))

end Threads

end QcloudIot.Mqtt
