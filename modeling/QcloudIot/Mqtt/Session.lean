import QcloudIot.Lib.Sweep
import QcloudIot.Mqtt.Requests
import QcloudIot.Mqtt.Inbound

/-!
# Sessions and the yield loop

Connecting, disconnecting and reconnecting (`mqtt_client_connect.c`), the two sweeps over the wait
lists, keep-alive and the yield loop (`mqtt_client_yield.c`), and the destruction of a client
(`IOT_MQTT_Destroy`). The log upload around them is left out.

Results: `pubInfoProc_eq` and `subInfoProc_eq`, what a sweep keeps and reports;
`disconnect_frame`, `handleDisconnect_frame`, `keepAlive_frame`, `openSession_frame` and
`acceptSession_frame`: the rest touches no table.
-/

namespace QcloudIot.Mqtt

open Lib

/-! ## The sweeps -/

/-- What a sweep meets: whether the list iterator can be allocated, and the clock at the `k`-th
node it visits. -/
structure SweepEnv where
  iterOk : Bool := true
  clock : Nat → Nat := fun _ => 0

/-- The loop of `qcloud_iot_mqtt_pub_info_proc`, which runs from the tail: the nodes it leaves. The
timer it restarts goes with its node. -/
def pubSweep (clock : Nat → Nat) (c : Client) : List PubInfo → List PubInfo × Client
  | [] => ([], c)
  | n :: ns =>
    let (kept, c) := pubSweep clock c ns
    if n.nodeState = .invalid then (kept, c)
    else if ¬ c.isConnected then (n :: kept, c)
    else if n.pubStartTime > clock ns.length then (n :: kept, c)
    else
      let c := (c.unlock .listPub).lock .listPub
      (kept, c.notify .publishTimeout n.msgId)

/-- `qcloud_iot_mqtt_pub_info_proc`. -/
def qcloudIotMqttPubInfoProc (c : Client) (env : SweepEnv) : Client :=
  let c := c.lock .listPub
  if c.listPubWaitAck.length = 0 ∨ ¬ env.iterOk then c.unlock .listPub
  else
    let (nodes, c) := pubSweep env.clock c c.listPubWaitAck
    { c with listPubWaitAck := nodes }.unlock .listPub

/-- The report of a subscribe or unsubscribe that has timed out. -/
def notifySubTimeout (c : Client) (n : SubInfo) : Client :=
  match c.eventHandle with
  | none => c
  | some f =>
    if n.type = .subscribe then
      (c.notifySub n.handler .subcribeTimeout).call (.event f .subcribeTimeout n.msgId)
    else c.call (.event f .unsubcribeTimeout n.msgId)

/-- The loop of `qcloud_iot_mqtt_sub_info_proc`, from the tail. -/
def subSweep (clock : Nat → Nat) (c : Client) : List SubInfo → List SubInfo × Client
  | [] => ([], c)
  | n :: ns =>
    let (kept, c) := subSweep clock c ns
    if n.nodeState = .invalid then (kept, c)
    else if ¬ c.isConnected then (n :: kept, c)
    else if n.subStartTime > clock ns.length then (n :: kept, c)
    else (kept, (notifySubTimeout c n).free n.handler.topicFilter)

/-- `qcloud_iot_mqtt_sub_info_proc`. -/
def qcloudIotMqttSubInfoProc (c : Client) (env : SweepEnv) : Client :=
  let c := c.lock .listSub
  if c.listSubWaitAck.length = 0 ∨ ¬ env.iterOk then c.unlock .listSub
  else
    let (nodes, c) := subSweep env.clock c c.listSubWaitAck
    { c with listSubWaitAck := nodes }.unlock .listSub

/-! ## Disconnecting -/

/-- `qcloud_iot_mqtt_disconnect`; the DISCONNECT packet is never empty. -/
def qcloudIotMqttDisconnect (c : Client) (env : SendEnv) : ReturnCode × Client :=
  let (connected, c) := c.getClientConnState
  if ¬ connected then (.errMqttNoConn, c)
  else
    let c := c.lock .writeBuf
    match serializePacketWithZeroPayload c.writeBufSize .disconnect with
    | .error rc => (rc, c.unlock .writeBuf)
    | .ok packet =>
      let (rc, c) := sendMqttPacket (c.write packet) packet.length env
      let c := c.unlock .writeBuf
      if rc ≠ .retSuccess then (rc, c)
      else
        let c := (c.emit .netDisconnect).setClientConnState false
        (.retSuccess, { c with wasManuallyDisconnected := true })

/-- `qcloud_iot_mqtt_disconnect` and, when it fails, the network stack disconnected by force. -/
def forceDisconnect (c : Client) (env : SendEnv) : ReturnCode × Client :=
  let (rc, c) := qcloudIotMqttDisconnect c env
  (rc, if rc ≠ .retSuccess then (c.emit .netDisconnect).setClientConnState false else c)

/-- `_handle_disconnect`, which always returns `QCLOUD_ERR_MQTT_NO_CONN`. -/
def handleDisconnect (c : Client) (env : SendEnv) : Client :=
  let (connected, c) := c.getClientConnState
  if ¬ connected then c
  else
    let c := (forceDisconnect c env).2.notify .disconnect 0
    { c with wasManuallyDisconnected := false }

/-! ## Connecting -/

/-- What a connection attempt meets: the network's connect, what `_serialize_connect_packet`
returns, the sending, the cycles until the timer expires, and the clock. -/
structure ConnectEnv where
  networkRc : ReturnCode := .retSuccess
  connectPacket : Except ReturnCode Bytes := .error .errInval
  send : SendEnv := {}
  cycles : List CycleEnv := []
  clock : Nat := 0

/-- `_mqtt_connect` up to the CONNECT packet; an error is what it returns there, which for an empty
packet is `QCLOUD_RET_SUCCESS`. -/
def openSession (c : Client) (options : MqttConnectParams) (env : ConnectEnv) :
    Except ReturnCode Unit × Client :=
  let c := { c with options := options }.emit .netConnect
  if env.networkRc ≠ .retSuccess then (.error env.networkRc, c)
  else
    let c := c.lock .writeBuf
    match env.connectPacket with
    | .error rc => (.error rc, c.unlock .writeBuf)
    | .ok packet =>
      if packet.length = 0 then (.error .retSuccess, c.unlock .writeBuf)
      else
        let (rc, c) := sendMqttPacket (c.write packet) packet.length env.send
        let c := c.unlock .writeBuf
        if rc ≠ .retSuccess then (.error rc, c) else (.ok (), c)

/-- `_mqtt_connect` once the CONNACK is in the read buffer. -/
def acceptSession (c : Client) (clock : Nat) : ReturnCode × Client :=
  match deserializeConnackPacket c.readBuf c.readBufSize with
  | .error rc => (rc, c)
  | .ok (_, connackRc) =>
    if connackRc ≠ .retMqttConnackConnectionAccepted then (connackRc, c)
    else
      let c := (c.setClientConnState true).lock .generic
      let c := { c with
        wasManuallyDisconnected := false
        isPingOutstanding := 0
        pingTimer := clock + 1000 * c.options.keepAliveInterval.toNat }
      (.retSuccess, c.unlock .generic)

/-- `_mqtt_connect`. -/
def mqttConnect (c : Client) (options : MqttConnectParams) (env : ConnectEnv) :
    ReturnCode × Client :=
  match openSession c options env with
  | (.error rc, c) => (rc, c)
  | (.ok _, c) =>
    let (rc, c) := waitForRead c MessageTypes.connack.code 0 env.cycles
    if rc ≠ .retSuccess then (rc, c) else acceptSession c env.clock

/-- `qcloud_iot_mqtt_connect`. -/
def qcloudIotMqttConnect (c : Client) (options : MqttConnectParams) (env : ConnectEnv) :
    ReturnCode × Client :=
  let (connected, c) := c.getClientConnState
  if connected then (.retMqttAlreadyConnected, c)
  else
    let (rc, c) := mqttConnect c options env
    (rc, if rc ≠ .retSuccess then c.emit .netDisconnect else c)

/-- What a reconnect meets: the connection attempt and the calls that subscribe again. -/
structure ReconnectEnv where
  connect : ConnectEnv := {}
  subs : List CallEnv := []

/-- `qcloud_iot_mqtt_attempt_reconnect`. -/
def qcloudIotMqttAttemptReconnect (c : Client) (env : ReconnectEnv) : ReturnCode × Client :=
  let (connected, c) := c.getClientConnState
  if connected then (.retMqttAlreadyConnected, c)
  else
    let (rc, c) := qcloudIotMqttConnect c c.options env.connect
    let (connected, c) := c.getClientConnState
    if ¬ connected then (rc, c)
    else
      let (rc, c) := qcloudIotMqttResubscribe c env.subs
      if rc ≠ .retSuccess then (rc, c) else (.retMqttReconnected, c)

/-! ## Yielding -/

/-- `MAX_RECONNECT_WAIT_INTERVAL`. -/
def maxReconnectWaitInterval : UInt32 := 60000

/-- `MQTT_PING_RETRY_TIMES`. -/
def mqttPingRetryTimes : UInt8 := 2

/-- What `_handle_reconnect` meets: the clock at its start, `network_stack.is_connected` (true where
it is NULL), the reconnect, and the clock at its end. -/
structure HandleReconnectEnv where
  delayClock : Nat := 0
  physicalLayer : Bool := true
  reconnect : ReconnectEnv := {}
  clock : Nat := 0

/-- The end of `_handle_reconnect`: the wait before the next attempt is doubled. -/
def backOff (c : Client) (rc : ReturnCode) (clock : Nat) : ReturnCode × Client :=
  let c := { c with currentReconnectWaitInterval := c.currentReconnectWaitInterval * 2 }
  if maxReconnectWaitInterval < c.currentReconnectWaitInterval then (.errMqttReconnectTimeout, c)
  else (rc, { c with reconnectDelayTimer := clock + c.currentReconnectWaitInterval.toNat })

/-- `_handle_reconnect`. -/
def handleReconnect (c : Client) (env : HandleReconnectEnv) : ReturnCode × Client :=
  if c.reconnectDelayTimer > env.delayClock then (.errMqttAttemptingReconnect, c)
  else if env.physicalLayer then
    let (rc, c) := qcloudIotMqttAttemptReconnect c env.reconnect
    if rc = .retMqttReconnected then (rc, c.notify .reconnect 0)
    else backOff c .errMqttAttemptingReconnect env.clock
  else backOff c .retMqttReconnected env.clock

/-- What `_mqtt_keep_alive` meets: the clock, the sendings of the PINGREQ, the sending of a
DISCONNECT, and the clock at its end. -/
structure KeepAliveEnv where
  clock : Nat := 0
  pings : List SendEnv := []
  disconnect : SendEnv := {}
  clockAfter : Nat := 0

/-- The loop of `_mqtt_keep_alive`: one sending and up to `retries` more while it fails. -/
def sendPing (c : Client) (length : Nat) : (retries : Nat) → List SendEnv → ReturnCode × Client
  | 0, envs => sendMqttPacket c length (envs.headD {})
  | retries + 1, envs =>
    let (rc, c) := sendMqttPacket c length (envs.headD {})
    if rc ≠ .retSuccess then sendPing c length retries envs.tail else (rc, c)

/-- `_mqtt_keep_alive`. -/
def mqttKeepAlive (c : Client) (env : KeepAliveEnv) : ReturnCode × Client :=
  if c.options.keepAliveInterval = 0 then (.retSuccess, c)
  else if c.pingTimer > env.clock then (.retSuccess, c)
  else if c.isPingOutstanding ≥ mqttPingRetryTimes then
    (.errMqttNoConn, handleDisconnect c env.disconnect)
  else
    let c := c.lock .writeBuf
    match serializePacketWithZeroPayload c.writeBufSize .pingreq with
    | .error rc => (rc, c.unlock .writeBuf)
    | .ok packet =>
      let (rc, c) := sendPing (c.write packet) packet.length 3 env.pings
      let c := c.unlock .writeBuf
      if rc ≠ .retSuccess then (.errMqttNoConn, handleDisconnect c env.disconnect)
      else
        let c := c.lock .generic
        let c := { c with
          isPingOutstanding := c.isPingOutstanding + 1
          pingTimer := env.clockAfter + 1000 * min 5 (c.options.keepAliveInterval.toNat / 2) }
        (.retSuccess, c.unlock .generic)

/-- What one round of the yield loop meets. -/
structure YieldStep where
  reconnect : HandleReconnectEnv := {}
  cycle : CycleEnv := {}
  pubSweep : SweepEnv := {}
  subSweep : SweepEnv := {}
  keepAlive : KeepAliveEnv := {}
  disconnect : SendEnv := {}
  randomInterval : UInt32 := 1000
  clock : Nat := 0

/-- What the yield loop does with the result of its read: the sweeps and keep-alive, or the
disconnection after a failed read. -/
def afterRead (c : Client) (rc : ReturnCode) (s : YieldStep) : ReturnCode × Client :=
  if rc = .retSuccess then
    let c := qcloudIotMqttPubInfoProc c s.pubSweep
    let c := qcloudIotMqttSubInfoProc c s.subSweep
    mqttKeepAlive c s.keepAlive
  else if rc = .errSslReadTimeout ∨ rc = .errSslRead ∨ rc = .errTcpPeerShutdown ∨
      rc = .errTcpReadFail then
    (.errMqttNoConn, handleDisconnect c s.disconnect)
  else (rc, c)

/-- The reconnection scheduled after a disconnection. -/
def scheduleReconnect (c : Client) (interval : UInt32) (clock : Nat) : Client :=
  { c with currentReconnectWaitInterval := interval, reconnectDelayTimer := clock + interval.toNat }

/-- The loop of `qcloud_iot_mqtt_yield`; the steps are the rounds made before the timer expires. -/
def yieldLoop : List YieldStep → (rc : ReturnCode) → (packetType : UInt8) → Client →
    ReturnCode × Client
  | [], rc, _, c => (rc, c)
  | s :: steps, _, packetType, c =>
    let (connected, c) := c.getClientConnState
    if ¬ connected then
      if c.currentReconnectWaitInterval > maxReconnectWaitInterval then
        (.errMqttReconnectTimeout, c)
      else
        let (rc, c) := handleReconnect c s.reconnect
        yieldLoop steps rc packetType c
    else
      let (rc, packetType, c) := cycleForRead c packetType s.cycle
      let (rc, c) := afterRead c rc s
      if rc = .errMqttNoConn then
        let c := { c with counterNetworkDisconnected := c.counterNetworkDisconnected + 1 }
        if c.options.autoConnectEnable then
          yieldLoop steps .errMqttAttemptingReconnect packetType
            (scheduleReconnect c s.randomInterval s.clock)
        else (rc, c)
      else if rc ≠ .retSuccess then (rc, c)
      else yieldLoop steps rc packetType c

/-- `qcloud_iot_mqtt_yield`; `packetType` is the value its local variable starts with. -/
def qcloudIotMqttYield (c : Client) (timeoutMs : UInt32) (packetType : UInt8)
    (steps : List YieldStep) : ReturnCode × Client :=
  if timeoutMs = 0 then (.errInval, c)
  else
    let (connected, c) := c.getClientConnState
    if ¬ connected ∧ c.wasManuallyDisconnected then (.retMqttManuallyDisconnected, c)
    else
      let (connected, c) := c.getClientConnState
      if ¬ connected ∧ ¬ c.options.autoConnectEnable then (.errMqttNoConn, c)
      else yieldLoop steps .retSuccess packetType c

/-! ## Destroying -/

/-- The loop of `IOT_MQTT_Destroy` over the slots. -/
def destroySlots (c : Client) : List SubTopicHandle → List SubTopicHandle × Client
  | [] => ([], c)
  | slot :: slots =>
    let c := if slot.topicFilter.isSome then c.notifySub slot .clientDestroy else c
    let (slots, c) := destroySlots (c.free slot.topicFilter) slots
    ({ slot with topicFilter := none } :: slots, c)

theorem destroySlots_fst : ∀ (slots : List SubTopicHandle) (c : Client),
    (destroySlots c slots).1 = slots.map fun s => { s with topicFilter := none } := by
  intro slots
  induction slots with
  | nil => intro c; rfl
  | cons s slots ih => intro c; simp [destroySlots, ih]

/-- `IOT_MQTT_Destroy`: the wait lists go with their nodes, but not with what the nodes refer to. -/
def iotMqttDestroy (c : Client) (env : SendEnv) : ReturnCode × Client :=
  let (rc, c) := forceDisconnect c env
  let r := destroySlots c c.subHandles.slots
  (rc, { r.2 with
    subHandles := ⟨r.1, by rw [destroySlots_fst, List.length_map, c.subHandles.length_eq]⟩
    repeatBuf := .empty
    listPubWaitAck := []
    listSubWaitAck := [] })

/-! ## What a sweep does -/

/-- A sweep leaves a node with this state and this time, when it has passed `k` nodes: it is valid,
and its time has not come or the client is not connected. -/
def nodeStays (connected : Bool) (clock : Nat → Nat) (state : MqttNodeState) (start k : Nat) : Bool :=
  state == .normal && !(connected && decide (start ≤ clock k))

/-- A sweep reports the node as timed out. -/
def nodeExpires (connected : Bool) (clock : Nat → Nat) (state : MqttNodeState) (start k : Nat) :
    Bool :=
  state == .normal && (connected && decide (start ≤ clock k))

section Node

variable {connected : Bool} {clock : Nat → Nat} {state : MqttNodeState} {start k : Nat}

/-- A valid node stays or expires. -/
theorem nodeStays_eq_not (h : state = .normal) :
    nodeStays connected clock state start k = !nodeExpires connected clock state start k := by
  simp [nodeStays, nodeExpires, h]

theorem normal_of_nodeExpires (h : nodeExpires connected clock state start k = true) :
    state = .normal := by
  simp only [nodeExpires, Bool.and_eq_true, beq_iff_eq] at h
  exact h.1

end Node

/-- A sweep leaves the publish. -/
def pubStays (connected : Bool) (clock : Nat → Nat) (k : Nat) (n : PubInfo) : Bool :=
  nodeStays connected clock n.nodeState n.pubStartTime k

/-- A sweep times the publish out. -/
def pubExpires (connected : Bool) (clock : Nat → Nat) (k : Nat) (n : PubInfo) : Bool :=
  nodeExpires connected clock n.nodeState n.pubStartTime k

/-- The publishes a sweep leaves. -/
def keptPubs (c : Client) (env : SweepEnv) : List PubInfo :=
  if env.iterOk then tailFilter (pubStays c.isConnected env.clock) c.listPubWaitAck
  else c.listPubWaitAck

/-- The publishes a sweep times out. -/
def expiredPubs (c : Client) (env : SweepEnv) : List PubInfo :=
  if env.iterOk then tailFilter (pubExpires c.isConnected env.clock) c.listPubWaitAck else []

/-- What a sweep logs for a publish it times out: the lock is given back and taken again before the
application is told. -/
def pubTimeoutEvents (c : Client) (n : PubInfo) : List Ev :=
  [.unlock .listPub, .lock .listPub] ++ Client.eventCall c.eventHandle .publishTimeout n.msgId c.held

theorem pubSweep_eq {held : List Lock} (clock : Nat → Nat) : ∀ (nodes : List PubInfo) (c : Client),
    c.held = .listPub :: held → pubSweep clock c nodes =
      (tailFilter (pubStays c.isConnected clock) nodes,
        { c with log := c.log ++
          (tailFilter (pubExpires c.isConnected clock) nodes).reverse.flatMap (pubTimeoutEvents c) }) := by
  intro nodes
  induction nodes with
  | nil => intro c _; simp [pubSweep, tailFilter]
  | cons n ns ih =>
    intro c hheld
    rw [pubSweep, ih c hheld]
    cases hstate : n.nodeState with
    | invalid => simp [tailFilter, pubStays, pubExpires, nodeStays, nodeExpires, hstate]
    | normal =>
      cases hconn : c.isConnected with
      | false => simp [tailFilter, pubStays, pubExpires, nodeStays, nodeExpires, hstate]
      | true =>
        by_cases ht : n.pubStartTime > clock ns.length
        · simp [tailFilter, pubStays, pubExpires, nodeStays, nodeExpires, hstate, ht, Nat.not_le.mpr ht]
        · simp [tailFilter, pubStays, pubExpires, nodeStays, nodeExpires, hstate, ht, Nat.le_of_not_lt ht,
            pubTimeoutEvents, Client.notify_eq, Client.lock, Client.unlock, hheld]

/-- **The publish sweep.** -/
theorem pubInfoProc_eq (c : Client) (env : SweepEnv) : qcloudIotMqttPubInfoProc c env = { c with
    listPubWaitAck := keptPubs c env
    log := c.log ++ ([.lock .listPub] ++
      (expiredPubs c env).reverse.flatMap (pubTimeoutEvents (c.lock .listPub)) ++
      [.unlock .listPub]) } := by
  unfold qcloudIotMqttPubInfoProc keptPubs expiredPubs
  by_cases hiter : env.iterOk = true
  swap
  · simp [hiter, Client.lock, Client.unlock]
  by_cases hlen : c.listPubWaitAck = []
  · simp [hiter, hlen, Client.lock, Client.unlock, tailFilter]
  · have hswept := pubSweep_eq env.clock c.listPubWaitAck (c.lock .listPub) rfl
    simp [hiter, hlen, hswept, Client.unlock]

/-- A sweep leaves the subscribe or unsubscribe. -/
def subStays (connected : Bool) (clock : Nat → Nat) (k : Nat) (n : SubInfo) : Bool :=
  nodeStays connected clock n.nodeState n.subStartTime k

/-- A sweep times it out. -/
def subExpires (connected : Bool) (clock : Nat → Nat) (k : Nat) (n : SubInfo) : Bool :=
  nodeExpires connected clock n.nodeState n.subStartTime k

/-- The subscribes and unsubscribes a sweep leaves. -/
def keptSubs (c : Client) (env : SweepEnv) : List SubInfo :=
  if env.iterOk then tailFilter (subStays c.isConnected env.clock) c.listSubWaitAck
  else c.listSubWaitAck

/-- The ones a sweep times out. -/
def expiredSubs (c : Client) (env : SweepEnv) : List SubInfo :=
  if env.iterOk then tailFilter (subExpires c.isConnected env.clock) c.listSubWaitAck else []

/-- What a sweep logs for one it times out: the reports, for which there must be an `h_fp`, and the
filter string freed. -/
def subTimeoutEvents (c : Client) (n : SubInfo) : List Ev :=
  (match c.eventHandle with
    | none => []
    | some f =>
      if n.type = .subscribe then Client.subEventCall n.handler .subcribeTimeout c.held ++
        [.callback (.event f .subcribeTimeout n.msgId) c.held]
      else [.callback (.event f .unsubcribeTimeout n.msgId) c.held]) ++
  n.handler.topicFilter.toList.map fun f => .free f.addr

theorem notifySubTimeout_free_eq (c : Client) (n : SubInfo) :
    (notifySubTimeout c n).free n.handler.topicFilter =
      { c with log := c.log ++ subTimeoutEvents c n } := by
  unfold notifySubTimeout subTimeoutEvents
  cases h : c.eventHandle with
  | none => simp [Client.free_eq, h]
  | some f =>
    by_cases ht : n.type = .subscribe <;>
      simp [ht, Client.free_eq, Client.notifySub_eq, Client.call, h]

theorem subSweep_eq (clock : Nat → Nat) : ∀ (nodes : List SubInfo) (c : Client),
    subSweep clock c nodes =
      (tailFilter (subStays c.isConnected clock) nodes,
        { c with log := c.log ++
          (tailFilter (subExpires c.isConnected clock) nodes).reverse.flatMap (subTimeoutEvents c) }) := by
  intro nodes
  induction nodes with
  | nil => intro c; simp [subSweep, tailFilter]
  | cons n ns ih =>
    intro c
    rw [subSweep, ih c]
    cases hstate : n.nodeState with
    | invalid => simp [tailFilter, subStays, subExpires, nodeStays, nodeExpires, hstate]
    | normal =>
      cases hconn : c.isConnected with
      | false => simp [tailFilter, subStays, subExpires, nodeStays, nodeExpires, hstate]
      | true =>
        by_cases ht : n.subStartTime > clock ns.length
        · simp [tailFilter, subStays, subExpires, nodeStays, nodeExpires, hstate, ht, Nat.not_le.mpr ht]
        · simp only [tailFilter, subStays, subExpires, nodeStays, nodeExpires, hstate, ht, notifySubTimeout_free_eq]
          simp [Nat.le_of_not_lt ht, subTimeoutEvents]

/-- **The sweep over subscribes and unsubscribes.** -/
theorem subInfoProc_eq (c : Client) (env : SweepEnv) : qcloudIotMqttSubInfoProc c env = { c with
    listSubWaitAck := keptSubs c env
    log := c.log ++ ([.lock .listSub] ++
      (expiredSubs c env).reverse.flatMap (subTimeoutEvents (c.lock .listSub)) ++
      [.unlock .listSub]) } := by
  unfold qcloudIotMqttSubInfoProc keptSubs expiredSubs
  by_cases hiter : env.iterOk = true
  swap
  · simp [hiter, Client.lock, Client.unlock]
  by_cases hlen : c.listSubWaitAck = []
  · simp [hiter, hlen, Client.lock, Client.unlock, tailFilter]
  · have hswept := subSweep_eq env.clock c.listSubWaitAck (c.lock .listSub)
    simp [hiter, hlen, hswept, Client.unlock]

/-! ### What the sweeps' entries show -/

section SweepViews

variable (c : Client)

/-- Every publish timed out ends, where there is an application to tell. -/
theorem fatesIn_pubTimeout (nodes : List PubInfo) :
    fatesIn (nodes.flatMap (pubTimeoutEvents c)) =
      if c.eventHandle.isSome then nodes.map (.ended ·.msgId) else [] := by
  induction nodes with
  | nil => simp
  | cons n nodes ih =>
    rw [List.flatMap_cons, fatesIn_append, ih]
    cases h : c.eventHandle <;> simp [pubTimeoutEvents, h]

theorem freedIn_pubTimeout (nodes : List PubInfo) :
    freedIn (nodes.flatMap (pubTimeoutEvents c)) = [] := by
  induction nodes with
  | nil => simp
  | cons n nodes ih =>
    rw [List.flatMap_cons, freedIn_append, ih]
    simp [pubTimeoutEvents]

theorem deliveredIn_pubTimeout (nodes : List PubInfo) :
    deliveredIn (nodes.flatMap (pubTimeoutEvents c)) = [] := by
  induction nodes with
  | nil => simp
  | cons n nodes ih =>
    rw [List.flatMap_cons, deliveredIn_append, ih]
    simp [pubTimeoutEvents]

/-- The sweep tells the application under its mutex. -/
theorem lockedIn_pubTimeout {c : Client} (hheld : c.held ≠ []) (nodes : List PubInfo) :
    lockedIn (nodes.flatMap (pubTimeoutEvents c)) = [] ↔ c.eventHandle = none ∨ nodes = [] := by
  induction nodes with
  | nil => simp
  | cons n nodes ih =>
    rw [List.flatMap_cons, lockedIn_append, List.append_eq_nil_iff, ih]
    cases h : c.eventHandle <;> simp [pubTimeoutEvents, h, hheld]

/-- The filter string of every node timed out is freed. -/
theorem freedIn_subTimeout (nodes : List SubInfo) :
    freedIn (nodes.flatMap (subTimeoutEvents c)) = nodes.filterMap (·.handler.addr?) := by
  induction nodes with
  | nil => simp
  | cons n nodes ih =>
    rw [List.flatMap_cons, freedIn_append, ih]
    cases h : c.eventHandle <;> cases hf : n.handler.topicFilter <;>
      by_cases ht : n.type = .subscribe <;>
      simp [subTimeoutEvents, h, hf, ht, SubTopicHandle.addr?]

theorem fatesIn_subTimeout (nodes : List SubInfo) :
    fatesIn (nodes.flatMap (subTimeoutEvents c)) = [] := by
  induction nodes with
  | nil => simp
  | cons n nodes ih =>
    rw [List.flatMap_cons, fatesIn_append, ih]
    cases h : c.eventHandle <;> by_cases ht : n.type = .subscribe <;>
      simp [subTimeoutEvents, h, ht]

theorem deliveredIn_subTimeout (nodes : List SubInfo) :
    deliveredIn (nodes.flatMap (subTimeoutEvents c)) = [] := by
  induction nodes with
  | nil => simp
  | cons n nodes ih =>
    rw [List.flatMap_cons, deliveredIn_append, ih]
    cases h : c.eventHandle <;> by_cases ht : n.type = .subscribe <;>
      simp [subTimeoutEvents, h, ht]

theorem lockedIn_subTimeout {c : Client} (hheld : c.held ≠ []) (nodes : List SubInfo) :
    lockedIn (nodes.flatMap (subTimeoutEvents c)) = [] ↔ c.eventHandle = none ∨ nodes = [] := by
  induction nodes with
  | nil => simp
  | cons n nodes ih =>
    rw [List.flatMap_cons, lockedIn_append, List.append_eq_nil_iff, ih]
    cases h : c.eventHandle <;> by_cases ht : n.type = .subscribe <;>
      simp [subTimeoutEvents, h, ht, hheld]

end SweepViews

/-! ## What the rest leaves alone -/

theorem disconnect_frame (c : Client) (env : SendEnv) :
    Frame c (qcloudIotMqttDisconnect c env).2 := by
  have hstate := Frame.getClientConnState c
  unfold qcloudIotMqttDisconnect
  generalize c.getClientConnState = r at hstate
  obtain ⟨connected, c1⟩ := r
  simp only at hstate ⊢
  split
  · exact hstate
  split
  · exact hstate.trans (Frame.lockUnlock (Frame.refl _))
  · rename_i packet _
    have hsend := hstate.trans (Frame.lockUnlock ((Frame.write (c1.lock .writeBuf) packet).trans
      (sendMqttPacket_frame _ packet.length env)))
    split
    · exact hsend
    · have hclose := (hsend.trans (Frame.emit _ rfl rfl rfl rfl)).trans
        (Frame.setClientConnState (Client.emit _ .netDisconnect) false)
      exact hclose.trans (by constructor <;> rfl)

theorem forceDisconnect_frame (c : Client) (env : SendEnv) : Frame c (forceDisconnect c env).2 := by
  have hdisc := disconnect_frame c env
  unfold forceDisconnect
  simp only
  split
  · exact (hdisc.trans (Frame.emit _ rfl rfl rfl rfl)).trans (Frame.setClientConnState _ false)
  · exact hdisc

/-- **Handling a disconnection** tells the application outside every mutex. -/
theorem handleDisconnect_frame {c : Client} (env : SendEnv) (hheld : c.held = []) :
    Frame c (handleDisconnect c env) := by
  have hstate := Frame.getClientConnState c
  unfold handleDisconnect
  simp only
  split
  · exact hstate
  · have hforce := hstate.trans (forceDisconnect_frame c.getClientConnState.2 env)
    have hnotify := hforce.trans (Frame.notify .disconnect 0
      (hforce.held.trans hheld) (by decide) (by decide))
    exact hnotify.trans (by constructor <;> rfl)

theorem openSession_frame (c : Client) (options : MqttConnectParams) (env : ConnectEnv) :
    Frame c (openSession c options env).2 := by
  have hset : Frame c { c with options := options } := by constructor <;> rfl
  have hopen := hset.trans (Frame.emit { c with options := options } (e := .netConnect) rfl rfl rfl rfl)
  unfold openSession
  simp only
  split
  · exact hopen
  split
  · exact hopen.trans (Frame.lockUnlock (Frame.refl _))
  split
  · exact hopen.trans (Frame.lockUnlock (Frame.refl _))
  · split <;> exact hopen.trans (Frame.lockUnlock ((Frame.write _ _).trans
      (sendMqttPacket_frame _ _ _)))

theorem acceptSession_frame (c : Client) (clock : Nat) : Frame c (acceptSession c clock).2 := by
  unfold acceptSession
  split
  · exact Frame.refl c
  · simp only
    split
    · exact Frame.refl c
    · exact (Frame.setClientConnState c true).trans (Frame.lockUnlock (by constructor <;> rfl))

theorem sendPing_frame (length : Nat) : ∀ (retries : Nat) (c : Client) (envs : List SendEnv),
    Frame c (sendPing c length retries envs).2 := by
  intro retries
  induction retries with
  | zero => intro c envs; exact sendMqttPacket_frame c length _
  | succ retries ih =>
    intro c envs
    have hsend := sendMqttPacket_frame c length (envs.headD {})
    simp only [sendPing]
    split
    · exact hsend.trans (ih _ _)
    · exact hsend

/-- **Keep-alive**, with the disconnection it may end in. -/
theorem keepAlive_frame {c : Client} (env : KeepAliveEnv) (hheld : c.held = []) :
    Frame c (mqttKeepAlive c env).2 := by
  unfold mqttKeepAlive
  split
  · exact Frame.refl c
  split
  · exact Frame.refl c
  split
  · exact handleDisconnect_frame _ hheld
  simp only
  split
  · exact Frame.lockUnlock (Frame.refl _)
  · rename_i packet _
    have hping := Frame.lockUnlock ((Frame.write (c.lock .writeBuf) packet).trans
      (sendPing_frame packet.length 3 ((c.lock .writeBuf).write packet) env.pings))
    split
    · exact hping.trans (handleDisconnect_frame _ (hping.held.trans hheld))
    · exact hping.trans (Frame.lockUnlock (by constructor <;> rfl))

end QcloudIot.Mqtt
