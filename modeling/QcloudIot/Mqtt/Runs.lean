import QcloudIot.Lib.Run
import QcloudIot.Mqtt.Session

/-!
# Runs of the client

What a client does one step at a time: a call of the application, a packet read and handled, a
sweep, keep-alive, and the parts of connecting and reconnecting. A run is any sequence of such
steps; `qcloud_iot_mqtt_connect`, `qcloud_iot_mqtt_attempt_reconnect` and `qcloud_iot_mqtt_yield`
are runs themselves.

Results:
* `connect_reaches`, `attemptReconnect_reaches`, **`yield_reaches`**: the composed functions are
  runs of steps;
* `act_frame`: a `quiet` step leaves tables, wait lists and allocations alone;
* **`act_step`**: what a step can do, which every invariant is derived from;
* `act_sameThread`: between two steps the locks held are the same.
-/

namespace QcloudIot.Mqtt

open Lib

/-! ## The steps -/

/-- A step of the client, with what it meets. -/
inductive Act where
  | subscribe (topicFilter : Option Bytes) (pParams : Option SubscribeParams) (env : CallEnv)
  | unsubscribe (topicFilter : Option Bytes) (env : CallEnv)
  | publish (topicName : Option Bytes) (pParams : Option PublishParams) (env : CallEnv)
  | isSubReady (topicFilter : Option Bytes)
  | disconnect (env : SendEnv)
  /-- `cycle_for_read`, with the value `*packet_type` has. -/
  | cycle (packetType : UInt8) (env : CycleEnv)
  | pubInfoProc (env : SweepEnv)
  | subInfoProc (env : SweepEnv)
  | keepAlive (env : KeepAliveEnv)
  | handleDisconnect (env : SendEnv)
  | getClientConnState
  | openSession (options : MqttConnectParams) (env : ConnectEnv)
  | acceptSession (clock : Nat)
  /-- The network stack is disconnected after a failed connect. -/
  | closeNetwork
  /-- `counter_network_disconnected++`. -/
  | countDisconnect
  | scheduleReconnect (interval : UInt32) (clock : Nat)
  | backOff (rc : ReturnCode) (clock : Nat)
  /-- `MQTT_EVENT_RECONNECT`. -/
  | notifyReconnect

/-- `qcloud_iot_mqtt_publish`, with the packet id that a publish above QoS 0 returns put on
record. -/
def publishAct (c : Client) (topicName : Option Bytes) (pParams : Option PublishParams)
    (env : CallEnv) : Client :=
  match qcloudIotMqttPublish c topicName pParams env with
  | (.ok id, c) => if pParams.any (·.qos.toNat > 0) then c.emit (.published id) else c
  | (.error _, c) => c

/-- One step. -/
def act (c : Client) : Act → Client
  | .subscribe topicFilter pParams env => (qcloudIotMqttSubscribe c topicFilter pParams env).2
  | .unsubscribe topicFilter env => (qcloudIotMqttUnsubscribe c topicFilter env).2
  | .publish topicName pParams env => publishAct c topicName pParams env
  | .isSubReady topicFilter => (qcloudIotMqttIsSubReady c topicFilter).2
  | .disconnect env => (qcloudIotMqttDisconnect c env).2
  | .cycle packetType env => (cycleForRead c packetType env).2.2
  | .pubInfoProc env => qcloudIotMqttPubInfoProc c env
  | .subInfoProc env => qcloudIotMqttSubInfoProc c env
  | .keepAlive env => (mqttKeepAlive c env).2
  | .handleDisconnect env => handleDisconnect c env
  | .getClientConnState => c.getClientConnState.2
  | .openSession options env => (openSession c options env).2
  | .acceptSession clock => (acceptSession c clock).2
  | .closeNetwork => c.emit .netDisconnect
  | .countDisconnect => { c with counterNetworkDisconnected := c.counterNetworkDisconnected + 1 }
  | .scheduleReconnect interval clock => scheduleReconnect c interval clock
  | .backOff rc clock => (backOff c rc clock).2
  | .notifyReconnect => c.notify .reconnect 0

/-- `c'` is where some run from `c` ends. -/
abbrev Reaches (c c' : Client) : Prop := Leads act c c'

theorem act_reaches (c : Client) (a : Act) : Reaches c (act c a) := Leads.one a

/-- What the network hands over for a packet whose remaining length is one byte. -/
def packetReads (first : UInt8) (rest : Bytes) : NetReads :=
  [(.retSuccess, [first]), (.retSuccess, [UInt8.ofNat rest.length]), (.retSuccess, rest)]

/-- A client with an event handler. -/
def freshClient : Client := Client.init (some 1) 0 5000 ⟨60, true⟩

/-- A CONNACK is read and the session accepted. -/
def sessionActs : List Act := [.cycle 0 { reads := packetReads 0x20 [0, 0] }, .acceptSession 0]

/-- A QoS 1 publish to topic "t", the first one of which gets the packet id 1. -/
def publishOnce : Act := .publish (some [116]) (some { qos := .qos1, payload := some [] })
  { send := { writes := [(.retSuccess, 7)] } }

/-- A subscription to the topic filter "t", with the packet id 1 where it is the first request. -/
def subscribeOnce : Act := .subscribe (some [116]) (some {})
  { send := { writes := [(.retSuccess, 8)] } }

/-- The SUBACK for it, which grants QoS 0. -/
def subackOnce : Act := .cycle 0 { reads := packetReads 0x90 [0, 1, 0] }

/-- The topic filter "t" unsubscribed, with the packet id 2 after `subscribeOnce`. -/
def unsubscribeOnce : Act := .unsubscribe (some [116]) { send := { writes := [(.retSuccess, 7)] } }

/-- The UNSUBACK for it. -/
def unsubackOnce : Act := .cycle 0 { reads := packetReads 0xB0 [0, 2] }

example : (run act freshClient sessionActs).isConnected = true := by decide

/-! ## The composed functions are runs -/

theorem waitForRead_reaches (packetType : UInt8) : ∀ (envs : List CycleEnv) (readPacketType : UInt8)
    (c : Client), Reaches c (waitForRead c packetType readPacketType envs).2 := by
  intro envs
  induction envs with
  | nil => intro readPacketType c; exact Leads.refl c
  | cons env envs ih =>
    intro readPacketType c
    have hcycle : Reaches c (cycleForRead c readPacketType env).2.2 :=
      act_reaches _ (.cycle readPacketType env)
    simp only [waitForRead]
    split
    · exact hcycle.trans (ih _ _)
    · exact hcycle

theorem mqttConnect_reaches (c : Client) (options : MqttConnectParams) (env : ConnectEnv) :
    Reaches c (mqttConnect c options env).2 := by
  have hopen : Reaches c (openSession c options env).2 := act_reaches _ (.openSession options env)
  unfold mqttConnect
  generalize openSession c options env = r at hopen
  obtain ⟨rc | _, c1⟩ := r
  · exact hopen
  · have hwait := hopen.trans (waitForRead_reaches MessageTypes.connack.code env.cycles 0 c1)
    simp only
    split
    · exact hwait
    · exact hwait.trans (act_reaches _ (.acceptSession env.clock))

theorem connect_reaches (c : Client) (options : MqttConnectParams) (env : ConnectEnv) :
    Reaches c (qcloudIotMqttConnect c options env).2 := by
  have hstate : Reaches c c.getClientConnState.2 := act_reaches _ .getClientConnState
  unfold qcloudIotMqttConnect
  simp only
  split
  · exact hstate
  · have hconn := hstate.trans (mqttConnect_reaches c.getClientConnState.2 options env)
    split
    · exact hconn.trans (act_reaches _ .closeNetwork)
    · exact hconn

theorem resubscribeLoop_reaches : ∀ (slots : List SubTopicHandle) (c : Client)
    (envs : List CallEnv), Reaches c (resubscribeLoop slots c envs).2 := by
  intro slots
  induction slots with
  | nil => intro c envs; exact Leads.refl c
  | cons slot slots ih =>
    intro c envs
    unfold resubscribeLoop
    split
    · exact ih c envs
    · rename_i topic _
      have hsub : Reaches c (qcloudIotMqttSubscribe c (some topic.str)
          (some ⟨slot.qos, slot.messageHandler, slot.subEventHandler, slot.handlerUserData⟩)
          (envs.headD {})).2 := act_reaches _ (.subscribe _ _ _)
      simp only
      split
      · rename_i rc c1 heq
        rw [heq] at hsub
        exact hsub
      · rename_i id c1 heq
        rw [heq] at hsub
        exact hsub.trans (ih c1 envs.tail)

theorem resubscribe_reaches (c : Client) (envs : List CallEnv) :
    Reaches c (qcloudIotMqttResubscribe c envs).2 := by
  have hstate : Reaches c c.getClientConnState.2 := act_reaches _ .getClientConnState
  unfold qcloudIotMqttResubscribe
  simp only
  split
  · exact hstate
  · exact hstate.trans (resubscribeLoop_reaches _ _ envs)

theorem attemptReconnect_reaches (c : Client) (env : ReconnectEnv) :
    Reaches c (qcloudIotMqttAttemptReconnect c env).2 := by
  have hstate : ∀ c : Client, Reaches c c.getClientConnState.2 :=
    fun _ => act_reaches _ .getClientConnState
  unfold qcloudIotMqttAttemptReconnect
  simp only
  split
  · exact hstate c
  · have hconn := ((hstate c).trans
      (connect_reaches _ c.getClientConnState.2.options env.connect)).trans (hstate _)
    split
    · exact hconn
    · have hsub := hconn.trans (resubscribe_reaches _ env.subs)
      split <;> exact hsub

theorem handleReconnect_reaches (c : Client) (env : HandleReconnectEnv) :
    Reaches c (handleReconnect c env).2 := by
  unfold handleReconnect
  split
  · exact Leads.refl c
  split
  · have hrec := attemptReconnect_reaches c env.reconnect
    simp only
    split
    · exact hrec.trans (act_reaches _ .notifyReconnect)
    · exact hrec.trans (act_reaches _ (.backOff _ env.clock))
  · exact act_reaches _ (.backOff _ env.clock)

theorem afterRead_reaches (c : Client) (rc : ReturnCode) (s : YieldStep) :
    Reaches c (afterRead c rc s).2 := by
  unfold afterRead
  split
  · exact ((act_reaches _ (.pubInfoProc s.pubSweep)).trans (act_reaches _ (.subInfoProc s.subSweep))).trans
      (act_reaches _ (.keepAlive s.keepAlive))
  split
  · exact act_reaches _ (.handleDisconnect s.disconnect)
  · exact Leads.refl c

theorem yieldLoop_reaches : ∀ (steps : List YieldStep) (rc : ReturnCode) (packetType : UInt8)
    (c : Client), Reaches c (yieldLoop steps rc packetType c).2 := by
  intro steps
  induction steps with
  | nil => intro rc packetType c; exact Leads.refl c
  | cons s steps ih =>
    intro rc packetType c
    have hstate : Reaches c c.getClientConnState.2 := act_reaches _ .getClientConnState
    simp only [yieldLoop]
    split
    · split
      · exact hstate
      · exact (hstate.trans (handleReconnect_reaches _ s.reconnect)).trans (ih _ _ _)
    · have hread := (hstate.trans (act_reaches _ (.cycle packetType s.cycle))).trans
        (afterRead_reaches _ (cycleForRead c.getClientConnState.2 packetType s.cycle).1 s)
      split
      · have hcount := hread.trans (act_reaches _ .countDisconnect)
        split
        · exact (hcount.trans (act_reaches _ (.scheduleReconnect s.randomInterval s.clock))).trans
            (ih _ _ _)
        · exact hcount
      · split
        · exact hread
        · exact hread.trans (ih _ _ _)

/-- **A yield is a run of steps**, whatever happens in it. -/
theorem yield_reaches (c : Client) (timeoutMs : UInt32) (packetType : UInt8)
    (steps : List YieldStep) : Reaches c (qcloudIotMqttYield c timeoutMs packetType steps).2 := by
  have hstate : ∀ c : Client, Reaches c c.getClientConnState.2 :=
    fun _ => act_reaches _ .getClientConnState
  unfold qcloudIotMqttYield
  split
  · exact Leads.refl c
  simp only
  split
  · exact hstate c
  split
  · exact (hstate c).trans (hstate _)
  · exact ((hstate c).trans (hstate _)).trans (yieldLoop_reaches steps _ _ _)

/-! ## What a step leaves alone -/

/-- The steps that touch no table and no wait list. -/
def Act.quiet : Act → Bool
  | .subscribe .. | .unsubscribe .. | .publish .. | .cycle .. | .pubInfoProc _ | .subInfoProc _ =>
    false
  | _ => true

/-- **A quiet step** leaves tables, wait lists and allocations alone and calls back without a
mutex. -/
theorem act_frame {c : Client} {a : Act} (hquiet : a.quiet = true) (hheld : c.held = []) :
    Frame c (act c a) := by
  cases a with
  | subscribe => exact absurd hquiet (by simp [Act.quiet])
  | unsubscribe => exact absurd hquiet (by simp [Act.quiet])
  | publish => exact absurd hquiet (by simp [Act.quiet])
  | cycle => exact absurd hquiet (by simp [Act.quiet])
  | pubInfoProc => exact absurd hquiet (by simp [Act.quiet])
  | subInfoProc => exact absurd hquiet (by simp [Act.quiet])
  | isSubReady topicFilter =>
    simp only [act]
    unfold qcloudIotMqttIsSubReady
    split
    · exact Frame.refl c
    · exact Frame.lockUnlock (Frame.refl _)
  | disconnect env => exact disconnect_frame c env
  | keepAlive env => exact keepAlive_frame env hheld
  | handleDisconnect env => exact handleDisconnect_frame env hheld
  | getClientConnState => exact Frame.getClientConnState c
  | openSession options env => exact openSession_frame c options env
  | acceptSession clock => exact acceptSession_frame c clock
  | closeNetwork => exact Frame.emit c rfl rfl rfl rfl
  | countDisconnect => exact ⟨rfl, rfl, rfl, rfl, rfl, rfl, rfl, rfl, rfl, rfl, rfl⟩
  | scheduleReconnect interval clock => exact ⟨rfl, rfl, rfl, rfl, rfl, rfl, rfl, rfl, rfl, rfl, rfl⟩
  | backOff rc clock =>
    simp only [act]
    unfold backOff
    simp only
    split <;> exact ⟨rfl, rfl, rfl, rfl, rfl, rfl, rfl, rfl, rfl, rfl, rfl⟩
  | notifyReconnect => exact Frame.notify _ _ hheld (by decide) (by decide)

/-- A publish step is a publish, but for the record of the packet id. -/
theorem publishAct_cases (c : Client) (topicName : Option Bytes) (pParams : Option PublishParams)
    (env : CallEnv) :
    (∃ topic params packet c1, PublishGranted c topicName pParams env topic params packet ∧
      PubAccepted (pubNodes c params.qos (publishId c params) env) packet c c1 ∧
      publishAct c topicName pParams env =
        if params.qos.toNat > 0 then c1.emit (.published (publishId c params)) else c1) ∨
    ((∀ topic params packet, ¬ PublishGranted c topicName pParams env topic params packet) ∧
      PubRefused c (publishAct c topicName pParams env)) := by
  unfold publishAct
  rcases publish_cases c topicName pParams env with ⟨topic, params, packet, hg, hok, hacc⟩ |
    ⟨hno, ⟨rc, herr⟩, href⟩
  · refine Or.inl ⟨topic, params, packet, _, hg, hacc, ?_⟩
    generalize qcloudIotMqttPublish c topicName pParams env = r at hok
    obtain ⟨r1, c1⟩ := r
    simp only at hok
    subst hok
    simp [hg.params_eq]
  · refine Or.inr ⟨hno, ?_⟩
    generalize qcloudIotMqttPublish c topicName pParams env = r at herr href
    obtain ⟨r1, c1⟩ := r
    simp only at herr
    subst herr
    exact href

/-- **What a step can do**, one constructor for each outcome. -/
inductive ActStep (c : Client) : Act → Client → Prop where
  | quiet {a : Act} {c' : Client} (hquiet : a.quiet = true) (h : Frame c c') : ActStep c a c'
  | subscribed {topicFilter : Option Bytes} {pParams : Option SubscribeParams} {env : CallEnv}
      {topic : Bytes} {params : SubscribeParams} {packet : Bytes} {c' : Client}
      (hg : SubscribeGranted c topicFilter pParams env topic params packet)
      (h : SubAccepted (subNode .subscribe params.handle c topic env) packet c c') :
      ActStep c (.subscribe topicFilter pParams env) c'
  | subscribeRefused {topicFilter : Option Bytes} {pParams : Option SubscribeParams}
      {env : CallEnv} {c' : Client} (h : SubRefused c c') :
      ActStep c (.subscribe topicFilter pParams env) c'
  | unsubscribeInvalid {topicFilter : Option Bytes} {env : CallEnv} {rc : ReturnCode}
      (ht : checkTopic topicFilter = .error rc) : ActStep c (.unsubscribe topicFilter env) c
  | unsubscribed {topicFilter : Option Bytes} {env : CallEnv} {topic packet : Bytes} {c' : Client}
      (ht : checkTopic topicFilter = .ok topic)
      (h : SubAccepted (subNode .unsubscribe (unsubscribeHandle env.junkQos) c topic env) packet
        (removeHandlers c topic) c') : ActStep c (.unsubscribe topicFilter env) c'
  | unsubscribeRefused {topicFilter : Option Bytes} {env : CallEnv} {topic : Bytes} {c' : Client}
      (ht : checkTopic topicFilter = .ok topic) (h : SubRefused (removeHandlers c topic) c') :
      ActStep c (.unsubscribe topicFilter env) c'
  | published {topicName : Option Bytes} {pParams : Option PublishParams} {env : CallEnv}
      {topic : Bytes} {params : PublishParams} {packet : Bytes} {c' : Client}
      (hg : PublishGranted c topicName pParams env topic params packet)
      (h : PubAccepted (pubNodes c params.qos (publishId c params) env) packet c c') :
      ActStep c (.publish topicName pParams env)
        (if params.qos.toNat > 0 then c'.emit (.published (publishId c params)) else c')
  | publishRefused {topicName : Option Bytes} {pParams : Option PublishParams} {env : CallEnv}
      {c' : Client} (h : PubRefused c c') : ActStep c (.publish topicName pParams env) c'
  | inbound {packetType : UInt8} {env : CycleEnv} {pkt : Inbound} {c1 c2 c' : Client}
      (hpkt : inboundOf c packetType env = some pkt) (h1 : Frame c c1)
      (hstep : InboundStep env c1 pkt c2) (h2 : Frame c2 c') : ActStep c (.cycle packetType env) c'
  | noInbound {packetType : UInt8} {env : CycleEnv} {c' : Client}
      (hnone : inboundOf c packetType env = none) (h : Frame c c') :
      ActStep c (.cycle packetType env) c'
  | pubSwept (env : SweepEnv) : ActStep c (.pubInfoProc env) { c with
      listPubWaitAck := keptPubs c env
      log := c.log ++ ([.lock .listPub] ++
        (expiredPubs c env).reverse.flatMap (pubTimeoutEvents (c.lock .listPub)) ++
        [.unlock .listPub]) }
  | subSwept (env : SweepEnv) : ActStep c (.subInfoProc env) { c with
      listSubWaitAck := keptSubs c env
      log := c.log ++ ([.lock .listSub] ++
        (expiredSubs c env).reverse.flatMap (subTimeoutEvents (c.lock .listSub)) ++
        [.unlock .listSub]) }

/-- Every step is one of these, when no mutex is held at its start. -/
theorem act_step {c : Client} (a : Act) (hheld : c.held = []) : ActStep c a (act c a) := by
  by_cases hquiet : a.quiet = true
  · exact .quiet hquiet (act_frame hquiet hheld)
  cases a with
  | subscribe topicFilter pParams env =>
    rcases subscribe_cases c topicFilter pParams env with ⟨_, _, _, hg, -, h⟩ | ⟨-, -, h⟩
    · exact .subscribed hg h
    · exact .subscribeRefused h
  | unsubscribe topicFilter env =>
    rcases unsubscribe_cases c topicFilter env with ⟨rc, ht, heq⟩ |
      ⟨topic, ht, ⟨_, -, -, h⟩ | ⟨-, -, h⟩⟩
    · simp only [act, heq]
      exact .unsubscribeInvalid ht
    · exact .unsubscribed ht h
    · exact .unsubscribeRefused ht h
  | publish topicName pParams env =>
    rcases publishAct_cases c topicName pParams env with ⟨_, _, _, c1, hg, h, heq⟩ | ⟨-, h⟩
    · simp only [act, heq]
      exact .published hg h
    · exact .publishRefused h
  | cycle packetType env =>
    rcases cycle_cases packetType env hheld with ⟨pkt, c1, c2, hpkt, h1, hstep, h2⟩ | ⟨hnone, h⟩
    · exact .inbound hpkt h1 hstep h2
    · exact .noInbound hnone h
  | pubInfoProc env =>
    simp only [act, pubInfoProc_eq]
    exact .pubSwept env
  | subInfoProc env =>
    simp only [act, subInfoProc_eq]
    exact .subSwept env
  | _ => exact absurd rfl hquiet

/-! ## Between two steps -/

/-- The locks and the application's handler. -/
structure SameThread (c c' : Client) : Prop where
  held : c'.held = c.held
  eventHandle : c'.eventHandle = c.eventHandle

theorem SameThread.trans {c c' c'' : Client} (h : SameThread c c') (h' : SameThread c' c'') :
    SameThread c c'' :=
  ⟨h'.held.trans h.held, h'.eventHandle.trans h.eventHandle⟩

theorem Frame.sameThread {c c' : Client} (h : Frame c c') : SameThread c c' :=
  ⟨h.held, h.eventHandle⟩

theorem SubRefused.sameThread {c c' : Client} (h : SubRefused c c') : SameThread c c' := by
  have hkept := h.kept
  exact ⟨by rw [hkept], by rw [hkept]⟩

theorem SubAccepted.sameThread {node : SubInfo} {packet : Bytes} {c c' : Client}
    (h : SubAccepted node packet c c') : SameThread c c' :=
  ⟨by rw [h.kept], by rw [h.kept]⟩

theorem PubAccepted.sameThread {nodes : List PubInfo} {packet : Bytes} {c c' : Client}
    (h : PubAccepted nodes packet c c') : SameThread c c' :=
  ⟨by rw [h.kept], by rw [h.kept]⟩

theorem removeHandlers_sameThread (c : Client) (topic : Bytes) :
    SameThread c (removeHandlers c topic) := by
  rw [removeHandlers_eq]
  exact ⟨rfl, rfl⟩

theorem InboundStep.sameThread {env : CycleEnv} {c c' : Client} {pkt : Inbound}
    (h : InboundStep env c pkt c') : SameThread c c' := by
  cases h with
  | puback packetId => exact ⟨rfl, rfl⟩
  | suback h =>
    have hkept := h.kept
    exact ⟨by rw [hkept], by rw [hkept]⟩
  | unsuback packetId => exact ⟨rfl, rfl⟩
  | publish _ h => exact ⟨h.held, h.eventHandle⟩

theorem ActStep.sameThread {c c' : Client} {a : Act} (h : ActStep c a c') : SameThread c c' := by
  cases h with
  | quiet _ h => exact h.sameThread
  | subscribed _ h => exact h.sameThread
  | subscribeRefused h => exact h.sameThread
  | unsubscribeInvalid => exact ⟨rfl, rfl⟩
  | unsubscribed _ h => exact (removeHandlers_sameThread c _).trans h.sameThread
  | unsubscribeRefused _ h => exact (removeHandlers_sameThread c _).trans h.sameThread
  | published _ h =>
    have hsame := h.sameThread
    split
    · exact ⟨hsame.held, hsame.eventHandle⟩
    · exact hsame
  | publishRefused h =>
    have hkept := h.kept
    exact ⟨by rw [hkept], by rw [hkept]⟩
  | inbound _ h1 hstep h2 => exact (h1.sameThread.trans hstep.sameThread).trans h2.sameThread
  | noInbound _ h => exact h.sameThread
  | pubSwept => exact ⟨rfl, rfl⟩
  | subSwept => exact ⟨rfl, rfl⟩

/-- **Between two steps** the locks are as before, and the application's handler is always the
one it was made with. -/
theorem act_sameThread {c : Client} (a : Act) (hheld : c.held = []) : SameThread c (act c a) :=
  (act_step a hheld).sameThread

end QcloudIot.Mqtt
