import QcloudIot.Lib.Run
import QcloudIot.Mqtt.Link

/-!
# The rounds of a run

An application yields again and again, with subscribes, unsubscribes and publishes in between, and never
disconnects the client itself. What happens to the connection happens in the rounds of the yield loop.

Results:
* `yieldLoop_cons`, `yield_chain`: a yield is its rounds, one after the other;
* **`round_step`**: what a round can do to the connection;
* **`run_chain`**: the rounds of a run, each of which meets the connection as the one before left it;
* `constructed_of_connect`: where such runs start.
-/

namespace QcloudIot.Mqtt

open Lib

/-! ## One round -/

/-- How a round ends: whether it leaves the loop, what `rc` and `*packet_type` are, and the client. -/
structure RoundEnd where
  stop : Bool
  rc : ReturnCode
  packetType : UInt8
  client : Client

/-- The end of a round of a connected client: what the loop does with `rc`. -/
def endRound (s : YieldStep) (rc : ReturnCode) (packetType : UInt8) (c : Client) : RoundEnd :=
  if rc = .errMqttNoConn then
    let c := { c with counterNetworkDisconnected := c.counterNetworkDisconnected + 1 }
    if c.options.autoConnectEnable then
      ⟨false, .errMqttAttemptingReconnect, packetType, scheduleReconnect c s.randomInterval s.clock⟩
    else ⟨true, rc, packetType, c⟩
  else if rc ≠ .retSuccess then ⟨true, rc, packetType, c⟩
  else ⟨false, rc, packetType, c⟩

/-- The body of the loop of `qcloud_iot_mqtt_yield`. -/
def yieldRound (c : Client) (packetType : UInt8) (s : YieldStep) : RoundEnd :=
  let (connected, c) := c.getClientConnState
  if ¬ connected then
    if c.currentReconnectWaitInterval > maxReconnectWaitInterval then
      ⟨true, .errMqttReconnectTimeout, packetType, c⟩
    else
      let (rc, c) := handleReconnect c s.reconnect
      ⟨false, rc, packetType, c⟩
  else
    let (rc, packetType, c) := cycleForRead c packetType s.cycle
    let (rc, c) := afterRead c rc s
    endRound s rc packetType c

/-- **The loop, round by round.** -/
theorem yieldLoop_cons (s : YieldStep) (steps : List YieldStep) (rc : ReturnCode) (packetType : UInt8)
    (c : Client) : yieldLoop (s :: steps) rc packetType c =
      let e := yieldRound c packetType s
      if e.stop then (e.rc, e.client) else yieldLoop steps e.rc e.packetType e.client := by
  simp only [yieldLoop, yieldRound, endRound]
  split
  · split <;> rfl
  split
  · split <;> rfl
  split <;> rfl

/-- A round, with what it starts from and what it meets. -/
structure Round where
  client : Client
  packetType : UInt8
  step : YieldStep

namespace Round

variable (r : Round)

/-- The client when the round is over. -/
def after : Client := (yieldRound r.client r.packetType r.step).client

/-- The type of the packet read in the round. -/
def packet : Option UInt8 :=
  if r.client.isConnected then
    packetRead r.client.getClientConnState.2 r.packetType r.step.cycle
  else none

/-- A PUBACK, SUBACK, UNSUBACK, PINGRESP or PUBLISH is read in the round. -/
def traffic : Bool := r.packet.any isTraffic

/-- The connection after the cycle of the round. -/
def heard : Link :=
  (r.packet.map fun t => r.client.link.afterPacket t r.step.cycle.clock).getD r.client.link

/-- The round gets to `_mqtt_keep_alive`. -/
def keepsAlive : Bool :=
  r.client.isConnected &&
    (cycleForRead r.client.getClientConnState.2 r.packetType r.step.cycle).1 == .retSuccess

/-- The ping timer has expired there. -/
def expired : Bool := r.keepsAlive && decide (r.heard.pingTimer ≤ r.step.keepAlive.clock)

end Round

/-- The wait before the next attempt is doubled, and the delay timer set where the wait is not too long. -/
def Link.backedOff (l : Link) (clock : Nat) : Link :=
  { l with
    interval := l.interval * 2
    delayTimer := if maxReconnectWaitInterval < l.interval * 2 then l.delayTimer
      else clock + (l.interval * 2).toNat }

/-- A reconnection is scheduled, where the client reconnects by itself. -/
def Link.scheduled (l : Link) (interval : UInt32) (clock : Nat) : Link :=
  if l.options.autoConnectEnable then
    { l with interval := interval, delayTimer := clock + interval.toNat }
  else l

@[simp] theorem scheduled_connected (l : Link) (interval : UInt32) (clock : Nat) :
    (l.scheduled interval clock).connected = l.connected := by
  unfold Link.scheduled
  split <;> rfl

@[simp] theorem scheduled_options (l : Link) (interval : UInt32) (clock : Nat) :
    (l.scheduled interval clock).options = l.options := by
  unfold Link.scheduled
  split <;> rfl

@[simp] theorem scheduled_outstanding (l : Link) (interval : UInt32) (clock : Nat) :
    (l.scheduled interval clock).outstanding = l.outstanding := by
  unfold Link.scheduled
  split <;> rfl

@[simp] theorem scheduled_writeBufSize (l : Link) (interval : UInt32) (clock : Nat) :
    (l.scheduled interval clock).writeBufSize = l.writeBufSize := by
  unfold Link.scheduled
  split <;> rfl

theorem backOff_link (c : Client) (rc : ReturnCode) (clock : Nat) :
    (backOff c rc clock).2.link = c.link.backedOff clock := by
  unfold backOff Link.backedOff
  simp only
  split
  · rename_i h
    have hlong : maxReconnectWaitInterval < c.link.interval * 2 := h
    rw [if_pos hlong]
    rfl
  · rename_i h
    have hshort : ¬ maxReconnectWaitInterval < c.link.interval * 2 := h
    rw [if_neg hshort]
    rfl

/-- **What a round can do** to the connection. -/
inductive RoundStep (r : Round) : Link → Prop where
  | gaveUp (hdown : r.client.isConnected = false)
      (hmax : maxReconnectWaitInterval < r.client.currentReconnectWaitInterval) :
        RoundStep r r.client.link
  | waiting (hdown : r.client.isConnected = false)
      (hmax : r.client.currentReconnectWaitInterval ≤ maxReconnectWaitInterval)
      (htimer : r.step.reconnect.delayClock < r.client.reconnectDelayTimer) : RoundStep r r.client.link
  | noNetwork (hdown : r.client.isConnected = false)
      (hmax : r.client.currentReconnectWaitInterval ≤ maxReconnectWaitInterval) :
      RoundStep r (r.client.link.backedOff r.step.reconnect.clock)
  /-- The attempt has returned `QCLOUD_RET_MQTT_RECONNECTED`. -/
  | reconnected {l : Link} (hdown : r.client.isConnected = false)
      (hmax : r.client.currentReconnectWaitInterval ≤ maxReconnectWaitInterval)
      (hrc : (qcloudIotMqttAttemptReconnect r.client.getClientConnState.2
        r.step.reconnect.reconnect).1 =
        .retMqttReconnected)
      (h : Attempted r.client.options r.client.link l)
      (hl : l = (qcloudIotMqttAttemptReconnect r.client.getClientConnState.2
        r.step.reconnect.reconnect).2.link) : RoundStep r l
  | failed {l : Link} (hdown : r.client.isConnected = false)
      (hmax : r.client.currentReconnectWaitInterval ≤ maxReconnectWaitInterval)
      (h : Attempted r.client.options r.client.link l) :
      RoundStep r (l.backedOff r.step.reconnect.clock)
  /-- Keep-alive has nothing to do, or no buffer, or is not reached. -/
  | quiet (hup : r.client.isConnected = true) (hquiet : r.expired = false ∨
      r.client.options.keepAliveInterval = 0 ∨ r.client.writeBufSize < 4) : RoundStep r r.heard
  | pinged (hup : r.client.isConnected = true) (hon : r.client.options.keepAliveInterval ≠ 0)
      (hexpired : r.expired = true) (h : r.heard.outstanding < 2) (timer : Nat) :
      RoundStep r { r.heard with outstanding := r.heard.outstanding + 1, pingTimer := timer }
  | starved (hup : r.client.isConnected = true) (hexpired : r.expired = true)
      (h : 2 ≤ r.heard.outstanding) :
      RoundStep r (r.heard.lost.scheduled r.step.randomInterval r.step.clock)
  | notSent (hup : r.client.isConnected = true) (hexpired : r.expired = true)
      (h : r.heard.outstanding < 2) (hfails : r.step.keepAlive.PingFails r.client.writeBufSize) :
      RoundStep r (r.heard.lost.scheduled r.step.randomInterval r.step.clock)
  | notRead (hup : r.client.isConnected = true) (hnot : r.keepsAlive = false) :
      RoundStep r (r.heard.lost.scheduled r.step.randomInterval r.step.clock)
  /-- The cycle has returned `QCLOUD_ERR_MQTT_NO_CONN` with the connection standing. -/
  | noConn (hup : r.client.isConnected = true) (hnot : r.keepsAlive = false) :
      RoundStep r (r.heard.scheduled r.step.randomInterval r.step.clock)

/-- A round of a disconnected client. -/
theorem round_down (r : Round) (hdown : r.client.isConnected = false) : RoundStep r r.after.link := by
  have hstate : r.client.getClientConnState.1 = false := hdown
  have hlink := link_getClientConnState r.client
  unfold Round.after yieldRound
  simp only [hstate]
  rw [if_pos (by simp)]
  by_cases hmax : r.client.getClientConnState.2.currentReconnectWaitInterval > maxReconnectWaitInterval
  · rw [if_pos hmax]
    exact hlink ▸ .gaveUp hdown hmax
  rw [if_neg hmax]
  have hle : r.client.currentReconnectWaitInterval ≤ maxReconnectWaitInterval := UInt32.not_lt.mp hmax
  simp only
  unfold handleReconnect
  by_cases htimer : r.client.getClientConnState.2.reconnectDelayTimer > r.step.reconnect.delayClock
  · rw [if_pos htimer, hlink]
    exact .waiting hdown hle htimer
  rw [if_neg htimer]
  by_cases hphysical : r.step.reconnect.physicalLayer = true
  · rw [if_pos hphysical]
    have hattempt := attemptReconnect_link (c := r.client.getClientConnState.2) hdown
      r.step.reconnect.reconnect
    rw [hlink] at hattempt
    by_cases hrc : (qcloudIotMqttAttemptReconnect r.client.getClientConnState.2
        r.step.reconnect.reconnect).1 = .retMqttReconnected
    · simp only
      rw [if_pos hrc, link_notify]
      exact .reconnected hdown hle hrc hattempt rfl
    · simp only
      rw [if_neg hrc, backOff_link]
      exact .failed hdown hle hattempt
  · rw [if_neg hphysical, backOff_link, hlink]
    exact .noNetwork hdown hle

/-- The cycle of a round of a connected client. -/
theorem heard_eq {r : Round} (hup : r.client.isConnected = true) :
    (cycleForRead r.client.getClientConnState.2 r.packetType r.step.cycle).2.2.link = r.heard := by
  rw [cycle_link, link_getClientConnState, Round.heard, Round.packet, if_pos hup]

theorem heard_same {r : Round} : r.heard = { r.client.link with
    outstanding := r.heard.outstanding, pingTimer := r.heard.pingTimer } := by
  unfold Round.heard
  cases r.packet with
  | none => rfl
  | some t =>
    rw [Option.map_some, Option.getD_some, Link.afterPacket]
    split <;> rfl

theorem endRound_link (s : YieldStep) (rc : ReturnCode) (packetType : UInt8) (c : Client) :
    (endRound s rc packetType c).client.link =
      if rc = .errMqttNoConn then c.link.scheduled s.randomInterval s.clock else c.link := by
  unfold endRound Link.scheduled
  by_cases hrc : rc = .errMqttNoConn
  · rw [if_pos hrc, if_pos hrc]
    simp only
    by_cases hauto : c.options.autoConnectEnable = true
    · rw [if_pos hauto, if_pos (show c.link.options.autoConnectEnable = true from hauto)]
      rfl
    · rw [if_neg hauto, if_neg (show ¬ c.link.options.autoConnectEnable = true from hauto)]
      rfl
  · rw [if_neg hrc, if_neg hrc]
    split <;> rfl

/-- A round of a connected client. -/
theorem round_up (r : Round) (hup : r.client.isConnected = true) : RoundStep r r.after.link := by
  have hstate : r.client.getClientConnState.1 = true := hup
  have hheard := heard_eq hup
  have hsame := heard_same (r := r)
  have hkeeps : r.keepsAlive =
      ((cycleForRead r.client.getClientConnState.2 r.packetType r.step.cycle).1 ==
        .retSuccess) := by rw [Round.keepsAlive, hup, Bool.true_and]
  unfold Round.after yieldRound
  simp only [hstate]
  rw [if_neg (by simp), endRound_link]
  generalize cycleForRead r.client.getClientConnState.2 r.packetType r.step.cycle = cycle
    at hheard hkeeps
  obtain ⟨rc, packetType, c1⟩ := cycle
  simp only at hheard hkeeps ⊢
  have hconn : r.heard.connected = true := (congrArg Link.connected hsame).trans hup
  unfold afterRead
  by_cases hrc : rc = .retSuccess
  · rw [if_pos hrc]
    have hswept : (qcloudIotMqttSubInfoProc (qcloudIotMqttPubInfoProc c1 r.step.pubSweep)
      r.step.subSweep).link =
        r.heard := by rw [subInfoProc_link, pubInfoProc_link, hheard]
    have halive := keepAlive_link ((congrArg Link.connected hswept).trans hconn) r.step.keepAlive
    rw [hswept] at halive
    generalize mqttKeepAlive _ r.step.keepAlive = e at halive
    obtain ⟨rc2, c2⟩ := e
    simp only at halive ⊢
    have hexpired : r.expired = decide (r.heard.pingTimer ≤ r.step.keepAlive.clock) := by
      rw [Round.expired, hkeeps, hrc]
      rfl
    generalize c2.link = l at halive
    cases halive with
    | idle h =>
      rw [if_neg (by simp)]
      refine .quiet hup (h.symm.imp (fun h => ?_) fun h => Or.inl (by rw [hsame] at h; exact h))
      rw [hexpired, decide_eq_false (Nat.not_le.mpr h)]
    | starved hon hexp h =>
      rw [if_pos rfl]
      exact .starved hup (by rw [hexpired, decide_eq_true hexp]) h
    | noBuffer h =>
      rw [if_neg (by simp)]
      exact .quiet hup (Or.inr (Or.inr (by rw [hsame] at h; exact h)))
    | notSent hon hexp h hfails =>
      rw [if_pos rfl]
      exact .notSent hup (by rw [hexpired, decide_eq_true hexp]) h
        (by rw [hsame] at hfails; exact hfails)
    | pinged hon hexp h timer =>
      rw [if_neg (by simp)]
      exact .pinged hup (by rw [hsame] at hon; exact hon)
        (by rw [hexpired, decide_eq_true hexp]) h timer
  · rw [if_neg hrc]
    have hnot : r.keepsAlive = false := by rw [hkeeps, beq_false_of_ne hrc]
    split
    · have hlost := handleDisconnect_link ((congrArg Link.connected hheard).trans hconn)
        r.step.disconnect
      rw [hheard] at hlost
      simp only
      rw [if_pos trivial, hlost]
      exact .notRead hup hnot
    · simp only
      rw [hheard]
      split
      · exact .noConn hup hnot
      · exact .quiet hup (Or.inl (by rw [Round.expired, hnot, Bool.false_and]))

theorem round_step (r : Round) : RoundStep r r.after.link := by
  cases hup : r.client.isConnected with
  | false => exact round_down r hup
  | true => exact round_up r hup

/-! ## Runs -/

/-- A call of the application, other than `IOT_MQTT_Destroy`. -/
inductive Call where
  | yield (timeoutMs : UInt32) (packetType : UInt8) (steps : List YieldStep)
  | subscribe (topicFilter : Option Bytes) (pParams : Option SubscribeParams) (env : CallEnv)
  | unsubscribe (topicFilter : Option Bytes) (env : CallEnv)
  | publish (topicName : Option Bytes) (pParams : Option PublishParams) (env : CallEnv)

/-- The call made. -/
def call (c : Client) : Call → Client
  | .yield timeoutMs packetType steps => (qcloudIotMqttYield c timeoutMs packetType steps).2
  | .subscribe topicFilter pParams env => (qcloudIotMqttSubscribe c topicFilter pParams env).2
  | .unsubscribe topicFilter env => (qcloudIotMqttUnsubscribe c topicFilter env).2
  | .publish topicName pParams env => (qcloudIotMqttPublish c topicName pParams env).2

/-- The rounds of the yield loop. -/
def loopRounds : List YieldStep → (packetType : UInt8) → Client → List Round
  | [], _, _ => []
  | s :: steps, packetType, c =>
    let e := yieldRound c packetType s
    ⟨c, packetType, s⟩ :: if e.stop then [] else loopRounds steps e.packetType e.client

/-- The tests of `qcloud_iot_mqtt_yield` before its loop. -/
def entersLoop (c : Client) (timeoutMs : UInt32) : Bool :=
  timeoutMs != 0 && (c.isConnected || !c.wasManuallyDisconnected && c.options.autoConnectEnable)

/-- The rounds of a call. -/
def Call.rounds (c : Client) : Call → List Round
  | .yield timeoutMs packetType steps =>
    if entersLoop c timeoutMs then
      loopRounds steps packetType c.getClientConnState.2.getClientConnState.2
    else []
  | _ => []

/-- The rounds of a run. -/
def runRounds : Client → List Call → List Round
  | _, [] => []
  | c, a :: as => a.rounds c ++ runRounds (call c a) as

/-- The rounds lead from one state of the connection to another: each meets it as the one before has
left it. -/
inductive Chain : Link → List Round → Link → Prop where
  | nil (l : Link) : Chain l [] l
  | cons {l l' : Link} {r : Round} {rs : List Round} (hl : r.client.link = l)
      (h : Chain r.after.link rs l') : Chain l (r :: rs) l'

namespace Chain

variable {l l' l'' : Link} {rs rs' : List Round}

theorem append (h : Chain l rs l') (h' : Chain l' rs' l'') : Chain l (rs ++ rs') l'' := by
  induction h with
  | nil l => exact h'
  | cons hl _ ih => exact .cons hl (ih h')

theorem split (h : Chain l (rs ++ rs') l'') : ∃ l', Chain l rs l' ∧ Chain l' rs' l'' := by
  induction rs generalizing l with
  | nil => exact ⟨l, .nil l, h⟩
  | cons r rs ih =>
    cases h with
    | cons hl h =>
      obtain ⟨l', h1, h2⟩ := ih h
      exact ⟨l', .cons hl h1, h2⟩

/-- What every round preserves holds all along. -/
theorem invariant {inv : Link → Prop} (h : Chain l rs l') (hinit : inv l)
    (hstep : ∀ r ∈ rs, inv r.client.link → inv r.after.link) :
    inv l' ∧ ∀ r ∈ rs, inv r.client.link ∧ inv r.after.link := by
  induction h with
  | nil l => exact ⟨hinit, fun r hr => absurd hr List.not_mem_nil⟩
  | @cons l l' r rs hl _ ih =>
    subst hl
    have hafter := hstep r List.mem_cons_self hinit
    obtain ⟨hend, hall⟩ := ih hafter fun r' hr' => hstep r' (List.mem_cons_of_mem r hr')
    refine ⟨hend, fun r' hr' => ?_⟩
    rcases List.mem_cons.mp hr' with rfl | hr'
    · exact ⟨hinit, hafter⟩
    · exact hall r' hr'

end Chain

theorem yieldLoop_chain (steps : List YieldStep) (rc : ReturnCode) (packetType : UInt8) (c : Client) :
    Chain c.link (loopRounds steps packetType c) (yieldLoop steps rc packetType c).2.link := by
  induction steps generalizing rc packetType c with
  | nil => exact .nil _
  | cons s steps ih =>
    rw [yieldLoop_cons, loopRounds]
    simp only
    refine .cons (r := ⟨c, packetType, s⟩) rfl ?_
    split
    · exact .nil _
    · exact ih _ _ _

/-- **A yield is its rounds.** -/
theorem yield_chain (c : Client) (timeoutMs : UInt32) (packetType : UInt8) (steps : List YieldStep) :
    Chain c.link (Call.rounds c (.yield timeoutMs packetType steps))
      (qcloudIotMqttYield c timeoutMs packetType steps).2.link := by
  have hstate : ∀ c : Client, c.getClientConnState.1 = c.isConnected := fun _ => rfl
  have hlink : c.getClientConnState.2.getClientConnState.2.link = c.link := by
    rw [link_getClientConnState, link_getClientConnState]
  unfold qcloudIotMqttYield
  rw [Call.rounds, entersLoop]
  by_cases htimeout : timeoutMs = 0
  · rw [if_pos htimeout, if_neg (by simp [htimeout])]
    exact .nil _
  rw [if_neg htimeout]
  simp only [hstate]
  by_cases hmanual : ¬ c.isConnected = true ∧ c.getClientConnState.2.wasManuallyDisconnected = true
  · rw [if_pos hmanual, if_neg, link_getClientConnState]
    · exact .nil _
    · have hm : c.wasManuallyDisconnected = true := hmanual.2
      simp [hmanual.1, hm]
  rw [if_neg hmanual]
  by_cases hauto : ¬ c.getClientConnState.2.isConnected = true ∧
      ¬ c.getClientConnState.2.getClientConnState.2.options.autoConnectEnable = true
  · rw [if_pos hauto, if_neg, hlink]
    · exact .nil _
    · have hup : ¬ c.isConnected = true := hauto.1
      have ho : ¬ c.options.autoConnectEnable = true := hauto.2
      simp [hup, ho]
  · rw [if_neg hauto, if_pos, ← hlink]
    · exact yieldLoop_chain steps .retSuccess packetType _
    · have hm : ¬ (¬ c.isConnected = true ∧ c.wasManuallyDisconnected = true) := hmanual
      have ho : ¬ (¬ c.isConnected = true ∧ ¬ c.options.autoConnectEnable = true) := hauto
      cases hup : c.isConnected <;> simp_all

theorem call_chain (c : Client) (a : Call) : Chain c.link (a.rounds c) (call c a).link := by
  cases a with
  | yield timeoutMs packetType steps => exact yield_chain c timeoutMs packetType steps
  | subscribe topicFilter pParams env => exact subscribe_link c topicFilter pParams env ▸ .nil _
  | unsubscribe topicFilter env => exact unsubscribe_link c topicFilter env ▸ .nil _
  | publish topicName pParams env => exact publish_link c topicName pParams env ▸ .nil _

/-- **The rounds of a run.** -/
theorem run_chain (c : Client) (calls : List Call) :
    Chain c.link (runRounds c calls) (run call c calls).link := by
  induction calls generalizing c with
  | nil => exact .nil _
  | cons a as ih => exact (call_chain c a).append (ih (call c a))

/-- A client as `IOT_MQTT_Construct` returns it. -/
structure Constructed (c : Client) : Prop where
  isConnected : c.isConnected = true
  wasManuallyDisconnected : c.wasManuallyDisconnected = false
  currentReconnectWaitInterval : c.currentReconnectWaitInterval = 0
  isPingOutstanding : c.isPingOutstanding = 0
  writeBufSize : c.writeBufSize = mqttTxBufLen

/-- `qcloud_iot_mqtt_init` and a successful `qcloud_iot_mqtt_connect`. -/
theorem constructed_of_connect {eventHandle : Option FnPtr} {nextPacketId : UInt16}
    {commandTimeoutMs : Nat}
    {params options : MqttConnectParams} {env : ConnectEnv} {c : Client}
    (hc : c = (qcloudIotMqttConnect (Client.init eventHandle nextPacketId commandTimeoutMs params)
      options env).2) (hup : c.isConnected = true) : Constructed c := by
  have h := connect_link (c := Client.init eventHandle nextPacketId commandTimeoutMs params) rfl
    options env
  rw [← hc] at h
  refine ⟨hup, ?_, h.interval, ?_, h.writeBufSize⟩
  · exact h.manual.elim id id
  · exact h.outstanding.elim id fun hdown => hdown.2

end QcloudIot.Mqtt
