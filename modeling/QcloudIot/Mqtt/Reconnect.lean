import Mathlib.Data.List.Forall2
import QcloudIot.Mqtt.Runs

/-!
# Subscribing again after a reconnect

`qcloud_iot_mqtt_attempt_reconnect` marks the client connected as soon as the CONNACK accepts the
session, and then calls `qcloud_iot_mqtt_subscribe` for one occupied slot after the other. The first
call that fails ends the loop; the client stays connected.

Results:
* `slotGranted_iff`: what one of the calls needs;
* `resubscribeLoop_cases`: the loop sends a SUBSCRIBE for every slot, or for fewer;
* **`resubscribed_iff`**: a reconnect that leaves the client connected has sent all of them iff each
  call in its turn is granted;
* `reconnect_losesSubscription`: a reconnect whose SUBSCRIBE is not sent leaves the client
  connected.
-/

namespace QcloudIot.Mqtt

open Lib

/-- A SUBSCRIBE for the filter and the QoS of the slot, with some packet id. -/
def IsSubscribeFor (slot : SubTopicHandle) (packet : Bytes) : Prop :=
  ∃ f size packetId, slot.topicFilter = some f ∧
    serializeSubscribePacket size 0 packetId 1 [f.str] [slot.qos] = .ok packet

/-- The client when the connection attempt of a reconnect is over. -/
def afterConnect (c : Client) (env : ReconnectEnv) : Client :=
  (qcloudIotMqttConnect c.getClientConnState.2 c.getClientConnState.2.options env.connect).2

/-- A reconnect that leaves the client connected has sent a SUBSCRIBE for every occupied slot since
the connection attempt. -/
def Resubscribed (c : Client) (env : ReconnectEnv) : Prop :=
  c.isConnected = false → (qcloudIotMqttAttemptReconnect c env).2.isConnected = true →
    ∃ packets, sentIn (qcloudIotMqttAttemptReconnect c env).2.log =
        sentIn (afterConnect c env).log ++ packets ∧
      List.Forall₂ IsSubscribeFor (qcloudIotMqttAttemptReconnect c env).2.occupied packets

/-! ## One call -/

/-- What resubscribe passes for a slot. -/
def slotParams (slot : SubTopicHandle) : SubscribeParams :=
  ⟨slot.qos, slot.messageHandler, slot.subEventHandler, slot.handlerUserData⟩

/-- What the subscribe for a slot needs, with a write buffer of this size and so many nodes on the
wait list. -/
structure SlotGranted (size waiting : Nat) (slot : SubTopicHandle) (env : CallEnv) : Prop where
  qos_ne : slot.qos ≠ .qos2
  topic_eq : ∃ f, slot.topicFilter = some f ∧ checkTopic (some f.str) = .ok f.str ∧
    ∃ packet, serializeSubscribePacket size 0 0 1 [f.str] [slot.qos] = .ok packet ∧
      env.send.Delivers size packet.length
  mallocFilter : env.mallocFilter = true
  room : waiting < maxMessageHandlers
  mallocInfo : env.mallocInfo = true
  mallocNode : env.mallocNode = true

/-- The packet id changes neither whether a SUBSCRIBE can be written nor its length. -/
theorem serializeSubscribe_id {size n : Nat} {dup : UInt8} {id : UInt16} {fs : List Bytes}
    {qs : List QoS} {packet : Bytes} (h : serializeSubscribePacket size dup id n fs qs = .ok packet)
    (id' : UInt16) : ∃ packet', serializeSubscribePacket size dup id' n fs qs = .ok packet' ∧
      packet'.length = packet.length := by
  obtain ⟨header, hh⟩ := header_ok (t := .subscribe) (by decide) .qos1 dup 0
  unfold serializeSubscribePacket at h ⊢
  simp only [hh] at h ⊢
  split at h
  · exact absurd h (by simp)
  · rename_i hlen
    obtain rfl := Except.ok.inj h
    rw [if_neg hlen]
    exact ⟨_, rfl, by simp [mqttWriteUint16]⟩

/-- **What one call needs**, read off the client it meets. -/
theorem slotGranted_iff {c : Client} {slot : SubTopicHandle} {f : StoredFilter} {env : CallEnv}
    (hslot : slot.topicFilter = some f) (hconn : c.isConnected = true) :
    SlotGranted c.writeBufSize c.listSubWaitAck.length slot env ↔ ∃ topic params packet,
      SubscribeGranted c (some f.str) (some (slotParams slot)) env topic params packet := by
  constructor
  · rintro ⟨hq, ⟨f', hf', ht, packet, hs, hd⟩, hfilter, hroom, hinfo, hnode⟩
    obtain rfl := Option.some.inj (hslot.symm.trans hf')
    obtain ⟨packet', hs', hlen⟩ := serializeSubscribe_id hs c.getNextPacketId.1
    exact ⟨f.str, slotParams slot, packet', rfl, ht, hq, hconn, hs', hfilter, hroom, hinfo, hnode,
      hlen ▸ hd⟩
  · rintro ⟨topic, params, packet, hp, ht, hq, -, hs, hg⟩
    obtain rfl := Option.some.inj hp
    obtain ⟨packet', hs', hlen⟩ := serializeSubscribe_id hs 0
    have htopic : topic = f.str := checkTopic_ok ht
    subst htopic
    exact ⟨hq, ⟨f, hslot, ht, packet', hs', hlen ▸ hg.delivers⟩, hg.mallocFilter, hg.room,
      hg.mallocInfo, hg.mallocNode⟩

/-! ## The loop -/

/-- The calls for the slots are granted one after the other, each with one more node waiting. -/
def GrantedInTurn (size : Nat) : (waiting : Nat) → List SubTopicHandle → List CallEnv → Prop
  | _, [], _ => True
  | waiting, slot :: slots, envs => SlotGranted size waiting slot (envs.headD {}) ∧
    GrantedInTurn size (waiting + 1) slots envs.tail

/-- The table and the connection stay. -/
structure SameSession (c c' : Client) : Prop where
  subHandles : c'.subHandles = c.subHandles
  isConnected : c'.isConnected = c.isConnected

/-- **What the loop does**: it sends a SUBSCRIBE for every occupied slot, or stops before. -/
theorem resubscribeLoop_cases : ∀ (slots : List SubTopicHandle) (c : Client) (envs : List CallEnv),
    c.isConnected = true → SameSession c (resubscribeLoop slots c envs).2 ∧
      ∃ packets, sentIn (resubscribeLoop slots c envs).2.log = sentIn c.log ++ packets ∧
        ((GrantedInTurn c.writeBufSize c.listSubWaitAck.length
            (slots.filter (·.topicFilter.isSome)) envs ∧
          List.Forall₂ IsSubscribeFor (slots.filter (·.topicFilter.isSome)) packets) ∨
        (¬ GrantedInTurn c.writeBufSize c.listSubWaitAck.length
            (slots.filter (·.topicFilter.isSome)) envs ∧
          packets.length < (slots.filter (·.topicFilter.isSome)).length)) := by
  intro slots
  induction slots with
  | nil =>
    intro c envs hconn
    exact ⟨⟨rfl, rfl⟩, [], by simp [resubscribeLoop], Or.inl ⟨trivial, .nil⟩⟩
  | cons slot slots ih =>
    intro c envs hconn
    cases hslot : slot.topicFilter with
    | none =>
      have hloop : resubscribeLoop (slot :: slots) c envs = resubscribeLoop slots c envs := by
        simp only [resubscribeLoop, hslot]
      rw [hloop, List.filter_cons_of_neg (by simp [hslot])]
      exact ih c envs hconn
    | some f =>
      rw [List.filter_cons_of_pos (by simp [hslot])]
      simp only [resubscribeLoop, hslot, GrantedInTurn]
      rw [slotGranted_iff hslot hconn]
      have hcases := subscribe_cases c (some f.str) (some (slotParams slot)) (envs.headD {})
      unfold slotParams at hcases ⊢
      generalize qcloudIotMqttSubscribe c (some f.str) (some _) (envs.headD {}) = r at hcases
      obtain ⟨r1, c1⟩ := r
      simp only at hcases
      rcases hcases with ⟨topic, params, packet, hg, rfl, hacc⟩ | ⟨hno, ⟨rc, rfl⟩, href⟩
      · have hsame : SameSession c c1 := ⟨by rw [hacc.kept], by rw [hacc.kept]⟩
        have hsize : c1.writeBufSize = c.writeBufSize := by rw [hacc.kept]
        have hlist : c1.listSubWaitAck.length = c.listSubWaitAck.length + 1 := by
          rw [hacc.kept]
          simp
        have hpacket : IsSubscribeFor slot packet := by
          obtain ⟨hp, ht, -, -, hs, -⟩ := hg
          obtain rfl := Option.some.inj hp
          obtain rfl := checkTopic_ok ht
          exact ⟨f, _, _, hslot, hs⟩
        obtain ⟨hrest, packets, hsent, hcount⟩ :=
          ih c1 envs.tail (hsame.isConnected.trans hconn)
        rw [hsize, hlist] at hcount
        refine ⟨⟨hrest.subHandles.trans hsame.subHandles,
          hrest.isConnected.trans hsame.isConnected⟩, packet :: packets, ?_, ?_⟩
        · rw [hsent, hacc.log.sent, List.append_assoc, List.singleton_append]
        · refine hcount.imp (fun h => ⟨⟨⟨topic, params, packet, hg⟩, h.1⟩, .cons hpacket h.2⟩) ?_
          exact fun h => ⟨fun hall => h.1 hall.2, Nat.succ_lt_succ h.2⟩
      · have hkept : c1 = _ := href.kept
        obtain ⟨_, hlog⟩ := href.logged
        refine ⟨⟨by rw [hkept], by rw [hkept]⟩, [], hlog.sent, Or.inr ⟨?_, ?_⟩⟩
        · rintro ⟨⟨topic, params, packet, hg⟩, -⟩
          exact hno topic params packet hg
        · simp

/-- The same for `qcloud_iot_mqtt_resubscribe` of a connected client. -/
theorem resubscribe_cases {c : Client} (envs : List CallEnv) (hconn : c.isConnected = true) :
    SameSession c (qcloudIotMqttResubscribe c envs).2 ∧
      ∃ packets, sentIn (qcloudIotMqttResubscribe c envs).2.log = sentIn c.log ++ packets ∧
        ((GrantedInTurn c.writeBufSize c.listSubWaitAck.length c.occupied envs ∧
          List.Forall₂ IsSubscribeFor c.occupied packets) ∨
        (¬ GrantedInTurn c.writeBufSize c.listSubWaitAck.length c.occupied envs ∧
          packets.length < c.occupied.length)) := by
  unfold qcloudIotMqttResubscribe
  rw [Client.getClientConnState_eq]
  simp only
  rw [if_neg (not_not.mpr hconn)]
  obtain ⟨hsame, packets, hsent, hcount⟩ := resubscribeLoop_cases c.subHandles.slots
    { c with log := c.log ++ [.lock .generic, .unlock .generic] } envs hconn
  refine ⟨⟨hsame.subHandles, hsame.isConnected⟩, packets, ?_, hcount⟩
  rw [hsent]
  simp

/-! ## The reconnect -/

/-- A reconnect that opens a session goes on with `qcloud_iot_mqtt_resubscribe`. -/
theorem attemptReconnect_up {c : Client} {env : ReconnectEnv} (hdown : c.isConnected = false)
    (hup : (afterConnect c env).isConnected = true) :
    (qcloudIotMqttAttemptReconnect c env).2 =
      (qcloudIotMqttResubscribe (afterConnect c env).getClientConnState.2 env.subs).2 := by
  have hstate : c.getClientConnState.1 = false := hdown
  have hstate1 : (afterConnect c env).getClientConnState.1 = true := hup
  unfold qcloudIotMqttAttemptReconnect
  simp only [hstate]
  rw [if_neg (by simp)]
  change (if ¬ (afterConnect c env).getClientConnState.1 = true then _ else _ : _ × Client).2 = _
  rw [if_neg (not_not.mpr hstate1)]
  simp only [apply_ite Prod.snd, ite_self]
  rfl

/-- One that opens none leaves the client disconnected. -/
theorem attemptReconnect_down {c : Client} {env : ReconnectEnv} (hdown : c.isConnected = false)
    (hfail : (afterConnect c env).isConnected = false) :
    (qcloudIotMqttAttemptReconnect c env).2.isConnected = false := by
  have hstate : c.getClientConnState.1 = false := hdown
  have hstate1 : (afterConnect c env).getClientConnState.1 = false := hfail
  unfold qcloudIotMqttAttemptReconnect
  simp only [hstate]
  rw [if_neg (by simp)]
  change (if ¬ (afterConnect c env).getClientConnState.1 = true then _ else _ : _ × Client).2.isConnected = _
  rw [if_pos (by simp [hstate1])]
  exact hfail

/-- **When a reconnect loses no subscription**: the client was connected already, or no session has
been opened, or every call in its turn is granted. -/
theorem resubscribed_iff (c : Client) (env : ReconnectEnv) :
    Resubscribed c env ↔ c.isConnected = true ∨ (afterConnect c env).isConnected = false ∨
      GrantedInTurn (afterConnect c env).writeBufSize (afterConnect c env).listSubWaitAck.length
        (afterConnect c env).occupied env.subs := by
  unfold Resubscribed
  cases hdown : c.isConnected with
  | true => simp
  | false =>
    cases hup : (afterConnect c env).isConnected with
    | false => simp [attemptReconnect_down hdown hup]
    | true =>
      rw [attemptReconnect_up hdown hup]
      have hstate := Client.getClientConnState_eq (afterConnect c env)
      obtain ⟨hsame, packets, hsent, hcount⟩ := resubscribe_cases env.subs
        (c := (afterConnect c env).getClientConnState.2) (by rw [hstate]; exact hup)
      have hoccupied : (qcloudIotMqttResubscribe (afterConnect c env).getClientConnState.2
          env.subs).2.occupied = (afterConnect c env).occupied := by
        unfold Client.occupied
        rw [hsame.subHandles, hstate]
      have hlog : sentIn (afterConnect c env).getClientConnState.2.log =
          sentIn (afterConnect c env).log := by
        rw [hstate]
        simp
      have hconn : (qcloudIotMqttResubscribe (afterConnect c env).getClientConnState.2
          env.subs).2.isConnected = true := by
        rw [hsame.isConnected, hstate]
        exact hup
      rw [hoccupied, hsent, hlog]
      simp only [hconn, true_implies, Bool.true_eq_false, Bool.false_eq_true, false_or]
      rcases hcount with ⟨hg, hall⟩ | ⟨hno, hfew⟩
      · exact iff_of_true ⟨packets, rfl, hall⟩ hg
      · refine iff_of_false ?_ hno
        rintro ⟨packets', heq, hall⟩
        obtain rfl := List.append_cancel_left heq
        exact absurd hall.length_eq (Nat.ne_of_gt hfew)

/-- The client of the examples, subscribed to "t" and disconnected. -/
def droppedClient : Client := run act freshClient
  (sessionActs ++ [subscribeOnce, subackOnce, .subInfoProc {}, .handleDisconnect {}])

/-- The broker accepts a new session; the network then takes nothing more. -/
def halfReconnect : ReconnectEnv where
  connect := {
    connectPacket := .ok [0x10, 0]
    send := { writes := [(.retSuccess, 2)] }
    cycles := [{ reads := packetReads 0x20 [0, 0] }] }

/-- **A subscription is lost**: the SUBSCRIBE for "t" is not sent, and the client stays
connected. -/
theorem reconnect_losesSubscription :
    (qcloudIotMqttAttemptReconnect droppedClient halfReconnect).1 = .errMqttRequestTimeout ∧
      (qcloudIotMqttAttemptReconnect droppedClient halfReconnect).2.isConnected = true ∧
      ¬ Resubscribed droppedClient halfReconnect := by
  refine ⟨by decide, by decide, fun h => ?_⟩
  obtain ⟨packets, hsent, hall⟩ := h (by decide) (by decide)
  have hnone : sentIn (qcloudIotMqttAttemptReconnect droppedClient halfReconnect).2.log =
      sentIn (afterConnect droppedClient halfReconnect).log := by decide
  have hone : (qcloudIotMqttAttemptReconnect droppedClient halfReconnect).2.occupied.length = 1 := by
    decide
  have hnil : packets = [] := by simpa [hnone] using hsent
  rw [hall.length_eq, hnil] at hone
  exact absurd hone (by decide)

end QcloudIot.Mqtt
