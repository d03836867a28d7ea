import QcloudIot.Lib.Backoff
import QcloudIot.Mqtt.Rounds

/-!
# The wait between attempts to reconnect

A disconnection schedules the first attempt after a random wait of one to two seconds; each attempt
that fails, and each that the network is not there for, doubles the wait, and a wait above
`MAX_RECONNECT_WAIT_INTERVAL` ends the attempts. A successful one does not touch the wait: the next
disconnection sets it anew.

* `attemptReconnect_code`: an attempt returns `QCLOUD_RET_MQTT_RECONNECTED` only connected;
* `paced_step`: what a round does to the wait;
* `disconnection_doubles`: the waits before the attempts of one disconnection;
* **`reconnect_backsOff`**: the waits of a run.
-/

namespace QcloudIot.Mqtt

open Lib

/-- `_get_random_interval`, for what `rand()` returns. -/
def getRandomInterval (rand : Nat) : UInt32 := UInt32.ofNat ((rand % 100 + 100) * 10)

theorem getRandomInterval_bounds (rand : Nat) :
    1000 ≤ (getRandomInterval rand).toNat ∧ (getRandomInterval rand).toNat ≤ 1990 := by
  have h : (getRandomInterval rand).toNat = (rand % 100 + 100) * 10 := by
    rw [getRandomInterval, UInt32.toNat_ofNat']
    omega
  omega

/-! ## What an attempt returns -/

/-- The network's functions return codes of their own. -/
def NetReads.Plain (reads : NetReads) : Prop := ∀ r ∈ reads, r.1 ≠ .retMqttReconnected

def SendEnv.Plain (env : SendEnv) : Prop := ∀ w ∈ env.writes, w.1 ≠ .retMqttReconnected

structure CycleEnv.Plain (env : CycleEnv) : Prop where
  reads : NetReads.Plain env.reads
  send : env.send.Plain

/-- None of what a connection attempt calls returns `QCLOUD_RET_MQTT_RECONNECTED`. -/
structure ConnectEnv.Plain (env : ConnectEnv) : Prop where
  networkRc : env.networkRc ≠ .retMqttReconnected
  connectPacket : env.connectPacket ≠ .error .retMqttReconnected
  send : env.send.Plain
  cycles : ∀ e ∈ env.cycles, e.Plain

section Codes

theorem sendLoop_code {length sent : Nat} {writes : List (ReturnCode × Nat)}
    (h : ∀ w ∈ writes, w.1 ≠ .retMqttReconnected) :
    (sendLoop length sent writes).1 ≠ .retMqttReconnected := by
  induction writes generalizing sent with
  | nil => simp [sendLoop]
  | cons w writes ih =>
    obtain ⟨hw, hwrites⟩ := List.forall_mem_cons.mp h
    obtain ⟨rc, sentLen⟩ := w
    simp only [sendLoop]
    split
    · split
      · exact hw
      · exact ih hwrites
    · simp

theorem sendMqttPacket_code (c : Client) (length : Nat) {env : SendEnv} (h : env.Plain) :
    (sendMqttPacket c length env).1 ≠ .retMqttReconnected := by
  have hloop : (sendLoop length 0 env.writes).1 ≠ .retMqttReconnected := sendLoop_code h
  unfold sendMqttPacket
  split
  · simp
  split
  · simp
  · simp only [sendEnd]
    split
    · simp
    split
    · simp
    · exact hloop

theorem remLen_code {buf : Mem} {p : Nat} {rc : ReturnCode}
    (h : mqttReadPacketRemLenFormBuf buf p = .error rc) : rc ≠ .retMqttReconnected := by
  have hloop : ∀ (left p m v len : Nat), decodeRemLenLoop buf left p m v len = .error rc →
      rc ≠ .retMqttReconnected := by
    intro left
    induction left with
    | zero =>
      intro p m v len h
      obtain rfl := Except.error.inj h
      simp
    | succ left ih =>
      intro p m v len h
      simp only [decodeRemLenLoop] at h
      split at h
      · exact ih _ _ _ _ h
      · simp at h
  exact hloop _ _ _ _ _ h

theorem deserializeAck_code {buf : Mem} {size : Nat} {rc : ReturnCode}
    (h : deserializeAckPacket buf size = .error rc) : rc ≠ .retMqttReconnected := by
  unfold deserializeAckPacket at h
  split at h
  · obtain rfl := Except.error.inj h
    simp
  split at h
  · rename_i hrem
    exact Except.error.inj h ▸ remLen_code hrem
  simp only at h
  split at h
  · obtain rfl := Except.error.inj h
    simp
  split at h
  · obtain rfl := Except.error.inj h
    simp
  · simp at h

theorem readGrantedQoSs_code {buf : Mem} {maxCount left curdata count : Nat} {rc : ReturnCode}
    (h : readGrantedQoSs buf maxCount left curdata count = .error rc) : rc ≠ .retMqttReconnected := by
  induction left generalizing curdata count with
  | zero => simp [readGrantedQoSs] at h
  | succ left ih =>
    simp only [readGrantedQoSs] at h
    split at h
    · obtain rfl := Except.error.inj h
      simp
    split at h
    · rename_i hrest
      obtain rfl := Except.error.inj h
      exact ih hrest
    · simp at h

theorem deserializeSuback_code {maxCount size : Nat} {buf : Mem} {rc : ReturnCode}
    (h : deserializeSubackPacket maxCount buf size = .error rc) : rc ≠ .retMqttReconnected := by
  unfold deserializeSubackPacket at h
  split at h
  · obtain rfl := Except.error.inj h
    simp
  split at h
  · obtain rfl := Except.error.inj h
    simp
  split at h
  · rename_i hrem
    exact Except.error.inj h ▸ remLen_code hrem
  simp only at h
  split at h
  · obtain rfl := Except.error.inj h
    simp
  split at h
  · rename_i hcodes
    exact Except.error.inj h ▸ readGrantedQoSs_code hcodes
  · simp at h

theorem deserializeUnsuback_code {buf : Mem} {size : Nat} {rc : ReturnCode}
    (h : deserializeUnsubackPacket buf size = .error rc) : rc ≠ .retMqttReconnected := by
  unfold deserializeUnsubackPacket at h
  split at h
  · rename_i hack
    exact Except.error.inj h ▸ deserializeAck_code hack
  split at h
  · obtain rfl := Except.error.inj h
    simp
  · simp at h

theorem deserializePublish_code {sz : WordSize} {buf : Mem} {size : Nat} {rc : ReturnCode}
    (h : deserializePublishPacket sz buf size = .error rc) : rc ≠ .retMqttReconnected := by
  unfold deserializePublishPacket at h
  split at h
  · obtain rfl := Except.error.inj h
    simp
  simp only at h
  split at h
  · obtain rfl := Except.error.inj h
    simp
  split at h
  · rename_i hrem
    exact Except.error.inj h ▸ remLen_code hrem
  split at h
  · obtain rfl := Except.error.inj h
    simp
  split at h
  · obtain rfl := Except.error.inj h
    simp
  · simp at h

theorem sendPubAck_code (c : Client) {type : MessageTypes} (ht : type ≠ .reserved) (id : UInt16)
    {env : SendEnv}
    (h : env.Plain) : (sendPubAck c type id env).1 ≠ .retMqttReconnected := by
  unfold sendPubAck
  simp only
  split
  · rename_i hser
    obtain ⟨header, hheader⟩ := header_ok ht (if type = .pubrel then .qos1 else .qos0) 0 0
    simp only [serializePubAckPacket] at hser
    split at hser
    · obtain rfl := Except.error.inj hser
      simp
    · rw [hheader] at hser
      simp at hser
  · exact sendMqttPacket_code _ _ h

theorem handleSuback_code (c : Client) (env : CycleEnv) :
    (handleSubackPacket c env).1 ≠ .retMqttReconnected := by
  unfold handleSubackPacket
  split
  · rename_i h
    exact deserializeSuback_code h
  simp only
  split
  · simp
  split
  · simp
  split <;> simp [notifySubscribed]

theorem handlePublish_code (c : Client) {env : CycleEnv} (h : env.send.Plain) :
    (handlePublishPacket c env).1 ≠ .retMqttReconnected := by
  unfold handlePublishPacket
  split
  · rename_i hp
    exact deserializePublish_code hp
  simp only
  split
  · simp
  · exact sendPubAck_code _ (by split <;> simp) _ h

theorem handlePacket_code (c : Client) (packetType : UInt8) {env : CycleEnv} (h : env.Plain) :
    (handlePacket c packetType env).1 ≠ .retMqttReconnected := by
  unfold handlePacket
  split
  · simp
  split
  · unfold handlePubackPacket
    split
    · rename_i hack
      exact deserializeAck_code hack
    · simp
  split
  · exact handleSuback_code c env
  split
  · unfold handleUnsubackPacket
    split
    · rename_i hack
      exact deserializeUnsuback_code hack
    · simp
  split
  · exact handlePublish_code c h.send
  split
  · unfold handlePubrecPacket
    split
    · rename_i hack
      exact deserializeAck_code hack
    · exact sendPubAck_code _ (by simp) _ h.send
  repeat' split
  all_goals simp

theorem netRead_code {reads : NetReads} (h : reads.Plain) (n : Nat) :
    (netRead n reads).1 ≠ .retMqttReconnected ∧ NetReads.Plain (netRead n reads).2.2 := by
  cases reads with
  | nil => exact ⟨by simp [netRead], h⟩
  | cons r reads => exact ⟨(List.forall_mem_cons.mp h).1, (List.forall_mem_cons.mp h).2⟩

theorem decodeRemLenNet_code {left multiplier value : Nat} {reads reads' : NetReads}
    {r : Except ReturnCode Nat} (h : reads.Plain)
    (hr : decodeRemLenNet left multiplier value reads = (r, reads')) :
    (∀ rc, r = .error rc → rc ≠ .retMqttReconnected) ∧ reads'.Plain := by
  induction left generalizing multiplier value reads with
  | zero =>
    obtain ⟨rfl, rfl⟩ := Prod.mk.inj hr
    exact ⟨fun rc hrc => by obtain rfl := Except.error.inj hrc; simp, h⟩
  | succ left ih =>
    have hread := (netRead_code h 1).2
    simp only [decodeRemLenNet] at hr
    split at hr
    · obtain ⟨rfl, rfl⟩ := Prod.mk.inj hr
      exact ⟨fun rc hrc => by obtain rfl := Except.error.inj hrc; simp, hread⟩
    split at hr
    · exact ih hread hr
    · obtain ⟨rfl, rfl⟩ := Prod.mk.inj hr
      exact ⟨fun rc hrc => by simp at hrc, hread⟩

theorem readMqttPacket_code (c : Client) (packetType : UInt8) {reads : NetReads} (h : reads.Plain) :
    (readMqttPacket c packetType reads).rc ≠ .retMqttReconnected := by
  have hfirst := netRead_code h 1
  unfold readMqttPacket
  simp only
  split
  · simp
  split
  · exact hfirst.1
  split
  · rename_i hrem
    exact (decodeRemLenNet_code hfirst.2 hrem).1 _ rfl
  · rename_i hrem
    have hrest := (decodeRemLenNet_code hfirst.2 hrem).2
    split
    · simp
    · unfold readPayload
      split
      · simp
      simp only
      split
      · split
        · exact (netRead_code hrest _).1
        · simp
      · simp

theorem cycle_code (c : Client) (packetType : UInt8) {env : CycleEnv} (h : env.Plain) :
    (cycleForRead c packetType env).1 ≠ .retMqttReconnected := by
  unfold cycleForRead
  simp only
  split
  · simp
  split
  · exact readMqttPacket_code c packetType h.reads
  · exact handlePacket_code _ _ h

theorem waitForRead_code (c : Client) (packetType readPacketType : UInt8) {envs : List CycleEnv}
    (h : ∀ e ∈ envs, e.Plain) :
    (waitForRead c packetType readPacketType envs).1 ≠ .retMqttReconnected := by
  induction envs generalizing c readPacketType with
  | nil => simp [waitForRead]
  | cons env envs ih =>
    obtain ⟨henv, henvs⟩ := List.forall_mem_cons.mp h
    simp only [waitForRead]
    split
    · exact ih _ _ henvs
    · exact cycle_code c readPacketType henv

theorem ite_code {p : Prop} [Decidable p] {rc rc' : ReturnCode} (h : rc ≠ .retMqttReconnected)
    (h' : rc' ≠ .retMqttReconnected) : (if p then rc else rc') ≠ .retMqttReconnected := by
  split
  · exact h
  · exact h'

theorem deserializeConnack_code {buf : Mem} {size : Nat} :
    (∀ {rc}, deserializeConnackPacket buf size = .error rc → rc ≠ .retMqttReconnected) ∧
      ∀ {present rc}, deserializeConnackPacket buf size = .ok (present, rc) →
        rc ≠ .retMqttReconnected := by
  have herror : ∀ {rc rc' : ReturnCode},
      (.error rc' : Except ReturnCode (UInt8 × ReturnCode)) = .error rc →
      rc' ≠ .retMqttReconnected → rc ≠ .retMqttReconnected := fun h h' => Except.error.inj h ▸ h'
  unfold deserializeConnackPacket
  by_cases hsize : 4 > size
  · rw [if_pos hsize]
    exact ⟨fun h => herror h (by simp), fun h => by simp at h⟩
  rw [if_neg hsize]
  by_cases htype : MessageTypes.connack.code ≠ headerType (buf 0)
  · rw [if_pos htype]
    exact ⟨fun h => herror h (by simp), fun h => by simp at h⟩
  rw [if_neg htype]
  rcases hrem : mqttReadPacketRemLenFormBuf buf 1 with rc | ⟨decodedLen, readBytesLen⟩
  · exact ⟨fun h => herror h (remLen_code hrem), fun h => by simp at h⟩
  dsimp only
  by_cases hlen : 1 + readBytesLen + decodedLen - (1 + readBytesLen) ≠ 2
  · rw [if_pos hlen]
    exact ⟨fun h => herror h (by simp), fun h => by simp at h⟩
  · rw [if_neg hlen]
    refine ⟨fun h => by simp at h, fun h => ?_⟩
    obtain ⟨-, rfl⟩ := Prod.mk.inj (Except.ok.inj h)
    repeat' refine ite_code ?_ ?_
    all_goals simp

theorem acceptSession_code (c : Client) (clock : Nat) :
    (acceptSession c clock).1 ≠ .retMqttReconnected := by
  unfold acceptSession
  split
  · rename_i h
    exact deserializeConnack_code.1 h
  · rename_i h
    simp only
    split
    · exact deserializeConnack_code.2 h
    · simp

theorem openSession_code (c : Client) (options : MqttConnectParams) {env : ConnectEnv} (h : env.Plain)
    {rc : ReturnCode} (hrc : (openSession c options env).1 = .error rc) : rc ≠ .retMqttReconnected := by
  unfold openSession at hrc
  simp only at hrc
  split at hrc
  · exact Except.error.inj hrc ▸ h.networkRc
  split at hrc
  · rename_i hpacket
    rintro rfl
    obtain rfl := Except.error.inj hrc
    exact h.connectPacket hpacket
  split at hrc
  · obtain rfl := Except.error.inj hrc
    simp
  split at hrc
  · exact Except.error.inj hrc ▸ sendMqttPacket_code _ _ h.send
  · simp at hrc

theorem connect_code (c : Client) (options : MqttConnectParams) {env : ConnectEnv} (h : env.Plain) :
    (qcloudIotMqttConnect c options env).1 ≠ .retMqttReconnected := by
  unfold qcloudIotMqttConnect
  simp only
  split
  · simp
  have hopen : ∀ rc, (openSession c.getClientConnState.2 options env).1 = .error rc →
      rc ≠ .retMqttReconnected :=
    fun rc => openSession_code _ _ h
  unfold mqttConnect
  generalize openSession c.getClientConnState.2 options env = r at hopen
  obtain ⟨rc | _, c1⟩ := r
  · exact hopen _ rfl
  · simp only
    split
    · exact waitForRead_code c1 MessageTypes.connack.code 0 h.cycles
    · exact acceptSession_code _ env.clock

end Codes

/-- **An attempt** is reported as a success only where it leaves the client connected. -/
theorem attemptReconnect_code {c : Client} {env : ReconnectEnv} (hdown : c.isConnected = false)
    (hplain : env.connect.Plain) (hrc : (qcloudIotMqttAttemptReconnect c env).1 = .retMqttReconnected) :
    (qcloudIotMqttAttemptReconnect c env).2.isConnected = true := by
  have hstate : c.getClientConnState.1 = false := hdown
  have hconnect := connect_code c.getClientConnState.2 c.getClientConnState.2.options hplain
  unfold qcloudIotMqttAttemptReconnect at hrc ⊢
  simp only [hstate] at hrc ⊢
  rw [if_neg (by simp)] at hrc ⊢
  generalize qcloudIotMqttConnect c.getClientConnState.2 c.getClientConnState.2.options env.connect = r
    at hrc hconnect ⊢
  by_cases hup : r.2.getClientConnState.1 = true
  · rw [if_neg (not_not.mpr hup)]
    have hsub := (resubscribe_link r.2.getClientConnState.2 env.subs).trans
      (link_getClientConnState r.2)
    split <;> exact (congrArg Link.connected hsub).trans hup
  · rw [if_pos hup] at hrc
    exact absurd hrc hconnect

/-! ## The wait -/

theorem max_toNat : maxReconnectWaitInterval.toNat = 60000 := rfl

/-- Where a wait is doubled, nothing is lost. -/
theorem backedOff_interval {l : Link} (h : l.interval ≤ maxReconnectWaitInterval) (clock : Nat) :
    (l.backedOff clock).interval.toNat = 2 * l.interval.toNat := by
  have hle := UInt32.le_iff_toNat_le.mp h
  rw [max_toNat] at hle
  have htwo : (2 : UInt32).toNat = 2 := rfl
  change (l.interval * 2).toNat = _
  rw [UInt32.toNat_mul, htwo]
  omega

/-- What a run keeps to. -/
structure Paced (l : Link) : Prop where
  auto : l.options.autoConnectEnable = true
  le : l.interval.toNat ≤ 2 * maxReconnectWaitInterval.toNat
  ge : l.connected = false → 1000 ≤ l.interval.toNat

/-- The round's interval is one that `_get_random_interval` returns, and its attempt is plain. -/
structure YieldStep.Sound (s : YieldStep) : Prop where
  random : ∃ rand, s.randomInterval = getRandomInterval rand
  connect : s.reconnect.reconnect.connect.Plain

theorem paced_scheduled {l : Link} {s : YieldStep} (hauto : l.options.autoConnectEnable = true)
    (hs : s.Sound) :
    Paced (l.scheduled s.randomInterval s.clock) := by
  obtain ⟨rand, hrand⟩ := hs.random
  obtain ⟨hlo, hhi⟩ := getRandomInterval_bounds rand
  rw [Link.scheduled, if_pos hauto]
  refine ⟨hauto, ?_, fun _ => ?_⟩
  · change s.randomInterval.toNat ≤ _
    rw [hrand, max_toNat]
    omega
  · change 1000 ≤ s.randomInterval.toNat
    rw [hrand]
    exact hlo

/-- **A round** keeps to it. -/
theorem paced_step {r : Round} (hs : r.step.Sound) (h : Paced r.client.link) : Paced r.after.link := by
  have hstep := round_step r
  have hsame := heard_same (r := r)
  have hauto : r.heard.options.autoConnectEnable = true := by
    rw [hsame]
    exact h.auto
  have hdouble : ∀ {l : Link} {clock : Nat}, l.options.autoConnectEnable = true →
      l.interval = r.client.currentReconnectWaitInterval →
      r.client.currentReconnectWaitInterval ≤ maxReconnectWaitInterval → r.client.isConnected = false →
      Paced (l.backedOff clock) := by
    intro l clock hauto hl hmax hdown
    have hlmax : l.interval ≤ maxReconnectWaitInterval := hl ▸ hmax
    have hge : 1000 ≤ l.interval.toNat := hl ▸ h.ge hdown
    refine ⟨hauto, ?_, fun _ => ?_⟩
    · rw [backedOff_interval hlmax]
      have := UInt32.le_iff_toNat_le.mp hlmax
      omega
    · rw [backedOff_interval hlmax]
      omega
  have hup : ∀ {l : Link}, l.options = r.client.options →
      l.interval = r.client.currentReconnectWaitInterval →
      (l.connected = false → r.client.isConnected = false) → Paced l := by
    intro l ho hi hc
    exact ⟨by rw [ho]; exact h.auto, by rw [hi]; exact h.le, fun hdown =>
      by rw [hi]; exact h.ge (hc hdown)⟩
  generalize r.after.link = l at hstep
  cases hstep with
  | gaveUp => exact h
  | waiting => exact h
  | noNetwork hdown hmax => exact hdouble h.auto rfl hmax hdown
  | reconnected hdown hmax _ hattempt => exact hup hattempt.options hattempt.interval fun _ => hdown
  | failed hdown hmax hattempt =>
    exact hdouble (by rw [hattempt.options]; exact h.auto) hattempt.interval hmax hdown
  | quiet hconn =>
    rw [hsame]
    exact hup rfl rfl id
  | pinged hconn =>
    rw [hsame]
    exact hup rfl rfl id
  | starved => exact paced_scheduled hauto hs
  | notSent => exact paced_scheduled hauto hs
  | notRead => exact paced_scheduled hauto hs
  | noConn => exact paced_scheduled hauto hs

/-! ## A disconnection -/

/-- `network_stack.connect` is called in the round. -/
def Round.attempts (r : Round) : Bool :=
  decide (r.client.log.count .netConnect < r.after.log.count .netConnect)

/-- The waits before the attempts, in milliseconds. -/
def waits (rs : List Round) : List Nat :=
  (rs.filter Round.attempts).map (·.client.currentReconnectWaitInterval.toNat)

theorem waits_none {r : Round} (rs : List Round) (h : r.after.link.attempts = r.client.link.attempts) :
    waits (r :: rs) = waits rs := by
  have hnone : r.attempts = false := decide_eq_false (Nat.not_lt.mpr (Nat.le_of_eq h))
  rw [waits, List.filter_cons, hnone]
  rfl

theorem waits_one {r : Round} (rs : List Round)
    (h : r.after.link.attempts = r.client.link.attempts + 1) :
    waits (r :: rs) = r.client.link.interval.toNat :: waits rs := by
  have hone : r.attempts = true := decide_eq_true
    (show r.client.link.attempts < r.after.link.attempts by omega)
  rw [waits, List.filter_cons, hone]
  rfl

/-- **The attempts of one disconnection**: each wait is at least twice the one before. -/
theorem disconnection_doubles {l l' : Link} {ds : List Round} (h : Chain l ds l')
    (hdown : ∀ r ∈ ds, r.client.isConnected = false) (hs : ∀ r ∈ ds, r.step.Sound) :
    Doubling maxReconnectWaitInterval.toNat l.interval.toNat (waits ds) := by
  induction h with
  | nil l => exact .nil _
  | @cons l l' r rs hl h ih =>
    subst hl
    obtain ⟨hr, hrs⟩ := List.forall_mem_cons.mp hdown
    obtain ⟨hsr, hsrs⟩ := List.forall_mem_cons.mp hs
    have hrest := ih hrs hsrs
    have hstep := round_down r hr
    generalize hafter : r.after.link = l at hstep
    rw [hafter] at hrest
    cases hstep with
    | gaveUp =>
      rw [waits_none rs (by rw [hafter])]
      exact hrest
    | waiting =>
      rw [waits_none rs (by rw [hafter])]
      exact hrest
    | noNetwork _ hmax =>
      rw [waits_none rs (by rw [hafter]; rfl)]
      rw [backedOff_interval hmax] at hrest
      exact hrest.mono (by omega)
    | reconnected _ hmax hrc hattempt hl =>
      rw [waits_one rs (by rw [hafter, hattempt.attempts])]
      have hconn : l.connected = true := by
        rw [hl]
        exact attemptReconnect_code hr hsr.connect hrc
      -- the disconnection is over
      have hnil : rs = [] := by
        cases h with
        | nil => rfl
        | @cons _ _ r2 _ hl2 _ =>
          have hup : r2.client.link.connected = true := by rw [hl2, hafter, hconn]
          exact absurd (hup.symm.trans (hrs r2 List.mem_cons_self)) (by simp)
      rw [hnil]
      exact .cons (Nat.le_refl _) (UInt32.le_iff_toNat_le.mp hmax) (.nil _)
    | failed _ hmax hattempt =>
      rw [waits_one rs (by rw [hafter]; exact hattempt.attempts)]
      rw [backedOff_interval (by rw [hattempt.interval]; exact hmax), hattempt.interval] at hrest
      exact .cons (Nat.le_refl _) (UInt32.le_iff_toNat_le.mp hmax) hrest
    | quiet hup => exact absurd (hup.symm.trans hr) (by simp)
    | pinged hup => exact absurd (hup.symm.trans hr) (by simp)
    | starved hup => exact absurd (hup.symm.trans hr) (by simp)
    | notSent hup => exact absurd (hup.symm.trans hr) (by simp)
    | notRead hup => exact absurd (hup.symm.trans hr) (by simp)
    | noConn hup => exact absurd (hup.symm.trans hr) (by simp)

/-! ## Runs -/

/-- What the rounds of a call meet is sound. -/
def Call.Sound : Call → Prop
  | .yield _ _ steps => ∀ s ∈ steps, s.Sound
  | _ => True

theorem loopRounds_steps {steps : List YieldStep} {packetType : UInt8} {c : Client} :
    ∀ r ∈ loopRounds steps packetType c, r.step ∈ steps := by
  induction steps generalizing packetType c with
  | nil => exact fun r hr => absurd hr List.not_mem_nil
  | cons s steps ih =>
    intro r hr
    rw [loopRounds] at hr
    rcases List.mem_cons.mp hr with rfl | hr
    · exact List.mem_cons_self
    · split at hr
      · exact absurd hr List.not_mem_nil
      · exact List.mem_cons_of_mem s (ih r hr)

theorem runRounds_sound {c : Client} {calls : List Call} (h : ∀ a ∈ calls, a.Sound) :
    ∀ r ∈ runRounds c calls, r.step.Sound := by
  induction calls generalizing c with
  | nil => exact fun r hr => absurd hr List.not_mem_nil
  | cons a as ih =>
    obtain ⟨ha, has⟩ := List.forall_mem_cons.mp h
    intro r hr
    rw [runRounds] at hr
    rcases List.mem_append.mp hr with hr | hr
    · cases a with
      | yield timeoutMs packetType steps =>
        rw [Call.rounds] at hr
        split at hr
        · exact ha r.step (loopRounds_steps r hr)
        · exact absurd hr List.not_mem_nil
      | subscribe => exact absurd hr List.not_mem_nil
      | unsubscribe => exact absurd hr List.not_mem_nil
      | publish => exact absurd hr List.not_mem_nil
    · exact ih has r hr

theorem yieldRound_gaveUp {c : Client} (packetType : UInt8) (s : YieldStep)
    (hdown : c.isConnected = false)
    (hmax : maxReconnectWaitInterval < c.currentReconnectWaitInterval) :
    yieldRound c packetType s =
      ⟨true, .errMqttReconnectTimeout, packetType, c.getClientConnState.2⟩ := by
  have hstate : c.getClientConnState.1 = false := hdown
  have hmax' : c.getClientConnState.2.currentReconnectWaitInterval > maxReconnectWaitInterval := hmax
  simp only [yieldRound, hstate]
  rw [if_pos (by simp), if_pos hmax']

/-- A yield that enters its loop disconnected, after the wait has become too long. -/
theorem yield_gaveUp {c : Client} {timeoutMs : UInt32} {steps : List YieldStep} (packetType : UInt8)
    (henter : entersLoop c timeoutMs = true) (hsteps : steps ≠ []) (hdown : c.isConnected = false)
    (hmax : maxReconnectWaitInterval < c.currentReconnectWaitInterval) :
    (qcloudIotMqttYield c timeoutMs packetType steps).1 = .errMqttReconnectTimeout ∧
      (qcloudIotMqttYield c timeoutMs packetType steps).2.link = c.link := by
  unfold entersLoop at henter
  rw [hdown, Bool.false_or, Bool.and_eq_true, Bool.and_eq_true, bne_iff_ne, Bool.not_eq_true'] at henter
  obtain ⟨htimeout, hmanual, hauto⟩ := henter
  have hmanual' : ¬ (¬ c.getClientConnState.1 = true ∧
      c.getClientConnState.2.wasManuallyDisconnected = true) :=
    fun h => absurd (hmanual.symm.trans h.2) (by simp)
  have hauto' : ¬ (¬ c.getClientConnState.2.getClientConnState.1 = true ∧
      ¬ c.getClientConnState.2.getClientConnState.2.options.autoConnectEnable = true) := fun h =>
        h.2 hauto
  obtain ⟨s, steps, rfl⟩ := List.exists_cons_of_ne_nil hsteps
  have hyield : qcloudIotMqttYield c timeoutMs packetType (s :: steps) = (.errMqttReconnectTimeout,
      c.getClientConnState.2.getClientConnState.2.getClientConnState.2) := by
    unfold qcloudIotMqttYield
    rw [if_neg htimeout]
    simp only
    rw [if_neg hmanual', if_neg hauto', yieldLoop_cons,
      yieldRound_gaveUp (c := c.getClientConnState.2.getClientConnState.2) packetType s hdown hmax]
    exact if_pos rfl
  rw [hyield]
  exact ⟨rfl, by rw [link_getClientConnState, link_getClientConnState, link_getClientConnState]⟩

/-- **The waits of a run**: with a client that reconnects by itself, whatever the application calls but a
disconnect and whatever the network does, the wait never gets above twice the limit; in one
disconnection the waits before the attempts grow, and there are at most six attempts; and once the wait is
above the limit, each yield that enters its loop still disconnected returns
`QCLOUD_ERR_MQTT_RECONNECT_TIMEOUT` and attempts nothing. -/
theorem reconnect_backsOff {c : Client} (hc : Constructed c)
    (hauto : c.options.autoConnectEnable = true)
    {calls : List Call} (hs : ∀ a ∈ calls, a.Sound) :
    ((run call c calls).currentReconnectWaitInterval.toNat ≤ 2 * maxReconnectWaitInterval.toNat ∧
      ∀ r ∈ runRounds c calls,
        r.after.currentReconnectWaitInterval.toNat ≤ 2 * maxReconnectWaitInterval.toNat) ∧
    (∀ pre ds post, runRounds c calls = pre ++ ds ++ post → (∀ r ∈ ds, r.client.isConnected = false) →
      (waits ds).Pairwise (· < ·) ∧ (waits ds).length ≤ 6) ∧
    ∀ timeoutMs packetType steps, entersLoop (run call c calls) timeoutMs = true → steps ≠ [] →
      (run call c calls).isConnected = false →
      maxReconnectWaitInterval < (run call c calls).currentReconnectWaitInterval →
      (qcloudIotMqttYield (run call c calls) timeoutMs packetType steps).1 = .errMqttReconnectTimeout ∧
        (qcloudIotMqttYield (run call c calls) timeoutMs packetType steps).2.link =
          (run call c calls).link := by
  have hchain := run_chain c calls
  have hsound := runRounds_sound (c := c) hs
  have hzero : c.link.interval.toNat = 0 := congrArg UInt32.toNat hc.currentReconnectWaitInterval
  have hinit : Paced c.link := ⟨hauto, by rw [hzero]; exact Nat.zero_le _,
    fun hdown => absurd (hc.isConnected.symm.trans hdown) (by simp)⟩
  obtain ⟨hend, hall⟩ := hchain.invariant hinit fun r hr h => paced_step (hsound r hr) h
  refine ⟨⟨hend.le, fun r hr => (hall r hr).2.le⟩, fun pre ds post hsplit hdown => ?_,
    fun timeoutMs packetType steps => ?_⟩
  · rw [hsplit] at hchain hsound hall
    obtain ⟨l2, h2, -⟩ := hchain.split
    obtain ⟨l1, -, hds⟩ := h2.split
    have hdoubling := disconnection_doubles hds hdown fun r hr => hsound r (by simp [hr])
    cases hds with
    | nil => exact ⟨.nil, by decide⟩
    | @cons _ _ r rs hl _ =>
      subst hl
      have hlo : 1000 ≤ r.client.link.interval.toNat :=
        (hall r (by simp)).1.ge (hdown r List.mem_cons_self)
      refine ⟨hdoubling.pairwise (by omega), ?_⟩
      by_contra hlen
      obtain ⟨n, hn⟩ := Nat.exists_eq_add_of_lt (Nat.lt_of_not_le hlen)
      have hbound := hdoubling.bound (n := n + 6) (by omega)
      have hmany : 1000 * 2 ^ 6 ≤ r.client.link.interval.toNat * 2 ^ (n + 6) :=
        Nat.mul_le_mul hlo (Nat.pow_le_pow_right (by decide) (by omega))
      rw [max_toNat] at hbound
      omega
  · exact yield_gaveUp packetType

/-- The client of the examples, as `IOT_MQTT_Construct` returns it. -/
def constructedClient : Client := { Client.init (some 1) 0 5000 ⟨60, true⟩ with isConnected := true }

theorem constructed_example : Constructed constructedClient := ⟨rfl, rfl, rfl, rfl, rfl⟩

/-- The connection breaks, and the broker refuses two attempts. -/
def refusedCalls : List Call :=
  let refused : YieldStep := { reconnect :=
    { delayClock := 9000, reconnect := { connect := { networkRc := .errTcpConnect } } } }
  [.yield 500 0 [{ cycle := { reads := [(.errTcpReadFail, [])] } }, refused, refused]]

theorem reconnect_backsOff_refused : ∃ ds, runRounds constructedClient refusedCalls =
      (runRounds constructedClient refusedCalls).take 1 ++ ds ++ [] ∧
    waits ds = [1000, 2000] ∧ (waits ds).Pairwise (· < ·) ∧ (waits ds).length ≤ 6 := by
  have hsound : ∀ a ∈ refusedCalls, a.Sound := by
    intro a ha
    obtain rfl := List.mem_singleton.mp ha
    intro s hs
    have hnone : ∀ w ∈ ([] : List (ReturnCode × Nat)), w.1 ≠ .retMqttReconnected := by simp
    simp only [List.mem_cons, List.not_mem_nil, or_false] at hs
    rcases hs with rfl | rfl | rfl <;>
      exact ⟨⟨0, rfl⟩, by simp, by simp, hnone, by simp⟩
  have hsplit : runRounds constructedClient refusedCalls =
      (runRounds constructedClient refusedCalls).take 1 ++
        (runRounds constructedClient refusedCalls).drop 1 ++ [] := by
    rw [List.append_nil, List.take_append_drop]
  exact ⟨_, hsplit, by decide,
    (reconnect_backsOff constructed_example rfl hsound).2.1 _ _ _ hsplit (by decide)⟩

end QcloudIot.Mqtt
