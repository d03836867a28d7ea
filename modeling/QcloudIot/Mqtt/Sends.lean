import QcloudIot.Mqtt.Transport

/-!
# What is put on the wire

`send_mqtt_packet` offers the network `length` bytes at every write (`sendOffers`), also when part
of the packet has gone out before.

* `sendLoop_unsplit`, `sendOffers_split`: the loop while nothing is sent twice, and from the write
  on that follows a part of the packet;
* **`sendsExactly_iff`**: exactly the packet is sent as long as no write follows one that took a
  part of it.
-/

namespace QcloudIot.Mqtt

/-- What the network has accepted, by the log. -/
def wiredIn (log : List Ev) : Bytes :=
  log.flatMap fun
    | .wire bytes => bytes
    | _ => []

/-- What the network is offered in the loop of `send_mqtt_packet`: offset and length of each
write. -/
def sendOffers (length : Nat) : (sent : Nat) → List (ReturnCode × Nat) → List (Nat × Nat)
  | _, [] => []
  | sent, (rc, sentLen) :: writes =>
    if sent < length then
      (sent, length) ::
        if rc ≠ .retSuccess then [] else sendOffers length (sent + min sentLen length) writes
    else []

/-- What the network is offered by `send_mqtt_packet`. -/
def sendMqttPacketOffers (c : Client) (length : Nat) (env : SendEnv) : List (Nat × Nat) :=
  if length ≥ c.writeBufSize then []
  else if env.expiredAtStart then []
  else sendOffers length 0 env.writes

/-- Nothing but the packet is offered, what is accepted is a prefix of it, and success means all of
it. -/
structure SendsExactly (c : Client) (length : Nat) (env : SendEnv) : Prop where
  offered : ∀ o ∈ sendMqttPacketOffers c length env, o.1 + o.2 ≤ length
  accepted : wiredIn ((sendMqttPacket c length env).2.log.drop c.log.length) <+:
    c.writeBuf.load 0 length
  complete : (sendMqttPacket c length env).1 = .retSuccess →
    wiredIn ((sendMqttPacket c length env).2.log.drop c.log.length) = c.writeBuf.load 0 length

/-- Of the writes none follows one that has taken a part of the `length` bytes: such a write is the
last before the timer expires. -/
def Unsplit (length : Nat) : List (ReturnCode × Nat) → Prop
  | [] => True
  | (rc, sentLen) :: writes =>
    rc ≠ .retSuccess ∨ length ≤ sentLen ∨ writes = [] ∨ (sentLen = 0 ∧ Unsplit length writes)

instance : (length : Nat) → (writes : List (ReturnCode × Nat)) → Decidable (Unsplit length writes)
  | _, [] => inferInstanceAs (Decidable True)
  | length, (rc, sentLen) :: writes =>
    have := instDecidableUnsplit length writes
    inferInstanceAs (Decidable (rc ≠ .retSuccess ∨ length ≤ sentLen ∨ writes = [] ∨
      (sentLen = 0 ∧ Unsplit length writes)))

variable {buf : Mem} {length n : Nat} {writes : List (ReturnCode × Nat)}

theorem Mem.load_prefix (buf : Mem) (h : n ≤ length) : buf.load 0 n <+: buf.load 0 length := by
  unfold Mem.load
  obtain ⟨k, rfl⟩ := Nat.exists_eq_add_of_le h
  rw [List.range_add, List.map_append]
  exact List.prefix_append _ _

/-- Once everything has been sent no write follows. -/
theorem send_done (buf : Mem) {sent : Nat} (h : length ≤ sent) :
    sendOffers length sent writes = [] ∧ sendWire buf length sent writes = [] ∧
      sendLoop length sent writes = (.retSuccess, sent) := by
  cases writes with
  | nil => exact ⟨rfl, rfl, rfl⟩
  | cons w writes =>
    have hnot : ¬ sent < length := by omega
    exact ⟨if_neg hnot, if_neg hnot, if_neg hnot⟩

/-- A write made before anything has been sent. -/
theorem send_first (buf : Mem) (writes : List (ReturnCode × Nat)) (hlength : 0 < length)
    (sentLen : Nat) :
    sendOffers length 0 ((.retSuccess, sentLen) :: writes) =
        (0, length) :: sendOffers length (min sentLen length) writes ∧
      sendWire buf length 0 ((.retSuccess, sentLen) :: writes) =
        buf.load 0 (min sentLen length) ++ sendWire buf length (min sentLen length) writes ∧
      sendLoop length 0 ((.retSuccess, sentLen) :: writes) =
        sendLoop length (min sentLen length) writes := by
  have hrc : ¬ ReturnCode.retSuccess ≠ .retSuccess := fun h => h rfl
  refine ⟨?_, ?_, ?_⟩
  · rw [sendOffers, if_pos hlength, if_neg hrc, Nat.zero_add]
  · rw [sendWire, if_pos hlength, if_neg hrc, Nat.zero_add]
  · rw [sendLoop, if_pos hlength, if_neg hrc, Nat.zero_add]

/-- Without a split every write is offered the packet, from its start. -/
theorem sendLoop_unsplit (buf : Mem) (h : Unsplit length writes) :
    (∀ o ∈ sendOffers length 0 writes, o = (0, length)) ∧
    ∃ n ≤ length, sendWire buf length 0 writes = buf.load 0 n ∧
      (sendLoop length 0 writes).2 ≤ n ∧ ((sendLoop length 0 writes).2 = length → n = length) := by
  induction writes with
  | nil => exact ⟨by simp [sendOffers], 0, Nat.zero_le _, rfl, Nat.le_refl _, id⟩
  | cons w writes ih =>
    obtain ⟨rc, sentLen⟩ := w
    rcases Nat.eq_zero_or_pos length with rfl | hlength
    · obtain ⟨hoffers, hwire, hloop⟩ := send_done buf (Nat.le_refl 0)
      rw [hoffers, hwire, hloop]
      exact ⟨by simp, 0, Nat.le_refl _, rfl, Nat.le_refl _, id⟩
    by_cases hrc : rc = .retSuccess
    · subst hrc
      obtain ⟨hoffers, hwire, hloop⟩ := send_first buf writes hlength sentLen
      rw [hoffers, hwire, hloop]
      rcases h with hne | hall | rfl | ⟨rfl, hrest⟩
      · exact absurd rfl hne
      · -- everything has been taken
        rw [Nat.min_eq_right hall]
        obtain ⟨hoffers', hwire', hloop'⟩ := send_done buf (Nat.le_refl length)
        rw [hoffers', hwire', hloop', List.append_nil]
        exact ⟨by simp, length, Nat.le_refl _, rfl, Nat.le_refl _, fun _ => rfl⟩
      · rw [sendOffers, sendWire, sendLoop, List.append_nil]
        exact ⟨by simp, min sentLen length, Nat.min_le_right _ _, rfl, Nat.le_refl _, id⟩
      · rw [Nat.zero_min]
        obtain ⟨hsame, n, hn, hwire', hloop'⟩ := ih hrest
        rw [hwire']
        exact ⟨List.forall_mem_cons.mpr ⟨rfl, hsame⟩, n, hn, rfl, hloop'⟩
    · unfold sendOffers sendWire sendLoop
      simp only [if_pos hlength, if_pos hrc]
      exact ⟨by simp, min sentLen length, Nat.min_le_right _ _, rfl, Nat.zero_le _, by omega⟩

/-- The write after one that has taken a part of the packet is offered bytes behind the packet. -/
theorem sendOffers_split (h : ¬ Unsplit length writes) :
    ∃ o ∈ sendOffers length 0 writes, length < o.1 + o.2 := by
  induction writes with
  | nil => exact absurd trivial h
  | cons w writes ih =>
    obtain ⟨rc, sentLen⟩ := w
    unfold Unsplit at h
    push Not at h
    obtain ⟨rfl, hpart, hnext, hzero⟩ := h
    obtain ⟨hoffers, -⟩ := send_first (fun _ => 0) writes
      (by omega : 0 < length) sentLen
    rw [hoffers, Nat.min_eq_left (by omega)]
    by_cases h0 : sentLen = 0
    · subst h0
      obtain ⟨o, ho, hlt⟩ := ih (hzero rfl)
      exact ⟨o, List.mem_cons_of_mem _ ho, hlt⟩
    · obtain ⟨w, writes, rfl⟩ := List.exists_cons_of_ne_nil hnext
      refine ⟨(sentLen, length), ?_, by dsimp only; omega⟩
      unfold sendOffers
      rw [if_pos hpart]
      exact List.mem_cons_of_mem _ (List.mem_cons_self ..)

/-- What a call logs beside the packet it reports as sent. -/
theorem wiredIn_send (c : Client) {env : SendEnv} (hfits : length < c.writeBufSize)
    (hstart : env.expiredAtStart = false) :
    wiredIn ((sendMqttPacket c length env).2.log.drop c.log.length) =
      sendWire c.writeBuf length 0 env.writes := by
  unfold sendMqttPacket
  rw [if_neg (by omega), if_neg (by rw [hstart]; decide)]
  dsimp only
  split
  all_goals
    simp [wiredIn]

/-- A call that is refused logs nothing. -/
theorem wiredIn_refused (c : Client) {env : SendEnv}
    (h : c.writeBufSize ≤ length ∨ env.expiredAtStart = true) :
    sendMqttPacketOffers c length env = [] ∧ (sendMqttPacket c length env).1 ≠ .retSuccess ∧
      wiredIn ((sendMqttPacket c length env).2.log.drop c.log.length) = [] := by
  unfold sendMqttPacketOffers sendMqttPacket
  by_cases hshort : length ≥ c.writeBufSize
  · simp [hshort, wiredIn]
  · have hstart : env.expiredAtStart = true := h.resolve_left (by omega)
    simp [hshort, hstart, wiredIn]

/-- With no more than the packet sent, success means all of it. -/
theorem sendEnd_ok {env : SendEnv} {r : ReturnCode × Nat} (hle : r.2 ≤ length)
    (h : sendEnd length env r = .retSuccess) : r.2 = length := by
  obtain ⟨rc, sent⟩ := r
  by_contra hne
  unfold sendEnd at h
  dsimp only at h hle hne
  rw [if_neg hne] at h
  split at h
  · exact absurd h (by decide)
  · rename_i hnot
    exact hnot ⟨h, .inl (by omega)⟩

/-- **When exactly the packet is sent**: the call is refused, or no write follows one that has
taken a part of the packet. -/
theorem sendsExactly_iff (c : Client) (length : Nat) (env : SendEnv) :
    SendsExactly c length env ↔
      c.writeBufSize ≤ length ∨ env.expiredAtStart = true ∨ Unsplit length env.writes := by
  rw [← or_assoc]
  by_cases hrefused : c.writeBufSize ≤ length ∨ env.expiredAtStart = true
  · obtain ⟨hoffers, hrc, hwired⟩ := wiredIn_refused c hrefused
    refine iff_of_true ⟨?_, ?_, fun hok => absurd hok hrc⟩ (.inl hrefused)
    · simp [hoffers]
    · rw [hwired]
      exact List.nil_prefix
  rw [or_iff_right hrefused]
  have hfits : length < c.writeBufSize := by omega
  have hstart : env.expiredAtStart = false := by simpa using fun h => hrefused (.inr h)
  have hoffers : sendMqttPacketOffers c length env = sendOffers length 0 env.writes := by
    unfold sendMqttPacketOffers
    rw [if_neg (by omega), if_neg (by rw [hstart]; decide)]
  constructor
  · intro h
    by_contra hsplit
    obtain ⟨o, ho, hlt⟩ := sendOffers_split hsplit
    have hle := h.offered o (by rw [hoffers]; exact ho)
    omega
  · intro h
    obtain ⟨hsame, n, hn, hwire, hsent, hall⟩ := sendLoop_unsplit c.writeBuf h
    have hwired := wiredIn_send c hfits hstart
    rw [hwire] at hwired
    refine ⟨?_, ?_, ?_⟩
    · intro o ho
      rw [hsame o (by rw [← hoffers]; exact ho), Nat.zero_add]
    · rw [hwired]
      exact Mem.load_prefix c.writeBuf hn
    · intro hok
      obtain ⟨-, -, hend⟩ := (sendMqttPacket_ok_iff c length env).mp hok
      rw [hwired, hall (sendEnd_ok (by omega) hend)]

/-- A client whose write buffer holds `1, 2, 3, …`. -/
def countingClient : Client :=
  { Client.init none 0 5000 ⟨240, true⟩ with writeBuf := fun i => UInt8.ofNat (i + 1) }

/-- Half of a packet is taken at first, then what follows it: two bytes too many go out, and the
call reports success. -/
theorem sendsExactly_half : ¬ SendsExactly countingClient 4
    ⟨false, [(.retSuccess, 2), (.retSuccess, 4)], false⟩ ∧
    (sendMqttPacket countingClient 4 ⟨false, [(.retSuccess, 2), (.retSuccess, 4)], false⟩).1 =
      .retSuccess ∧
    wiredIn (sendMqttPacket countingClient 4
      ⟨false, [(.retSuccess, 2), (.retSuccess, 4)], false⟩).2.log = [1, 2, 3, 4, 5, 6] := by
  refine ⟨fun h => ?_, by decide, by decide⟩
  exact absurd (h.offered (2, 4) (by decide)) (by decide)

end QcloudIot.Mqtt
