import QcloudIot.Mqtt.Duplicates

/-!
# The ring of packet ids, exactly

`_get_packet_id_in_repeat_buf` and `_add_packet_id_to_repeat_buf` over whole runs. An unused place
of the ring holds 0, which is no packet id of a PUBLISH above QoS 0. As long as none comes with it,
the ring is the window over the ids of the messages delivered: a message is delivered iff its id is
none of the last `MQTT_MAX_REPEAT_BUF_LEN`.

Results:
* `publishOf_id`: a message passed on carries the id that is looked up;
* `IdsInv.act`: what a PUBLISH with an id other than 0 does to ring and history;
* **`repeatBuf_exact`**: the ring is exact after every run.
-/

namespace QcloudIot.Mqtt

open Lib

/-- The ids recorded by the messages delivered, newest first. -/
def recordedIds (c : Client) : List UInt16 := (deliveredIn c.log).reverse.map (·.id.getD 0)

/-- A step's condition: no PUBLISH above QoS 0 comes with the packet id 0. -/
def NonZeroId (c : Client) (a : Act) : Prop := ∀ p ∈ publishOf c a, p.1 ≠ 0

instance (c : Client) (a : Act) : Decidable (NonZeroId c a) :=
  inferInstanceAs (Decidable (∀ p ∈ _, _))

/-- What the ring promises for a client: the message of a PUBLISH above QoS 0 is delivered iff its
id is not among the last ones recorded, no id stands in the ring twice, and the next place to write
lies in it. -/
structure RingExact (c : Client) : Prop where
  delivered : ∀ a packetId msg, publishOf c a = some (packetId, msg) → packetId ≠ 0 →
    deliveredIn (act c a).log = deliveredIn c.log ++
      if packetId ∈ (recordedIds c).take mqttMaxRepeatBufLen then [] else [msg]
  nodup : (c.repeatBuf.ids.filter (· ≠ 0)).Nodup
  cnt_lt : c.repeatBuf.cnt < mqttMaxRepeatBufLen

/-- What is read of a PUBLISH goes with its message. -/
theorem decodeInbound_publish_id {c : Client} {packetType : UInt8} {w : WordSize}
    {packetId : UInt16} {msg : MqttMessage}
    (h : decodeInbound c packetType w = some (.publish packetId msg)) : msg.id.getD 0 = packetId := by
  unfold decodeInbound at h
  split at h
  · split at h <;> simp at h
  split at h
  · split at h <;> simp at h
  split at h
  · split at h <;> simp at h
  split at h
  swap
  · exact absurd h (by simp)
  split at h
  · rename_i p _
    split at h
    · exact absurd h (by simp)
    · obtain ⟨rfl, rfl⟩ := Inbound.publish.inj (Option.some.inj h)
      rfl
  · exact absurd h (by simp)

/-- A message passed on carries its packet id. -/
theorem publishOf_id {c : Client} {a : Act} {packetId : UInt16} {msg : MqttMessage}
    (h : publishOf c a = some (packetId, msg)) : msg.id.getD 0 = packetId := by
  cases a with
  | cycle packetType env =>
    simp only [publishOf] at h
    split at h
    · rename_i id m hin
      obtain ⟨rfl, rfl⟩ := Prod.mk.inj (Option.some.inj h)
      unfold inboundOf at hin
      simp only at hin
      split at hin
      · exact decodeInbound_publish_id hin
      · exact absurd hin (by simp)
    · exact absurd h (by simp)
  | _ => exact absurd h (by simp [publishOf])

/-! ## The invariant -/

/-- The ring holds the window over the ids recorded, and these differ in it. -/
structure IdsInv (c : Client) : Prop where
  held : c.held = []
  recent : c.repeatBuf.recent =
    (recordedIds c ++ List.replicate mqttMaxRepeatBufLen 0).take mqttMaxRepeatBufLen
  ne_zero : 0 ∉ recordedIds c
  nodup : ((recordedIds c).take mqttMaxRepeatBufLen).Nodup

namespace IdsInv

variable {c : Client} {a : Act} {packetId : UInt16} {msg : MqttMessage}

theorem mem_recent (h : IdsInv c) (hpos : packetId ≠ 0) :
    packetId ∈ c.repeatBuf.recent ↔ packetId ∈ (recordedIds c).take mqttMaxRepeatBufLen := by
  rw [h.recent, List.take_append, List.mem_append]
  refine or_iff_left fun hzero => hpos ?_
  exact List.eq_of_mem_replicate (List.mem_of_mem_take hzero)

/-- The ring without its unused places. -/
theorem filter_recent (h : IdsInv c) :
    c.repeatBuf.recent.filter (· ≠ 0) = (recordedIds c).take mqttMaxRepeatBufLen := by
  rw [h.recent, List.take_append, List.filter_append]
  have hids : ((recordedIds c).take mqttMaxRepeatBufLen).filter (· ≠ 0) =
      (recordedIds c).take mqttMaxRepeatBufLen :=
    List.filter_eq_self.mpr fun id hid => by
      have hne : id ≠ 0 := fun h0 => h.ne_zero (h0 ▸ List.mem_of_mem_take hid)
      simpa using hne
  rw [hids, List.take_replicate, List.filter_replicate_of_neg (by simp), List.append_nil]

/-- What the message of a PUBLISH does to the deliveries. -/
theorem delivered (h : IdsInv c) (hpub : publishOf c a = some (packetId, msg)) (hpos : packetId ≠ 0) :
    deliveredIn (act c a).log = deliveredIn c.log ++
      if packetId ∈ (recordedIds c).take mqttMaxRepeatBufLen then [] else [msg] := by
  have hmsg := (act_step a h.held).messages
  rw [hpub] at hmsg
  simp only [← h.mem_recent hpos]
  exact hmsg.delivered

/-- One step. -/
theorem act (h : IdsInv c) (hid : NonZeroId c a) : IdsInv (act c a) := by
  have hheld := (act_sameThread a h.held).held.trans h.held
  have hmsg := (act_step a h.held).messages
  cases hpub : publishOf c a with
  | none =>
    rw [hpub] at hmsg
    have hids : recordedIds (Mqtt.act c a) = recordedIds c := by
      rw [recordedIds, recordedIds, hmsg.delivered]
    exact ⟨hheld, by rw [hids, ← h.recent, hmsg.repeatBuf], by rw [hids]; exact h.ne_zero,
      by rw [hids]; exact h.nodup⟩
  | some pm =>
    obtain ⟨packetId, msg⟩ := pm
    have hpos : packetId ≠ 0 := hid _ hpub
    have hdelivered := h.delivered hpub hpos
    rw [hpub] at hmsg
    by_cases hin : packetId ∈ (recordedIds c).take mqttMaxRepeatBufLen
    · have hids : recordedIds (Mqtt.act c a) = recordedIds c := by
        rw [recordedIds, recordedIds, hdelivered, if_pos hin, List.append_nil]
      have hbuf : (Mqtt.act c a).repeatBuf = c.repeatBuf := by
        rw [hmsg.repeatBuf, add_recorded ((h.mem_recent hpos).mpr hin) hpos]
      exact ⟨hheld, by rw [hids, ← h.recent, hbuf], by rw [hids]; exact h.ne_zero,
        by rw [hids]; exact h.nodup⟩
    · have hids : recordedIds (Mqtt.act c a) = packetId :: recordedIds c := by
        rw [recordedIds, hdelivered, if_neg hin, List.reverse_append, List.map_append,
          List.reverse_singleton, List.map_singleton, publishOf_id hpub]
        rfl
      have hnew : packetId ∉ c.repeatBuf.recent := fun hrec => hin ((h.mem_recent hpos).mp hrec)
      refine ⟨hheld, ?_, ?_, ?_⟩
      · rw [hids, hmsg.repeatBuf, recent_add hnew, h.recent, take_cons_take, List.cons_append]
      · rw [hids, List.mem_cons, not_or]
        exact ⟨hpos.symm, h.ne_zero⟩
      · rw [hids, ← take_cons_take]
        exact (List.nodup_cons.mpr ⟨hin, h.nodup⟩).sublist (List.take_sublist _ _)

theorem exact (h : IdsInv c) : RingExact c where
  delivered _ _ _ hpub hpos := h.delivered hpub hpos
  nodup := by
    have hperm : (c.repeatBuf.recent.filter (· ≠ 0)).Perm (c.repeatBuf.ids.filter (· ≠ 0)) :=
      (newestFirst_perm _ _).filter _
    rw [← hperm.nodup_iff, h.filter_recent]
    exact h.nodup
  cnt_lt := c.repeatBuf.cnt_lt

end IdsInv

/-! ## Runs -/

/-- **The ring is exact** after every run from a fresh client in which no PUBLISH above QoS 0 comes
with the packet id 0. -/
theorem repeatBuf_exact (eventHandle : Option FnPtr) (nextPacketId : UInt16)
    (commandTimeoutMs : Nat) (options : MqttConnectParams) (as : List Act)
    (h : Meets act NonZeroId (Client.init eventHandle nextPacketId commandTimeoutMs options) as) :
    RingExact (run act (Client.init eventHandle nextPacketId commandTimeoutMs options) as) := by
  have hinit : IdsInv (Client.init eventHandle nextPacketId commandTimeoutMs options) :=
    ⟨rfl, recent_empty, List.not_mem_nil, List.nodup_nil⟩
  exact (run_invariant IdsInv (fun _ _ hs ha => hs.act ha) as hinit h).exact

/-- A message, its retransmission and a second message. -/
theorem repeatBuf_retransmitted : RingExact (run act freshClient (sessionActs ++
    [readPublish 0x32 1 [], readPublish 0x3A 1 [], readPublish 0x32 2 [65]])) := by
  refine repeatBuf_exact (some 1) 0 5000 ⟨60, true⟩ _ ?_
  decide

end QcloudIot.Mqtt
