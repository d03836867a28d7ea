import QcloudIot.Mqtt.RemLen
import QcloudIot.Mqtt.PublishPacket
import QcloudIot.Mqtt.Packets

/-!
# What is written is read back

The writers of a PUBLISH and of an acknowledgement against the readers.

* `header_fields`, `readUint16_written`: the fixed header and the 16-bit integers;
* `deserialize_written`, `deserializeAck_written`: the two packets;
* **`roundTrip`**: both, for every packet.
-/

namespace QcloudIot.Mqtt

open Lib

/-! ## The fixed header -/

/-- Only the low bit of the DUP argument reaches the header. -/
theorem dup_bit (dup : UInt8) :
    (dup <<< 3) &&& (0x08 : UInt8) = ((dup &&& 1) <<< 3) &&& (0x08 : UInt8) :=
  forall_byte (P := fun b => (b <<< 3) &&& (0x08 : UInt8) = ((b &&& 1) <<< 3) &&& (0x08 : UInt8))
    (by decide +kernel) dup

/-- **The fields of a header are those it was made of.** -/
theorem header_fields {t : MessageTypes} {qos : QoS} {dup retained header : UInt8}
    (h : mqttInitPacketHeader t qos dup retained = .ok header) :
    headerType header = t.code ∧ headerDup header = dup &&& 1 ∧
      headerQos header = QoS.ofBits qos.headerBits ∧ headerRetain header = retained &&& 1 := by
  unfold mqttInitPacketHeader at h
  split at h
  · exact absurd h (by simp)
  · rw [Except.ok.injEq, dup_bit] at h
    subst h
    rcases and_one_cases dup with hd | hd <;> rcases and_one_cases retained with hr | hr <;>
      rw [hd, hr] <;> cases t <;> cases qos <;> decide

/-! ## 16-bit integers -/

theorem mqttWriteUint16_length (n : UInt16) : (mqttWriteUint16 n).length = 2 := rfl

theorem readUint16_written {buf : Mem} {p : Nat} {n : UInt16}
    (h : buf.load p 2 = mqttWriteUint16 n) : mqttReadUint16 buf p = n := by
  simp only [Mem.load_succ, mqttWriteUint16, List.cons.injEq] at h
  obtain ⟨hhigh, hlow, -⟩ := h
  rw [mqttReadUint16, hhigh, hlow]
  have hlt := n.toNat_lt
  apply UInt16.toNat_inj.mp
  simp
  omega

/-! ## A PUBLISH -/

/-- What the reader returns is what the packet was made of: the DUP flag `d`, the QoS `q`, the
retained flag `ret`, the packet id, the topic and the payload. -/
structure PublishRead (buf : Mem) (d : UInt8) (q : QoS) (ret : UInt8) (id : UInt16)
    (topic body : Bytes) (r : PublishPacket) : Prop where
  dup : r.dup = d
  qos : r.qos = q
  retained : r.retained = ret
  packetId : q.toNat > 0 → r.packetId = some id
  topicNameLen : r.topicNameLen.toNat = topic.length
  topicName : buf.load r.topicName topic.length = topic
  payloadLen : r.payloadLen = body.length
  payload : buf.load r.payload body.length = body

theorem ofBits_headerBits {q : QoS} (hq : q.toNat ≤ 1) : QoS.ofBits q.headerBits = q := by
  cases q
  · rfl
  · rfl
  · exact absurd hq (by decide)
  · exact absurd hq (by decide)

theorem qos_ne_qos0_iff (q : QoS) : q ≠ .qos0 ↔ q.toNat > 0 := by
  cases q <;> decide

theorem and_one_of_flag {b : UInt8} (h : b = 0 ∨ b = 1) : b &&& 1 = b := by
  rcases h with rfl | rfl <;> rfl

/-- The bytes of the packet id, there when QoS > 0. -/
def packetIdBytes (q : QoS) (id : UInt16) : Bytes :=
  if q.toNat > 0 then mqttWriteUint16 id else []

theorem packetIdBytes_length (q : QoS) (id : UInt16) : (packetIdBytes q id).length = q.idLen := by
  cases q <;> rfl

/-- The parts of a written PUBLISH. -/
theorem serializePublish_ok {bufLen : Nat} {d : UInt8} {q : QoS} {ret : UInt8} {id : UInt16}
    {topic body bytes : Bytes}
    (h : serializePublishPacket bufLen d q ret id topic (some body) = .ok bytes) :
    ∃ header, mqttInitPacketHeader .publish q d ret = .ok header ∧
      bytes = header :: (mqttWritePacketRemLen (getPublishPacketLen q topic body) ++
        (mqttWriteUint16 (UInt16.ofNat topic.length) ++
          (topic ++ (packetIdBytes q id ++ body)))) := by
  unfold serializePublishPacket at h
  dsimp only at h
  split at h
  · exact absurd h (by simp)
  · obtain ⟨header, hheader⟩ := header_ok (t := .publish) (by decide) q d ret
    rw [hheader, Except.ok.injEq] at h
    refine ⟨header, hheader, ?_⟩
    rw [← h]
    simp [mqttWriteUtf8String, packetIdBytes]

/-- Where the reader finds the payload. -/
theorem publishPacketAt_payload (sz : WordSize) (buf : Mem) (n k : Nat) :
    (publishPacketAt sz buf n k).payload =
      1 + k + 2 + (mqttReadUint16 buf (1 + k)).toNat + (headerQos (buf 0)).idLen := by
  by_cases hq : headerQos (buf 0) = .qos0 <;> simp [publishPacketAt, QoS.idLen, hq]

/-- Where the reader finds the packet id. -/
theorem publishPacketAt_packetId (sz : WordSize) {buf : Mem} (hq : headerQos (buf 0) ≠ .qos0)
    (n k : Nat) : (publishPacketAt sz buf n k).packetId =
      some (mqttReadUint16 buf (1 + k + 2 + (mqttReadUint16 buf (1 + k)).toNat)) := by
  simp [publishPacketAt, hq]

/-- **A PUBLISH that is written is read back.** -/
theorem deserialize_written (sz : WordSize) {bufLen : Nat} {d : UInt8} {q : QoS} {ret : UInt8}
    {id : UInt16} {topic body bytes : Bytes} {buf : Mem} (hd : d = 0 ∨ d = 1) (hq : q.toNat ≤ 1)
    (hr : ret = 0 ∨ ret = 1) (htopic : topic.length ≤ maxSizeOfCloudTopic)
    (hlen : 2 + topic.length + q.idLen + body.length < 2 ^ 28)
    (h : serializePublishPacket bufLen d q ret id topic (some body) = .ok bytes)
    (hload : buf.load 0 bytes.length = bytes) :
    ∃ r, deserializePublishPacket sz buf bytes.length = .ok r ∧
      PublishRead buf d q ret id topic body r := by
  obtain ⟨header, hheader, rfl⟩ := serializePublish_ok h
  obtain ⟨htype, hdup, hqos, hret⟩ := header_fields hheader
  rw [and_one_of_flag hd] at hdup
  rw [ofBits_headerBits hq] at hqos
  rw [and_one_of_flag hr] at hret
  obtain ⟨n, hn⟩ : ∃ n, n = 2 + topic.length + q.idLen + body.length := ⟨_, rfl⟩
  rw [← hn] at hlen
  have hremLen : (getPublishPacketLen q topic body).toNat = n := by
    have hid : (if q.toNat > 0 then 2 else 0) = q.idLen := by cases q <;> rfl
    rw [getPublishPacketLen, hid, UInt32.toNat_ofNat', Nat.mod_eq_of_lt (by omega)]
    omega
  have hcode := mqttWritePacketRemLen_varint (getPublishPacketLen q topic body)
  rw [hremLen] at hcode
  have hk := remLen_length hcode hlen
  generalize mqttWritePacketRemLen (getPublishPacketLen q topic body) = code at *
  -- the parts of the buffer, one after the other
  rw [List.length_cons, Mem.load_succ, List.cons.injEq] at hload
  obtain ⟨hfirst, hload⟩ := hload
  obtain ⟨hcodeAt, hload⟩ := Mem.load_append_iff.mp hload
  obtain ⟨hlenAt, hload⟩ := Mem.load_append_iff.mp hload
  obtain ⟨htopicAt, hload⟩ := Mem.load_append_iff.mp hload
  obtain ⟨hidAt, hbodyAt⟩ := Mem.load_append_iff.mp hload
  rw [packetIdBytes_length] at hidAt hbodyAt
  rw [← hfirst] at htype hdup hqos hret
  -- what the reader computes of them
  have hdec := readRemLen_varint hcode hlen hcodeAt
  have hname : mqttReadUint16 buf (1 + code.length) = UInt16.ofNat topic.length :=
    readUint16_written hlenAt
  have hnameLen : (mqttReadUint16 buf (1 + code.length)).toNat = topic.length := by
    rw [hname, UInt16.toNat_ofNat',
      Nat.mod_eq_of_lt (by simp only [maxSizeOfCloudTopic] at htopic; omega)]
  have hinside : PublishInside buf n code.length (publishPacketAt sz buf n code.length) := by
    refine publishPacketAt_inside hlen ?_
    rw [declaredLen, hnameLen, hqos]
    omega
  have hpayload := hinside.payloadLen
  have hpayloadAt := publishPacketAt_payload sz buf n code.length
  have hqosAt : (publishPacketAt sz buf n code.length).qos = q := hqos
  have hnameAt : (publishPacketAt sz buf n code.length).topicNameLen.toNat = topic.length := hnameLen
  rw [hnameAt, hqosAt] at hpayload
  rw [hnameLen, hqos] at hpayloadAt
  refine ⟨publishPacketAt sz buf n code.length,
    deserialize_ok_iff.mpr ⟨?_, htype, n, code.length, hdec, ?_, by omega, rfl⟩,
    hdup, hqosAt, hret, fun hpos => ?_, hnameAt, htopicAt, by omega, ?_⟩
  · simp only [List.length_cons, List.length_append, mqttWriteUint16_length]
    omega
  · simp only [maxSizeOfCloudTopic, mqttRxBufLen] at htopic ⊢
    omega
  · have hq0 : headerQos (buf 0) ≠ .qos0 := by rwa [hqos, qos_ne_qos0_iff]
    have hidLen : q.idLen = 2 := by rw [QoS.idLen, if_neg ((qos_ne_qos0_iff q).mpr hpos)]
    rw [packetIdBytes, if_pos hpos, hidLen] at hidAt
    rw [publishPacketAt_packetId sz hq0, hnameLen]
    exact congrArg some (readUint16_written hidAt)
  · rw [hpayloadAt]
    exact hbodyAt

/-! ## An acknowledgement -/

/-- **An acknowledgement that is written is read back**, in its four bytes. -/
theorem deserializeAck_written {bufLen : Nat} {t : MessageTypes} {d : UInt8} {id : UInt16}
    {bytes : Bytes} {buf : Mem} (h : serializePubAckPacket bufLen t d id = .ok bytes)
    (hload : buf.load 0 bytes.length = bytes) :
    bytes.length = 4 ∧ deserializeAckPacket buf 4 = .ok (t.code, d &&& 1, id) := by
  unfold serializePubAckPacket at h
  dsimp only at h
  split at h
  · exact absurd h (by simp)
  split at h
  · exact absurd h (by simp)
  · rename_i header hheader
    rw [Except.ok.injEq] at h
    subst h
    obtain ⟨htype, hdup, -, -⟩ := header_fields hheader
    rw [List.cons_append, List.length_cons, Mem.load_succ, List.cons.injEq] at hload
    obtain ⟨hfirst, hload⟩ := hload
    obtain ⟨hcodeAt, hidAt⟩ := Mem.load_append_iff.mp hload
    have hdec : mqttReadPacketRemLenFormBuf buf 1 = .ok (2, 1) :=
      readRemLen_varint (mqttWritePacketRemLen_varint 2) (by decide) hcodeAt
    have hid : mqttReadUint16 buf 2 = id := readUint16_written hidAt
    refine ⟨rfl, ?_⟩
    rw [← hfirst] at htype hdup
    unfold deserializeAckPacket
    rw [if_neg (by omega), hdec]
    dsimp only
    rw [htype, hdup, if_neg (by decide), if_neg (fun h => absurd h.1 (by decide)), hid]

/-! ## Both -/

/-- **What the writers write the readers read back**: a PUBLISH with all its parts, an
acknowledgement of any type with its packet id and the low bit of the DUP argument, which is the
one written. -/
theorem roundTrip (sz : WordSize) (bufLen : Nat) (d : UInt8) (id : UInt16) (bytes : Bytes)
    (buf : Mem) (hload : buf.load 0 bytes.length = bytes) :
    (∀ (q : QoS) (ret : UInt8) (topic body : Bytes), (d = 0 ∨ d = 1) → q.toNat ≤ 1 →
      (ret = 0 ∨ ret = 1) → topic.length ≤ maxSizeOfCloudTopic →
      2 + topic.length + q.idLen + body.length < 2 ^ 28 →
      serializePublishPacket bufLen d q ret id topic (some body) = .ok bytes →
      ∃ r, deserializePublishPacket sz buf bytes.length = .ok r ∧
        PublishRead buf d q ret id topic body r) ∧
    ∀ t : MessageTypes, serializePubAckPacket bufLen t d id = .ok bytes →
      bytes.length = 4 ∧ deserializeAckPacket buf 4 = .ok (t.code, d &&& 1, id) :=
  ⟨fun _ _ _ _ hd hq hr htopic hlen h => deserialize_written sz hd hq hr htopic hlen h hload,
    fun _ h => deserializeAck_written h hload⟩

/-- A QoS 1 PUBLISH on topic `ab` with the payload `x`. -/
theorem roundTrip_publish :
    ∃ r, deserializePublishPacket .w32 (Mem.ofBytes [0x33, 7, 0, 2, 97, 98, 1, 4, 120]) 9 = .ok r ∧
      PublishRead (Mem.ofBytes [0x33, 7, 0, 2, 97, 98, 1, 4, 120]) 0 .qos1 1 260 [97, 98] [120] r :=
  (roundTrip .w32 64 0 260 [0x33, 7, 0, 2, 97, 98, 1, 4, 120] _ (by decide)).1 .qos1 1 [97, 98]
    [120] (.inl rfl) (by decide) (.inr rfl) (by decide) (by decide) (by decide)

end QcloudIot.Mqtt
