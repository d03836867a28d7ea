import QcloudIot.Mqtt.Wire

/-!
# Reading a PUBLISH packet

`deserialize_publish_packet` and `_read_string_with_len` (`mqtt_client_publish.c`). The four
lengths the peer chooses (remaining length, topic length, the packet id's two bytes, which are
there when QoS > 0, and through them the payload) are compared with the packet's end in one
place only, `_read_string_with_len`: it covers the topic. The packet id is read, and the payload
length subtracted, without a further comparison.

* `deserialize_ok_iff`: exactly when the reader succeeds and what it returns.
* `PublishContract`: everything returned lies inside the packet and the payload length is the
  plain difference; a packet shorter than its declared parts is rejected.
* **`publishContract_iff`**: the contract holds on a packet unless QoS > 0 and fewer than two
  bytes are left for the packet id after the topic (`IdCutOff`). There the reader succeeds, the id
  is read past the packet and the payload length wraps.
-/

namespace QcloudIot.Mqtt

/-- The width of the target's `size_t`. -/
inductive WordSize where
  | w32 | w64
  deriving DecidableEq, Repr

/-- The width in bits. -/
def WordSize.bits : WordSize → Nat
  | .w32 => 32
  | .w64 => 64

/-- `(size_t)d` of a pointer difference. -/
def WordSize.cast (sz : WordSize) (d : Int) : Nat := (d % (2 ^ sz.bits : Nat)).toNat

theorem WordSize.cast_of_nat (sz : WordSize) {n : Nat} (h : n < 2 ^ 28) :
    sz.cast (n : Int) = n := by
  have : n < 2 ^ sz.bits := by cases sz <;> simp only [bits] <;> omega
  unfold cast
  rw [← Int.natCast_mod, Nat.mod_eq_of_lt this, Int.toNat_natCast]

/-- What `deserialize_publish_packet` writes through its pointers. `topicName` and `payload` are
offsets into the buffer; `packetId` is `none` when the function does not write it (QoS 0). -/
structure PublishPacket where
  dup : UInt8
  qos : QoS
  retained : UInt8
  packetId : Option UInt16
  topicName : Nat
  topicNameLen : UInt16
  payload : Nat
  payloadLen : Nat
  deriving DecidableEq, Repr

/-- `_read_string_with_len` at offset `p` of a packet that ends at `enddata`: the string's length
and its first byte's offset. -/
def readStringWithLen (buf : Mem) (p enddata : Nat) : Except ReturnCode (UInt16 × Nat) :=
  if (enddata : Int) - p > 1 then
    let stringLen := mqttReadUint16 buf p
    if stringLen.toNat > mqttRxBufLen then .error .errFailure
    else if p + 2 + stringLen.toNat ≤ enddata then .ok (stringLen, p + 2)
    else .error .errFailure
  else .error .errFailure

/-- `deserialize_publish_packet`. -/
def deserializePublishPacket (sz : WordSize) (buf : Mem) (bufLen : Nat) :
    Except ReturnCode PublishPacket :=
  if 4 > bufLen then .error .errBufTooShort
  else
    let header := buf 0
    if headerType header ≠ MessageTypes.publish.code then .error .errFailure
    else
      match mqttReadPacketRemLenFormBuf buf 1 with
      | .error rc => .error rc
      | .ok (decodedLen, readBytesLen) =>
        let curdata := 1 + readBytesLen
        let enddata := curdata + decodedLen
        match readStringWithLen buf curdata enddata with
        | .error _ => .error .errFailure
        | .ok (topicNameLen, topicName) =>
          let curdata := topicName + topicNameLen.toNat
          if (enddata : Int) - curdata < 0 then .error .errFailure
          else
            let hasId := headerQos header ≠ .qos0
            let packetId := if hasId then some (mqttReadUint16 buf curdata) else none
            let curdata := if hasId then curdata + 2 else curdata
            .ok {
              dup := headerDup header
              qos := headerQos header
              retained := headerRetain header
              packetId := packetId
              topicName := topicName
              topicNameLen := topicNameLen
              payload := curdata
              payloadLen := sz.cast ((enddata : Int) - curdata) }

/-! ## When the reader succeeds -/

theorem readString_ok_iff {buf : Mem} {p n : Nat} {len : UInt16} {off : Nat} :
    readStringWithLen buf p (p + n) = .ok (len, off) ↔
      2 ≤ n ∧ len = mqttReadUint16 buf p ∧ off = p + 2 ∧ len.toNat ≤ mqttRxBufLen ∧
        2 + len.toNat ≤ n := by
  unfold readStringWithLen
  constructor
  · intro h
    split at h
    · rename_i hlt
      simp only at h
      split at h
      · exact absurd h (by simp)
      · rename_i hmax
        split at h
        · rename_i hle
          simp only [Except.ok.injEq, Prod.mk.injEq] at h
          obtain ⟨rfl, rfl⟩ := h
          exact ⟨by omega, rfl, rfl, by omega, by omega⟩
        · exact absurd h (by simp)
    · exact absurd h (by simp)
  · rintro ⟨hn, rfl, rfl, hmax, hle⟩
    rw [if_pos (by omega)]
    simp only
    rw [if_neg (by omega), if_pos (by omega)]

/-- The packet whose remaining-length field says `n` in `k` bytes, as the reader returns it. -/
def publishPacketAt (sz : WordSize) (buf : Mem) (n k : Nat) : PublishPacket :=
  let topicNameLen := mqttReadUint16 buf (1 + k)
  let topicEnd := 1 + k + 2 + topicNameLen.toNat
  let hasId := headerQos (buf 0) ≠ .qos0
  { dup := headerDup (buf 0)
    qos := headerQos (buf 0)
    retained := headerRetain (buf 0)
    packetId := if hasId then some (mqttReadUint16 buf topicEnd) else none
    topicName := 1 + k + 2
    topicNameLen := topicNameLen
    payload := if hasId then topicEnd + 2 else topicEnd
    payloadLen := sz.cast (((1 + k + n : Nat) : Int) -
      ((if hasId then topicEnd + 2 else topicEnd : Nat) : Int)) }

/-- **When the reader succeeds**: the buffer has four bytes, the header says PUBLISH, the
remaining length decodes, and the topic ends within the packet. The packet id is not compared
with anything. -/
theorem deserialize_ok_iff {sz : WordSize} {buf : Mem} {bufLen : Nat} {r : PublishPacket} :
    deserializePublishPacket sz buf bufLen = .ok r ↔
      4 ≤ bufLen ∧ headerType (buf 0) = MessageTypes.publish.code ∧
        ∃ n k, mqttReadPacketRemLenFormBuf buf 1 = .ok (n, k) ∧
          (mqttReadUint16 buf (1 + k)).toNat ≤ mqttRxBufLen ∧
          2 + (mqttReadUint16 buf (1 + k)).toNat ≤ n ∧ publishPacketAt sz buf n k = r := by
  unfold deserializePublishPacket
  constructor
  · intro h
    split at h
    · exact absurd h (by simp)
    · rename_i hlen
      simp only at h
      split at h
      · exact absurd h (by simp)
      · rename_i htype
        split at h
        · exact absurd h (by simp)
        · rename_i n k hdec
          split at h
          · exact absurd h (by simp)
          · rename_i len off hstr
            obtain ⟨hn, rfl, rfl, hmax, hle⟩ := readString_ok_iff.mp hstr
            rw [if_neg (by push_cast; omega), Except.ok.injEq] at h
            exact ⟨by omega, not_not.mp htype, n, k, hdec, hmax, hle, h⟩
  · rintro ⟨hlen, htype, n, k, hdec, hmax, hle, rfl⟩
    rw [if_neg (by omega)]
    simp only [htype, ne_eq, not_true_eq_false, if_false, hdec,
      readString_ok_iff.mpr ⟨(by omega : 2 ≤ n), rfl, rfl, hmax, hle⟩]
    rw [if_neg (by push_cast; omega)]
    rfl

/-! ## What the reader promises -/

/-- Bytes a declared packet id takes. -/
def QoS.idLen (q : QoS) : Nat := if q = .qos0 then 0 else 2

/-- The parts the header and the topic length field declare: the length field, the topic and the
packet id. -/
def declaredLen (buf : Mem) (k : Nat) : Nat :=
  2 + (mqttReadUint16 buf (1 + k)).toNat + (headerQos (buf 0)).idLen

/-- The parts `r` reports lie inside the packet (which ends at offset `1 + k + n`), one after the
other, and the payload length is the plain difference. -/
structure PublishInside (buf : Mem) (n k : Nat) (r : PublishPacket) : Prop where
  topic : r.topicName + r.topicNameLen.toNat ≤ 1 + k + n
  packetId : r.packetId ≠ none → r.topicName + r.topicNameLen.toNat + 2 ≤ 1 + k + n
  payload : r.payload + r.payloadLen ≤ 1 + k + n
  payloadLen : (r.payloadLen : Int) = (n : Int) - 2 - r.topicNameLen.toNat - r.qos.idLen

/-- The reader's contract on a packet of total size `1 + k + n`: what it accepts lies inside, and
a packet shorter than its declared parts is rejected. -/
def PublishContract (sz : WordSize) (buf : Mem) (bufLen : Nat) : Prop :=
  ∀ n k, mqttReadPacketRemLenFormBuf buf 1 = .ok (n, k) → 1 + k + n ≤ bufLen →
    (∀ r, deserializePublishPacket sz buf bufLen = .ok r → PublishInside buf n k r) ∧
    (n < 2 ∨ n < declaredLen buf k → ∃ rc, deserializePublishPacket sz buf bufLen = .error rc)

/-- A PUBLISH with QoS > 0 whose topic fits but leaves fewer than two bytes for the packet id. -/
def IdCutOff (buf : Mem) (bufLen : Nat) : Prop :=
  headerType (buf 0) = MessageTypes.publish.code ∧ headerQos (buf 0) ≠ .qos0 ∧
    ∃ n k, mqttReadPacketRemLenFormBuf buf 1 = .ok (n, k) ∧ 1 + k + n ≤ bufLen ∧
      (mqttReadUint16 buf (1 + k)).toNat ≤ mqttRxBufLen ∧
      2 + (mqttReadUint16 buf (1 + k)).toNat ≤ n ∧ n < declaredLen buf k

/-- With the id's bytes there, the payload length is the plain difference. -/
theorem publishPacketAt_inside {sz : WordSize} {buf : Mem} {n k : Nat} (hn : n < 2 ^ 28)
    (hle : declaredLen buf k ≤ n) : PublishInside buf n k (publishPacketAt sz buf n k) := by
  have hlen : ∀ q, headerQos (buf 0) = q → (publishPacketAt sz buf n k).payloadLen =
      n - (2 + (mqttReadUint16 buf (1 + k)).toNat + q.idLen) ∧
      (publishPacketAt sz buf n k).payload =
        1 + k + 2 + (mqttReadUint16 buf (1 + k)).toNat + q.idLen := by
    rintro q rfl
    unfold declaredLen at hle
    by_cases hq : headerQos (buf 0) = .qos0
    · simp only [publishPacketAt, QoS.idLen, hq, ne_eq, not_true_eq_false, if_false, if_true] at *
      refine ⟨?_, rfl⟩
      rw [← WordSize.cast_of_nat sz (n := n - _) (by omega)]
      congr 1
      omega
    · simp only [publishPacketAt, QoS.idLen, hq, ne_eq, not_false_eq_true, if_false, if_true] at *
      refine ⟨?_, trivial⟩
      rw [← WordSize.cast_of_nat sz (n := n - _) (by omega)]
      congr 1
      omega
  obtain ⟨hpl, hp⟩ := hlen _ rfl
  unfold declaredLen at hle
  have hid : (publishPacketAt sz buf n k).packetId ≠ none → (headerQos (buf 0)).idLen = 2 := by
    intro h
    by_cases hq : headerQos (buf 0) = .qos0
    · exact absurd (by simp [publishPacketAt, hq]) h
    · simp [QoS.idLen, hq]
  refine ⟨?_, fun h => ?_, ?_, ?_⟩
  · show 1 + k + 2 + (mqttReadUint16 buf (1 + k)).toNat ≤ 1 + k + n
    omega
  · show 1 + k + 2 + (mqttReadUint16 buf (1 + k)).toNat + 2 ≤ 1 + k + n
    have := hid h
    omega
  · rw [hpl, hp]
    omega
  · rw [hpl]
    show ((n - _ : Nat) : Int) =
      (n : Int) - 2 - (mqttReadUint16 buf (1 + k)).toNat - (headerQos (buf 0)).idLen
    omega

/-- **The reader's contract holds except where the packet id is cut off**: for every buffer and
every length, what `deserialize_publish_packet` accepts lies inside the packet, its payload length
does not wrap, and too short a packet is rejected, iff it is not a QoS > 0 PUBLISH with fewer than
two bytes left after its topic. -/
theorem publishContract_iff (sz : WordSize) (buf : Mem) (bufLen : Nat) :
    PublishContract sz buf bufLen ↔ ¬ IdCutOff buf bufLen := by
  constructor
  · rintro hc ⟨htype, hq, n, k, hdec, hfit, hmax, hle, hcut⟩
    -- the reader accepts the packet, so its second promise fails
    obtain ⟨rc, hrc⟩ := (hc n k hdec hfit).2 (Or.inr hcut)
    have hk := decodeRemLen_lt hdec
    have hok : deserializePublishPacket sz buf bufLen = .ok (publishPacketAt sz buf n k) :=
      deserialize_ok_iff.mpr ⟨by omega, htype, n, k, hdec, hmax, hle, rfl⟩
    rw [hok] at hrc
    exact absurd hrc (by simp)
  · intro hcut n k hdec hfit
    have hk := decodeRemLen_lt hdec
    have hacc : ∀ r, deserializePublishPacket sz buf bufLen = .ok r →
        r = publishPacketAt sz buf n k ∧ 2 ≤ n ∧ declaredLen buf k ≤ n := by
      intro r hr
      obtain ⟨-, htype, n', k', hdec', hmax, hle, rfl⟩ := deserialize_ok_iff.mp hr
      rw [hdec, Except.ok.injEq, Prod.mk.injEq] at hdec'
      obtain ⟨rfl, rfl⟩ := hdec'
      refine ⟨rfl, by omega, ?_⟩
      by_contra hlt
      by_cases hq : headerQos (buf 0) = .qos0
      · simp only [declaredLen, QoS.idLen, hq, if_true] at hlt
        omega
      · exact hcut ⟨htype, hq, n, k, hdec, hfit, hmax, hle, by omega⟩
    refine ⟨fun r hr => ?_, fun hshort => ?_⟩
    · obtain ⟨rfl, -, hle⟩ := hacc r hr
      exact publishPacketAt_inside hk.1 hle
    · cases hr : deserializePublishPacket sz buf bufLen with
      | error rc => exact ⟨rc, rfl⟩
      | ok r =>
        obtain ⟨-, h2, hle⟩ := hacc r hr
        omega

/-- A QoS 1 PUBLISH on topic `ab` that ends right after the topic. -/
def cutOffPacket : Bytes := [0x32, 0x04, 0x00, 0x02, 0x61, 0x62]

/-- The packet's six bytes fill its buffer, and the reader returns a payload of `2^32 - 2` bytes
after a packet id read past the end. -/
theorem publishContract_fails_on_cutOffPacket :
    ¬ PublishContract .w32 (Mem.ofBytes cutOffPacket) 6 ∧
      (deserializePublishPacket .w32 (Mem.ofBytes cutOffPacket) 6).map (·.payloadLen) =
        .ok (2 ^ 32 - 2) := by
  have hlen : (deserializePublishPacket .w32 (Mem.ofBytes cutOffPacket) 6).map (·.payloadLen) =
      .ok (2 ^ 32 - 2) := by decide
  refine ⟨fun hc => ?_, hlen⟩
  obtain ⟨rc, hrc⟩ := (hc 4 1 (by decide) (by decide)).2 (Or.inr (by decide))
  rw [hrc] at hlen
  exact absurd hlen (by simp [Except.map])

end QcloudIot.Mqtt
