import Mathlib.Tactic.Common
import Mathlib.Tactic.Linarith
import Mathlib.Tactic.Ring

/-!
# MQTT bytes on the wire

The byte-level helpers of `mqtt_client_common.c` that every packet reader and writer uses: the
fixed header byte (`mqtt_init_packet_header` and the `MQTT_HEADER_*` masks), the remaining-length
field (`mqtt_write_packet_rem_len`, `_decode_packet_rem_len_from_buf_read`, `get_mqtt_packet_len`)
and the 16-bit integers (`mqtt_read_uint16_t`, `mqtt_write_uint_16`).

* A buffer that is **read** is a total function `Mem = ℕ → UInt8`: the bytes from the buffer's
  first one on, whatever they are. A read past the packet, or past the array, then returns a
  byte nobody promised anything about, as the C does.
* A buffer that is **written** is the list of bytes the writer put at its start.
* A pointer into a buffer is its offset from the buffer's first byte.

Result: `decodeRemLen_lt`: a decoded length is below `2^28` and takes one to four bytes, so the
`uint32_t` arithmetic of the decoder, written here in `ℕ`, never wraps.
-/

namespace QcloudIot.Mqtt

/-- The bytes from a buffer's first one on. -/
abbrev Mem := Nat → UInt8

/-- A run of bytes. -/
abbrev Bytes := List UInt8

/-- The bytes of a list, zero from its end on. -/
def Mem.ofBytes (bs : Bytes) : Mem := fun i => bs.getD i 0

/-- The codes of `IoT_Return_Code` (`qcloud_iot_export_error.h`) that the modelled functions
return, under their names without the `QCLOUD_` prefix. -/
inductive ReturnCode where
  | retMqttAlreadyConnected
  | retMqttConnackConnectionAccepted
  | retMqttManuallyDisconnected
  | retMqttReconnected
  | retSuccess
  | errFailure
  | errInval
  | errMalloc
  | errMqttPushToListFailed
  | errMqttNoConn
  | errMqttUnknown
  | errMqttAttemptingReconnect
  | errMqttReconnectTimeout
  | errMqttMaxSubscriptions
  | errMqttSub
  | errMqttNothingToRead
  | errMqttPacketRead
  | errMqttRequestTimeout
  | errMqttConnackUnknown
  | errMqttConnackUnacceptableProtocolVersion
  | errMqttConnackIdentifierRejected
  | errMqttConnackServerUnavailable
  | errMqttConnackBadUserdata
  | errMqttConnackNotAuthorized
  | errRxMessageInval
  | errBufTooShort
  | errMqttQosNotSupport
  | errMqttUnsubFail
  | errMaxTopicLength
  | errTcpReadTimeout
  | errTcpWriteTimeout
  | errTcpReadFail
  | errTcpWriteFail
  | errTcpPeerShutdown
  | errTcpNothingToRead
  | errTcpConnect
  | errSslConnect
  | errSslWriteTimeout
  | errSslWrite
  | errSslReadTimeout
  | errSslRead
  | errSslNothingToRead
  deriving DecidableEq, Repr

/-! ## Constants -/

/-- `QCLOUD_IOT_MQTT_TX_BUF_LEN`, the `write_buf_size` that `qcloud_iot_mqtt_init` sets. -/
def mqttTxBufLen : Nat := 2048

/-- `QCLOUD_IOT_MQTT_RX_BUF_LEN`, the `read_buf_size` that `qcloud_iot_mqtt_init` sets. -/
def mqttRxBufLen : Nat := 2048

/-- `MAX_NO_OF_REMAINING_LENGTH_BYTES`. -/
def maxNoOfRemainingLengthBytes : Nat := 4

/-- `MAX_SIZE_OF_CLOUD_TOPIC`: device name (48), product id (10), 64 and 6. -/
def maxSizeOfCloudTopic : Nat := 48 + 10 + 64 + 6

/-! ## The fixed header -/

/-- `MessageTypes`. -/
inductive MessageTypes where
  | reserved | connect | connack | publish | puback | pubrec | pubrel | pubcomp
  | subscribe | suback | unsubscribe | unsuback | pingreq | pingresp | disconnect
  deriving DecidableEq, Repr

/-- The enumerator's value. -/
def MessageTypes.code : MessageTypes → UInt8
  | .reserved => 0
  | .connect => 1
  | .connack => 2
  | .publish => 3
  | .puback => 4
  | .pubrec => 5
  | .pubrel => 6
  | .pubcomp => 7
  | .subscribe => 8
  | .suback => 9
  | .unsubscribe => 10
  | .unsuback => 11
  | .pingreq => 12
  | .pingresp => 13
  | .disconnect => 14

/-- `QoS`. The header has two bits for it, so a received header can also carry `qos3`, which is
no enumerator of the C type. -/
inductive QoS where
  | qos0 | qos1 | qos2 | qos3
  deriving DecidableEq, Repr

/-- The value as an integer. -/
def QoS.toNat : QoS → Nat
  | .qos0 => 0
  | .qos1 => 1
  | .qos2 => 2
  | .qos3 => 3

/-- `(QoS)n` for the two header bits. -/
def QoS.ofBits (b : UInt8) : QoS :=
  if b = 0 then .qos0 else if b = 1 then .qos1 else if b = 2 then .qos2 else .qos3

/-- The header bits `mqtt_init_packet_header` writes: `QOS0` for anything but 1 and 2. -/
def QoS.headerBits : QoS → UInt8
  | .qos1 => 1
  | .qos2 => 2
  | _ => 0

/-- `(header & MQTT_HEADER_TYPE_MASK) >> MQTT_HEADER_TYPE_SHIFT`. -/
def headerType (header : UInt8) : UInt8 := (header &&& 0xF0) >>> 4

/-- `(header & MQTT_HEADER_DUP_MASK) >> MQTT_HEADER_DUP_SHIFT`. -/
def headerDup (header : UInt8) : UInt8 := (header &&& 0x08) >>> 3

/-- `(QoS)((header & MQTT_HEADER_QOS_MASK) >> MQTT_HEADER_QOS_SHIFT)`. -/
def headerQos (header : UInt8) : QoS := QoS.ofBits ((header &&& 0x06) >>> 1)

/-- `header & MQTT_HEADER_RETAIN_MASK`. -/
def headerRetain (header : UInt8) : UInt8 := header &&& 0x01

/-- `mqtt_init_packet_header`. -/
def mqttInitPacketHeader (messageType : MessageTypes) (qos : QoS) (dup retained : UInt8) :
    Except ReturnCode UInt8 :=
  if messageType = .reserved then .error .errMqttUnknown
  else
    .ok (((messageType.code <<< 4) &&& (0xF0 : UInt8)) ||| ((dup <<< 3) &&& (0x08 : UInt8)) |||
      ((qos.headerBits <<< 1) &&& (0x06 : UInt8)) ||| (retained &&& (0x01 : UInt8)))

/-! ## 16-bit integers -/

/-- `mqtt_read_uint16_t` at offset `p`. -/
def mqttReadUint16 (buf : Mem) (p : Nat) : UInt16 :=
  (buf (p + 1)).toUInt16 + 256 * (buf p).toUInt16

/-- `mqtt_write_uint_16`. -/
def mqttWriteUint16 (n : UInt16) : Bytes := [(n / 256).toUInt8, (n % 256).toUInt8]

/-- `mqtt_write_utf8_string`: the length cut to 16 bits, then all the bytes. -/
def mqttWriteUtf8String (s : Bytes) : Bytes :=
  mqttWriteUint16 (UInt16.ofNat s.length) ++ s

/-! ## The remaining-length field -/

/-- The loop of `mqtt_write_packet_rem_len`; five rounds are enough for a `uint32_t`. -/
def writeRemLenLoop : Nat → Nat → Bytes
  | 0, _ => []
  | fuel + 1, length =>
    if length / 128 > 0 then
      UInt8.ofNat (length % 128 + 128) :: writeRemLenLoop fuel (length / 128)
    else [UInt8.ofNat (length % 128)]

/-- `mqtt_write_packet_rem_len`. -/
def mqttWritePacketRemLen (length : UInt32) : Bytes := writeRemLenLoop 5 length.toNat

/-- `get_mqtt_packet_len`. -/
def getMqttPacketLen (remLen : Nat) : Nat :=
  let remLen := remLen + 1
  if remLen < 128 then remLen + 1
  else if remLen < 16384 then remLen + 2
  else if remLen < 2097151 then remLen + 3
  else remLen + 4

/-- The loop of `_decode_packet_rem_len_from_buf_read`: `left` more bytes may be read, the next
one at `p`; `len` have been. Returns the value and the number of bytes read. -/
def decodeRemLenLoop (buf : Mem) :
    (left p multiplier value len : Nat) → Except ReturnCode (Nat × Nat)
  | 0, _, _, _, _ => .error .errMqttPacketRead
  | left + 1, p, multiplier, value, len =>
    let c := buf p
    let value := value + (c &&& 127).toNat * multiplier
    if c &&& (128 : UInt8) ≠ 0 then decodeRemLenLoop buf left (p + 1) (multiplier * 128) value (len + 1)
    else .ok (value, len + 1)

/-- `mqtt_read_packet_rem_len_form_buf` on the bytes from offset `p` on. -/
def mqttReadPacketRemLenFormBuf (buf : Mem) (p : Nat) : Except ReturnCode (Nat × Nat) :=
  decodeRemLenLoop buf maxNoOfRemainingLengthBytes p 1 0 0

/-! ### What a decoded length can be -/

theorem and_127_lt (c : UInt8) : (c &&& 127).toNat < 128 := by
  rw [UInt8.toNat_and]
  exact Nat.lt_of_le_of_lt Nat.and_le_right (by decide)

/-- With `left` bytes to go at weight `m`, the decoder adds at most `m · (128^left - 1)`. -/
theorem decodeRemLenLoop_le {buf : Mem} :
    ∀ {left p m v len n k : Nat}, decodeRemLenLoop buf left p m v len = .ok (n, k) →
      n + m ≤ v + m * 128 ^ left ∧ len < k ∧ k ≤ len + left := by
  intro left
  induction left with
  | zero => intro p m v len n k h; simp [decodeRemLenLoop] at h
  | succ left ih =>
    intro p m v len n k h
    have hc := and_127_lt (buf p)
    have hpow : 1 ≤ 128 ^ left := Nat.one_le_pow _ _ (by omega)
    have hcm : (buf p &&& 127).toNat * m + m ≤ 128 * m := by nlinarith
    simp only [decodeRemLenLoop] at h
    split at h
    · obtain ⟨hn, hlo, hhi⟩ := ih h
      refine ⟨?_, by omega, by omega⟩
      have e : m * 128 * 128 ^ left = m * 128 ^ (left + 1) := by rw [Nat.pow_succ]; ring
      rw [e] at hn
      omega
    · simp only [Except.ok.injEq, Prod.mk.injEq] at h
      obtain ⟨rfl, rfl⟩ := h
      refine ⟨?_, by omega, by omega⟩
      have hm : 128 * m ≤ m * 128 ^ (left + 1) := by rw [Nat.pow_succ]; nlinarith
      omega

/-- **A decoded length fits**: it is below `2^28` and took one to four bytes. -/
theorem decodeRemLen_lt {buf : Mem} {p n k : Nat}
    (h : mqttReadPacketRemLenFormBuf buf p = .ok (n, k)) : n < 2 ^ 28 ∧ 1 ≤ k ∧ k ≤ 4 := by
  obtain ⟨hn, hlo, hhi⟩ := decodeRemLenLoop_le h
  simp only [maxNoOfRemainingLengthBytes] at hn hhi
  omega

end QcloudIot.Mqtt
