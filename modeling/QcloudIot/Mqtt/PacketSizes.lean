import QcloudIot.Mqtt.TopicLists

/-!
# The size of a packet

Three places decide whether a packet fits the write buffer: `get_mqtt_packet_len` predicts its
length, `mqtt_write_packet_rem_len` writes the field the prediction is about, and
`send_mqtt_packet` tests the length that came out. `_serialize_connect_packet` is modelled here.

* `serialize_eq`: when a packet is written, and how long it is;
* `getMqttPacketLen_eq_iff`: where the prediction is right;
* **`sizesExact_iff`**: the three agree with the size of the packet, except at four remaining
  lengths and for a packet that fills the buffer.
-/

namespace QcloudIot.Mqtt

open Lib

/-! ## CONNECT -/

/-- The fields of `MQTTConnectParams` that the packet is made of. MQTT has two protocol levels, and
`STRING_PTR_SANITY_CHECK` lets no empty client id pass. -/
structure ConnectOptions where
  clientId : Bytes
  mqttVersion : UInt8
  keepAliveInterval : UInt16
  cleanSession : Bool
  deviceSecret : Option Bytes
  clientId_ne : clientId ≠ []
  version_eq : mqttVersion = 3 ∨ mqttVersion = 4

/-- What `_serialize_connect_packet` meets: the random connection id, `LONG_MAX` in digits, and, in
a build with `AUTH_WITH_NOTLS` and `AUTH_MODE_KEY`, `utils_hmac_sha1`. -/
structure ConnectContext where
  connId : Bytes
  longMax : Bytes
  hmacSha1 : Option (Bytes → Bytes → Bytes)

/-- `options->username`; `HAL_Snprintf` has room for the four parts, with six characters for the
connection id. -/
def ConnectOptions.username (o : ConnectOptions) (ctx : ConnectContext) : Bytes :=
  let usernameLen := o.clientId.length + (chars "21010406").length + 6 + ctx.longMax.length + 4
  (o.clientId ++ chars ";" ++ chars "21010406" ++ chars ";" ++ ctx.connId ++ chars ";" ++
    ctx.longMax).take (usernameLen - 1)

/-- `options->password`, in a buffer of 51 characters. -/
def ConnectOptions.password (o : ConnectOptions) (ctx : ConnectContext) : Option Bytes :=
  match ctx.hmacSha1, o.deviceSecret with
  | some hmac, some secret => some ((hmac (o.username ctx) secret ++ chars ";hmacsha1").take 50)
  | _, _ => none

/-- `_get_packet_connect_rem_len`, before the cast. -/
def getPacketConnectRemLen (o : ConnectOptions) (ctx : ConnectContext) : Nat :=
  (if o.mqttVersion = 3 then 12 else if o.mqttVersion = 4 then 10 else 0) +
    (o.clientId.length + 2) + ((o.username ctx).length + 2) +
    (match o.password ctx with
      | some password => password.length + 2
      | none => 0)

/-- `flags` in the variable header. -/
def connectFlags (o : ConnectOptions) (ctx : ConnectContext) : UInt8 :=
  (if o.cleanSession then 0x02 else 0) ||| 0x80 ||| (if ctx.hmacSha1.isSome then 0x40 else 0)

/-- `_serialize_connect_packet`, its two allocations made. -/
def serializeConnectPacket (bufLen : Nat) (o : ConnectOptions) (ctx : ConnectContext) :
    Except ReturnCode Bytes :=
  let remLen := UInt32.ofNat (getPacketConnectRemLen o ctx)
  if getMqttPacketLen remLen.toNat > bufLen then .error .errBufTooShort
  else
    match mqttInitPacketHeader .connect .qos0 0 0 with
    | .error rc => .error rc
    | .ok header =>
      .ok (header :: mqttWritePacketRemLen remLen ++
        (if o.mqttVersion = 4 then mqttWriteUtf8String (chars "MQTT") ++ [4]
          else mqttWriteUtf8String (chars "MQIsdp") ++ [3]) ++
        [connectFlags o ctx] ++ mqttWriteUint16 o.keepAliveInterval ++
        mqttWriteUtf8String o.clientId ++ mqttWriteUtf8String (o.username ctx) ++
        (match o.password ctx with
          | some password => mqttWriteUtf8String password
          | none => []))

/-! ## Packets -/

/-- The number of bytes of the shortest encoding of a remaining length. -/
def remLenBytes (n : Nat) : Nat :=
  if n < 128 then 1 else if n < 16384 then 2 else if n < 2097152 then 3 else 4

theorem remLenBytes_eq {bs : Bytes} {n : Nat} (h : Varint bs n) (hn : n < 2 ^ 28) :
    bs.length = remLenBytes n := by
  have hpos := h.length_pos
  have h1 : bs.length ≤ 1 ↔ n < 128 := h.length_le_iff (by decide)
  have h2 : bs.length ≤ 2 ↔ n < 16384 := h.length_le_iff (by decide)
  have h3 : bs.length ≤ 3 ↔ n < 2097152 := h.length_le_iff (by decide)
  have h4 : bs.length ≤ 4 := (h.length_le_iff (by decide)).mpr hn
  unfold remLenBytes
  split_ifs <;> omega

/-- The field that is written. -/
theorem written_length {n : Nat} (hn : n < 2 ^ 28) :
    (mqttWritePacketRemLen (UInt32.ofNat n)).length = remLenBytes n := by
  have hvarint := mqttWritePacketRemLen_varint (UInt32.ofNat n)
  rw [UInt32.toNat_ofNat', Nat.mod_eq_of_lt (by omega)] at hvarint
  exact remLenBytes_eq hvarint hn

/-- `get_mqtt_packet_len` predicts at most one byte too many. -/
theorem getMqttPacketLen_cases (n : Nat) : getMqttPacketLen n = 1 + remLenBytes n + n ∨
    getMqttPacketLen n = 2 + remLenBytes n + n := by
  unfold getMqttPacketLen remLenBytes
  dsimp only
  split_ifs <;> omega

/-- **Where the prediction is right.** -/
theorem getMqttPacketLen_eq_iff (n : Nat) : getMqttPacketLen n = 1 + remLenBytes n + n ↔
    n ∉ [127, 16383, 2097150, 2097151] := by
  simp only [List.mem_cons, List.not_mem_nil, or_false, not_or]
  unfold getMqttPacketLen remLenBytes
  dsimp only
  split_ifs <;> omega

/-- The content of a packet. A list of filters is given by what stands where the writers read
them. -/
inductive PacketContent where
  | publish (dup : UInt8) (qos : QoS) (retained : UInt8) (packetId : UInt16)
      (topicName payload : Bytes)
  | subscribe (dup : UInt8) (packetId : UInt16) (count : Nat) (strings : Nat → Bytes)
      (requestedQoSs : Nat → QoS)
  | unsubscribe (dup : UInt8) (packetId : UInt16) (count : Nat) (strings : Nat → Bytes)
  | connect (options : ConnectOptions) (ctx : ConnectContext)

namespace PacketContent

/-- What the writer of the packet returns. -/
def serialize (bufLen : Nat) : PacketContent → Except ReturnCode Bytes
  | publish dup qos retained packetId topicName payload =>
    serializePublishPacket bufLen dup qos retained packetId topicName (some payload)
  | subscribe dup packetId count strings requestedQoSs =>
    serializeFilters .subscribe (qosByte requestedQoSs) strings bufLen dup packetId count
  | unsubscribe dup packetId count strings =>
    serializeFilters .unsubscribe (fun _ => []) strings bufLen dup packetId count
  | connect options ctx => serializeConnectPacket bufLen options ctx

/-- The remaining length: the variable header and the payload. -/
def remainingLength : PacketContent → Nat
  | publish _ qos _ _ topicName payload =>
    2 + topicName.length + payload.length + if qos.toNat > 0 then 2 else 0
  | subscribe _ _ count strings requestedQoSs => filtersRemLen (qosByte requestedQoSs) strings count
  | unsubscribe _ _ count strings => filtersRemLen (fun _ => []) strings count
  | connect options ctx => getPacketConnectRemLen options ctx

/-- The length of the packet: the header byte, the shortest encoding of the remaining length, and so
many bytes. -/
def encodedLength (p : PacketContent) : Nat :=
  1 + remLenBytes p.remainingLength + p.remainingLength

variable {p : PacketContent} {bufLen : Nat} {bytes : Bytes}

theorem filters_length (extras strings : Nat → Bytes) (count : Nat) :
    2 + ((List.range count).flatMap fun i => mqttWriteUtf8String (strings i) ++ extras i).length =
      filtersRemLen extras strings count := by
  rw [filtersRemLen_eq]
  unfold writeEntries entriesOf
  rw [List.flatMap_map]

/-- The two writers of filter lists. -/
theorem serializeFilters_eq {type : MessageTypes} {extras strings : Nat → Bytes} {count : Nat}
    (htype : type ≠ .reserved) (dup : UInt8) (packetId : UInt16)
    (hrem : filtersRemLen extras strings count < 2 ^ 28) (bufLen : Nat) :
    ∃ bytes : Bytes, bytes.length = 1 + remLenBytes (filtersRemLen extras strings count) +
        filtersRemLen extras strings count ∧
      serializeFilters type extras strings bufLen dup packetId count =
        if getMqttPacketLen (filtersRemLen extras strings count) > bufLen then
          .error .errBufTooShort else .ok bytes := by
  have hnat : (UInt32.ofNat (filtersRemLen extras strings count)).toNat =
      filtersRemLen extras strings count := by
    rw [UInt32.toNat_ofNat', Nat.mod_eq_of_lt (by omega)]
  obtain ⟨header, hheader⟩ := header_ok htype .qos1 dup 0
  have hwritten := written_length hrem
  have hbody := filters_length extras strings count
  unfold serializeFilters
  dsimp only
  rw [hheader, hnat]
  refine ⟨_, ?_, rfl⟩
  simp only [List.length_append, List.length_cons, hwritten, mqttWriteUint16_length] at hbody ⊢
  omega

/-- The protocol name and level, the flags and the keep-alive interval. -/
theorem connect_length (o : ConnectOptions) :
    (if o.mqttVersion = 4 then mqttWriteUtf8String (chars "MQTT") ++ [4]
        else mqttWriteUtf8String (chars "MQIsdp") ++ [3]).length + 3 =
      if o.mqttVersion = 3 then 12 else if o.mqttVersion = 4 then 10 else 0 := by
  rcases o.version_eq with h | h <;> rw [h] <;> rfl

/-- **What a writer does**: it refuses what is predicted not to fit, and writes all of the rest. -/
theorem serialize_eq (p : PacketContent) (hrem : p.remainingLength < 2 ^ 28) (bufLen : Nat) :
    ∃ bytes, bytes.length = p.encodedLength ∧
      p.serialize bufLen = if getMqttPacketLen p.remainingLength > bufLen then .error .errBufTooShort
        else .ok bytes := by
  have hnat : (UInt32.ofNat p.remainingLength).toNat = p.remainingLength := by
    rw [UInt32.toNat_ofNat', Nat.mod_eq_of_lt (by omega)]
  have hwritten := written_length hrem
  unfold encodedLength
  cases p with
  | publish dup qos retained packetId topicName payload =>
    obtain ⟨header, hheader⟩ := header_ok (by decide : MessageTypes.publish ≠ .reserved) qos dup retained
    unfold serialize serializePublishPacket getPublishPacketLen
    unfold remainingLength at hnat hwritten ⊢
    dsimp only
    rw [hheader, hnat]
    refine ⟨_, ?_, rfl⟩
    simp only [List.length_append, List.length_cons, hwritten, mqttWriteUtf8String,
      mqttWriteUint16_length]
    split <;> simp only [mqttWriteUint16_length, List.length_nil] <;> omega
  | subscribe dup packetId count strings requestedQoSs =>
    exact serializeFilters_eq (by decide : MessageTypes.subscribe ≠ .reserved) dup packetId hrem bufLen
  | unsubscribe dup packetId count strings =>
    exact serializeFilters_eq (by decide : MessageTypes.unsubscribe ≠ .reserved) dup packetId hrem bufLen
  | connect options ctx =>
    obtain ⟨header, hheader⟩ := header_ok (by decide : MessageTypes.connect ≠ .reserved) .qos0 0 0
    have hfixed := connect_length options
    unfold serialize serializeConnectPacket
    unfold remainingLength at hnat hwritten ⊢
    dsimp only
    rw [hheader, hnat]
    refine ⟨_, ?_, rfl⟩
    simp only [List.length_append, List.length_cons, hwritten]
    unfold getPacketConnectRemLen
    rw [← hfixed]
    cases options.password ctx with
    | none =>
      simp only [mqttWriteUtf8String, mqttWriteUint16_length, List.length_append, List.length_nil]
      omega
    | some password =>
      simp only [mqttWriteUtf8String, mqttWriteUint16_length, List.length_append, List.length_nil]
      omega

end PacketContent

/-! ## The three checks -/

/-- `send_mqtt_packet` on a packet in the write buffer, with a network that takes it at once. -/
def Client.sends (c : Client) (packet : Bytes) : Prop :=
  (sendMqttPacket (c.write packet) packet.length
    ⟨false, [(.retSuccess, packet.length)], false⟩).1 = .retSuccess

theorem sends_iff (c : Client) {packet : Bytes} (hne : packet ≠ []) :
    c.sends packet ↔ packet.length < c.writeBufSize := by
  have hpos := List.length_pos_of_ne_nil hne
  unfold Client.sends
  rw [sendMqttPacket_ok_iff]
  unfold SendEnv.Delivers
  have hloop : sendLoop packet.length 0 [(.retSuccess, packet.length)] =
      (.retSuccess, packet.length) := by
    simp [sendLoop, hpos]
  have hend : sendEnd packet.length ⟨false, [(.retSuccess, packet.length)], false⟩
      (.retSuccess, packet.length) = .retSuccess := if_pos rfl
  dsimp only
  rw [hloop, hend]
  simp

/-- A packet is written and sent iff it is no longer than the write buffer, its length is predicted,
and what is written is sent. -/
structure SizesExact (c : Client) (p : PacketContent) : Prop where
  accepted : (∃ packet, p.serialize c.writeBufSize = .ok packet ∧ c.sends packet) ↔
    p.encodedLength ≤ c.writeBufSize
  predicted : getMqttPacketLen p.remainingLength = p.encodedLength
  sent : ∀ packet, p.serialize c.writeBufSize = .ok packet → c.sends packet

/-- **When the checks agree with the size of a packet**: its remaining length is none of 127, 16383,
2097150 and 2097151, and it does not fill the buffer. -/
theorem sizesExact_iff (c : Client) {p : PacketContent} (hrem : p.remainingLength ≤ 268435455) :
    SizesExact c p ↔ p.remainingLength ∉ [127, 16383, 2097150, 2097151] ∧
      p.encodedLength ≠ c.writeBufSize := by
  obtain ⟨packet, hlen, hserialize⟩ := p.serialize_eq (by omega) c.writeBufSize
  have hne : packet ≠ [] := by
    apply List.ne_nil_of_length_pos
    unfold PacketContent.encodedLength at hlen
    omega
  have hsends := sends_iff c hne
  rw [hlen] at hsends
  constructor
  · intro h
    refine ⟨(getMqttPacketLen_eq_iff _).mp h.predicted, fun heq => ?_⟩
    obtain ⟨packet', hok, hsent⟩ := h.accepted.mpr (Nat.le_of_eq heq)
    rw [hserialize] at hok
    split at hok
    · exact absurd hok (by simp)
    · obtain rfl := Except.ok.inj hok
      exact absurd (hsends.mp hsent) (by omega)
  · rintro ⟨hspecial, hfull⟩
    have hpredicted : getMqttPacketLen p.remainingLength = p.encodedLength :=
      (getMqttPacketLen_eq_iff _).mpr hspecial
    rw [hpredicted] at hserialize
    have hsent : ∀ packet', p.serialize c.writeBufSize = .ok packet' →
        p.encodedLength ≤ c.writeBufSize ∧ c.sends packet' := by
      intro packet' hok
      rw [hserialize] at hok
      split at hok
      · exact absurd hok (by simp)
      · obtain rfl := Except.ok.inj hok
        exact ⟨by omega, hsends.mpr (by omega)⟩
    refine ⟨⟨?_, fun hfits => ?_⟩, hpredicted, fun packet' hok => (hsent packet' hok).2⟩
    · rintro ⟨packet', hok, -⟩
      exact (hsent packet' hok).1
    · refine ⟨packet, ?_, hsends.mpr (by omega)⟩
      rw [hserialize, if_neg (by omega)]

/-- A QoS 0 publish on topic `t`. -/
def publishOnT (payload : Bytes) : PacketContent := .publish 0 .qos0 0 0 [116] payload

theorem sizesExact_hello :
    SizesExact (Client.init none 0 5000 ⟨240, true⟩) (publishOnT [104, 101, 108, 108, 111]) :=
  (sizesExact_iff _ (by decide)).mpr (by decide)

/-- A packet of 2048 bytes is written to the buffer of 2048 bytes and not sent. -/
theorem sizesExact_full :
    (publishOnT (List.replicate 2042 0)).encodedLength = mqttTxBufLen ∧
      ¬ SizesExact (Client.init none 0 5000 ⟨240, true⟩) (publishOnT (List.replicate 2042 0)) := by
  have hrem : (publishOnT (List.replicate 2042 0)).remainingLength = 2045 := by
    unfold publishOnT PacketContent.remainingLength
    dsimp only
    rw [List.length_replicate]
    rfl
  have hfull : (publishOnT (List.replicate 2042 0)).encodedLength = 2048 := by
    unfold PacketContent.encodedLength
    rw [hrem]
    rfl
  refine ⟨hfull, fun h => ?_⟩
  obtain ⟨packet, hlen, hserialize⟩ :=
    (publishOnT (List.replicate 2042 0)).serialize_eq (by rw [hrem]; decide) mqttTxBufLen
  rw [hrem, if_neg (by decide)] at hserialize
  have hsent := h.sent packet hserialize
  rw [sends_iff _ (List.ne_nil_of_length_pos (by rw [hlen, hfull]; decide)), hlen, hfull] at hsent
  exact absurd hsent (by decide)

end QcloudIot.Mqtt
