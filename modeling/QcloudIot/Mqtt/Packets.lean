import QcloudIot.Mqtt.Wire

/-!
# Reading and writing the other packets

The readers and writers of `mqtt_client_common.c`, `mqtt_client_publish.c`,
`mqtt_client_subscribe.c`, `mqtt_client_unsubscribe.c` and `mqtt_client_connect.c` for the packets
a client exchanges besides an inbound PUBLISH. A reader takes the read buffer and its size, a
writer returns the bytes it puts at the start of the write buffer.
-/

namespace QcloudIot.Mqtt

/-! ## Acknowledgements -/

/-- `deserialize_ack_packet`: the packet type, the DUP flag and the packet id. -/
def deserializeAckPacket (buf : Mem) (bufLen : Nat) : Except ReturnCode (UInt8 × UInt8 × UInt16) :=
  if 4 > bufLen then .error .errBufTooShort
  else
    match mqttReadPacketRemLenFormBuf buf 1 with
    | .error rc => .error rc
    | .ok (decodedLen, readBytesLen) =>
      let curdata := 1 + readBytesLen
      let enddata := curdata + decodedLen
      if enddata - curdata < 2 then .error .errFailure
      else
        let packetId := mqttReadUint16 buf curdata
        let curdata := curdata + 2
        if enddata - curdata ≥ 1 ∧ buf curdata ≠ 0 then .error .errFailure
        else .ok (headerType (buf 0), headerDup (buf 0), packetId)

/-- The payload loop of `deserialize_suback_packet`: `left` bytes to `enddata`, `count` return
codes stored. -/
def readGrantedQoSs (buf : Mem) (maxCount : Nat) :
    (left curdata count : Nat) → Except ReturnCode (List UInt8)
  | 0, _, _ => .ok []
  | left + 1, curdata, count =>
    if count > maxCount then .error .errFailure
    else
      match readGrantedQoSs buf maxCount left (curdata + 1) (count + 1) with
      | .error rc => .error rc
      | .ok codes => .ok (buf curdata :: codes)

/-- `deserialize_suback_packet`: the packet id and the return codes. -/
def deserializeSubackPacket (maxCount : Nat) (buf : Mem) (bufLen : Nat) :
    Except ReturnCode (UInt16 × List UInt8) :=
  if 5 > bufLen then .error .errBufTooShort
  else if headerType (buf 0) ≠ MessageTypes.suback.code then .error .errFailure
  else
    match mqttReadPacketRemLenFormBuf buf 1 with
    | .error rc => .error rc
    | .ok (decodedLen, readBytesLen) =>
      let curdata := 1 + readBytesLen
      let enddata := curdata + decodedLen
      if enddata - curdata < 2 then .error .errFailure
      else
        let packetId := mqttReadUint16 buf curdata
        let curdata := curdata + 2
        match readGrantedQoSs buf maxCount (enddata - curdata) curdata 0 with
        | .error rc => .error rc
        | .ok codes => .ok (packetId, codes)

/-- `deserialize_unsuback_packet`. -/
def deserializeUnsubackPacket (buf : Mem) (bufLen : Nat) : Except ReturnCode UInt16 :=
  match deserializeAckPacket buf bufLen with
  | .error rc => .error rc
  | .ok (type, _, packetId) =>
    if MessageTypes.unsuback.code ≠ type then .error .errFailure else .ok packetId

/-- `_deserialize_connack_packet`: the session-present flag and the connection's return code. -/
def deserializeConnackPacket (buf : Mem) (bufLen : Nat) : Except ReturnCode (UInt8 × ReturnCode) :=
  if 4 > bufLen then .error .errBufTooShort
  else if MessageTypes.connack.code ≠ headerType (buf 0) then .error .errFailure
  else
    match mqttReadPacketRemLenFormBuf buf 1 with
    | .error rc => .error rc
    | .ok (decodedLen, readBytesLen) =>
      let curdata := 1 + readBytesLen
      let enddata := curdata + decodedLen
      if enddata - curdata ≠ 2 then .error .errFailure
      else
        let sessionPresent := buf curdata &&& (0x01 : UInt8)
        let connackRcChar := buf (curdata + 1)
        let connackRc :=
          if connackRcChar = 0 then .retMqttConnackConnectionAccepted
          else if connackRcChar = 1 then .errMqttConnackUnacceptableProtocolVersion
          else if connackRcChar = 2 then .errMqttConnackIdentifierRejected
          else if connackRcChar = 3 then .errMqttConnackServerUnavailable
          else if connackRcChar = 4 then .errMqttConnackBadUserdata
          else if connackRcChar = 5 then .errMqttConnackNotAuthorized
          else .errMqttConnackUnknown
        .ok (sessionPresent, connackRc)

/-! ## Packets without a payload -/

/-- `serialize_packet_with_zero_payload`. -/
def serializePacketWithZeroPayload (bufLen : Nat) (packetType : MessageTypes) :
    Except ReturnCode Bytes :=
  if 4 > bufLen then .error .errBufTooShort
  else
    match mqttInitPacketHeader packetType .qos0 0 0 with
    | .error rc => .error rc
    | .ok header => .ok (header :: mqttWritePacketRemLen 0)

/-- `serialize_pub_ack_packet`. -/
def serializePubAckPacket (bufLen : Nat) (packetType : MessageTypes) (dup : UInt8)
    (packetId : UInt16) : Except ReturnCode Bytes :=
  let requestQoS := if packetType = .pubrel then QoS.qos1 else .qos0
  if 4 > bufLen then .error .errBufTooShort
  else
    match mqttInitPacketHeader packetType requestQoS dup 0 with
    | .error rc => .error rc
    | .ok header => .ok (header :: mqttWritePacketRemLen 2 ++ mqttWriteUint16 packetId)

/-! ## Requests -/

/-- `_get_publish_packet_len`. -/
def getPublishPacketLen (qos : QoS) (topicName payload : Bytes) : UInt32 :=
  UInt32.ofNat (2 + topicName.length + payload.length + if qos.toNat > 0 then 2 else 0)

/-- `_serialize_publish_packet`; a `payload` of `none` is the NULL pointer. -/
def serializePublishPacket (bufLen : Nat) (dup : UInt8) (qos : QoS) (retained : UInt8)
    (packetId : UInt16) (topicName : Bytes) (payload : Option Bytes) : Except ReturnCode Bytes :=
  match payload with
  | none => .error .errInval
  | some payload =>
    let remLen := getPublishPacketLen qos topicName payload
    if getMqttPacketLen remLen.toNat > bufLen then .error .errBufTooShort
    else
      match mqttInitPacketHeader .publish qos dup retained with
      | .error rc => .error rc
      | .ok header =>
        .ok (header :: mqttWritePacketRemLen remLen ++ mqttWriteUtf8String topicName ++
          (if qos.toNat > 0 then mqttWriteUint16 packetId else []) ++ payload)

/-- `*topicFilters + i`: the first string from its `i`-th character on. -/
def filterAt (topicFilters : List Bytes) (i : Nat) : Bytes := (topicFilters.headD []).drop i

/-- `_get_subscribe_packet_rem_len`. -/
def getSubscribePacketRemLen (count : Nat) (topicFilters : List Bytes) : UInt32 :=
  UInt32.ofNat (2 + ((List.range count).map fun i => 2 + (filterAt topicFilters i).length + 1).sum)

/-- `_serialize_subscribe_packet`. -/
def serializeSubscribePacket (bufLen : Nat) (dup : UInt8) (packetId : UInt16) (count : Nat)
    (topicFilters : List Bytes) (requestedQoSs : List QoS) : Except ReturnCode Bytes :=
  let remLen := getSubscribePacketRemLen count topicFilters
  if getMqttPacketLen remLen.toNat > bufLen then .error .errBufTooShort
  else
    match mqttInitPacketHeader .subscribe .qos1 dup 0 with
    | .error rc => .error rc
    | .ok header =>
      .ok (header :: mqttWritePacketRemLen remLen ++ mqttWriteUint16 packetId ++
        (List.range count).flatMap fun i =>
          mqttWriteUtf8String (filterAt topicFilters i) ++
            [UInt8.ofNat (requestedQoSs.getD i .qos0).toNat])

/-- `_get_unsubscribe_packet_rem_len`. -/
def getUnsubscribePacketRemLen (count : Nat) (topicFilters : List Bytes) : UInt32 :=
  UInt32.ofNat (2 + ((List.range count).map fun i => 2 + (filterAt topicFilters i).length).sum)

/-- `_serialize_unsubscribe_packet`. -/
def serializeUnsubscribePacket (bufLen : Nat) (dup : UInt8) (packetId : UInt16) (count : Nat)
    (topicFilters : List Bytes) : Except ReturnCode Bytes :=
  let remLen := getUnsubscribePacketRemLen count topicFilters
  if getMqttPacketLen remLen.toNat > bufLen then .error .errBufTooShort
  else
    match mqttInitPacketHeader .unsubscribe .qos1 dup 0 with
    | .error rc => .error rc
    | .ok header =>
      .ok (header :: mqttWritePacketRemLen remLen ++ mqttWriteUint16 packetId ++
        (List.range count).flatMap fun i => mqttWriteUtf8String (filterAt topicFilters i))

/-- Only the reserved type has no header. -/
theorem header_ok {t : MessageTypes} (h : t ≠ .reserved) (qos : QoS) (dup retained : UInt8) :
    ∃ header, mqttInitPacketHeader t qos dup retained = .ok header := by
  unfold mqttInitPacketHeader
  rw [if_neg h]
  exact ⟨_, rfl⟩

end QcloudIot.Mqtt
