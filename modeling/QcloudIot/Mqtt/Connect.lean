import QcloudIot.Mqtt.PacketSizes

/-!
# The CONNECT packet

`_serialize_connect_packet` (`mqtt_client_connect.c`) against a reader of CONNECT packets by the
MQTT 3.1 and 3.1.1 rules: which fields follow the client id is said by the flags, and the packet ends
with the last of them. The user name is built from the client id, the application's number, a random
connection id (`get_next_conn_id`) and a time, and the password is its signature with the device
secret.

Results:
* `readString_written`, `readConnectBody_written`: what is written is read back, field by field;
* `username_whole`: the buffer of the user name holds all its parts;
* **`connect_wellFormed`**: a CONNECT packet that is written is well formed and reads back as the
  options it was made of;
* `connect_noSecret`: where there is no secret to sign with, the flags announce a password that is
  not there.
-/

namespace QcloudIot.Mqtt

open Lib

/-! ## What the code makes the fields of -/

/-- `MAX_SIZE_OF_CLIENT_ID`. -/
def maxSizeOfClientId : Nat := 80

/-- `MAX_CONN_ID_LEN`. -/
def maxConnIdLen : Nat := 6

/-- A character of the connection id, from two results of `rand`. -/
def connIdChar (flag r : Nat) : UInt8 :=
  if flag % 3 = 0 then UInt8.ofNat (r % 26 + 97)
  else if flag % 3 = 1 then UInt8.ofNat (r % 26 + 65)
  else UInt8.ofNat (r % 10 + 48)

/-- `get_next_conn_id`. -/
def getNextConnId (rand : Nat → Nat) : Bytes :=
  (List.range (maxConnIdLen - 1)).map fun i => connIdChar (rand (2 * i)) (rand (2 * i + 1))

/-- A positive number as `%ld` prints it. -/
def decimal (n : Nat) : Bytes := (Nat.toDigits 10 n).map fun c => UInt8.ofNat c.toNat

/-- What a connection attempt meets: the random numbers, the time in the user name and the
signature. -/
def ConnectContext.drawn (rand : Nat → Nat) (timesec : Nat)
    (hmacSha1 : Option (Bytes → Bytes → Bytes)) :
    ConnectContext :=
  ⟨getNextConnId rand, decimal timesec, hmacSha1⟩

/-! ## Reading a CONNECT packet -/

/-- The fields of a CONNECT packet. -/
structure ConnectPacket where
  protocolName : Bytes
  protocolLevel : UInt8
  flags : UInt8
  keepAlive : UInt16
  clientId : Bytes
  willTopic : Option Bytes
  willMessage : Option Bytes
  userName : Option Bytes
  password : Option Bytes
  deriving DecidableEq

/-- A string with its length in front, and what follows it. -/
def readString : Bytes → Option (Bytes × Bytes)
  | hi :: lo :: rest =>
    let n := 256 * hi.toNat + lo.toNat
    if n ≤ rest.length then some (rest.take n, rest.drop n) else none
  | _ => none

/-- A string that a flag announces. -/
def readWhen (announced : Bool) (bs : Bytes) : Option (Option Bytes × Bytes) :=
  if announced then (readString bs).map fun r => (some r.1, r.2) else some (none, bs)

/-- The protocol names and their levels. -/
def isProtocol (name : Bytes) (level : UInt8) : Bool :=
  (name == chars "MQTT" && level == 4) || (name == chars "MQIsdp" && level == 3)

/-- The flags are consistent: the lowest bit is reserved, there is no QoS 3, QoS and retain go with a
will, and a password goes with a user name. -/
def flagsConsistent (flags : UInt8) : Bool :=
  flags &&& 0x01 == 0 && flags &&& 0x18 != 0x18 &&
    (flags &&& 0x04 != 0 || flags &&& 0x38 == 0) && (flags &&& 0x80 != 0 || flags &&& 0x40 == 0)

/-- The payload: the strings that the flags announce, and nothing behind them. -/
def readConnectPayload (name : Bytes) (level flags : UInt8) (keepAlive : UInt16) (bs : Bytes) :
    Option ConnectPacket :=
  (readString bs).bind fun clientId =>
  (readWhen (flags &&& 0x04 != 0) clientId.2).bind fun willTopic =>
  (readWhen (flags &&& 0x04 != 0) willTopic.2).bind fun willMessage =>
  (readWhen (flags &&& 0x80 != 0) willMessage.2).bind fun userName =>
  (readWhen (flags &&& 0x40 != 0) userName.2).bind fun password =>
    if password.2 = [] then
      some ⟨name, level, flags, keepAlive, clientId.1, willTopic.1, willMessage.1, userName.1,
        password.1⟩
    else none

/-- The variable header and the payload. -/
def readConnectBody (bs : Bytes) : Option ConnectPacket :=
  (readString bs).bind fun name =>
    match name.2 with
    | level :: flags :: hi :: lo :: rest =>
      if isProtocol name.1 level && flagsConsistent flags then
        readConnectPayload name.1 level flags (lo.toUInt16 + 256 * hi.toUInt16) rest
      else none
    | _ => none

/-- A CONNECT packet whose remaining length is the number of bytes behind it. -/
def readConnect (packet : Bytes) : Option ConnectPacket :=
  match mqttReadPacketRemLenFormBuf (Mem.ofBytes packet) 1 with
  | .error _ => none
  | .ok (remLen, readBytesLen) =>
    if packet.headD 0 = 0x10 ∧ packet.length = 1 + readBytesLen + remLen then
      readConnectBody (packet.drop (1 + readBytesLen))
    else none

/-- The protocol name of a version. -/
def protocolName (mqttVersion : UInt8) : Bytes :=
  if mqttVersion = 4 then chars "MQTT" else chars "MQIsdp"

/-- The fields that the options ask for. -/
def ConnectOptions.fields (o : ConnectOptions) (ctx : ConnectContext) : ConnectPacket where
  protocolName := protocolName o.mqttVersion
  protocolLevel := o.mqttVersion
  flags := connectFlags o ctx
  keepAlive := o.keepAliveInterval
  clientId := o.clientId
  willTopic := none
  willMessage := none
  userName := some (o.clientId ++ chars ";" ++ chars "21010406" ++ chars ";" ++ ctx.connId ++
    chars ";" ++ ctx.longMax)
  password := o.password ctx

/-- A CONNECT packet of these options is well formed: its remaining length counts the bytes behind
it, the flags announce what is there, and it reads back as the options. -/
structure ConnectWellFormed (o : ConnectOptions) (ctx : ConnectContext) (packet : Bytes) : Prop where
  remLen : ∃ n k, mqttReadPacketRemLenFormBuf (Mem.ofBytes packet) 1 = .ok (n, k) ∧
    packet.length = 1 + k + n
  cleanSession : connectFlags o ctx &&& 0x02 ≠ 0 ↔ o.cleanSession = true
  noWill : connectFlags o ctx &&& 0x3C = 0
  userName : connectFlags o ctx &&& 0x80 ≠ 0
  password : connectFlags o ctx &&& 0x40 ≠ 0 ↔ (o.password ctx).isSome = true
  read : readConnect packet = some (o.fields ctx)

/-! ## What is written is read back -/

theorem readString_written {s : Bytes} (h : s.length < 65536) (rest : Bytes) :
    readString (mqttWriteUtf8String s ++ rest) = some (s, rest) := by
  have hlen : 256 * (UInt16.ofNat s.length / 256).toUInt8.toNat +
      (UInt16.ofNat s.length % 256).toUInt8.toNat = s.length := by
    simp
    omega
  have hsplit : mqttWriteUtf8String s ++ rest = (UInt16.ofNat s.length / 256).toUInt8 ::
      (UInt16.ofNat s.length % 256).toUInt8 :: (s ++ rest) := by
    simp [mqttWriteUtf8String, mqttWriteUint16]
  rw [hsplit, readString, hlen, if_pos (by simp), List.take_left, List.drop_left]

/-- A string that is there or not, as its flag says. -/
theorem readWhen_written {s : Option Bytes} (h : ∀ t ∈ s, t.length < 65536) (rest : Bytes) :
    readWhen s.isSome (s.elim [] mqttWriteUtf8String ++ rest) = some (s, rest) := by
  cases s with
  | none => rfl
  | some t =>
    have hread := readString_written (h t rfl) rest
    simp only [readWhen, Option.isSome_some, if_true, Option.elim_some, hread]
    rfl

theorem uint16_written (n : UInt16) :
    (n % 256).toUInt8.toUInt16 + 256 * (n / 256).toUInt8.toUInt16 = n := by
  have hlt := n.toNat_lt
  apply UInt16.toNat_inj.mp
  simp
  omega

/-- The variable header is read, and the payload left. -/
theorem readConnectBody_written {name : Bytes} {level flags : UInt8}
    (hprotocol : isProtocol name level = true) (hflags : flagsConsistent flags = true)
    (keepAlive : UInt16) (rest : Bytes) :
    readConnectBody (mqttWriteUtf8String name ++
        ([level] ++ ([flags] ++ (mqttWriteUint16 keepAlive ++ rest)))) =
      readConnectPayload name level flags keepAlive rest := by
  have hname : name.length < 65536 := by
    unfold isProtocol at hprotocol
    simp only [Bool.or_eq_true, Bool.and_eq_true, beq_iff_eq] at hprotocol
    rcases hprotocol with ⟨rfl, -⟩ | ⟨rfl, -⟩ <;> decide
  rw [readConnectBody, readString_written hname]
  simp only [Option.bind_some, mqttWriteUint16, List.cons_append, List.nil_append, hprotocol, hflags,
    Bool.and_self, if_true, uint16_written]

section Fields

variable {o : ConnectOptions} {ctx : ConnectContext}

/-- The build has no password, or there is a secret to make it with. -/
def SecretPresent (o : ConnectOptions) (ctx : ConnectContext) : Prop :=
  ctx.hmacSha1.isSome = true → o.deviceSecret.isSome = true

theorem connectFlags_consistent : flagsConsistent (connectFlags o ctx) = true := by
  unfold connectFlags
  cases o.cleanSession <;> cases ctx.hmacSha1.isSome <;> decide

/-- The flags, bit by bit. -/
theorem connectFlags_bits : (connectFlags o ctx &&& 0x02 != 0) = o.cleanSession ∧
    connectFlags o ctx &&& 0x3C = 0 ∧ (connectFlags o ctx &&& 0x04 != 0) = false ∧
    (connectFlags o ctx &&& 0x80 != 0) = true ∧
    (connectFlags o ctx &&& 0x40 != 0) = ctx.hmacSha1.isSome := by
  unfold connectFlags
  cases o.cleanSession <;> cases ctx.hmacSha1.isSome <;> decide

/-- A build that signs has a password iff there is a secret. -/
theorem password_isSome (hsecret : SecretPresent o ctx) :
    (o.password ctx).isSome = ctx.hmacSha1.isSome := by
  unfold SecretPresent at hsecret
  unfold ConnectOptions.password
  cases hmac : ctx.hmacSha1 with
  | none => rfl
  | some f =>
    rw [hmac] at hsecret
    obtain ⟨secret, hs⟩ := Option.isSome_iff_exists.mp (hsecret rfl)
    rw [hs]
    rfl

/-- The parts of the user name fit into its buffer. -/
theorem username_whole (hconn : ctx.connId.length < maxConnIdLen) :
    o.username ctx = o.clientId ++ chars ";" ++ chars "21010406" ++ chars ";" ++ ctx.connId ++
      chars ";" ++ ctx.longMax := by
  have happid : (chars "21010406").length = 8 := rfl
  have hsep : (chars ";").length = 1 := rfl
  unfold maxConnIdLen at hconn
  unfold ConnectOptions.username
  refine List.take_of_length_le ?_
  simp only [List.length_append, happid, hsep]
  omega

theorem password_length {password : Bytes} (h : o.password ctx = some password) :
    password.length ≤ 50 := by
  unfold ConnectOptions.password at h
  split at h
  · obtain rfl := Option.some.inj h
    exact List.length_take_le _ _
  · exact absurd h (by simp)

/-- The strings of the packet, each with its length in two bytes. -/
structure FieldsFit (o : ConnectOptions) (ctx : ConnectContext) : Prop where
  clientId : o.clientId.length ≤ maxSizeOfClientId
  connId : ctx.connId.length < maxConnIdLen
  timesec : ctx.longMax.length ≤ 20

theorem FieldsFit.username_length (h : FieldsFit o ctx) : (o.username ctx).length ≤ 200 := by
  have hid := h.clientId
  have hconn := h.connId
  have htime := h.timesec
  have happid : (chars "21010406").length = 8 := rfl
  have hsep : (chars ";").length = 1 := rfl
  unfold maxSizeOfClientId at hid
  unfold maxConnIdLen at hconn
  rw [username_whole hconn]
  simp only [List.length_append, happid, hsep]
  omega

theorem FieldsFit.remLen_lt (h : FieldsFit o ctx) : getPacketConnectRemLen o ctx < 2 ^ 28 := by
  have hid := h.clientId
  have huser := h.username_length
  unfold maxSizeOfClientId at hid
  have hfixed : (if o.mqttVersion = 3 then 12 else if o.mqttVersion = 4 then 10 else 0) ≤ 12 := by
    split_ifs <;> decide
  unfold getPacketConnectRemLen
  generalize (if o.mqttVersion = 3 then 12 else if o.mqttVersion = 4 then 10 else 0) = fixed at hfixed ⊢
  split
  · rename_i password hp
    have hlen := password_length hp
    change fixed + (o.clientId.length + 2) + ((o.username ctx).length + 2) +
      (password.length + 2) < 2 ^ 28
    omega
  · omega

/-- The payload as it is written. -/
def connectPayload (o : ConnectOptions) (ctx : ConnectContext) : Bytes :=
  mqttWriteUtf8String o.clientId ++ (mqttWriteUtf8String (o.username ctx) ++
    (o.password ctx).elim [] mqttWriteUtf8String)

/-- The strings that are always there. -/
theorem readConnectPayload_eq (h : FieldsFit o ctx) (name : Bytes) (level : UInt8) :
    readConnectPayload name level (connectFlags o ctx) o.keepAliveInterval (connectPayload o ctx) =
      (readWhen ctx.hmacSha1.isSome ((o.password ctx).elim [] mqttWriteUtf8String)).bind fun password =>
        if password.2 = [] then
          some ⟨name, level, connectFlags o ctx, o.keepAliveInterval, o.clientId, none, none,
            some (o.username ctx), password.1⟩
        else none := by
  obtain ⟨-, -, hwill, huser, hpassword⟩ := @connectFlags_bits o ctx
  have hid := h.clientId
  have hname := h.username_length
  unfold maxSizeOfClientId at hid
  unfold readConnectPayload connectPayload
  rw [readString_written (by omega), hwill, huser, hpassword]
  simp only [Option.bind_some, readWhen, Bool.false_eq_true, if_false, if_true]
  rw [readString_written (by omega)]
  simp only [Option.map_some, Option.bind_some]

/-- **The payload is read back.** -/
theorem readConnectPayload_written (h : FieldsFit o ctx) (hsecret : SecretPresent o ctx)
    (name : Bytes) (level : UInt8) :
    readConnectPayload name level (connectFlags o ctx) o.keepAliveInterval (connectPayload o ctx) =
      some ⟨name, level, connectFlags o ctx, o.keepAliveInterval, o.clientId, none, none,
        some (o.username ctx), o.password ctx⟩ := by
  have hlast := readWhen_written (s := o.password ctx)
    (fun p hp => Nat.lt_of_le_of_lt (password_length hp) (by decide)) []
  rw [List.append_nil, password_isSome hsecret] at hlast
  rw [readConnectPayload_eq h, hlast]
  simp only [Option.bind_some, if_true]

/-- The variable header and the payload. -/
def connectBody (o : ConnectOptions) (ctx : ConnectContext) : Bytes :=
  mqttWriteUtf8String (protocolName o.mqttVersion) ++ ([o.mqttVersion] ++ ([connectFlags o ctx] ++
    (mqttWriteUint16 o.keepAliveInterval ++ connectPayload o ctx)))

/-- The length is computed as the fields are written. -/
theorem length_connectBody : (connectBody o ctx).length = getPacketConnectRemLen o ctx := by
  have hutf8 : ∀ s : Bytes, (mqttWriteUtf8String s).length = s.length + 2 := fun s => by
    rw [mqttWriteUtf8String, List.length_append, mqttWriteUint16_length, Nat.add_comm]
  have hname : (protocolName o.mqttVersion).length + 6 =
      if o.mqttVersion = 3 then 12 else if o.mqttVersion = 4 then 10 else 0 := by
    rcases o.version_eq with hv | hv
    · rw [hv]
      rfl
    · rw [hv]
      rfl
  unfold connectBody connectPayload getPacketConnectRemLen
  rw [← hname]
  simp only [List.length_append, List.length_singleton, hutf8, mqttWriteUint16_length]
  cases o.password ctx with
  | none =>
    simp only [Option.elim_none, List.length_nil]
    omega
  | some password =>
    simp only [Option.elim_some, hutf8]
    omega

/-- **What is written**: a header byte, the remaining length and as many bytes. -/
theorem serializeConnectPacket_ok {bufLen : Nat} {packet : Bytes}
    (hok : serializeConnectPacket bufLen o ctx = .ok packet) :
    packet = 0x10 :: (mqttWritePacketRemLen (UInt32.ofNat (getPacketConnectRemLen o ctx)) ++
      connectBody o ctx) := by
  have hheader : mqttInitPacketHeader .connect .qos0 0 0 = .ok 0x10 := rfl
  have hprotocol : (if o.mqttVersion = 4 then mqttWriteUtf8String (chars "MQTT") ++ [4]
      else mqttWriteUtf8String (chars "MQIsdp") ++ [3]) =
        mqttWriteUtf8String (protocolName o.mqttVersion) ++ [o.mqttVersion] := by
    rcases o.version_eq with hv | hv
    · rw [hv]
      rfl
    · rw [hv]
      rfl
  unfold serializeConnectPacket at hok
  dsimp only at hok
  rw [hheader] at hok
  split at hok
  · exact absurd hok (by simp)
  · obtain rfl := Except.ok.inj hok
    rw [hprotocol]
    unfold connectBody connectPayload
    cases o.password ctx <;> simp only [Option.elim_none, Option.elim_some, List.cons_append,
      List.append_assoc]

end Fields

variable {bufLen : Nat} {o : ConnectOptions} {packet : Bytes}

/-- The packet is read up to its payload. -/
theorem readConnect_serialized {ctx : ConnectContext} (h : FieldsFit o ctx)
    (hok : serializeConnectPacket bufLen o ctx = .ok packet) :
    (∃ n k, mqttReadPacketRemLenFormBuf (Mem.ofBytes packet) 1 = .ok (n, k) ∧
      packet.length = 1 + k + n) ∧
    readConnect packet = readConnectPayload (protocolName o.mqttVersion) o.mqttVersion
      (connectFlags o ctx) o.keepAliveInterval (connectPayload o ctx) := by
  have hvarint := mqttWritePacketRemLen_varint (UInt32.ofNat (getPacketConnectRemLen o ctx))
  rw [UInt32.toNat_ofNat', Nat.mod_eq_of_lt (h.remLen_lt.trans (by norm_num))] at hvarint
  obtain rfl := serializeConnectPacket_ok hok
  generalize mqttWritePacketRemLen (UInt32.ofNat (getPacketConnectRemLen o ctx)) = code at hvarint ⊢
  have hload := Mem.load_ofBytes [0x10] code (connectBody o ctx)
  have hread := readRemLen_varint hvarint h.remLen_lt hload
  rw [List.singleton_append, List.length_singleton] at hread
  have hsize : (0x10 :: (code ++ connectBody o ctx)).length =
      1 + code.length + getPacketConnectRemLen o ctx := by
    rw [List.length_cons, List.length_append, length_connectBody]
    omega
  have hdrop : ((0x10 : UInt8) :: (code ++ connectBody o ctx)).drop (1 + code.length) =
      connectBody o ctx := by
    rw [Nat.add_comm, List.drop_succ_cons, List.drop_left]
  have hprotocol : isProtocol (protocolName o.mqttVersion) o.mqttVersion = true := by
    rcases o.version_eq with hv | hv
    · rw [hv]
      decide
    · rw [hv]
      decide
  refine ⟨⟨_, _, hread, hsize⟩, ?_⟩
  unfold readConnect
  rw [hread]
  simp only
  rw [if_pos ⟨rfl, hsize⟩, hdrop, connectBody,
    readConnectBody_written hprotocol connectFlags_consistent]

/-- A packet of fields that fit. -/
theorem wellFormed_of_fits {ctx : ConnectContext} (h : FieldsFit o ctx) (hsecret : SecretPresent o ctx)
    (hok : serializeConnectPacket bufLen o ctx = .ok packet) : ConnectWellFormed o ctx packet := by
  obtain ⟨hsize, hread⟩ := readConnect_serialized h hok
  obtain ⟨hclean, hwill, -, huser, hpassword⟩ := @connectFlags_bits o ctx
  refine ⟨hsize, ?_, hwill, by simpa using huser, ?_, ?_⟩
  · rw [← hclean]
    simp
  · rw [password_isSome hsecret, ← hpassword]
    simp
  · rw [hread, readConnectPayload_written h hsecret, ConnectOptions.fields, username_whole h.connId]

/-- **A CONNECT packet is well formed**, with either protocol version, for every client id that the
SDK allows, whatever connection id is drawn and whatever the time is. -/
theorem connect_wellFormed {rand : Nat → Nat} {timesec : Nat}
    {hmacSha1 : Option (Bytes → Bytes → Bytes)} (hid : o.clientId.length ≤ maxSizeOfClientId)
    (htime : timesec < 2 ^ 63) (hsecret : hmacSha1.isSome = true → o.deviceSecret.isSome = true)
    (hok : serializeConnectPacket bufLen o (.drawn rand timesec hmacSha1) = .ok packet) :
    ConnectWellFormed o (.drawn rand timesec hmacSha1) packet := by
  refine wellFormed_of_fits ⟨hid, ?_, ?_⟩ hsecret hok
  · change (getNextConnId rand).length < maxConnIdLen
    rw [getNextConnId, List.length_map, List.length_range]
    decide
  · change (decimal timesec).length ≤ 20
    rw [decimal, List.length_map]
    exact (Nat.length_toDigits_le_iff (by decide) (by decide)).mpr (htime.trans (by norm_num))

/-- The options of a device "a" with the secret "s". -/
def deviceOptions : ConnectOptions where
  clientId := [97]
  mqttVersion := 4
  keepAliveInterval := 240
  cleanSession := true
  deviceSecret := some [115]
  clientId_ne := by simp
  version_eq := Or.inr rfl

/-- The CONNECT packet of this device, with a signature of forty digits. -/
theorem connect_wellFormed_device :
    let ctx := ConnectContext.drawn (fun _ => 0) 7 (some fun _ _ => List.replicate 40 48)
    ∃ packet, serializeConnectPacket mqttTxBufLen deviceOptions ctx = .ok packet ∧
      ConnectWellFormed deviceOptions ctx packet := by
  obtain ⟨packet, hpacket⟩ : ∃ packet, serializeConnectPacket mqttTxBufLen deviceOptions
      (.drawn (fun _ => 0) 7 (some fun _ _ => List.replicate 40 48)) = .ok packet := ⟨_, rfl⟩
  exact ⟨packet, hpacket, connect_wellFormed (by decide) (by decide) (fun _ => rfl) hpacket⟩

/-- **Without a secret** to sign with, in a build that signs, the packet announces a password and
ends before it. -/
theorem connect_noSecret {ctx : ConnectContext} (h : FieldsFit o ctx)
    (hsigns : ctx.hmacSha1.isSome = true) (hnone : o.deviceSecret = none)
    (hok : serializeConnectPacket bufLen o ctx = .ok packet) : readConnect packet = none := by
  have hpassword : o.password ctx = none := by
    unfold ConnectOptions.password
    rw [hnone]
    cases ctx.hmacSha1 <;> rfl
  rw [(readConnect_serialized h hok).2, readConnectPayload_eq h, hsigns, hpassword]
  rfl

end QcloudIot.Mqtt
