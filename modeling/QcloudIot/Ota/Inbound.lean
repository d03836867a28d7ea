import QcloudIot.Mqtt.Messages
import QcloudIot.Ota.Client
import QcloudIot.Utils.JsonPrefix
import QcloudIot.Utils.Scan

/-!
# Messages on the OTA topic

From a PUBLISH packet to the OTA handle: `_otamqtt_upgrage_cb` (`ota_mqtt.c`), the head of
`_ota_callback` and the lookups of `ota_lib.c`. The payload is handed on as a C string, so what stands
behind it in the read buffer belongs to the message.

* Memory is always there; a channel is told from others by its callback. A result `none` is a lookup
  that reads behind its copy of the string.
* A file size too large for an `int`, undefined behaviour of `atoi`, is taken modulo 2^32.
* `HandledInside`: the message is settled by the payload, or not looked at;
* **`receive_congr`**: then what earlier packets have left in the read buffer changes nothing;
* `leftovers_taken`: a payload without a version, taken together with one.
-/

namespace QcloudIot.Ota

open Utils

/-! ## Lookups -/

/-- A string literal. -/
def str (s : String) : Text := s.toList.map fun c => c.toNat.toUInt8

def typeField : Text := str "type"
def md5Field : Text := str "md5sum"
def versionField : Text := str "version"
def urlField : Text := str "url"
def filesizeField : Text := str "file_size"
def resultField : Text := str "result_code"
def reportVersionRsp : Text := str "report_version_rsp"
def updateFirmware : Text := str "update_firmware"

/-- `OTA_FILESIZE_STR_LEN`. -/
def otaFilesizeStrLen : Nat := 16

/-- `_qcloud_otalib_get_firmware_varlen_para`. -/
def getFirmwareVarlenPara (jsonDoc key : Text) : Option (Option Text) := liteJsonValueOf key jsonDoc

/-- `_qcloud_otalib_get_firmware_fixlen_para`. -/
def getFirmwareFixlenPara (jsonDoc key : Text) (destLen : Nat) : Option (Option Text) :=
  (liteJsonValueOf key jsonDoc).map fun value => value.filter fun v => v.length ≤ destLen

/-- `qcloud_otalib_get_report_version_result`: whether it is a success. -/
def getReportVersionResult (json : Text) : Option Bool :=
  (getFirmwareVarlenPara json resultField).map fun code => code = some (str "0")

/-- The lookups of `qcloud_otalib_get_params`, behind that of the type, which has just been found. None
is made after one that fails. -/
def qcloudOtalibGetParams (json : Text) : Option UpdateParams :=
  (getFirmwareVarlenPara json versionField).bind fun version =>
    if version = none then some ⟨none, none, none, none⟩
    else
      (getFirmwareVarlenPara json urlField).bind fun url =>
        if url = none then some ⟨version, none, none, none⟩
        else
          (getFirmwareFixlenPara json md5Field 32).bind fun md5 =>
            if md5 = none then some ⟨version, url, none, none⟩
            else
              (getFirmwareFixlenPara json filesizeField otaFilesizeStrLen).map fun size =>
                ⟨version, url, md5, size.map fun s => UInt32.ofInt (atoi s)⟩

/-- What `_ota_callback` finds in a message. -/
def otaMessage (json : Text) : Option OtaMessage :=
  (getFirmwareVarlenPara json typeField).bind fun type =>
    match type with
    | none => some .other
    | some type =>
      if type = reportVersionRsp then (getReportVersionResult json).map .reportVersionRsp
      else if type ≠ updateFirmware then some .other
      else (qcloudOtalibGetParams json).map .updateFirmware

/-- `_ota_callback`, on the string at `msg`. -/
def onOtaMessage (h : OtaHandle) (msg : Text) (msgLen : UInt32) : Option OtaHandle :=
  if OtaState.fetching.code ≤ h.state.code then some h
  else if msgLen = 0 then some h
  else (otaMessage msg).map h.otaCallback

/-! ## The channel -/

/-- `OTA_MQTT_Struct_t`: its callback, and whether `msg_callback` is set yet; `behind` bytes behind the
read buffer stands the first zero byte. -/
structure OtaChannel where
  upgradeCb : Mqtt.FnPtr
  ready : Bool
  behind : Nat

/-- The C string at `p`; a zero byte stands at `stop`. -/
def stringAt (m : Mqtt.Mem) (p stop : Nat) : Text := (m.load p (stop - p)).takeWhile (· ≠ 0)

namespace OtaChannel

/-- One call of a message handler; that of the channel is `_otamqtt_upgrage_cb`. -/
def handle (ch : OtaChannel) (buf : Mqtt.Mem) (bufSize : Nat) (h : OtaHandle)
    (call : Mqtt.FnPtr × Mqtt.MqttMessage) : Option OtaHandle :=
  if call.1 = ch.upgradeCb ∧ ch.ready then
    onOtaMessage h (stringAt buf call.2.payload (bufSize + ch.behind)) (UInt32.ofNat call.2.payloadLen)
  else some h

/-- A packet read with `_read_mqtt_packet` and dispatched through `_handle_publish_packet`: what it
makes of the OTA handle. -/
def receive (ch : OtaChannel) (c : Mqtt.Client) (packetType : UInt8) (reads : Mqtt.NetReads)
    (env : Mqtt.CycleEnv) (h : OtaHandle) : Option OtaHandle :=
  let c' := (Mqtt.readMqttPacket c packetType reads).client
  let c'' := (Mqtt.handlePublishPacket c' env).2
  ((Mqtt.messagesIn c''.log).drop (Mqtt.messagesIn c.log).length).foldlM
    (ch.handle c'.readBuf c'.readBufSize) h

end OtaChannel

/-! ## Settled by the payload -/

/-- The lookups for a new firmware that are made all stop inside. -/
def paramsSettled (json : Text) : Bool :=
  settled versionField json && settled urlField json && settled md5Field json &&
    (getFirmwareFixlenPara json md5Field 32 = some none || settled filesizeField json)

/-- All lookups that are made stop inside. -/
def messageSettled (json : Text) : Bool :=
  settled typeField json &&
    match getFirmwareVarlenPara json typeField with
    | some (some type) =>
      if type = reportVersionRsp then settled resultField json
      else if type ≠ updateFirmware then true
      else paramsSettled json
    | _ => true

/-- The message is not looked at, or its string ends inside of the payload, or all lookups do. -/
def HandledInside (h : OtaHandle) (payload : Text) : Prop :=
  OtaState.fetching.code ≤ h.state.code ∨ payload = [] ∨ 0 ∈ payload ∨ messageSettled payload = true

theorem otalibGetParams_append {json : Text} (h : paramsSettled json = true) (t : Text) :
    qcloudOtalibGetParams (json ++ t) = qcloudOtalibGetParams json := by
  unfold paramsSettled at h
  simp only [Bool.and_eq_true, Bool.or_eq_true, decide_eq_true_iff] at h
  obtain ⟨⟨⟨hversion, hurl⟩, hmd5⟩, hsize⟩ := h
  have hversion' := liteJsonValueOf_append (by decide) hversion t
  have hurl' := liteJsonValueOf_append (by decide) hurl t
  have hmd5' := liteJsonValueOf_append (by decide) hmd5 t
  unfold qcloudOtalibGetParams
  simp only [getFirmwareVarlenPara, getFirmwareFixlenPara, hversion', hurl', hmd5']
  rcases hsize with hlong | hsize
  · simp only [getFirmwareFixlenPara] at hlong
    rw [hlong]
    rfl
  · rw [liteJsonValueOf_append (by decide) hsize t]

/-- **A settled message** is the same whatever stands behind it. -/
theorem otaMessage_append {json : Text} (h : messageSettled json = true) (t : Text) :
    otaMessage (json ++ t) = otaMessage json := by
  obtain ⟨htype, h⟩ := Bool.and_eq_true_iff.mp h
  have htype' := liteJsonValueOf_append (by decide) htype t
  unfold otaMessage
  simp only [getFirmwareVarlenPara, htype'] at h ⊢
  cases hfound : liteJsonValueOf typeField json with
  | none => rfl
  | some type =>
    rw [hfound] at h
    cases type with
    | none => rfl
    | some type =>
      simp only [Option.bind_some] at h ⊢
      by_cases hreport : type = reportVersionRsp
      · rw [if_pos hreport] at h ⊢
        rw [if_pos hreport, getReportVersionResult, getReportVersionResult, getFirmwareVarlenPara,
          getFirmwareVarlenPara, liteJsonValueOf_append (by decide) h t]
      · rw [if_neg hreport] at h ⊢
        rw [if_neg hreport]
        by_cases hupdate : type ≠ updateFirmware
        · rw [if_pos hupdate, if_pos hupdate]
        · rw [if_neg hupdate] at h ⊢
          rw [if_neg hupdate, otalibGetParams_append h t]

/-- The string that begins with a payload. -/
theorem takeWhile_payload (payload leftovers : Text) :
    (payload ++ leftovers).takeWhile (· ≠ 0) =
      if 0 ∈ payload then payload.takeWhile (· ≠ 0)
      else payload ++ leftovers.takeWhile (· ≠ 0) := by
  induction payload with
  | nil => rfl
  | cons b payload ih =>
    by_cases hb : b = 0
    · rw [hb, if_pos List.mem_cons_self]
      rfl
    · have hmem : 0 ∈ b :: payload ↔ 0 ∈ payload := by
        rw [List.mem_cons]
        exact or_iff_right (Ne.symm hb)
      rw [List.cons_append, List.takeWhile_cons_of_pos (by simpa using hb), ih,
        List.takeWhile_cons_of_pos (by simpa using hb)]
      by_cases hzero : 0 ∈ payload
      · rw [if_pos hzero, if_pos (hmem.mpr hzero)]
      · rw [if_neg hzero, if_neg (fun h => hzero (hmem.mp h))]
        rfl

/-- **What stands behind the payload changes nothing.** -/
theorem onOtaMessage_append {h : OtaHandle} {payload : Text} (hinside : HandledInside h payload)
    (leftovers leftovers' : Text) :
    onOtaMessage h ((payload ++ leftovers).takeWhile (· ≠ 0)) (UInt32.ofNat payload.length) =
      onOtaMessage h ((payload ++ leftovers').takeWhile (· ≠ 0)) (UInt32.ofNat payload.length) := by
  rw [takeWhile_payload, takeWhile_payload]
  unfold onOtaMessage
  rcases hinside with hstate | rfl | hzero | hsettled
  · rw [if_pos hstate, if_pos hstate]
  · rfl
  · rw [if_pos hzero, if_pos hzero]
  · by_cases hzero : 0 ∈ payload
    · rw [if_pos hzero, if_pos hzero]
    · rw [if_neg hzero, if_neg hzero, otaMessage_append hsettled, otaMessage_append hsettled]

/-! ## From the packet to the handle -/

namespace OtaChannel

/-- The string that a callback is called with. -/
theorem stringAt_onWire {p : Mqtt.PublishOnWire} {buf : Mqtt.Mem} (hbuf : p.Holds buf) {stop : Nat}
    (hstop : p.bytes.length ≤ stop) : stringAt buf p.payloadStart stop =
      (p.payload ++ buf.load p.bytes.length (stop - p.bytes.length)).takeWhile (· ≠ 0) := by
  have hlen := p.length_bytes
  rw [stringAt, show stop - p.payloadStart = p.payload.length + (stop - p.bytes.length) by omega,
    Mqtt.Mem.load_add, hbuf.payload, hlen]

/-- **A packet that fits**: what it makes of the handle. -/
theorem receive_onWire (ch : OtaChannel) {c : Mqtt.Client} (packetType : UInt8) (env : Mqtt.CycleEnv)
    {p : Mqtt.PublishOnWire} (hfits : p.bytes.length ≤ c.readBufSize) (h : OtaHandle) :
    ∃ buf : Mqtt.Mem, p.Holds buf ∧ (∀ q, p.bytes.length ≤ q → buf q = c.readBuf q) ∧
      ch.receive c packetType p.packet.reads env h =
        (Mqtt.callsOf c env p).foldlM (ch.handle buf c.readBufSize) h := by
  have hbody : p.packet.body ≠ [] := fun hnil => by
    have hlen := p.length_body
    rw [show p.body = [] from hnil, List.length_nil] at hlen
    omega
  obtain ⟨buf, hload, hbehind, hread⟩ := Mqtt.readMqttPacket_reads hbody hfits packetType
  have hholds := p.holds_of_load hload
  have hcalls := Mqtt.messagesIn_handlePublish (c := { c with readBuf := buf }) env hholds hfits
  refine ⟨buf, hholds, hbehind, ?_⟩
  unfold receive
  rw [hread]
  simp only [hcalls, List.drop_left]
  rfl

/-- At most one call, with the message of the packet. -/
theorem callsOf_cases (c : Mqtt.Client) (env : Mqtt.CycleEnv) (p : Mqtt.PublishOnWire) :
    Mqtt.callsOf c env p = [] ∨ ∃ f, Mqtt.callsOf c env p = [(f, p.message)] := by
  unfold Mqtt.callsOf
  split
  · unfold Mqtt.calls
    cases Mqtt.taker _ c.subHandles.slots with
    | none => exact .inl rfl
    | some f => exact .inr ⟨f, rfl⟩
  · exact .inl rfl

/-- One call. -/
theorem foldlM_handle (ch : OtaChannel) (buf : Mqtt.Mem) (size : Nat) (h : OtaHandle)
    (call : Mqtt.FnPtr × Mqtt.MqttMessage) :
    [call].foldlM (ch.handle buf size) h = ch.handle buf size h call := by
  rw [List.foldlM_cons]
  exact bind_pure (ch.handle buf size h call)

/-- What is called for the packet does not depend on the buffer. -/
theorem handle_congr (ch : OtaChannel) {p : Mqtt.PublishOnWire} {buf buf' : Mqtt.Mem}
    (hbuf : p.Holds buf) (hbuf' : p.Holds buf') {size : Nat} (hfits : p.bytes.length ≤ size)
    {h : OtaHandle} (hinside : HandledInside h p.payload) (f : Mqtt.FnPtr) :
    ch.handle buf size h (f, p.message) = ch.handle buf' size h (f, p.message) := by
  have hstop : p.bytes.length ≤ size + ch.behind := Nat.le_add_right_of_le hfits
  have hstring := stringAt_onWire hbuf hstop
  have hstring' := stringAt_onWire hbuf' hstop
  have hpayload : p.message.payload = p.payloadStart := rfl
  have hlen : p.message.payloadLen = p.payload.length := rfl
  unfold handle
  simp only [hpayload, hlen, hstring, hstring']
  rw [onOtaMessage_append hinside]

/-- **Handled from its own bytes**: for two clients that differ in what the read buffer holds, a packet
that is settled by its payload makes the same of the handle. -/
theorem receive_congr (ch : OtaChannel) (c : Mqtt.Client) (m : Mqtt.Mem) (packetType : UInt8)
    (env : Mqtt.CycleEnv) {p : Mqtt.PublishOnWire} (hfits : p.bytes.length ≤ c.readBufSize)
    {h : OtaHandle} (hinside : HandledInside h p.payload) :
    ch.receive { c with readBuf := m } packetType p.packet.reads env h =
      ch.receive c packetType p.packet.reads env h := by
  obtain ⟨buf, hbuf, -, hrun⟩ := ch.receive_onWire packetType env hfits h
  obtain ⟨buf', hbuf', -, hother⟩ :=
    ch.receive_onWire (c := { c with readBuf := m }) packetType env hfits h
  have hrun' : ch.receive { c with readBuf := m } packetType p.packet.reads env h =
      (Mqtt.callsOf c env p).foldlM (ch.handle buf' c.readBufSize) h := hother
  rw [hrun, hrun']
  rcases callsOf_cases c env p with hnone | ⟨f, hone⟩
  · rw [hnone]
    rfl
  · rw [hone]
    rw [foldlM_handle, foldlM_handle, ch.handle_congr hbuf' hbuf hfits hinside f]

end OtaChannel

/-! ## Two packets -/

/-- A client that has subscribed to `$ota/update/P/D`, with function 1 for its messages. -/
def subscribed : Mqtt.Client :=
  { Mqtt.Client.init none 1 5000 ⟨240, true⟩ with
    subHandles := Mqtt.SubHandles.empty.set 0
      { topicFilter := some ⟨0, str "$ota/update/P/D"⟩, messageHandler := some 1 } }

/-- Function 1 is `_otamqtt_upgrage_cb`. -/
def channel : OtaChannel := ⟨1, true, 0⟩

theorem updateTopic_eq : str "$ota/update/P/D" =
    [36, 111, 116, 97, 47, 117, 112, 100, 97, 116, 101, 47, 80, 47, 68] :=
  Lib.chars_eq rfl

/-- A PUBLISH to it, at QoS 0. -/
def published (payload : Text) (h : payload.length < 2 ^ 27) : Mqtt.PublishOnWire where
  header := 0x30
  topic := str "$ota/update/P/D"
  id := 0
  payload := payload
  isPublish := by decide
  topicFits := by
    rw [updateTopic_eq]
    decide
  bounded := by
    have htopic : (str "$ota/update/P/D").length = 15 := by rw [updateTopic_eq]; rfl
    have hqos : (Mqtt.headerQos 0x30).idLen = 0 := by decide
    rw [htopic, hqos]
    omega

theorem callsOf_published (payload : Text) (h : payload.length < 2 ^ 27) (m : Mqtt.Mem) :
    Mqtt.callsOf { subscribed with readBuf := m } {} (published payload h) =
      [(1, (published payload h).message)] := by
  have hqos : Mqtt.headerQos (published payload h).header = .qos0 := by
    change Mqtt.headerQos 0x30 = .qos0
    decide
  have htaker : Mqtt.taker (fun f => Mqtt.topicDecision 0 f
      (str "$ota/update/P/D" ++ List.replicate (Mqtt.maxSizeOfCloudTopic -
        (str "$ota/update/P/D").length) 0 ++ []) (UInt16.ofNat (str "$ota/update/P/D").length))
      subscribed.subHandles.slots = some 1 := by
    decide
  unfold Mqtt.callsOf
  rw [if_pos (.inl hqos)]
  exact congrArg (Mqtt.calls · (published payload h).message) htaker

/-- What the packet makes of the handle: the string, with what stands behind the packet. -/
theorem receive_published {payload : Text} (h : payload.length < 2 ^ 27) (m : Mqtt.Mem)
    (hfits : (published payload h).bytes.length ≤ 2048) :
    channel.receive { subscribed with readBuf := m } 0 (published payload h).packet.reads {} .init =
      onOtaMessage .init ((payload ++ m.load (published payload h).bytes.length
        (2048 - (published payload h).bytes.length)).takeWhile (· ≠ 0))
        (UInt32.ofNat payload.length) := by
  obtain ⟨buf, hbuf, hbehind, hrun⟩ :=
    channel.receive_onWire (c := { subscribed with readBuf := m }) 0 {} hfits .init
  have hleft : buf.load (published payload h).bytes.length
      (2048 - (published payload h).bytes.length) =
      m.load (published payload h).bytes.length (2048 - (published payload h).bytes.length) :=
    List.map_congr_left fun i _ => hbehind _ (Nat.le_add_right _ i)
  have hstring : stringAt buf (published payload h).payloadStart 2048 = _ :=
    OtaChannel.stringAt_onWire hbuf hfits
  rw [hrun, callsOf_published, OtaChannel.foldlM_handle, ← hleft]
  exact congrArg (fun s => onOtaMessage .init s (UInt32.ofNat payload.length)) hstring

/-- `{"type":"update_firmware"}`. -/
def bareUpdate : Text := str "\x7b\"type\":\"update_firmware\"\x7d"

/-- What is left of a longer packet behind it. -/
def leftovers : Text :=
  str "\"version\":\"1\",\"url\":\"u\",\"md5sum\":\"0\",\"file_size\":\"9\"\x7d"

theorem bareUpdate_eq : bareUpdate =
    [123, 34, 116, 121, 112, 101, 34, 58, 34, 117, 112, 100, 97, 116, 101, 95, 102, 105, 114, 109,
     119, 97, 114, 101, 34, 125] :=
  Lib.chars_eq rfl

theorem leftovers_eq : leftovers =
    [34, 118, 101, 114, 115, 105, 111, 110, 34, 58, 34, 49, 34, 44, 34, 117, 114, 108, 34, 58, 34,
     117, 34, 44, 34, 109, 100, 53, 115, 117, 109, 34, 58, 34, 48, 34, 44, 34, 102, 105, 108, 101,
     95, 115, 105, 122, 101, 34, 58, 34, 57, 34, 125] :=
  Lib.chars_eq rfl

theorem length_bareUpdate : bareUpdate.length < 2 ^ 27 := by
  rw [bareUpdate_eq]
  decide

theorem length_bareUpdate_bytes : (published bareUpdate length_bareUpdate).bytes.length = 45 := by
  decide

/-- The longer packet: all that is looked up stands in it. -/
def fullUpdate : Text := str "\x7b\"type\":\"update_firmware\"," ++ leftovers

theorem fullUpdate_eq : fullUpdate =
    [123, 34, 116, 121, 112, 101, 34, 58, 34, 117, 112, 100, 97, 116, 101, 95, 102, 105, 114, 109,
     119, 97, 114, 101, 34, 44]
      ++ leftovers :=
  congrArg (· ++ leftovers) (Lib.chars_eq rfl)

theorem length_fullUpdate : fullUpdate.length < 2 ^ 27 := by
  rw [fullUpdate_eq, leftovers_eq]
  decide

theorem receive_fullUpdate :
    channel.receive { subscribed with readBuf := subscribed.readBuf.store 45 leftovers } 0
        (published fullUpdate length_fullUpdate).packet.reads {} .init =
      channel.receive subscribed 0 (published fullUpdate length_fullUpdate).packet.reads {} .init :=
  channel.receive_congr subscribed _ 0 {} (by decide) (.inr (.inr (.inr (by decide))))

/-- The handle after the payload, where the read buffer is empty behind it, and where a longer packet
has been. -/
theorem leftovers_taken : ¬ ∀ (ch : OtaChannel) (c : Mqtt.Client) (m : Mqtt.Mem),
    (∀ q, c.readBufSize ≤ q → m q = c.readBuf q) → ∀ (packetType : UInt8) (env : Mqtt.CycleEnv)
      (p : Mqtt.PublishOnWire), p.bytes.length ≤ c.readBufSize → ∀ h : OtaHandle,
        ch.receive { c with readBuf := m } packetType p.packet.reads env h =
          ch.receive c packetType p.packet.reads env h := by
  intro hall
  have hfits : (published bareUpdate length_bareUpdate).bytes.length ≤ 2048 := by
    rw [length_bareUpdate_bytes]
    decide
  have hleft : leftovers.length ≤ 2000 := by
    rw [leftovers_eq]
    decide
  have hbehind : ∀ q, subscribed.readBufSize ≤ q →
      (subscribed.readBuf.store 45 leftovers) q = subscribed.readBuf q := by
    intro q hq
    have hq' : 2048 ≤ q := hq
    rw [Mqtt.Mem.store, if_pos (by omega), List.getD_eq_default _ _ (by omega)]
  have h := hall channel subscribed (subscribed.readBuf.store 45 leftovers) hbehind 0 {}
    (published bareUpdate length_bareUpdate) hfits .init
  have hwith := receive_published length_bareUpdate (subscribed.readBuf.store 45 leftovers) hfits
  have hwithout := receive_published length_bareUpdate subscribed.readBuf hfits
  rw [hwith] at h
  replace h := h.trans hwithout
  rw [length_bareUpdate_bytes] at h
  have hstate := congrArg (fun r => r.map fun h => h.state) h
  rw [bareUpdate_eq, leftovers_eq] at hstate
  exact absurd hstate (by decide +kernel)

end QcloudIot.Ota
