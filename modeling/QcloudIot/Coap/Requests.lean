import QcloudIot.Coap.Exchange

/-!
# The two requests of the client

`coap_client_auth` and `IOT_COAP_SendMessage`: each fills a confirmable POST, gives it options and a
payload and sends it. The results of `coap_message_option_add` are ignored, as in the source.

* A C string is the list of its bytes before the NUL.
* The block that the path of the authentication is printed into is there: its pointer is not checked.

Results: `optionAdd_cases`: what becomes of a message and of the heap; `optionAdd_message`: how much
room an option takes.
-/

namespace QcloudIot.Coap

open Mqtt (WordSize)

/-! ## The code -/

/-- `COAP_MSG_URI_PATH`. -/
def coapMsgUriPath : UInt32 := 11

/-- `COAP_MSG_AUTH_TOKEN`. -/
def coapMsgAuthToken : UInt32 := 61

/-- `COAP_MSG_NEED_RESP`. -/
def coapMsgNeedResp : UInt32 := 62

/-- `COAP_AUTH_URI`, `txauth9w0BAQsFA`. -/
def coapAuthUri : Bytes := [116, 120, 97, 117, 116, 104, 57, 119, 48, 66, 65, 81, 115, 70, 65]

/-- `QCLOUD_IOT_DEVICE_SDK_APPID`, `21010406`. -/
def qcloudIotDeviceSdkAppid : Bytes := [50, 49, 48, 49, 48, 52, 48, 54]

/-- `COAP_MAX_CONN_ID_LEN`. -/
def coapMaxConnIdLen : Nat := 6

/-- `URI_PATH_MAX_LEN`. -/
def uriPathMaxLen : Nat := 128

/-- The string in an array. -/
def strOf (s : Bytes) : Bytes := s.takeWhile (· ≠ 0)

/-- What `HAL_Snprintf` makes of a block of `size` bytes, whose bytes were `fill`. -/
def snprintf (size : Nat) (text : Bytes) (fill : UInt8) : Bytes :=
  let str := text.take (size - 1) ++ [0]
  str ++ List.replicate (size - str.length) fill

/-- A character of `get_coap_next_conn_id`, from two numbers of `rand`. -/
def connIdChar (flag value : Nat) : UInt8 :=
  match flag % 3 with
  | 0 => UInt8.ofNat (value % 26) + 97
  | 1 => UInt8.ofNat (value % 26) + 65
  | _ => UInt8.ofNat (value % 10) + 48

/-- `get_coap_next_conn_id`, with the numbers of `rand`. -/
def CoapClient.getCoapNextConnId (c : CoapClient) (rand : Nat → Nat) : CoapClient :=
  { c with
    connId := (List.range (coapMaxConnIdLen - 1)).map
      (fun i => connIdChar (rand (2 * i)) (rand (2 * i + 1))) ++ [0] }

/-- The confirmable POST, with its id and its token, that both functions begin with. -/
def newRequest (c : CoapClient) : CoapMessage × CoapClient :=
  let m := (coapMessageCodeSet (coapMessageTypeSet {} .con) 0 2).2
  let (id, c) := c.getNextCoapMsgId
  let m := coapMessageIdSet m id
  let (token, c) := c.getCoapMessageToken
  ((coapMessageTokenSet m token).2, c)

/-- What `coap_client_auth` learns from outside: the allocations of its two options, of the payload
and of the text, the numbers of `rand`, what the text's block holds, and the sending. Allocations of
options beyond the list succeed. -/
structure AuthEnv where
  oks : List Bool := []
  payLoad : Bool := true
  temp : Bool := true
  rand : Nat → Nat := fun _ => 0
  fill : UInt8 := 0
  send : SendEnv := {}

/-- The path of the authentication. -/
def authPath (d : DeviceInfo) : Bytes :=
  let len := maxSizeOfProductId + d.deviceName.length + coapAuthUri.length + 4
  strOf (snprintf len (d.productId ++ [47] ++ d.deviceName ++ [47] ++ coapAuthUri) 0)

/-- `coap_client_auth` as far as the connection id: the message with its options and its callback. -/
def authMessage (c : CoapClient) (env : AuthEnv) : CoapMessage × CoapClient :=
  let (m, c) := newRequest c
  let (path, heap) := c.heap.alloc
  let (_, m, heap) := coapMessageOptionAdd heap (env.oks.getD 0 true) (env.oks.getD 1 true) m
    coapMsgUriPath (authPath c.deviceInfo)
  let (_, m, heap) := coapMessageOptionAdd (heap.free path) (env.oks.getD 2 true)
    (env.oks.getD 3 true) m coapMsgNeedResp [48]
  ({ m with handler := some .auth, userContext := 1 },
    { c with heap := heap }.getCoapNextConnId env.rand)

/-- `coap_client_auth`. -/
def coapClientAuth (t : Target) (c : CoapClient) (env : AuthEnv) : ReturnCode × CoapClient :=
  let (m, c) := authMessage c env
  let payLoadLen := qcloudIotDeviceSdkAppid.length + coapMaxConnIdLen + 2
  match c.heap.malloc env.payLoad with
  | (none, heap) => (.errInval, { c with heap := heap })
  | (some payLoad, heap) =>
    match heap.malloc env.temp with
    | (none, heap) => (.errInval, { c with heap := heap.free payLoad })
    | (some temp, heap) =>
      let text := snprintf payLoadLen (qcloudIotDeviceSdkAppid ++ [59] ++ strOf c.connId) env.fill
      let m := (coapMessagePayloadSet { m with payLoadAt := some payLoad } text).2
      let (rc, c) := coapMessageSend t { c with heap := heap } m env.send
      (rc, { c with heap := (c.heap.free temp).free payLoad })

/-- `SendMsgParams`. -/
structure SendMsgParams where
  needResp : Bool
  payLoad : Bytes
  userContext : Nat
  respCallback : Option FnPtr

/-- What `IOT_COAP_SendMessage` learns from outside: the allocations of the payload and of its three
options, and the sending. -/
structure SendMessageEnv where
  payLoad : Bool := true
  oks : List Bool := []
  send : SendEnv := {}

/-- The options and the callback that `IOT_COAP_SendMessage` gives its message. -/
def sendMessageOptions (heap : Heap) (m : CoapMessage) (topicName authToken : Bytes)
    (sendParams : SendMsgParams) (oks : List Bool) : CoapMessage × Heap :=
  let (_, m, heap) := coapMessageOptionAdd heap (oks.getD 0 true) (oks.getD 1 true) m
    coapMsgUriPath topicName
  let (_, m, heap) := coapMessageOptionAdd heap (oks.getD 2 true) (oks.getD 3 true) m
    coapMsgAuthToken authToken
  let (_, m, heap) := coapMessageOptionAdd heap (oks.getD 4 true) (oks.getD 5 true) m
    coapMsgNeedResp [if sendParams.needResp then 49 else 48]
  ({ m with
      handler := if sendParams.needResp then sendParams.respCallback.map .user else none
      userContext := sendParams.userContext }, heap)

/-- `IOT_COAP_SendMessage`, which returns the message id. -/
def iotCoapSendMessage (t : Target) (c : CoapClient) (topicName : Bytes) (sendParams : SendMsgParams)
    (env : SendMessageEnv) : Except ReturnCode UInt16 × CoapClient :=
  if topicName.length > uriPathMaxLen then (.error .errMaxTopicLength, c)
  else
    let (m, c) := newRequest c
    match c.heap.malloc env.payLoad with
    | (none, heap) => (.error .errInval, { c with heap := heap })
    | (some payLoad, heap) =>
      let m := (coapMessagePayloadSet { m with payLoadAt := some payLoad } sendParams.payLoad).2
      let (m, heap) := sendMessageOptions heap m topicName c.authToken sendParams env.oks
      let (rc, c) := coapMessageSend t { c with heap := heap } m env.send
      (if rc ≠ .retSuccess then .error rc else .ok m.msgId, { c with heap := c.heap.free payLoad })

/-! ## Adding options -/

/-- The option is added at some place, or it could not be allocated. -/
theorem optionAdd_cases (h : Heap) (okOption okVal : Bool) (m : CoapMessage) (num : UInt32)
    (val : Bytes) :
    (qcloudIotCoapOptionInit h okOption okVal num val =
          (none, (coapMessageOptionAdd h okOption okVal m num val).2.2) ∧
        (coapMessageOptionAdd h okOption okVal m num val).2.1 = m) ∨
      ∃ op ops, qcloudIotCoapOptionInit h okOption okVal num val =
          (some op, (coapMessageOptionAdd h okOption okVal m num val).2.2) ∧
        (coapMessageOptionAdd h okOption okVal m num val).2.1 = { m with opList := ops } ∧
        ops.Perm (op :: m.opList) := by
  unfold coapMessageOptionAdd
  cases hinit : qcloudIotCoapOptionInit h okOption okVal num val with
  | mk op? heap =>
    cases op? with
    | none => exact .inl ⟨rfl, rfl⟩
    | some op =>
      refine .inr ⟨op, ?_⟩
      dsimp only
      split
      · rename_i hnil
        exact ⟨[op], rfl, rfl, by rw [hnil]⟩
      · rename_i first ops hcons
        split
        · exact ⟨op :: first :: ops, rfl, rfl, by rw [hcons]⟩
        · exact ⟨insertOption op (first :: ops), rfl, rfl, by rw [hcons]; exact insertOption_perm op _⟩

/-- An option takes the room of its value. -/
theorem optionAdd_message (h : Heap) (okOption okVal : Bool) (m : CoapMessage) (num : UInt32)
    (val : Bytes) :
    ∃ ops, (coapMessageOptionAdd h okOption okVal m num val).2.1 = { m with opList := ops } ∧
      optionsRoom ops ≤ optionsRoom m.opList + (5 + val.length) := by
  rcases optionAdd_cases h okOption okVal m num val with
    ⟨-, hsame⟩ | ⟨op, ops, hinit, hadded, hperm⟩
  · exact ⟨m.opList, hsame, Nat.le_add_right _ _⟩
  · refine ⟨ops, hadded, le_of_eq ?_⟩
    have hval : op.val = val := (Prod.ext_iff.mp (optionInit_some hinit)).2
    have hsum : optionsRoom ops = optionsRoom (op :: m.opList) := (hperm.map _).sum_nat
    rw [hsum, optionsRoom, List.map_cons, List.sum_cons, hval, Nat.add_comm]
    rfl

theorem val_le_optionsRoom {op : CoapMsgOption} {ops : List CoapMsgOption} (h : op ∈ ops) :
    op.val.length ≤ optionsRoom ops := by
  obtain ⟨before, behind, rfl⟩ := List.append_of_mem h
  simp only [optionsRoom, List.map_append, List.map_cons, List.sum_append, List.sum_cons]
  omega

theorem length_snprintf {size : Nat} (hsize : 0 < size) (text : Bytes) (fill : UInt8) :
    (snprintf size text fill).length = size := by
  unfold snprintf
  simp only [List.length_append, List.length_take, List.length_replicate, List.length_singleton]
  omega

theorem length_authPath (d : DeviceInfo) : (authPath d).length ≤ 77 := by
  have hname := d.deviceName_le
  unfold authPath strOf
  dsimp only
  refine le_trans (List.takeWhile_sublist _).length_le ?_
  rw [length_snprintf (Nat.succ_pos _)]
  simp only [maxSizeOfProductId, maxSizeOfDeviceName, coapAuthUri, List.length_cons,
    List.length_nil] at *
  omega

end QcloudIot.Coap
