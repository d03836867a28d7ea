import QcloudIot.Coap.Deserialize
import QcloudIot.Coap.Serialize

/-!
# The CoAP client structure

`Client` of `coap_client.h` with the fields the modelled functions read, the wait list
`message_list`, and what the functions do outside the structure (`Entry`).

* `log` is no field of the C structure. An entry that belongs to a request carries its message id.
* A timer is read by `left_ms` only, whose answer is the environment's: `start_time` and
  `command_timeout_ms` are left out, and so are the two mutexes.
* The context of the authentication's callback is the client itself, and NULL is 0.

Results: `firedIn`, `transmissionsIn`, `listedIn`: the log as seen from one request.
-/

namespace QcloudIot.Coap

/-! ## The wait list -/

/-- `CoAPNodeState`. -/
inductive CoapNodeState where
  | normal | invalid
  deriving DecidableEq, Repr

/-- `CoAPMsgSendInfo`, at `infoAddr`, with the list node that holds it, at `nodeAddr`. `message` is
the copy of the packet with its address, `none` where it could not be allocated. -/
structure CoapMsgSendInfo where
  nodeState : CoapNodeState := .normal
  userContext : Nat
  msgId : UInt16
  acked : Bool := false
  token : Bytes
  retransCount : UInt8 := 0
  message : Option (Nat × Bytes)
  handler : Option OnRespCallback
  infoAddr : Nat
  nodeAddr : Nat
  deriving DecidableEq, Repr

/-- The blocks of a node: itself, its `CoAPMsgSendInfo` and the copy of the packet. -/
def CoapMsgSendInfo.blocks (x : CoapMsgSendInfo) : List Nat :=
  [x.nodeAddr, x.infoAddr] ++ (x.message.map Prod.fst).toList

/-! ## What the functions do outside the structure -/

/-- `CoAPEventType`. -/
inductive CoapEventType where
  | receiveAck | receiveRespcontent | unauthorized | forbidden | internalServerError | ackTimeout
  | seprespTimeout
  deriving DecidableEq, Repr

/-- A packet given to the network by `coap_message_send`, a request put into the wait list, a packet
given to the network again, a call of a response callback with the message it gets, and a call of
`event_handle.h_fp`. -/
inductive Entry where
  | send (m : CoapMessage) (packet : Bytes)
  | listed (request : UInt16)
  | resend (request : UInt16) (packet : Bytes)
  | response (request : UInt16) (f : OnRespCallback) (m : CoapMessage)
  | event (request : UInt16) (f : FnPtr) (e : CoapEventType)
  deriving DecidableEq, Repr

/-- `MAX_SIZE_OF_PRODUCT_ID`. -/
def maxSizeOfProductId : Nat := 10

/-- `MAX_SIZE_OF_DEVICE_NAME`. -/
def maxSizeOfDeviceName : Nat := 48

/-- `DeviceInfo`. -/
structure DeviceInfo where
  productId : Bytes
  deviceName : Bytes
  productId_le : productId.length ≤ maxSizeOfProductId
  deviceName_le : deviceName.length ≤ maxSizeOfDeviceName

/-- The device `D` of product `P`. -/
def deviceD : DeviceInfo := ⟨[80], [68], by decide, by decide⟩

/-- `COAP_SENDMSG_MAX_BUFLEN`, the size of the send buffer. -/
def coapSendmsgMaxBuflen : Nat := 512

/-- `CoAPClient`. -/
structure CoapClient where
  isAuthed : Int
  connId : Bytes
  messageToken : UInt32
  authTokenAt : Option Nat
  authToken : Bytes
  nextMsgId : UInt16
  messageList : List CoapMsgSendInfo
  maxRetryCount : UInt8
  eventHandle : Option FnPtr
  deviceInfo : DeviceInfo
  heap : Heap
  log : List Entry

/-- A client as `qcloud_iot_coap_init` sets it. -/
def CoapClient.init (deviceInfo : DeviceInfo) (nextMsgId : UInt16) (maxRetryCount : UInt8)
    (eventHandle : Option FnPtr) : CoapClient where
  isAuthed := -1
  connId := List.replicate 6 0
  messageToken := 0
  authTokenAt := none
  authToken := []
  nextMsgId := nextMsgId
  messageList := []
  maxRetryCount := maxRetryCount
  eventHandle := eventHandle
  deviceInfo := deviceInfo
  heap := {}
  log := []

namespace CoapClient

variable (c : CoapClient)

/-- An entry is logged. -/
def emit (e : Entry) : CoapClient := { c with log := c.log ++ [e] }

/-- `get_next_coap_msg_id`. -/
def getNextCoapMsgId : UInt16 × CoapClient :=
  let id := if c.nextMsgId = 65535 then 1 else c.nextMsgId + 1
  (id, { c with nextMsgId := id })

/-- `get_coap_message_token`. -/
def getCoapMessageToken : Bytes × CoapClient :=
  let value := c.messageToken
  ([(value &&& 0x00FF).toUInt8, ((value &&& 0xFF00) >>> 8).toUInt8,
      ((value &&& 0xFF0000) >>> 16).toUInt8, ((value &&& 0xFF000000) >>> 24).toUInt8],
    { c with messageToken := value + 1 })

end CoapClient

/-- `strncpy` of `s` into a block of its length. -/
def strncpy (s : Bytes) : Bytes :=
  let str := s.takeWhile (· ≠ 0)
  str ++ List.replicate (s.length - str.length) 0

/-- `_coap_client_auth_callback`. The block for the token is there. -/
def coapClientAuthCallback (c : CoapClient) (m : CoapMessage) (userContext : Nat) : CoapClient :=
  if userContext = 0 then c
  else if m.codeClass = 2 ∧ m.codeDetail = 5 then
    if m.payLoad.length = 0 ∨ m.payLoadAt = none ∨ m.payLoad.head? = some 0 then
      { c with isAuthed := 0 }
    else
      let (addr, heap) := c.heap.alloc
      { c with isAuthed := 1, authTokenAt := some addr, authToken := strncpy m.payLoad, heap := heap }
  else { c with isAuthed := 0 }

/-- A call of a node's `handler`. -/
def CoapClient.call (c : CoapClient) (f : OnRespCallback) (request : UInt16) (m : CoapMessage)
    (userContext : Nat) : CoapClient :=
  let c := c.emit (.response request f m)
  match f with
  | .auth => coapClientAuthCallback c m userContext
  | .user _ => c

/-! ## Sending -/

/-- What `coap_message_send` learns from outside: the result of the write and how much of a packet
was written, and the allocations of the list entry. -/
structure SendEnv where
  rc : ReturnCode := .retSuccess
  writtenLen : Nat → Nat := id
  info : Bool := true
  saved : Bool := true
  node : Bool := true

/-- `_coap_message_list_add`, with what the send buffer holds. -/
def coapMessageListAdd (c : CoapClient) (m : CoapMessage) (sendBuf : Bytes) (len : Nat)
    (env : SendEnv) : ReturnCode × CoapClient :=
  match c.heap.malloc env.info with
  | (none, heap) => (.errFailure, { c with heap := heap })
  | (some infoAddr, heap) =>
    let (savedAddr, heap) := heap.malloc env.saved
    match heap.malloc env.node with
    | (none, heap) => (.errFailure, { c with heap := heap })
    | (some nodeAddr, heap) =>
      let sendInfo : CoapMsgSendInfo :=
        { userContext := m.userContext
          msgId := m.msgId
          token := m.token
          message := savedAddr.map fun addr => (addr, sendBuf.take len)
          handler := m.handler
          infoAddr := infoAddr
          nodeAddr := nodeAddr }
      (.retSuccess,
        { c with messageList := c.messageList ++ [sendInfo], heap := heap }.emit (.listed m.msgId))

/-- `coap_message_send`. -/
def coapMessageSend (t : Target) (c : CoapClient) (m : CoapMessage) (env : SendEnv) :
    ReturnCode × CoapClient :=
  let w := serializeCoapMessage t.size m coapSendmsgMaxBuflen
  match w.rc with
  | .error rc => (rc, c)
  | .ok n =>
    let c := c.emit (.send m (w.out.take n))
    if env.rc = .retSuccess then
      if m.type = .con ∧ m.codeClass = 0 then coapMessageListAdd c m w.out (env.writtenLen n) env
      else (.retSuccess, c)
    else (env.rc, c)

/-- `_coap_client_send_ack`. -/
def coapClientSendAck (t : Target) (c : CoapClient) (msgId : UInt16) (env : SendEnv) :
    ReturnCode × CoapClient :=
  let ack := coapMessageIdSet (coapMessageTypeSet {} .ack) msgId
  let (rc, c) := coapMessageSend t c ack env
  (rc, { c with heap := (coapMessageDestroy c.heap ack).2 })

/-! ## The wait list in use -/

/-- The commands of `_coap_message_list_proc`. -/
inductive ProcessCmd where
  | ack | piggy | resp | wait
  deriving DecidableEq, Repr

/-- `_event_message_type_set`. -/
def eventMessageTypeSet (m : CoapMessage) (cmd : ProcessCmd) : CoapEventType :=
  if m.codeClass = 2 ∧ m.codeDetail = 5 then
    if cmd = .resp then .receiveRespcontent else .receiveAck
  else if m.codeClass = 4 ∧ m.codeDetail = 1 then .unauthorized
  else if m.codeClass = 4 ∧ m.codeDetail = 3 then .forbidden
  else .internalServerError

/-- The callback for a response, of `PROCESS_RESP_CMD` and `PROCESS_PIGGY_CMD`. -/
def notifyResponse (cmd : ProcessCmd) (c : CoapClient) (m : CoapMessage) (x : CoapMsgSendInfo) :
    CoapClient × CoapMessage :=
  let m := { m with userContext := x.userContext }
  match x.handler with
  | some f => (c.call f x.msgId m x.userContext, m)
  | none =>
    match c.eventHandle with
    | some f =>
      (c.emit (.event x.msgId f (eventMessageTypeSet m cmd)),
        if cmd = .resp then { m with msgId := x.msgId } else m)
    | none => (c, m)

/-- The callback for a request that has timed out. -/
def notifyTimeout (c : CoapClient) (m : CoapMessage) (x : CoapMsgSendInfo) :
    CoapClient × CoapMessage :=
  match x.handler with
  | some f =>
    let m :=
      { m with
        type := .ack
        userContext := x.userContext
        codeClass := 6
        codeDetail := 0
        msgId := x.msgId }
    (c.call f x.msgId m x.userContext, m)
  | none =>
    match c.eventHandle with
    | some f => (c.emit (.event x.msgId f (if x.acked then .seprespTimeout else .ackTimeout)), m)
    | none => (c, m)

/-- `list_remove`: `list->free` is NULL. -/
def CoapClient.listRemove (c : CoapClient) (x : CoapMsgSendInfo) : CoapClient :=
  { c with heap := c.heap.free x.nodeAddr }

/-- The response is one to the request, by its token. -/
def CoapMsgSendInfo.HasToken (x : CoapMsgSendInfo) (m : CoapMessage) : Prop :=
  x.token.length ≠ 0 ∧ x.token = m.token

instance (x : CoapMsgSendInfo) (m : CoapMessage) : Decidable (x.HasToken m) :=
  inferInstanceAs (Decidable (_ ∧ _))

/-- A visit of `_coap_message_list_proc` to a node. `expired` tells whether `left_ms` is 0 there. No
node comes back when it is removed. -/
def visitNode (cmd : ProcessCmd) (expired : Bool) (c : CoapClient) (m : CoapMessage)
    (x : CoapMsgSendInfo) : CoapClient × CoapMessage × Option CoapMsgSendInfo :=
  match cmd with
  | .ack => (c, m, some (if x.msgId = m.msgId then { x with acked := true } else x))
  | .resp =>
    if x.HasToken m then
      let (c, m) := notifyResponse .resp c m x
      (c, m, some { x with nodeState := .invalid })
    else (c, m, some x)
  | .piggy =>
    if x.msgId = m.msgId then
      let (c, m) := notifyResponse .piggy c m x
      (c, m, some { x with acked := true, nodeState := .invalid })
    else (c, m, some x)
  | .wait =>
    if x.nodeState = .invalid then (c.listRemove x, m, none)
    else if expired = false then (c, m, some x)
    else if x.retransCount < c.maxRetryCount ∧ x.acked = false then
      (c.emit (.resend x.msgId ((x.message.map Prod.snd).getD [])), m,
        some { x with retransCount := x.retransCount + 1 })
    else
      let (c, m) := notifyTimeout c m x
      (c.listRemove x, m, none)

/-- The loop of `_coap_message_list_proc`, from the tail on. `expired k` is for the node that is
visited when `k` have been. -/
def procNodes (cmd : ProcessCmd) (expired : Nat → Bool) (c : CoapClient) (m : CoapMessage) :
    List CoapMsgSendInfo → CoapClient × CoapMessage × List CoapMsgSendInfo
  | [] => (c, m, [])
  | x :: xs =>
    let (c, m, xs') := procNodes cmd expired c m xs
    let (c, m, x?) := visitNode cmd (expired xs.length) c m x
    (c, m, x?.toList ++ xs')

/-- `_coap_message_list_proc`, with the answer to the iterator's allocation. -/
def coapMessageListProc (cmd : ProcessCmd) (iter : Bool) (expired : Nat → Bool) (c : CoapClient)
    (m : CoapMessage) : ReturnCode × CoapClient :=
  if c.messageList = [] then (.errFailure, c)
  else
    match c.heap.malloc iter with
    | (none, heap) => (.retSuccess, { c with heap := heap })
    | (some it, heap) =>
      let (c, _, nodes) := procNodes cmd expired { c with heap := heap } m c.messageList
      (.retSuccess, { c with messageList := nodes, heap := c.heap.free it })

/-! ## Receiving -/

/-- What `coap_message_cycle` learns from outside: what `read` returns and delivers, the allocations
of the decoder, the iterator for the message, the acknowledgement's write, the iterator for the
sweep, and the timers. -/
structure CycleEnv where
  rc : ReturnCode := .retSuccess
  recvBuf : Bytes := []
  oks : List Bool := []
  iter : Bool := true
  ack : SendEnv := {}
  sweepIter : Bool := true
  expired : Nat → Bool := fun _ => false

/-- `_coap_resp_message_handle`. -/
def coapRespMessageHandle (t : Target) (c : CoapClient) (m : CoapMessage) (env : CycleEnv) :
    CoapClient :=
  let c := if m.type = .con then (coapClientSendAck t c m.msgId env.ack).2 else c
  (coapMessageListProc .resp env.iter env.expired c m).2

/-- The dispatch of `_coap_message_handle`. -/
def dispatchMessage (t : Target) (c : CoapClient) (m : CoapMessage) (env : CycleEnv) : CoapClient :=
  if m.type = .ack ∧ m.IsEmptyAck then (coapMessageListProc .ack env.iter env.expired c m).2
  else if m.type = .ack ∧ ¬ m.IsEmpty then (coapMessageListProc .piggy env.iter env.expired c m).2
  else if m.type = .con ∧ m.IsEmptyRsp then coapRespMessageHandle t c m env
  else if m.type = .non ∧ m.IsEmptyRsp then coapRespMessageHandle t c m env
  else c

/-- `_coap_message_handle`. -/
def coapMessageHandle (t : Target) (c : CoapClient) (buf : Bytes) (env : CycleEnv) : CoapClient :=
  let d := (deserializeCoapMessage t ⟨.zero, c.heap, env.oks⟩ buf).2
  let c := dispatchMessage t { c with heap := d.heap } d.message env
  match d.message.payLoadAt with
  | some p => { c with heap := c.heap.free p }
  | none => c

/-- `coap_message_recv`. -/
def coapMessageRecv (t : Target) (c : CoapClient) (env : CycleEnv) : ReturnCode × CoapClient :=
  if env.rc = .retSuccess then (env.rc, coapMessageHandle t c env.recvBuf env) else (env.rc, c)

/-- `coap_message_cycle`, which `IOT_COAP_Yield` calls. -/
def coapMessageCycle (t : Target) (c : CoapClient) (env : CycleEnv) : ReturnCode × CoapClient :=
  let (rc, c) := coapMessageRecv t c env
  if rc ≠ .retSuccess ∧ rc ≠ .errSslReadTimeout then (rc, c)
  else coapMessageListProc .wait env.sweepIter env.expired c {}

/-! ## The log as seen from one request -/

/-- The message is a confirmable request. -/
def CoapMessage.IsRequest (m : CoapMessage) : Prop := m.type = .con ∧ m.codeClass = 0

instance (m : CoapMessage) : Decidable m.IsRequest := inferInstanceAs (Decidable (_ ∧ _))

/-- The entry is a transmission of request `p`. -/
def Entry.transmits (p : UInt16) : Entry → Bool
  | .send m _ => decide (m.IsRequest ∧ m.msgId = p)
  | .resend q _ => q == p
  | _ => false

/-- The entry puts request `p` into the wait list. -/
def Entry.lists (p : UInt16) : Entry → Bool
  | .listed q => q == p
  | _ => false

/-- The entry is a callback or an event for request `p`. -/
def Entry.fires (p : UInt16) : Entry → Bool
  | .response q _ _ => q == p
  | .event q _ _ => q == p
  | _ => false

/-- The message id of a confirmable request sent. -/
def Entry.request? : Entry → Option UInt16
  | .send m _ => if m.IsRequest then some m.msgId else none
  | _ => none

/-- How often request `p` was given to the network. -/
def transmissionsIn (p : UInt16) (log : List Entry) : Nat := log.countP (Entry.transmits p)

/-- How often request `p` was put into the wait list. -/
def listedIn (p : UInt16) (log : List Entry) : Nat := log.countP (Entry.lists p)

/-- How often the callback or the event of request `p` was called. -/
def firedIn (p : UInt16) (log : List Entry) : Nat := log.countP (Entry.fires p)

end QcloudIot.Coap
