import QcloudIot.Gateway.Client
import QcloudIot.Lib.Packed
import QcloudIot.Utils.JsonLookup
import QcloudIot.Utils.Scan

/-!
# Messages to the gateway

`_gateway_message_handler` of `gateway_common.c`, as far as it answers the operations on subdevices;
a list of bindings is the subject of `BindList`. What a lookup returns that reads on behind its
string is an argument (`Beyond`).

* `takeResult_result`: whose result a reply with these fields sets;
* `gatewayMessageHandler_clientId`: no message changes what the requests wait for.
-/

namespace QcloudIot.Gateway

open Lib Utils

/-! ## Constants -/

/-- `GATEWAY_RECEIVE_BUFFER_LEN`. -/
def gatewayReceiveBufferLen : Nat := 1024

def typeField : Bytes := chars "type"
def payloadField : Bytes := chars "payload"
def devicesField : Bytes := chars "devices"
def resultField : Bytes := chars "result"
def productIdField : Bytes := chars "product_id"
def deviceNameField : Bytes := chars "device_name"

/-- `GATEWAY_DESCRIBE_SUBDEVIES_OP_STR`. -/
def describeSubDevices : Bytes := chars "describe_sub_devices"

/-- The operations on a subdevice. -/
inductive Operation where
  | online | offline | bind | unbind
  deriving DecidableEq, Repr

/-- `GATEWAY_ONLINE_OP_STR` and the others. -/
def Operation.word : Operation → Bytes
  | .online => chars "online"
  | .offline => chars "offline"
  | .bind => chars "bind"
  | .unbind => chars "unbind"

/-- What the operation waits on. -/
def GatewayContext.slot (g : GatewayContext) : Operation → ReplyData
  | .online => g.online
  | .offline => g.offline
  | .bind => g.bind
  | .unbind => g.unbind

/-! ## The lookups -/

/-- What lies behind the strings, for each lookup. -/
structure Beyond where
  type : Option Bytes := none
  devices : Option Bytes := none
  result : Option Bytes := none
  productId : Option Bytes := none
  deviceName : Option Bytes := none

/-- `LITE_json_value_of`; `beyond` where it reads on behind the string. -/
def jsonValueOf (beyond : Option Bytes) (key json : Bytes) : Option Bytes :=
  (liteJsonValueOf key json).getD beyond

/-- `get_json_type`. -/
def getJsonType (beyond : Beyond) (json : Bytes) : Option Bytes :=
  jsonValueOf beyond.type typeField json

/-- `get_json_devices`. -/
def getJsonDevices (beyond : Beyond) (json : Bytes) : Option Bytes :=
  jsonValueOf beyond.devices (chars "payload.devices") json

/-- `get_json_result`. -/
def getJsonResult (beyond : Beyond) (json : Bytes) : Option Int :=
  (jsonValueOf beyond.result resultField json).bind scanInt

/-- `get_json_product_id`. -/
def getJsonProductId (beyond : Beyond) (json : Bytes) : Option Bytes :=
  jsonValueOf beyond.productId productIdField json

/-- `get_json_device_name`. -/
def getJsonDeviceName (beyond : Beyond) (json : Bytes) : Option Bytes :=
  jsonValueOf beyond.deviceName deviceNameField json

/-! ## The handler -/

/-- The result of a reply, where its client id is that of the request. -/
def ReplyData.settle (r : ReplyData) (clientId : Bytes) (result : Int) : ReplyData :=
  if strncmpEq clientId r.clientId clientId.length then { r with result := result } else r

/-- The end of `_gateway_message_handler`, from the client id on. -/
def takeResult (g : GatewayContext) (type clientId : Bytes) (result : Int) : GatewayContext :=
  if clientId.length > maxSizeOfClientId then g
  else if strncmpEq type Operation.online.word Operation.online.word.length then
    { g with online := g.online.settle clientId result }
  else if strncmpEq type Operation.offline.word Operation.offline.word.length then
    { g with offline := g.offline.settle clientId result }
  else if strncmpEq type Operation.bind.word Operation.bind.word.length then
    { g with bind := g.bind.settle clientId result }
  else if strncmpEq type Operation.unbind.word Operation.unbind.word.length then
    { g with unbind := g.unbind.settle clientId result }
  else g

/-- `recv_buf` as a string, with this payload copied into it. -/
def recvText (payload : Bytes) : Bytes :=
  upTo 0 (payload.take (min (gatewayReceiveBufferLen - 1) payload.length))

/-- `_gateway_message_handler`. -/
def gatewayMessageHandler (beyond : Beyond) (g : GatewayContext) (topicLen : Nat)
    (payload : Bytes) : GatewayContext :=
  if topicLen = 0 then g
  else if payload.length > gatewayReceiveBufferLen then g
  else
    let jsonBuf := recvText payload
    match getJsonType beyond jsonBuf, getJsonDevices beyond jsonBuf with
    | some type, some devices =>
      if strncmpEq type describeSubDevices describeSubDevices.length then g
      else
        let devicesStrip := if devices.head? = some 91 then devices.tail else devices
        match getJsonResult beyond devicesStrip, getJsonProductId beyond devicesStrip,
          getJsonDeviceName beyond devicesStrip with
        | some result, some productId, some deviceName =>
          takeResult g type (clientIdText productId deviceName) result
        | _, _, _ => g
    | _, _ => g

/-! ## Whose result is set -/

theorem settle_result (r : ReplyData) (clientId : Bytes) (result : Int) :
    (r.settle clientId result).result = if clientId <+: r.clientId then result else r.result := by
  have hiff : strncmpEq clientId r.clientId clientId.length = true ↔ clientId <+: r.clientId := by
    rw [strncmpEq_comm, strncmpEq_iff]
  unfold ReplyData.settle
  by_cases h : clientId <+: r.clientId
  · rw [if_pos (hiff.mpr h), if_pos h]
  · rw [if_neg (mt hiff.mp h), if_neg h]

/-- No operation's name starts with another's. -/
theorem word_unique {op op' : Operation} {type : Bytes} (h : op.word <+: type)
    (h' : op'.word <+: type) : op = op' := by
  have hnone : ∀ op op' : Operation, op ≠ op' → ¬ op.word <+: op'.word := by
    intro op op' hne
    cases op <;> cases op' <;> first | exact absurd rfl hne | decide
  by_contra hne
  rcases List.prefix_or_prefix_of_prefix h h' with hle | hle
  · exact hnone op op' hne hle
  · exact hnone op' op (Ne.symm hne) hle

theorem word_not_describe {op : Operation} {type : Bytes} (h : op.word <+: type) :
    ¬ describeSubDevices <+: type := by
  intro h'
  rcases List.prefix_or_prefix_of_prefix h h' with hle | hle
  all_goals
    revert hle
    cases op <;> decide

/-- The slot of one operation replaced. -/
def GatewayContext.setSlot (g : GatewayContext) (op : Operation) (r : ReplyData) : GatewayContext :=
  match op with
  | .online => { g with online := r }
  | .offline => { g with offline := r }
  | .bind => { g with bind := r }
  | .unbind => { g with unbind := r }

theorem slot_setSlot (g : GatewayContext) (op op' : Operation) (r : ReplyData) :
    (g.setSlot op' r).slot op = if op = op' then r else g.slot op := by
  cases op <;> cases op' <;> rfl

/-- The branch of the operation whose name the type starts with. -/
theorem setSlot_result (g : GatewayContext) {type : Bytes} (clientId : Bytes) (result : Int)
    (op : Operation) {op' : Operation} (hword : op'.word <+: type) :
    ((g.setSlot op' ((g.slot op').settle clientId result)).slot op).result =
      if op.word <+: type ∧ clientId <+: (g.slot op).clientId then result
      else (g.slot op).result := by
  rw [slot_setSlot]
  by_cases hop : op = op'
  · rw [if_pos hop, hop, settle_result]
    simp only [hword, true_and]
  · rw [if_neg hop, if_neg fun h => hop (word_unique h.1 hword)]

/-- **Whose result is set**: that of the operation whose name the type starts with, if the client id
is one that the request's own starts with. -/
theorem takeResult_result (g : GatewayContext) (type : Bytes) {clientId : Bytes} (result : Int)
    (op : Operation) (hfits : clientId.length ≤ maxSizeOfClientId) :
    ((takeResult g type clientId result).slot op).result =
      if op.word <+: type ∧ clientId <+: (g.slot op).clientId then result
      else (g.slot op).result := by
  have hbranch : ∀ op' : Operation, op'.word <+: type →
      ((g.setSlot op' ((g.slot op').settle clientId result)).slot op).result =
        if op.word <+: type ∧ clientId <+: (g.slot op).clientId then result
        else (g.slot op).result := fun _ hword => setSlot_result g clientId result op hword
  unfold takeResult
  rw [if_neg (Nat.not_lt_of_le hfits)]
  simp only [strncmpEq_iff]
  split
  · exact hbranch .online (by assumption)
  split
  · exact hbranch .offline (by assumption)
  split
  · exact hbranch .bind (by assumption)
  split
  · exact hbranch .unbind (by assumption)
  · refine (if_neg fun h => ?_).symm
    cases op
    all_goals exact absurd h.1 (by assumption)

theorem takeResult_clientId (g : GatewayContext) (type clientId : Bytes) (result : Int)
    (op : Operation) : ((takeResult g type clientId result).slot op).clientId =
      (g.slot op).clientId := by
  have hsettle : ∀ r : ReplyData, (r.settle clientId result).clientId = r.clientId := by
    intro r
    unfold ReplyData.settle
    split <;> rfl
  have hbranch : ∀ op', ((g.setSlot op' ((g.slot op').settle clientId result)).slot op).clientId =
      (g.slot op).clientId := by
    intro op'
    rw [slot_setSlot]
    by_cases hop : op = op'
    · rw [if_pos hop, hop, hsettle]
    · rw [if_neg hop]
  unfold takeResult
  split
  · rfl
  split
  · exact hbranch .online
  split
  · exact hbranch .offline
  split
  · exact hbranch .bind
  split
  · exact hbranch .unbind
  · rfl

/-- The requests stay the same. -/
theorem gatewayMessageHandler_clientId (beyond : Beyond) (g : GatewayContext) (topicLen : Nat)
    (payload : Bytes) (op : Operation) :
    ((gatewayMessageHandler beyond g topicLen payload).slot op).clientId = (g.slot op).clientId := by
  unfold gatewayMessageHandler
  split
  · rfl
  split
  · rfl
  dsimp only
  split
  · split
    · rfl
    split
    · exact takeResult_clientId ..
    · rfl
  · rfl

end QcloudIot.Gateway
