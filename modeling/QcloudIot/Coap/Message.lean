import QcloudIot.Mqtt.PublishPacket

/-!
# CoAP messages

The message record of `coap_client.h` and the functions of `coap_client_common.c` that fill, extend
and destroy it.

* A block of the heap is its number in the order of allocation (`Heap`); whether an allocation
  succeeds is an argument.
* A counted byte array (`token` with `token_len`, `val` with `val_len`, `pay_load` with
  `pay_load_len`) is the list of its bytes, and the count is the list's length.
* `OnRespCallback` is the authentication's own callback or a function of the application.
-/

namespace QcloudIot.Coap

open Mqtt (WordSize)

/-- A run of bytes. -/
abbrev Bytes := List UInt8

/-- The sign of plain `char`. -/
inductive CharSign where
  | signed | unsigned
  deriving DecidableEq, Repr

/-- What the code depends on of the target. -/
structure Target where
  size : WordSize
  char : CharSign
  deriving DecidableEq, Repr

/-- A plain `char` converted to `unsigned`. -/
def Target.ofChar (t : Target) (b : UInt8) : UInt32 :=
  if t.char = .signed ∧ b ≥ 128 then b.toUInt32 - 256 else b.toUInt32

/-- The codes that the modelled functions return, under their names without `QCLOUD_`, those of
`errno.h` and those of the network. -/
inductive ReturnCode where
  | retSuccess
  | errFailure
  | errInval
  | errMaxTopicLength
  | errCoapDataSize
  | errCoapInternal
  | errCoapBadmsg
  | enospc
  | einval
  | enomem
  | errSslWriteTimeout
  | errSslWrite
  | errSslReadTimeout
  | errSslRead
  | errSslNothingToRead
  deriving DecidableEq, Repr

/-! ## The heap -/

/-- The blocks allocated so far are those below `next`; `freed` are the ones freed, in order. -/
structure Heap where
  next : Nat := 0
  freed : List Nat := []
  deriving DecidableEq, Repr

namespace Heap

/-- `HAL_Malloc` that succeeds. -/
def alloc (h : Heap) : Nat × Heap := (h.next, { h with next := h.next + 1 })

/-- `HAL_Malloc`, which succeeds iff `ok`. -/
def malloc (h : Heap) (ok : Bool) : Option Nat × Heap :=
  if ok then (some h.next, { h with next := h.next + 1 }) else (none, h)

/-- `HAL_Free`. -/
def free (h : Heap) (p : Nat) : Heap := { h with freed := h.freed ++ [p] }

/-- `HAL_Free` of each of these, in order. -/
def freeAll (h : Heap) (ps : List Nat) : Heap := { h with freed := h.freed ++ ps }

end Heap

/-! ## The record -/

/-- `CoAPMsgType`. -/
inductive CoapMsgType where
  | con | non | ack | rst
  deriving DecidableEq, Repr

/-- The enumerator's value. -/
def CoapMsgType.code : CoapMsgType → UInt8
  | .con => 0
  | .non => 1
  | .ack => 2
  | .rst => 3

/-- The enumerator of the two low bits. -/
def CoapMsgType.ofBits (b : UInt8) : CoapMsgType :=
  if b = 0 then .con else if b = 1 then .non else if b = 2 then .ack else .rst

/-- A function of the application. -/
abbrev FnPtr := Nat

/-- `OnRespCallback`: `_coap_client_auth_callback` or a function of the application. -/
inductive OnRespCallback where
  | auth
  | user (f : FnPtr)
  deriving DecidableEq, Repr

/-- `CoAPMsgOption`, at `addr` with its value at `valAddr`. -/
structure CoapMsgOption where
  optionNum : UInt16
  val : Bytes
  addr : Nat
  valAddr : Nat
  deriving DecidableEq, Repr

/-- `COAP_MSG_VER`. -/
def coapMsgVer : UInt32 := 1

/-- `CoAPMessage`, with the defaults of `DEFAULT_COAP_MESSAGE`. `payLoadAt` is the pointer
`pay_load`. -/
structure CoapMessage where
  version : UInt32 := coapMsgVer
  type : CoapMsgType := .con
  codeClass : UInt32 := 0
  codeDetail : UInt32 := 2
  msgId : UInt16 := 0
  payLoadAt : Option Nat := none
  payLoad : Bytes := []
  token : Bytes := []
  opList : List CoapMsgOption := []
  handler : Option OnRespCallback := none
  userContext : Nat := 0
  deriving DecidableEq, Repr

/-- The record with all bytes zero. -/
def CoapMessage.zero : CoapMessage where
  version := 0
  codeDetail := 0

/-- `COAP_MSG_IS_EMPTY`. -/
def CoapMessage.IsEmpty (m : CoapMessage) : Prop := m.codeClass = 0 ∧ m.codeDetail = 0

/-- `COAP_MSG_IS_EMPTY_ACK`. -/
def CoapMessage.IsEmptyAck (m : CoapMessage) : Prop := m.codeClass = 2 ∧ m.codeDetail = 3

/-- `COAP_MSG_IS_EMPTY_RSP`. -/
def CoapMessage.IsEmptyRsp (m : CoapMessage) : Prop := m.codeClass = 2 ∧ m.codeDetail = 5

instance (m : CoapMessage) : Decidable m.IsEmpty := inferInstanceAs (Decidable (_ ∧ _))
instance (m : CoapMessage) : Decidable m.IsEmptyAck := inferInstanceAs (Decidable (_ ∧ _))
instance (m : CoapMessage) : Decidable m.IsEmptyRsp := inferInstanceAs (Decidable (_ ∧ _))

/-! ## Filling it -/

/-- `COAP_MSG_MAX_CODE_CLASS`. -/
def coapMsgMaxCodeClass : UInt32 := 7

/-- `COAP_MSG_MAX_CODE_DETAIL`. -/
def coapMsgMaxCodeDetail : UInt32 := 31

/-- `COAP_MSG_MAX_TOKEN_LEN`. -/
def coapMsgMaxTokenLen : Nat := 8

/-- `coap_message_type_set`. -/
def coapMessageTypeSet (m : CoapMessage) (type : CoapMsgType) : CoapMessage := { m with type := type }

/-- `coap_message_code_set`. -/
def coapMessageCodeSet (m : CoapMessage) (codeClass codeDetail : UInt32) :
    ReturnCode × CoapMessage :=
  if codeClass > coapMsgMaxCodeClass then (.errInval, m)
  else if codeDetail > coapMsgMaxCodeDetail then (.errInval, m)
  else (.retSuccess, { m with codeClass := codeClass, codeDetail := codeDetail })

/-- `coap_message_id_set`. -/
def coapMessageIdSet (m : CoapMessage) (msgId : UInt16) : CoapMessage := { m with msgId := msgId }

/-- `coap_message_token_set`. -/
def coapMessageTokenSet (m : CoapMessage) (buf : Bytes) : ReturnCode × CoapMessage :=
  if buf.length > coapMsgMaxTokenLen then (.errInval, m)
  else (.retSuccess, { m with token := buf })

/-- `coap_message_payload_set`. -/
def coapMessagePayloadSet (m : CoapMessage) (buf : Bytes) : ReturnCode × CoapMessage :=
  if buf.length > 0 then
    if m.payLoadAt = none then (.errFailure, { m with payLoad := [] })
    else (.retSuccess, { m with payLoad := buf })
  else (.retSuccess, { m with payLoad := [] })

/-- `qcloud_iot_coap_option_init`, with the answers to its two allocations. -/
def qcloudIotCoapOptionInit (h : Heap) (okOption okVal : Bool) (num : UInt32) (val : Bytes) :
    Option CoapMsgOption × Heap :=
  match h.malloc okOption with
  | (none, h) => (none, h)
  | (some addr, h) =>
    match h.malloc okVal with
    | (none, h) => (none, h.free addr)
    | (some valAddr, h) => (some ⟨num.toUInt16, val, addr, valAddr⟩, h)

/-- The loop of `coap_message_option_add`, from `prev` on. -/
def insertOption (option : CoapMsgOption) : List CoapMsgOption → List CoapMsgOption
  | [] => [option]
  | [last] => [last, option]
  | prev :: next :: ops =>
    if prev.optionNum ≤ option.optionNum ∧ option.optionNum < next.optionNum then
      prev :: option :: next :: ops
    else prev :: insertOption option (next :: ops)

/-- `coap_message_option_add`. -/
def coapMessageOptionAdd (h : Heap) (okOption okVal : Bool) (m : CoapMessage) (num : UInt32)
    (val : Bytes) : ReturnCode × CoapMessage × Heap :=
  match qcloudIotCoapOptionInit h okOption okVal num val with
  | (none, h) => (.errFailure, m, h)
  | (some option, h) =>
    match m.opList with
    | [] => (.retSuccess, { m with opList := [option] }, h)
    | first :: ops =>
      if option.optionNum < first.optionNum then
        (.retSuccess, { m with opList := option :: first :: ops }, h)
      else (.retSuccess, { m with opList := insertOption option (first :: ops) }, h)

/-- The blocks of an option list, in the order in which `_coap_msg_op_list_destroy` frees them. -/
def optionBlocks (ops : List CoapMsgOption) : List Nat := ops.flatMap fun o => [o.valAddr, o.addr]

/-- `coap_message_destroy`. -/
def coapMessageDestroy (h : Heap) (m : CoapMessage) : CoapMessage × Heap :=
  (.zero, (h.freeAll (optionBlocks m.opList)).freeAll m.payLoadAt.toList)

/-! ## Options added -/

theorem insertOption_perm (op : CoapMsgOption) (ops : List CoapMsgOption) :
    (insertOption op ops).Perm (op :: ops) := by
  induction ops using insertOption.induct op with
  | case1 => exact .refl _
  | case2 last => exact .swap _ _ _
  | case3 prev next ops hbetween =>
    rw [insertOption, if_pos hbetween]
    exact .swap _ _ _
  | case4 prev next ops hbehind ih =>
    rw [insertOption, if_neg hbehind]
    exact (ih.cons prev).trans (.swap _ _ _)

end QcloudIot.Coap
