import QcloudIot.Coap.Codec
import QcloudIot.Coap.Exchange

/-!
# Acknowledgements of separate responses

`_coap_client_send_ack` starts from `DEFAULT_COAP_MESSAGE`, whose code is that of a POST request,
and sets the type and the message id.

* `sendAck_eq`, `ack_decoded`: the packet that is sent, and what it is decoded to;
* `handled_response`: a confirmable response of code 2.05 sends that packet and no other, and one of
  any other code sends none;
* **`separatelyAcknowledged_never`**: no confirmable response gets an empty acknowledgement;
* `separatelyAcknowledged_fails`: what a response gets.
-/

namespace QcloudIot.Coap

open Mqtt (WordSize)
open Lib

/-! ## The packet -/

/-- The message that `_coap_client_send_ack` sends. -/
def ackMessage (msgId : UInt16) : CoapMessage := coapMessageIdSet (coapMessageTypeSet {} .ack) msgId

theorem ackMessage_counted (sz : WordSize) (msgId : UInt16) : (ackMessage msgId).Counted sz :=
  ⟨fun _ h => absurd h List.not_mem_nil, Nat.two_pow_pos _⟩

theorem serialize_ack (sz : WordSize) (msgId : UInt16) :
    (serializeCoapMessage sz (ackMessage msgId) coapSendmsgMaxBuflen).rc =
        .ok (ackMessage msgId).bytes.length ∧
      (serializeCoapMessage sz (ackMessage msgId) coapSendmsgMaxBuflen).out =
        (ackMessage msgId).bytes := by
  have hcounted := ackMessage_counted sz msgId
  have hlen : coapSendmsgMaxBuflen < 2 ^ sz.bits := by cases sz <;> decide
  have hrc := serialize_fits hcounted hlen (show 5 ≤ 512 by decide)
  exact ⟨hrc, (serialize_ok hcounted _ _ hrc).2⟩

/-- The packet is sent whatever the network does with it. -/
theorem sendAck_eq (t : Target) (c : CoapClient) (msgId : UInt16) (env : SendEnv) :
    (coapClientSendAck t c msgId env).2 =
      c.emit (.send (ackMessage msgId) (ackMessage msgId).bytes) := by
  have hdestroy : ∀ c : CoapClient,
      { c with heap := (coapMessageDestroy c.heap (ackMessage msgId)).2 } = c := by
    intro c
    simp [coapMessageDestroy, ackMessage, coapMessageIdSet, coapMessageTypeSet, optionBlocks,
      Heap.freeAll]
  have hsend : (coapMessageSend t c (ackMessage msgId) env).2 =
      c.emit (.send (ackMessage msgId) (ackMessage msgId).bytes) := by
    obtain ⟨hrc, hout⟩ := serialize_ack t.size msgId
    unfold coapMessageSend
    dsimp only
    rw [hrc, hout]
    dsimp only
    rw [List.take_length]
    split
    · rw [if_neg fun h => CoapMsgType.noConfusion h.1]
    · rfl
  exact (hdestroy _).trans hsend

/-- **What the packet is decoded to**: an acknowledgement with the message id, and with the code of a
POST request. -/
theorem ack_decoded (t : Target) (heap : Heap) (oks : List Bool) (msgId : UInt16) :
    deserializeCoapMessage t ⟨.zero, heap, oks⟩ (ackMessage msgId).bytes =
      (.retSuccess, ⟨{ CoapMessage.zero with
        version := coapMsgVer
        type := .ack
        codeClass := 0
        codeDetail := 2
        msgId := msgId }, heap, oks⟩) := by
  have hafter : (ackMessage msgId).afterToken = { CoapMessage.zero with
      version := coapMsgVer
      type := .ack
      codeClass := 0
      codeDetail := 2
      msgId := msgId } :=
    congrArg (fun detail => { CoapMessage.zero with
      version := coapMsgVer
      type := .ack
      codeDetail := detail
      msgId := msgId }) (show (2 : UInt32) &&& 0x1f = 2 by decide)
  rw [deserialize_bytes (m := ackMessage msgId) (Nat.zero_le _) (.inl rfl), hafter]
  change (coapMsgCheck _, _) = _
  unfold coapMsgCheck
  rw [if_neg fun h => absurd (show (2 : UInt32) = 0 from h.2) (by decide),
    if_neg (show CoapMsgType.ack ≠ .rst by decide)]

/-! ## What a response is answered with -/

/-- The packets given to the network by `coap_message_send`. -/
def sentIn (log : List Entry) : List Bytes :=
  log.filterMap fun
    | .send _ packet => some packet
    | _ => none

/-- The packets that are sent while a datagram is handled. -/
def handledPackets (t : Target) (c : CoapClient) (env : CycleEnv) : List Bytes :=
  (sentIn (coapMessageRecv t c env).2.log).drop (sentIn c.log).length

/-- The packet is decoded to a well-formed empty acknowledgement of the message. -/
structure EmptyAck (t : Target) (packet : Bytes) (msgId : UInt16) : Prop where
  accepted : (deserializeCoapMessage t ⟨.zero, {}, []⟩ packet).1 = .retSuccess
  type : (deserializeCoapMessage t ⟨.zero, {}, []⟩ packet).2.message.type = .ack
  empty : (deserializeCoapMessage t ⟨.zero, {}, []⟩ packet).2.message.IsEmpty
  token : (deserializeCoapMessage t ⟨.zero, {}, []⟩ packet).2.message.token = []
  opList : (deserializeCoapMessage t ⟨.zero, {}, []⟩ packet).2.message.opList = []
  payLoad : (deserializeCoapMessage t ⟨.zero, {}, []⟩ packet).2.message.payLoad = []
  msgId : (deserializeCoapMessage t ⟨.zero, {}, []⟩ packet).2.message.msgId = msgId

/-- The response that the datagram carries gets an empty acknowledgement. -/
def SeparatelyAcknowledged (t : Target) (c : CoapClient) (env : CycleEnv) : Prop :=
  ∃ packet ∈ handledPackets t c env, EmptyAck t packet (decoded t c env).msgId

theorem sentIn_append (log log' : List Entry) : sentIn (log ++ log') = sentIn log ++ sentIn log' :=
  List.filterMap_append

section

variable {t : Target} {c : CoapClient} {env : CycleEnv}

/-- A visit sends nothing of its own. -/
theorem Visit.sent {cmd : ProcessCmd} {c c' : CoapClient} {m m' : CoapMessage} {x : CoapMsgSendInfo}
    {x' : Option CoapMsgSendInfo} (h : Visit cmd c m x c' m' x') : sentIn c'.log = sentIn c.log := by
  have hcalled : ∀ {c'}, Notified c x c' → sentIn c'.log = sentIn c.log :=
    Notified.filterMap_log (fun _ _ _ => rfl) fun _ _ _ => rfl
  cases h with
  | kept => rfl
  | responded => exact hcalled (notifyResponse_notified cmd c m x)
  | removed => rfl
  | resent => exact (sentIn_append _ _).trans (List.append_nil _)
  | timedOut =>
    have hlog : sentIn (notifyTimeout c m x).1.log = sentIn c.log :=
      hcalled (notifyTimeout_notified c m x)
    exact hlog

theorem listProc_sent (cmd : ProcessCmd) (iter : Bool) (expired : Nat → Bool) (c : CoapClient)
    (m : CoapMessage) :
    sentIn (coapMessageListProc cmd iter expired c m).2.log = sentIn c.log := by
  rcases listProc_visits cmd iter expired c m (I := fun c₁ _ _ _ => sentIn c₁.log = sentIn c.log)
      (fun _ => rfl) (fun h hvisit => hvisit.sent.trans h) with
    ⟨-, hsame⟩ | ⟨-, c₁, m₁, nodes, heap, hI, hproc⟩
  · rw [hsame]
  · rw [hproc]
    exact hI

theorem recv_log (hrc : env.rc = .retSuccess) :
    (coapMessageRecv t c env).2.log =
      (dispatchMessage t (decodedClient t c env) (decoded t c env) env).log := by
  unfold coapMessageRecv
  rw [if_pos hrc]
  dsimp only
  rw [handle_eq]

/-- **What a confirmable message is answered with.** -/
theorem handled_response (hrc : env.rc = .retSuccess) (htype : (decoded t c env).type = .con) :
    handledPackets t c env =
      if (decoded t c env).IsEmptyRsp then [(ackMessage (decoded t c env).msgId).bytes] else [] := by
  have hack : ¬ (decoded t c env).type = .ack := fun h => nomatch htype.symm.trans h
  have hcmd : (decoded t c env).cmd? = if (decoded t c env).IsEmptyRsp then some .resp else none := by
    unfold CoapMessage.cmd?
    rw [if_neg fun h => hack h.1, if_neg fun h => hack h.1]
    exact if_congr ⟨And.right, fun h => ⟨.inl htype, h⟩⟩ rfl rfl
  have hsent : sentIn (coapMessageRecv t c env).2.log = sentIn c.log ++
      if (decoded t c env).IsEmptyRsp then [(ackMessage (decoded t c env).msgId).bytes]
      else [] := by
    rw [recv_log hrc, dispatch_eq, hcmd]
    by_cases hrsp : (decoded t c env).IsEmptyRsp
    · rw [if_pos hrsp, if_pos hrsp]
      unfold coapRespMessageHandle
      dsimp only
      rw [if_pos htype, listProc_sent, sendAck_eq]
      exact sentIn_append _ _
    · rw [if_neg hrsp, if_neg hrsp]
      exact (List.append_nil _).symm
  unfold handledPackets
  rw [hsent, List.drop_left]

/-- The packet is no empty acknowledgement. -/
theorem ack_not_empty (t : Target) (msgId msgId' : UInt16) :
    ¬ EmptyAck t (ackMessage msgId).bytes msgId' := by
  intro h
  have hempty := h.empty
  rw [ack_decoded] at hempty
  exact absurd (show (2 : UInt32) = 0 from hempty.2) (by decide)

end

/-- **No confirmable response gets an empty acknowledgement**: one of code 2.05 gets a POST request,
and any other gets nothing. -/
theorem separatelyAcknowledged_never (t : Target) (c : CoapClient) {env : CycleEnv}
    (hrc : env.rc = .retSuccess) (htype : (decoded t c env).type = .con) :
    ¬ SeparatelyAcknowledged t c env := by
  rintro ⟨packet, hpacket, hempty⟩
  rw [handled_response hrc htype] at hpacket
  split at hpacket
  · rw [List.mem_singleton.mp hpacket] at hempty
    exact ack_not_empty t _ _ hempty
  · exact absurd hpacket List.not_mem_nil

/-- A confirmable response of code 2.05, with a token and a payload. -/
def separateResponse : Bytes := [0x44, 0x45, 0x12, 0x34, 4, 3, 2, 1, 0xff, 33]

theorem separatelyAcknowledged_never_valid :
    ¬ SeparatelyAcknowledged ⟨.w32, .signed⟩ (.init deviceD 0 1 none)
      { recvBuf := separateResponse } :=
  separatelyAcknowledged_never _ _ rfl (by decide)

/-- The response is accepted and gets one packet, which is taken for a POST request. -/
theorem separatelyAcknowledged_fails :
    (deserializeCoapMessage ⟨.w32, .signed⟩ ⟨.zero, {}, []⟩ separateResponse).1 = .retSuccess ∧
      handledPackets ⟨.w32, .signed⟩ (.init deviceD 0 1 none)
          { recvBuf := separateResponse } = [[0x60, 2, 0x12, 0x34]] ∧
      ¬ EmptyAck ⟨.w32, .signed⟩ [0x60, 2, 0x12, 0x34] 0x1234 :=
  ⟨by decide, by decide, fun h => absurd h.empty (by decide)⟩

end QcloudIot.Coap
