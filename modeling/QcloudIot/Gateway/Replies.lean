import Mathlib.Data.List.TakeWhile
import QcloudIot.Gateway.Messages
import QcloudIot.Gateway.Sessions
import QcloudIot.Lib.Run
import QcloudIot.Utils.JsonPlain

/-!
# Replies to the gateway

A well-formed reply with one device, in any form that JSON gives it, and an operation that waits.

* `Reply`: the message; `Reply.Readable`: the scanner takes its values whole;
* `Reply.Readable.handler_result`: what such a message does to the operation;
* `replies_attributed_iff`: in a run of them each sets the result of the operation iff it is for it, iff
  there is none among them whose type only starts with the operation's name, or whose client id the
  subdevice's own only starts with.
-/

namespace QcloudIot.Gateway

open Lib Utils

/-! ## Messages -/

/-- What a string stands for. Without a backslash it stands for itself. -/
def Spelled (s : JsonString) (t : Bytes) : Prop := 92 ∉ s.bytes → s.bytes = t

/-- A well-formed reply with one device: its type, the names of the subdevice, and a result. -/
structure Reply where
  typeName : Bytes
  subdevProductId : Bytes
  subdevDeviceName : Bytes
  before : JsonSpace
  doc : Json
  after : JsonSpace
  type : JsonString
  inner : JsonSpace
  entry : Json
  outer : JsonSpace
  productId : JsonString
  deviceName : JsonString
  result : JsonNumber
  isObject : doc.isObject = true
  type_eq : doc.lookup [typeField] = some (.string type)
  devices_eq : doc.lookup [payloadField, devicesField] = some (.array (.last inner entry outer))
  entry_isObject : entry.isObject = true
  productId_eq : entry.lookup [productIdField] = some (.string productId)
  deviceName_eq : entry.lookup [deviceNameField] = some (.string deviceName)
  result_eq : entry.lookup [resultField] = some (.number result)
  spelled : Spelled type typeName ∧ Spelled productId subdevProductId ∧
    Spelled deviceName subdevDeviceName
  integer : result.frac = [] ∧ result.exponent = []
  range : -2 ^ 31 ≤ intValue result ∧ intValue result < 2 ^ 31
  clientIdFits : (clientIdText subdevProductId subdevDeviceName).length ≤ maxSizeOfClientId - 1

namespace Reply

variable (reply : Reply)

def text : Bytes := reply.before.bytes ++ reply.doc.text ++ reply.after.bytes

def clientId : Bytes := clientIdText reply.subdevProductId reply.subdevDeviceName

/-- It is the reply to the operation on the subdevice. -/
def IsFor (op : Operation) (param : GatewayParam) : Prop :=
  reply.typeName = op.word ∧ (reply.subdevProductId, reply.subdevDeviceName) = param.pair

instance (op : Operation) (param : GatewayParam) : Decidable (reply.IsFor op param) :=
  inferInstanceAs (Decidable (_ ∧ _))

/-- The message fits the buffer, and the scanner takes what it comes by whole: spaces alone before an
object, no empty string and no backslash in what is compared, distinct names of members without dots,
quotes and backslashes, no string that ends in a backslash, and no brackets in strings that upset the
count. -/
structure Readable : Prop where
  fits : reply.text.length < gatewayReceiveBufferLen
  spaces : OnlySpaces reply.before ∧ OnlySpaces reply.inner
  named : reply.doc.Named NamesOk
  type : Scannable [typeField] reply.doc.members
  devices : Scannable [payloadField, devicesField] reply.doc.members
  entry : ∀ name ∈ [resultField, productIdField, deviceNameField],
    Scannable [name] reply.entry.members
  notEmpty : reply.type.bytes ≠ [] ∧ reply.productId.bytes ≠ [] ∧ reply.deviceName.bytes ≠ []
  plain : 92 ∉ reply.type.bytes ∧ 92 ∉ reply.productId.bytes ∧ 92 ∉ reply.deviceName.bytes

end Reply

/-! ## Messages that can be read -/

/-- No string with a bracket or a backslash in it, and nothing of the compared strings empty. -/
theorem Reply.readable_of_quiet {reply : Reply} (hfits : reply.text.length < gatewayReceiveBufferLen)
    (hspaces : OnlySpaces reply.before ∧ OnlySpaces reply.inner) (hnamed : reply.doc.Named NamesOk)
    (hquiet : reply.doc.Strings Quiet) (hempty : reply.type.bytes ≠ [] ∧
      reply.productId.bytes ≠ [] ∧ reply.deviceName.bytes ≠ []) : reply.Readable := by
  have hentry : reply.entry.Strings Quiet :=
    Json.strings_of_lookup (w := .array (.last reply.inner reply.entry reply.outer)) hquiet
      reply.devices_eq
  have hbackslash : (92 : UInt8) ∈ [91, 93, 123, 125, 92] := by decide
  exact {
    fits := hfits
    spaces := hspaces
    named := hnamed
    type := scannable_of_quiet _ fun _ => Json.strings_of_mem hquiet
    devices := scannable_of_quiet _ fun _ => Json.strings_of_mem hquiet
    entry := fun _ _ => scannable_of_quiet _ fun _ => Json.strings_of_mem hentry
    notEmpty := hempty
    plain := ⟨Json.strings_of_lookup (w := .string reply.type) hquiet reply.type_eq 92 hbackslash,
      Json.strings_of_lookup (w := .string reply.productId) hentry reply.productId_eq 92 hbackslash,
      Json.strings_of_lookup (w := .string reply.deviceName) hentry reply.deviceName_eq 92
        hbackslash⟩ }

/-- A name without white space around it. -/
def fieldName (name : Bytes) (h : strRun .plain name = some .plain) : JsonName :=
  ⟨noSpace, ⟨name, h⟩, noSpace, noSpace⟩

/-- `{"product_id":…,"device_name":…,"result":…}`. -/
def plainEntry (productId deviceName : JsonString) (result : JsonNumber) : Json :=
  .object (.more (fieldName productIdField rfl) (.string productId) noSpace
    (.more (fieldName deviceNameField rfl) (.string deviceName) noSpace
      (.last (fieldName resultField rfl) (.number result) noSpace)))

/-- The form in which the replies come: the type, and in the payload the list of one device. -/
def plainReply (type productId deviceName : JsonString) (result : JsonNumber)
    (hinteger : result.frac = [] ∧ result.exponent = [])
    (hrange : -2 ^ 31 ≤ intValue result ∧ intValue result < 2 ^ 31)
    (hclientId : (clientIdText productId.bytes deviceName.bytes).length ≤ maxSizeOfClientId - 1) :
    Reply where
  typeName := type.bytes
  subdevProductId := productId.bytes
  subdevDeviceName := deviceName.bytes
  before := noSpace
  doc := .object (.more (fieldName typeField rfl) (.string type) noSpace
    (.last (fieldName payloadField rfl) (.object (.last (fieldName devicesField rfl)
      (.array (.last noSpace (plainEntry productId deviceName result) noSpace)) noSpace)) noSpace))
  after := noSpace
  type := type
  inner := noSpace
  entry := plainEntry productId deviceName result
  outer := noSpace
  productId := productId
  deviceName := deviceName
  result := result
  isObject := rfl
  type_eq := rfl
  devices_eq := rfl
  entry_isObject := rfl
  productId_eq := rfl
  deviceName_eq := rfl
  result_eq := rfl
  spelled := ⟨fun _ => rfl, fun _ => rfl, fun _ => rfl⟩
  integer := hinteger
  range := hrange
  clientIdFits := hclientId

/-- A reply in that form can be read. -/
theorem plainReply_readable {type productId deviceName : JsonString} {result : JsonNumber}
    {hinteger : result.frac = [] ∧ result.exponent = []}
    {hrange : -2 ^ 31 ≤ intValue result ∧ intValue result < 2 ^ 31}
    {hclientId : (clientIdText productId.bytes deviceName.bytes).length ≤ maxSizeOfClientId - 1}
    (hquiet : Quiet type.bytes ∧ Quiet productId.bytes ∧ Quiet deviceName.bytes)
    (hempty : type.bytes ≠ [] ∧ productId.bytes ≠ [] ∧ deviceName.bytes ≠ [])
    (hfits : (plainReply type productId deviceName result hinteger hrange hclientId).text.length <
      gatewayReceiveBufferLen) :
    (plainReply type productId deviceName result hinteger hrange hclientId).Readable := by
  have hspace : OnlySpaces noSpace := by decide
  have houter : NamesOk [typeField, payloadField] := by decide
  have hpayload : NamesOk [devicesField] := by decide
  have hentry : NamesOk [productIdField, deviceNameField, resultField] := by decide
  refine Reply.readable_of_quiet hfits ⟨hspace, hspace⟩ ?_ ?_ hempty
  · exact ⟨houter, trivial, hpayload, hentry, trivial, trivial, trivial⟩
  · exact ⟨⟨by decide, hquiet.1⟩, by decide, by decide, ⟨by decide, hquiet.2.1⟩,
      ⟨by decide, hquiet.2.2⟩, by decide, trivial⟩

/-! ## Reading a message -/

variable {reply : Reply}

/-- The devices as they are stripped. -/
def devicesStrip (reply : Reply) : Bytes :=
  reply.inner.bytes ++ reply.entry.text ++ (reply.outer.bytes ++ [93])

namespace Reply.Readable

theorem recvText (h : reply.Readable) : recvText reply.text = reply.text := by
  have hzero : 0 ∉ reply.text := reply.doc.zero_notMem_text reply.before reply.after
  have hmin : min (gatewayReceiveBufferLen - 1) reply.text.length = reply.text.length := by
    have hfits := h.fits
    omega
  rw [Gateway.recvText, hmin, List.take_length, upTo, List.takeWhile_eq_self_iff]
  intro c hc
  rw [decide_eq_true_iff]
  rintro rfl
  exact hzero hc

theorem getJsonType (h : reply.Readable) (beyond : Beyond) :
    getJsonType beyond reply.text = some reply.typeName := by
  have hfound := valueOf_lookup reply.isObject h.named h.spaces.1 (quote_notMem_space reply.after)
    (List.cons_ne_nil _ _) (by decide) h.type reply.type_eq h.notEmpty.1
  have hkey : liteJsonValueOf typeField reply.text = some (some reply.type.bytes) := hfound
  rw [Gateway.getJsonType, jsonValueOf, hkey, Option.getD_some, reply.spelled.1 h.plain.1]

theorem getJsonDevices (h : reply.Readable) (beyond : Beyond) :
    getJsonDevices beyond reply.text = some (91 :: devicesStrip reply) := by
  have hfound := valueOf_lookup reply.isObject h.named h.spaces.1 (quote_notMem_space reply.after)
    (List.cons_ne_nil _ _) (by decide) h.devices reply.devices_eq id
  have hkey : liteJsonValueOf (chars "payload.devices") reply.text =
      some (some (Json.array (.last reply.inner reply.entry reply.outer)).text) := hfound
  rw [Gateway.getJsonDevices, jsonValueOf, hkey, Option.getD_some, Json.text, JsonElements.text,
    devicesStrip, List.append_assoc (_ ++ _)]

/-- A member of the entry. -/
theorem entry_lookup (h : reply.Readable) {name : Bytes}
    (hname : name ∈ [resultField, productIdField, deviceNameField]) {v : Json}
    (hlookup : reply.entry.lookup [name] = some v) (hempty : ¬ IsEmpty v) (beyond : Option Bytes) :
    jsonValueOf beyond name (devicesStrip reply) = some (scanned v) := by
  have hnamed : reply.entry.Named NamesOk :=
    Json.named_of_lookup (w := .array (.last reply.inner reply.entry reply.outer)) h.named
      reply.devices_eq
  have hquiet : 34 ∉ reply.outer.bytes ++ [93] := by
    rw [List.mem_append, not_or]
    exact ⟨quote_notMem_space reply.outer, by decide⟩
  have hfields : ∀ n ∈ [resultField, productIdField, deviceNameField], NameOk n := by decide
  have hok : ∀ n ∈ [name], NameOk n := fun n hn => hfields n (List.mem_singleton.mp hn ▸ hname)
  have hfound := valueOf_lookup reply.entry_isObject hnamed h.spaces.2 hquiet (List.cons_ne_nil _ _)
    hok (h.entry name hname) hlookup hempty
  rw [List.intercalate_singleton] at hfound
  rw [jsonValueOf, devicesStrip, hfound, Option.getD_some]

theorem getJsonResult (h : reply.Readable) (beyond : Beyond) :
    getJsonResult beyond (devicesStrip reply) = some (intValue reply.result) := by
  rw [Gateway.getJsonResult, h.entry_lookup (by decide) reply.result_eq id, Option.bind_some]
  exact scanInt_mantissa reply.integer.1

theorem getJsonProductId (h : reply.Readable) (beyond : Beyond) :
    getJsonProductId beyond (devicesStrip reply) = some reply.subdevProductId := by
  rw [Gateway.getJsonProductId, h.entry_lookup (by decide) reply.productId_eq h.notEmpty.2.1,
    scanned, reply.spelled.2.1 h.plain.2.1]

theorem getJsonDeviceName (h : reply.Readable) (beyond : Beyond) :
    getJsonDeviceName beyond (devicesStrip reply) = some reply.subdevDeviceName := by
  rw [Gateway.getJsonDeviceName, h.entry_lookup (by decide) reply.deviceName_eq h.notEmpty.2.2,
    scanned, reply.spelled.2.2 h.plain.2.2]

/-- **What the handler does** with a message that it can read. -/
theorem handler_result (h : reply.Readable) (beyond : Beyond) (g : GatewayContext) {topicLen : Nat}
    (htopic : topicLen ≠ 0) (op : Operation) :
    ((gatewayMessageHandler beyond g topicLen reply.text).slot op).result =
      if op.word <+: reply.typeName ∧ reply.clientId <+: (g.slot op).clientId then
        intValue reply.result
      else (g.slot op).result := by
  have hlen : ¬ reply.text.length > gatewayReceiveBufferLen :=
    Nat.not_lt_of_le (Nat.le_of_lt h.fits)
  have hclientId : reply.clientId.length ≤ maxSizeOfClientId :=
    Nat.le_trans reply.clientIdFits (Nat.sub_le ..)
  unfold gatewayMessageHandler
  rw [if_neg htopic, if_neg hlen, h.recvText]
  simp only [h.getJsonType, h.getJsonDevices, List.head?_cons, if_true, List.tail_cons,
    h.getJsonResult, h.getJsonProductId, h.getJsonDeviceName]
  by_cases hdescribe : describeSubDevices <+: reply.typeName
  · rw [if_pos (strncmpEq_iff.mpr hdescribe),
      if_neg fun hboth => word_not_describe hboth.1 hdescribe]
  · rw [if_neg (mt strncmpEq_iff.mp hdescribe)]
    exact takeResult_result g reply.typeName (intValue reply.result) op hclientId

end Reply.Readable

/-! ## Runs -/

/-- A message, as it comes in. -/
structure Inbound where
  reply : Reply
  topicLen : Nat
  topicLen_pos : topicLen ≠ 0
  beyond : Beyond

def receive (g : GatewayContext) (m : Inbound) : GatewayContext :=
  gatewayMessageHandler m.beyond g m.topicLen m.reply.text

/-- The operation on the subdevice waits: its client id is written where the replies are compared. -/
def Pending (g : GatewayContext) (op : Operation) (param : GatewayParam) : Prop :=
  (g.slot op).clientId =
    (clientIdText param.subdevProductId param.subdevDeviceName).take (maxSizeOfClientId - 1)

/-- The client id is not cut off. -/
theorem Pending.clientId {g : GatewayContext} {op : Operation} {param : GatewayParam}
    (h : Pending g op param) :
    (g.slot op).clientId = clientIdText param.subdevProductId param.subdevDeviceName := by
  have hp := param.productId_le
  have hd := param.deviceName_le
  rw [h]
  refine List.take_of_length_le ?_
  rw [clientIdText, List.length_append, List.length_append, show (chars "/").length = 1 from rfl]
  simp only [maxSizeOfProductId, maxSizeOfDeviceName, maxSizeOfClientId] at hp hd ⊢
  omega

variable (op : Operation) (param : GatewayParam)

/-- The message sets the result of the operation to its own if it is the reply to it, and else leaves
it. -/
def Attributed (g : GatewayContext) (m : Inbound) : Prop :=
  ((receive g m).slot op).result =
    if m.reply.IsFor op param then intValue m.reply.result else (g.slot op).result

instance (g : GatewayContext) (m : Inbound) : Decidable (Attributed op param g m) :=
  inferInstanceAs (Decidable (_ = _))

/-- It is no reply to something else whose type starts with the operation's name, whose client id the
subdevice's starts with, and whose result is another. -/
def NotConfused (g : GatewayContext) (m : Inbound) : Prop :=
  op.word <+: m.reply.typeName →
    m.reply.clientId <+: clientIdText param.subdevProductId param.subdevDeviceName →
      m.reply.IsFor op param ∨ intValue m.reply.result = (g.slot op).result

variable {op param} {g : GatewayContext}

theorem receive_pending (h : Pending g op param) (m : Inbound) : Pending (receive g m) op param :=
  (gatewayMessageHandler_clientId ..).trans h

/-- **One message** that can be read. -/
theorem attributed_iff (h : Pending g op param) {m : Inbound} (hread : m.reply.Readable) :
    Attributed op param g m ↔ NotConfused op param g m := by
  have hresult := hread.handler_result m.beyond g m.topicLen_pos op
  rw [h.clientId] at hresult
  unfold Attributed NotConfused receive
  rw [hresult]
  by_cases hfor : m.reply.IsFor op param
  · obtain ⟨htype, hpair⟩ := hfor
    have hclientId : m.reply.clientId = clientIdText param.subdevProductId param.subdevDeviceName :=
      congrArg (fun p : Bytes × Bytes => clientIdText p.1 p.2) hpair
    have hword : op.word <+: m.reply.typeName := htype ▸ List.prefix_rfl
    have hpre : m.reply.clientId <+: clientIdText param.subdevProductId param.subdevDeviceName :=
      hclientId ▸ List.prefix_rfl
    rw [if_pos ⟨hword, hpre⟩, if_pos ⟨htype, hpair⟩]
    exact iff_of_true rfl fun _ _ => .inl ⟨htype, hpair⟩
  · rw [if_neg hfor]
    by_cases hmatch : op.word <+: m.reply.typeName ∧
        m.reply.clientId <+: clientIdText param.subdevProductId param.subdevDeviceName
    · rw [if_pos hmatch]
      exact ⟨fun heq _ _ => .inr heq, fun hnot => (hnot hmatch.1 hmatch.2).resolve_left hfor⟩
    · rw [if_neg hmatch]
      exact iff_of_true rfl fun htype hclientId => absurd ⟨htype, hclientId⟩ hmatch

/-- **Attribution of replies**, in every run of messages that can be read while the operation waits:
each sets its result iff it is the reply to it, iff none of them is confused with it. -/
theorem replies_attributed_iff (op : Operation) (param : GatewayParam) (g : GatewayContext)
    (hpending : Pending g op param) (messages : List Inbound)
    (hread : ∀ m ∈ messages, m.reply.Readable) :
    Meets receive (Attributed op param) g messages ↔
      Meets receive (NotConfused op param) g messages :=
  meets_iff_of_invariant_of (Pending · op param)
    (fun _ m h hm => ⟨attributed_iff h hm, fun _ => receive_pending h m⟩) messages hpending
    (meets_of_forall hread)

/-! ## Two subdevices -/

/-- A subdevice of product `P` has gone online. -/
def onlineReply (deviceName : JsonString) (h : deviceName.bytes.length ≤ maxSizeOfDeviceName) : Reply :=
  plainReply ⟨chars "online", rfl⟩ ⟨chars "P", rfl⟩ deviceName
    .zero JsonNumber.zero_integer (by decide)
    (by
      rw [clientIdText, List.length_append, List.length_append]
      exact Nat.le_trans (Nat.add_le_add_left h 2) (by decide))

/-- `dev1` is to go online. -/
def dev1Pending : GatewayContext := { online := ⟨qcloudErrFailure, chars "P/dev1"⟩ }

/-- That of `cam` comes first. -/
def camFirst : List Inbound :=
  [⟨onlineReply ⟨chars "cam", rfl⟩ (by decide), 1, by decide, {}⟩,
    ⟨onlineReply ⟨chars "dev1", rfl⟩ (by decide), 1, by decide, {}⟩]

theorem replies_attributed_camFirst : Meets receive
    (Attributed .online (subdevice (chars "dev1") (by decide))) dev1Pending camFirst := by
  have hread : ∀ m ∈ camFirst, m.reply.Readable := by
    intro m hm
    rcases List.mem_pair.mp hm with rfl | rfl
    · exact plainReply_readable (by decide) (by decide) (by decide)
    · exact plainReply_readable (by decide) (by decide) (by decide)
  have hpending : Pending dev1Pending .online (subdevice (chars "dev1") (by decide)) := rfl
  refine (replies_attributed_iff _ _ dev1Pending hpending camFirst hread).mpr ⟨?_, ?_, trivial⟩
  · exact fun _ hpre => absurd hpre (by decide)
  · exact fun _ _ => .inl ⟨rfl, rfl⟩

/-- A reply for `dev` sets the result of `dev1`. -/
theorem replies_misattributed : Pending dev1Pending .online (subdevice (chars "dev1") (by decide)) ∧
    (onlineReply ⟨chars "dev", rfl⟩ (by decide)).Readable ∧
    ¬ (onlineReply ⟨chars "dev", rfl⟩ (by decide)).IsFor .online (subdevice (chars "dev1") (by decide)) ∧
    ¬ Meets receive (Attributed .online (subdevice (chars "dev1") (by decide))) dev1Pending
      [⟨onlineReply ⟨chars "dev", rfl⟩ (by decide), 1, by decide, {}⟩] := by
  refine ⟨rfl, plainReply_readable (by decide) (by decide) (by decide), by decide, fun h => ?_⟩
  exact absurd h.1 (by decide)

end QcloudIot.Gateway
