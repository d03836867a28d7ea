import Mathlib.Data.List.Nodup
import QcloudIot.Lib.Run
import QcloudIot.Shadow.Json
import QcloudIot.Utils.Scan

/-!
# Shadow requests

`shadow_client_manager.c`: the requests that wait for their replies, the messages on the operation
result topic, and the requests that expire; `do_shadow_request` in the threads of the application, as
the two steps it takes, up to the publish and from there on.

* A timer is the millisecond it expires at. The callbacks make no requests and do not yield.
* The properties, which a reply may update, are in `Shadow.Delta`; `NULL` arguments and topics are left
  out.
* A lookup that reads on behind its string returns what it meets there (`beyond`), and a token without
  an end goes on with what stands behind it (`junk`).
* An `id` tells requests apart; the log and `sent` are not kept by the code.

* `Swept`: what a traversal removes and tells (`onOperationResult_swept`, `handleExpiredRequest_swept`);
* `inv_run`: the invariant of every run;
* `gone_run`: a request that has left the list is told nothing more.
-/

namespace QcloudIot.Shadow

open Lib Utils

/-! ## Requests -/

/-- A function pointer of the application. -/
abbrev FnPtr := Nat

/-- `Method`. -/
inductive Method where
  | get | update
  deriving DecidableEq, Repr

/-- Its text in the field `type`. -/
def Method.text : Method → Bytes
  | .get => ascii "get"
  | .update => ascii "update"

/-- `RequestAck`. -/
inductive RequestAck where
  | none | timeout | rejected | accepted
  deriving DecidableEq, Repr

/-- `RequestParams`. -/
structure RequestParams where
  method : Method
  timeoutSec : UInt8
  requestCallback : Option FnPtr
  userContext : Nat
  deriving DecidableEq, Repr

/-- `_init_request_params`, with the milliseconds of the caller. -/
def initRequestParams (method : Method) (callback : Option FnPtr) (userContext : Nat)
    (timeoutMs : UInt32) : RequestParams :=
  ⟨method, (timeoutMs / 1000).toUInt8, callback, userContext⟩

/-- `Request`; `clientToken` is the string at that field. -/
structure Request where
  id : Nat
  clientToken : Bytes
  method : Method
  userContext : Nat
  timer : Nat
  callback : Option FnPtr
  deriving DecidableEq, Repr

/-- An entry of the log: a request is added to the list, its callback is called with the document
received, it is removed from the list. -/
inductive Ev where
  | added (r : Request)
  | called (r : Request) (ack : RequestAck) (doc : Bytes)
  | removed (r : Request)
  deriving DecidableEq, Repr

/-- `Qcloud_IoT_Shadow`: `request_list` and the string in `shadow_recv_buf`. -/
structure QcloudIotShadow where
  requestList : List Request
  recvBuf : Bytes
  log : List Ev

/-- What the functions return. -/
inductive RequestCode where
  | retSuccess | errMaxAppendingRequest | errFailure
  deriving DecidableEq, Repr

/-- `MAX_APPENDING_REQUEST_AT_ANY_GIVEN_TIME`. -/
def maxAppendingRequestAtAnyGivenTime : Nat := 10

/-- `MAX_SIZE_OF_CLIENT_TOKEN`. -/
def maxSizeOfClientToken : Nat := 90

/-- `CLOUD_IOT_JSON_RX_BUF_LEN`. -/
def cloudIotJsonRxBufLen : Nat := 2048 + 1

/-! ## Lookups -/

def typeField : Bytes := ascii "type"
def clientTokenField : Bytes := ascii "clientToken"
def resultField : Bytes := ascii "result"
def operationDelta : Bytes := ascii "delta"

/-- `LITE_json_value_of`; what it returns where it reads on behind the string. -/
def liteValueOf (beyond : Option Bytes) (key src : Bytes) : Option Bytes :=
  (liteJsonValueOf key src).getD beyond

/-- What lies behind the strings, for each lookup. -/
structure Beyond where
  type : Option Bytes := none
  clientToken : Option Bytes := none
  result : Option Bytes := none

/-- `parse_client_token`. -/
def parseClientToken (beyond : Beyond) (doc : Bytes) : Option Bytes :=
  liteValueOf beyond.clientToken clientTokenField doc

/-- `parse_shadow_operation_type`. -/
def parseShadowOperationType (beyond : Beyond) (doc : Bytes) : Option Bytes :=
  liteValueOf beyond.type typeField doc

/-- `parse_shadow_operation_result_code`. -/
def parseShadowOperationResultCode (beyond : Beyond) (doc : Bytes) : Option Int16 :=
  ((liteValueOf beyond.result resultField doc).bind scanInt).map Int16.ofInt

/-- `_set_shadow_json_type`: the document with its type, where it fits. -/
def setShadowJsonType (doc : Bytes) (sizeOfBuffer : UInt32) (method : Method) : Option Bytes :=
  let node := ascii "\"type\":\"" ++ method.text ++ ascii "\", "
  let remainSize := sizeOfBuffer - UInt32.ofNat doc.length
  if node.length ≥ (remainSize - 1).toNat then none else some (doc.take 1 ++ node ++ doc.drop 1)

namespace QcloudIotShadow

/-! ## The list -/

/-- `list_remove`. -/
def listRemove (s : QcloudIotShadow) (r : Request) : QcloudIotShadow :=
  { s with
    requestList := s.requestList.filter fun q => q.id ≠ r.id
    log := s.log ++ [.removed r] }

/-- `if (request->callback != NULL)` and the call. -/
def callRequest (s : QcloudIotShadow) (r : Request) (ack : RequestAck) : QcloudIotShadow :=
  if r.callback = none then s else { s with log := s.log ++ [.called r ack s.recvBuf] }

/-- `_handle_request_callback`. -/
def handleRequestCallback (clientToken : Bytes) (beyond : Beyond) (s : QcloudIotShadow) (r : Request) : QcloudIotShadow :=
  if r.clientToken = clientToken then
    match parseShadowOperationResultCode beyond s.recvBuf with
    | some code => (s.callRequest r (if code = 0 then .accepted else .rejected)).listRemove r
    | none => s.listRemove r
  else s

/-- `_handle_expired_request_callback`. -/
def handleExpiredRequestCallback (clock : Nat) (s : QcloudIotShadow) (r : Request) : QcloudIotShadow :=
  if r.timer ≤ clock then (s.callRequest r .timeout).listRemove r else s

/-- `_traverse_list`, from the tail; `iterOk` says whether there is memory for the iterator. -/
def traverseList (iterOk : Bool) (traverseHandle : QcloudIotShadow → Request → QcloudIotShadow) (s : QcloudIotShadow) : QcloudIotShadow :=
  if s.requestList.length ≠ 0 ∧ iterOk then s.requestList.reverse.foldl traverseHandle s else s

end QcloudIotShadow

/-! ## The steps of a client -/

/-- What a message meets. -/
structure InboundEnv where
  iterOk : Bool := true
  beyond : Beyond := {}

/-- What `handle_expired_request` meets. -/
structure ExpireEnv where
  iterOk : Bool := true
  clock : Nat

/-- What `_add_request_to_list` meets: memory for the request and for the node, the clock, and what
stands behind `client_token`. -/
structure AddEnv where
  requestAlloc : Bool := true
  nodeAlloc : Bool := true
  clock : Nat := 0
  junk : Bytes := []

/-- A call of `do_shadow_request` that has published its document. -/
structure Call where
  id : Nat
  token : Bytes
  doc : Bytes
  params : RequestParams
  deriving DecidableEq, Repr

/-- The string that `strncpy` leaves at `client_token`. -/
def storedToken (token junk : Bytes) : Bytes :=
  if token.length < maxSizeOfClientToken then token else token.take maxSizeOfClientToken ++ junk

/-- The request of a call. -/
def Call.request (call : Call) (env : AddEnv) : Request where
  id := call.id
  clientToken := storedToken call.token env.junk
  method := call.params.method
  userContext := call.params.userContext
  timer := env.clock + 1000 * call.params.timeoutSec.toNat
  callback := call.params.requestCallback

/-- The string that a message leaves in `shadow_recv_buf`. -/
def receivedDoc (payload : Bytes) : Bytes :=
  (payload.take (min (cloudIotJsonRxBufLen - 1) payload.length)).takeWhile (· ≠ 0)

namespace QcloudIotShadow

/-- `_add_request_to_list`. -/
def addRequestToList (s : QcloudIotShadow) (call : Call) (env : AddEnv) : RequestCode × QcloudIotShadow :=
  if s.requestList.length ≥ maxAppendingRequestAtAnyGivenTime then (.errMaxAppendingRequest, s)
  else if ¬ env.requestAlloc then (.errFailure, s)
  else if ¬ env.nodeAlloc then (.errFailure, s)
  else
    (.retSuccess, { s with
      requestList := s.requestList ++ [call.request env]
      log := s.log ++ [.added (call.request env)] })

/-- `_on_operation_result_handler`. -/
def onOperationResultHandler (s : QcloudIotShadow) (payload : Bytes) (env : InboundEnv) : QcloudIotShadow :=
  if payload.length > cloudIotJsonRxBufLen then s
  else
    let s := { s with recvBuf := receivedDoc payload }
    match parseShadowOperationType env.beyond s.recvBuf with
    | none => s
    | some type =>
      if type = operationDelta then s
      else
        match parseClientToken env.beyond s.recvBuf with
        | none => s
        | some clientToken => s.traverseList env.iterOk (handleRequestCallback clientToken env.beyond)

/-- `handle_expired_request`. -/
def handleExpiredRequest (s : QcloudIotShadow) (env : ExpireEnv) : QcloudIotShadow :=
  s.traverseList env.iterOk (handleExpiredRequestCallback env.clock)

end QcloudIotShadow

/-- The client and its threads: the calls that have published and have not yet gone on, and all that
have published. -/
structure Client where
  shadow : QcloudIotShadow
  pending : List Call
  sent : List Call
  nextId : Nat

/-- The steps: `do_shadow_request` up to the publish, with what this returns, and from there on; a
message; the requests that expire. -/
inductive Act where
  | publish (doc : Bytes) (sizeOfBuffer : UInt32) (params : RequestParams) (rc : Int) (beyond : Beyond)
  | add (id : Nat) (env : AddEnv)
  | inbound (payload : Bytes) (env : InboundEnv)
  | expire (env : ExpireEnv)

namespace Client

/-- `do_shadow_request`, up to the publish. -/
def publish (c : Client) (doc : Bytes) (sizeOfBuffer : UInt32) (params : RequestParams) (rc : Int)
    (beyond : Beyond) : Client :=
  match parseClientToken beyond doc with
  | none => c
  | some token =>
    match setShadowJsonType doc sizeOfBuffer params.method with
    | none => c
    | some doc =>
      if rc < 0 then c
      else
        let call : Call := ⟨c.nextId, token, doc, params⟩
        { c with pending := c.pending ++ [call], sent := c.sent ++ [call], nextId := c.nextId + 1 }

/-- `do_shadow_request`, from there on. -/
def add (c : Client) (id : Nat) (env : AddEnv) : Client :=
  match c.pending.find? fun call => call.id = id with
  | none => c
  | some call =>
    { c with
      pending := c.pending.filter fun call => call.id ≠ id
      shadow := (c.shadow.addRequestToList call env).2 }

def step (c : Client) : Act → Client
  | .publish doc sizeOfBuffer params rc beyond => c.publish doc sizeOfBuffer params rc beyond
  | .add id env => c.add id env
  | .inbound payload env => { c with shadow := c.shadow.onOperationResultHandler payload env }
  | .expire env => { c with shadow := c.shadow.handleExpiredRequest env }

/-- As `qcloud_iot_shadow_init` leaves it. -/
def init : Client := ⟨⟨[], [], []⟩, [], [], 0⟩

end Client

/-! ## What the log tells -/

/-- The acknowledgement that the callback of a request is called with. -/
def Ev.ack? (id : Nat) : Ev → Option RequestAck
  | .called r ack _ => if r.id = id then some ack else none
  | _ => none

/-- All those of a request. -/
def acks (log : List Ev) (id : Nat) : List RequestAck := log.filterMap (Ev.ack? id)

def Ev.added? : Ev → Option Request
  | .added r => some r
  | _ => none

/-- The requests that have been added to the list. -/
def addedIn (log : List Ev) : List Request := log.filterMap Ev.added?

theorem acks_append (a b : List Ev) (id : Nat) : acks (a ++ b) id = acks a id ++ acks b id :=
  List.filterMap_append

theorem addedIn_append (a b : List Ev) : addedIn (a ++ b) = addedIn a ++ addedIn b :=
  List.filterMap_append

/-! ## Traversals -/

/-- What is logged of a request that is removed: the call of its callback, if it has one and there is
an acknowledgement. -/
def answer (ack : Option RequestAck) (doc : Bytes) (r : Request) : List Ev :=
  (if r.callback = none then [] else ack.toList.map fun ack => .called r ack doc) ++ [.removed r]

/-- The acknowledgements among it. -/
def told (ack : Option RequestAck) (r : Request) : List RequestAck :=
  if r.callback = none then [] else ack.toList

theorem acks_answer (ack : Option RequestAck) (doc : Bytes) (r : Request) (id : Nat) :
    acks (answer ack doc r) id = if r.id = id then told ack r else [] := by
  unfold answer told
  rw [acks_append, show acks [Ev.removed r] id = [] from rfl, List.append_nil]
  by_cases hcallback : r.callback = none
  · rw [if_pos hcallback, if_pos hcallback, ite_self]
    rfl
  · rw [if_neg hcallback, if_neg hcallback]
    cases ack with
    | none => exact (ite_self _).symm
    | some ack =>
      by_cases hid : r.id = id
      · rw [if_pos hid]
        exact List.filterMap_cons_some (if_pos hid)
      · rw [if_neg hid]
        exact List.filterMap_cons_none (if_neg hid)

theorem addedIn_answer (ack : Option RequestAck) (doc : Bytes) (r : Request) :
    addedIn (answer ack doc r) = [] := by
  unfold answer
  split
  · rfl
  · cases ack <;> rfl

/-- A step of a traversal: a request that meets `p` is told and removed. -/
def sweepOne (p : Request → Bool) (ack : Option RequestAck) (doc : Bytes)
    (s : QcloudIotShadow) (r : Request) : QcloudIotShadow :=
  if p r then
    { s with
      requestList := s.requestList.filter fun q => q.id ≠ r.id
      log := s.log ++ answer ack doc r }
  else s

/-- The requests `rs`, one after the other. -/
theorem foldl_sweepOne (p : Request → Bool) (ack : Option RequestAck) (doc : Bytes) :
    ∀ (rs : List Request) (s : QcloudIotShadow), rs.foldl (sweepOne p ack doc) s =
      { s with
        requestList := s.requestList.filter fun q => !(rs.any fun r => p r && r.id = q.id)
        log := s.log ++ (rs.filter p).flatMap (answer ack doc) } := by
  intro rs
  induction rs with
  | nil =>
    intro s
    simp only [List.foldl_nil, List.any_nil, Bool.not_false, List.filter_true, List.filter_nil,
      List.flatMap_nil, List.append_nil]
  | cons r rs ih =>
    intro s
    rw [List.foldl_cons, ih, sweepOne]
    by_cases hr : p r = true
    · rw [if_pos hr, List.filter_cons_of_pos hr]
      simp only [List.filter_filter, List.any_cons, hr, Bool.true_and, List.flatMap_cons,
        List.append_assoc]
      refine congrArg (fun l => QcloudIotShadow.mk l s.recvBuf _) (List.filter_congr fun q _ => ?_)
      rw [Bool.not_or, Bool.and_comm]
      refine congrArg (· && _) ?_
      rw [← decide_not]
      exact decide_eq_decide.mpr ne_comm
    · rw [if_neg hr, List.filter_cons_of_neg hr]
      simp only [List.any_cons, Bool.eq_false_iff.mpr hr, Bool.false_and, Bool.false_or]

/-- A handle that sweeps with the document it finds in the buffer. -/
theorem foldl_handle {p : Request → Bool} {ack : Bytes → Option RequestAck}
    {handle : QcloudIotShadow → Request → QcloudIotShadow}
    (h : ∀ s r, handle s r = sweepOne p (ack s.recvBuf) s.recvBuf s r) :
    ∀ (rs : List Request) (s : QcloudIotShadow),
      rs.foldl handle s = rs.foldl (sweepOne p (ack s.recvBuf) s.recvBuf) s := by
  intro rs
  induction rs with
  | nil => intro s; rfl
  | cons r rs ih =>
    intro s
    have hbuf : (handle s r).recvBuf = s.recvBuf := by
      rw [h, sweepOne]
      split <;> rfl
    rw [List.foldl_cons, List.foldl_cons, ih, hbuf, h]

theorem acks_answers (ack : Option RequestAck) (doc : Bytes) : ∀ {rs : List Request},
    (rs.map (·.id)).Nodup →
      (∀ r ∈ rs, acks (rs.flatMap (answer ack doc)) r.id = told ack r) ∧
      ∀ id, id ∉ rs.map (·.id) → acks (rs.flatMap (answer ack doc)) id = [] := by
  intro rs
  induction rs with
  | nil => exact fun _ => ⟨fun _ h => absurd h List.not_mem_nil, fun _ _ => rfl⟩
  | cons q rs ih =>
    intro h
    obtain ⟨hq, hrs⟩ := List.nodup_cons.mp h
    obtain ⟨hmem, hother⟩ := ih hrs
    constructor
    · intro r hr
      rw [List.flatMap_cons, acks_append, acks_answer]
      rcases List.mem_cons.mp hr with rfl | hr
      · rw [if_pos rfl, hother r.id hq, List.append_nil]
      · have hne : q.id ≠ r.id := fun heq => hq (List.mem_map.mpr ⟨r, hr, heq.symm⟩)
        rw [if_neg hne, List.nil_append, hmem r hr]
    · intro id hid
      rw [List.map_cons, List.mem_cons, not_or] at hid
      rw [List.flatMap_cons, acks_append, acks_answer, if_neg (Ne.symm hid.1), List.nil_append,
        hother id hid.2]

theorem addedIn_answers (ack : Option RequestAck) (doc : Bytes) (rs : List Request) :
    addedIn (rs.flatMap (answer ack doc)) = [] := by
  induction rs with
  | nil => rfl
  | cons r rs ih => rw [List.flatMap_cons, addedIn_append, addedIn_answer, ih, List.append_nil]

/-- What a traversal does: the requests that meet `p` are told and removed, all others stay. -/
structure Swept (s s' : QcloudIotShadow) (p : Request → Bool) (ack : Option RequestAck) : Prop where
  list : s'.requestList = s.requestList.filter fun r => !p r
  acks_told : ∀ r ∈ s.requestList, p r = true → acks s'.log r.id = acks s.log r.id ++ told ack r
  acks_other : ∀ id, (∀ r ∈ s.requestList, p r = true → r.id ≠ id) → acks s'.log id = acks s.log id
  added : addedIn s'.log = addedIn s.log

/-- Nothing is swept. -/
theorem Swept.nothing {s s' : QcloudIotShadow} {p : Request → Bool} (ack : Option RequestAck)
    (hlist : s'.requestList = s.requestList) (hlog : s'.log = s.log)
    (hp : ∀ r ∈ s.requestList, p r = false) : Swept s s' p ack where
  list := by
    rw [hlist, List.filter_eq_self.mpr]
    intro r hr
    rw [hp r hr]
    rfl
  acks_told r hr h := absurd h (by rw [hp r hr]; decide)
  acks_other _ _ := by rw [hlog]
  added := by rw [hlog]

/-- **What a traversal removes and tells.** -/
theorem traverse_eq {s : QcloudIotShadow} (hids : (s.requestList.map (·.id)).Nodup)
    {p : Request → Bool} (ack : Bytes → Option RequestAck)
    {handle : QcloudIotShadow → Request → QcloudIotShadow}
    (h : ∀ s r, handle s r = sweepOne p (ack s.recvBuf) s.recvBuf s r) (iterOk : Bool) :
    Swept s (s.traverseList iterOk handle) (fun r => iterOk && p r) (ack s.recvBuf) := by
  unfold QcloudIotShadow.traverseList
  split
  · rename_i hsome
    have hrun := foldl_handle h s.requestList.reverse s
    have hrev : ((s.requestList.reverse.filter p).map (·.id)).Nodup := by
      refine ((List.filter_sublist).map _).nodup ?_
      rw [List.map_reverse, List.nodup_reverse]
      exact hids
    obtain ⟨hmem, hother⟩ := acks_answers (ack s.recvBuf) s.recvBuf hrev
    rw [hrun, foldl_sweepOne]
    simp only [hsome.2, Bool.true_and]
    refine ⟨List.filter_congr fun q hq => congrArg (!·) ?_, fun r hr hp => ?_, fun id hid => ?_, ?_⟩
    · rw [Bool.eq_iff_iff, List.any_eq_true]
      constructor
      · rintro ⟨r, hr, hpr⟩
        rw [Bool.and_eq_true, decide_eq_true_iff] at hpr
        rw [← List.inj_on_of_nodup_map hids (List.mem_reverse.mp hr) hq hpr.2]
        exact hpr.1
      · intro hpq
        exact ⟨q, List.mem_reverse.mpr hq, by rw [hpq, decide_eq_true rfl]; rfl⟩
    · rw [acks_append, hmem r (List.mem_filter.mpr ⟨List.mem_reverse.mpr hr, hp⟩)]
    · rw [acks_append, hother id, List.append_nil]
      intro hin
      obtain ⟨r, hr, rfl⟩ := List.mem_map.mp hin
      obtain ⟨hr, hp⟩ := List.mem_filter.mp hr
      exact hid r (List.mem_reverse.mp hr) hp rfl
    · rw [addedIn_append, addedIn_answers, List.append_nil]
  · rename_i hnone
    refine .nothing _ rfl rfl fun r hr => ?_
    have hlen : s.requestList.length ≠ 0 := by
      rw [ne_eq, List.length_eq_zero_iff]
      exact List.ne_nil_of_mem hr
    rw [Bool.and_eq_false_iff, Bool.eq_false_iff]
    exact .inl fun hiter => hnone ⟨hlen, hiter⟩

/-! ## Messages and expiries -/

/-- The token of a message that the list is searched for. -/
def replyToken (payload : Bytes) (beyond : Beyond) : Option Bytes :=
  if payload.length > cloudIotJsonRxBufLen then none
  else
    (parseShadowOperationType beyond (receivedDoc payload)).bind fun type =>
      if type = operationDelta then none else parseClientToken beyond (receivedDoc payload)

/-- The acknowledgement that a document carries. -/
def ackOf (beyond : Beyond) (doc : Bytes) : Option RequestAck :=
  (parseShadowOperationResultCode beyond doc).map fun code =>
    if code = 0 then .accepted else .rejected

theorem handleRequestCallback_eq (clientToken : Bytes) (beyond : Beyond) (s : QcloudIotShadow)
    (r : Request) : s.handleRequestCallback clientToken beyond r =
      sweepOne (fun r => r.clientToken = clientToken) (ackOf beyond s.recvBuf) s.recvBuf s r := by
  unfold QcloudIotShadow.handleRequestCallback sweepOne answer ackOf
  by_cases htoken : r.clientToken = clientToken
  · rw [if_pos htoken, if_pos (decide_eq_true htoken)]
    cases parseShadowOperationResultCode beyond s.recvBuf with
    | none =>
      rw [Option.map_none, Option.toList_none, List.map_nil, ite_self]
      rfl
    | some code =>
      unfold QcloudIotShadow.callRequest
      by_cases hcallback : r.callback = none
      · simp only [if_pos hcallback]
        rfl
      · simp only [if_neg hcallback, QcloudIotShadow.listRemove, List.append_assoc]
        rfl
  · rw [if_neg htoken, if_neg (by rwa [decide_eq_true_iff])]

theorem handleExpired_eq (clock : Nat) (s : QcloudIotShadow) (r : Request) :
    s.handleExpiredRequestCallback clock r =
      sweepOne (fun r => r.timer ≤ clock) (some .timeout) s.recvBuf s r := by
  unfold QcloudIotShadow.handleExpiredRequestCallback sweepOne answer
  by_cases hexpired : r.timer ≤ clock
  · rw [if_pos hexpired, if_pos (decide_eq_true hexpired)]
    unfold QcloudIotShadow.callRequest
    by_cases hcallback : r.callback = none
    · simp only [if_pos hcallback]
      rfl
    · simp only [if_neg hcallback, QcloudIotShadow.listRemove, List.append_assoc]
      rfl
  · rw [if_neg hexpired, if_neg (by rwa [decide_eq_true_iff])]

/-- A message is not for the list, or the list is searched for its token. -/
theorem onOperationResult_cases (s : QcloudIotShadow) (payload : Bytes) (env : InboundEnv) :
    (replyToken payload env.beyond = none ∧
      (s.onOperationResultHandler payload env).requestList = s.requestList ∧
      (s.onOperationResultHandler payload env).log = s.log) ∨
    ∃ clientToken, replyToken payload env.beyond = some clientToken ∧
      s.onOperationResultHandler payload env =
        { s with recvBuf := receivedDoc payload }.traverseList env.iterOk
          (QcloudIotShadow.handleRequestCallback clientToken env.beyond) := by
  unfold QcloudIotShadow.onOperationResultHandler replyToken
  by_cases hlong : payload.length > cloudIotJsonRxBufLen
  · rw [if_pos hlong, if_pos hlong]
    exact .inl ⟨rfl, rfl, rfl⟩
  rw [if_neg hlong, if_neg hlong]
  simp only
  cases parseShadowOperationType env.beyond (receivedDoc payload) with
  | none => exact .inl ⟨rfl, rfl, rfl⟩
  | some type =>
    simp only [Option.bind_some]
    by_cases hdelta : type = operationDelta
    · rw [if_pos hdelta, if_pos hdelta]
      exact .inl ⟨rfl, rfl, rfl⟩
    rw [if_neg hdelta, if_neg hdelta]
    cases parseClientToken env.beyond (receivedDoc payload) with
    | none => exact .inl ⟨rfl, rfl, rfl⟩
    | some clientToken => exact .inr ⟨clientToken, rfl, rfl⟩

/-- **A message** answers the requests that carry its token. -/
theorem onOperationResult_swept {s : QcloudIotShadow} (hids : (s.requestList.map (·.id)).Nodup)
    (payload : Bytes) (env : InboundEnv) :
    Swept s (s.onOperationResultHandler payload env)
      (fun r => env.iterOk && replyToken payload env.beyond = some r.clientToken)
      (ackOf env.beyond (receivedDoc payload)) := by
  rcases onOperationResult_cases s payload env with ⟨hnone, hlist, hlog⟩ | ⟨clientToken, hsome, hrun⟩
  · refine .nothing _ hlist hlog fun r _ => ?_
    rw [hnone]
    exact Bool.and_false _
  · have h := traverse_eq (s := { s with recvBuf := receivedDoc payload }) hids
      (ackOf env.beyond) (handleRequestCallback_eq clientToken env.beyond) env.iterOk
    rw [← hrun] at h
    have hp : (fun r : Request => env.iterOk && replyToken payload env.beyond = some r.clientToken) =
        fun r => env.iterOk && r.clientToken = clientToken := by
      funext r
      rw [hsome]
      exact congrArg (env.iterOk && ·) (decide_eq_decide.mpr
        ⟨fun h => (Option.some.inj h).symm, fun h => congrArg some h.symm⟩)
    rw [hp]
    exact ⟨h.list, h.acks_told, h.acks_other, h.added⟩

/-- **The requests that have expired** are told so. -/
theorem handleExpiredRequest_swept {s : QcloudIotShadow} (hids : (s.requestList.map (·.id)).Nodup)
    (env : ExpireEnv) : Swept s (s.handleExpiredRequest env)
      (fun r => env.iterOk && r.timer ≤ env.clock) (some .timeout) :=
  traverse_eq hids (fun _ => some .timeout) (handleExpired_eq env.clock) env.iterOk

/-! ## The invariant -/

/-- The call that goes on. -/
theorem Client.add_cases (c : Client) (id : Nat) (env : AddEnv) :
    c.add id env = c ∨ ∃ call ∈ c.pending, call.id = id ∧
      ((c.add id env = { c with pending := c.pending.filter fun call => call.id ≠ id }) ∨
      c.shadow.requestList.length < maxAppendingRequestAtAnyGivenTime ∧
      c.add id env =
        { c with
          pending := c.pending.filter fun call => call.id ≠ id
          shadow := { c.shadow with
            requestList := c.shadow.requestList ++ [call.request env]
            log := c.shadow.log ++ [.added (call.request env)] } }) := by
  unfold Client.add
  cases hfind : c.pending.find? fun call => call.id = id with
  | none => exact .inl rfl
  | some call =>
    have hid : call.id = id := by simpa using List.find?_some hfind
    refine .inr ⟨call, List.mem_of_find?_eq_some hfind, hid, ?_⟩
    simp only
    unfold QcloudIotShadow.addRequestToList
    by_cases hfull : c.shadow.requestList.length ≥ maxAppendingRequestAtAnyGivenTime
    · rw [if_pos hfull]
      exact .inl rfl
    rw [if_neg hfull]
    by_cases hrequest : ¬ env.requestAlloc = true
    · rw [if_pos hrequest]
      exact .inl rfl
    rw [if_neg hrequest]
    by_cases hnode : ¬ env.nodeAlloc = true
    · rw [if_pos hnode]
      exact .inl rfl
    rw [if_neg hnode]
    exact .inr ⟨Nat.lt_of_not_le hfull, rfl⟩

/-- Requests are told apart by their ids, on their way to the list, in it and behind it; until they are
removed, their callbacks have not been called. -/
structure Inv (c : Client) : Prop where
  ids : (c.pending.map (·.id) ++ c.shadow.requestList.map (·.id)).Nodup
  sent_ids : (c.sent.map (·.id)).Nodup
  sent_lt : ∀ call ∈ c.sent, call.id < c.nextId
  pending_sent : ∀ call ∈ c.pending, call ∈ c.sent
  origin : ∀ r ∈ c.shadow.requestList, ∃ call ∈ c.sent, ∃ env, r = call.request env
  untold : ∀ id ∈ c.pending.map (·.id) ++ c.shadow.requestList.map (·.id), acks c.shadow.log id = []
  unknown : ∀ id, c.nextId ≤ id → acks c.shadow.log id = []
  added_ids : ((addedIn c.shadow.log).map (·.id)).Nodup
  added_lt : ∀ r ∈ addedIn c.shadow.log, r.id < c.nextId
  added_gone : ∀ r ∈ addedIn c.shadow.log, r.id ∉ c.pending.map (·.id)
  listed_added : ∀ r ∈ c.shadow.requestList, r ∈ addedIn c.shadow.log

theorem inv_init : Inv .init where
  ids := List.nodup_nil
  sent_ids := List.nodup_nil
  sent_lt _ h := absurd h List.not_mem_nil
  pending_sent _ h := absurd h List.not_mem_nil
  origin _ h := absurd h List.not_mem_nil
  untold _ h := absurd h List.not_mem_nil
  unknown _ _ := rfl
  added_ids := List.nodup_nil
  added_lt _ h := absurd h List.not_mem_nil
  added_gone _ h := absurd h List.not_mem_nil
  listed_added _ h := absurd h List.not_mem_nil

namespace Inv

variable {c : Client}

theorem list_ids (h : Inv c) : (c.shadow.requestList.map (·.id)).Nodup :=
  (List.nodup_append.mp h.ids).2.1

/-- Requests that have been added, by their ids. -/
theorem eq_of_id (h : Inv c) {r r' : Request} (hr : r ∈ addedIn c.shadow.log)
    (hr' : r' ∈ addedIn c.shadow.log) (hid : r.id = r'.id) : r = r' :=
  List.inj_on_of_nodup_map h.added_ids hr hr' hid

theorem not_pending_of_listed (h : Inv c) {id : Nat} (hid : id ∈ c.shadow.requestList.map (·.id)) :
    id ∉ c.pending.map (·.id) := fun hpending =>
  (List.nodup_append.mp h.ids).2.2 id hpending id hid rfl

theorem swept (h : Inv c) {s : QcloudIotShadow} {p : Request → Bool} {ack : Option RequestAck}
    (hswept : Swept c.shadow s p ack) : Inv { c with shadow := s } := by
  have hsub : s.requestList.Sublist c.shadow.requestList := hswept.list ▸ List.filter_sublist
  have hids : (c.pending.map (·.id) ++ s.requestList.map (·.id)).Sublist
      (c.pending.map (·.id) ++ c.shadow.requestList.map (·.id)) :=
    (List.Sublist.refl _).append (hsub.map _)
  have hstay : ∀ id ∈ c.pending.map (·.id) ++ s.requestList.map (·.id), acks s.log id = [] := by
    intro id hid
    rw [hswept.acks_other id, h.untold id (hids.subset hid)]
    intro r hr hp hrid
    rcases List.mem_append.mp hid with hpending | hlisted
    · exact h.not_pending_of_listed (List.mem_map.mpr ⟨r, hr, hrid⟩) hpending
    · obtain ⟨q, hq, rfl⟩ := List.mem_map.mp hlisted
      rw [hswept.list] at hq
      obtain ⟨hq, hnot⟩ := List.mem_filter.mp hq
      rw [List.inj_on_of_nodup_map h.list_ids hr hq hrid] at hp
      rw [hp] at hnot
      exact absurd hnot (by decide)
  refine ⟨hids.nodup h.ids, h.sent_ids, h.sent_lt, h.pending_sent, fun r hr => h.origin r (hsub.subset hr),
    hstay, fun id hid => ?_, hswept.added ▸ h.added_ids, hswept.added ▸ h.added_lt,
    hswept.added ▸ h.added_gone, fun r hr => hswept.added ▸ h.listed_added r (hsub.subset hr)⟩
  rw [hswept.acks_other id, h.unknown id hid]
  intro r hr _ hrid
  have hlt := h.added_lt r (h.listed_added r hr)
  exact absurd hid (Nat.not_le_of_lt (hrid ▸ hlt))

theorem publish (h : Inv c) (doc : Bytes) (sizeOfBuffer : UInt32) (params : RequestParams) (rc : Int)
    (beyond : Beyond) : Inv (c.publish doc sizeOfBuffer params rc beyond) := by
  unfold Client.publish
  split
  · exact h
  split
  · exact h
  split
  · exact h
  rename_i token _ _ doc _ _
  have hnew : ∀ call ∈ c.sent, call.id ≠ c.nextId := fun call hcall => Nat.ne_of_lt (h.sent_lt call hcall)
  have hpending : c.nextId ∉ c.pending.map (·.id) := by
    intro hin
    obtain ⟨call, hcall, hid⟩ := List.mem_map.mp hin
    exact hnew call (h.pending_sent call hcall) hid
  have hlisted : c.nextId ∉ c.shadow.requestList.map (·.id) := by
    intro hin
    obtain ⟨r, hr, hid⟩ := List.mem_map.mp hin
    exact absurd (h.added_lt r (h.listed_added r hr)) (by omega)
  have hperm : ((c.pending ++ [(⟨c.nextId, token, doc, params⟩ : Call)]).map (·.id) ++
      c.shadow.requestList.map (·.id)).Perm
      (c.nextId :: (c.pending.map (·.id) ++ c.shadow.requestList.map (·.id))) := by
    rw [List.map_append, List.append_assoc]
    exact List.perm_middle
  refine ⟨?_, ?_, ?_, ?_, ?_, ?_, ?_, h.added_ids, ?_, ?_, h.listed_added⟩
  · refine hperm.nodup_iff.mpr (List.nodup_cons.mpr ⟨?_, h.ids⟩)
    rw [List.mem_append, not_or]
    exact ⟨hpending, hlisted⟩
  · rw [List.map_append]
    refine List.perm_append_comm.nodup_iff.mpr (List.nodup_cons.mpr ⟨?_, h.sent_ids⟩)
    intro hin
    obtain ⟨call, hcall, hid⟩ := List.mem_map.mp hin
    exact hnew call hcall hid
  · intro call hcall
    rcases List.mem_append.mp hcall with hcall | hcall
    · exact Nat.lt_succ_of_lt (h.sent_lt call hcall)
    · rw [List.mem_singleton.mp hcall]
      exact Nat.lt_succ_self _
  · intro call hcall
    rcases List.mem_append.mp hcall with hcall | hcall
    · exact List.mem_append_left _ (h.pending_sent call hcall)
    · exact List.mem_append_right _ hcall
  · intro r hr
    obtain ⟨call, hcall, env, hrequest⟩ := h.origin r hr
    exact ⟨call, List.mem_append_left _ hcall, env, hrequest⟩
  · intro id hid
    rcases List.mem_cons.mp (hperm.mem_iff.mp hid) with rfl | hid
    · exact h.unknown _ (Nat.le_refl _)
    · exact h.untold id hid
  · intro id hid
    exact h.unknown id (Nat.le_of_succ_le hid)
  · intro r hr
    exact Nat.lt_succ_of_lt (h.added_lt r hr)
  · intro r hr hin
    rw [List.map_append, List.mem_append] at hin
    rcases hin with hin | hin
    · exact h.added_gone r hr hin
    · exact absurd (h.added_lt r hr) (by rw [List.mem_singleton.mp hin]; exact Nat.lt_irrefl _)

theorem dropPending (h : Inv c) (id : Nat) :
    Inv { c with pending := c.pending.filter fun call => call.id ≠ id } := by
  have hsub : (c.pending.filter fun call => call.id ≠ id).Sublist c.pending := List.filter_sublist
  have hids := (hsub.map (·.id)).append (List.Sublist.refl (c.shadow.requestList.map (·.id)))
  exact ⟨hids.nodup h.ids, h.sent_ids, h.sent_lt, fun call hcall => h.pending_sent call (hsub.subset hcall),
    h.origin, fun id hid => h.untold id (hids.subset hid), h.unknown, h.added_ids, h.added_lt,
    fun r hr hin => h.added_gone r hr ((hsub.map (·.id)).subset hin), h.listed_added⟩

theorem pushRequest (h : Inv c) {call : Call} (hsent : call ∈ c.sent)
    (hnew : call.id ∉ c.pending.map (·.id) ++ c.shadow.requestList.map (·.id))
    (huntold : acks c.shadow.log call.id = [])
    (hadded : call.id ∉ (addedIn c.shadow.log).map (·.id)) (env : AddEnv) :
    Inv { c with shadow := { c.shadow with
      requestList := c.shadow.requestList ++ [call.request env]
      log := c.shadow.log ++ [.added (call.request env)] } } := by
  have hacks : ∀ id, acks (c.shadow.log ++ [.added (call.request env)]) id = acks c.shadow.log id :=
    fun id => by
      rw [acks_append]
      exact List.append_nil _
  have hlog : addedIn (c.shadow.log ++ [.added (call.request env)]) =
      addedIn c.shadow.log ++ [call.request env] := addedIn_append _ _
  have hperm : (c.pending.map (·.id) ++ (c.shadow.requestList ++ [call.request env]).map (·.id)).Perm
      (call.id :: (c.pending.map (·.id) ++ c.shadow.requestList.map (·.id))) := by
    rw [List.map_append, ← List.append_assoc]
    exact List.perm_append_comm
  refine ⟨?_, h.sent_ids, h.sent_lt, h.pending_sent, ?_, ?_, ?_, ?_, ?_, ?_, ?_⟩
  · exact hperm.nodup_iff.mpr (List.nodup_cons.mpr ⟨hnew, h.ids⟩)
  · intro r hr
    rcases List.mem_append.mp hr with hr | hr
    · exact h.origin r hr
    · exact ⟨call, hsent, env, List.mem_singleton.mp hr⟩
  · intro id hid
    rw [hacks]
    rcases List.mem_cons.mp (hperm.mem_iff.mp hid) with rfl | hid
    · exact huntold
    · exact h.untold id hid
  · intro id hid
    rw [hacks]
    exact h.unknown id hid
  · rw [hlog, List.map_append]
    exact List.perm_append_comm.nodup_iff.mpr (List.nodup_cons.mpr ⟨hadded, h.added_ids⟩)
  · intro r hr
    rw [hlog] at hr
    rcases List.mem_append.mp hr with hr | hr
    · exact h.added_lt r hr
    · rw [List.mem_singleton.mp hr]
      exact h.sent_lt call hsent
  · intro r hr
    rw [hlog] at hr
    rcases List.mem_append.mp hr with hr | hr
    · exact h.added_gone r hr
    · rw [List.mem_singleton.mp hr]
      exact fun hin => hnew (List.mem_append_left _ hin)
  · intro r hr
    rw [hlog]
    rcases List.mem_append.mp hr with hr | hr
    · exact List.mem_append_left _ (h.listed_added r hr)
    · exact List.mem_append_right _ hr

theorem add (h : Inv c) (id : Nat) (env : AddEnv) : Inv (c.add id env) := by
  rcases c.add_cases id env with hsame | ⟨call, hcall, rfl, hdrop | ⟨-, hpush⟩⟩
  · rw [hsame]
    exact h
  · rw [hdrop]
    exact h.dropPending call.id
  · rw [hpush]
    have hpending : call.id ∈ c.pending.map (·.id) := List.mem_map.mpr ⟨call, hcall, rfl⟩
    refine (h.dropPending call.id).pushRequest (h.pending_sent call hcall) ?_
      (h.untold _ (List.mem_append_left _ hpending)) ?_ env
    · intro hin
      rcases List.mem_append.mp hin with hin | hin
      · obtain ⟨other, hother, hid⟩ := List.mem_map.mp hin
        exact absurd hid (by simpa using (List.mem_filter.mp hother).2)
      · exact h.not_pending_of_listed hin hpending
    · intro hin
      obtain ⟨r, hr, hid⟩ := List.mem_map.mp hin
      exact h.added_gone r hr (hid ▸ hpending)

theorem step (h : Inv c) : ∀ a, Inv (c.step a)
  | .publish doc sizeOfBuffer params rc beyond => h.publish doc sizeOfBuffer params rc beyond
  | .add id env => h.add id env
  | .inbound payload env => h.swept (onOperationResult_swept h.list_ids payload env)
  | .expire env => h.swept (handleExpiredRequest_swept h.list_ids env)

end Inv

/-- **The invariant of every run.** -/
theorem inv_run (as : List Act) : Inv (run Client.step .init as) :=
  run_preserves Inv (fun _ a h => h.step a) as inv_init

/-! ## Behind the list -/

/-- A request that is not, and not any more, on its way. -/
def Gone (c : Client) (id : Nat) : Prop :=
  id < c.nextId ∧ id ∉ c.pending.map (·.id) ∧ id ∉ c.shadow.requestList.map (·.id)

theorem gone_swept {c : Client} {id : Nat} (hgone : Gone c id) {s : QcloudIotShadow}
    {p : Request → Bool} {ack : Option RequestAck} (hswept : Swept c.shadow s p ack) :
    Gone { c with shadow := s } id ∧ acks s.log id = acks c.shadow.log id := by
  obtain ⟨hlt, hpending, hlisted⟩ := hgone
  refine ⟨⟨hlt, hpending, fun hin => hlisted ?_⟩, hswept.acks_other id fun r hr _ hid => ?_⟩
  · have hsub : s.requestList.Sublist c.shadow.requestList := hswept.list ▸ List.filter_sublist
    exact (hsub.map (·.id)).subset hin
  · exact hlisted (List.mem_map.mpr ⟨r, hr, hid⟩)

theorem gone_step {c : Client} (h : Inv c) {id : Nat} (hgone : Gone c id) (a : Act) :
    Gone (c.step a) id ∧ acks (c.step a).shadow.log id = acks c.shadow.log id := by
  cases a with
  | publish doc sizeOfBuffer params rc beyond =>
    obtain ⟨hlt, hpending, hlisted⟩ := hgone
    change Gone (c.publish doc sizeOfBuffer params rc beyond) id ∧
      acks (c.publish doc sizeOfBuffer params rc beyond).shadow.log id = _
    unfold Client.publish
    split
    · exact ⟨⟨hlt, hpending, hlisted⟩, rfl⟩
    split
    · exact ⟨⟨hlt, hpending, hlisted⟩, rfl⟩
    split
    · exact ⟨⟨hlt, hpending, hlisted⟩, rfl⟩
    · refine ⟨⟨Nat.lt_succ_of_lt hlt, fun hin => ?_, hlisted⟩, rfl⟩
      rw [List.map_append, List.mem_append] at hin
      rcases hin with hin | hin
      · exact hpending hin
      · exact absurd hlt (by rw [List.mem_singleton.mp hin]; exact Nat.lt_irrefl _)
  | add id' env =>
    obtain ⟨hlt, hpending, hlisted⟩ := hgone
    have hdrop : id ∉ (c.pending.filter fun call => call.id ≠ id').map (·.id) := fun hin =>
      hpending (((List.filter_sublist).map _).subset hin)
    rcases c.add_cases id' env with hsame | ⟨call, hcall, rfl, hdropped | ⟨-, hpush⟩⟩
    · rw [show c.step (.add id' env) = c from hsame]
      exact ⟨⟨hlt, hpending, hlisted⟩, rfl⟩
    · rw [show c.step (.add call.id env) = _ from hdropped]
      exact ⟨⟨hlt, hdrop, hlisted⟩, rfl⟩
    · rw [show c.step (.add call.id env) = _ from hpush]
      refine ⟨⟨hlt, hdrop, fun hin => ?_⟩, ?_⟩
      · rw [List.map_append, List.mem_append] at hin
        rcases hin with hin | hin
        · exact hlisted hin
        · exact hpending (List.mem_map.mpr ⟨call, hcall, (List.mem_singleton.mp hin).symm⟩)
      · rw [acks_append]
        exact List.append_nil _
  | inbound payload env => exact gone_swept hgone (onOperationResult_swept h.list_ids payload env)
  | expire env => exact gone_swept hgone (handleExpiredRequest_swept h.list_ids env)

/-- **A request that is gone** stays so, and is told nothing more. -/
theorem gone_run {c : Client} (h : Inv c) {id : Nat} (hgone : Gone c id) (as : List Act) :
    Gone (run Client.step c as) id ∧
      acks (run Client.step c as).shadow.log id = acks c.shadow.log id := by
  induction as generalizing c with
  | nil => exact ⟨hgone, rfl⟩
  | cons a as ih =>
    obtain ⟨hnext, hacks⟩ := gone_step h hgone a
    obtain ⟨hlast, hrest⟩ := ih (h.step a) hnext
    exact ⟨hlast, hrest.trans hacks⟩

/-- A request that has been added and is not listed is gone. -/
theorem Inv.gone {c : Client} (h : Inv c) {r : Request} (hr : r ∈ addedIn c.shadow.log)
    (hlisted : r ∉ c.shadow.requestList) : Gone c r.id := by
  refine ⟨h.added_lt r hr, h.added_gone r hr, fun hin => hlisted ?_⟩
  obtain ⟨q, hq, hid⟩ := List.mem_map.mp hin
  rwa [h.eq_of_id (h.listed_added q hq) hr hid] at hq

end QcloudIot.Shadow
