import QcloudIot.Lib.Run
import QcloudIot.Mqtt.RemLen
import QcloudIot.Rrpc.Client

/-!
# Replies and their requests

Runs of requests, of any lengths of process ids, and replies of the application at any time. The
MQTT client hands a request over in `fix_topic`, a copy of its topic that is cut off when the topic
is longer than the array (`Request.topicMemory`).

* `rrpcGetProcessId_request`: the id is taken, whole, or it is too long and refused;
* `rrpcMessageCb_request`: the end of a longer id that was stored stays behind it;
* `replies_own_iff`: after every step of a run a reply goes to the last request that was handed
  over, iff none of them came with an id shorter than the stored one.
-/

namespace QcloudIot.Rrpc

open Lib
open Mqtt (Bytes Mem FnPtr WordSize cString cString_behind slash fixTopic fixTopicLen)

/-! ## Requests -/

/-- What stands in front of the process id in the topic of a request. -/
def requestBase (info : DeviceInfo) : Bytes :=
  chars "$rrpc/rxd/" ++ info.productId ++ [slash] ++ info.deviceName

/-- An inbound request: the process id, where the PUBLISH packet's topic stands in the read buffer,
and what lies behind `fix_topic` on the stack. -/
structure Request (info : DeviceInfo) where
  processId : Bytes
  noSlash : slash ∉ processId
  noNul : 0 ∉ processId
  topicFits : (requestBase info ++ slash :: processId).length < 2 ^ 16
  readBuf : Mem
  topicName : Nat
  holds : readBuf.load topicName (requestBase info ++ slash :: processId).length =
    requestBase info ++ slash :: processId
  stackBeyond : Bytes
  stackFits : stackBeyond.length < 2 ^ 30
  payload : Bytes

variable {info : DeviceInfo}

namespace Request

/-- The topic. -/
def topic (m : Request info) : Bytes := requestBase info ++ slash :: m.processId

/-- `topic_len` as `_handle_publish_packet` passes it on. -/
def topicLen (m : Request info) : UInt16 := fixTopicLen (UInt16.ofNat m.topic.length)

/-- `fix_topic` and what lies behind it. -/
def topicMemory (m : Request info) : Bytes :=
  fixTopic m.readBuf m.topicName m.topicLen m.stackBeyond

end Request

theorem length_requestBase (info : DeviceInfo) : (requestBase info).length ≤ 69 := by
  have hp := info.productFits
  have hd := info.nameFits
  have hfirst : (chars "$rrpc/rxd/").length = 10 := rfl
  simp only [requestBase, List.length_append, List.length_singleton, hfirst]
  simp only [maxSizeOfProductId, maxSizeOfDeviceName] at hp hd
  omega

theorem noNul_requestBase (info : DeviceInfo) : 0 ∉ requestBase info := by
  have hfirst : 0 ∉ chars "$rrpc/rxd/" := by decide
  have hslash : 0 ∉ [slash] := by decide
  simp only [requestBase, List.mem_append, not_or]
  exact ⟨⟨⟨hfirst, info.noNul.1⟩, hslash⟩, info.noNul.2⟩

namespace Request

variable (m : Request info)

theorem length_topic : m.topic.length = (requestBase info).length + 1 + m.processId.length := by
  rw [topic, List.length_append, List.length_cons]
  omega

/-- The topic's length as it is passed on: cut off if the array does not hold it. -/
theorem topicLen_eq : m.topicLen.toNat =
    if m.topic.length > Mqtt.maxSizeOfCloudTopic then Mqtt.maxSizeOfCloudTopic - 1
    else m.topic.length := by
  have hlen : (UInt16.ofNat m.topic.length).toNat = m.topic.length := by
    rw [UInt16.toNat_ofNat']
    exact Nat.mod_eq_of_lt m.topicFits
  unfold topicLen fixTopicLen
  rw [hlen]
  split
  · rfl
  · exact hlen

/-- What the array holds of the topic. -/
theorem topicMemory_eq : m.topicMemory =
    m.topic.take m.topicLen.toNat ++
      (List.replicate (Mqtt.maxSizeOfCloudTopic - m.topicLen.toNat) 0 ++ m.stackBeyond) := by
  have hle : m.topicLen.toNat ≤ m.topic.length := by
    rw [topicLen_eq]
    split <;> omega
  have hload : m.readBuf.load m.topicName m.topicLen.toNat = m.topic.take m.topicLen.toNat := by
    have hsplit : m.topic.take m.topicLen.toNat ++ m.topic.drop m.topicLen.toNat = m.topic :=
      List.take_append_drop ..
    have hholds : m.readBuf.load m.topicName m.topic.length = m.topic := m.holds
    rw [← hsplit] at hholds
    have hfirst := (Mqtt.Mem.load_append_iff.mp hholds).1
    rwa [List.length_take_of_le hle] at hfirst
  rw [topicMemory, fixTopic, hload, List.append_assoc]

/-- The topic up to a length that holds its last slash. -/
theorem take_topic {n : Nat} (hn : (requestBase info).length < n) :
    m.topic.take n =
      requestBase info ++ slash :: m.processId.take (n - (requestBase info).length - 1) := by
  obtain ⟨k, rfl⟩ : ∃ k, n = (requestBase info).length + (k + 1) :=
    ⟨n - (requestBase info).length - 1, by omega⟩
  rw [topic, List.take_length_add_append, List.take_succ_cons]
  congr 3
  omega

end Request

/-! ## The process id of a request -/

variable (sz : WordSize) (m : Request info) (buffer : Bytes)

theorem rrpcGetProcessId_eq {topic : Bytes} {i size topicLen : Nat}
    (h : strrchr slash topic = some i) : rrpcGetProcessId sz buffer size topic topicLen =
      if sz.cast ((topicLen : Int) - (i + 1 : Nat)) > size then (qcloudErrFailure, buffer)
      else (qcloudRetSuccess,
        strncpy buffer (topic.drop (i + 1)) (sz.cast ((topicLen : Int) - (i + 1 : Nat)))) := by
  unfold rrpcGetProcessId
  rw [h]

/-- A length that wrapped. -/
theorem cast_neg {k : Nat} (h : k < 2 ^ 30) :
    sz.cast (-((k : Int) + 1)) > maxRrpcProcessIdLen := by
  unfold WordSize.cast
  cases sz <;> simp only [WordSize.bits, maxRrpcProcessIdLen] <;> omega

/-- There is no slash behind the end of the string. -/
theorem strrchr_behind (rest : Bytes) {n : Nat} (hn : n ≠ 0) :
    strrchr slash (List.replicate n 0 ++ rest) = none := by
  obtain ⟨n, rfl⟩ := Nat.exists_eq_succ_of_ne_zero hn
  rw [List.replicate_succ, List.cons_append, strrchr, if_pos rfl]

/-- A topic that fills the array is not ended in it: wherever the last slash is found, the length
that is computed is too large. -/
theorem rrpcGetProcessId_full (hfull : m.topic.length = Mqtt.maxSizeOfCloudTopic) :
    rrpcGetProcessId sz buffer maxRrpcProcessIdLen m.topicMemory m.topicLen.toNat =
      (qcloudErrFailure, buffer) := by
  have hbase := length_requestBase info
  have hlen := m.length_topic
  have hmax : Mqtt.maxSizeOfCloudTopic = 128 := rfl
  have hmaxId : maxRrpcProcessIdLen = 16 := rfl
  have hL : m.topicLen.toNat = m.topic.length := by rw [m.topicLen_eq, if_neg (by omega)]
  have hmem : m.topicMemory = requestBase info ++ slash :: (m.processId ++ m.stackBeyond) := by
    rw [m.topicMemory_eq, hL, hfull, Nat.sub_self, List.replicate_zero, List.nil_append, ← hfull,
      List.take_length, Request.topic, List.append_assoc, List.cons_append]
  have hlast := strrchr_last (b := m.stackBeyond) (noNul_requestBase info) m.noNul m.noSlash
  rw [← hmem] at hlast
  rw [rrpcGetProcessId_eq sz buffer hlast, hL]
  refine if_pos ?_
  rcases hbeyond : strrchr slash m.stackBeyond with - | i
  · rw [Option.elim_none, show (m.topic.length : Int) - ((requestBase info).length + 0 + 1 : Nat) =
      (m.processId.length : Nat) by omega, sz.cast_of_nat (by omega)]
    omega
  · have hi : i < 2 ^ 30 := (strrchr_lt hbeyond).trans m.stackFits
    rw [Option.elim_some, show (m.topic.length : Int) -
      ((requestBase info).length + (i + m.processId.length + 1) + 1 : Nat) = -((i : Int) + 1) by omega]
    exact cast_neg sz hi

/-- In a topic that does not, the id is what the array holds of it. -/
theorem rrpcGetProcessId_ended (hne : m.topic.length ≠ Mqtt.maxSizeOfCloudTopic) :
    ∃ id src, id = m.processId.take (m.topicLen.toNat - (requestBase info).length - 1) ∧
      cString src = id ∧
      rrpcGetProcessId sz buffer maxRrpcProcessIdLen m.topicMemory m.topicLen.toNat =
        if id.length > maxRrpcProcessIdLen then (qcloudErrFailure, buffer)
        else (qcloudRetSuccess, strncpy buffer src id.length) := by
  have hbase := length_requestBase info
  have hlen := m.length_topic
  have hmax : Mqtt.maxSizeOfCloudTopic = 128 := rfl
  have htopicLen := m.topicLen_eq
  have hlong : (requestBase info).length < m.topicLen.toNat ∧ m.topicLen.toNat < 128 ∧
      m.topicLen.toNat ≤ m.topic.length := by
    rw [htopicLen]
    split <;> omega
  obtain ⟨hlong, hshort, hle⟩ := hlong
  obtain ⟨id, hid⟩ : ∃ id,
    id = m.processId.take (m.topicLen.toNat - (requestBase info).length - 1) := ⟨_, rfl⟩
  have hidLen : id.length = m.topicLen.toNat - (requestBase info).length - 1 := by
    rw [hid, List.length_take]
    omega
  have hnul : 0 ∉ id := fun h => m.noNul (List.mem_of_mem_take (hid ▸ h))
  have hslash : slash ∉ id := fun h => m.noSlash (List.mem_of_mem_take (hid ▸ h))
  have hzeros : Mqtt.maxSizeOfCloudTopic - m.topicLen.toNat ≠ 0 := by omega
  have hmem := m.topicMemory_eq
  rw [m.take_topic hlong, List.append_assoc, List.cons_append, ← hid] at hmem
  have hlast := strrchr_last (b := List.replicate (Mqtt.maxSizeOfCloudTopic - m.topicLen.toNat) 0 ++
    m.stackBeyond) (noNul_requestBase info) hnul hslash
  rw [strrchr_behind _ hzeros, Option.elim_none, Nat.add_zero, ← hmem] at hlast
  have hcast : sz.cast ((m.topicLen.toNat : Int) - ((requestBase info).length + 1 : Nat)) =
      id.length := by
    rw [show (m.topicLen.toNat : Int) - ((requestBase info).length + 1 : Nat) = (id.length : Nat) by
      omega]
    exact sz.cast_of_nat (by omega)
  refine ⟨id, m.topicMemory.drop ((requestBase info).length + 1), hid, ?_, ?_⟩
  · rw [hmem, List.drop_length_add_append, List.drop_one, List.tail_cons, cString_behind hnul hzeros]
  · rw [rrpcGetProcessId_eq sz buffer hlast, hcast]

/-- **The id is taken whole**, or it is too long and refused. -/
theorem rrpcGetProcessId_request :
    ∃ src, cString src = m.processId ∧
      rrpcGetProcessId sz buffer maxRrpcProcessIdLen m.topicMemory m.topicLen.toNat =
        if m.processId.length > maxRrpcProcessIdLen then (qcloudErrFailure, buffer)
        else (qcloudRetSuccess, strncpy buffer src m.processId.length) := by
  have hbase := length_requestBase info
  have hlen := m.length_topic
  have htopicLen := m.topicLen_eq
  have hmax : Mqtt.maxSizeOfCloudTopic = 128 := rfl
  have hmaxId : maxRrpcProcessIdLen = 16 := rfl
  by_cases hfull : m.topic.length = Mqtt.maxSizeOfCloudTopic
  · refine ⟨m.processId, Mqtt.cString_eq m.noNul, ?_⟩
    rw [rrpcGetProcessId_full sz m buffer hfull, if_pos (by omega)]
  · obtain ⟨id, src, hid, hsrc, heq⟩ := rrpcGetProcessId_ended sz m buffer hfull
    by_cases hcut : m.topic.length > Mqtt.maxSizeOfCloudTopic
    · rw [if_pos hcut] at htopicLen
      have hlong : id.length > maxRrpcProcessIdLen := by
        rw [hid, List.length_take]
        omega
      refine ⟨m.processId, Mqtt.cString_eq m.noNul, ?_⟩
      rw [heq, if_pos hlong, if_pos (by omega)]
    · rw [if_neg hcut] at htopicLen
      have hwhole : id = m.processId := by
        rw [hid, List.take_of_length_le (by omega)]
      exact ⟨src, hwhole ▸ hsrc, hwhole ▸ heq⟩

/-- **What a request does.** -/
theorem rrpcMessageCb_request (r : RrpcState) (f : FnPtr) :
    ∃ src, cString src = m.processId ∧
      rrpcMessageCb sz r (some f) m.topicMemory m.topicLen.toNat m.payload =
        if m.processId.length > maxRrpcProcessIdLen then r
        else ⟨strncpy r.processIdBuffer src m.processId.length,
          r.log ++ [.callback f m.payload]⟩ := by
  obtain ⟨src, hsrc, heq⟩ := rrpcGetProcessId_request sz m r.processIdBuffer
  refine ⟨src, hsrc, ?_⟩
  unfold rrpcMessageCb
  rw [heq]
  by_cases hlong : m.processId.length > maxRrpcProcessIdLen
  · rw [if_pos hlong, if_pos hlong]
    rfl
  · rw [if_neg hlong, if_neg hlong]
    rfl

/-- **What a reply does**, with a string stored. -/
theorem iotRrpcReply_holds {r : RrpcState} {id : Bytes} (h : Holds r.processIdBuffer id) (doc : Bytes)
    (rc : Int) : (iotRrpcReply info r doc rc).2 =
      { r with log := r.log ++ [.publish (replyTopic info id) doc] } := by
  have hp := info.productFits
  have hd := info.nameFits
  have hid := h.fits
  have hfirst : (chars "$rrpc/txd/").length = 10 := rfl
  have hfits : ¬ (replyTopic info id).length > maxSizeOfCloudTopic - 1 := by
    simp only [replyTopic, List.length_append, List.length_singleton, hfirst]
    simp only [maxSizeOfProductId, maxSizeOfDeviceName, maxRrpcProcessIdLen, maxSizeOfCloudTopic]
      at hp hd hid ⊢
    omega
  unfold iotRrpcReply publishRrpcToCloud
  rw [h.cString]
  dsimp only
  rw [if_neg hfits]

/-! ## Runs -/

/-- What happens to the client. -/
inductive Action (info : DeviceInfo) where
  | message (_ : Request info)
  | reply (doc : Bytes) (rc : Int)

/-- The client, and the process id of the last request that was handed over. -/
structure Session where
  rrpc : RrpcState := {}
  current : Option Bytes := none

/-- One step, for the callback `f`. -/
def step (sz : WordSize) (f : FnPtr) (s : Session) : Action info → Session
  | .message m =>
    let r := rrpcMessageCb sz s.rrpc (some f) m.topicMemory m.topicLen.toNat m.payload
    ⟨r, if r.log = s.rrpc.log then s.current else some m.processId⟩
  | .reply doc rc => { s with rrpc := (iotRrpcReply info s.rrpc doc rc).2 }

/-- The stored id is the one of the last request that was handed over, and a reply is published on
the topic of that request. -/
def OwnReply (info : DeviceInfo) (s : Session) : Prop :=
  ∀ id ∈ s.current, cString s.rrpc.processIdBuffer = id ∧
    ∀ (doc : Bytes) (rc : Int), (iotRrpcReply info s.rrpc doc rc).2.log =
      s.rrpc.log ++ [.publish (replyTopic info id) doc]

/-- No request that is handed over has an id shorter than the stored one. -/
def NotShorter (s : Session) : Action info → Prop
  | .message m => m.processId.length ≤ maxRrpcProcessIdLen →
      (cString s.rrpc.processIdBuffer).length ≤ m.processId.length
  | .reply _ _ => True

/-- The buffer holds the id of the last request that was handed over. -/
def Stored (s : Session) : Prop :=
  ∃ id, Holds s.rrpc.processIdBuffer id ∧ ∀ current ∈ s.current, current = id

theorem Stored.ownReply {s : Session} (h : Stored s) : OwnReply info s := by
  obtain ⟨id, hid, hcurrent⟩ := h
  intro current hmem
  rw [hcurrent current hmem]
  refine ⟨hid.cString, fun doc rc => ?_⟩
  rw [iotRrpcReply_holds hid doc rc]

theorem step_stored (f : FnPtr) (s : Session) (a : Action info) (h : Stored s) :
    (OwnReply info (step sz f s a) ↔ NotShorter s a) ∧
      (NotShorter s a → Stored (step sz f s a)) := by
  obtain ⟨id, hid, hcurrent⟩ := h
  cases a with
  | reply doc rc =>
    have hnext : Stored (step sz f s (.reply doc rc : Action info)) :=
      ⟨id, by rw [step, iotRrpcReply_holds hid doc rc]; exact hid, hcurrent⟩
    exact ⟨iff_of_true hnext.ownReply trivial, fun _ => hnext⟩
  | message m =>
    obtain ⟨src, hsrc, heq⟩ := rrpcMessageCb_request sz m s.rrpc f
    by_cases hlong : m.processId.length > maxRrpcProcessIdLen
    · have hstep : step sz f s (.message m) = s := by
        rw [step, heq, if_pos hlong]
        exact congrArg (Session.mk s.rrpc) (if_pos rfl)
      have hok : NotShorter s (.message m) := fun hle => absurd hlong (by omega)
      rw [hstep]
      exact ⟨iff_of_true (Stored.ownReply ⟨id, hid, hcurrent⟩) hok, fun _ => ⟨id, hid, hcurrent⟩⟩
    · have hstep : step sz f s (.message m) =
          ⟨⟨strncpy s.rrpc.processIdBuffer src m.processId.length,
            s.rrpc.log ++ [.callback f m.payload]⟩, some m.processId⟩ := by
        rw [step, heq, if_neg hlong]
        exact congrArg (Session.mk _) (if_neg (by simp))
      have hbuffer := hid.strncpy hsrc (by omega) m.noNul
      have hok : NotShorter s (.message m) ↔ id.length ≤ m.processId.length := by
        unfold NotShorter
        rw [hid.cString]
        exact imp_iff_right (by omega)
      have hnext : NotShorter s (.message m) → Stored (step sz f s (.message m)) := by
        intro h
        rw [List.drop_of_length_le (hok.mp h), List.append_nil] at hbuffer
        rw [hstep]
        exact ⟨m.processId, hbuffer, fun current hmem => (Option.mem_some_iff.mp hmem).symm⟩
      refine ⟨⟨fun hown => ?_, fun h => (hnext h).ownReply⟩, hnext⟩
      rw [hstep] at hown
      have hsame := (hown m.processId rfl).1
      rw [hbuffer.cString, List.append_right_eq_self, List.drop_eq_nil_iff] at hsame
      exact hok.mpr hsame

/-- **Replies go to their own request** in a run, at every step, iff no request that is handed over
has a process id shorter than the one that is stored. -/
theorem replies_own_iff (info : DeviceInfo) (sz : WordSize) (f : FnPtr)
    (actions : List (Action info)) :
    Meets (step sz f) (fun s a => OwnReply info (step sz f s a)) {} actions ↔
      Meets (step sz f) NotShorter {} actions :=
  meets_iff_of_invariant Stored (step_stored sz f) actions
    ⟨[], ⟨rfl, Nat.zero_le _, List.not_mem_nil⟩, fun _ h => nomatch h⟩

/-- Device `D` of product `P`. -/
def exampleDevice : DeviceInfo := ⟨chars "P", chars "D", by decide, by decide, by decide⟩

/-- A request with process id `12345`, then one with `99`. -/
def shorterSecond : List (Action exampleDevice) :=
  [.message ⟨chars "12345", by decide, by decide, by decide,
      Mqtt.Mem.ofBytes (chars "$rrpc/rxd/P/D/12345"), 0, by decide, [], by decide, []⟩,
    .message ⟨chars "99", by decide, by decide, by decide,
      Mqtt.Mem.ofBytes (chars "$rrpc/rxd/P/D/99"), 0, by decide, [], by decide, []⟩]

/-- The second is answered as `99345`. -/
theorem replies_confused :
    ¬ Meets (step .w32 0) (fun s a => OwnReply exampleDevice (step .w32 0 s a)) {} shorterSecond ∧
    (iotRrpcReply exampleDevice (run (step .w32 0) {} shorterSecond).rrpc (chars "ok") 0).2.log =
      [.callback 0 [], .callback 0 [], .publish (chars "$rrpc/txd/P/D/99345") (chars "ok")] := by
  refine ⟨fun h => ?_, by decide⟩
  have hsecond := (h.2.1 (chars "99") (by decide)).1
  revert hsecond
  decide

end QcloudIot.Rrpc
