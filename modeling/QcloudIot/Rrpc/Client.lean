import QcloudIot.Lib.Bytes
import QcloudIot.Mqtt.Inbound

/-!
# The RRPC client

The functions of `rrpc_client.c`: `_rrpc_message_cb`, which the MQTT client calls with a request
(`rrpcMessageCb`), and `IOT_RRPC_Reply` (`iotRrpcReply`). Both work on one static buffer, in which
the process id of a request waits for the reply.

* `strrchr_last`: the last slash of a path;
* `Holds.strncpy`: what a bounded copy of a string leaves behind it.
-/

namespace QcloudIot.Rrpc

open Lib
open Mqtt (Bytes FnPtr WordSize cString cString_append slash)

/-! ## Constants -/

/-- `QCLOUD_RET_SUCCESS`. -/
def qcloudRetSuccess : Int := 0

/-- `QCLOUD_ERR_FAILURE`. -/
def qcloudErrFailure : Int := -1001

/-- `QCLOUD_ERR_INVAL`. -/
def qcloudErrInval : Int := -1002

/-- `QCLOUD_ERR_RRPC_REPLY_ERR`. -/
def qcloudErrRrpcReplyErr : Int := -231

/-- `MAX_RRPC_PROCESS_ID_LEN`. -/
def maxRrpcProcessIdLen : Nat := 16

/-- `MAX_SIZE_OF_PRODUCT_ID`. -/
def maxSizeOfProductId : Nat := 10

/-- `MAX_SIZE_OF_DEVICE_NAME`. -/
def maxSizeOfDeviceName : Nat := 48

/-- `MAX_SIZE_OF_CLOUD_TOPIC`. -/
def maxSizeOfCloudTopic : Nat := maxSizeOfDeviceName + maxSizeOfProductId + 64 + 6

/-! ## Strings -/

/-- `strrchr(s, ch)`, as an index. -/
def strrchr (ch : UInt8) : Bytes → Option Nat
  | [] => none
  | c :: s =>
    if c = 0 then none
    else match strrchr ch s with
      | some i => some (i + 1)
      | none => if c = ch then some 0 else none

/-- `strncpy(dst, src, n)`. -/
def strncpy (dst src : Bytes) (n : Nat) : Bytes :=
  let s := (cString src).take n
  s ++ List.replicate (n - s.length) 0 ++ dst.drop n

/-! ## The state -/

/-- The device's names, as `iot_device_info_set` takes them. -/
structure DeviceInfo where
  productId : Bytes
  deviceName : Bytes
  productFits : productId.length ≤ maxSizeOfProductId
  nameFits : deviceName.length ≤ maxSizeOfDeviceName
  noNul : 0 ∉ productId ∧ 0 ∉ deviceName

/-- What the client does that is seen outside. -/
inductive Ev where
  | callback (f : FnPtr) (payload : Bytes)
  | publish (topic payload : Bytes)
  deriving DecidableEq, Repr

/-- `sg_process_id_buffer`, and what has been done so far. -/
structure RrpcState where
  processIdBuffer : Bytes := List.replicate (maxRrpcProcessIdLen + 1) 0
  log : List Ev := []
  deriving DecidableEq, Repr

/-! ## The functions -/

/-- `_rrpc_get_process_id`: the code, and the buffer. `topic` are the bytes from the pointer on. -/
def rrpcGetProcessId (sz : WordSize) (processIdBuffer : Bytes) (sizeOfBuffer : Nat) (topic : Bytes)
    (topicLen : Nat) : Int × Bytes :=
  match strrchr slash topic with
  | none => (qcloudErrInval, processIdBuffer)
  | some i =>
    let p := i + 1
    let n := sz.cast ((topicLen : Int) - p)
    if n > sizeOfBuffer then (qcloudErrFailure, processIdBuffer)
    else (qcloudRetSuccess, strncpy processIdBuffer (topic.drop p) n)

/-- `_rrpc_message_cb`. -/
def rrpcMessageCb (sz : WordSize) (r : RrpcState) (callback : Option FnPtr) (topic : Bytes)
    (topicLen : Nat) (payload : Bytes) : RrpcState :=
  let (rc, buffer) :=
    rrpcGetProcessId sz r.processIdBuffer maxRrpcProcessIdLen topic topicLen
  let r := { r with processIdBuffer := buffer }
  if rc ≠ qcloudRetSuccess then r
  else match callback with
    | none => r
    | some f => { r with log := r.log ++ [.callback f payload] }

/-- The topic of a reply. -/
def replyTopic (info : DeviceInfo) (processId : Bytes) : Bytes :=
  chars "$rrpc/txd/" ++ info.productId ++ [slash] ++ info.deviceName ++ [slash] ++ processId

/-- `_publish_rrpc_to_cloud`; `rc` is what `IOT_MQTT_Publish` returns. -/
def publishRrpcToCloud (info : DeviceInfo) (r : RrpcState) (processId doc : Bytes) (rc : Int) :
    Int × RrpcState :=
  let topic := replyTopic info (cString processId)
  if topic.length > maxSizeOfCloudTopic - 1 then (qcloudErrFailure, r)
  else (rc, { r with log := r.log ++ [.publish topic doc] })

/-- `IOT_RRPC_Reply`. -/
def iotRrpcReply (info : DeviceInfo) (r : RrpcState) (doc : Bytes) (rc : Int) : Int × RrpcState :=
  let (rc, r) := publishRrpcToCloud info r r.processIdBuffer doc rc
  (if rc < 0 then qcloudErrRrpcReplyErr else qcloudRetSuccess, r)

/-! ## The last slash -/

section

variable {a b s : Bytes}

/-- Past characters that are none. -/
theorem strrchr_skip : ∀ {a : Bytes}, 0 ∉ a → slash ∉ a →
    strrchr slash (a ++ b) = (strrchr slash b).map (· + a.length)
  | [], _, _ => by cases hb : strrchr slash b <;> rw [List.nil_append, hb] <;> rfl
  | c :: a, hnul, hslash => by
    rw [List.mem_cons, not_or] at hnul hslash
    rw [List.cons_append, strrchr, if_neg (Ne.symm hnul.1), strrchr_skip hnul.2 hslash.2]
    cases strrchr slash b with
    | none => exact if_neg (Ne.symm hslash.1)
    | some i => rfl

theorem strrchr_append {i : Nat} (hb : strrchr slash b = some i) : ∀ {a : Bytes}, 0 ∉ a →
    strrchr slash (a ++ b) = some (a.length + i)
  | [], _ => by rw [List.nil_append, hb, List.length_nil, Nat.zero_add]
  | c :: a, hnul => by
    rw [List.mem_cons, not_or] at hnul
    rw [List.cons_append, strrchr, if_neg (Ne.symm hnul.1), strrchr_append hb hnul.2]
    simp only [List.length_cons, Option.some.injEq]
    omega

/-- **The last slash** of a path whose last segment is not ended: one behind the segment, if there
is one. -/
theorem strrchr_last {id : Bytes} (ha : 0 ∉ a) (hnul : 0 ∉ id) (hslash : slash ∉ id) :
    strrchr slash (a ++ slash :: (id ++ b)) =
      some (a.length + ((strrchr slash b).elim 0 (· + id.length + 1))) := by
  refine strrchr_append ?_ ha
  rw [strrchr, if_neg (by decide), strrchr_skip hnul hslash]
  cases strrchr slash b with
  | none => exact if_pos rfl
  | some i => rfl

theorem strrchr_lt : ∀ {s : Bytes} {i : Nat}, strrchr slash s = some i → i < s.length
  | [], _, h => absurd h (by simp [strrchr])
  | c :: s, i, h => by
    rw [strrchr] at h
    rw [List.length_cons]
    by_cases hc : c = 0
    · rw [if_pos hc] at h
      cases h
    · rw [if_neg hc] at h
      rcases hs : strrchr slash s with - | j
      · rw [hs] at h
        dsimp only at h
        split at h
        · cases h
          omega
        · cases h
      · rw [hs] at h
        have hlt := strrchr_lt hs
        cases h
        omega

end

/-! ## The buffer -/

/-- The buffer holds a string, and only NULs behind it. -/
structure Holds (buffer s : Bytes) : Prop where
  eq : buffer = s ++ List.replicate (maxRrpcProcessIdLen + 1 - s.length) 0
  fits : s.length ≤ maxRrpcProcessIdLen
  noNul : 0 ∉ s

theorem cString_padded {s : Bytes} (h : 0 ∉ s) (n : Nat) : cString (s ++ List.replicate n 0) = s := by
  rw [cString_append h]
  cases n with
  | zero => exact List.append_nil s
  | succ n => rw [List.replicate_succ, cString, List.takeWhile_cons_of_neg (by decide), List.append_nil]

namespace Holds

variable {buffer s : Bytes}

theorem cString (h : Holds buffer s) : cString buffer = s := by
  rw [h.eq, cString_padded h.noNul]

/-- **A bounded copy** leaves what it does not write: the string's own tail. -/
theorem strncpy (h : Holds buffer s) {id src : Bytes} (hsrc : Mqtt.cString src = id)
    (hid : id.length ≤ maxRrpcProcessIdLen) (hnul : 0 ∉ id) :
    Holds (strncpy buffer src id.length) (id ++ s.drop id.length) := by
  have hlen : (id ++ s.drop id.length).length = id.length + (s.length - id.length) := by
    rw [List.length_append, List.length_drop]
  have hfits := h.fits
  refine ⟨?_, by omega, ?_⟩
  · rw [Rrpc.strncpy, hsrc, List.take_length, Nat.sub_self, List.replicate_zero, List.append_nil,
      h.eq, List.drop_append, List.drop_replicate, hlen, List.append_assoc]
    congr 3
    omega
  · rw [List.mem_append, not_or]
    exact ⟨hnul, fun hmem => h.noNul (List.mem_of_mem_drop hmem)⟩

end Holds

end QcloudIot.Rrpc
