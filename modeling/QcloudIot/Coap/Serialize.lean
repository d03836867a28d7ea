import QcloudIot.Coap.Message
import QcloudIot.Lib.Writer

/-!
# Writing a message

`serialize_coap_message` and the functions it is made of (`coap_client_serialize.c`). Each gets the
room left (`len`) by value and returns the number of bytes it has written or an error; the bytes
written stay in the buffer either way.

* `formatOp_eq`: an option is refused iff `checkedLen` is more than the room, and takes `opLen`
  bytes;
* `serialize_ok`: what is in the buffer after a message that is not refused;
* `serialize_fits`: a message is not refused when there is room for five bytes and the value of each
  option.
-/

namespace QcloudIot.Coap

open Mqtt (WordSize)
open Lib

/-! ## The code -/

/-- The four bytes of the header. -/
def CoapMessage.headerBytes (m : CoapMessage) : Bytes :=
  [(coapMsgVer <<< 6 ||| (m.type.code.toUInt32 &&& 0x03) <<< 4 |||
      (UInt32.ofNat m.token.length &&& 0x0f)).toUInt8,
    ((m.codeClass &&& 0x07) <<< 5 ||| (m.codeDetail &&& 0x1f)).toUInt8,
    ((m.msgId &&& 0xFF00) >>> 8).toUInt8, (m.msgId &&& 0x00FF).toUInt8]

/-- `_coap_message_serialize_header`. -/
def coapMessageSerializeHeader (m : CoapMessage) (len : Nat) : Written ReturnCode UInt8 :=
  if len < 4 then .refused .enospc else .done m.headerBytes

/-- `_coap_message_serialize_token`. -/
def coapMessageSerializeToken (m : CoapMessage) (len : Nat) : Written ReturnCode UInt8 :=
  if len < m.token.length then .refused .enospc else .done m.token

/-- The four bits that stand for a delta or a length in the first byte of an option. -/
def nibble (n : Nat) : UInt8 := if n ≥ 269 then 14 else if n ≥ 13 then 13 else UInt8.ofNat n

/-- The extended bytes of a delta or a length. -/
def extension (n : Nat) : Bytes :=
  if n ≥ 269 then [UInt8.ofNat ((n - 269) / 256), UInt8.ofNat (n - 269)]
  else if n ≥ 13 then [UInt8.ofNat (n - 13)]
  else []

/-- `_coap_msg_format_op`. The length that is compared with `len` takes `option_num`, not `val_len`,
for the one-byte form of the length. -/
def coapMsgFormatOp (op : CoapMsgOption) (prevNum : UInt32) (len : Nat) :
    Written ReturnCode UInt8 :=
  let opDelta := (op.optionNum.toUInt32 - prevNum).toUInt16
  let num : UInt32 := 1
  let num := num + (if opDelta ≥ 269 then 2 else if opDelta ≥ 13 then 1 else 0)
  let num := num + (if op.val.length ≥ 269 then 2 else if op.optionNum ≥ 13 then 1 else 0)
  let num := num + UInt32.ofNat op.val.length
  if num.toNat > len then .refused .errCoapDataSize
  else
    let head := nibble opDelta.toNat <<< 4 ||| nibble op.val.length
    let ext := extension opDelta.toNat ++ extension op.val.length
    -- `len` goes down for every byte before the value
    { rc := .ok (1 + ext.length + op.val.length)
      out := head :: ext ++ op.val
      wrapped := decide (len < 1 + ext.length) }

/-- The loop of `_coap_message_serialize_options`. -/
def coapMessageSerializeOptions (sz : WordSize) :
    List CoapMsgOption → UInt32 → Nat → Written ReturnCode UInt8
  | [], _, _ => .done []
  | op :: ops, prevNum, len =>
    (coapMsgFormatOp op prevNum len).andThen (2 ^ sz.bits) len
      (coapMessageSerializeOptions sz ops op.optionNum.toUInt32)

/-- `_coap_message_serialize_payload`. -/
def coapMessageSerializePayload (sz : WordSize) (m : CoapMessage) (len : Nat) :
    Written ReturnCode UInt8 :=
  if m.payLoad.length = 0 then .done []
  else
    let num := (m.payLoad.length + 1) % 2 ^ sz.bits
    if num > len then .refused .enospc
    else { rc := .ok num, out := 0xff :: m.payLoad, wrapped := false }

/-- The parts of `serialize_coap_message`, one behind the other. -/
def coapMessageParts (sz : WordSize) (m : CoapMessage) (len : Nat) : Written ReturnCode UInt8 :=
  (coapMessageSerializeHeader m len).andThen (2 ^ sz.bits) len fun len =>
    (coapMessageSerializeToken m len).andThen (2 ^ sz.bits) len fun len =>
      (coapMessageSerializeOptions sz m.opList 0 len).andThen (2 ^ sz.bits) len
        (coapMessageSerializePayload sz m)

/-- `serialize_coap_message`: an error of any part is `QCLOUD_ERR_COAP_INTERNAL`. -/
def serializeCoapMessage (sz : WordSize) (m : CoapMessage) (len : Nat) :
    Written ReturnCode UInt8 :=
  let w := coapMessageParts sz m len
  { w with rc := w.rc.mapError fun _ => .errCoapInternal }

/-! ## The length of an option -/

/-- The number of extended bytes. -/
def extLen (n : Nat) : Nat := if n ≥ 269 then 2 else if n ≥ 13 then 1 else 0

@[simp] theorem length_extension (n : Nat) : (extension n).length = extLen n := by
  unfold extension extLen
  split
  · rfl
  · split <;> rfl

/-- The three forms of a delta or a length. -/
theorem extLen_cases (n : Nat) :
    (n < 13 ∧ extLen n = 0) ∨ (13 ≤ n ∧ n < 269 ∧ extLen n = 1) ∨ (269 ≤ n ∧ extLen n = 2) := by
  unfold extLen
  by_cases h269 : n ≥ 269
  · exact .inr (.inr ⟨h269, if_pos h269⟩)
  · by_cases h13 : n ≥ 13
    · exact .inr (.inl ⟨h13, by omega, by rw [if_neg h269, if_pos h13]⟩)
    · exact .inl ⟨by omega, by rw [if_neg h269, if_neg h13]⟩

theorem extLen_le (n : Nat) : extLen n ≤ 2 := by
  unfold extLen
  split
  · exact le_refl 2
  · split <;> omega

/-- The delta of an option behind one with number `prev`. -/
def CoapMsgOption.delta (op : CoapMsgOption) (prev : UInt16) : UInt16 := op.optionNum - prev

/-- The bytes of an option. -/
def CoapMsgOption.bytes (op : CoapMsgOption) (prev : UInt16) : Bytes :=
  (nibble (op.delta prev).toNat <<< 4 ||| nibble op.val.length) ::
    (extension (op.delta prev).toNat ++ extension op.val.length) ++ op.val

/-- The number of bytes an option takes. -/
def opLen (prev : UInt16) (op : CoapMsgOption) : Nat :=
  1 + extLen (op.delta prev).toNat + extLen op.val.length + op.val.length

/-- The number of bytes that `_coap_msg_format_op` makes sure of. -/
def checkedLen (prev : UInt16) (op : CoapMsgOption) : Nat :=
  (1 + extLen (op.delta prev).toNat +
    (if op.val.length ≥ 269 then 2 else if op.optionNum ≥ 13 then 1 else 0) + op.val.length) % 2 ^ 32

theorem CoapMsgOption.length_bytes (op : CoapMsgOption) (prev : UInt16) :
    (op.bytes prev).length = opLen prev op := by
  simp only [bytes, opLen, List.length_append, List.length_cons, length_extension]
  omega

theorem opLen_pos (prev : UInt16) (op : CoapMsgOption) : 0 < opLen prev op := by
  unfold opLen
  omega

theorem opLen_le (prev : UInt16) (op : CoapMsgOption) : opLen prev op ≤ 5 + op.val.length := by
  have h₁ := extLen_le (op.delta prev).toNat
  have h₂ := extLen_le op.val.length
  unfold opLen
  omega

theorem opDelta_eq (op : CoapMsgOption) (prev : UInt16) :
    (op.optionNum.toUInt32 - prev.toUInt32).toUInt16 = op.delta prev := by
  unfold CoapMsgOption.delta
  rw [UInt32.toUInt16_sub, UInt16.toUInt16_toUInt32, UInt16.toUInt16_toUInt32]

/-! ## What the parts write -/

theorem toNat_formExtra (two one : Prop) [Decidable two] [Decidable one] :
    (if two then (2 : UInt32) else if one then 1 else 0).toNat =
      if two then 2 else if one then 1 else 0 := by
  split
  · rfl
  · split <;> rfl

/-- The length that `_coap_msg_format_op` adds up is `checkedLen`. -/
theorem formatNum_eq {op : CoapMsgOption} (hval : op.val.length < 2 ^ 32) (prev : UInt16) :
    ((1 : UInt32) + (if op.delta prev ≥ 269 then 2 else if op.delta prev ≥ 13 then 1 else 0) +
        (if op.val.length ≥ 269 then 2 else if op.optionNum ≥ 13 then 1 else 0) +
        UInt32.ofNat op.val.length).toNat = checkedLen prev op := by
  unfold checkedLen extLen
  rw [UInt32.toNat_add, UInt32.toNat_add, UInt32.toNat_add, toNat_formExtra, toNat_formExtra,
    UInt32.toNat_ofNat_of_lt' hval, UInt32.toNat_one]
  simp only [Nat.mod_add_mod]
  rfl

/-- `_coap_msg_format_op` in terms of the lengths. -/
theorem formatOp_eq {op : CoapMsgOption} (hval : op.val.length < 2 ^ 32) (prev : UInt16)
    (len : Nat) :
    coapMsgFormatOp op prev.toUInt32 len =
      if checkedLen prev op > len then .refused .errCoapDataSize
      else
        { rc := .ok (opLen prev op)
          out := op.bytes prev
          wrapped := decide (len < opLen prev op - op.val.length) } := by
  have hlen : 1 + (extension (op.delta prev).toNat ++ extension op.val.length).length =
      opLen prev op - op.val.length := by
    unfold opLen
    rw [List.length_append, length_extension, length_extension]
    omega
  have hrc : opLen prev op - op.val.length + op.val.length = opLen prev op := by
    unfold opLen
    omega
  unfold coapMsgFormatOp
  dsimp only
  rw [opDelta_eq, formatNum_eq hval, hlen, hrc]
  rfl

/-- The bytes of the options behind one with number `prev`. -/
def optionsBytes : UInt16 → List CoapMsgOption → Bytes
  | _, [] => []
  | prev, op :: ops => op.bytes prev ++ optionsBytes op.optionNum ops

/-- The bytes of the payload, with its marker. -/
def CoapMessage.payloadBytes (m : CoapMessage) : Bytes :=
  if m.payLoad = [] then [] else 0xff :: m.payLoad

/-- The bytes of a message. -/
def CoapMessage.bytes (m : CoapMessage) : Bytes :=
  m.headerBytes ++ (m.token ++ (optionsBytes 0 m.opList ++ m.payloadBytes))

/-- The counts of a message are values of their C types, and its payload is an object: no object has
more than `PTRDIFF_MAX` bytes. -/
structure CoapMessage.Counted (m : CoapMessage) (sz : WordSize) : Prop where
  val : ∀ op ∈ m.opList, op.val.length < 2 ^ 32
  payLoad : m.payLoad.length < 2 ^ (sz.bits - 1)

theorem CoapMessage.Counted.payLoad_mod {m : CoapMessage} {sz : WordSize} (hm : m.Counted sz) :
    (m.payLoad.length + 1) % 2 ^ sz.bits = m.payLoad.length + 1 := by
  have h := hm.payLoad
  cases sz <;> exact Nat.mod_eq_of_lt (by simp only [WordSize.bits] at *; omega)

/-- The payload as far as it is no longer than an object can be. -/
theorem serializePayload_eq {m : CoapMessage} {sz : WordSize} (hm : m.Counted sz) (len : Nat) :
    coapMessageSerializePayload sz m len =
      if m.payloadBytes.length > len then .refused .enospc else .done m.payloadBytes := by
  unfold coapMessageSerializePayload CoapMessage.payloadBytes
  dsimp only
  rw [hm.payLoad_mod]
  by_cases hnil : m.payLoad = []
  · rw [if_pos (List.length_eq_zero_iff.mpr hnil), if_pos hnil]
    rfl
  · rw [if_neg (mt List.length_eq_zero_iff.mp hnil), if_neg hnil, List.length_cons]
    rfl

/-- What the check lets through is written. -/
theorem formatOp_rc {op : CoapMsgOption} (hval : op.val.length < 2 ^ 32) {prev : UInt16}
    {len : Nat} (h : checkedLen prev op ≤ len) :
    (coapMsgFormatOp op prev.toUInt32 len).rc = .ok (opLen prev op) := by
  rw [formatOp_eq hval, if_neg (Nat.not_lt.mpr h)]

theorem writes_formatOp {op : CoapMsgOption} (hval : op.val.length < 2 ^ 32) (prev : UInt16)
    (len : Nat) : (coapMsgFormatOp op prev.toUInt32 len).Writes (op.bytes prev) := by
  rw [formatOp_eq hval]
  exact Written.writes_ite (Written.writes_refused _ _) fun n h =>
    ⟨by rw [op.length_bytes]; exact (Except.ok.inj h).symm, rfl⟩

theorem writes_options (sz : WordSize) {ops : List CoapMsgOption}
    (hval : ∀ op ∈ ops, op.val.length < 2 ^ 32) (prev : UInt16) (len : Nat) :
    (coapMessageSerializeOptions sz ops prev.toUInt32 len).Writes (optionsBytes prev ops) := by
  induction ops generalizing prev len with
  | nil => exact Written.writes_done _
  | cons op ops ih =>
    exact (writes_formatOp (hval op List.mem_cons_self) prev len).andThen
      (ih (fun o ho => hval o (List.mem_cons_of_mem op ho)) op.optionNum)

/-- **A message that is not refused is in the buffer**, and its length is returned. -/
theorem serialize_ok {sz : WordSize} {m : CoapMessage} (hm : m.Counted sz) (len : Nat) :
    (serializeCoapMessage sz m len).Writes m.bytes := by
  have hparts : (coapMessageParts sz m len).Writes m.bytes := by
    refine Written.Writes.andThen
      (Written.writes_ite (Written.writes_refused _ _) (Written.writes_done _)) fun len => ?_
    refine Written.Writes.andThen
      (Written.writes_ite (Written.writes_refused _ _) (Written.writes_done _)) fun len => ?_
    refine (writes_options sz hm.val 0 len).andThen fun len => ?_
    rw [serializePayload_eq hm]
    exact Written.writes_ite (Written.writes_refused _ _) (Written.writes_done _)
  intro n h
  refine hparts n ?_
  unfold serializeCoapMessage at h
  dsimp only at h
  cases hrc : (coapMessageParts sz m len).rc with
  | error e => rw [hrc] at h; exact nomatch h
  | ok a => rw [hrc] at h; exact h

/-! ## Enough room -/

/-- Room enough for these options whatever their deltas. -/
def optionsRoom (ops : List CoapMsgOption) : Nat := (ops.map fun op => 5 + op.val.length).sum

theorem formatOp_fits {op : CoapMsgOption} (hval : op.val.length < 2 ^ 32) (prev : UInt16)
    {len : Nat} (hroom : 5 + op.val.length ≤ len) :
    (coapMsgFormatOp op prev.toUInt32 len).rc = .ok (opLen prev op) := by
  have hext := extLen_le (op.delta prev).toNat
  refine formatOp_rc hval (le_trans (Nat.mod_le _ _) (le_trans ?_ hroom))
  split
  · omega
  · split <;> omega

theorem serializeOptions_fits (sz : WordSize) {ops : List CoapMsgOption}
    (hval : ∀ op ∈ ops, op.val.length < 2 ^ 32) (prev : UInt16) (len : Nat)
    (hlen : len < 2 ^ sz.bits) (hroom : optionsRoom ops ≤ len) :
    (coapMessageSerializeOptions sz ops prev.toUInt32 len).rc = .ok (optionsBytes prev ops).length ∧
      (optionsBytes prev ops).length ≤ optionsRoom ops := by
  induction ops generalizing prev len with
  | nil => exact ⟨rfl, le_refl 0⟩
  | cons op ops ih =>
    have hhere := opLen_le prev op
    simp only [optionsRoom, List.map_cons, List.sum_cons] at hroom ⊢
    obtain ⟨hrc, hle⟩ := ih
      (fun o ho => hval o (List.mem_cons_of_mem op ho)) op.optionNum (len - opLen prev op) (by omega)
      (by simp only [optionsRoom]; omega)
    rw [optionsBytes, List.length_append, op.length_bytes]
    refine ⟨Written.andThen_rc hlen (formatOp_fits (hval op List.mem_cons_self) prev ?_) ?_ hrc, ?_⟩
    · omega
    · omega
    · simp only [optionsRoom] at hle
      omega

/-- **A message that leaves room to spare is not refused.** -/
theorem serialize_fits {sz : WordSize} {m : CoapMessage} (hm : m.Counted sz) {len : Nat}
    (hlen : len < 2 ^ sz.bits)
    (hroom : 4 + m.token.length + optionsRoom m.opList + (m.payLoad.length + 1) ≤ len) :
    (serializeCoapMessage sz m len).rc = .ok m.bytes.length := by
  have hpayload : m.payloadBytes.length ≤ m.payLoad.length + 1 := by
    unfold CoapMessage.payloadBytes
    split
    · exact Nat.zero_le _
    · exact le_refl _
  obtain ⟨hops, hopsLe⟩ := serializeOptions_fits sz hm.val 0 (len - 4 - m.token.length)
    (by omega) (by omega)
  have hparts : (coapMessageParts sz m len).rc =
      .ok (4 + (m.token.length + ((optionsBytes 0 m.opList).length + m.payloadBytes.length))) := by
    refine Written.andThen_rc hlen ?_ (by omega) (Written.andThen_rc (by omega) ?_ (by omega)
      (Written.andThen_rc (by omega) hops (by omega) ?_))
    · unfold coapMessageSerializeHeader
      rw [if_neg (by omega)]
      rfl
    · unfold coapMessageSerializeToken
      rw [if_neg (by omega)]
      rfl
    · rw [serializePayload_eq hm, if_neg (by omega)]
      rfl
  unfold serializeCoapMessage CoapMessage.bytes
  dsimp only
  rw [hparts, List.length_append, List.length_append, List.length_append]
  rfl

/-- A request with a path of `n` characters and one byte of payload. -/
def pathMessage (n : Nat) : CoapMessage where
  msgId := 1
  token := [4, 3, 2, 1]
  opList := [⟨11, List.replicate n 116, 0, 1⟩]
  payLoad := [33]

end QcloudIot.Coap
