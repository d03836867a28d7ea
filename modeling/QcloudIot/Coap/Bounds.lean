import QcloudIot.Coap.Serialize

/-!
# The bounds of the encoder

`_coap_msg_format_op` makes sure of `checkedLen` bytes and writes `opLen`. The two differ by one
where `option_num` and `val_len` fall on different sides of 13, and by `2 ^ 32` where the sum does
not fit an `unsigned`.

* `checkedLen_cases`: the option is refused, written with room for it (`Fits`), or written past the
  end (`Missed`);
* `options_wrapped`, `options_within`: the loop leaves the buffer iff some option is missed;
* **`encoderSafe_iff`**: the encoder stays in the buffer and fails only when it has to, unless an
  option is missed or the last one is refused though it fits exactly;
* `encoderSafe_fails`: a one-option message that is written one byte past the end.
-/

namespace QcloudIot.Coap

open Mqtt (WordSize)
open Lib

/-- The number of bytes of the options behind one with number `prev`. -/
def optionsLen : UInt16 → List CoapMsgOption → Nat
  | _, [] => 0
  | prev, op :: ops => opLen prev op + optionsLen op.optionNum ops

/-- The number of bytes of the payload, with its marker. -/
def CoapMessage.payloadLen (m : CoapMessage) : Nat :=
  if m.payLoad = [] then 0 else 1 + m.payLoad.length

/-- The number of bytes that the encoding takes. -/
def CoapMessage.encodedLen (m : CoapMessage) : Nat :=
  4 + m.token.length + optionsLen 0 m.opList + m.payloadLen

/-- The format can express the message. -/
structure CoapMessage.Encodable (m : CoapMessage) : Prop where
  token : m.token.length ≤ coapMsgMaxTokenLen
  codeClass : m.codeClass ≤ coapMsgMaxCodeClass
  codeDetail : m.codeDetail ≤ coapMsgMaxCodeDetail
  ascending : m.opList.Pairwise (·.optionNum ≤ ·.optionNum)
  val : ∀ op ∈ m.opList, op.val.length ≤ 65804

/-- The encoder keeps to a buffer of `size` bytes, and fails only when it has to. -/
structure EncoderSafe (sz : WordSize) (m : CoapMessage) (size : Nat) : Prop where
  inBounds : (serializeCoapMessage sz m size).out.length ≤ size
  noWrap : (serializeCoapMessage sz m size).wrapped = false
  refused : ∀ e, (serializeCoapMessage sz m size).rc = .error e →
    size < m.encodedLen ∨ ¬ m.Encodable

/-! ## One option -/

/-- The option is longer than the room left, and the check does not see it: it counts no byte for
the one-byte form of the length, or more bytes than an `unsigned` does. -/
def Missed (left : Nat) (prev : UInt16) (op : CoapMsgOption) : Prop :=
  (op.optionNum < 13 ∧ 13 ≤ op.val.length ∧ op.val.length < 269 ∧ opLen prev op = left + 1) ∨
    (2 ^ 32 ≤ opLen prev op ∧ opLen prev op - 2 ^ 32 ≤ left ∧ left < opLen prev op)

/-- There is room for the option, and for the byte that the check counts in excess. -/
def Fits (left : Nat) (prev : UInt16) (op : CoapMsgOption) : Prop :=
  opLen prev op ≤ left ∧ ¬ (13 ≤ op.optionNum ∧ op.val.length < 13 ∧ opLen prev op = left)

instance (left : Nat) (prev : UInt16) (op : CoapMsgOption) : Decidable (Missed left prev op) :=
  inferInstanceAs (Decidable (_ ∨ _))

instance (left : Nat) (prev : UInt16) (op : CoapMsgOption) : Decidable (Fits left prev op) :=
  inferInstanceAs (Decidable (_ ∧ _))

/-- What the check lets through is missed or fits. -/
theorem checkedLen_cases {op : CoapMsgOption} (hval : op.val.length < 2 ^ 32) (prev : UInt16)
    (left : Nat) :
    checkedLen prev op ≤ left ↔ Missed left prev op ∨ Fits left prev op := by
  have hext := extLen_le (op.delta prev).toNat
  have hlow : op.optionNum < 13 ↔ op.optionNum.toNat < 13 := UInt16.lt_iff_toNat_lt
  have hhigh : 13 ≤ op.optionNum ↔ 13 ≤ op.optionNum.toNat := UInt16.le_iff_toNat_le
  unfold Missed Fits checkedLen opLen
  simp only [ge_iff_le, hlow, hhigh]
  -- the byte counted for the length and the one written, by number and by length
  by_cases hnum : 13 ≤ op.optionNum.toNat
  · rcases extLen_cases op.val.length with ⟨hv, he⟩ | ⟨hv, hv', he⟩ | ⟨hv, he⟩
    · rw [he, if_neg (by omega), if_pos hnum]
      omega
    · rw [he, if_neg (by omega), if_pos hnum]
      omega
    · rw [he, if_pos hv]
      omega
  · rcases extLen_cases op.val.length with ⟨hv, he⟩ | ⟨hv, hv', he⟩ | ⟨hv, he⟩
    · rw [he, if_neg (by omega), if_neg hnum]
      omega
    · rw [he, if_neg (by omega), if_neg hnum]
      omega
    · rw [he, if_pos hv]
      omega

/-- An option that fits stays in its room. -/
theorem formatOp_within {op : CoapMsgOption} (hval : op.val.length < 2 ^ 32) {prev : UInt16}
    {left : Nat} (hmiss : ¬ Missed left prev op) :
    (coapMsgFormatOp op prev.toUInt32 left).Within left := by
  rw [formatOp_eq hval]
  split
  · exact Written.within_refused _ _
  · rename_i hchecked
    have hle : opLen prev op ≤ left :=
      (((checkedLen_cases hval prev left).mp (Nat.not_lt.mp hchecked)).resolve_left hmiss).1
    refine ⟨?_, decide_eq_false (by omega), fun n h => ?_⟩
    · rw [op.length_bytes]
      exact hle
    · rw [op.length_bytes]
      exact (Except.ok.inj h).symm

/-- An option is refused for want of room, or because it fits exactly and the check counts a byte
in excess. -/
theorem formatOp_error {op : CoapMsgOption} (hval : op.val.length < 2 ^ 32) {prev : UInt16}
    {left : Nat} {e : ReturnCode} (h : (coapMsgFormatOp op prev.toUInt32 left).rc = .error e) :
    left < opLen prev op ∨
      (13 ≤ op.optionNum ∧ op.val.length < 13 ∧ opLen prev op = left) := by
  have hchecked : ¬ checkedLen prev op ≤ left := by
    intro hle
    rw [formatOp_rc hval hle] at h
    exact nomatch h
  rw [checkedLen_cases hval, not_or] at hchecked
  rcases Nat.lt_or_ge left (opLen prev op) with hlt | hle
  · exact .inl hlt
  · exact .inr (Decidable.not_not.mp fun hne => hchecked.2 ⟨hle, hne⟩)

/-! ## The options -/

/-- Some option is missed, the ones before it having fit. -/
def Overruns : Nat → UInt16 → List CoapMsgOption → Prop
  | _, _, [] => False
  | left, prev, op :: ops =>
    Missed left prev op ∨ (Fits left prev op ∧ Overruns (left - opLen prev op) op.optionNum ops)

instance decidableOverruns : ∀ (left : Nat) (prev : UInt16) (ops : List CoapMsgOption),
    Decidable (Overruns left prev ops)
  | _, _, [] => .isFalse id
  | left, prev, op :: ops =>
    haveI := decidableOverruns (left - opLen prev op) op.optionNum ops
    inferInstanceAs (Decidable (Missed left prev op ∨ (Fits left prev op ∧ _)))

theorem length_optionsBytes (prev : UInt16) (ops : List CoapMsgOption) :
    (optionsBytes prev ops).length = optionsLen prev ops := by
  induction ops generalizing prev with
  | nil => rfl
  | cons op ops ih =>
    rw [optionsBytes, optionsLen, List.length_append, op.length_bytes, ih op.optionNum]

section

variable {sz : WordSize}

/-- The loop runs past the end once an option is missed. -/
theorem options_wrapped {ops : List CoapMsgOption} (hval : ∀ op ∈ ops, op.val.length < 2 ^ 32)
    {prev : UInt16} {left : Nat} (hM : left < 2 ^ sz.bits) (h : Overruns left prev ops) :
    (coapMessageSerializeOptions sz ops prev.toUInt32 left).wrapped = true := by
  induction ops generalizing prev left with
  | nil => exact h.elim
  | cons op ops ih =>
    have hop := hval op List.mem_cons_self
    have hchecked : checkedLen prev op ≤ left := by
      rw [checkedLen_cases hop]
      exact h.imp_right And.left
    have hrc := formatOp_rc hop hchecked
    rcases h with hmiss | ⟨hfits, hnext⟩
    · refine Written.andThen_wrapped_of_lt hrc ?_
      rcases hmiss with ⟨-, -, -, hlen⟩ | ⟨-, -, hlt⟩
      · omega
      · exact hlt
    · exact Written.andThen_wrapped_of_next hrc hM hfits.1
        (ih (fun o ho => hval o (List.mem_cons_of_mem op ho))
          (lt_of_le_of_lt (Nat.sub_le _ _) hM) hnext)

/-- The loop stays in its room as long as no option is missed. -/
theorem options_within {ops : List CoapMsgOption} (hval : ∀ op ∈ ops, op.val.length < 2 ^ 32)
    {prev : UInt16} {left : Nat} (hM : left < 2 ^ sz.bits) (h : ¬ Overruns left prev ops) :
    (coapMessageSerializeOptions sz ops prev.toUInt32 left).Within left := by
  induction ops generalizing prev left with
  | nil => exact Written.within_done (Nat.zero_le _)
  | cons op ops ih =>
    have hop := hval op List.mem_cons_self
    have hmiss : ¬ Missed left prev op := fun hm => h (.inl hm)
    refine (formatOp_within hop hmiss).andThen hM fun n hn => ?_
    have hlen : n = opLen prev op := by
      have := writes_formatOp hop prev left n hn
      rw [this.1, op.length_bytes]
    have hfits : Fits left prev op := by
      refine ((checkedLen_cases hop prev left).mp ?_).resolve_left hmiss
      by_contra hgt
      rw [formatOp_eq hop, if_pos (Nat.not_le.mp hgt)] at hn
      exact nomatch hn
    subst hlen
    exact ih (fun o ho => hval o (List.mem_cons_of_mem op ho))
      (lt_of_le_of_lt (Nat.sub_le _ _) hM) fun hnext => h (.inr ⟨hfits, hnext⟩)

/-- The last option has a number from 13 on and a value of fewer than 13 bytes. -/
def LastShort (ops : List CoapMsgOption) : Prop :=
  ∃ op, ops.getLast? = some op ∧ 13 ≤ op.optionNum ∧ op.val.length < 13

theorem optionsLen_pos (prev : UInt16) {ops : List CoapMsgOption} (h : ops ≠ []) :
    0 < optionsLen prev ops := by
  cases ops with
  | nil => exact absurd rfl h
  | cons op ops => exact Nat.lt_of_lt_of_le (opLen_pos prev op) (Nat.le_add_right _ _)

/-- The loop refuses options that do not fit, or whose last one fits exactly. -/
theorem options_error {ops : List CoapMsgOption} (hval : ∀ op ∈ ops, op.val.length < 2 ^ 32)
    {prev : UInt16} {left : Nat} {e : ReturnCode} (hM : left < 2 ^ sz.bits)
    (hover : ¬ Overruns left prev ops)
    (h : (coapMessageSerializeOptions sz ops prev.toUInt32 left).rc = .error e) :
    left < optionsLen prev ops ∨ (optionsLen prev ops = left ∧ LastShort ops) := by
  induction ops generalizing prev left with
  | nil => exact nomatch h
  | cons op ops ih =>
    have hop := hval op List.mem_cons_self
    rw [optionsLen]
    rcases Written.andThen_error h with hhere | ⟨n, hn, hnext⟩
    · rcases formatOp_error hop hhere with hlt | ⟨hnum, hlen, heq⟩
      · exact .inl (by omega)
      · by_cases hnil : ops = []
        · subst hnil
          exact .inr ⟨heq, op, rfl, hnum, hlen⟩
        · have hpos := optionsLen_pos op.optionNum hnil
          exact .inl (by omega)
    · have hchecked : checkedLen prev op ≤ left := by
        by_contra hgt
        rw [formatOp_eq hop, if_pos (Nat.not_le.mp hgt)] at hn
        exact nomatch hn
      have hfits : Fits left prev op :=
        ((checkedLen_cases hop prev left).mp hchecked).resolve_left fun hm => hover (.inl hm)
      have hfit := hfits.1
      rw [formatOp_rc hop hchecked] at hn
      obtain rfl := Except.ok.inj hn
      rw [modSub_of_le hM hfit] at hnext
      rcases ih
        (fun o ho => hval o (List.mem_cons_of_mem op ho)) (lt_of_le_of_lt (Nat.sub_le _ _) hM)
        (fun hn => hover (.inr ⟨hfits, hn⟩)) hnext with hlt | ⟨heq, o, hlast, ho⟩
      · exact .inl (by omega)
      · refine .inr ⟨by omega, o, ?_, ho⟩
        rw [List.getLast?_cons, hlast]
        rfl

/-- Options that take all the room are refused if the last one has the byte in excess. -/
theorem options_full (sz : WordSize) {ops : List CoapMsgOption}
    (hval : ∀ op ∈ ops, op.val.length ≤ 65804) (prev : UInt16) (left : Nat)
    (hM : left < 2 ^ sz.bits) (hlen : optionsLen prev ops = left) (hlast : LastShort ops) :
    ∃ e, (coapMessageSerializeOptions sz ops prev.toUInt32 left).rc = .error e := by
  obtain ⟨last, hlast, hnum, hshort⟩ := hlast
  induction ops generalizing prev left with
  | nil => exact nomatch hlast
  | cons op ops ih =>
    have hop : op.val.length ≤ 65804 := hval op List.mem_cons_self
    have hle := opLen_le prev op
    rw [optionsLen] at hlen
    by_cases hnil : ops = []
    · subst hnil
      obtain rfl : op = last := Option.some.inj hlast
      have heq : opLen prev op = left := hlen
      have hrefused : ¬ checkedLen prev op ≤ left := by
        rw [checkedLen_cases (by omega), not_or]
        exact ⟨fun hm => by unfold Missed at hm; omega, fun hf => hf.2 ⟨hnum, hshort, heq⟩⟩
      refine ⟨.errCoapDataSize, ?_⟩
      rw [coapMessageSerializeOptions, formatOp_eq (by omega), if_pos (Nat.not_le.mp hrefused)]
      rfl
    · have hpos := optionsLen_pos op.optionNum hnil
      have hchecked : checkedLen prev op ≤ left := by
        rw [checkedLen_cases (by omega)]
        exact .inr ⟨by omega, fun hf => by omega⟩
      have hlast' : ops.getLast? = some last := by
        rw [List.getLast?_cons] at hlast
        cases hl : ops.getLast? with
        | none => exact absurd (List.getLast?_eq_none_iff.mp hl) hnil
        | some o => rw [hl] at hlast; exact hlast
      obtain ⟨e, he⟩ := ih (fun o ho => hval o (List.mem_cons_of_mem op ho)) op.optionNum
        (left - opLen prev op) (by omega) (by omega) hlast'
      exact ⟨e, Written.andThen_rc_error hM (formatOp_rc (by omega) hchecked) (by omega) he⟩

end

/-! ## The message -/

/-- Header and token fit, and some option is missed. -/
def MissedRoom (m : CoapMessage) (size : Nat) : Prop :=
  4 + m.token.length ≤ size ∧ Overruns (size - 4 - m.token.length) 0 m.opList

instance (m : CoapMessage) (size : Nat) : Decidable (MissedRoom m size) :=
  inferInstanceAs (Decidable (_ ∧ _))

/-- The message without payload takes the whole buffer, and its last option has the byte in
excess. -/
def FalselyFull (m : CoapMessage) (size : Nat) : Prop :=
  m.payLoad = [] ∧ m.encodedLen = size ∧ LastShort m.opList

section

variable {sz : WordSize} {m : CoapMessage} {size : Nat}

theorem length_payloadBytes (m : CoapMessage) : m.payloadBytes.length = m.payloadLen := by
  unfold CoapMessage.payloadBytes CoapMessage.payloadLen
  split
  · rfl
  · rw [List.length_cons, Nat.add_comm]

theorem header_cases (m : CoapMessage) (len : Nat) :
    (len < 4 ∧ coapMessageSerializeHeader m len = .refused .enospc) ∨
      (4 ≤ len ∧ coapMessageSerializeHeader m len = .done m.headerBytes) := by
  unfold coapMessageSerializeHeader
  split
  · exact .inl ⟨‹_›, rfl⟩
  · exact .inr ⟨Nat.not_lt.mp ‹_›, rfl⟩

theorem token_cases (m : CoapMessage) (len : Nat) :
    (len < m.token.length ∧ coapMessageSerializeToken m len = .refused .enospc) ∨
      (m.token.length ≤ len ∧ coapMessageSerializeToken m len = .done m.token) := by
  unfold coapMessageSerializeToken
  split
  · exact .inl ⟨‹_›, rfl⟩
  · exact .inr ⟨Nat.not_lt.mp ‹_›, rfl⟩

/-- The options and the payload, which come behind header and token. -/
def coapMessageBody (sz : WordSize) (m : CoapMessage) (len : Nat) : Written ReturnCode UInt8 :=
  (coapMessageSerializeOptions sz m.opList 0 len).andThen (2 ^ sz.bits) len
    (coapMessageSerializePayload sz m)

/-- Header and token are refused, or what follows has the rest of the buffer. -/
theorem parts_cases (m : CoapMessage) (hsize : size < 2 ^ sz.bits) :
    (size < 4 + m.token.length ∧ (coapMessageParts sz m size).Within size) ∨
      (4 + m.token.length ≤ size ∧ coapMessageParts sz m size =
        ((coapMessageBody sz m (size - 4 - m.token.length)).behind m.token).behind
          m.headerBytes) := by
  unfold coapMessageParts
  rcases header_cases m size with ⟨hlt, hh⟩ | ⟨hle, hh⟩
  · rw [hh]
    exact .inl ⟨by omega, Written.within_refused _ _⟩
  · have h4 : m.headerBytes.length ≤ size := hle
    rw [hh, Written.done_andThen hsize h4]
    change (_ ∧ Written.Within (.behind _ (Written.andThen _ (size - 4)
      (coapMessageSerializeToken m (size - 4)) (coapMessageBody sz m))) _) ∨
      (_ ∧ Written.behind _ (Written.andThen _ (size - 4)
        (coapMessageSerializeToken m (size - 4)) (coapMessageBody sz m)) = _)
    rcases token_cases m (size - 4) with ⟨hlt, ht⟩ | ⟨hle', ht⟩
    · rw [ht]
      exact .inl ⟨by omega, (Written.within_refused _ _).behind h4⟩
    · rw [ht, Written.done_andThen (by omega) hle']
      exact .inr ⟨by omega, rfl⟩

theorem body_within (hm : m.Counted sz) {left : Nat} (hleft : left < 2 ^ sz.bits)
    (h : ¬ Overruns left 0 m.opList) : (coapMessageBody sz m left).Within left := by
  refine (options_within hm.val hleft h).andThen hleft fun n _ => ?_
  rw [serializePayload_eq hm]
  split
  · exact Written.within_refused _ _
  · exact Written.within_done (Nat.not_lt.mp ‹_›)

/-- Options and payload are refused when they do not fit, or the options are the last thing. -/
theorem body_error (hm : m.Counted sz) {left : Nat} (hleft : left < 2 ^ sz.bits)
    (h : ¬ Overruns left 0 m.opList) {e : ReturnCode} (he : (coapMessageBody sz m left).rc = .error e) :
    left < optionsLen 0 m.opList + m.payloadLen ∨
      (m.payLoad = [] ∧ optionsLen 0 m.opList + m.payloadLen = left ∧ LastShort m.opList) := by
  have hlen : m.payLoad ≠ [] → 0 < m.payloadLen := by
    intro hne
    rw [CoapMessage.payloadLen, if_neg hne]
    omega
  have hwithin : (coapMessageSerializeOptions sz m.opList (0 : UInt16).toUInt32 left).Within left :=
    options_within hm.val hleft h
  rcases Written.andThen_error he with hops | ⟨n, hn, hpay⟩
  · rcases options_error hm.val hleft h hops with hlt | ⟨heq, hlast⟩
    · exact .inl (by omega)
    · by_cases hnil : m.payLoad = []
      · refine .inr ⟨hnil, ?_, hlast⟩
        rw [CoapMessage.payloadLen, if_pos hnil]
        exact heq
      · have := hlen hnil
        exact .inl (by omega)
  · obtain ⟨hn', hout⟩ := writes_options sz hm.val 0 left n hn
    have hle : n ≤ left := by
      have := hwithin.length_le
      have := hwithin.rc_length n hn
      omega
    rw [length_optionsBytes] at hn'
    rw [modSub_of_le hleft hle, serializePayload_eq hm] at hpay
    split at hpay
    · rename_i hgt
      rw [length_payloadBytes] at hgt
      exact .inl (by omega)
    · exact nomatch hpay

theorem serialize_error {e : ReturnCode} (h : (serializeCoapMessage sz m size).rc = .error e) :
    ∃ e', (coapMessageParts sz m size).rc = .error e' := by
  unfold serializeCoapMessage at h
  dsimp only at h
  cases hrc : (coapMessageParts sz m size).rc with
  | error e' => exact ⟨e', rfl⟩
  | ok n => rw [hrc] at h; exact nomatch h

/-- The buffer is kept to, and a message that fits is refused only if it is falsely full. -/
theorem encoderSafe_of (hm : m.Counted sz) (hsize : size < 2 ^ sz.bits)
    (hroom : ¬ MissedRoom m size) (hfull : ¬ (m.Encodable ∧ FalselyFull m size)) :
    EncoderSafe sz m size := by
  rcases parts_cases m hsize with ⟨hlt, hwithin⟩ | ⟨hle, hparts⟩
  · refine ⟨hwithin.length_le, hwithin.noWrap, fun _ _ => .inl ?_⟩
    unfold CoapMessage.encodedLen
    omega
  · have hover : ¬ Overruns (size - 4 - m.token.length) 0 m.opList := fun ho => hroom ⟨hle, ho⟩
    have hbody : (coapMessageBody sz m _).Within _ := body_within hm (by omega) hover
    have hwithin : (coapMessageParts sz m size).Within size := by
      rw [hparts]
      refine Written.Within.behind (by change 4 ≤ size; omega) ?_
      exact Written.Within.behind (by change _ ≤ size - 4; omega) hbody
    refine ⟨hwithin.length_le, hwithin.noWrap, fun e he => ?_⟩
    obtain ⟨e', he'⟩ := serialize_error he
    rw [hparts, Written.behind_error, Written.behind_error] at he'
    rcases body_error hm (by omega) hover he' with hlt | ⟨hnil, heq, hlast⟩
    · refine .inl ?_
      unfold CoapMessage.encodedLen
      omega
    · refine .inr fun henc => hfull ⟨henc, hnil, ?_, hlast⟩
      unfold CoapMessage.encodedLen
      omega

theorem not_encoderSafe_of_missed (hm : m.Counted sz) (hsize : size < 2 ^ sz.bits)
    (h : MissedRoom m size) : ¬ EncoderSafe sz m size := by
  intro hsafe
  rcases parts_cases m hsize with ⟨hlt, -⟩ | ⟨hle, hparts⟩
  · have := h.1
    omega
  · have hops : (coapMessageSerializeOptions sz m.opList (0 : UInt16).toUInt32 _).wrapped = true :=
      options_wrapped hm.val (by omega) h.2
    have hwrapped : (coapMessageParts sz m size).wrapped = true := by
      rw [hparts]
      exact Written.andThen_wrapped hops
    have hno : (coapMessageParts sz m size).wrapped = false := hsafe.noWrap
    rw [hwrapped] at hno
    exact absurd hno (by simp)

theorem not_encoderSafe_of_full (hsize : size < 2 ^ sz.bits)
    (henc : m.Encodable) (h : FalselyFull m size) : ¬ EncoderSafe sz m size := by
  intro hsafe
  obtain ⟨hnil, hlen, hlast⟩ := h
  have hpay : m.payloadLen = 0 := if_pos hnil
  unfold CoapMessage.encodedLen at hlen
  rcases parts_cases m hsize with ⟨hlt, -⟩ | ⟨hle, hparts⟩
  · omega
  · obtain ⟨e, he⟩ := options_full sz henc.val 0 (size - 4 - m.token.length) (by omega)
      (by omega) hlast
    have herr : (coapMessageParts sz m size).rc = .error e := by
      rw [hparts, Written.behind_error, Written.behind_error]
      exact (congrArg Written.rc (Written.andThen_of_error he)).trans he
    have hrc : (serializeCoapMessage sz m size).rc = .error .errCoapInternal := by
      unfold serializeCoapMessage
      dsimp only
      rw [herr]
      rfl
    rcases hsafe.refused _ hrc with hlt | hinvalid
    · unfold CoapMessage.encodedLen at hlt
      omega
    · exact hinvalid henc

end

/-- **The encoder keeps to its buffer and refuses only what does not fit, unless an option is
missed or a message is falsely full.** -/
theorem encoderSafe_iff {sz : WordSize} {m : CoapMessage} (hm : m.Counted sz) {size : Nat}
    (hsize : size < 2 ^ (sz.bits - 1)) :
    EncoderSafe sz m size ↔
      ¬ MissedRoom m size ∧ ¬ (m.Encodable ∧ FalselyFull m size) := by
  have hsize' : size < 2 ^ sz.bits :=
    lt_of_lt_of_le hsize (Nat.pow_le_pow_right (by omega) (Nat.sub_le _ _))
  constructor
  · exact fun h => ⟨fun hmiss => not_encoderSafe_of_missed hm hsize' hmiss h,
      fun ⟨henc, hfull⟩ => not_encoderSafe_of_full hsize' henc hfull h⟩
  · exact fun ⟨hroom, hfull⟩ => encoderSafe_of hm hsize' hroom hfull

/-- A path of thirteen characters, in a buffer with room for it. -/
theorem encoderSafe_path : EncoderSafe .w32 (pathMessage 13) 25 :=
  (encoderSafe_iff ⟨by decide, by decide⟩ (by decide)).mpr
    ⟨by decide, fun h => absurd h.2.1 (by decide)⟩

/-- One byte less than header, token and path take: the path's last character is written behind the
end. -/
theorem encoderSafe_fails : ¬ EncoderSafe .w32 (pathMessage 13) 22 :=
  fun h => absurd h.inBounds (by decide)

end QcloudIot.Coap
