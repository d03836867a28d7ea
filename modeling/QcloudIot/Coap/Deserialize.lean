import QcloudIot.Coap.Message

/-!
# Reading a message

`deserialize_coap_message` and the functions it is made of (`coap_client_deserialize.c`), on a
little-endian host. `p` and `len` together are the bytes left; a function that returns the number of
bytes it has parsed returns the bytes behind them here.

* `option_ok`, `options_ok`, `body_ok`: a message is extended by the options and the payload read;
* `deserialize_cases`: a message is refused and destroyed, or refused by its check, or accepted.
-/

namespace QcloudIot.Coap

/-! ## The code -/

/-- The message that is filled, the heap, and the answers to the allocations to come: two for each
option, one for the payload. Those beyond the list succeed. -/
structure Decoder where
  message : CoapMessage
  heap : Heap
  oks : List Bool
  deriving DecidableEq

/-- `coap_message_destroy` on the message. -/
def Decoder.destroy (d : Decoder) : Decoder :=
  let (m, h) := coapMessageDestroy d.heap d.message
  { d with message := m, heap := h }

/-- `*(uint16_t *)p`. -/
def load16 (b₀ b₁ : UInt8) : UInt16 := b₀.toUInt16 ||| b₁.toUInt16 <<< 8

/-- `Swap16`. -/
def swap16 (a : UInt16) : UInt16 := (a &&& 0xff00) >>> 8 ||| (a &&& 0x00ff) <<< 8

theorem toNat_load16 (b₀ b₁ : UInt8) : (load16 b₀ b₁).toNat = b₁.toNat * 256 + b₀.toNat := by
  have h₀ : b₀.toNat < 2 ^ 8 := b₀.toNat_lt
  have h₁ : b₁.toNat < 2 ^ 8 := b₁.toNat_lt
  have hshift : (b₁.toUInt16 <<< 8).toNat = b₁.toNat <<< 8 := by
    rw [UInt16.toNat_shiftLeft, UInt8.toNat_toUInt16]
    exact Nat.mod_eq_of_lt (by rw [Nat.shiftLeft_eq]; simp; omega)
  rw [load16, UInt16.toNat_or, hshift, UInt8.toNat_toUInt16, Nat.or_comm,
    ← Nat.shiftLeft_add_eq_or_of_lt h₀, Nat.shiftLeft_eq]

theorem toNat_high (a : UInt16) : ((a &&& 0xff00) >>> 8).toNat = a.toNat / 256 := by
  have ha := a.toNat_lt
  rw [UInt16.toNat_shiftRight, UInt16.toNat_and]
  change (a.toNat &&& 65280) >>> 8 = _
  rw [Nat.shiftRight_and_distrib]
  change a.toNat >>> 8 &&& 2 ^ 8 - 1 = _
  rw [Nat.and_two_pow_sub_one_eq_mod, Nat.shiftRight_eq_div_pow]
  omega

theorem toNat_swap16 (a : UInt16) : (swap16 a).toNat = a.toNat % 256 * 256 + a.toNat / 256 := by
  have ha := a.toNat_lt
  have hlow : a.toNat &&& 255 = a.toNat % 256 := Nat.and_two_pow_sub_one_eq_mod a.toNat 8
  have hshift : ((a &&& 0x00ff) <<< 8).toNat = (a.toNat % 256) <<< 8 := by
    rw [UInt16.toNat_shiftLeft, UInt16.toNat_and]
    change (a.toNat &&& 255) <<< 8 % 2 ^ 16 = _
    rw [hlow, Nat.mod_eq_of_lt]
    rw [Nat.shiftLeft_eq]
    omega
  rw [swap16, UInt16.toNat_or, toNat_high, hshift, Nat.or_comm,
    ← Nat.shiftLeft_add_eq_or_of_lt (by omega), Nat.shiftLeft_eq]

/-- `Swap16` of a loaded pair is the pair in network order. -/
theorem toNat_swap_load (b₀ b₁ : UInt8) :
    (swap16 (load16 b₀ b₁)).toNat = b₀.toNat * 256 + b₁.toNat := by
  have h₀ := b₀.toNat_lt
  have h₁ := b₁.toNat_lt
  rw [toNat_swap16, toNat_load16]
  omega
/-- `_coap_msg_check`. -/
def coapMsgCheck (m : CoapMessage) : ReturnCode :=
  if m.IsEmpty then
    if m.type = .non ∨ m.token.length ≠ 0 ∨ m.opList ≠ [] ∨ m.payLoad.length ≠ 0 then
      .errCoapDataSize
    else .retSuccess
  else if m.type = .rst then .errCoapDataSize
  else .retSuccess

/-- `_coap_msg_op_list_add_last`. -/
def coapMsgOpListAddLast (d : Decoder) (num : UInt32) (val : Bytes) : ReturnCode × Decoder :=
  match qcloudIotCoapOptionInit d.heap (d.oks.headD true) (d.oks.tail.headD true) num val with
  | (none, h) => (.errFailure, { d with heap := h, oks := d.oks.drop 2 })
  | (some option, h) =>
    (.retSuccess,
      { message := { d.message with opList := d.message.opList ++ [option] }
        heap := h
        oks := d.oks.drop 2 })

/-- `_coap_message_deserialize_header`, which also returns `token_len`. -/
def coapMessageDeserializeHeader (m : CoapMessage) :
    Bytes → Except ReturnCode (CoapMessage × Nat × Bytes)
  | b₀ :: b₁ :: b₂ :: b₃ :: p =>
    let version := ((b₀ >>> 6) &&& 0x03).toUInt32
    if version ≠ coapMsgVer then .error .einval
    else
      let type := CoapMsgType.ofBits ((b₀ >>> 4) &&& 0x03)
      let tokenLen := (b₀ &&& 0x0f).toNat
      if tokenLen > coapMsgMaxTokenLen then .error .errCoapDataSize
      else
        let codeDetail := (b₁ &&& 0x1f).toUInt32
        let codeClass := ((b₁ >>> 5) &&& 0x07).toUInt32
        if codeClass ≠ 0 ∧ codeClass ≠ 2 ∧ codeClass ≠ 4 ∧ codeClass ≠ 5 then
          .error .errCoapBadmsg
        else
          .ok ({ m with version, type, codeDetail, codeClass, msgId := swap16 (load16 b₂ b₃) },
            tokenLen, p)
  | _ => .error .errCoapDataSize

/-- `_coap_message_deserialize_token`. -/
def coapMessageDeserializeToken (m : CoapMessage) (tokenLen : Nat) (p : Bytes) :
    Except ReturnCode (CoapMessage × Bytes) :=
  if p.length < tokenLen then .error .errCoapDataSize
  else .ok ({ m with token := p.take tokenLen }, p.drop tokenLen)

/-- The delta or the length of an option, from its four bits and the extended bytes. The one-byte
form adds a plain `char`. -/
def readExtended (t : Target) (n : UInt32) (p : Bytes) : Except ReturnCode (UInt32 × Bytes) :=
  if n = 13 then
    match p with
    | b :: p => .ok (n + t.ofChar b, p)
    | [] => .error .errCoapDataSize
  else if n = 14 then
    match p with
    | b₀ :: b₁ :: p => .ok (269 + (swap16 (load16 b₀ b₁)).toUInt32, p)
    | _ => .error .errCoapDataSize
  else .ok (n, p)

/-- The part of `_coap_message_deserialize_option` before the list: delta, value and the bytes
behind. -/
def readOption (t : Target) : Bytes → Except ReturnCode (UInt32 × Bytes × Bytes)
  | [] => .error .errCoapDataSize
  | b :: p =>
    let opDelta := ((b >>> 4) &&& 0x0f).toUInt32
    let opLen := (b &&& 0x0f).toUInt32
    if opDelta = 15 ∨ opLen = 15 then .error .errCoapDataSize
    else
      match readExtended t opDelta p with
      | .error rc => .error rc
      | .ok (opDelta, p) =>
        match readExtended t opLen p with
        | .error rc => .error rc
        | .ok (opLen, p) =>
          if p.length < opLen.toNat then .error .errCoapDataSize
          else .ok (opDelta, p.take opLen.toNat, p.drop opLen.toNat)

/-- `_coap_message_deserialize_option`. -/
def coapMessageDeserializeOption (t : Target) (d : Decoder) (p : Bytes) :
    Except ReturnCode Bytes × Decoder :=
  match readOption t p with
  | .error rc => (.error rc, d)
  | .ok (opDelta, val, rest) =>
    let opNum :=
      match d.message.opList.getLast? with
      | none => opDelta
      | some prev => prev.optionNum.toUInt32 + opDelta
    match coapMsgOpListAddLast d opNum val with
    | (.retSuccess, d) => (.ok rest, d)
    | (rc, d) => (.error rc, d)

/-- What ends the option loop: the end of the message, or the payload's marker. -/
def EndsOptions (p : Bytes) : Prop := p = [] ∨ p.head? = some 0xff

instance (p : Bytes) : Decidable (EndsOptions p) := inferInstanceAs (Decidable (_ ∨ _))

/-- The loop of `_coap_message_deserialize_options`. Every round takes a byte, so that as many
rounds as there are bytes are enough. -/
def coapMessageDeserializeOptions (t : Target) :
    Nat → Decoder → Bytes → Except ReturnCode Bytes × Decoder
  | 0, d, p => (.ok p, d)
  | n + 1, d, p =>
    if EndsOptions p then (.ok p, d)
    else
      match coapMessageDeserializeOption t d p with
      | (.error rc, d) => (.error rc, d)
      | (.ok p, d) => coapMessageDeserializeOptions t n d p

/-- `_coap_message_deserialize_payload`. -/
def coapMessageDeserializePayload (d : Decoder) : Bytes → Except ReturnCode Bytes × Decoder
  | [] => (.ok [], d)
  | b :: p =>
    if b ≠ 0xff then (.error .errCoapDataSize, d)
    else if p = [] then (.error .errCoapDataSize, d)
    else
      match d.heap.malloc (d.oks.headD true) with
      | (none, h) => (.error .enomem, { d with heap := h, oks := d.oks.tail })
      | (some addr, h) =>
        (.ok [],
          { message := { d.message with payLoadAt := some addr, payLoad := p }
            heap := h
            oks := d.oks.tail })

/-- Options and payload of `deserialize_coap_message`. -/
def coapMessageDeserializeBody (t : Target) (d : Decoder) (p : Bytes) :
    Except ReturnCode Bytes × Decoder :=
  match coapMessageDeserializeOptions t p.length d p with
  | (.error rc, d) => (.error rc, d)
  | (.ok p, d) => coapMessageDeserializePayload d p

/-- `deserialize_coap_message`. -/
def deserializeCoapMessage (t : Target) (d : Decoder) (buf : Bytes) : ReturnCode × Decoder :=
  match coapMessageDeserializeHeader d.message buf with
  | .error _ => (.errCoapInternal, d.destroy)
  | .ok (m, tokenLen, p) =>
    match coapMessageDeserializeToken m tokenLen p with
    | .error _ => (.errCoapInternal, d.destroy)
    | .ok (m, p) =>
      match coapMessageDeserializeBody t { d with message := m } p with
      | (.error _, d) => (.errCoapInternal, d.destroy)
      | (.ok _, d) => (coapMsgCheck d.message, d)

/-! ## What is filled in -/

/-- Number and value of an option. -/
def CoapMsgOption.content (op : CoapMsgOption) : UInt16 × Bytes := (op.optionNum, op.val)

/-- The number of the last option, which the next delta is added to. -/
def CoapMessage.lastNum (m : CoapMessage) : UInt16 :=
  match m.opList.getLast? with
  | none => 0
  | some op => op.optionNum

/-- The first delta counts from 0. -/
theorem opNum_eq (m : CoapMessage) (opDelta : UInt32) :
    (match m.opList.getLast? with
      | none => opDelta
      | some prev => prev.optionNum.toUInt32 + opDelta) = m.lastNum.toUInt32 + opDelta := by
  unfold CoapMessage.lastNum
  cases m.opList.getLast? with
  | none => exact (UInt32.zero_add _).symm
  | some prev => rfl

theorem lastNum_append (m : CoapMessage) (op : CoapMsgOption) :
    CoapMessage.lastNum { m with opList := m.opList ++ [op] } = op.optionNum := by
  simp [CoapMessage.lastNum]

section

variable {t : Target} {d d' : Decoder} {p rest : Bytes}

theorem optionInit_some {h h' : Heap} {okOption okVal : Bool} {num : UInt32} {val : Bytes}
    {op : CoapMsgOption} (hop : qcloudIotCoapOptionInit h okOption okVal num val = (some op, h')) :
    op.content = (num.toUInt16, val) := by
  unfold qcloudIotCoapOptionInit at hop
  split at hop
  · exact nomatch hop
  · split at hop
    · exact nomatch hop
    · cases hop
      rfl

/-- The option read is added behind the others. -/
theorem option_ok (h : coapMessageDeserializeOption t d p = (.ok rest, d')) :
    ∃ delta val op, readOption t p = .ok (delta, val, rest) ∧
      op.content = ((d.message.lastNum.toUInt32 + delta).toUInt16, val) ∧
      d'.message = { d.message with opList := d.message.opList ++ [op] } ∧ d'.oks = d.oks.drop 2 := by
  unfold coapMessageDeserializeOption at h
  split at h
  · exact nomatch h
  · rename_i delta val p' hread
    dsimp only at h
    unfold coapMsgOpListAddLast at h
    split at h
    · rename_i d₁ hadd
      split at hadd
      · exact nomatch hadd
      · rename_i op h' hinit
        cases hadd
        cases h
        refine ⟨delta, val, op, hread, ?_, rfl, rfl⟩
        rw [optionInit_some hinit, opNum_eq]
    · exact nomatch h

theorem options_ok {n : Nat} {d d' : Decoder} {p rest : Bytes}
    (h : coapMessageDeserializeOptions t n d p = (.ok rest, d')) :
    ∃ new, d'.message = { d.message with opList := d.message.opList ++ new } := by
  induction n generalizing d p with
  | zero =>
    cases h
    exact ⟨[], by rw [List.append_nil]⟩
  | succ n ih =>
    rw [coapMessageDeserializeOptions] at h
    split at h
    · cases h
      exact ⟨[], by rw [List.append_nil]⟩
    · split at h
      · exact nomatch h
      · rename_i p₁ d₁ hop
        obtain ⟨delta, val, op, -, -, hmsg, -⟩ := option_ok hop
        obtain ⟨new, hnew⟩ := ih h
        refine ⟨op :: new, ?_⟩
        rw [hnew, hmsg]
        simp

theorem payload_ok (h : coapMessageDeserializePayload d p = (.ok rest, d')) :
    d'.message.opList = d.message.opList ∧
      { d'.message with payLoadAt := none, payLoad := [] } =
        { d.message with payLoadAt := none, payLoad := [] } := by
  cases p with
  | nil =>
    cases h
    exact ⟨rfl, rfl⟩
  | cons b p =>
    rw [coapMessageDeserializePayload] at h
    split at h
    · exact nomatch h
    · split at h
      · exact nomatch h
      · split at h
        · exact nomatch h
        · cases h
          exact ⟨rfl, rfl⟩

theorem body_ok (h : coapMessageDeserializeBody t d p = (.ok rest, d')) :
    ∃ p₁ d₁, coapMessageDeserializeOptions t p.length d p = (.ok p₁, d₁) ∧
      coapMessageDeserializePayload d₁ p₁ = (.ok rest, d') := by
  unfold coapMessageDeserializeBody at h
  split at h
  · exact nomatch h
  · exact ⟨_, _, ‹_›, h⟩

end

/-- The message is refused and destroyed, or its check decides. -/
theorem deserialize_cases (t : Target) (d : Decoder) (buf : Bytes) :
    ((deserializeCoapMessage t d buf).1 = .errCoapInternal ∧
        (deserializeCoapMessage t d buf).2.message = .zero) ∨
      (deserializeCoapMessage t d buf).1 =
        coapMsgCheck (deserializeCoapMessage t d buf).2.message := by
  unfold deserializeCoapMessage
  split
  · exact .inl ⟨rfl, rfl⟩
  · split
    · exact .inl ⟨rfl, rfl⟩
    · split
      · exact .inl ⟨rfl, rfl⟩
      · exact .inr rfl

end QcloudIot.Coap
