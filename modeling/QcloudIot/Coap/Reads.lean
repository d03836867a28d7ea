import QcloudIot.Coap.Deserialize
import QcloudIot.Lib.Reading

/-!
# What the decoder reads

The functions of `coap_client_deserialize.c` once more, on the memory at `buf`: a `Cursor` is the
local `p`, as an offset from `buf`, with the local `len`, and every access to the memory is one of
`Reading`. Where a function returns the number of bytes parsed, the cursor behind them is returned
here. The memory goes on behind the message.

* `header_result`, ..., `deserialize_result`: the functions of `Deserialize` compute the same from
  the list of the bytes;
* `options_below`: the loop of `_coap_message_deserialize_options` keeps to the message iff it does
  not stop at its end;
* **`deserialize_below`**: so does the decoder, whose options must not end with the message.
-/

namespace QcloudIot.Coap

open Lib

/-- `p - buf` and `len`. -/
structure Cursor where
  p : Nat
  len : Nat
  deriving DecidableEq, Repr

namespace Cursor

variable (buf : Memory UInt8) (c : Cursor) (n : Nat)

/-- `p += n; len -= n`. -/
def skip : Cursor := ⟨c.p + n, c.len - n⟩

/-- The bytes left. -/
def bytes : Bytes := buf.load c.p c.len

@[simp] theorem length_bytes : (c.bytes buf).length = c.len := buf.length_load c.p c.len

theorem bytes_eq_nil : c.bytes buf = [] ↔ c.len = 0 := by
  rw [← List.length_eq_zero_iff, length_bytes]

theorem take_bytes {n : Nat} (h : n ≤ c.len) : (c.bytes buf).take n = buf.load c.p n := by
  rw [bytes, ← Nat.add_sub_cancel' h, Memory.load_add]
  exact List.take_left' (buf.length_load c.p n)

theorem drop_bytes {n : Nat} (h : n ≤ c.len) : (c.bytes buf).drop n = (c.skip n).bytes buf := by
  rw [bytes, ← Nat.add_sub_cancel' h, Memory.load_add]
  exact List.drop_left' (buf.length_load c.p n)

theorem bytes_cons (h : 1 ≤ c.len) : c.bytes buf = buf c.p :: (c.skip 1).bytes buf := by
  rw [← drop_bytes buf c h, ← List.take_append_drop 1 (c.bytes buf), take_bytes buf c h]
  rfl

theorem bytes_two (h : 2 ≤ c.len) :
    c.bytes buf = buf c.p :: buf (c.p + 1) :: (c.skip 2).bytes buf := by
  rw [bytes_cons buf c (by omega), bytes_cons buf (c.skip 1) (Nat.le_sub_of_add_le h)]
  rfl

theorem bytes_four (h : 4 ≤ c.len) :
    c.bytes buf = buf c.p :: buf (c.p + 1) :: buf (c.p + 2) :: buf (c.p + 3) ::
      (c.skip 4).bytes buf := by
  rw [bytes_two buf c (by omega), bytes_two buf (c.skip 2) (Nat.le_sub_of_add_le h)]
  rfl

end Cursor

/-! ## The code -/

section

variable (t : Target) (buf : Memory UInt8)

/-- `_coap_message_deserialize_header`. -/
def headerAt (m : CoapMessage) (c : Cursor) :
    Reading (Except ReturnCode (CoapMessage × Nat × Cursor)) :=
  if c.len < 4 then pure (.error .errCoapDataSize)
  else do
    let b₀ ← .cell buf c.p
    let version := ((b₀ >>> 6) &&& 0x03).toUInt32
    if version ≠ coapMsgVer then pure (.error .einval)
    else
      let type := CoapMsgType.ofBits ((b₀ >>> 4) &&& 0x03)
      let tokenLen := (b₀ &&& 0x0f).toNat
      if tokenLen > coapMsgMaxTokenLen then pure (.error .errCoapDataSize)
      else do
        let b₁ ← .cell buf (c.p + 1)
        let codeDetail := (b₁ &&& 0x1f).toUInt32
        let codeClass := ((b₁ >>> 5) &&& 0x07).toUInt32
        if codeClass ≠ 0 ∧ codeClass ≠ 2 ∧ codeClass ≠ 4 ∧ codeClass ≠ 5 then
          pure (.error .errCoapBadmsg)
        else do
          let b₂ ← .cell buf (c.p + 2)
          let b₃ ← .cell buf (c.p + 3)
          pure (.ok
            ({ m with version, type, codeDetail, codeClass, msgId := swap16 (load16 b₂ b₃) },
              tokenLen, c.skip 4))

/-- `_coap_message_deserialize_token`. -/
def tokenAt (m : CoapMessage) (tokenLen : Nat) (c : Cursor) :
    Reading (Except ReturnCode (CoapMessage × Cursor)) :=
  if c.len < tokenLen then pure (.error .errCoapDataSize)
  else do
    let token ← .block buf c.p tokenLen
    pure (.ok ({ m with token := token }, c.skip tokenLen))

/-- The delta or the length of an option, from its four bits. -/
def extendedAt (n : UInt32) (c : Cursor) : Reading (Except ReturnCode (UInt32 × Cursor)) :=
  if n = 13 then
    if c.len < 1 then pure (.error .errCoapDataSize)
    else do
      let b ← .cell buf c.p
      pure (.ok (n + t.ofChar b, c.skip 1))
  else if n = 14 then
    if c.len < 2 then pure (.error .errCoapDataSize)
    else do
      let b₀ ← .cell buf c.p
      let b₁ ← .cell buf (c.p + 1)
      pure (.ok (269 + (swap16 (load16 b₀ b₁)).toUInt32, c.skip 2))
  else pure (.ok (n, c))

/-- The part of `_coap_message_deserialize_option` before the list: the delta, the length and where
the value starts. -/
def optionHeadAt (c : Cursor) : Reading (Except ReturnCode (UInt32 × UInt32 × Cursor)) :=
  if c.len < 1 then pure (.error .errCoapDataSize)
  else do
    let b ← .cell buf c.p
    let opDelta := ((b >>> 4) &&& 0x0f).toUInt32
    let opLen := (b &&& 0x0f).toUInt32
    if opDelta = 15 ∨ opLen = 15 then pure (.error .errCoapDataSize)
    else do
      match ← extendedAt t buf opDelta (c.skip 1) with
      | .error rc => pure (.error rc)
      | .ok (opDelta, c) =>
        match ← extendedAt t buf opLen c with
        | .error rc => pure (.error rc)
        | .ok (opLen, c) =>
          if c.len < opLen.toNat then pure (.error .errCoapDataSize)
          else pure (.ok (opDelta, opLen, c))

/-- `_coap_message_deserialize_option`. The value is copied once both blocks of the option are
there. -/
def optionAt (d : Decoder) (c : Cursor) : Reading (Except ReturnCode Cursor × Decoder) := do
  match ← optionHeadAt t buf c with
  | .error rc => pure (.error rc, d)
  | .ok (opDelta, opLen, c) =>
    let opNum :=
      match d.message.opList.getLast? with
      | none => opDelta
      | some prev => prev.optionNum.toUInt32 + opDelta
    match coapMsgOpListAddLast d opNum (buf.load c.p opLen.toNat) with
    | (.retSuccess, d) => do
      let _ ← Reading.block buf c.p opLen.toNat
      pure (.ok (c.skip opLen.toNat), d)
    | (rc, d) => pure (.error rc, d)

/-- The loop of `_coap_message_deserialize_options`, `none` after `n` rounds. The byte is looked at
before `len` is. -/
def optionsAt : Nat → Decoder → Cursor → Reading (Option (Except ReturnCode Cursor × Decoder))
  | 0, _, _ => pure none
  | n + 1, d, c => do
    let b ← .cell buf c.p
    if b = 0xff ∨ c.len = 0 then pure (some (.ok c, d))
    else
      match ← optionAt t buf d c with
      | (.error rc, d) => pure (some (.error rc, d))
      | (.ok c, d) => optionsAt n d c

/-- `_coap_message_deserialize_payload`. -/
def payloadAt (d : Decoder) (c : Cursor) : Reading (Except ReturnCode Cursor × Decoder) :=
  if c.len = 0 then pure (.ok c, d)
  else do
    let b ← .cell buf c.p
    if b ≠ 0xff then pure (.error .errCoapDataSize, d)
    else
      let c := c.skip 1
      if c.len = 0 then pure (.error .errCoapDataSize, d)
      else
        match d.heap.malloc (d.oks.headD true) with
        | (none, h) => pure (.error .enomem, { d with heap := h, oks := d.oks.tail })
        | (some addr, h) => do
          let payLoad ← .block buf c.p c.len
          pure (.ok (c.skip c.len),
            { message := { d.message with payLoadAt := some addr, payLoad := payLoad }
              heap := h
              oks := d.oks.tail })

/-- `deserialize_coap_message` on the `len` bytes at `buf`, with `n` rounds for the options. -/
def deserializeAt (n : Nat) (d : Decoder) (len : Nat) : Reading (Option (ReturnCode × Decoder)) := do
  match ← headerAt buf d.message ⟨0, len⟩ with
  | .error _ => pure (some (.errCoapInternal, d.destroy))
  | .ok (m, tokenLen, c) =>
    match ← tokenAt buf m tokenLen c with
    | .error _ => pure (some (.errCoapInternal, d.destroy))
    | .ok (m, c) =>
      match ← optionsAt t buf n { d with message := m } c with
      | none => pure none
      | some (.error _, d) => pure (some (.errCoapInternal, d.destroy))
      | some (.ok c, d) =>
        match ← payloadAt buf d c with
        | (.error _, d) => pure (some (.errCoapInternal, d.destroy))
        | (.ok _, d) => pure (some (coapMsgCheck d.message, d))

end

/-! ## The same results -/

section

variable {t : Target} {buf : Memory UInt8} (m : CoapMessage) (d : Decoder) (c : Cursor)

theorem header_short {p : Bytes} (h : p.length < 4) :
    coapMessageDeserializeHeader m p = .error .errCoapDataSize := by
  unfold coapMessageDeserializeHeader
  split
  · simp only [List.length_cons] at h
    omega
  · rfl

theorem header_result :
    (headerAt buf m c).result.map (fun (m, tokenLen, c) => (m, tokenLen, c.bytes buf)) =
      coapMessageDeserializeHeader m (c.bytes buf) := by
  unfold headerAt
  by_cases hlen : c.len < 4
  · rw [if_pos hlen, header_short m (by rwa [c.length_bytes])]
    rfl
  · rw [if_neg hlen, c.bytes_four buf (Nat.not_lt.mp hlen)]
    simp only [coapMessageDeserializeHeader, Reading.result_cell_bind, Reading.result_ite,
      Reading.result_pure]
    split_ifs
    · rfl
    · rfl
    · rfl
    · rfl

theorem token_result (tokenLen : Nat) :
    (tokenAt buf m tokenLen c).result.map (fun (m, c) => (m, c.bytes buf)) =
      coapMessageDeserializeToken m tokenLen (c.bytes buf) := by
  unfold tokenAt coapMessageDeserializeToken
  rw [c.length_bytes]
  by_cases hlen : c.len < tokenLen
  · rw [if_pos hlen, if_pos hlen]
    rfl
  · rw [if_neg hlen, if_neg hlen, c.take_bytes buf (Nat.not_lt.mp hlen),
      c.drop_bytes buf (Nat.not_lt.mp hlen)]
    rfl

theorem extended_result (n : UInt32) :
    (extendedAt t buf n c).result.map (fun (n, c) => (n, c.bytes buf)) =
      readExtended t n (c.bytes buf) := by
  unfold extendedAt readExtended
  split
  · by_cases hlen : c.len < 1
    · rw [if_pos hlen, (c.bytes_eq_nil buf).mpr (by omega)]
      rfl
    · rw [if_neg hlen, c.bytes_cons buf (Nat.not_lt.mp hlen)]
      rfl
  · split
    · by_cases hlen : c.len < 2
      · rw [if_pos hlen]
        have hshort : (c.bytes buf).length < 2 := by rwa [c.length_bytes]
        split
        · simp only [List.length_cons, ‹c.bytes buf = _›] at hshort
          omega
        · rfl
      · rw [if_neg hlen, c.bytes_two buf (Nat.not_lt.mp hlen)]
        rfl
    · rfl

theorem optionHead_result :
    (optionHeadAt t buf c).result.map (fun (opDelta, opLen, c) =>
        (opDelta, buf.load c.p opLen.toNat, (c.skip opLen.toNat).bytes buf)) =
      readOption t (c.bytes buf) := by
  unfold optionHeadAt
  by_cases hlen : c.len < 1
  · rw [if_pos hlen, (c.bytes_eq_nil buf).mpr (by omega)]
    rfl
  · rw [if_neg hlen, c.bytes_cons buf (Nat.not_lt.mp hlen)]
    simp only [readOption, Reading.result_cell_bind, Reading.result_ite, Reading.result_pure]
    split_ifs
    · rfl
    · rw [Reading.result_bind, ← extended_result]
      cases (extendedAt t buf ((buf c.p >>> 4) &&& 0x0f).toUInt32 (c.skip 1)).result with
      | error rc => rfl
      | ok r =>
        obtain ⟨opDelta, c₁⟩ := r
        dsimp only [Except.map]
        rw [Reading.result_bind, ← extended_result]
        cases (extendedAt t buf (buf c.p &&& 0x0f).toUInt32 c₁).result with
        | error rc => rfl
        | ok r =>
          obtain ⟨opLen, c₂⟩ := r
          dsimp only [Except.map]
          rw [c₂.length_bytes, Reading.result_ite]
          by_cases hfits : c₂.len < opLen.toNat
          · rw [if_pos hfits, if_pos hfits]
            rfl
          · rw [if_neg hfits, if_neg hfits, c₂.take_bytes buf (Nat.not_lt.mp hfits),
              c₂.drop_bytes buf (Nat.not_lt.mp hfits)]
            rfl

theorem option_result :
    ((optionAt t buf d c).result.1.map (·.bytes buf), (optionAt t buf d c).result.2) =
      coapMessageDeserializeOption t d (c.bytes buf) := by
  unfold optionAt coapMessageDeserializeOption
  rw [← optionHead_result, Reading.result_bind]
  cases (optionHeadAt t buf c).result with
  | error rc => rfl
  | ok r =>
    obtain ⟨opDelta, opLen, c₁⟩ := r
    dsimp only [Except.map]
    generalize coapMsgOpListAddLast d _ (buf.load c₁.p opLen.toNat) = added
    obtain ⟨rc, d₁⟩ := added
    cases rc <;> rfl

theorem payload_result :
    ((payloadAt buf d c).result.1.map (·.bytes buf), (payloadAt buf d c).result.2) =
      coapMessageDeserializePayload d (c.bytes buf) := by
  unfold payloadAt
  by_cases hlen : c.len = 0
  · rw [if_pos hlen, (c.bytes_eq_nil buf).mpr hlen]
    simp only [Reading.result_pure, Except.map, (c.bytes_eq_nil buf).mpr hlen]
    rfl
  · rw [if_neg hlen, c.bytes_cons buf (Nat.one_le_iff_ne_zero.mpr hlen)]
    simp only [coapMessageDeserializePayload, Reading.result_cell_bind, Reading.result_ite,
      Reading.result_pure, Cursor.bytes_eq_nil]
    split_ifs
    · rfl
    · rfl
    · have hend : ((c.skip 1).skip (c.skip 1).len).bytes buf = [] := by
        rw [Cursor.bytes_eq_nil]
        exact Nat.sub_self _
      cases d.heap.malloc (d.oks.headD true) with
      | mk addr h =>
        cases addr with
        | none => rfl
        | some addr =>
          dsimp only
          rw [Reading.result_block_bind]
          dsimp only [Reading.result_pure, Except.map]
          rw [hend]
          rfl

end

/-! ## Within the message -/

/-- The cursor behind some of the bytes left. -/
structure Cursor.Behind (c c' : Cursor) : Prop where
  end_eq : c'.p + c'.len = c.p + c.len
  le : c'.len ≤ c.len

namespace Cursor.Behind

variable {c c' c'' : Cursor} {n : Nat}

theorem refl (c : Cursor) : c.Behind c := ⟨rfl, le_refl _⟩

theorem trans (h : c.Behind c') (h' : c'.Behind c'') : c.Behind c'' :=
  ⟨h'.end_eq.trans h.end_eq, le_trans h'.le h.le⟩

theorem skip (h : n ≤ c.len) : c.Behind (c.skip n) :=
  ⟨by simp only [Cursor.skip]; omega, Nat.sub_le _ _⟩

end Cursor.Behind

section

variable {t : Target} {buf : Memory UInt8} {m m' : CoapMessage} {d d' : Decoder} {c c' : Cursor}

theorem header_below : (headerAt buf m c).Below (c.p + c.len) := by
  unfold headerAt
  by_cases hlen : c.len < 4
  · rw [if_pos hlen]
    exact Reading.below_pure _ _
  · rw [if_neg hlen]
    refine Reading.below_bind.mpr ⟨Reading.below_cell.mpr (by omega), ?_⟩
    dsimp only
    split
    · exact Reading.below_pure _ _
    · split
      · exact Reading.below_pure _ _
      · refine Reading.below_bind.mpr ⟨Reading.below_cell.mpr (by omega), ?_⟩
        split
        · exact Reading.below_pure _ _
        · refine Reading.below_bind.mpr ⟨Reading.below_cell.mpr (by omega), ?_⟩
          refine Reading.below_bind.mpr ⟨Reading.below_cell.mpr (by omega), ?_⟩
          exact Reading.below_pure _ _

theorem header_behind {tokenLen : Nat}
    (h : (headerAt buf m c).result = .ok (m', tokenLen, c')) : c.Behind c' := by
  unfold headerAt at h
  by_cases hlen : c.len < 4
  · rw [if_pos hlen] at h
    exact nomatch h
  · rw [if_neg hlen] at h
    simp only [Reading.result_cell_bind, Reading.result_ite, Reading.result_pure] at h
    split_ifs at h
    · cases h
      exact .skip (Nat.not_lt.mp hlen)

theorem token_below {tokenLen : Nat} : (tokenAt buf m tokenLen c).Below (c.p + c.len) := by
  unfold tokenAt
  split
  · exact Reading.below_pure _ _
  · exact Reading.below_bind.mpr ⟨Reading.below_block (by omega), Reading.below_pure _ _⟩

theorem token_behind {tokenLen : Nat} (h : (tokenAt buf m tokenLen c).result = .ok (m', c')) :
    c.Behind c' := by
  unfold tokenAt at h
  split at h
  · exact nomatch h
  · cases h
    exact .skip (Nat.not_lt.mp ‹_›)

theorem extended_below {n : UInt32} : (extendedAt t buf n c).Below (c.p + c.len) := by
  unfold extendedAt
  split
  · split
    · exact Reading.below_pure _ _
    · exact Reading.below_bind.mpr ⟨Reading.below_cell.mpr (by omega), Reading.below_pure _ _⟩
  · split
    · split
      · exact Reading.below_pure _ _
      · refine Reading.below_bind.mpr ⟨Reading.below_cell.mpr (by omega), ?_⟩
        exact Reading.below_bind.mpr ⟨Reading.below_cell.mpr (by omega), Reading.below_pure _ _⟩
    · exact Reading.below_pure _ _

theorem extended_behind {n n' : UInt32} (h : (extendedAt t buf n c).result = .ok (n', c')) :
    c.Behind c' := by
  unfold extendedAt at h
  split at h
  · split at h
    · exact nomatch h
    · cases h
      exact .skip (Nat.not_lt.mp ‹_›)
  · split at h
    · split at h
      · exact nomatch h
      · cases h
        exact .skip (Nat.not_lt.mp ‹_›)
    · cases h
      exact .refl c

/-- The head of an option is at least a byte, and its value is within the bytes left. -/
theorem optionHead_behind {opDelta opLen : UInt32}
    (h : (optionHeadAt t buf c).result = .ok (opDelta, opLen, c')) :
    c.Behind c' ∧ c'.len < c.len ∧ opLen.toNat ≤ c'.len := by
  unfold optionHeadAt at h
  by_cases hlen : c.len < 1
  · rw [if_pos hlen] at h
    exact nomatch h
  · rw [if_neg hlen] at h
    simp only [Reading.result_cell_bind, Reading.result_ite, Reading.result_pure] at h
    split_ifs at h
    rw [Reading.result_bind] at h
    cases hdelta : (extendedAt t buf ((buf c.p >>> 4) &&& 0x0f).toUInt32 (c.skip 1)).result with
    | error rc =>
      rw [hdelta] at h
      exact nomatch h
    | ok r =>
      obtain ⟨delta, c₁⟩ := r
      rw [hdelta] at h
      dsimp only at h
      rw [Reading.result_bind] at h
      cases hopLen : (extendedAt t buf (buf c.p &&& 0x0f).toUInt32 c₁).result with
      | error rc =>
        rw [hopLen] at h
        exact nomatch h
      | ok r =>
        obtain ⟨len, c₂⟩ := r
        rw [hopLen] at h
        dsimp only at h
        rw [Reading.result_ite] at h
        split at h
        · exact nomatch h
        · cases h
          have hskip : c.Behind (c.skip 1) := .skip (Nat.not_lt.mp hlen)
          have hbehind := (extended_behind hdelta).trans (extended_behind hopLen)
          have hlt : (c.skip 1).len < c.len := Nat.sub_lt (Nat.not_lt.mp hlen) Nat.one_pos
          exact ⟨hskip.trans hbehind, lt_of_le_of_lt hbehind.le hlt, Nat.not_lt.mp ‹_›⟩

theorem optionHead_below : (optionHeadAt t buf c).Below (c.p + c.len) := by
  unfold optionHeadAt
  by_cases hlen : c.len < 1
  · rw [if_pos hlen]
    exact Reading.below_pure _ _
  · rw [if_neg hlen]
    refine Reading.below_bind.mpr ⟨Reading.below_cell.mpr (by omega), ?_⟩
    have hskip : c.Behind (c.skip 1) := .skip (Nat.not_lt.mp hlen)
    dsimp only
    split
    · exact Reading.below_pure _ _
    · refine Reading.below_bind.mpr ⟨hskip.end_eq ▸ extended_below, ?_⟩
      split
      · exact Reading.below_pure _ _
      · rename_i delta c₁ hdelta
        have hbehind := hskip.trans (extended_behind hdelta)
        refine Reading.below_bind.mpr ⟨hbehind.end_eq ▸ extended_below, ?_⟩
        split
        · exact Reading.below_pure _ _
        · split
          · exact Reading.below_pure _ _
          · exact Reading.below_pure _ _

theorem option_behind (h : (optionAt t buf d c).result = (.ok c', d')) :
    c.Behind c' ∧ c'.len < c.len := by
  unfold optionAt at h
  rw [Reading.result_bind] at h
  split at h
  · exact nomatch h
  · rename_i opDelta opLen c₁ hhead
    obtain ⟨hbehind, hlt, hfits⟩ := optionHead_behind hhead
    dsimp only at h
    split at h
    · cases h
      exact ⟨hbehind.trans (.skip hfits), lt_of_le_of_lt (Nat.sub_le _ _) hlt⟩
    · exact nomatch h

theorem option_below : (optionAt t buf d c).Below (c.p + c.len) := by
  unfold optionAt
  refine Reading.below_bind.mpr ⟨optionHead_below, ?_⟩
  split
  · exact Reading.below_pure _ _
  · rename_i opDelta opLen c₁ hhead
    obtain ⟨hbehind, -, hfits⟩ := optionHead_behind hhead
    have hend := hbehind.end_eq
    dsimp only
    split
    · exact Reading.below_bind.mpr ⟨Reading.below_block (by omega), Reading.below_pure _ _⟩
    · exact Reading.below_pure _ _

theorem payload_below : (payloadAt buf d c).Below (c.p + c.len) := by
  unfold payloadAt
  split
  · exact Reading.below_pure _ _
  · refine Reading.below_bind.mpr ⟨Reading.below_cell.mpr (by omega), ?_⟩
    split
    · exact Reading.below_pure _ _
    · have hend : (c.skip 1).p + (c.skip 1).len = c.p + c.len :=
        (Cursor.Behind.skip (Nat.one_le_iff_ne_zero.mpr ‹_›)).end_eq
      dsimp only
      split
      · exact Reading.below_pure _ _
      · split
        · exact Reading.below_pure _ _
        · exact Reading.below_bind.mpr
            ⟨Reading.below_block (le_of_eq hend), Reading.below_pure _ _⟩

end

/-! ## The options -/

section

variable {t : Target} {buf : Memory UInt8}

theorem endsOptions_bytes (c : Cursor) :
    EndsOptions (c.bytes buf) ↔ buf c.p = 0xff ∨ c.len = 0 := by
  unfold EndsOptions
  rw [Cursor.bytes_eq_nil]
  by_cases hlen : c.len = 0
  · exact ⟨fun _ => .inr hlen, fun _ => .inl hlen⟩
  · rw [c.bytes_cons buf (Nat.one_le_iff_ne_zero.mpr hlen), List.head?_cons, Option.some_inj]
    exact or_comm

/-- **The loop ends**, with what it makes of the list of the bytes: every option takes a byte. -/
theorem options_result {n k : Nat} (d : Decoder) (c : Cursor) (hn : c.len < n) (hk : c.len ≤ k) :
    ∃ r d', (optionsAt t buf n d c).result = some (r, d') ∧
      coapMessageDeserializeOptions t k d (c.bytes buf) = (r.map (·.bytes buf), d') ∧
      ∀ c', r = .ok c' → c.Behind c' := by
  induction n generalizing k d c with
  | zero => exact absurd hn (Nat.not_lt_zero _)
  | succ n ih =>
    rw [optionsAt, Reading.result_cell_bind, Reading.result_ite]
    by_cases hend : buf c.p = 0xff ∨ c.len = 0
    · rw [if_pos hend]
      refine ⟨.ok c, d, rfl, ?_, fun c' h => by cases h; exact .refl c⟩
      cases k with
      | zero => rfl
      | succ k => rw [coapMessageDeserializeOptions, if_pos ((endsOptions_bytes c).mpr hend)]; rfl
    · have hpos : c.len ≠ 0 := fun h => hend (.inr h)
      obtain ⟨k, rfl⟩ : ∃ j, k = j + 1 := ⟨k - 1, by omega⟩
      rw [if_neg hend, coapMessageDeserializeOptions,
        if_neg (mt (endsOptions_bytes c).mp hend), ← option_result, Reading.result_bind]
      rcases hopt : (optionAt t buf d c).result with ⟨rc | c₁, d₁⟩
      · exact ⟨.error rc, d₁, rfl, rfl, fun c' h => by cases h⟩
      · obtain ⟨hbehind, hlt⟩ := option_behind hopt
        obtain ⟨r, d', hres, hlist, hafter⟩ :=
          ih d₁ c₁ (show c₁.len < n by omega) (show c₁.len ≤ k by omega)
        exact ⟨r, d', hres, hlist, fun c' h => hbehind.trans (hafter c' h)⟩

/-- **The loop keeps to the message iff it does not stop at its end**: there it looks at the byte
behind before it looks at the length. -/
theorem options_below {n : Nat} (d : Decoder) (c : Cursor) :
    (optionsAt t buf n d c).Below (c.p + c.len) ↔
      ∀ c' d', (optionsAt t buf n d c).result = some (.ok c', d') → c'.len ≠ 0 := by
  induction n generalizing d c with
  | zero => exact ⟨fun _ _ _ h => (nomatch h), fun _ => Reading.below_pure _ _⟩
  | succ n ih =>
    rw [optionsAt, Reading.below_bind, Reading.below_cell, Reading.result_cell_bind,
      Reading.result_ite]
    change _ ∧ Reading.Below (if buf c.p = 0xff ∨ c.len = 0 then _ else _) _ ↔ _
    by_cases hend : buf c.p = 0xff ∨ c.len = 0
    · rw [if_pos hend, if_pos hend]
      constructor
      · rintro ⟨hlt, -⟩ c' d' h
        cases h
        omega
      · intro h
        have := h c d rfl
        exact ⟨by omega, Reading.below_pure _ _⟩
    · rw [if_neg hend, if_neg hend, Reading.result_bind, Reading.below_bind]
      have hpos : c.len ≠ 0 := fun h => hend (.inr h)
      rcases hopt : (optionAt t buf d c).result with ⟨rc | c₁, d₁⟩
      · exact ⟨fun _ _ _ h => (nomatch h),
          fun _ => ⟨by omega, option_below, Reading.below_pure _ _⟩⟩
      · obtain ⟨hbehind, -⟩ := option_behind hopt
        dsimp only
        rw [← ih d₁ c₁, hbehind.end_eq]
        exact ⟨fun h => h.2.2, fun h => ⟨by omega, option_below, h⟩⟩

end

/-! ## The message -/

/-- Header and token are taken, and the options end where the message does. -/
def StopsAtEnd (t : Target) (d : Decoder) (bytes : Bytes) : Prop :=
  ∃ m tokenLen p m' p' d', coapMessageDeserializeHeader d.message bytes = .ok (m, tokenLen, p) ∧
    coapMessageDeserializeToken m tokenLen p = .ok (m', p') ∧
    coapMessageDeserializeOptions t p'.length { d with message := m' } p' = (.ok [], d')

section

variable {t : Target} {buf : Memory UInt8} {n len : Nat}

theorem bytes_start (len : Nat) : (Cursor.mk 0 len).bytes buf = buf.load 0 len := rfl

/-- **The decoder ends**, with what it makes of the list of the bytes. -/
theorem deserialize_result (d : Decoder) (hn : len < n) :
    (deserializeAt t buf n d len).result =
      some (deserializeCoapMessage t d (buf.load 0 len)) := by
  unfold deserializeAt deserializeCoapMessage
  rw [← bytes_start, ← header_result, Reading.result_bind]
  rcases hheader : (headerAt buf d.message ⟨0, len⟩).result with rc | ⟨m, tokenLen, c⟩
  · rfl
  · have hbehind := header_behind hheader
    dsimp only [Except.map]
    rw [← token_result, Reading.result_bind]
    rcases htoken : (tokenAt buf m tokenLen c).result with rc | ⟨m', c'⟩
    · rfl
    · have hle : c'.len ≤ len := (hbehind.trans (token_behind htoken)).le
      obtain ⟨r, d₁, hopts, hlist, -⟩ := @options_result t buf n _ { d with message := m' } c'
        (by omega) (le_refl _)
      dsimp only [Except.map]
      unfold coapMessageDeserializeBody
      rw [Reading.result_bind, hopts, c'.length_bytes, hlist]
      cases r with
      | error rc => rfl
      | ok c₁ =>
        dsimp only [Except.map]
        rw [← payload_result, Reading.result_bind]
        rcases (payloadAt buf d₁ c₁).result with ⟨rc | c₂, d₂⟩
        · rfl
        · rfl

/-- **The decoder keeps to the message iff its options do not end with it.** -/
theorem deserialize_below (d : Decoder) (hn : len < n) :
    (deserializeAt t buf n d len).Below len ↔ ¬ StopsAtEnd t d (buf.load 0 len) := by
  unfold deserializeAt StopsAtEnd
  rw [← bytes_start, ← header_result, Reading.below_bind]
  have hhead : (headerAt buf d.message ⟨0, len⟩).Below len := by
    have h : (headerAt buf d.message ⟨0, len⟩).Below (0 + len) := header_below
    rwa [Nat.zero_add] at h
  rcases hheader : (headerAt buf d.message ⟨0, len⟩).result with rc | ⟨m, tokenLen, c⟩
  · refine ⟨fun _ => ?_, fun _ => ⟨hhead, Reading.below_pure _ _⟩⟩
    rintro ⟨_, _, _, _, _, _, h, -⟩
    exact nomatch h
  · have hbehind := header_behind hheader
    have hend : c.p + c.len = len := by rw [hbehind.end_eq, Nat.zero_add]
    dsimp only [Except.map]
    rw [Reading.below_bind]
    have htok : (tokenAt buf m tokenLen c).Below len := hend ▸ token_below
    have htoklist := @token_result buf m c tokenLen
    rcases htoken : (tokenAt buf m tokenLen c).result with rc | ⟨m', c'⟩
    · rw [htoken] at htoklist
      refine ⟨fun _ => ?_, fun _ => ⟨hhead, htok, Reading.below_pure _ _⟩⟩
      rintro ⟨_, _, _, _, _, _, h, htl, -⟩
      cases h
      rw [← htoklist] at htl
      exact nomatch htl
    · rw [htoken] at htoklist
      have hbehind' := hbehind.trans (token_behind htoken)
      have hend' : c'.p + c'.len = len := by rw [hbehind'.end_eq, Nat.zero_add]
      have hle : c'.len ≤ len := hbehind'.le
      obtain ⟨r, d₁, hopts, hlist, hafter⟩ := @options_result t buf n c'.len
        { d with message := m' } c' (by omega) (le_refl _)
      have hloop := @options_below t buf n { d with message := m' } c'
      rw [hend', hopts] at hloop
      dsimp only
      rw [Reading.below_bind, hloop, hopts]
      constructor
      · rintro ⟨-, -, hstop, -⟩ ⟨_, _, _, m₂, p₂, d₂, h, htl, hops⟩
        cases h
        rw [← htoklist] at htl
        cases htl
        rw [c'.length_bytes, hlist] at hops
        cases r with
        | error rc => exact nomatch hops
        | ok c₁ =>
          obtain ⟨hnil, -⟩ := Prod.mk.inj hops
          exact hstop c₁ d₁ rfl ((c₁.bytes_eq_nil buf).mp (Except.ok.inj hnil))
      · intro hstop
        refine ⟨hhead, htok, fun c₁ d₂ h hzero => hstop ?_, ?_⟩
        · cases h
          refine ⟨m, tokenLen, c.bytes buf, m', c'.bytes buf, d₁, rfl, htoklist.symm, ?_⟩
          rw [c'.length_bytes, hlist]
          dsimp only [Except.map]
          rw [(c₁.bytes_eq_nil buf).mpr hzero]
        · cases r with
          | error rc => exact Reading.below_pure _ _
          | ok c₁ =>
            have hpay : (payloadAt buf d₁ c₁).Below len := by
              have h : (payloadAt buf d₁ c₁).Below (c₁.p + c₁.len) := payload_below
              rwa [(hafter c₁ rfl).end_eq, hend'] at h
            dsimp only
            refine Reading.below_bind.mpr ⟨hpay, ?_⟩
            split
            · exact Reading.below_pure _ _
            · exact Reading.below_pure _ _

end

end QcloudIot.Coap
