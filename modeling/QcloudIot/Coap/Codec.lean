import QcloudIot.Coap.Deserialize
import QcloudIot.Coap.Serialize

/-!
# Messages there and back

The decoder adds the one-byte form of a delta or a length as a plain `char`: where that is signed,
a value from 141 to 268 comes back 256 less.

* `readExtended_extension`: what comes back of a delta or a length;
* `readOption_head`, `readOption_bytes`: what comes back of an option;
* `options_back`, `options_not_back`: what comes back of the options;
* **`decode_encode_iff`**: a message comes back iff its version and its code fit their fields and,
  where `char` is signed, no delta and no length is in that range;
* `decode_encode_fails`: a path of 141 characters that does not.
-/

namespace QcloudIot.Coap

open Mqtt (WordSize)
open Lib

/-! ## A delta or a length -/

/-- The number has a one-byte form with the top bit set. -/
def HighByte (n : Nat) : Prop := 141 ≤ n ∧ n ≤ 268

instance (n : Nat) : Decidable (HighByte n) := inferInstanceAs (Decidable (_ ∧ _))

/-- What the decoder makes of the number. -/
def readBack (t : Target) (n : Nat) : UInt32 :=
  if 13 ≤ n ∧ n < 269 then 13 + t.ofChar (UInt8.ofNat (n - 13)) else UInt32.ofNat n

theorem readBack_eq {t : Target} {n : Nat} (h : ¬ (t.char = .signed ∧ HighByte n)) :
    readBack t n = UInt32.ofNat n := by
  unfold readBack
  split
  · rename_i hn
    obtain ⟨h13, h269⟩ := hn
    have hbyte : (UInt8.ofNat (n - 13)).toNat = n - 13 := by
      rw [UInt8.toNat_ofNat']
      exact Nat.mod_eq_of_lt (by omega)
    have hlow : ¬ (t.char = .signed ∧ UInt8.ofNat (n - 13) ≥ 128) := by
      rintro ⟨hs, hge⟩
      have : 128 ≤ (UInt8.ofNat (n - 13)).toNat := UInt8.le_iff_toNat_le.mp hge
      exact h ⟨hs, by omega, by omega⟩
    rw [Target.ofChar, if_neg hlow]
    apply UInt32.toNat_inj.mp
    rw [UInt32.toNat_add, UInt8.toNat_toUInt32, hbyte, UInt32.toNat_ofNat']
    simp only [UInt32.reduceToNat]
    omega
  · rfl

/-- A number that is lost comes back as another one, also in sixteen bits. -/
theorem readBack_ne {t : Target} {n : Nat} (hsigned : t.char = .signed) (h : HighByte n) :
    (readBack t n).toNat % 2 ^ 16 ≠ n := by
  obtain ⟨hge, hle⟩ := h
  have hbyte : (UInt8.ofNat (n - 13)).toNat = n - 13 := by
    rw [UInt8.toNat_ofNat']
    exact Nat.mod_eq_of_lt (by omega)
  have hhigh : UInt8.ofNat (n - 13) ≥ 128 := by
    rw [ge_iff_le, UInt8.le_iff_toNat_le, hbyte]
    simp only [UInt8.reduceToNat]
    omega
  rw [readBack, if_pos ⟨by omega, by omega⟩, Target.ofChar, if_pos ⟨hsigned, hhigh⟩,
    UInt32.toNat_add, UInt32.toNat_sub, UInt8.toNat_toUInt32, hbyte]
  simp only [UInt32.reduceToNat]
  omega

theorem readExtended_short (t : Target) {n : UInt32} (h13 : n ≠ 13) (h14 : n ≠ 14) (p : Bytes) :
    readExtended t n p = .ok (n, p) := by
  unfold readExtended
  rw [if_neg h13, if_neg h14]

theorem readExtended_extension (t : Target) {n : Nat} (hn : n ≤ 65804) (p : Bytes) :
    readExtended t (nibble n).toUInt32 (extension n ++ p) = .ok (readBack t n, p) := by
  unfold nibble extension
  by_cases h269 : n ≥ 269
  · have hpair : (swap16 (load16 (UInt8.ofNat ((n - 269) / 256)) (UInt8.ofNat (n - 269)))).toNat =
        n - 269 := by
      rw [toNat_swap_load, UInt8.toNat_ofNat', UInt8.toNat_ofNat']
      omega
    rw [if_pos h269, if_pos h269, readBack, if_neg (by omega)]
    change Except.ok (269 + (swap16 (load16 _ _)).toUInt32, p) = _
    congr 2
    apply UInt32.toNat_inj.mp
    rw [UInt32.toNat_add, UInt16.toNat_toUInt32, hpair, UInt32.toNat_ofNat']
    simp only [UInt32.reduceToNat]
    omega
  · by_cases h13 : n ≥ 13
    · rw [if_neg h269, if_pos h13, if_neg h269, if_pos h13, readBack, if_pos ⟨h13, by omega⟩]
      rfl
    · have hnat : (UInt8.ofNat n).toUInt32 = UInt32.ofNat n := by
        apply UInt32.toNat_inj.mp
        rw [UInt8.toNat_toUInt32, UInt8.toNat_ofNat', UInt32.toNat_ofNat']
        omega
      have hval : (UInt32.ofNat n).toNat = n :=
        UInt32.toNat_ofNat_of_lt' (by change n < 2 ^ 32; omega)
      have hne : ∀ k : UInt32, 13 ≤ k.toNat → UInt32.ofNat n ≠ k := by
        intro k hk he
        rw [← he, hval] at hk
        exact h13 hk
      rw [if_neg h269, if_neg h13, if_neg h269, if_neg h13, readBack, if_neg (by omega), hnat,
        readExtended_short t (hne 13 (by decide)) (hne 14 (by decide))]
      rfl

/-! ## An option -/

theorem nibble_lt (n : Nat) : (nibble n).toNat < 15 := by
  unfold nibble
  split
  · decide
  · split
    · decide
    · rw [UInt8.toNat_ofNat']
      omega

theorem nibbles_fin : ∀ a b : Fin 15,
    ((UInt8.ofNat a <<< 4 ||| UInt8.ofNat b) >>> 4) &&& 0x0f = UInt8.ofNat a ∧
      (UInt8.ofNat a <<< 4 ||| UInt8.ofNat b) &&& 0x0f = UInt8.ofNat b := by
  decide

/-- The two halves of an option's first byte. -/
theorem nibbles (k n : Nat) :
    ((nibble k <<< 4 ||| nibble n) >>> 4) &&& 0x0f = nibble k ∧
      (nibble k <<< 4 ||| nibble n) &&& 0x0f = nibble n := by
  have h := nibbles_fin ⟨(nibble k).toNat, nibble_lt k⟩ ⟨(nibble n).toNat, nibble_lt n⟩
  rwa [UInt8.ofNat_toNat, UInt8.ofNat_toNat] at h

theorem nibble_ne (n : Nat) : (nibble n).toUInt32 ≠ 15 := by
  intro h
  have hlt := nibble_lt n
  have hnat : (nibble n).toNat = 15 := (UInt8.toNat_toUInt32 _).symm.trans (congrArg UInt32.toNat h)
  omega

/-- No option starts like the payload. -/
theorem head_ne_marker (k n : Nat) : nibble k <<< 4 ||| nibble n ≠ 0xff := by
  intro h
  have hn := (nibbles k n).2
  rw [h] at hn
  exact absurd (nibble_lt n) (by rw [← hn]; decide)

/-- **What comes back of an option**: its delta and its length are read back, and the length decides
how much of what follows is the value. -/
theorem readOption_head (t : Target) {k n : Nat} (hk : k ≤ 65804) (hn : n ≤ 65804) (p : Bytes) :
    readOption t ((nibble k <<< 4 ||| nibble n) :: (extension k ++ (extension n ++ p))) =
      if p.length < (readBack t n).toNat then .error .errCoapDataSize
      else .ok (readBack t k, p.take (readBack t n).toNat, p.drop (readBack t n).toNat) := by
  obtain ⟨hhigh, hlow⟩ := nibbles k n
  rw [readOption, hhigh, hlow, if_neg (not_or.mpr ⟨nibble_ne _, nibble_ne _⟩),
    readExtended_extension t hk]
  dsimp only
  rw [readExtended_extension t hn]

theorem readOption_bytes (t : Target) {op : CoapMsgOption} (hval : op.val.length ≤ 65804)
    (prev : UInt16) (p : Bytes) :
    readOption t (op.bytes prev ++ p) =
      if (op.val ++ p).length < (readBack t op.val.length).toNat then .error .errCoapDataSize
      else
        .ok (readBack t (op.delta prev).toNat,
          (op.val ++ p).take (readBack t op.val.length).toNat,
          (op.val ++ p).drop (readBack t op.val.length).toNat) := by
  have hdelta : (op.delta prev).toNat ≤ 65804 := by
    have := (op.delta prev).toNat_lt
    omega
  have happ : op.bytes prev ++ p = (nibble (op.delta prev).toNat <<< 4 ||| nibble op.val.length) ::
      (extension (op.delta prev).toNat ++ (extension op.val.length ++ (op.val ++ p))) := by
    simp only [CoapMsgOption.bytes, List.cons_append, List.append_assoc]
  rw [happ, readOption_head t hdelta hval]

section

variable {t : Target} {d d' : Decoder} {p rest : Bytes} {op : CoapMsgOption} {prev : UInt16}

theorem headD_of_all {oks : List Bool} (h : false ∉ oks) : oks.headD true = true := by
  cases oks with
  | nil => rfl
  | cons b oks =>
    cases b
    · exact absurd List.mem_cons_self h
    · rfl

/-- Two blocks are there: the option is added. -/
theorem addLast_of_all (hoks : false ∉ d.oks) (num : UInt32) (val : Bytes) :
    ∃ o : CoapMsgOption, o.content = (num.toUInt16, val) ∧
      coapMsgOpListAddLast d num val =
        (.retSuccess,
          { message := { d.message with opList := d.message.opList ++ [o] }
            heap := { d.heap with next := d.heap.next + 2 }
            oks := d.oks.drop 2 }) := by
  have h₁ := headD_of_all hoks
  have h₂ : d.oks.tail.headD true = true := headD_of_all fun h => hoks (List.mem_of_mem_tail h)
  refine ⟨⟨num.toUInt16, val, d.heap.next, d.heap.next + 1⟩, rfl, ?_⟩
  unfold coapMsgOpListAddLast
  rw [h₁, h₂]
  rfl

/-- An option whose length comes back is added with the delta that comes back. -/
theorem option_back (hval : op.val.length ≤ 65804)
    (hlen : ¬ (t.char = .signed ∧ HighByte op.val.length))
    (hoks : false ∉ d.oks) (prev : UInt16) (p : Bytes) :
    ∃ (o : CoapMsgOption) (d' : Decoder),
      coapMessageDeserializeOption t d (op.bytes prev ++ p) = (.ok p, d') ∧
      o.content =
        ((d.message.lastNum.toUInt32 + readBack t (op.delta prev).toNat).toUInt16, op.val) ∧
      d'.message = { d.message with opList := d.message.opList ++ [o] } ∧ false ∉ d'.oks := by
  have hread : readOption t (op.bytes prev ++ p) =
      .ok (readBack t (op.delta prev).toNat, op.val, p) := by
    rw [readOption_bytes t hval, readBack_eq hlen,
      UInt32.toNat_ofNat_of_lt' (by change _ < 2 ^ 32; omega), List.take_left, List.drop_left,
      List.length_append, if_neg (by omega)]
  obtain ⟨o, hcontent, hadd⟩ :=
    addLast_of_all hoks (d.message.lastNum.toUInt32 + readBack t (op.delta prev).toNat) op.val
  have hdrop : false ∉ d.oks.drop 2 := fun h => hoks (List.mem_of_mem_drop h)
  refine ⟨o, ⟨{ d.message with opList := d.message.opList ++ [o] },
    { d.heap with next := d.heap.next + 2 }, d.oks.drop 2⟩, ?_, hcontent, rfl, hdrop⟩
  unfold coapMessageDeserializeOption
  rw [hread]
  dsimp only
  rw [opNum_eq, hadd]

/-- An option with a length or a delta that is lost is refused or recorded as another one. -/
theorem option_not_back (hval : op.val.length ≤ 65804) (hsigned : t.char = .signed)
    (hlast : d.message.lastNum = prev)
    (hlost : HighByte (op.delta prev).toNat ∨ HighByte op.val.length)
    (h : coapMessageDeserializeOption t d (op.bytes prev ++ p) = (.ok rest, d')) :
    ∃ o : CoapMsgOption, o.content ≠ op.content ∧
      d'.message = { d.message with opList := d.message.opList ++ [o] } := by
  obtain ⟨delta, val, o, hread, hcontent, hmsg, -⟩ := option_ok h
  refine ⟨o, fun heq => ?_, hmsg⟩
  rw [readOption_bytes t hval] at hread
  split at hread
  · exact nomatch hread
  · rename_i hfits
    obtain ⟨rfl, rfl, -⟩ : _ ∧ _ ∧ _ := by simpa using hread
    rw [hcontent, hlast] at heq
    obtain ⟨hnum, hval'⟩ := Prod.mk.inj heq
    rcases hlost with hdelta | hlen
    · refine readBack_ne hsigned hdelta ?_
      have hnat : (prev.toNat + (readBack t (op.delta prev).toNat).toNat) % 2 ^ 16 =
          op.optionNum.toNat := by
        rw [← hnum, UInt32.toNat_toUInt16, UInt32.toNat_add, UInt16.toNat_toUInt32]
        omega
      have hdiff : (op.delta prev).toNat = (2 ^ 16 - prev.toNat + op.optionNum.toNat) % 2 ^ 16 := by
        rw [CoapMsgOption.delta, UInt16.toNat_sub]
      have := prev.toNat_lt
      omega
    · refine readBack_ne hsigned hlen ?_
      have htake := congrArg List.length hval'
      rw [List.length_take, Nat.min_eq_left (Nat.not_lt.mp hfits)] at htake
      have := hlen.2
      omega

end

/-! ## The options -/

/-- The delta or the length of some option has the top bit set in its one-byte form. -/
def SomeHighByte : UInt16 → List CoapMsgOption → Prop
  | _, [] => False
  | prev, op :: ops =>
    (HighByte (op.delta prev).toNat ∨ HighByte op.val.length) ∨ SomeHighByte op.optionNum ops

instance decidableSomeHighByte : ∀ (prev : UInt16) (ops : List CoapMsgOption),
    Decidable (SomeHighByte prev ops)
  | _, [] => .isFalse id
  | prev, op :: ops =>
    haveI := decidableSomeHighByte op.optionNum ops
    inferInstanceAs (Decidable ((HighByte (op.delta prev).toNat ∨ _) ∨ _))

theorem not_endsOptions (op : CoapMsgOption) (prev : UInt16) (p : Bytes) :
    ¬ EndsOptions (op.bytes prev ++ p) := by
  rintro (h | h)
  · exact absurd h (by simp [CoapMsgOption.bytes])
  · exact head_ne_marker (op.delta prev).toNat op.val.length
      (Option.some.inj (by simpa [CoapMsgOption.bytes] using h))

theorem delta_back (op : CoapMsgOption) (prev : UInt16) :
    (prev.toUInt32 + UInt32.ofNat (op.delta prev).toNat).toUInt16 = op.optionNum := by
  have hdelta : UInt32.ofNat (op.delta prev).toNat = (op.delta prev).toUInt32 := by
    apply UInt32.toNat_inj.mp
    have := (op.delta prev).toNat_lt
    rw [UInt32.toNat_ofNat_of_lt' (by change _ < 2 ^ 32; omega), UInt16.toNat_toUInt32]
  rw [hdelta, UInt32.toUInt16_add, UInt16.toUInt16_toUInt32, UInt16.toUInt16_toUInt32,
    CoapMsgOption.delta, UInt16.add_comm, UInt16.sub_add_cancel]

section

variable {t : Target}

/-- Options that are not lost come back. -/
theorem options_back {ops : List CoapMsgOption} (hval : ∀ op ∈ ops, op.val.length ≤ 65804)
    {prev : UInt16} (hlost : ¬ (t.char = .signed ∧ SomeHighByte prev ops)) {p : Bytes}
    (hend : EndsOptions p) {n : Nat} {d : Decoder} (hn : (optionsBytes prev ops ++ p).length ≤ n)
    (hlast : d.message.lastNum = prev) (hoks : false ∉ d.oks) :
    ∃ (new : List CoapMsgOption) (d' : Decoder),
      coapMessageDeserializeOptions t n d (optionsBytes prev ops ++ p) = (.ok p, d') ∧
      new.map (·.content) = ops.map (·.content) ∧
      d'.message = { d.message with opList := d.message.opList ++ new } ∧ false ∉ d'.oks := by
  induction ops generalizing prev n d with
  | nil =>
    refine ⟨[], d, ?_, rfl, by rw [List.append_nil], hoks⟩
    cases n with
    | zero => rfl
    | succ n => rw [optionsBytes, List.nil_append, coapMessageDeserializeOptions, if_pos hend]
  | cons op ops ih =>
    have hpos := opLen_pos prev op
    rw [optionsBytes, List.append_assoc, List.length_append, op.length_bytes] at hn
    obtain ⟨n, rfl⟩ : ∃ k, n = k + 1 := ⟨n - 1, by omega⟩
    obtain ⟨o, d₁, hop, hcontent, hmsg, hoks₁⟩ := option_back (t := t)
      (hval op List.mem_cons_self) (fun h => hlost ⟨h.1, .inl (.inr h.2)⟩) hoks prev
      (optionsBytes op.optionNum ops ++ p)
    have hsame : o.content = op.content := by
      rw [hcontent, hlast, readBack_eq fun h => hlost ⟨h.1, .inl (.inl h.2)⟩, delta_back]
      rfl
    have hlast₁ : d₁.message.lastNum = op.optionNum := by
      rw [hmsg, lastNum_append]
      exact congrArg Prod.fst hsame
    have hlen : (optionsBytes op.optionNum ops ++ p).length ≤ n := by omega
    obtain ⟨new, d₂, hops, hnew, hmsg₂, hoks₂⟩ := ih
      (fun o ho => hval o (List.mem_cons_of_mem op ho)) (fun h => hlost ⟨h.1, .inr h.2⟩) hlen
      hlast₁ hoks₁
    refine ⟨o :: new, d₂, ?_, by rw [List.map_cons, List.map_cons, hsame, hnew], ?_, hoks₂⟩
    · rw [optionsBytes, List.append_assoc, coapMessageDeserializeOptions,
        if_neg (not_endsOptions op prev _), hop]
      exact hops
    · rw [hmsg₂, hmsg]
      simp

/-- **Options of which one is lost do not come back**: the first of them is refused, or stands as
another option where it should be. -/
theorem options_not_back {ops : List CoapMsgOption} (hval : ∀ op ∈ ops, op.val.length ≤ 65804)
    {prev : UInt16} (hsigned : t.char = .signed) (hlost : SomeHighByte prev ops) {p rest : Bytes}
    {n : Nat} {d d' : Decoder} (hn : (optionsBytes prev ops ++ p).length ≤ n)
    (hlast : d.message.lastNum = prev) (hoks : false ∉ d.oks)
    (h : coapMessageDeserializeOptions t n d (optionsBytes prev ops ++ p) = (.ok rest, d')) :
    d'.message.opList.map (·.content) ≠
      d.message.opList.map (·.content) ++ ops.map (·.content) := by
  induction ops generalizing prev n d with
  | nil => exact hlost.elim
  | cons op ops ih =>
    have hpos := opLen_pos prev op
    rw [optionsBytes, List.append_assoc, List.length_append, op.length_bytes] at hn
    obtain ⟨n, rfl⟩ : ∃ k, n = k + 1 := ⟨n - 1, by omega⟩
    rw [optionsBytes, List.append_assoc, coapMessageDeserializeOptions,
      if_neg (not_endsOptions op prev _)] at h
    have hop := hval op List.mem_cons_self
    by_cases hhere : HighByte (op.delta prev).toNat ∨ HighByte op.val.length
    · split at h
      · cases h
      · rename_i p₁ d₁ hopt
        obtain ⟨o, hne, hmsg⟩ := option_not_back hop hsigned hlast hhere hopt
        obtain ⟨new, hnew⟩ := options_ok h
        intro heq
        rw [hnew, hmsg] at heq
        simp only [List.map_append, List.map_cons, List.append_assoc, List.append_cancel_left_eq,
          List.singleton_append, List.cons.injEq] at heq
        exact hne heq.1
    · obtain ⟨hdelta, hlen⟩ := not_or.mp hhere
      obtain ⟨o, d₁, hopt, hcontent, hmsg, hoks₁⟩ := option_back (t := t) hop
        (fun h => hlen h.2) hoks prev (optionsBytes op.optionNum ops ++ p)
      have hsame : o.content = op.content := by
        rw [hcontent, hlast, readBack_eq fun h => hdelta h.2, delta_back]
        rfl
      have hlast₁ : d₁.message.lastNum = op.optionNum := by
        rw [hmsg, lastNum_append]
        exact congrArg Prod.fst hsame
      rw [hopt] at h
      have hlen' : (optionsBytes op.optionNum ops ++ p).length ≤ n := by omega
      have hnext := ih (fun o ho => hval o (List.mem_cons_of_mem op ho))
        (hlost.resolve_left hhere) hlen' hlast₁ hoks₁ h
      rw [hmsg] at hnext
      simpa [hsame] using hnext

end

/-! ## The header -/

theorem headerFirst_back (type : CoapMsgType) : ∀ k : Fin 9,
    let b := (coapMsgVer <<< 6 ||| (type.code.toUInt32 &&& 0x03) <<< 4 |||
      (UInt32.ofNat k &&& 0x0f)).toUInt8
    ((b >>> 6) &&& 0x03).toUInt32 = coapMsgVer ∧ CoapMsgType.ofBits ((b >>> 4) &&& 0x03) = type ∧
      (b &&& 0x0f).toNat = k := by
  cases type <;> decide

theorem headerCode_fin : ∀ (codeClass : Fin 8) (codeDetail : Fin 32),
    let b := ((UInt32.ofNat codeClass &&& 0x07) <<< 5 ||| UInt32.ofNat codeDetail).toUInt8
    (b &&& 0x1f).toUInt32 = UInt32.ofNat codeDetail ∧
      ((b >>> 5) &&& 0x07).toUInt32 = UInt32.ofNat codeClass := by
  decide

theorem headerCode_back {codeClass : UInt32} (hclass : codeClass ≤ coapMsgMaxCodeClass)
    (codeDetail : UInt32) :
    let b := ((codeClass &&& 0x07) <<< 5 ||| (codeDetail &&& 0x1f)).toUInt8
    (b &&& 0x1f).toUInt32 = codeDetail &&& 0x1f ∧ ((b >>> 5) &&& 0x07).toUInt32 = codeClass := by
  have hclass' : codeClass.toNat < 8 := Nat.lt_succ_of_le (UInt32.le_iff_toNat_le.mp hclass)
  have hdetail : (codeDetail &&& 0x1f).toNat < 32 := by
    rw [UInt32.toNat_and]
    exact Nat.lt_succ_of_le Nat.and_le_right
  have h := headerCode_fin ⟨codeClass.toNat, hclass'⟩ ⟨(codeDetail &&& 0x1f).toNat, hdetail⟩
  rwa [UInt32.ofNat_toNat, UInt32.ofNat_toNat] at h

theorem headerId_back (id : UInt16) :
    swap16 (load16 ((id &&& 0xFF00) >>> 8).toUInt8 (id &&& 0x00FF).toUInt8) = id := by
  have hid := id.toNat_lt
  have hlow : (id &&& 0x00FF).toNat = id.toNat % 256 := by
    rw [UInt16.toNat_and]
    exact Nat.and_two_pow_sub_one_eq_mod id.toNat 8
  apply UInt16.toNat_inj.mp
  rw [toNat_swap_load, UInt16.toNat_toUInt8, UInt16.toNat_toUInt8, toNat_high, hlow]
  omega

/-- The header comes back but for the version, which is always written as 1, and the three top bits
of the code's detail. -/
theorem header_back {m : CoapMessage} (htoken : m.token.length ≤ coapMsgMaxTokenLen)
    (hclass : m.codeClass = 0 ∨ m.codeClass = 2 ∨ m.codeClass = 4 ∨ m.codeClass = 5)
    (m₀ : CoapMessage) (p : Bytes) :
    coapMessageDeserializeHeader m₀ (m.headerBytes ++ p) =
      .ok ({ m₀ with
          version := coapMsgVer
          type := m.type
          codeDetail := m.codeDetail &&& 0x1f
          codeClass := m.codeClass
          msgId := m.msgId }, m.token.length, p) := by
  obtain ⟨hver, htype, hlen⟩ :=
    headerFirst_back m.type ⟨m.token.length, Nat.lt_succ_of_le htoken⟩
  have hle : m.codeClass ≤ coapMsgMaxCodeClass := by
    rcases hclass with h | h | h | h <;> rw [h] <;> decide
  obtain ⟨hdetail, hcls⟩ := headerCode_back hle m.codeDetail
  have hknown : ¬ (m.codeClass ≠ 0 ∧ m.codeClass ≠ 2 ∧ m.codeClass ≠ 4 ∧ m.codeClass ≠ 5) := by
    rintro ⟨h0, h2, h4, h5⟩
    rcases hclass with h | h | h | h
    · exact h0 h
    · exact h2 h
    · exact h4 h
    · exact h5 h
  dsimp only at hver htype hlen hdetail hcls
  unfold CoapMessage.headerBytes
  rw [List.cons_append, List.cons_append, List.cons_append, List.cons_append,
    coapMessageDeserializeHeader]
  dsimp only
  rw [hver, htype, hlen, hdetail, hcls, if_neg (not_not_intro rfl), if_neg (Nat.not_lt.mpr htoken),
    if_neg hknown, headerId_back]
  rfl

/-! ## The message -/

/-- The fields of a message that are sent. -/
structure SameMessage (m m' : CoapMessage) : Prop where
  version : m'.version = m.version
  type : m'.type = m.type
  codeClass : m'.codeClass = m.codeClass
  codeDetail : m'.codeDetail = m.codeDetail
  msgId : m'.msgId = m.msgId
  token : m'.token = m.token
  options : m'.opList.map (·.content) = m.opList.map (·.content)
  payLoad : m'.payLoad = m.payLoad

/-- The bytes are decoded without error, to a message with the same fields. -/
def ComesBack (t : Target) (m : CoapMessage) (heap : Heap) (oks : List Bool) (buf : Bytes) : Prop :=
  (deserializeCoapMessage t ⟨.zero, heap, oks⟩ buf).1 = .retSuccess ∧
    SameMessage m (deserializeCoapMessage t ⟨.zero, heap, oks⟩ buf).2.message

/-- What `deserialize_coap_message` has filled in when it comes to the options. -/
def CoapMessage.afterToken (m : CoapMessage) : CoapMessage :=
  { CoapMessage.zero with
    version := coapMsgVer
    type := m.type
    codeDetail := m.codeDetail &&& 0x1f
    codeClass := m.codeClass
    msgId := m.msgId
    token := m.token }

section

variable {t : Target} {m : CoapMessage} {heap : Heap} {oks : List Bool}

theorem endsOptions_payload (m : CoapMessage) : EndsOptions m.payloadBytes := by
  unfold CoapMessage.payloadBytes
  split
  · exact .inl rfl
  · exact .inr rfl

theorem deserialize_bytes (htoken : m.token.length ≤ coapMsgMaxTokenLen)
    (hclass : m.codeClass = 0 ∨ m.codeClass = 2 ∨ m.codeClass = 4 ∨ m.codeClass = 5) :
    deserializeCoapMessage t ⟨.zero, heap, oks⟩ m.bytes =
      match coapMessageDeserializeBody t ⟨m.afterToken, heap, oks⟩
          (optionsBytes 0 m.opList ++ m.payloadBytes) with
      | (.error _, d) => (.errCoapInternal, d.destroy)
      | (.ok _, d) => (coapMsgCheck d.message, d) := by
  unfold deserializeCoapMessage CoapMessage.bytes
  rw [header_back htoken hclass]
  dsimp only
  unfold coapMessageDeserializeToken
  rw [if_neg (by rw [List.length_append]; omega), List.take_left, List.drop_left]
  rfl

/-- The payload comes back. -/
theorem payload_back {d : Decoder} (hpay : d.message.payLoad = []) (hoks : false ∉ d.oks)
    (m : CoapMessage) :
    ∃ (addr : Option Nat) (d' : Decoder),
      coapMessageDeserializePayload d m.payloadBytes = (.ok [], d') ∧
      d'.message = { d.message with payLoadAt := addr, payLoad := m.payLoad } := by
  unfold CoapMessage.payloadBytes
  split
  · rename_i hnil
    refine ⟨d.message.payLoadAt, d, rfl, ?_⟩
    rw [hnil, ← hpay]
  · rename_i hne
    rw [coapMessageDeserializePayload, if_neg (not_not_intro rfl), if_neg hne,
      headD_of_all hoks]
    exact ⟨some d.heap.next, _, rfl, rfl⟩

/-- The body comes back when no option is lost. -/
theorem body_back (heap : Heap) (hval : ∀ op ∈ m.opList, op.val.length ≤ 65804)
    (hlost : ¬ (t.char = .signed ∧ SomeHighByte 0 m.opList)) (hoks : false ∉ oks) :
    ∃ (new : List CoapMsgOption) (addr : Option Nat) (d' : Decoder),
      coapMessageDeserializeBody t ⟨m.afterToken, heap, oks⟩
        (optionsBytes 0 m.opList ++ m.payloadBytes) = (.ok [], d') ∧
      new.map (·.content) = m.opList.map (·.content) ∧
      d'.message = { m.afterToken with opList := new, payLoadAt := addr, payLoad := m.payLoad } := by
  obtain ⟨new, d₁, hops, hnew, hmsg, hoks₁⟩ := options_back (d := ⟨m.afterToken, heap, oks⟩) hval
    hlost (endsOptions_payload m) (le_refl _) rfl hoks
  obtain ⟨addr, d₂, hpay, hmsg₂⟩ := payload_back (d := d₁) (by rw [hmsg]; rfl) hoks₁ m
  refine ⟨new, addr, d₂, ?_, hnew, ?_⟩
  · unfold coapMessageDeserializeBody
    rw [hops]
    exact hpay
  · rw [hmsg₂, hmsg]
    rfl

end

/-- The check sees only what is sent. -/
theorem check_eq {m m' : CoapMessage} (h : SameMessage m m') : coapMsgCheck m' = coapMsgCheck m := by
  have hempty : m'.IsEmpty ↔ m.IsEmpty := by
    unfold CoapMessage.IsEmpty
    rw [h.codeClass, h.codeDetail]
  have hops : m'.opList ≠ [] ↔ m.opList ≠ [] := by
    rw [not_iff_not, ← List.map_eq_nil_iff (f := (·.content)), h.options, List.map_eq_nil_iff]
  unfold coapMsgCheck
  rw [h.type, h.token, h.payLoad]
  simp only [hempty, hops]

theorem detail_eq (codeDetail : UInt32) :
    codeDetail &&& 0x1f = codeDetail ↔ codeDetail ≤ coapMsgMaxCodeDetail := by
  have hmod : (codeDetail &&& 0x1f).toNat = codeDetail.toNat % 32 := by
    rw [UInt32.toNat_and]
    exact Nat.and_two_pow_sub_one_eq_mod codeDetail.toNat 5
  have hle : codeDetail ≤ coapMsgMaxCodeDetail ↔ codeDetail.toNat ≤ 31 := UInt32.le_iff_toNat_le
  rw [hle, ← UInt32.toNat_inj, hmod]
  omega

/-- **A message that is written comes back**, whatever its options and its payload, iff its version
and the detail of its code fit the header and, where `char` is signed, no delta and no length has the
top bit set in its one-byte form. -/
theorem decode_encode_iff {sz : WordSize} {t : Target} {m : CoapMessage} {len n : Nat}
    {heap : Heap} {oks : List Bool} (htoken : m.token.length ≤ coapMsgMaxTokenLen)
    (hclass : m.codeClass = 0 ∨ m.codeClass = 2 ∨ m.codeClass = 4 ∨ m.codeClass = 5)
    (hval : ∀ op ∈ m.opList, op.val.length ≤ 65804)
    (hpay : m.payLoad.length < 2 ^ (sz.bits - 1)) (hcheck : coapMsgCheck m = .retSuccess)
    (hserialize : (serializeCoapMessage sz m len).rc = .ok n) (hoks : false ∉ oks) :
    ComesBack t m heap oks ((serializeCoapMessage sz m len).out.take n) ↔
      m.version = coapMsgVer ∧ m.codeDetail ≤ coapMsgMaxCodeDetail ∧
        ¬ (t.char = .signed ∧ SomeHighByte 0 m.opList) := by
  have hcounted : m.Counted sz :=
    ⟨fun op hop => lt_of_le_of_lt (hval op hop) (by omega), hpay⟩
  obtain ⟨hn, hout⟩ := serialize_ok hcounted len n hserialize
  rw [hout, hn, List.take_length]
  unfold ComesBack
  rw [deserialize_bytes htoken hclass]
  constructor
  · intro h
    split at h
    · exact nomatch h.1
    · rename_i rest d hbody
      have hsame : SameMessage m d.message := h.2
      obtain ⟨p₁, d₁, hops, hpayload⟩ := body_ok hbody
      obtain ⟨new, hnew⟩ := options_ok hops
      obtain ⟨hlist, hrest⟩ := payload_ok hpayload
      have hver : d.message.version = coapMsgVer := by
        rw [congrArg CoapMessage.version hrest, hnew]
        rfl
      have hdetail : d.message.codeDetail = m.codeDetail &&& 0x1f := by
        rw [congrArg CoapMessage.codeDetail hrest, hnew]
        rfl
      refine ⟨hsame.version.symm.trans hver, ?_, fun ⟨hsigned, hhigh⟩ => ?_⟩
      · rw [← detail_eq, ← hdetail, hsame.codeDetail]
      · refine options_not_back hval hsigned hhigh (le_refl _) rfl hoks hops ?_
        rw [← hlist]
        exact hsame.options
  · rintro ⟨hver, hdetail, hlost⟩
    obtain ⟨new, addr, d, hbody, hnew, hmsg⟩ := body_back heap hval hlost hoks
    rw [hbody]
    have hsame : SameMessage m d.message := by
      rw [hmsg]
      exact ⟨hver.symm, rfl, rfl, (detail_eq _).mpr hdetail, rfl, rfl, hnew, rfl⟩
    exact ⟨(check_eq hsame).trans hcheck, hsame⟩

theorem decode_encode_path :
    ComesBack ⟨.w32, .signed⟩ (pathMessage 13) {} []
      ((serializeCoapMessage .w32 (pathMessage 13) 512).out.take 25) :=
  (decode_encode_iff (by decide) (.inl rfl) (by decide) (by decide) (by decide) (by decide)
    (by decide)).mpr ⟨rfl, by decide, by decide⟩

/-- The length of 141 is sent as 13 and 128, and read back as 13 - 128. -/
theorem decode_encode_fails :
    (serializeCoapMessage .w32 (pathMessage 141) 512).rc = .ok 153 ∧
      ¬ ComesBack ⟨.w32, .signed⟩ (pathMessage 141) {} []
        ((serializeCoapMessage .w32 (pathMessage 141) 512).out.take 153) :=
  ⟨by decide +kernel, fun h => absurd h.1 (by decide +kernel)⟩

end QcloudIot.Coap
