import QcloudIot.Coap.Codec
import QcloudIot.Lib.Bytes
import QcloudIot.Lib.RunningSums

/-!
# Datagrams

A datagram as the message format has it: four bytes, the token, the options, and what is behind
them. The decoder takes it (`Taken`) option by option; how many bytes it takes for a value is what it
makes of the length.

* `readOption_ok_iff`: what one option is read from;
* `options_taken`, `options_wire`: the loop over the options goes through iff they are there and so
  are their blocks, and records the running sums of the deltas in sixteen bits;
* `Datagram.bytes_inj`: there is one way to read a datagram;
* `wire_of_accepted`, `deserialize_wire`: what is accepted, and what is left to do once the options
  have been gone through.
-/

namespace QcloudIot.Coap

open Lib

/-! ## An option -/

/-- The delta of an option, its length, and the bytes taken for its value. -/
structure WireOption where
  delta : Nat
  len : Nat
  val : Bytes
  deriving DecidableEq, Repr

namespace WireOption

/-- The option on the wire. -/
def bytes (o : WireOption) : Bytes :=
  (nibble o.delta <<< 4 ||| nibble o.len) :: (extension o.delta ++ (extension o.len ++ o.val))

/-- Delta and length have a form, and the value is as long as the decoder takes the length for. -/
structure Taken (t : Target) (o : WireOption) : Prop where
  delta : o.delta ≤ 65804
  len : o.len ≤ 65804
  val : o.val.length = (readBack t o.len).toNat

end WireOption

/-- The first byte of an option is its two halves. -/
theorem halves (b : UInt8) : ((b >>> 4) &&& 0x0f) <<< 4 ||| (b &&& 0x0f) = b :=
  forall_byte (P := fun b => ((b >>> 4) &&& 0x0f) <<< 4 ||| (b &&& 0x0f) = b) (by decide +kernel) b

theorem half_lt {b : UInt8} (h : (b &&& 0x0f).toUInt32 ≠ 15) : (b &&& 0x0f).toNat < 15 := by
  revert h
  exact forall_byte (P := fun b => (b &&& 0x0f).toUInt32 ≠ 15 → (b &&& 0x0f).toNat < 15)
    (by decide +kernel) b

/-- The form of a number below 13, of one below 269, and of any other. -/
theorem nibble_short {n : Nat} (h : n < 13) : nibble n = UInt8.ofNat n ∧ extension n = [] := by
  unfold nibble extension
  rw [if_neg (by omega), if_neg (by omega), if_neg (by omega), if_neg (by omega)]
  exact ⟨rfl, rfl⟩

theorem nibble_one (b : UInt8) : nibble (13 + b.toNat) = 13 ∧ extension (13 + b.toNat) = [b] := by
  have hb := b.toNat_lt
  unfold nibble extension
  rw [if_neg (by omega), if_pos (by omega), if_neg (by omega), if_pos (by omega),
    Nat.add_sub_cancel_left, UInt8.ofNat_toNat]
  exact ⟨rfl, rfl⟩

theorem nibble_two (b₀ b₁ : UInt8) :
    nibble (269 + (b₀.toNat * 256 + b₁.toNat)) = 14 ∧
      extension (269 + (b₀.toNat * 256 + b₁.toNat)) = [b₀, b₁] := by
  have h₀ := b₀.toNat_lt
  have h₁ := b₁.toNat_lt
  unfold nibble extension
  rw [if_pos (by omega), if_pos (by omega), Nat.add_sub_cancel_left]
  have hhigh : UInt8.ofNat ((b₀.toNat * 256 + b₁.toNat) / 256) = b₀ := by
    rw [show (b₀.toNat * 256 + b₁.toNat) / 256 = b₀.toNat by omega, UInt8.ofNat_toNat]
  have hlow : UInt8.ofNat (b₀.toNat * 256 + b₁.toNat) = b₁ := by
    apply UInt8.toNat_inj.mp
    rw [UInt8.toNat_ofNat']
    omega
  rw [hhigh, hlow]
  exact ⟨rfl, rfl⟩

/-- What a delta or a length is read from. -/
theorem readExtended_form {t : Target} {half : UInt8} (hhalf : half.toNat < 15) {p rest : Bytes}
    {v : UInt32} (h : readExtended t half.toUInt32 p = .ok (v, rest)) :
    ∃ n ≤ 65804, nibble n = half ∧ p = extension n ++ rest := by
  have heq : ∀ k : UInt8, half.toUInt32 = k.toUInt32 ↔ half = k := fun k =>
    ⟨fun h => by
      rw [← UInt8.toUInt8_toUInt32 half, h, UInt8.toUInt8_toUInt32], fun h => by rw [h]⟩
  unfold readExtended at h
  split at h
  · rename_i h13
    split at h
    · rename_i b p'
      cases h
      have hb := b.toNat_lt
      obtain ⟨hnib, hext⟩ := nibble_one b
      exact ⟨13 + b.toNat, by omega, by rw [hnib, (heq 13).mp h13], by rw [hext]; rfl⟩
    · exact nomatch h
  · split at h
    · rename_i h14
      split at h
      · rename_i b₀ b₁ p'
        cases h
        have h₀ := b₀.toNat_lt
        have h₁ := b₁.toNat_lt
        obtain ⟨hnib, hext⟩ := nibble_two b₀ b₁
        exact ⟨269 + (b₀.toNat * 256 + b₁.toNat), by omega, by rw [hnib, (heq 14).mp h14],
          by rw [hext]; rfl⟩
      · exact nomatch h
    · rename_i h13 h14
      cases h
      have hne13 : half.toNat ≠ 13 := fun h => h13 ((heq 13).mpr (UInt8.toNat_inj.mp h))
      have hne14 : half.toNat ≠ 14 := fun h => h14 ((heq 14).mpr (UInt8.toNat_inj.mp h))
      obtain ⟨hnib, hext⟩ := nibble_short (n := half.toNat) (by omega)
      exact ⟨half.toNat, by omega, by rw [hnib, UInt8.ofNat_toNat], by rw [hext]; rfl⟩

/-- **What an option is read from.** -/
theorem readOption_ok_iff {t : Target} {p val rest : Bytes} {delta : UInt32} :
    readOption t p = .ok (delta, val, rest) ↔
      ∃ o : WireOption, o.Taken t ∧ p = o.bytes ++ rest ∧ delta = readBack t o.delta ∧
        val = o.val := by
  constructor
  · intro h
    have hread := h
    unfold readOption at h
    split at h
    · exact nomatch h
    · rename_i b q
      dsimp only at h
      split at h
      · exact nomatch h
      · rename_i hhalves
        obtain ⟨hhigh, hlow⟩ := not_or.mp hhalves
        split at h
        · exact nomatch h
        · rename_i v₁ q₁ hdelta
          split at h
          · exact nomatch h
          · rename_i v₂ q₂ hlen
            -- both halves have their number, so that the option is read back as one written
            obtain ⟨k, hk, hknib, rfl⟩ := readExtended_form (half_lt hhigh) hdelta
            obtain ⟨n, hn, hnnib, rfl⟩ := readExtended_form (half_lt hlow) hlen
            rw [← halves b, ← hknib, ← hnnib, readOption_head t hk hn] at hread
            split at hread
            · exact nomatch hread
            · rename_i hfits
              cases hread
              refine ⟨⟨k, n, q₂.take (readBack t n).toNat⟩, ⟨hk, hn, ?_⟩, ?_, rfl, rfl⟩
              · exact List.length_take_of_le (Nat.not_lt.mp hfits)
              · rw [WireOption.bytes]
                dsimp only
                rw [hknib, hnnib, halves, List.cons_append, List.append_assoc, List.append_assoc,
                  List.take_append_drop]
  · rintro ⟨o, ho, rfl, rfl, rfl⟩
    rw [WireOption.bytes, List.cons_append, List.append_assoc, List.append_assoc,
      readOption_head t ho.delta ho.len, ← ho.val, List.take_left, List.drop_left,
      if_neg (by rw [List.length_append]; omega)]

/-! ## One way to read it -/

/-- A number is known by its four bits and the bytes behind them: where `char` is unsigned, it is read
back as it is. -/
theorem form_inj {k n : Nat} (hk : k ≤ 65804) (hn : n ≤ 65804) (hnib : nibble k = nibble n)
    {p q : Bytes} (h : extension k ++ p = extension n ++ q) : k = n ∧ p = q := by
  have hback : ∀ {n : Nat}, readBack ⟨.w32, .unsigned⟩ n = UInt32.ofNat n :=
    readBack_eq fun h => nomatch h.1
  have hread := readExtended_extension ⟨.w32, .unsigned⟩ hk p
  rw [hnib, h, readExtended_extension _ hn, hback, hback] at hread
  obtain ⟨hnum, hrest⟩ := Prod.mk.inj (Except.ok.inj hread)
  have hnat := congrArg UInt32.toNat hnum
  rw [UInt32.toNat_ofNat_of_lt' (by change n < 2 ^ 32; omega),
    UInt32.toNat_ofNat_of_lt' (by change k < 2 ^ 32; omega)] at hnat
  exact ⟨hnat.symm, hrest.symm⟩

namespace WireOption

variable {t : Target} {o o' : WireOption} {p p' : Bytes}

theorem append_inj (ho : o.Taken t) (ho' : o'.Taken t) (h : o.bytes ++ p = o'.bytes ++ p') :
    o = o' ∧ p = p' := by
  obtain ⟨delta, len, val⟩ := o
  obtain ⟨delta', len', val'⟩ := o'
  simp only [bytes, List.cons_append, List.append_assoc, List.cons.injEq] at h
  obtain ⟨hfirst, hrest⟩ := h
  obtain ⟨hhigh, hlow⟩ := nibbles delta len
  rw [hfirst, (nibbles delta' len').1] at hhigh
  rw [hfirst, (nibbles delta' len').2] at hlow
  obtain ⟨rfl, hlens⟩ := form_inj ho.delta ho'.delta hhigh.symm hrest
  obtain ⟨rfl, hvals⟩ := form_inj ho.len ho'.len hlow.symm hlens
  obtain ⟨rfl, hp⟩ := List.append_inj hvals (ho.val.trans ho'.val.symm)
  exact ⟨rfl, hp⟩

theorem not_endsOptions (o : WireOption) (p : Bytes) : ¬ EndsOptions (o.bytes ++ p) := by
  rintro (h | h)
  · exact nomatch h
  · exact head_ne_marker o.delta o.len (Option.some.inj h)

end WireOption

/-- The options on the wire. -/
def wireBytes (os : List WireOption) : Bytes := os.flatMap WireOption.bytes

theorem wireBytes_inj {t : Target} {os os' : List WireOption} {p p' : Bytes}
    (hos : ∀ o ∈ os, o.Taken t) (hos' : ∀ o ∈ os', o.Taken t) (hp : EndsOptions p)
    (hp' : EndsOptions p') (h : wireBytes os ++ p = wireBytes os' ++ p') : os = os' ∧ p = p' := by
  induction os generalizing os' with
  | nil =>
    cases os' with
    | nil => exact ⟨rfl, h⟩
    | cons o' os' =>
      have h : p = o'.bytes ++ (wireBytes os' ++ p') := by simpa [wireBytes] using h
      exact absurd (h ▸ hp) (o'.not_endsOptions _)
  | cons o os ih =>
    cases os' with
    | nil =>
      have h : o.bytes ++ (wireBytes os ++ p) = p' := by simpa [wireBytes] using h
      exact absurd (h ▸ hp') (o.not_endsOptions _)
    | cons o' os' =>
      have h : o.bytes ++ (wireBytes os ++ p) = o'.bytes ++ (wireBytes os' ++ p') := by
        simpa [wireBytes] using h
      obtain ⟨rfl, hrest⟩ := WireOption.append_inj (hos o List.mem_cons_self)
        (hos' o' List.mem_cons_self) h
      obtain ⟨rfl, rfl⟩ := ih (fun a ha => hos a (List.mem_cons_of_mem o ha))
        (fun a ha => hos' a (List.mem_cons_of_mem o ha)) hrest
      exact ⟨rfl, rfl⟩

/-! ## The loop -/

/-- The next `n` allocations succeed. -/
def Answered (oks : List Bool) (n : Nat) : Prop := false ∉ oks.take n

instance (oks : List Bool) (n : Nat) : Decidable (Answered oks n) :=
  inferInstanceAs (Decidable (_ ∉ _))

theorem answered_zero (oks : List Bool) : Answered oks 0 := List.not_mem_nil

theorem answered_add {oks : List Bool} {k n : Nat} :
    Answered oks (k + n) ↔ Answered oks k ∧ Answered (oks.drop k) n := by
  unfold Answered
  rw [List.take_add, List.mem_append, not_or]

theorem answered_one {oks : List Bool} : Answered oks 1 ↔ oks.headD true = true := by
  unfold Answered
  rcases oks with _ | ⟨_ | _, oks⟩
  · simp
  · simp
  · simp

section

variable {t : Target} {d d' : Decoder} {p rest : Bytes}

/-- An option is added iff both its blocks are there. -/
theorem addLast_cases (d : Decoder) (num : UInt32) (val : Bytes) :
    (¬ Answered d.oks 2 ∧ (coapMsgOpListAddLast d num val).1 = .errFailure) ∨
      (Answered d.oks 2 ∧ ∃ op d', coapMsgOpListAddLast d num val = (.retSuccess, d') ∧
        op.content = (num.toUInt16, val) ∧
        d'.message = { d.message with opList := d.message.opList ++ [op] } ∧
        d'.oks = d.oks.drop 2) := by
  have hboth : Answered d.oks 2 ↔ d.oks.headD true = true ∧ d.oks.tail.headD true = true := by
    rw [answered_add (k := 1) (n := 1), answered_one, answered_one, List.drop_one]
  rw [hboth]
  unfold coapMsgOpListAddLast qcloudIotCoapOptionInit Heap.malloc
  cases d.oks.headD true with
  | false => exact .inl ⟨fun h => (nomatch h.1), rfl⟩
  | true =>
    cases d.oks.tail.headD true with
    | false => exact .inl ⟨fun h => (nomatch h.2), rfl⟩
    | true => exact .inr ⟨⟨rfl, rfl⟩, _, _, rfl, rfl, rfl, rfl⟩

theorem option_taken (h : coapMessageDeserializeOption t d p = (.ok rest, d')) :
    ∃ o : WireOption, o.Taken t ∧ p = o.bytes ++ rest ∧ Answered d.oks 2 ∧
      d'.oks = d.oks.drop 2 := by
  unfold coapMessageDeserializeOption at h
  split at h
  · exact nomatch h
  · rename_i delta val p' hread
    obtain ⟨o, ho, hp, -, -⟩ := readOption_ok_iff.mp hread
    dsimp only at h
    rcases addLast_cases d _ val with ⟨-, hrefused⟩ | ⟨hoks, op, d₁, hadd, -, -, hdrop⟩
    · split at h
      · rename_i hadd
        rw [hadd] at hrefused
        exact nomatch hrefused
      · exact nomatch h
    · rw [hadd] at h
      cases h
      exact ⟨o, ho, hp, hoks, hdrop⟩

theorem option_wire {o : WireOption} (ho : o.Taken t) (hoks : Answered d.oks 2) (rest : Bytes) :
    ∃ op d', coapMessageDeserializeOption t d (o.bytes ++ rest) = (.ok rest, d') ∧
      op.content = ((d.message.lastNum.toUInt32 + readBack t o.delta).toUInt16, o.val) ∧
      d'.message = { d.message with opList := d.message.opList ++ [op] } ∧
      d'.oks = d.oks.drop 2 := by
  have hread : readOption t (o.bytes ++ rest) = .ok (readBack t o.delta, o.val, rest) :=
    readOption_ok_iff.mpr ⟨o, ho, rfl, rfl, rfl⟩
  unfold coapMessageDeserializeOption
  rw [hread]
  dsimp only
  rw [opNum_eq]
  rcases addLast_cases d (d.message.lastNum.toUInt32 + readBack t o.delta) o.val with
    ⟨hrefused, -⟩ | ⟨-, op, d₁, hadd, hcontent, hmsg, hdrop⟩
  · exact absurd hoks hrefused
  · exact ⟨op, d₁, by rw [hadd], hcontent, hmsg, hdrop⟩

end

/-- **What the loop goes through** is options whose blocks are there, up to what ends it. -/
theorem options_taken {t : Target} {n : Nat} {d d' : Decoder} {p rest : Bytes} (hp : p.length ≤ n)
    (h : coapMessageDeserializeOptions t n d p = (.ok rest, d')) :
    ∃ os : List WireOption, (∀ o ∈ os, o.Taken t) ∧ p = wireBytes os ++ rest ∧ EndsOptions rest ∧
      Answered d.oks (2 * os.length) := by
  induction n generalizing d p with
  | zero =>
    cases h
    exact ⟨[], fun _ h => absurd h List.not_mem_nil, rfl,
      .inl (List.length_eq_zero_iff.mp (Nat.le_zero.mp hp)), answered_zero _⟩
  | succ n ih =>
    rw [coapMessageDeserializeOptions] at h
    split at h
    · cases h
      exact ⟨[], fun _ h => absurd h List.not_mem_nil, rfl, ‹_›, answered_zero _⟩
    · split at h
      · cases h
      · rename_i p₁ d₁ hopt
        obtain ⟨o, ho, rfl, hoks, hdrop⟩ := option_taken hopt
        have hlen : p₁.length ≤ n := by
          rw [List.length_append, WireOption.bytes, List.length_cons] at hp
          omega
        obtain ⟨os, hos, rfl, hend, hoks'⟩ := ih hlen h
        refine ⟨o :: os, List.forall_mem_cons.mpr ⟨ho, hos⟩, ?_, hend, ?_⟩
        · simp [wireBytes]
        · rw [List.length_cons, Nat.mul_succ, Nat.add_comm, answered_add]
          exact ⟨hoks, hdrop ▸ hoks'⟩

/-- The number recorded for an option, in sixteen bits. -/
theorem num_recorded (num : UInt16) (delta : UInt32) :
    (num.toUInt32 + delta).toUInt16.toNat = (num.toNat + delta.toNat) % 65536 := by
  have := num.toNat_lt
  rw [UInt32.toNat_toUInt16, UInt32.toNat_add, UInt16.toNat_toUInt32]
  omega

/-- **What the loop makes of options** whose blocks are there. -/
theorem options_wire {t : Target} {rest : Bytes} (hend : EndsOptions rest)
    {os : List WireOption} (hos : ∀ o ∈ os, o.Taken t) {n : Nat} {d : Decoder}
    (hoks : Answered d.oks (2 * os.length)) (hn : (wireBytes os ++ rest).length ≤ n) :
    ∃ (new : List CoapMsgOption) (d' : Decoder),
      coapMessageDeserializeOptions t n d (wireBytes os ++ rest) = (.ok rest, d') ∧
      new.map (·.optionNum.toNat) =
        sumsMod 65536 d.message.lastNum.toNat (os.map fun o => (readBack t o.delta).toNat) ∧
      new.map (·.val) = os.map (·.val) ∧
      d'.message = { d.message with opList := d.message.opList ++ new } ∧
      d'.oks = d.oks.drop (2 * os.length) := by
  induction os generalizing n d with
  | nil =>
    refine ⟨[], d, ?_, rfl, rfl, by rw [List.append_nil], rfl⟩
    cases n with
    | zero => rfl
    | succ n => rw [wireBytes, List.flatMap_nil, List.nil_append, coapMessageDeserializeOptions,
        if_pos hend]
  | cons o os ih =>
    have happ : wireBytes (o :: os) ++ rest = o.bytes ++ (wireBytes os ++ rest) := by
      simp [wireBytes]
    rw [List.length_cons, Nat.mul_succ, Nat.add_comm, answered_add] at hoks
    rw [happ, List.length_append, WireOption.bytes, List.length_cons] at hn
    obtain ⟨n, rfl⟩ : ∃ k, n = k + 1 := ⟨n - 1, by omega⟩
    obtain ⟨op, d₁, hopt, hcontent, hmsg, hdrop⟩ :=
      option_wire (hos o List.mem_cons_self) hoks.1 (wireBytes os ++ rest)
    have hlen : (wireBytes os ++ rest).length ≤ n := by omega
    obtain ⟨new, d', hopts, hnums, hvals, hmsg', hdrop'⟩ :=
      ih (fun a ha => hos a (List.mem_cons_of_mem o ha)) (hdrop ▸ hoks.2) hlen
    obtain ⟨hnum, hval⟩ := Prod.mk.inj hcontent
    have hlast : d₁.message.lastNum.toNat =
        (d.message.lastNum.toNat + (readBack t o.delta).toNat) % 65536 := by
      rw [hmsg, lastNum_append, hnum, num_recorded]
    refine ⟨op :: new, d', ?_, ?_, ?_, ?_, ?_⟩
    · rw [happ, coapMessageDeserializeOptions, if_neg (o.not_endsOptions _), hopt]
      exact hopts
    · rw [List.map_cons, List.map_cons, sumsMod, hnums, hlast, hnum, num_recorded]
    · rw [List.map_cons, List.map_cons, hval, hvals]
    · rw [hmsg', hmsg]
      simp
    · rw [hdrop', hdrop, List.drop_drop, List.length_cons, Nat.mul_succ, Nat.add_comm]

/-! ## The datagram -/

/-- The four bytes of the header, the token, the options, and what is behind them. -/
structure Datagram where
  first : UInt8
  code : UInt8
  id₀ : UInt8
  id₁ : UInt8
  token : Bytes
  options : List WireOption
  tail : Bytes
  deriving DecidableEq, Repr

namespace Datagram

/-- The bytes of the datagram. -/
def bytes (g : Datagram) : Bytes :=
  g.first :: g.code :: g.id₀ :: g.id₁ :: (g.token ++ (wireBytes g.options ++ g.tail))

/-- The header is one of a message with this token, the options are complete, and what is behind them
is nothing or starts with the payload's marker. -/
structure Taken (t : Target) (g : Datagram) : Prop where
  version : g.first.toNat / 64 = 1
  token : g.token.length = g.first.toNat % 16
  tokenLen : g.first.toNat % 16 ≤ coapMsgMaxTokenLen
  codeClass : g.code.toNat / 32 = 0 ∨ g.code.toNat / 32 = 2 ∨ g.code.toNat / 32 = 4 ∨
    g.code.toNat / 32 = 5
  options : ∀ o ∈ g.options, o.Taken t
  tail : EndsOptions g.tail

/-- **There is one way to read a datagram.** -/
theorem bytes_inj {t : Target} {g g' : Datagram} (hg : g.Taken t) (hg' : g'.Taken t)
    (h : g.bytes = g'.bytes) : g = g' := by
  obtain ⟨first, code, id₀, id₁, token, options, tail⟩ := g
  obtain ⟨first', code', id₀', id₁', token', options', tail'⟩ := g'
  simp only [bytes, List.cons.injEq] at h
  obtain ⟨rfl, rfl, rfl, rfl, hrest⟩ := h
  obtain ⟨rfl, hopts⟩ := List.append_inj hrest (hg.token.trans hg'.token.symm)
  obtain ⟨rfl, rfl⟩ := wireBytes_inj hg.options hg'.options hg.tail hg'.tail hopts
  rfl

/-- What the decoder has filled in when it comes to the options. -/
def start (g : Datagram) : CoapMessage :=
  { CoapMessage.zero with
    version := coapMsgVer
    type := CoapMsgType.ofBits ((g.first >>> 4) &&& 0x03)
    codeDetail := (g.code &&& 0x1f).toUInt32
    codeClass := ((g.code >>> 5) &&& 0x07).toUInt32
    msgId := swap16 (load16 g.id₀ g.id₁)
    token := g.token }

end Datagram

theorem version_iff (b : UInt8) :
    ((b >>> 6) &&& 0x03).toUInt32 = coapMsgVer ↔ b.toNat / 64 = 1 :=
  forall_byte (P := fun b => ((b >>> 6) &&& 0x03).toUInt32 = coapMsgVer ↔ b.toNat / 64 = 1)
    (by decide +kernel) b

theorem tokenLen_eq (b : UInt8) : (b &&& 0x0f).toNat = b.toNat % 16 :=
  forall_byte (P := fun b => (b &&& 0x0f).toNat = b.toNat % 16) (by decide +kernel) b

theorem codeClass_toNat (b : UInt8) : ((b >>> 5) &&& 0x07).toUInt32.toNat = b.toNat / 32 :=
  forall_byte (P := fun b => ((b >>> 5) &&& 0x07).toUInt32.toNat = b.toNat / 32)
    (by decide +kernel) b

theorem codeClass_iff (b : UInt8) (k : UInt32) :
    ((b >>> 5) &&& 0x07).toUInt32 = k ↔ b.toNat / 32 = k.toNat := by
  rw [← UInt32.toNat_inj, codeClass_toNat]

theorem empty_iff (b : UInt8) :
    ((b >>> 5) &&& 0x07).toUInt32 = 0 ∧ (b &&& 0x1f).toUInt32 = 0 ↔ b = 0 :=
  forall_byte (P := fun b => ((b >>> 5) &&& 0x07).toUInt32 = 0 ∧ (b &&& 0x1f).toUInt32 = 0 ↔ b = 0)
    (by decide +kernel) b

section

variable {t : Target} {heap : Heap} {oks : List Bool}

/-- Header and token of a datagram that is taken. -/
theorem header_wire {g : Datagram} (hg : g.Taken t) :
    coapMessageDeserializeHeader .zero g.bytes =
        .ok ({ g.start with token := [] }, g.first.toNat % 16,
          g.token ++ (wireBytes g.options ++ g.tail)) ∧
      coapMessageDeserializeToken { g.start with token := [] } (g.first.toNat % 16)
          (g.token ++ (wireBytes g.options ++ g.tail)) =
        .ok (g.start, wireBytes g.options ++ g.tail) := by
  have hclass : ¬ (((g.code >>> 5) &&& 0x07).toUInt32 ≠ 0 ∧
      ((g.code >>> 5) &&& 0x07).toUInt32 ≠ 2 ∧ ((g.code >>> 5) &&& 0x07).toUInt32 ≠ 4 ∧
      ((g.code >>> 5) &&& 0x07).toUInt32 ≠ 5) := by
    simp only [ne_eq, codeClass_iff, UInt32.reduceToNat]
    have := hg.codeClass
    omega
  constructor
  · rw [Datagram.bytes, coapMessageDeserializeHeader]
    dsimp only
    rw [(version_iff g.first).mpr hg.version, tokenLen_eq, if_neg (not_not_intro rfl),
      if_neg (Nat.not_lt.mpr hg.tokenLen), if_neg hclass]
    rfl
  · unfold coapMessageDeserializeToken
    rw [← hg.token, if_neg (by rw [List.length_append]; omega), List.take_left, List.drop_left]
    rfl

/-- What header and token are read from. -/
theorem header_taken {p p₁ p₂ : Bytes} {m m' : CoapMessage} {tokenLen : Nat}
    (hheader : coapMessageDeserializeHeader .zero p = .ok (m, tokenLen, p₁))
    (htoken : coapMessageDeserializeToken m tokenLen p₁ = .ok (m', p₂))
    {os : List WireOption} (hos : ∀ o ∈ os, o.Taken t) {tail : Bytes} (hend : EndsOptions tail)
    (hp₂ : p₂ = wireBytes os ++ tail) :
    ∃ g : Datagram, g.Taken t ∧ p = g.bytes ∧ g.options = os ∧ g.tail = tail ∧ m' = g.start := by
  unfold coapMessageDeserializeHeader at hheader
  split at hheader
  · rename_i b₀ b₁ b₂ b₃ q
    dsimp only at hheader
    split_ifs at hheader with hver hlen hclass
    cases hheader
    unfold coapMessageDeserializeToken at htoken
    split at htoken
    · exact nomatch htoken
    · rename_i hfits
      cases htoken
      have hcode : b₁.toNat / 32 = 0 ∨ b₁.toNat / 32 = 2 ∨ b₁.toNat / 32 = 4 ∨
          b₁.toNat / 32 = 5 := by
        simp only [ne_eq, codeClass_iff, UInt32.reduceToNat] at hclass
        omega
      refine ⟨⟨b₀, b₁, b₂, b₃, p₁.take (b₀ &&& 0x0f).toNat, os, tail⟩,
        ⟨(version_iff b₀).mp (not_not.mp hver), ?_, ?_, hcode, hos, hend⟩, ?_, rfl, rfl, ?_⟩
      · rw [← tokenLen_eq]
        exact List.length_take_of_le (Nat.not_lt.mp hfits)
      · rw [← tokenLen_eq]
        exact Nat.not_lt.mp hlen
      · rw [Datagram.bytes]
        dsimp only
        rw [← hp₂, List.take_append_drop]
      · rw [Datagram.start, ← not_not.mp hver]
  · exact nomatch hheader

/-- **What is left to do** once the options have been gone through. -/
theorem deserialize_wire (heap : Heap) {g : Datagram} (hg : g.Taken t)
    (hoks : Answered oks (2 * g.options.length)) :
    ∃ (new : List CoapMsgOption) (d : Decoder),
      new.map (·.optionNum.toNat) =
        sumsMod 65536 0 (g.options.map fun o => (readBack t o.delta).toNat) ∧
      new.map (·.val) = g.options.map (·.val) ∧
      d.message = { g.start with opList := new } ∧ d.oks = oks.drop (2 * g.options.length) ∧
      coapMessageDeserializeOptions t (wireBytes g.options ++ g.tail).length ⟨g.start, heap, oks⟩
        (wireBytes g.options ++ g.tail) = (.ok g.tail, d) ∧
      deserializeCoapMessage t ⟨.zero, heap, oks⟩ g.bytes =
        match coapMessageDeserializePayload d g.tail with
        | (.error _, d) => (.errCoapInternal, d.destroy)
        | (.ok _, d) => (coapMsgCheck d.message, d) := by
  obtain ⟨new, d, hopts, hnums, hvals, hmsg, hdrop⟩ :=
    options_wire hg.tail hg.options (d := ⟨g.start, heap, oks⟩) hoks (le_refl _)
  obtain ⟨hheader, htoken⟩ := header_wire hg
  refine ⟨new, d, hnums, hvals, hmsg, hdrop, hopts, ?_⟩
  unfold deserializeCoapMessage
  dsimp only
  rw [hheader]
  dsimp only
  rw [htoken]
  dsimp only
  unfold coapMessageDeserializeBody
  rcases hpayload : coapMessageDeserializePayload d g.tail with ⟨rc | rest, d'⟩
  · simp only [hopts, hpayload]
  · simp only [hopts, hpayload]

/-- **What is accepted is a datagram**, and the blocks of its options are there. -/
theorem wire_of_accepted {p : Bytes}
    (h : (deserializeCoapMessage t ⟨.zero, heap, oks⟩ p).1 = .retSuccess) :
    ∃ g : Datagram, g.Taken t ∧ p = g.bytes ∧ Answered oks (2 * g.options.length) := by
  unfold deserializeCoapMessage at h
  split at h
  · exact nomatch h
  · rename_i m tokenLen p₁ hheader
    split at h
    · exact nomatch h
    · rename_i m' p₂ htoken
      split at h
      · exact nomatch h
      · rename_i rest d hbody
        obtain ⟨p₃, d₁, hopts, -⟩ := body_ok hbody
        obtain ⟨os, hos, hp₂, hend, hoks⟩ := options_taken (le_refl _) hopts
        obtain ⟨g, hg, hp, rfl, -, -⟩ := header_taken hheader htoken hos hend hp₂
        exact ⟨g, hg, hp, hoks⟩

/-- The code of an accepted message is its second byte. -/
theorem empty_of_accepted {p : Bytes}
    (h : (deserializeCoapMessage t ⟨.zero, heap, oks⟩ p).1 = .retSuccess) :
    (deserializeCoapMessage t ⟨.zero, heap, oks⟩ p).2.message.IsEmpty ↔ p[1]? = some 0 := by
  obtain ⟨g, hg, rfl, hoks⟩ := wire_of_accepted h
  obtain ⟨new, d, -, -, hmsg, -, -, hdecode⟩ := deserialize_wire heap hg hoks
  have hcode : g.bytes[1]? = some g.code := rfl
  rw [hcode, Option.some_inj, ← empty_iff, hdecode]
  rw [hdecode] at h
  split at h
  · exact nomatch h
  · rename_i rest d' hpayload
    have hrest := (payload_ok hpayload).2
    rw [hmsg] at hrest
    have hclass := congrArg CoapMessage.codeClass hrest
    have hdetail := congrArg CoapMessage.codeDetail hrest
    dsimp only at hclass hdetail ⊢
    unfold CoapMessage.IsEmpty
    rw [hclass, hdetail]
    rfl

end

end QcloudIot.Coap
