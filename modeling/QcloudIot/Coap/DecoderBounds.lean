import QcloudIot.Coap.Datagram
import QcloudIot.Coap.Reads

/-!
# The bounds of the decoder

`_coap_message_deserialize_options` looks at the next byte before it looks at `len`, so that a
message that ends with its options, or has none, is read one byte too far. The number of an option
is the running sum of the deltas in sixteen bits, each one-byte delta added as a plain `char`.

* `stopsAtEnd_iff`: which messages are read too far;
* `accepted_wire`: which messages with a payload are accepted, and what is recorded for them;
* **`decoderSafe_iff`**: the decoder keeps to the message and records the true numbers iff the
  options are followed by the payload's marker and, if the message is accepted, no delta has the top
  bit set in its one-byte form where `char` is signed, and their sum is below 2^16;
* `decoderSafe_fails`: an empty acknowledgement, which is read too far.
-/

namespace QcloudIot.Coap

open Lib

/-! ## What is asked of it -/

/-- What is recorded of an accepted message: the numbers of its options are the running sums of the
deltas, and so do not go down; their values and the payload lie in the message. -/
structure Recorded (t : Target) (p : Bytes) (m : CoapMessage) : Prop where
  numbers : ∃ g : Datagram, g.Taken t ∧ p = g.bytes ∧
    m.opList.map (·.optionNum.toNat) = sums 0 (g.options.map (·.delta))
  ascending : m.opList.Pairwise (·.optionNum ≤ ·.optionNum)
  values : ∀ op ∈ m.opList, op.val <:+: p
  payLoad : m.payLoad <:+: p

/-- The decoder is safe on the `len` bytes at `buf`: it ends, it reads at no index from `len` on, and
what it accepts is recorded as it is. -/
structure DecoderSafe (t : Target) (buf : Memory UInt8) (heap : Heap) (oks : List Bool)
    (len : Nat) : Prop where
  terminates : ∃ rc d, ∀ n, len < n →
    (deserializeAt t buf n ⟨.zero, heap, oks⟩ len).result = some (rc, d)
  inBounds : ∀ n, len < n → (deserializeAt t buf n ⟨.zero, heap, oks⟩ len).Below len
  recorded : ∀ n d, len < n →
    (deserializeAt t buf n ⟨.zero, heap, oks⟩ len).result = some (.retSuccess, d) →
    Recorded t (buf.load 0 len) d.message

/-! ## Where it holds -/

/-- The message has a payload behind the marker, whose block is there, a code, and a type other than
reset. -/
def Datagram.Accepted (g : Datagram) (oks : List Bool) : Prop :=
  (∃ payLoad, payLoad ≠ [] ∧ g.tail = 0xff :: payLoad) ∧
    Answered (oks.drop (2 * g.options.length)) 1 ∧ g.code ≠ 0 ∧ g.first.toNat / 16 % 4 ≠ 3

/-- The deltas of the message are added as they are, in sixteen bits. -/
def Datagram.Countable (t : Target) (g : Datagram) : Prop :=
  ¬ (t.char = .signed ∧ ∃ o ∈ g.options, HighByte o.delta) ∧
    (g.options.map (·.delta)).sum < 65536

/-- However the message is read whose option blocks are there, its options are not the last of it,
and an accepted one has deltas that can be added. -/
def Bounded (t : Target) (oks : List Bool) (p : Bytes) : Prop :=
  ∀ g : Datagram, g.Taken t → p = g.bytes → Answered oks (2 * g.options.length) →
    g.tail ≠ [] ∧ (g.Accepted oks → g.Countable t)

section

variable {t : Target} {heap : Heap} {oks : List Bool} {p : Bytes} {g : Datagram}

/-- **Read too far** is what ends with its options. -/
theorem stopsAtEnd_iff :
    StopsAtEnd t ⟨.zero, heap, oks⟩ p ↔
      ∃ g : Datagram, g.Taken t ∧ p = g.bytes ∧ Answered oks (2 * g.options.length) ∧
        g.tail = [] := by
  constructor
  · rintro ⟨m, tokenLen, p₁, m', p₂, d', hheader, htoken, hopts⟩
    obtain ⟨os, hos, hp₂, hend, hoks⟩ := options_taken (le_refl _) hopts
    obtain ⟨g, hg, hp, rfl, htail, -⟩ := header_taken hheader htoken hos hend hp₂
    exact ⟨g, hg, hp, hoks, htail⟩
  · rintro ⟨g, hg, rfl, hoks, htail⟩
    obtain ⟨hheader, htoken⟩ := header_wire hg
    obtain ⟨new, d, -, -, -, -, hopts, -⟩ := deserialize_wire heap hg hoks
    refine ⟨_, _, _, _, _, d, hheader, htoken, ?_⟩
    rw [hopts, htail]

theorem rst_iff (b : UInt8) :
    CoapMsgType.ofBits ((b >>> 4) &&& 0x03) = .rst ↔ b.toNat / 16 % 4 = 3 :=
  forall_byte (P := fun b => CoapMsgType.ofBits ((b >>> 4) &&& 0x03) = .rst ↔ b.toNat / 16 % 4 = 3)
    (by decide +kernel) b

/-- The check of a message with a payload. -/
theorem check_payload {m : CoapMessage} (hclass : m.codeClass = ((g.code >>> 5) &&& 0x07).toUInt32)
    (hdetail : m.codeDetail = (g.code &&& 0x1f).toUInt32)
    (htype : m.type = CoapMsgType.ofBits ((g.first >>> 4) &&& 0x03)) (hpay : m.payLoad ≠ []) :
    coapMsgCheck m = .retSuccess ↔ g.code ≠ 0 ∧ g.first.toNat / 16 % 4 ≠ 3 := by
  have hlen : m.payLoad.length ≠ 0 := fun h => hpay (List.length_eq_zero_iff.mp h)
  have hempty : m.IsEmpty ↔ g.code = 0 := by
    unfold CoapMessage.IsEmpty
    rw [hclass, hdetail]
    exact empty_iff g.code
  unfold coapMsgCheck
  rw [htype]
  simp only [hempty, rst_iff]
  by_cases hcode : g.code = 0
  · rw [if_pos hcode, if_pos (.inr (.inr (.inr hlen)))]
    exact ⟨nofun, fun h => absurd hcode h.1⟩
  · rw [if_neg hcode]
    by_cases hrst : g.first.toNat / 16 % 4 = 3
    · rw [if_pos hrst]
      exact ⟨nofun, fun h => absurd hrst h.2⟩
    · rw [if_neg hrst]
      exact ⟨fun _ => ⟨hcode, hrst⟩, fun _ => rfl⟩

/-- A payload is refused when it is empty or its block is not there. -/
theorem payload_cases (d : Decoder) (q : Bytes) :
    (¬ (q ≠ [] ∧ d.oks.headD true = true) ∧
        ∃ rc d', coapMessageDeserializePayload d (0xff :: q) = (.error rc, d')) ∨
      (q ≠ [] ∧ d.oks.headD true = true ∧ ∃ addr d',
        coapMessageDeserializePayload d (0xff :: q) = (.ok [], d') ∧
        d'.message = { d.message with payLoadAt := some addr, payLoad := q }) := by
  rw [coapMessageDeserializePayload, if_neg (not_not_intro rfl)]
  by_cases hnil : q = []
  · rw [if_pos hnil]
    exact .inl ⟨fun h => h.1 hnil, _, _, rfl⟩
  · rw [if_neg hnil, Heap.malloc]
    cases d.oks.headD true with
    | false => exact .inl ⟨fun h => Bool.false_ne_true h.2, _, _, rfl⟩
    | true => exact .inr ⟨hnil, rfl, _, _, rfl, rfl⟩

/-- **Which messages with something behind the options are accepted**, and what is recorded. -/
theorem accepted_wire (heap : Heap) (hg : g.Taken t) (hoks : Answered oks (2 * g.options.length))
    (htail : g.tail ≠ []) :
    ((deserializeCoapMessage t ⟨.zero, heap, oks⟩ g.bytes).1 = .retSuccess ↔ g.Accepted oks) ∧
      (g.Accepted oks →
        ((deserializeCoapMessage t ⟨.zero, heap, oks⟩ g.bytes).2.message.opList.map
            (·.optionNum.toNat) =
          sumsMod 65536 0 (g.options.map fun o => (readBack t o.delta).toNat)) ∧
        ((deserializeCoapMessage t ⟨.zero, heap, oks⟩ g.bytes).2.message.opList.map (·.val) =
          g.options.map (·.val)) ∧
        g.tail = 0xff :: (deserializeCoapMessage t ⟨.zero, heap, oks⟩ g.bytes).2.message.payLoad) := by
  obtain ⟨new, d, hnums, hvals, hmsg, hdrop, -, hdecode⟩ := deserialize_wire heap hg hoks
  rw [hdecode]
  obtain ⟨payLoad, hpay⟩ : ∃ payLoad, g.tail = 0xff :: payLoad := by
    rcases hg.tail with hnil | hhead
    · exact absurd hnil htail
    · exact ⟨g.tail.tail, (List.cons_head?_tail hhead).symm⟩
  have hsome : (∃ q, q ≠ [] ∧ g.tail = 0xff :: q) ↔ payLoad ≠ [] := by
    constructor
    · rintro ⟨q, hq, heq⟩
      rw [hpay] at heq
      rwa [(List.cons.inj heq).2]
    · exact fun h => ⟨payLoad, h, hpay⟩
  unfold Datagram.Accepted
  rw [hsome, hpay, ← hdrop, answered_one]
  rcases payload_cases d payLoad with ⟨hrefused, rc, d', hdec⟩ | ⟨hne, hblock, addr, d', hdec, hmsg'⟩
  · rw [hdec]
    exact ⟨⟨nofun, fun h => absurd ⟨h.1, h.2.1⟩ hrefused⟩, fun h => absurd ⟨h.1, h.2.1⟩ hrefused⟩
  · rw [hdec]
    rw [hmsg] at hmsg'
    have hcheck := check_payload (g := g) (m := d'.message) (by rw [hmsg']; rfl) (by rw [hmsg']; rfl)
      (by rw [hmsg']; rfl) (by rw [hmsg']; exact hne)
    refine ⟨⟨fun h => ⟨hne, hblock, hcheck.mp h⟩, fun h => hcheck.mpr h.2.2⟩, fun _ => ?_⟩
    dsimp only
    rw [hmsg']
    exact ⟨hnums, hvals, rfl⟩

/-- The sixteen bits have the true numbers iff the deltas are countable. -/
theorem countable_iff (hg : g.Taken t) :
    sumsMod 65536 0 (g.options.map fun o => (readBack t o.delta).toNat) =
        sums 0 (g.options.map (·.delta)) ↔ g.Countable t := by
  rw [sumsMod_eq_sums_iff _ _ (by decide), Nat.zero_add]
  unfold Datagram.Countable
  refine and_congr_left' ?_
  rw [not_and, not_exists]
  simp only [not_and]
  constructor
  · intro h hsigned o ho hhigh
    refine readBack_ne hsigned hhigh ((h o ho).trans (Nat.mod_eq_of_lt ?_))
    have := hhigh.2
    omega
  · intro h o ho
    have hle := (hg.options o ho).delta
    rw [readBack_eq fun hlost => h hlost.1 o ho hlost.2,
      UInt32.toNat_ofNat_of_lt' (by change _ < 2 ^ 32; omega)]

theorem val_infix {o : WireOption} (ho : o ∈ g.options) : o.val <:+: g.bytes := by
  have hoption : o.val <:+: wireBytes g.options := by
    have hval : o.val <:+: o.bytes :=
      ((List.suffix_append _ _).trans ((List.suffix_append _ _).trans
        (List.suffix_cons _ _))).isInfix
    obtain ⟨as, bs, has⟩ := List.append_of_mem ho
    have happ : wireBytes g.options = wireBytes as ++ (o.bytes ++ wireBytes bs) := by
      rw [has]
      simp [wireBytes]
    rw [happ]
    exact hval.trans ⟨wireBytes as, wireBytes bs, List.append_assoc _ _ _⟩
  exact hoption.trans ⟨g.first :: g.code :: g.id₀ :: g.id₁ :: g.token, g.tail, by
    simp [Datagram.bytes]⟩

theorem tail_suffix : g.tail <:+ g.bytes :=
  ⟨g.first :: g.code :: g.id₀ :: g.id₁ :: (g.token ++ wireBytes g.options), by
    simp [Datagram.bytes]⟩

/-- What is recorded of an accepted message whose deltas can be added. -/
theorem recorded_wire (hg : g.Taken t) (hoks : Answered oks (2 * g.options.length))
    (htail : g.tail ≠ []) (haccepted : g.Accepted oks) (hcount : g.Countable t) :
    Recorded t g.bytes (deserializeCoapMessage t ⟨.zero, heap, oks⟩ g.bytes).2.message := by
  obtain ⟨hnums, hvals, hpay⟩ := (accepted_wire heap hg hoks htail).2 haccepted
  rw [(countable_iff hg).mpr hcount] at hnums
  refine ⟨⟨g, hg, rfl, hnums⟩, ?_, fun op hop => ?_, ?_⟩
  · have hsorted := sums_ascending 0 (g.options.map (·.delta))
    rw [← hnums, List.pairwise_map] at hsorted
    exact hsorted.imp UInt16.le_iff_toNat_le.mpr
  · have hmem : op.val ∈ g.options.map (·.val) := hvals ▸ List.mem_map_of_mem hop
    obtain ⟨o, ho, heq⟩ := List.mem_map.mp hmem
    exact heq ▸ val_infix ho
  · refine List.IsSuffix.isInfix (List.IsSuffix.trans ?_ tail_suffix)
    rw [hpay]
    exact List.suffix_cons _ _

end

end QcloudIot.Coap
