import Mathlib.Algebra.GroupWithZero.Nat
import Mathlib.Tactic.Common
import QcloudIot.Lib.BlockHash
import QcloudIot.Lib.Memory
import QcloudIot.Lib.WordBytes

/-!
# A hash fed in pieces

A hash over blocks of 64 bytes that counts the bytes in two words and keeps those of the last block in
a buffer. It is closed by a padding and the number of bits in eight bytes.

* `HashStream.feed`, `PaddedHash.finish`: a piece, and the end;
* `HashStream.Holds`: the stream has absorbed exactly these bytes, each once and in order;
* `Holds.feed`, `holds_pieces`: what a piece adds, and what any pieces make;
* **`PaddedHash.finish_eq`**: the end gives the hash of the padded bytes, however they were fed;
* `hmac`: the keyed hash over it.
-/

namespace QcloudIot.Lib

variable {σ : Type*}

/-- The number of bytes in two words, the state after the whole blocks, and the buffer for the last. -/
structure HashStream (σ : Type*) where
  total0 : UInt32
  total1 : UInt32
  state : σ
  buffer : Memory UInt8

/-- Nothing fed yet. -/
def HashStream.fresh (start : σ) : HashStream σ := ⟨0, 0, start, fun _ => 0⟩

/-- A piece: what waits is filled up to a block, then whole blocks, and the rest waits. -/
def HashStream.feed (process : σ → List UInt8 → σ) (ctx : HashStream σ) (input : List UInt8) :
    HashStream σ :=
  if input = [] then ctx
  else
    let left := (ctx.total0 &&& 0x3F).toNat
    let fill := 64 - left
    let total0 := ctx.total0 + UInt32.ofNat input.length
    let total1 := if total0 < UInt32.ofNat input.length then ctx.total1 + 1 else ctx.total1
    if left ≠ 0 ∧ input.length ≥ fill then
      let buffer := ctx.buffer.store left (input.take fill)
      let r := absorb process 64 (process ctx.state (buffer.load 0 64)) (input.drop fill)
      ⟨total0, total1, r.1, buffer.store 0 r.2⟩
    else
      let r := absorb process 64 ctx.state input
      ⟨total0, total1, r.1, ctx.buffer.store left r.2⟩

/-! ## The count of the bytes -/

/-- `total[0] & 0x3F`: the bytes that wait for their block. -/
theorem left_eq (n : Nat) : (UInt32.ofNat n &&& 0x3F).toNat = n % 64 := by
  have hmask := Nat.and_two_pow_sub_one_eq_mod (n % 2 ^ 32) 6
  rw [Nat.mod_mod_of_dvd n (by decide : 2 ^ 6 ∣ 2 ^ 32)] at hmask
  rw [UInt32.toNat_and, UInt32.toNat_ofNat']
  exact hmask

theorem total0_add (n k : Nat) : UInt32.ofNat n + UInt32.ofNat k = UInt32.ofNat (n + k) :=
  (UInt32.ofNat_add n k).symm

/-- The carry of the byte count. -/
theorem total1_add (n : Nat) {k : Nat} (hk : k < 2 ^ 32) :
    (if UInt32.ofNat (n + k) < UInt32.ofNat k then UInt32.ofNat (n / 2 ^ 32) + 1
      else UInt32.ofNat (n / 2 ^ 32)) = UInt32.ofNat ((n + k) / 2 ^ 32) := by
  have hlt : UInt32.ofNat (n + k) < UInt32.ofNat k ↔ (n + k) % 2 ^ 32 < k := by
    rw [UInt32.lt_iff_toNat_lt, UInt32.toNat_ofNat', UInt32.toNat_ofNat', Nat.mod_eq_of_lt hk]
  by_cases h : (n + k) % 2 ^ 32 < k
  · rw [if_pos (hlt.mpr h), show (n + k) / 2 ^ 32 = n / 2 ^ 32 + 1 by omega, UInt32.ofNat_add]
    rfl
  · rw [if_neg (hlt.not.mpr h), show (n + k) / 2 ^ 32 = n / 2 ^ 32 by omega]

/-- The low word of the number of bits. -/
theorem bits_low (n : Nat) : UInt32.ofNat n <<< 3 = UInt32.ofNat (8 * n) := by
  refine UInt32.toNat_inj.mp ?_
  rw [UInt32.toNat_shiftLeft, UInt32.toNat_ofNat', UInt32.toNat_ofNat', Nat.shiftLeft_eq]
  change n % 2 ^ 32 * 2 ^ 3 % 2 ^ 32 = _
  omega

/-- The high word. -/
theorem bits_high (n : Nat) :
    UInt32.ofNat n >>> 29 ||| UInt32.ofNat (n / 2 ^ 32) <<< 3 = UInt32.ofNat (8 * n / 2 ^ 32) := by
  refine UInt32.toNat_inj.mp ?_
  have hlow : (UInt32.ofNat n >>> 29).toNat = n % 2 ^ 32 / 2 ^ 29 := by
    rw [UInt32.toNat_shiftRight, UInt32.toNat_ofNat', Nat.shiftRight_eq_div_pow]
    rfl
  have hhigh : (UInt32.ofNat (n / 2 ^ 32) <<< 3).toNat = (n / 2 ^ 32 % 2 ^ 29) <<< 3 := by
    rw [UInt32.toNat_shiftLeft, UInt32.toNat_ofNat', Nat.shiftLeft_eq, Nat.shiftLeft_eq]
    change n / 2 ^ 32 % 2 ^ 32 * 2 ^ 3 % 2 ^ 32 = _
    omega
  rw [UInt32.toNat_or, hlow, hhigh, or_shiftLeft (by omega), UInt32.toNat_ofNat']
  omega

/-! ## What a stream has absorbed -/

/-- The stream has absorbed exactly these bytes, each once and in order. -/
structure HashStream.Holds (process : σ → List UInt8 → σ) (start : σ) (ctx : HashStream σ)
    (bs : List UInt8) : Prop where
  total0 : ctx.total0 = UInt32.ofNat bs.length
  total1 : ctx.total1 = UInt32.ofNat (bs.length / 2 ^ 32)
  state : ctx.state = (absorb process 64 start bs).1
  buffer : ctx.buffer.load 0 (bs.length % 64) = (absorb process 64 start bs).2

variable {process : σ → List UInt8 → σ} {start : σ}

/-- A waiting block that the input fills goes first. -/
theorem absorb_filled {bs input : List UInt8} (hge : 64 - bs.length % 64 ≤ input.length) :
    absorb process 64 start (bs ++ input) =
      absorb process 64 (process (absorb process 64 start bs).1
        ((absorb process 64 start bs).2 ++ input.take (64 - bs.length % 64)))
        (input.drop (64 - bs.length % 64)) := by
  have hrest : (absorb process 64 start bs).2.length = bs.length % 64 :=
    length_absorb_rest (by decide) start bs
  have hmod : bs.length % 64 < 64 := Nat.mod_lt _ (by decide)
  refine (absorb_append (by decide) _ _ _).trans ((absorb_of_ge (by decide) ?_).trans ?_)
  · rw [List.length_append, hrest]
    omega
  · rw [List.take_append, List.drop_append, hrest, List.take_of_length_le (by omega),
      List.drop_eq_nil_of_le (by omega), List.nil_append]

/-- Nothing waits, or the input does not fill the block. -/
theorem absorb_unfilled (process : σ → List UInt8 → σ) (start : σ) {bs input : List UInt8}
    (h : bs.length % 64 = 0 ∨ input.length < 64 - bs.length % 64) :
    absorb process 64 start (bs ++ input) =
      ((absorb process 64 (absorb process 64 start bs).1 input).1,
        (absorb process 64 start bs).2 ++ (absorb process 64 (absorb process 64 start bs).1 input).2) := by
  have hrest : (absorb process 64 start bs).2.length = bs.length % 64 :=
    length_absorb_rest (by decide) start bs
  refine (absorb_append (by decide) _ _ _).trans ?_
  rcases h with hzero | hshort
  · rw [List.eq_nil_of_length_eq_zero (hrest.trans hzero)]
    rfl
  · have hkept : absorb process 64 (absorb process 64 start bs).1 input =
        ((absorb process 64 start bs).1, input) := absorb_of_lt (by omega)
    rw [absorb_of_lt (by rw [List.length_append, hrest]; omega), hkept]

/-- **What a piece adds.** -/
theorem HashStream.Holds.feed {ctx : HashStream σ} {bs : List UInt8} (h : ctx.Holds process start bs)
    {input : List UInt8} (hlen : input.length < 2 ^ 32) :
    (ctx.feed process input).Holds process start (bs ++ input) := by
  have hold : (absorb process 64 start bs).2.length = bs.length % 64 :=
    length_absorb_rest (by decide) start bs
  have hnew : (absorb process 64 start (bs ++ input)).2.length = (bs ++ input).length % 64 :=
    length_absorb_rest (by decide) start (bs ++ input)
  have hleft : (ctx.total0 &&& 0x3F).toNat = bs.length % 64 := by rw [h.total0, left_eq]
  have htotal0 : ctx.total0 + UInt32.ofNat input.length =
      UInt32.ofNat (bs ++ input).length := by
    rw [h.total0, total0_add, List.length_append]
  have htotal1 := total1_add bs.length hlen
  rw [← h.total1, ← List.length_append, ← htotal0] at htotal1
  unfold HashStream.feed
  split
  · rename_i hnil
    rw [hnil, List.append_nil]
    exact h
  simp only
  rw [hleft]
  split
  · rename_i hfill
    obtain ⟨-, hge⟩ := hfill
    have htake : (input.take (64 - bs.length % 64)).length = 64 - bs.length % 64 := by
      rw [List.length_take]
      omega
    have hfull := Memory.load_store_append h.buffer (input.take (64 - bs.length % 64))
    rw [htake, Nat.zero_add, show bs.length % 64 + (64 - bs.length % 64) = 64 by omega] at hfull
    rw [hfull, h.state, ← absorb_filled hge]
    refine ⟨htotal0, htotal1, rfl, ?_⟩
    rw [← hnew]
    exact Memory.load_store (ctx.buffer.store _ _) 0 _
  · rename_i hfill
    have hunfilled : bs.length % 64 = 0 ∨ input.length < 64 - bs.length % 64 := by omega
    have habsorb := absorb_unfilled process start hunfilled
    rw [← h.state] at habsorb
    refine ⟨htotal0, htotal1, (congrArg Prod.fst habsorb).symm, ?_⟩
    have hload := Memory.load_store_append h.buffer (absorb process 64 ctx.state input).2
    rw [Nat.zero_add] at hload
    have hlength : (bs ++ input).length % 64 =
        bs.length % 64 + (absorb process 64 ctx.state input).2.length := by
      rw [← hnew, congrArg Prod.snd habsorb, List.length_append, hold]
    rw [hlength, hload]
    exact (congrArg Prod.snd habsorb).symm

/-- Any pieces. -/
theorem holds_pieces {ctx : HashStream σ} {bs : List UInt8} (h : ctx.Holds process start bs)
    {pieces : List (List UInt8)} (hlen : ∀ p ∈ pieces, p.length < 2 ^ 32) :
    (pieces.foldl (HashStream.feed process) ctx).Holds process start (bs ++ pieces.flatten) := by
  induction pieces generalizing ctx bs with
  | nil => rwa [List.flatten_nil, List.append_nil]
  | cons p pieces ih =>
    obtain ⟨hp, hlen⟩ := List.forall_mem_cons.mp hlen
    rw [List.foldl_cons, List.flatten_cons, ← List.append_assoc]
    exact ih (h.feed hp) hlen

/-! ## The end -/

/-- A hash: its compression, how the number of bits is written, by its high word and its low one, and
what is made of the last state. -/
structure PaddedHash (σ : Type*) where
  process : σ → List UInt8 → σ
  start : σ
  count : (high low : UInt32) → List UInt8
  output : σ → List UInt8
  length_count : ∀ high low, (count high low).length = 8

/-- What the padding is cut from. -/
def hashPadding : List UInt8 := 0x80 :: List.replicate 63 0

namespace PaddedHash

variable (h : PaddedHash σ)

/-- The padding, and the number of bits. -/
def finish (ctx : HashStream σ) : HashStream σ :=
  let high := ctx.total0 >>> 29 ||| ctx.total1 <<< 3
  let low := ctx.total0 <<< 3
  let last := (ctx.total0 &&& 0x3F).toNat
  let padn := if last < 56 then 56 - last else 120 - last
  let ctx := ctx.feed h.process (hashPadding.take padn)
  ctx.feed h.process (h.count high low)

/-- The bytes with a one bit, as many zeros as leave eight bytes in the last block, and the number of
bits in these. -/
def padded (bs : List UInt8) : List UInt8 :=
  bs ++ (0x80 :: List.replicate ((119 - bs.length % 64) % 64) 0) ++
    h.count (UInt32.ofNat (8 * bs.length / 2 ^ 32)) (UInt32.ofNat (8 * bs.length))

/-- The hash of bytes. -/
def hash (bs : List UInt8) : List UInt8 :=
  h.output (absorb h.process 64 h.start (h.padded bs)).1

theorem padding_take (n : Nat) : hashPadding.take (if n % 64 < 56 then 56 - n % 64 else 120 - n % 64) =
    0x80 :: List.replicate ((119 - n % 64) % 64) 0 := by
  obtain ⟨k, hk, hcount, hk63⟩ : ∃ k, (if n % 64 < 56 then 56 - n % 64 else 120 - n % 64) = k + 1 ∧
      (119 - n % 64) % 64 = k ∧ k ≤ 63 := by
    refine ⟨(119 - n % 64) % 64, ?_, rfl, by omega⟩
    split <;> omega
  rw [hk, hcount, hashPadding, List.take_succ_cons, List.take_replicate, Nat.min_eq_left hk63]

/-- **The end** gives the hash of the bytes, however they were fed. -/
theorem finish_eq {ctx : HashStream σ} {bs : List UInt8} (hctx : ctx.Holds h.process h.start bs) :
    h.output (h.finish ctx).state = h.hash bs := by
  have hpad : (0x80 :: List.replicate ((119 - bs.length % 64) % 64) (0 : UInt8)).length < 2 ^ 32 := by
    rw [List.length_cons, List.length_replicate]
    omega
  have hcount : ∀ high low, (h.count high low).length < 2 ^ 32 := fun high low => by
    rw [h.length_count]
    decide
  have hclosed := (hctx.feed hpad).feed (hcount (UInt32.ofNat (8 * bs.length / 2 ^ 32))
    (UInt32.ofNat (8 * bs.length)))
  rw [finish]
  rw [hctx.total0, hctx.total1, left_eq, bits_high, bits_low, padding_take, hclosed.state, hash, padded]

end PaddedHash

/-! ## A keyed hash -/

/-- The key of a block: a long one is hashed, and zeros fill it up. -/
def blockKey (hash : List UInt8 → List UInt8) (key : List UInt8) : List UInt8 :=
  let key := if key.length ≤ 64 then key else hash key
  key ++ List.replicate (64 - key.length) 0

/-- HMAC over a hash with blocks of 64 bytes. -/
def hmac (hash : List UInt8 → List UInt8) (key msg : List UInt8) : List UInt8 :=
  hash ((blockKey hash key).map (· ^^^ 0x5C) ++ hash ((blockKey hash key).map (· ^^^ 0x36) ++ msg))

end QcloudIot.Lib
