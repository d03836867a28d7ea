import QcloudIot.Utils.AesTables
import QcloudIot.Utils.Md5

/-!
# AES on one block

The key schedules and the block functions of `utils_aes.c`, in the build that computes its tables. A
context holds the number of rounds and `buf`, at which `rk` points; cells of it from 68 on are the memory
behind. The tables are static and filled by the first `utils_aes_setkey_enc`.

* `AesStatics.Reachable.right`: after any calls the tables are there once they are marked as there;
* `utilsAesSetkeyEnc_spec`, `utilsAesSetkeyDec_spec`: the round keys in `buf`, and nothing behind it;
* **`utilsInternalAesEncrypt_eq`**, **`utilsInternalAesDecrypt_eq`**: the cipher, and the cipher back;
* **`utilsInternalAesDecrypt_encrypt`**: a block comes out again, for every key of the three lengths.
-/

namespace QcloudIot.Utils.Aes

open Lib Lib.Rijndael

/-! ## Contexts and key schedules -/

/-- `UTILS_ERR_AES_INVALID_KEY_LENGTH`. -/
def utilsErrAesInvalidKeyLength : Int := -0x0020

/-- The tables, and `aes_init_done`. -/
structure AesStatics where
  tables : AesTables
  initDone : Bool

/-- `utils_aes_context`. -/
structure AesContext where
  nr : Nat
  buf : Nat → UInt32

/-- A word of `buf` written. -/
def AesContext.set (ctx : AesContext) (i : Nat) (v : UInt32) : AesContext :=
  { ctx with buf := Function.update ctx.buf i v }

theorem AesContext.set_self (ctx : AesContext) (i : Nat) (v : UInt32) : (ctx.set i v).buf i = v := by
  simp [AesContext.set]

theorem AesContext.set_of_ne (ctx : AesContext) {i a : Nat} (v : UInt32) (h : a ≠ i) :
    (ctx.set i v).buf a = ctx.buf a := by
  simp [AesContext.set, h]

/-- `utils_aes_init`, and `utils_aes_free`. -/
def utilsAesInit (ctx : AesContext) : AesContext := ⟨0, fun i => if i < 68 then 0 else ctx.buf i⟩

/-- `(x >> s) & 0xFF`, as an index. -/
def index (x s : UInt32) : Nat := ((x >>> s) &&& 0xFF).toNat

/-- A word of a key schedule through the box, turned by a byte. -/
def boxTurned (t : AesTables) (x : UInt32) : UInt32 :=
  (t.fsb (index x 8)).toUInt32 ^^^ (t.fsb (index x 16)).toUInt32 <<< 8 ^^^
    (t.fsb (index x 24)).toUInt32 <<< 16 ^^^ (t.fsb (index x 0)).toUInt32 <<< 24

/-- A word of a key schedule through the box. -/
def boxed (t : AesTables) (x : UInt32) : UInt32 :=
  (t.fsb (index x 0)).toUInt32 ^^^ (t.fsb (index x 8)).toUInt32 <<< 8 ^^^
    (t.fsb (index x 16)).toUInt32 <<< 16 ^^^ (t.fsb (index x 24)).toUInt32 <<< 24

/-- `case 10`, with `RK` at `4 * i`. -/
def turn128 (t : AesTables) (i : Nat) (c : AesContext) : AesContext :=
  let rk := 4 * i
  let c := c.set (rk + 4) (c.buf rk ^^^ t.rcon i ^^^ boxTurned t (c.buf (rk + 3)))
  let c := c.set (rk + 5) (c.buf (rk + 1) ^^^ c.buf (rk + 4))
  let c := c.set (rk + 6) (c.buf (rk + 2) ^^^ c.buf (rk + 5))
  c.set (rk + 7) (c.buf (rk + 3) ^^^ c.buf (rk + 6))

/-- `case 12`, with `RK` at `6 * i`. -/
def turn192 (t : AesTables) (i : Nat) (c : AesContext) : AesContext :=
  let rk := 6 * i
  let c := c.set (rk + 6) (c.buf rk ^^^ t.rcon i ^^^ boxTurned t (c.buf (rk + 5)))
  let c := c.set (rk + 7) (c.buf (rk + 1) ^^^ c.buf (rk + 6))
  let c := c.set (rk + 8) (c.buf (rk + 2) ^^^ c.buf (rk + 7))
  let c := c.set (rk + 9) (c.buf (rk + 3) ^^^ c.buf (rk + 8))
  let c := c.set (rk + 10) (c.buf (rk + 4) ^^^ c.buf (rk + 9))
  c.set (rk + 11) (c.buf (rk + 5) ^^^ c.buf (rk + 10))

/-- `case 14`, with `RK` at `8 * i`. -/
def turn256 (t : AesTables) (i : Nat) (c : AesContext) : AesContext :=
  let rk := 8 * i
  let c := c.set (rk + 8) (c.buf rk ^^^ t.rcon i ^^^ boxTurned t (c.buf (rk + 7)))
  let c := c.set (rk + 9) (c.buf (rk + 1) ^^^ c.buf (rk + 8))
  let c := c.set (rk + 10) (c.buf (rk + 2) ^^^ c.buf (rk + 9))
  let c := c.set (rk + 11) (c.buf (rk + 3) ^^^ c.buf (rk + 10))
  let c := c.set (rk + 12) (c.buf (rk + 4) ^^^ boxed t (c.buf (rk + 11)))
  let c := c.set (rk + 13) (c.buf (rk + 5) ^^^ c.buf (rk + 12))
  let c := c.set (rk + 14) (c.buf (rk + 6) ^^^ c.buf (rk + 13))
  c.set (rk + 15) (c.buf (rk + 7) ^^^ c.buf (rk + 14))

/-- The tables computed by the first schedule; `pow` and `log` are what stands in the arrays then. -/
def genTablesOnce (pow log : Nat → Nat) (s : AesStatics) : AesStatics :=
  if s.initDone = false then ⟨aesGenTables pow log s.tables, true⟩ else s

/-- `utils_aes_setkey_enc`; `pow` and `log` are what stands in the arrays of `aes_gen_tables`. -/
def utilsAesSetkeyEnc (pow log : Nat → Nat) (s : AesStatics) (ctx : AesContext) (key : Bytes)
    (keybits : Nat) : Int × AesStatics × AesContext :=
  let rounds := if keybits = 128 then some 10 else if keybits = 192 then some 12
    else if keybits = 256 then some 14 else none
  match rounds with
  | none => (utilsErrAesInvalidKeyLength, s, ctx)
  | some nr =>
    let s := genTablesOnce pow log s
    let c := forTo (keybits >>> 5) (fun i c => c.set i (getUint32Le key (i <<< 2))) { ctx with nr := nr }
    let c := if nr = 10 then forTo 10 (turn128 s.tables) c
      else if nr = 12 then forTo 8 (turn192 s.tables) c
      else forTo 7 (turn256 s.tables) c
    (0, s, c)

/-- A word of the schedule back: the box and the tables of a round back mix it. -/
def unmixed (t : AesTables) (x : UInt32) : UInt32 :=
  t.rt0 (t.fsb (index x 0)).toNat ^^^ t.rt1 (t.fsb (index x 8)).toNat ^^^
    t.rt2 (t.fsb (index x 16)).toNat ^^^ t.rt3 (t.fsb (index x 24)).toNat

/-- Four words written at `rk`. -/
def fourWords (rk : Nat) (word : Nat → UInt32) (c : AesContext) : AesContext :=
  forTo 4 (fun j c => c.set (rk + j) (word j)) c

/-- `utils_aes_setkey_dec`; `cty` is what stands on the stack. -/
def utilsAesSetkeyDec (pow log : Nat → Nat) (s : AesStatics) (cty ctx : AesContext) (key : Bytes)
    (keybits : Nat) : Int × AesStatics × AesContext :=
  let (ret, s, cty) := utilsAesSetkeyEnc pow log s (utilsAesInit cty) key keybits
  if ret ≠ 0 then (ret, s, ctx)
  else
    let nr := cty.nr
    let c := fourWords 0 (fun j => cty.buf (4 * nr + j)) { ctx with nr := nr }
    -- `SK` goes back by one round key each turn
    let c := forTo (nr - 1) (fun g => fourWords (4 * (g + 1)) fun j =>
      unmixed s.tables (cty.buf (4 * (nr - (g + 1)) + j))) c
    (0, s, fourWords (4 * nr) (fun j => cty.buf j) c)

/-! ## Blocks -/

/-- `X0` to `X3`, or `Y0` to `Y3`. -/
structure Quad where
  x0 : UInt32
  x1 : UInt32
  x2 : UInt32
  x3 : UInt32

/-- A line of `AES_FROUND`. -/
def froundWord (t : AesTables) (rk y0 y1 y2 y3 : UInt32) : UInt32 :=
  rk ^^^ t.ft0 (index y0 0) ^^^ t.ft1 (index y1 8) ^^^ t.ft2 (index y2 16) ^^^ t.ft3 (index y3 24)

/-- `AES_FROUND`, with `RK` at `rk`. -/
def aesFround (t : AesTables) (b : Nat → UInt32) (rk : Nat) (y : Quad) : Quad where
  x0 := froundWord t (b rk) y.x0 y.x1 y.x2 y.x3
  x1 := froundWord t (b (rk + 1)) y.x1 y.x2 y.x3 y.x0
  x2 := froundWord t (b (rk + 2)) y.x2 y.x3 y.x0 y.x1
  x3 := froundWord t (b (rk + 3)) y.x3 y.x0 y.x1 y.x2

/-- A line of `AES_RROUND`. -/
def rroundWord (t : AesTables) (rk y0 y1 y2 y3 : UInt32) : UInt32 :=
  rk ^^^ t.rt0 (index y0 0) ^^^ t.rt1 (index y1 8) ^^^ t.rt2 (index y2 16) ^^^ t.rt3 (index y3 24)

/-- `AES_RROUND`, with `RK` at `rk`. -/
def aesRround (t : AesTables) (b : Nat → UInt32) (rk : Nat) (y : Quad) : Quad where
  x0 := rroundWord t (b rk) y.x0 y.x3 y.x2 y.x1
  x1 := rroundWord t (b (rk + 1)) y.x1 y.x0 y.x3 y.x2
  x2 := rroundWord t (b (rk + 2)) y.x2 y.x1 y.x0 y.x3
  x3 := rroundWord t (b (rk + 3)) y.x3 y.x2 y.x1 y.x0

/-- A line of the last round, through `FSb` or `RSb`. -/
def lastWord (box : Nat → UInt8) (rk y0 y1 y2 y3 : UInt32) : UInt32 :=
  rk ^^^ (box (index y0 0)).toUInt32 ^^^ (box (index y1 8)).toUInt32 <<< 8 ^^^
    (box (index y2 16)).toUInt32 <<< 16 ^^^ (box (index y3 24)).toUInt32 <<< 24

/-- The block read, with the first round key added. -/
def readBlock (b : Nat → UInt32) (input : Bytes) : Quad where
  x0 := getUint32Le input 0 ^^^ b 0
  x1 := getUint32Le input 4 ^^^ b 1
  x2 := getUint32Le input 8 ^^^ b 2
  x3 := getUint32Le input 12 ^^^ b 3

/-- The block written. -/
def writeBlock (x : Quad) : Bytes :=
  putUint32Le x.x0 ++ putUint32Le x.x1 ++ putUint32Le x.x2 ++ putUint32Le x.x3

/-- The rounds before the last: pairs of them, from `X` to `Y` and back, and one more. -/
def middleRounds (round : Nat → Quad → Quad) (nr : Nat) (x : Quad) : Quad :=
  let pairs := (nr >>> 1) - 1
  let x := forTo pairs (fun i x => round (4 + 8 * i + 4) (round (4 + 8 * i) x)) x
  round (4 + 8 * pairs) x

/-- `utils_internal_aes_encrypt`: the bytes of `output`. -/
def utilsInternalAesEncrypt (t : AesTables) (ctx : AesContext) (input : Bytes) : Bytes :=
  let y := middleRounds (aesFround t ctx.buf) ctx.nr (readBlock ctx.buf input)
  let rk := 4 * ctx.nr
  writeBlock {
    x0 := lastWord t.fsb (ctx.buf rk) y.x0 y.x1 y.x2 y.x3
    x1 := lastWord t.fsb (ctx.buf (rk + 1)) y.x1 y.x2 y.x3 y.x0
    x2 := lastWord t.fsb (ctx.buf (rk + 2)) y.x2 y.x3 y.x0 y.x1
    x3 := lastWord t.fsb (ctx.buf (rk + 3)) y.x3 y.x0 y.x1 y.x2 }

/-- `utils_internal_aes_decrypt`. -/
def utilsInternalAesDecrypt (t : AesTables) (ctx : AesContext) (input : Bytes) : Bytes :=
  let y := middleRounds (aesRround t ctx.buf) ctx.nr (readBlock ctx.buf input)
  let rk := 4 * ctx.nr
  writeBlock {
    x0 := lastWord t.rsb (ctx.buf rk) y.x0 y.x3 y.x2 y.x1
    x1 := lastWord t.rsb (ctx.buf (rk + 1)) y.x1 y.x0 y.x3 y.x2
    x2 := lastWord t.rsb (ctx.buf (rk + 2)) y.x2 y.x1 y.x0 y.x3
    x3 := lastWord t.rsb (ctx.buf (rk + 3)) y.x3 y.x2 y.x1 y.x0 }

/-! ## Words and bytes -/

/-- The words of a state. -/
def quad (s : State) : Quad := ⟨word (s 0), word (s 1), word (s 2), word (s 3)⟩

/-- The state of sixteen bytes. -/
def stateOf (b : Bytes) : State := fun j r => b.getD (4 * j + r) 0

/-- The bytes of a state. -/
def bytesOf (s : State) : Bytes := (List.finRange 4).flatMap fun j => (List.finRange 4).map (s j)

/-- The words of a key. -/
def keyColumns (key : Bytes) (i : Nat) : Column := fun r => key.getD (4 * i + r) 0

theorem index_toNat (x s : UInt32) : index x s = (x >>> s).toUInt8.toNat := by
  rw [index, UInt32.toNat_and, UInt32.toNat_toUInt8]
  exact Nat.and_two_pow_sub_one_eq_mod (x >>> s).toNat 8

theorem index_word (c : Column) : index (word c) 0 = (c 0).toNat ∧ index (word c) 8 = (c 1).toNat ∧
    index (word c) 16 = (c 2).toNat ∧ index (word c) 24 = (c 3).toNat := by
  have hbyte : ∀ r, (byteOf (word c) r).toNat = (c r).toNat := fun r => by rw [byteOf_word]
  refine ⟨?_, (index_toNat _ _).trans (hbyte 1), (index_toNat _ _).trans (hbyte 2),
    (index_toNat _ _).trans (hbyte 3)⟩
  rw [index_toNat, UInt32.shiftRight_zero]
  exact hbyte 0

theorem getUint32Le_eq (b : Bytes) (i : Nat) :
    getUint32Le b i = word fun r => b.getD (i + r) 0 := rfl

theorem putUint32Le_word (c : Column) : putUint32Le (word c) = (List.finRange 4).map c := by
  have hbytes : putUint32Le (word c) = (List.finRange 4).map (byteOf (word c)) := rfl
  rw [hbytes, byteOf_word]

theorem writeBlock_quad (s : State) : writeBlock (quad s) = bytesOf s := by
  rw [writeBlock, quad, putUint32Le_word, putUint32Le_word, putUint32Le_word, putUint32Le_word]
  rfl

@[simp] theorem length_bytesOf (s : State) : (bytesOf s).length = 16 := rfl

@[simp] theorem stateOf_bytesOf (s : State) : stateOf (bytesOf s) = s := by
  funext j r
  revert j
  apply forall_place <;> revert r <;> apply forall_place <;> rfl

theorem bytesOf_stateOf : ∀ {b : Bytes}, b.length = 16 → bytesOf (stateOf b) = b
  | [_, _, _, _, _, _, _, _, _, _, _, _, _, _, _, _], _ => rfl

/-! ## The key schedule -/

variable {t : AesTables}

theorem boxTurned_word (ht : t.Right) (c : Column) :
    boxTurned t (word c) = word fun r => sbox (c (r + 1)) := by
  obtain ⟨h0, h1, h2, h3⟩ := index_word c
  rw [boxTurned, h0, h1, h2, h3, ht.fsb, ht.fsb, ht.fsb, ht.fsb, word_eq_xor]
  rfl

theorem boxed_word (ht : t.Right) (c : Column) : boxed t (word c) = word fun r => sbox (c r) := by
  obtain ⟨h0, h1, h2, h3⟩ := index_word c
  rw [boxed, h0, h1, h2, h3, ht.fsb, ht.fsb, ht.fsb, ht.fsb, word_eq_xor]

/-- The words up to an index are those of the schedule, and everything else is as it was. -/
structure Scheduled (nk : Nat) (key : Nat → Column) (c₀ : AesContext) (n : Nat)
    (c : AesContext) : Prop where
  words : ∀ i < n, c.buf i = word (keyWord nk key i)
  rest : ∀ i, n ≤ i → c.buf i = c₀.buf i
  nr : c.nr = c₀.nr

section Schedule

variable {nk n a d i : Nat} {key : Nat → Column} {c₀ c : AesContext}

theorem Scheduled.next (h : Scheduled nk key c₀ n c) {v : UInt32} (hv : v = word (keyWord nk key n)) :
    Scheduled nk key c₀ (n + 1) (c.set n v) := by
  refine ⟨fun i hi => ?_, fun i hi => ?_, h.nr⟩
  · by_cases heq : i = n
    · rw [heq, AesContext.set_self, hv]
    · rw [AesContext.set_of_ne _ _ heq, h.words i (by omega)]
  · rw [AesContext.set_of_ne _ _ (by omega), h.rest i (by omega)]

/-- The first word of a turn. -/
theorem Scheduled.first (h : Scheduled nk key c₀ n c) (ht : t.Right) (hnk : 0 < nk) (hi : i < 10)
    (hn : n = nk * i + nk) (ha : a = nk * i) (hd : d + 1 = n) :
    Scheduled nk key c₀ (n + 1) (c.set n (c.buf a ^^^ t.rcon i ^^^ boxTurned t (c.buf d))) := by
  refine h.next ?_
  have hmod : n % nk = 0 := by rw [hn, Nat.mul_add_mod_self_left, Nat.mod_self]
  have hdiv : n / nk - 1 = i := by
    rw [hn, Nat.add_div_right _ hnk, Nat.mul_div_cancel_left _ hnk, Nat.succ_sub_one]
  have hrcon : (Rijndael.rcon i).toUInt32 = word fun r => if r = 0 then Rijndael.rcon i else 0 := by
    simp [word]
  rw [h.words a (by omega), h.words d (by omega), boxTurned_word ht, ht.rcon i hi, hrcon,
    keyWord_of_ge (i := n) hnk (by omega), show n - nk = a by omega, show n - 1 = d by omega,
    scheduleCore, if_pos hmod, hdiv, ← word_xor, ← word_xor]
  refine congrArg word (funext fun r => ?_)
  simp only [addColumn]
  ac_rfl

/-- A word that is the sum of two. -/
theorem Scheduled.sum (h : Scheduled nk key c₀ n c) (hnk : 0 < nk) (ha : a + nk = n) (hd : d + 1 = n)
    (hmod : n % nk ≠ 0) (hsix : ¬ (6 < nk ∧ n % nk = 4)) :
    Scheduled nk key c₀ (n + 1) (c.set n (c.buf a ^^^ c.buf d)) := by
  refine h.next ?_
  rw [h.words a (by omega), h.words d (by omega), keyWord_of_ge (i := n) hnk (by omega), scheduleCore,
    if_neg hmod, if_neg hsix, show n - nk = a by omega, show n - 1 = d by omega]
  exact (word_xor _ _).symm

/-- The word in the middle of a turn for a long key. -/
theorem Scheduled.boxed (h : Scheduled nk key c₀ n c) (ht : t.Right) (ha : a + nk = n)
    (hd : d + 1 = n) (hsix : 6 < nk) (hmod : n % nk = 4) :
    Scheduled nk key c₀ (n + 1) (c.set n (c.buf a ^^^ Aes.boxed t (c.buf d))) := by
  refine h.next ?_
  rw [h.words a (by omega), h.words d (by omega), boxed_word ht, keyWord_of_ge (i := n) (by omega)
    (by omega), scheduleCore, if_neg (by omega), if_pos ⟨hsix, hmod⟩, show n - nk = a by omega,
    show n - 1 = d by omega]
  exact (word_xor _ _).symm

theorem turn128_spec (ht : t.Right) (hi : i < 10) (h : Scheduled 4 key c₀ (4 * i + 4) c) :
    Scheduled 4 key c₀ (4 * (i + 1) + 4) (turn128 t i c) := by
  have h0 := h.first ht (by omega) hi rfl rfl (show 4 * i + 3 + 1 = 4 * i + 4 by omega)
  have h1 := h0.sum (a := 4 * i + 1) (by omega) (by omega) rfl (by omega) (by omega)
  have h2 := h1.sum (a := 4 * i + 2) (by omega) (by omega) rfl (by omega) (by omega)
  exact h2.sum (a := 4 * i + 3) (by omega) (by omega) rfl (by omega) (by omega)

theorem turn192_spec (ht : t.Right) (hi : i < 10) (h : Scheduled 6 key c₀ (6 * i + 6) c) :
    Scheduled 6 key c₀ (6 * (i + 1) + 6) (turn192 t i c) := by
  have h0 := h.first ht (by omega) hi rfl rfl (show 6 * i + 5 + 1 = 6 * i + 6 by omega)
  have h1 := h0.sum (a := 6 * i + 1) (by omega) (by omega) rfl (by omega) (by omega)
  have h2 := h1.sum (a := 6 * i + 2) (by omega) (by omega) rfl (by omega) (by omega)
  have h3 := h2.sum (a := 6 * i + 3) (by omega) (by omega) rfl (by omega) (by omega)
  have h4 := h3.sum (a := 6 * i + 4) (by omega) (by omega) rfl (by omega) (by omega)
  exact h4.sum (a := 6 * i + 5) (by omega) (by omega) rfl (by omega) (by omega)

theorem turn256_spec (ht : t.Right) (hi : i < 10) (h : Scheduled 8 key c₀ (8 * i + 8) c) :
    Scheduled 8 key c₀ (8 * (i + 1) + 8) (turn256 t i c) := by
  have h0 := h.first ht (by omega) hi rfl rfl (show 8 * i + 7 + 1 = 8 * i + 8 by omega)
  have h1 := h0.sum (a := 8 * i + 1) (by omega) (by omega) rfl (by omega) (by omega)
  have h2 := h1.sum (a := 8 * i + 2) (by omega) (by omega) rfl (by omega) (by omega)
  have h3 := h2.sum (a := 8 * i + 3) (by omega) (by omega) rfl (by omega) (by omega)
  have h4 := h3.boxed ht (a := 8 * i + 4) (by omega) rfl (by omega) (by omega)
  have h5 := h4.sum (a := 8 * i + 5) (by omega) (by omega) rfl (by omega) (by omega)
  have h6 := h5.sum (a := 8 * i + 6) (by omega) (by omega) rfl (by omega) (by omega)
  exact h6.sum (a := 8 * i + 7) (by omega) (by omega) rfl (by omega) (by omega)

end Schedule

/-! ## The statics -/

/-- What the calls of the file do with its statics, from the start of the program on. -/
inductive AesStatics.Reachable : AesStatics → Prop
  | start (tables : AesTables) : Reachable ⟨tables, false⟩
  | enc {s : AesStatics} (h : Reachable s) (pow log : Nat → Nat) (ctx : AesContext) (key : Bytes)
      (keybits : Nat) : Reachable (utilsAesSetkeyEnc pow log s ctx key keybits).2.1
  | dec {s : AesStatics} (h : Reachable s) (pow log : Nat → Nat) (cty ctx : AesContext) (key : Bytes)
      (keybits : Nat) : Reachable (utilsAesSetkeyDec pow log s cty ctx key keybits).2.1

/-- The tables are right once they are marked as computed. -/
def AesStatics.Ready (s : AesStatics) : Prop := s.initDone = true → s.tables.Right

/-- The schedule back does with the statics what the schedule does. -/
theorem utilsAesSetkeyDec_statics (pow log : Nat → Nat) (s : AesStatics) (cty ctx : AesContext)
    (key : Bytes) (keybits : Nat) : (utilsAesSetkeyDec pow log s cty ctx key keybits).2.1 =
      (utilsAesSetkeyEnc pow log s (utilsAesInit cty) key keybits).2.1 := by
  rw [utilsAesSetkeyDec]
  simp only
  split
  · rfl
  · rfl

theorem AesStatics.Ready.once {s : AesStatics} (h : s.Ready) (pow log : Nat → Nat) :
    (genTablesOnce pow log s).initDone = true ∧ (genTablesOnce pow log s).tables.Right := by
  unfold genTablesOnce
  split
  · refine ⟨rfl, ?_⟩
    simp only
    exact aesGenTables_spec pow log s.tables
  · rename_i hdone
    have hdone : s.initDone = true := by simpa using hdone
    exact ⟨hdone, h hdone⟩

/-- A key of another length is turned down, and leaves the statics alone. -/
theorem utilsAesSetkeyEnc_statics (pow log : Nat → Nat) (s : AesStatics) (ctx : AesContext)
    (key : Bytes) (keybits : Nat) : (utilsAesSetkeyEnc pow log s ctx key keybits).2.1 = s ∨
      (utilsAesSetkeyEnc pow log s ctx key keybits).2.1 = genTablesOnce pow log s := by
  rw [utilsAesSetkeyEnc]
  simp only
  split
  · exact .inl rfl
  · exact .inr rfl

theorem AesStatics.Ready.enc {s : AesStatics} (h : s.Ready) (pow log : Nat → Nat) (ctx : AesContext)
    (key : Bytes) (keybits : Nat) : (utilsAesSetkeyEnc pow log s ctx key keybits).2.1.Ready := by
  obtain hsame | hnew := utilsAesSetkeyEnc_statics pow log s ctx key keybits
  · rwa [hsame]
  · rw [hnew]
    exact fun _ => (h.once pow log).2

/-- **After any calls** the tables are right once they are marked as computed. -/
theorem AesStatics.Reachable.ready {s : AesStatics} (h : s.Reachable) : s.Ready := by
  induction h with
  | start tables => exact fun h => Bool.noConfusion h
  | enc _ pow log ctx key keybits ih => exact ih.enc pow log ctx key keybits
  | dec _ pow log cty ctx key keybits ih =>
    rw [utilsAesSetkeyDec_statics]
    exact ih.enc pow log (utilsAesInit cty) key keybits

/-! ## The schedules -/

/-- The round keys in `buf`. -/
def Keyed (k : Nat → State) (nr : Nat) (b : Nat → UInt32) : Prop :=
  ∀ i ≤ nr, ∀ j : Fin 4, b (4 * i + j) = word (k i j)

/-- The key lengths, in words. -/
def KeyWords (nk : Nat) : Prop := nk = 4 ∨ nk = 6 ∨ nk = 8

/-- The loop that reads the key. -/
theorem scheduled_read (nk : Nat) (key : Bytes) (c : AesContext) :
    Scheduled nk (keyColumns key) c nk
      (forTo nk (fun i c => c.set i (getUint32Le key (i <<< 2))) c) := by
  refine forTo_induction (fun i c' => Scheduled nk (keyColumns key) c i c') nk
    ⟨fun _ h => absurd h (Nat.not_lt_zero _), fun _ _ => rfl, rfl⟩ fun i c' hi h => h.next ?_
  rw [keyWord_of_lt hi, getUint32Le_eq, Nat.shiftLeft_eq, Nat.mul_comm]
  rfl

/-- What `utils_aes_setkey_enc` leaves behind. -/
structure Encrypting (nk : Nat) (key : Bytes) (old : AesContext)
    (r : Int × AesStatics × AesContext) : Prop where
  ret : r.1 = 0
  done : r.2.1.initDone = true
  right : r.2.1.tables.Right
  nr : r.2.2.nr = rounds nk
  keyed : Keyed (roundKey (keyWord nk (keyColumns key))) (rounds nk) r.2.2.buf
  behind : ∀ i, 68 ≤ i → r.2.2.buf i = old.buf i

/-- A schedule that has come far enough. -/
theorem Scheduled.encrypting {nk n : Nat} {key : Bytes} {ctx c : AesContext} {s : AesStatics}
    (h : Scheduled nk (keyColumns key) { ctx with nr := rounds nk } n c)
    (hn : 4 * (rounds nk + 1) ≤ n) (hroom : n ≤ 68) (hdone : s.initDone = true)
    (hright : s.tables.Right) : Encrypting nk key ctx (0, s, c) :=
  ⟨rfl, hdone, hright, h.nr, fun i hi j => h.words (4 * i + j) (by have := j.isLt; omega),
    fun i hi => h.rest i (by omega)⟩

/-- **`utils_aes_setkey_enc`**: the keys of all rounds, inside `buf`. -/
theorem utilsAesSetkeyEnc_spec {s : AesStatics} (hs : s.Ready) {nk : Nat} (hnk : KeyWords nk)
    (pow log : Nat → Nat) (ctx : AesContext) (key : Bytes) :
    Encrypting nk key ctx (utilsAesSetkeyEnc pow log s ctx key (32 * nk)) := by
  obtain ⟨hdone, hright⟩ := hs.once pow log
  have hread := scheduled_read nk key { ctx with nr := rounds nk }
  obtain rfl | rfl | rfl := hnk
  · exact (forTo_induction (fun i c => Scheduled 4 _ _ (4 * i + 4) c) 10 hread fun i c hi h =>
      turn128_spec hright (by omega) h).encrypting (by decide) (by decide) hdone hright
  · exact (forTo_induction (fun i c => Scheduled 6 _ _ (6 * i + 6) c) 8 hread fun i c hi h =>
      turn192_spec hright (by omega) h).encrypting (by decide) (by decide) hdone hright
  · exact (forTo_induction (fun i c => Scheduled 8 _ _ (8 * i + 8) c) 7 hread fun i c hi h =>
      turn256_spec hright (by omega) h).encrypting (by decide) (by decide) hdone hright

/-- A word of the schedule back. -/
theorem unmixed_word (ht : t.Right) (c : Column) : unmixed t (word c) = word (unmixColumn c) := by
  obtain ⟨h0, h1, h2, h3⟩ := index_word c
  have hrt : ∀ k (a : UInt8), t.rt k (t.fsb a.toNat).toNat = word (part unmixMatrix k a) := fun k a => by
    rw [ht.rt, ht.fsb, unsbox_sbox]
  rw [unmixed, h0, h1, h2, h3, unmixColumn, word_circulant]
  exact congr (congrArg _ (congr (congrArg _ (congr (congrArg _ (hrt 0 (c 0))) (hrt 1 (c 1))))
    (hrt 2 (c 2)))) (hrt 3 (c 3))

/-- Four words, and everything else. -/
theorem fourWords_spec (rk : Nat) (w : Nat → UInt32) (c : AesContext) :
    (∀ j < 4, (fourWords rk w c).buf (rk + j) = w j) ∧
      (∀ i, i < rk ∨ rk + 4 ≤ i → (fourWords rk w c).buf i = c.buf i) ∧
        (fourWords rk w c).nr = c.nr := by
  refine forTo_induction (fun n (c' : AesContext) => (∀ j < n, c'.buf (rk + j) = w j) ∧
    (∀ i, i < rk ∨ rk + n ≤ i → c'.buf i = c.buf i) ∧ c'.nr = c.nr) 4
    ⟨fun _ h => absurd h (Nat.not_lt_zero _), fun _ _ => rfl, rfl⟩
    fun n c' _ h => ⟨fun j hj => ?_, fun i hi => ?_, h.2.2⟩
  · by_cases heq : j = n
    · rw [heq, AesContext.set_self]
    · rw [AesContext.set_of_ne _ _ (by omega), h.1 j (by omega)]
  · rw [AesContext.set_of_ne _ _ (by omega), h.2.1 i (by omega)]

/-- The first keys are there, and everything else is as it was. -/
structure KeyedUpTo (k : Nat → State) (c₀ : AesContext) (n : Nat) (c : AesContext) : Prop where
  keys : ∀ i < n, ∀ j : Fin 4, c.buf (4 * i + j) = word (k i j)
  rest : ∀ i, 4 * n ≤ i → c.buf i = c₀.buf i
  nr : c.nr = c₀.nr

theorem KeyedUpTo.next {k : Nat → State} {c₀ c : AesContext} {n : Nat} (h : KeyedUpTo k c₀ n c)
    {w : Nat → UInt32} (hw : ∀ j : Fin 4, w j = word (k n j)) :
    KeyedUpTo k c₀ (n + 1) (fourWords (4 * n) w c) := by
  obtain ⟨hfour, hother, hnr⟩ := fourWords_spec (4 * n) w c
  refine ⟨fun i hi j => ?_, fun i hi => ?_, hnr.trans h.nr⟩
  · have hj := j.isLt
    by_cases heq : i = n
    · rw [heq, hfour j hj, hw]
    · rw [hother _ (by omega), h.keys i (by omega)]
  · rw [hother i (by omega), h.rest i (by omega)]

/-- The round keys of the cipher back. -/
def backKeys (nr : Nat) (w : Nat → Column) (i : Nat) : State :=
  if i = 0 then roundKey w nr
  else if i < nr then mixColumns.symm (roundKey w (nr - i)) else roundKey w 0

/-- What `utils_aes_setkey_dec` leaves behind. -/
structure Decrypting (nk : Nat) (key : Bytes) (old : AesContext)
    (r : Int × AesStatics × AesContext) : Prop where
  ret : r.1 = 0
  done : r.2.1.initDone = true
  right : r.2.1.tables.Right
  nr : r.2.2.nr = rounds nk
  keyed : Keyed (backKeys (rounds nk) (keyWord nk (keyColumns key))) (rounds nk) r.2.2.buf
  behind : ∀ i, 68 ≤ i → r.2.2.buf i = old.buf i

/-- **`utils_aes_setkey_dec`**: the keys in the opposite order, the middle ones mixed. -/
theorem utilsAesSetkeyDec_spec {s : AesStatics} (hs : s.Ready) {nk : Nat} (hnk : KeyWords nk)
    (pow log : Nat → Nat) (cty ctx : AesContext) (key : Bytes) :
    Decrypting nk key ctx (utilsAesSetkeyDec pow log s cty ctx key (32 * nk)) := by
  have henc := utilsAesSetkeyEnc_spec hs hnk pow log (utilsAesInit cty) key
  have hstatics := utilsAesSetkeyDec_statics pow log s cty ctx key (32 * nk)
  have hrounds : 2 ≤ rounds nk ∧ rounds nk ≤ 14 := by
    unfold rounds
    obtain rfl | rfl | rfl := hnk <;> omega
  rw [utilsAesSetkeyDec] at hstatics ⊢
  generalize utilsAesSetkeyEnc pow log s (utilsAesInit cty) key (32 * nk) = r at *
  obtain ⟨ret, s', cty'⟩ := r
  obtain ⟨hret, hdone, hright, hnr, hkeyed, -⟩ := henc
  simp only at hret hdone hright hnr hkeyed
  simp only [hret, hnr, ne_eq, not_true_eq_false, if_false]
  set w := keyWord nk (keyColumns key) with hw
  have hfirst : KeyedUpTo (backKeys (rounds nk) w) { ctx with nr := rounds nk } 1 (fourWords (4 * 0)
      (fun j => cty'.buf (4 * rounds nk + j)) { ctx with nr := rounds nk }) :=
    KeyedUpTo.next ⟨fun _ h => absurd h (Nat.not_lt_zero _), fun _ _ => rfl, rfl⟩ fun j =>
      hkeyed (rounds nk) (Nat.le_refl _) j
  have hmiddle : KeyedUpTo (backKeys (rounds nk) w) { ctx with nr := rounds nk } (rounds nk - 1 + 1) _ :=
    forTo_induction (fun g c => KeyedUpTo _ _ (g + 1) c) (rounds nk - 1)
      hfirst fun g c hg h => h.next (w := fun j =>
        unmixed s'.tables (cty'.buf (4 * (rounds nk - (g + 1)) + j))) fun j => by
          rw [hkeyed _ (Nat.sub_le _ _) j, unmixed_word hright, backKeys, if_neg (Nat.succ_ne_zero g),
            if_pos (by omega)]
          rfl
  rw [show rounds nk - 1 + 1 = rounds nk by omega] at hmiddle
  have hlast := hmiddle.next (w := fun j => cty'.buf j) fun j => by
    have h0 := hkeyed 0 (Nat.zero_le _) j
    rw [Nat.mul_zero, Nat.zero_add] at h0
    rw [h0, backKeys, if_neg (by omega), if_neg (Nat.lt_irrefl _)]
  exact ⟨rfl, hdone, hright, hlast.nr, fun i hi => hlast.keys i (by omega),
    fun i hi => hlast.rest i (by omega)⟩

/-! ## The rounds -/

theorem froundWord_eq (ht : t.Right) (k : Column) (y : Fin 4 → Column) :
    froundWord t (word k) (word (y 0)) (word (y 1)) (word (y 2)) (word (y 3)) =
      word (addColumn k (mixColumn fun r => sbox (y r r))) := by
  have hft : ∀ j (a : UInt8), t.ft j a.toNat = word (part mixMatrix j (sbox a)) := ht.ft
  have hsum := word_circulant mixMatrix fun r => sbox (y r r)
  rw [froundWord, (index_word (y 0)).1, (index_word (y 1)).2.1, (index_word (y 2)).2.2.1,
    (index_word (y 3)).2.2.2]
  refine Eq.trans ?_ (word_xor k _).symm
  rw [mixColumn, hsum, ← hft, ← hft, ← hft, ← hft, UInt32.xor_assoc, UInt32.xor_assoc,
    UInt32.xor_assoc, UInt32.xor_assoc, UInt32.xor_assoc]
  rfl

theorem rroundWord_eq (ht : t.Right) (k : Column) (y : Fin 4 → Column) :
    rroundWord t (word k) (word (y 0)) (word (y 1)) (word (y 2)) (word (y 3)) =
      word (addColumn k (unmixColumn fun r => unsbox (y r r))) := by
  have hrt : ∀ j (a : UInt8), t.rt j a.toNat = word (part unmixMatrix j (unsbox a)) := ht.rt
  have hsum := word_circulant unmixMatrix fun r => unsbox (y r r)
  rw [rroundWord, (index_word (y 0)).1, (index_word (y 1)).2.1, (index_word (y 2)).2.2.1,
    (index_word (y 3)).2.2.2]
  refine Eq.trans ?_ (word_xor k _).symm
  rw [unmixColumn, hsum, ← hrt, ← hrt, ← hrt, ← hrt, UInt32.xor_assoc, UInt32.xor_assoc,
    UInt32.xor_assoc, UInt32.xor_assoc, UInt32.xor_assoc]
  rfl

theorem lastWord_eq {box : Nat → UInt8} {f : UInt8 → UInt8} (hbox : ∀ a : UInt8, box a.toNat = f a)
    (k : Column) (y : Fin 4 → Column) :
    lastWord box (word k) (word (y 0)) (word (y 1)) (word (y 2)) (word (y 3)) =
      word (addColumn k fun r => f (y r r)) := by
  rw [lastWord, (index_word (y 0)).1, (index_word (y 1)).2.1, (index_word (y 2)).2.2.1,
    (index_word (y 3)).2.2.2, hbox, hbox, hbox, hbox]
  refine Eq.trans ?_ (word_xor k _).symm
  rw [word_eq_xor (fun r => f (y r r)), UInt32.xor_assoc, UInt32.xor_assoc, UInt32.xor_assoc,
    UInt32.xor_assoc, UInt32.xor_assoc]

/-- `AES_FROUND` is a round. -/
theorem aesFround_eq (ht : t.Right) {b : Nat → UInt32} {rk : Nat} {k : State}
    (hk : ∀ j : Fin 4, b (rk + j) = word (k j)) (s : State) :
    aesFround t b rk (quad s) = quad (rijndael.round s k) := by
  have hline : ∀ j : Fin 4, froundWord t (b (rk + j)) (word (s (j + 0))) (word (s (j + 1)))
      (word (s (j + 2))) (word (s (j + 3))) = word (rijndael.round s k j) := fun j => by
    rw [hk]
    exact froundWord_eq ht (k j) fun r => s (j + r)
  exact congr (congr (congr (congrArg Quad.mk (hline 0)) (hline 1)) (hline 2)) (hline 3)

/-- `AES_RROUND` is a round back. -/
theorem aesRround_eq (ht : t.Right) {b : Nat → UInt32} {rk : Nat} {k : State}
    (hk : ∀ j : Fin 4, b (rk + j) = word (k j)) (s : State) :
    aesRround t b rk (quad s) = quad (rijndael.unround s k) := by
  have hline : ∀ j : Fin 4, rroundWord t (b (rk + j)) (word (s (j - 0))) (word (s (j - 1)))
      (word (s (j - 2))) (word (s (j - 3))) = word (rijndael.unround s k j) := fun j => by
    rw [hk]
    exact rroundWord_eq ht (k j) fun r => s (j - r)
  exact congr (congr (congr (congrArg Quad.mk (hline 0)) (hline 1)) (hline 2)) (hline 3)

/-- The pairs of rounds, one after another. -/
theorem middleRounds_eq (round : Nat → Quad → Quad) {nr : Nat} (h : nr % 2 = 0) (hpos : 2 ≤ nr)
    (x : Quad) : middleRounds round nr x = forTo (nr - 1) (fun i x => round (4 * (i + 1)) x) x := by
  have hpairs : ∀ p, forTo p (fun i x => round (4 + 8 * i + 4) (round (4 + 8 * i) x)) x =
      forTo (2 * p) (fun i x => round (4 * (i + 1)) x) x := by
    intro p
    induction p with
    | zero => rfl
    | succ p ih =>
      rw [forTo_succ, ih, show 2 * (p + 1) = 2 * p + 1 + 1 by omega, forTo_succ, forTo_succ,
        show 4 + 8 * p = 4 * (2 * p + 1) by omega, show 4 * (2 * p + 1) + 4 = 4 * (2 * p + 1 + 1) by omega]
  have hhalf : nr >>> 1 = nr / 2 := rfl
  rw [middleRounds, hpairs, hhalf, show nr - 1 = 2 * (nr / 2 - 1) + 1 by omega, forTo_succ,
    show 4 + 8 * (nr / 2 - 1) = 4 * (2 * (nr / 2 - 1) + 1) by omega]

/-- Rounds on words are rounds on states. -/
theorem forTo_quad {round : Nat → Quad → Quad} {f : State → State → State} {k : Nat → State} {n : Nat}
    (h : ∀ i < n, ∀ s, round (4 * (i + 1)) (quad s) = quad (f s (k (i + 1)))) (s : State) :
    forTo n (fun i x => round (4 * (i + 1)) x) (quad s) =
      quad (((List.range n).map fun i => k (i + 1)).foldl f s) := by
  induction n with
  | zero => rfl
  | succ n ih =>
    rw [forTo_succ, ih fun i hi => h i (by omega), h n (Nat.lt_succ_self n), List.range_succ,
      List.map_append, List.foldl_append]
    rfl

theorem readBlock_eq {b : Nat → UInt32} {k : State} (hk : ∀ j : Fin 4, b j = word (k j))
    (input : Bytes) : readBlock b input = quad (rijndael.add k (stateOf input)) := by
  have hword : ∀ j : Fin 4, getUint32Le input (4 * j) ^^^ b j =
      word (rijndael.add k (stateOf input) j) := fun j => by
      rw [hk, UInt32.xor_comm]
      exact (word_xor (k j) (stateOf input j)).symm
  exact congr (congr (congr (congrArg Quad.mk (hword 0)) (hword 1)) (hword 2)) (hword 3)

/-- **`utils_internal_aes_encrypt`** with the keys of a sequence of states. -/
theorem utilsInternalAesEncrypt_keyed (ht : t.Right) {ctx : AesContext} {k : Nat → State}
    (hk : Keyed k ctx.nr ctx.buf) (heven : ctx.nr % 2 = 0) (hpos : 2 ≤ ctx.nr) (input : Bytes) :
    utilsInternalAesEncrypt t ctx input = bytesOf (rijndael.encrypt (k 0)
      ((List.range (ctx.nr - 1)).map fun i => k (i + 1)) (k ctx.nr) (stateOf input)) := by
  have hfirst : ∀ j : Fin 4, ctx.buf j = word (k 0 j) := fun j => by
    have h := hk 0 (Nat.zero_le _) j
    rwa [Nat.mul_zero, Nat.zero_add] at h
  have hrounds : ∀ i < ctx.nr - 1, ∀ s, aesFround t ctx.buf (4 * (i + 1)) (quad s) =
      quad (rijndael.round s (k (i + 1))) := fun i hi s => aesFround_eq ht (hk (i + 1) (by omega)) s
  rw [utilsInternalAesEncrypt, readBlock_eq hfirst, middleRounds_eq _ heven hpos, forTo_quad hrounds,
    RoundSteps.encrypt, ← writeBlock_quad]
  generalize ((List.range (ctx.nr - 1)).map fun i => k (i + 1)).foldl _ _ = s
  have hline : ∀ j : Fin 4, lastWord t.fsb (ctx.buf (4 * ctx.nr + j)) (word (s (j + 0)))
      (word (s (j + 1))) (word (s (j + 2))) (word (s (j + 3))) =
        word (rijndael.add (k ctx.nr) (rijndael.sub s) j) := fun j => by
    rw [hk _ (Nat.le_refl _)]
    exact lastWord_eq ht.fsb (k ctx.nr j) fun r => s (j + r)
  exact congrArg writeBlock
    (congr (congr (congr (congrArg Quad.mk (hline 0)) (hline 1)) (hline 2)) (hline 3))

/-- **`utils_internal_aes_decrypt`** with the keys of a sequence of states. -/
theorem utilsInternalAesDecrypt_keyed (ht : t.Right) {ctx : AesContext} {k : Nat → State}
    (hk : Keyed k ctx.nr ctx.buf) (heven : ctx.nr % 2 = 0) (hpos : 2 ≤ ctx.nr) (input : Bytes) :
    utilsInternalAesDecrypt t ctx input = bytesOf (rijndael.decrypt (k 0)
      ((List.range (ctx.nr - 1)).map fun i => k (i + 1)) (k ctx.nr) (stateOf input)) := by
  have hfirst : ∀ j : Fin 4, ctx.buf j = word (k 0 j) := fun j => by
    have h := hk 0 (Nat.zero_le _) j
    rwa [Nat.mul_zero, Nat.zero_add] at h
  have hrounds : ∀ i < ctx.nr - 1, ∀ s, aesRround t ctx.buf (4 * (i + 1)) (quad s) =
      quad (rijndael.unround s (k (i + 1))) := fun i hi s => aesRround_eq ht (hk (i + 1) (by omega)) s
  rw [utilsInternalAesDecrypt, readBlock_eq hfirst, middleRounds_eq _ heven hpos, forTo_quad hrounds,
    RoundSteps.decrypt, ← writeBlock_quad]
  generalize ((List.range (ctx.nr - 1)).map fun i => k (i + 1)).foldl _ _ = s
  have hline : ∀ j : Fin 4, lastWord t.rsb (ctx.buf (4 * ctx.nr + j)) (word (s (j - 0)))
      (word (s (j - 1))) (word (s (j - 2))) (word (s (j - 3))) =
        word (rijndael.add (k ctx.nr) (rijndael.sub.symm s) j) := fun j => by
    rw [hk _ (Nat.le_refl _)]
    exact lastWord_eq ht.rsb (k ctx.nr j) fun r => s (j - r)
  exact congrArg writeBlock
    (congr (congr (congr (congrArg Quad.mk (hline 0)) (hline 1)) (hline 2)) (hline 3))

/-! ## The cipher -/

/-- The keys of the rounds back. -/
theorem backKeys_middle (nr : Nat) (w : Nat → Column) :
    ((List.range (nr - 1)).map fun i => backKeys nr w (i + 1)) =
      (middleKeys nr w).reverse.map mixColumns.symm := by
  refine List.ext_getElem (by simp [middleKeys]) fun i hi _ => ?_
  rw [List.length_map, List.length_range] at hi
  simp only [middleKeys, List.getElem_map, List.getElem_range, List.getElem_reverse, List.length_map,
    List.length_range]
  rw [backKeys, if_neg (Nat.succ_ne_zero i), if_pos (by omega),
    show nr - 1 - 1 - i + 1 = nr - (i + 1) by omega]

/-- A context for encryption, and the tables at the time of a call. -/
structure Encrypts (nk : Nat) (key : Bytes) (ctx : AesContext) : Prop where
  length : KeyWords nk
  nr : ctx.nr = rounds nk
  keyed : Keyed (roundKey (keyWord nk (keyColumns key))) (rounds nk) ctx.buf

/-- A context for decryption. -/
structure Decrypts (nk : Nat) (key : Bytes) (ctx : AesContext) : Prop where
  length : KeyWords nk
  nr : ctx.nr = rounds nk
  keyed : Keyed (backKeys (rounds nk) (keyWord nk (keyColumns key))) (rounds nk) ctx.buf

theorem KeyWords.even {nk : Nat} (h : KeyWords nk) : rounds nk % 2 = 0 ∧ 2 ≤ rounds nk := by
  unfold rounds
  obtain rfl | rfl | rfl := h <;> omega

/-- **Encryption**: the block function is the cipher. -/
theorem Encrypts.block {nk : Nat} {key : Bytes} {ctx : AesContext} (h : Encrypts nk key ctx)
    (ht : t.Right) (input : Bytes) : utilsInternalAesEncrypt t ctx input =
      bytesOf (cipher nk (keyColumns key) (stateOf input)) := by
  obtain ⟨heven, hpos⟩ := h.length.even
  have hk := h.keyed
  rw [← h.nr] at heven hpos hk
  rw [utilsInternalAesEncrypt_keyed ht hk heven hpos, h.nr]
  rfl

/-- **Decryption**: the block function is the cipher back. -/
theorem Decrypts.block {nk : Nat} {key : Bytes} {ctx : AesContext} (h : Decrypts nk key ctx)
    (ht : t.Right) (input : Bytes) : utilsInternalAesDecrypt t ctx input =
      bytesOf (decipher nk (keyColumns key) (stateOf input)) := by
  obtain ⟨heven, hpos⟩ := h.length.even
  have hk := h.keyed
  have hpos' := hpos
  rw [← h.nr] at heven hpos hk
  rw [utilsInternalAesDecrypt_keyed ht hk heven hpos, h.nr, backKeys_middle, decipher, backKeys,
    if_pos rfl, backKeys, if_neg (by omega), if_neg (Nat.lt_irrefl _)]

theorem Encrypting.encrypts {nk : Nat} {key : Bytes} {old : AesContext}
    {r : Int × AesStatics × AesContext} (h : Encrypting nk key old r) (hnk : KeyWords nk) :
    Encrypts nk key r.2.2 := ⟨hnk, h.nr, h.keyed⟩

theorem Decrypting.decrypts {nk : Nat} {key : Bytes} {old : AesContext}
    {r : Int × AesStatics × AesContext} (h : Decrypting nk key old r) (hnk : KeyWords nk) :
    Decrypts nk key r.2.2 := ⟨hnk, h.nr, h.keyed⟩

/-- A block comes out again. -/
theorem Decrypts.undo {nk : Nat} {key : Bytes} {ctx ctx' : AesContext} (h : Decrypts nk key ctx)
    (h' : Encrypts nk key ctx') {t t' : AesTables} (ht : t.Right) (ht' : t'.Right) {input : Bytes}
    (hlen : input.length = 16) :
    utilsInternalAesDecrypt t ctx (utilsInternalAesEncrypt t' ctx' input) = input := by
  rw [h'.block ht', h.block ht, stateOf_bytesOf, decipher_cipher, bytesOf_stateOf hlen]

/-- **The schedule and the block function are the cipher**, for a key of each length, whatever calls
came before and whatever calls come between the two; the schedule writes no cell behind `buf`. -/
theorem utilsInternalAesEncrypt_eq {s s' : AesStatics} (hs : s.Reachable) (hs' : s'.Reachable)
    (hdone : s'.initDone = true) {nk : Nat} (hnk : KeyWords nk) (pow log : Nat → Nat) (ctx : AesContext)
    (key input : Bytes) :
    (utilsAesSetkeyEnc pow log s ctx key (32 * nk)).1 = 0 ∧
    (∀ i, 68 ≤ i → (utilsAesSetkeyEnc pow log s ctx key (32 * nk)).2.2.buf i = ctx.buf i) ∧
    utilsInternalAesEncrypt s'.tables (utilsAesSetkeyEnc pow log s ctx key (32 * nk)).2.2 input =
      bytesOf (cipher nk (keyColumns key) (stateOf input)) := by
  have h := utilsAesSetkeyEnc_spec hs.ready hnk pow log ctx key
  exact ⟨h.ret, h.behind, (h.encrypts hnk).block (hs'.ready hdone) input⟩

/-- **A block comes out again**: it is encrypted after one schedule and decrypted after the other, with
any calls before, between and after them. -/
theorem utilsInternalAesDecrypt_encrypt {s₁ s₂ s₃ s₄ : AesStatics} (h₁ : s₁.Reachable)
    (h₂ : s₂.Reachable) (h₃ : s₃.Reachable) (h₄ : s₄.Reachable) (hdone₃ : s₃.initDone = true)
    (hdone₄ : s₄.initDone = true) {nk : Nat} (hnk : KeyWords nk) (pow log : Nat → Nat)
    (ctx cty ctx' : AesContext) (key : Bytes) {input : Bytes} (hlen : input.length = 16) :
    utilsInternalAesDecrypt s₄.tables (utilsAesSetkeyDec pow log s₂ cty ctx' key (32 * nk)).2.2
      (utilsInternalAesEncrypt s₃.tables (utilsAesSetkeyEnc pow log s₁ ctx key (32 * nk)).2.2 input) =
        input :=
  ((utilsAesSetkeyDec_spec h₂.ready hnk pow log cty ctx' key).decrypts hnk).undo
    ((utilsAesSetkeyEnc_spec h₁.ready hnk pow log ctx key).encrypts hnk) (h₄.ready hdone₄)
    (h₃.ready hdone₃) hlen

/-! ## A first call -/

/-- Static arrays before the first call, and arrays of a function. -/
def zeroTables : AesTables :=
  let zero : Nat → UInt32 := fun _ => 0
  ⟨fun _ => 0, zero, zero, zero, zero, fun _ => 0, zero, zero, zero, zero, zero⟩

/-- The statics before the first call. -/
def startStatics : AesStatics := ⟨zeroTables, false⟩

/-- A context that is not set yet. -/
def blankContext : AesContext := ⟨0, fun _ => 0⟩

/-- The statics after a first schedule. -/
def usedStatics : AesStatics :=
  (utilsAesSetkeyEnc (fun _ => 0) (fun _ => 0) startStatics blankContext (List.replicate 16 0) 128).2.1

theorem startStatics_reachable : startStatics.Reachable := .start zeroTables

theorem usedStatics_reachable : usedStatics.Reachable := startStatics_reachable.enc _ _ _ _ _

theorem usedStatics_done : usedStatics.initDone = true :=
  (utilsAesSetkeyEnc_spec startStatics_reachable.ready (show KeyWords 4 from .inl rfl) _ _ _ _).done

/-- A first schedule with a key of zeros, and a block of zeros. -/
theorem utilsInternalAesEncrypt_first :
    (utilsAesSetkeyEnc (fun _ => 0) (fun _ => 0) startStatics blankContext (List.replicate 16 0)
      (32 * 4)).1 = 0 ∧
    (∀ i, 68 ≤ i → (utilsAesSetkeyEnc (fun _ => 0) (fun _ => 0) startStatics blankContext
      (List.replicate 16 0) (32 * 4)).2.2.buf i = blankContext.buf i) ∧
    utilsInternalAesEncrypt usedStatics.tables (utilsAesSetkeyEnc (fun _ => 0) (fun _ => 0) startStatics
      blankContext (List.replicate 16 0) (32 * 4)).2.2 (List.replicate 16 0) =
        bytesOf (cipher 4 (keyColumns (List.replicate 16 0)) (stateOf (List.replicate 16 0))) :=
  utilsInternalAesEncrypt_eq startStatics_reachable usedStatics_reachable
    usedStatics_done (.inl rfl) _ _ _ _ _

/-- A block of zeros there and back. -/
theorem utilsInternalAesDecrypt_first :
    utilsInternalAesDecrypt usedStatics.tables (utilsAesSetkeyDec (fun _ => 0) (fun _ => 0) startStatics
      blankContext blankContext (List.replicate 16 0) (32 * 4)).2.2
      (utilsInternalAesEncrypt usedStatics.tables (utilsAesSetkeyEnc (fun _ => 0) (fun _ => 0)
        startStatics blankContext (List.replicate 16 0) (32 * 4)).2.2 (List.replicate 16 0)) =
          List.replicate 16 0 :=
  utilsInternalAesDecrypt_encrypt startStatics_reachable
    startStatics_reachable usedStatics_reachable usedStatics_reachable usedStatics_done
    usedStatics_done (.inl rfl) _ _ _ _ _ _ rfl

end QcloudIot.Utils.Aes
