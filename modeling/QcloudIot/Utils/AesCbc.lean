import QcloudIot.Lib.Memory
import QcloudIot.Utils.Aes
import QcloudIot.Utils.Base64

/-!
# AES in CBC mode, in memory

`utils_aes_crypt_cbc` and `utils_aes_cbc` of `utils_aes.c` over one memory in which `input`, `output` and
`iv` are addresses, so that the buffers may be the same.

* `Turn`: what a turn of the loops does with the memory;
* `iterate_spec`: the loop is the chain of its blocks, and writes nowhere else;
* **`utilsAesCbc_roundTrip`**: data encrypted in place and decrypted in place are the data and the zeros of
  the padding;
* **`utilsAesCbc_apart`**: with two buffers the padding is not what is encrypted.
-/

namespace QcloudIot.Utils.Aes

open Lib Lib.Rijndael

/-- `UTILS_AES_ENCRYPT`. -/
def utilsAesEncrypt : Nat := 1

/-- `UTILS_AES_DECRYPT`. -/
def utilsAesDecrypt : Nat := 0

/-- `UTILS_AES_BLOCK_LEN`. -/
def utilsAesBlockLen : Nat := 16

/-- `UTILS_ERR_AES_INVALID_INPUT_LENGTH`. -/
def utilsErrAesInvalidInputLength : Int := -0x0022

/-- `utils_aes_crypt_ecb`: the sixteen bytes of `output`. -/
def utilsAesCryptEcb (t : AesTables) (ctx : AesContext) (mode : Nat) (input : Bytes) : Bytes :=
  if mode = utilsAesEncrypt then utilsInternalAesEncrypt t ctx input
  else utilsInternalAesDecrypt t ctx input

/-- The memory, `input` and `output` of `utils_aes_crypt_cbc`. -/
structure CbcRun where
  mem : Memory UInt8
  input : Nat
  output : Nat

/-- Bytes written. -/
def CbcRun.put (r : CbcRun) (p : Nat) (bs : Bytes) : CbcRun := { r with mem := r.mem.store p bs }

/-- `output[i] = src[i] ^ iv[i]`, for the sixteen bytes in their order. -/
def CbcRun.xorIv (r : CbcRun) (src iv : Nat) : CbcRun :=
  forTo 16 (fun i r => r.put (r.output + i) [r.mem (src + i) ^^^ r.mem (iv + i)]) r

/-- `input` and `output` at the next block. -/
def CbcRun.advance (r : CbcRun) : CbcRun := { r with input := r.input + 16, output := r.output + 16 }

/-- A turn of the loop that decrypts. -/
def decryptTurn (t : AesTables) (ctx : AesContext) (mode iv : Nat) (r : CbcRun) : CbcRun :=
  let temp := r.mem.load r.input 16
  let r := r.put r.output (utilsAesCryptEcb t ctx mode (r.mem.load r.input 16))
  let r := r.xorIv r.output iv
  let r := r.put iv temp
  r.advance

/-- A turn of the loop that encrypts. -/
def encryptTurn (t : AesTables) (ctx : AesContext) (mode iv : Nat) (r : CbcRun) : CbcRun :=
  let r := r.xorIv r.input iv
  let r := r.put r.output (utilsAesCryptEcb t ctx mode (r.mem.load r.output 16))
  let r := r.put iv (r.mem.load r.output 16)
  r.advance

/-- `utils_aes_crypt_cbc`. -/
def utilsAesCryptCbc (t : AesTables) (ctx : AesContext) (mode length iv input output : Nat)
    (m : Memory UInt8) : Int × Memory UInt8 :=
  if length % 16 ≠ 0 then (utilsErrAesInvalidInputLength, m)
  else
    let turn := if mode = utilsAesDecrypt then decryptTurn t ctx mode iv else encryptTurn t ctx mode iv
    (0, (turn^[length / 16] ⟨m, input, output⟩).mem)

/-- `utils_aes_cbc`; `ctx` is what stands on the stack, and `datalen` a number of 32 bits. -/
def utilsAesCbc (pow log : Nat → Nat) (s : AesStatics) (ctx : AesContext)
    (pInData datalen pOutData outBuffLen mode pKey keybits iv : Nat) (m : Memory UInt8) :
    Int × AesStatics × Memory UInt8 :=
  let key := m.load pKey (keybits / 8)
  let crypt (s : AesStatics) (ctx : AesContext) (datalen : Nat) (m : Memory UInt8) :=
    let (ret, m) := utilsAesCryptCbc s.tables ctx mode datalen iv pInData pOutData m
    (if ret ≠ 0 then qcloudErrFailure else 0, s, m)
  if mode = utilsAesEncrypt then
    let (ret, s, ctx) := utilsAesSetkeyEnc pow log s (utilsAesInit ctx) key keybits
    if ret ≠ 0 then (qcloudErrFailure, s, m)
    else if outBuffLen < (datalen + utilsAesBlockLen) % 2 ^ 32 then (qcloudErrFailure, s, m)
    else
      let padlen := utilsAesBlockLen - datalen % utilsAesBlockLen
      let m := m.move pOutData pInData datalen
      let m := m.fill (pOutData + datalen) 0 padlen
      crypt s ctx ((datalen + padlen) % 2 ^ 32) m
  else
    let (ret, s, ctx) := utilsAesSetkeyDec pow log s ⟨0, fun _ => 0⟩ (utilsAesInit ctx) key keybits
    if ret ≠ 0 then (qcloudErrFailure, s, m)
    else crypt s ctx datalen m

/-! ## Blocks -/

/-- The first `n` blocks of bytes. -/
def blocksOf : (n : Nat) → Bytes → List State
  | 0, _ => []
  | n + 1, bs => stateOf (bs.take 16) :: blocksOf n (bs.drop 16)

/-- The bytes of blocks. -/
def bytesOfBlocks (bs : List State) : Bytes := bs.flatMap bytesOf

@[simp] theorem length_blocksOf (n : Nat) (bs : Bytes) : (blocksOf n bs).length = n := by
  induction n generalizing bs with
  | zero => rfl
  | succ n ih => rw [blocksOf, List.length_cons, ih]

theorem length_bytesOfBlocks (bs : List State) : (bytesOfBlocks bs).length = 16 * bs.length := by
  induction bs with
  | nil => rfl
  | cons b bs ih =>
    rw [bytesOfBlocks, List.flatMap_cons, List.length_append, length_bytesOf, List.length_cons]
    have h : (List.flatMap bytesOf bs).length = 16 * bs.length := ih
    omega

/-- Blocks back from their bytes. -/
theorem blocksOf_bytesOfBlocks (bs : List State) : blocksOf bs.length (bytesOfBlocks bs) = bs := by
  induction bs with
  | nil => rfl
  | cons b bs ih =>
    have hdrop : (bytesOf b ++ bytesOfBlocks bs).drop 16 = bytesOfBlocks bs :=
      List.drop_left' (length_bytesOf b)
    have htake : (bytesOf b ++ bytesOfBlocks bs).take 16 = bytesOf b :=
      List.take_left' (length_bytesOf b)
    rw [List.length_cons, blocksOf, bytesOfBlocks, List.flatMap_cons]
    change stateOf ((bytesOf b ++ bytesOfBlocks bs).take 16) ::
      blocksOf bs.length ((bytesOf b ++ bytesOfBlocks bs).drop 16) = _
    rw [hdrop, htake, stateOf_bytesOf, ih]

/-- Bytes back from their blocks. -/
theorem bytesOfBlocks_blocksOf {n : Nat} {bs : Bytes} (h : bs.length = 16 * n) :
    bytesOfBlocks (blocksOf n bs) = bs := by
  induction n generalizing bs with
  | zero => exact (List.eq_nil_of_length_eq_zero h).symm
  | succ n ih =>
    have htake : (bs.take 16).length = 16 := by
      rw [List.length_take]
      omega
    have hdrop : (bs.drop 16).length = 16 * n := by
      rw [List.length_drop]
      omega
    rw [blocksOf, bytesOfBlocks, List.flatMap_cons, bytesOf_stateOf htake]
    change bs.take 16 ++ bytesOfBlocks (blocksOf n (bs.drop 16)) = bs
    rw [ih hdrop, List.take_append_drop]

theorem bytesOf_addState : ∀ {x y : Bytes}, x.length = 16 → y.length = 16 →
    bytesOf (addState (stateOf x) (stateOf y)) = List.zipWith (· ^^^ ·) x y
  | [_, _, _, _, _, _, _, _, _, _, _, _, _, _, _, _], [_, _, _, _, _, _, _, _, _, _, _, _, _, _, _, _],
    _, _ => rfl

/-! ## A turn -/

/-- Two runs of bytes that have no byte in common. -/
def Apart (p n q k : Nat) : Prop := p + n ≤ q ∨ q + k ≤ p

/-- The loop over the sixteen bytes. -/
theorem xorIv_spec (r : CbcRun) {src iv : Nat} (hsrc : src = r.output ∨ Apart src 16 r.output 16)
    (hiv : Apart iv 16 r.output 16) : r.xorIv src iv = r.put r.output
      (bytesOf (addState (stateOf (r.mem.load src 16)) (stateOf (r.mem.load iv 16)))) := by
  obtain ⟨z, hz⟩ : ∃ z, z = List.zipWith (· ^^^ ·) (r.mem.load src 16) (r.mem.load iv 16) := ⟨_, rfl⟩
  have hzlen : z.length = 16 := by simp [hz]
  have hcells : ∀ n ≤ 16, forTo n (fun i (r : CbcRun) => r.put (r.output + i)
      [r.mem (src + i) ^^^ r.mem (iv + i)]) r = r.put r.output (z.take n) := by
    intro n hn
    induction n with
    | zero =>
      rw [List.take_zero, CbcRun.put, Memory.store_nil]
      rfl
    | succ n ih =>
      have hn' : n < z.length := by omega
      have hlen : (z.take n).length = n := by
        rw [List.length_take]
        omega
      -- the bytes from index `n` on are as they were
      have hread : ∀ p, p = r.output ∨ Apart p 16 r.output 16 →
          (r.mem.store r.output (z.take n)) (p + n) = r.mem (p + n) := by
        intro p hp
        rcases hp with rfl | hlt | hge
        · exact Memory.store_of_ge _ _ (by omega)
        · exact Memory.store_of_lt _ _ (by omega)
        · exact Memory.store_of_ge _ _ (by omega)
      have hlast : z[n] = r.mem (src + n) ^^^ r.mem (iv + n) := by
        simp [hz, Memory.load]
      have hstore := Memory.store_snoc r.mem r.output (z.take n) z[n]
      rw [hlen] at hstore
      rw [forTo_succ, ih (by omega)]
      simp only [CbcRun.put]
      rw [hread src hsrc, hread iv (.inr hiv), ← hlast, hstore, ← List.take_succ_eq_append_getElem]
  rw [bytesOf_addState (Memory.length_load _ _ _) (Memory.length_load _ _ _), ← hz]
  have h := hcells 16 (Nat.le_refl _)
  rwa [List.take_of_length_le (by omega)] at h

/-- What a turn does: it takes the block at `input` and the value at `iv`, writes the one at `output` and
the next value at `iv`, and goes on. -/
structure Turn (step : State → State → State × State) (iv : Nat) (r r' : CbcRun) : Prop where
  input : r'.input = r.input + 16
  output : r'.output = r.output + 16
  mem : r'.mem = (r.mem.store r.output
      (bytesOf (step (stateOf (r.mem.load iv 16)) (stateOf (r.mem.load r.input 16))).2)).store iv
        (bytesOf (step (stateOf (r.mem.load iv 16)) (stateOf (r.mem.load r.input 16))).1)

/-- The buffers: `iv` apart from the others, and these the same or apart. -/
structure Layout (iv n : Nat) (r : CbcRun) : Prop where
  ivInput : Apart iv 16 r.input (16 * n)
  ivOutput : Apart iv 16 r.output (16 * n)
  inputOutput : r.input = r.output ∨ Apart r.input (16 * n) r.output (16 * n)

variable {t : AesTables} {nk : Nat} {key : Bytes} {ctx : AesContext}

theorem load_block (m : Memory UInt8) (p : Nat) (s : State) :
    (m.store p (bytesOf s)).load p 16 = bytesOf s := by
  have h := Memory.load_store m p (bytesOf s)
  rwa [length_bytesOf] at h

theorem store_block (m : Memory UInt8) (p : Nat) (s s' : State) :
    (m.store p (bytesOf s)).store p (bytesOf s') = m.store p (bytesOf s') :=
  Memory.store_store m p rfl

theorem encryptTurn_spec (h : Encrypts nk key ctx) (ht : t.Right) {iv : Nat} {r : CbcRun}
    (hl : Layout iv 1 r) :
    Turn (cbcEncryptStep addState (cipher nk (keyColumns key))) iv r
      (encryptTurn t ctx utilsAesEncrypt iv r) := by
  have hin := hl.inputOutput
  have hout := hl.ivOutput
  rw [Nat.mul_one] at hin hout
  have hcrypt : ∀ s, utilsAesCryptEcb t ctx utilsAesEncrypt (bytesOf s) =
      bytesOf (cipher nk (keyColumns key) s) := fun s => by
    rw [utilsAesCryptEcb, if_pos rfl, h.block ht, stateOf_bytesOf]
  have heq : encryptTurn t ctx utilsAesEncrypt iv r = (((r.put r.output (bytesOf (cipher nk (keyColumns key) (addState
      (stateOf (r.mem.load r.input 16)) (stateOf (r.mem.load iv 16)))))).put iv (bytesOf (cipher nk
        (keyColumns key) (addState (stateOf (r.mem.load r.input 16)) (stateOf (r.mem.load iv 16))))))
          ).advance := by
    unfold encryptTurn
    simp only
    rw [xorIv_spec r hin hout]
    simp only [CbcRun.put, load_block, store_block, hcrypt]
  rw [heq]
  exact ⟨rfl, rfl, rfl⟩

theorem decryptTurn_spec (h : Decrypts nk key ctx) (ht : t.Right) {iv : Nat} {r : CbcRun}
    (hl : Layout iv 1 r) :
    Turn (cbcDecryptStep addState (decipher nk (keyColumns key))) iv r
      (decryptTurn t ctx utilsAesDecrypt iv r) := by
  have hout := hl.ivOutput
  rw [Nat.mul_one] at hout
  have hcrypt : ∀ b, utilsAesCryptEcb t ctx utilsAesDecrypt b =
      bytesOf (decipher nk (keyColumns key) (stateOf b)) := fun b => by
    rw [utilsAesCryptEcb, if_neg (by decide), h.block ht]
  have hiv : ∀ s, (r.mem.store r.output (bytesOf s)).load iv 16 = r.mem.load iv 16 := fun s => by
    rcases hout with hlt | hge
    · exact Memory.load_store_before _ _ hlt
    · exact Memory.load_store_after _ _ (by rwa [length_bytesOf])
  have hblock : bytesOf (stateOf (r.mem.load r.input 16)) = r.mem.load r.input 16 :=
    bytesOf_stateOf (Memory.length_load _ _ _)
  have heq : decryptTurn t ctx utilsAesDecrypt iv r = ((r.put r.output (bytesOf (addState (decipher nk (keyColumns key)
      (stateOf (r.mem.load r.input 16))) (stateOf (r.mem.load iv 16))))).put iv
        (r.mem.load r.input 16)).advance := by
    unfold decryptTurn
    simp only
    rw [xorIv_spec _ (.inl rfl) (by exact hout)]
    simp only [CbcRun.put, load_block, store_block, stateOf_bytesOf, hcrypt, hiv]
  rw [heq]
  refine ⟨rfl, rfl, ?_⟩
  simp only [cbcDecryptStep, CbcRun.put, CbcRun.advance, hblock]

theorem addState_cancel (a b : State) : addState (addState a b) b = a := by
  funext j r
  change (a j r ^^^ b j r) ^^^ b j r = a j r
  rw [UInt8.xor_assoc, UInt8.xor_self, UInt8.xor_zero]

/-! ## The loops -/

theorem Layout.first {iv n : Nat} {r : CbcRun} (h : Layout iv (n + 1) r) : Layout iv 1 r := by
  obtain ⟨h1, h2, h3⟩ := h
  unfold Apart at h1 h2 h3
  exact ⟨by unfold Apart; omega, by unfold Apart; omega, by unfold Apart; omega⟩

theorem Layout.rest {step : State → State → State × State} {iv n : Nat} {r r' : CbcRun}
    (h : Layout iv (n + 1) r) (hturn : Turn step iv r r') : Layout iv n r' := by
  obtain ⟨h1, h2, h3⟩ := h
  have hinput := hturn.input
  have houtput := hturn.output
  unfold Apart at h1 h2 h3
  exact ⟨by unfold Apart; omega, by unfold Apart; omega, by unfold Apart; omega⟩

/-- A cell that a turn does not write. -/
theorem Turn.frame {step : State → State → State × State} {iv : Nat} {r r' : CbcRun}
    (h : Turn step iv r r') {a : Nat} (hout : a < r.output ∨ r.output + 16 ≤ a)
    (hiv : a < iv ∨ iv + 16 ≤ a) : r'.mem a = r.mem a := by
  rw [h.mem, Memory.store_outside _ _ (by rwa [length_bytesOf]),
    Memory.store_outside _ _ (by rwa [length_bytesOf])]

theorem blocksOf_load (n : Nat) (m : Memory UInt8) (p : Nat) : blocksOf (n + 1) (m.load p (16 * (n + 1))) =
    stateOf (m.load p 16) :: blocksOf n (m.load (p + 16) (16 * n)) := by
  change stateOf ((m.load p (16 * (n + 1))).take 16) :: blocksOf n ((m.load p (16 * (n + 1))).drop 16) = _
  rw [Nat.mul_succ, Nat.add_comm, Memory.load_add, List.take_left' (Memory.length_load _ _ _),
    List.drop_left' (Memory.length_load _ _ _)]

/-- What a loop leaves behind. -/
structure Chained (step : State → State → State × State) (iv n : Nat) (r r' : CbcRun) : Prop where
  output : r'.mem.load r.output (16 * n) = bytesOfBlocks
    (chain step (stateOf (r.mem.load iv 16)) (blocksOf n (r.mem.load r.input (16 * n)))).2
  value : r'.mem.load iv 16 = bytesOf
    (chain step (stateOf (r.mem.load iv 16)) (blocksOf n (r.mem.load r.input (16 * n)))).1
  frame : ∀ a, a < r.output ∨ r.output + 16 * n ≤ a → a < iv ∨ iv + 16 ≤ a → r'.mem a = r.mem a

/-- **The loop is the chain of its blocks.** -/
theorem iterate_spec {step : State → State → State × State} {turn : CbcRun → CbcRun} {iv : Nat}
    (hturn : ∀ r, Layout iv 1 r → Turn step iv r (turn r)) (n : Nat) (r : CbcRun) (hl : Layout iv n r) :
    Chained step iv n r (turn^[n] r) := by
  induction n generalizing r with
  | zero =>
    exact ⟨rfl, (bytesOf_stateOf (Memory.length_load _ _ _)).symm, fun _ _ _ => rfl⟩
  | succ n ih =>
    have h := hturn r hl.first
    have hrest := ih (turn r) (hl.rest h)
    rw [Function.iterate_succ_apply]
    generalize turn r = r₁ at *
    obtain ⟨hout, hvalue, hframe⟩ := hrest
    obtain ⟨h1, h2, h3⟩ := hl
    unfold Apart at h1 h2 h3
    -- the turn leaves the other blocks of the input alone
    have hinput : r₁.mem.load r₁.input (16 * n) = r.mem.load (r.input + 16) (16 * n) := by
      rw [h.input]
      exact Memory.load_congr fun a ha hlt => h.frame (by omega) (by omega)
    have hiv : stateOf (r₁.mem.load iv 16) =
        (step (stateOf (r.mem.load iv 16)) (stateOf (r.mem.load r.input 16))).1 := by
      rw [h.mem, load_block, stateOf_bytesOf]
    -- and the other turns leave its block alone
    have hfirst : (turn^[n] r₁).mem.load r.output 16 =
        bytesOf (step (stateOf (r.mem.load iv 16)) (stateOf (r.mem.load r.input 16))).2 := by
      have hkeep : (turn^[n] r₁).mem.load r.output 16 = r₁.mem.load r.output 16 := Memory.load_congr
        fun a ha hlt => hframe a (.inl (by rw [h.output]; omega)) (by omega)
      rw [hkeep, h.mem]
      have hapart : iv + 16 ≤ r.output ∨ r.output + 16 ≤ iv := by omega
      rcases hapart with hlt | hge
      · rw [Memory.load_store_after _ _ (by rwa [length_bytesOf]), load_block]
      · rw [Memory.load_store_before _ _ hge, load_block]
    rw [hiv, hinput] at hout hvalue
    refine ⟨?_, ?_, fun a ha hiva => ?_⟩
    · rw [blocksOf_load, chain, Nat.mul_succ, Nat.add_comm, Memory.load_add, hfirst, ← h.output, hout]
      rfl
    · rw [blocksOf_load, chain, hvalue]
    · rw [hframe a (by rw [h.output]; omega) hiva, h.frame (by omega) hiva]

theorem utilsAesCryptCbc_encrypt (h : Encrypts nk key ctx) (ht : t.Right) {n iv input output : Nat}
    (m : Memory UInt8) (hl : Layout iv n ⟨m, input, output⟩) :
    (utilsAesCryptCbc t ctx utilsAesEncrypt (16 * n) iv input output m).1 = 0 ∧
    Chained (cbcEncryptStep addState (cipher nk (keyColumns key))) iv n ⟨m, input, output⟩
      ⟨(utilsAesCryptCbc t ctx utilsAesEncrypt (16 * n) iv input output m).2, input, output⟩ := by
  have hrun := iterate_spec (fun r hr => encryptTurn_spec h ht hr) n _ hl
  have hdiv : 16 * n / 16 = n := by omega
  rw [utilsAesCryptCbc, if_neg (by omega), if_neg (by decide), hdiv]
  exact ⟨rfl, hrun.output, hrun.value, hrun.frame⟩

theorem utilsAesCryptCbc_decrypt (h : Decrypts nk key ctx) (ht : t.Right) {n iv input output : Nat}
    (m : Memory UInt8) (hl : Layout iv n ⟨m, input, output⟩) :
    (utilsAesCryptCbc t ctx utilsAesDecrypt (16 * n) iv input output m).1 = 0 ∧
    Chained (cbcDecryptStep addState (decipher nk (keyColumns key))) iv n ⟨m, input, output⟩
      ⟨(utilsAesCryptCbc t ctx utilsAesDecrypt (16 * n) iv input output m).2, input, output⟩ := by
  have hrun := iterate_spec (fun r hr => decryptTurn_spec h ht hr) n _ hl
  have hdiv : 16 * n / 16 = n := by omega
  rw [utilsAesCryptCbc, if_neg (by omega), if_pos rfl, hdiv]
  exact ⟨rfl, hrun.output, hrun.value, hrun.frame⟩

/-! ## The call -/

/-- The blocks of data with its padding. -/
def paddedBlocks (datalen : Nat) : Nat := datalen / 16 + 1

/-- Data with zeros up to a whole block, and a block of them behind whole blocks. -/
def padded (data : Bytes) : Bytes :=
  data ++ List.replicate (utilsAesBlockLen - data.length % utilsAesBlockLen) 0

theorem length_padded (data : Bytes) : (padded data).length = 16 * paddedBlocks data.length := by
  rw [padded, List.length_append, List.length_replicate, utilsAesBlockLen, paddedBlocks]
  omega

/-- The ciphertext of whole blocks. -/
def cbcBytes (nk : Nat) (key iv plain : Bytes) : Bytes :=
  bytesOfBlocks (chain (cbcEncryptStep addState (cipher nk (keyColumns key))) (stateOf iv)
    (blocksOf (plain.length / 16) plain)).2

/-- What whole blocks of ciphertext are decrypted to. -/
def cbcBytesBack (nk : Nat) (key iv cipher : Bytes) : Bytes :=
  bytesOfBlocks (chain (cbcDecryptStep addState (decipher nk (keyColumns key))) (stateOf iv)
    (blocksOf (cipher.length / 16) cipher)).2

theorem length_cbcBytes (nk : Nat) (key iv : Bytes) {n : Nat} {plain : Bytes} (h : plain.length = 16 * n) :
    (cbcBytes nk key iv plain).length = 16 * n := by
  rw [cbcBytes, length_bytesOfBlocks, length_chain, length_blocksOf, h, Nat.mul_div_cancel_left _ (by omega)]

theorem blocksOf_append {n k : Nat} {xs ys : Bytes} (h : xs.length = 16 * n) :
    blocksOf (n + k) (xs ++ ys) = blocksOf n xs ++ blocksOf k ys := by
  induction n generalizing xs with
  | zero => rw [List.eq_nil_of_length_eq_zero h, Nat.zero_add, List.nil_append, blocksOf, List.nil_append]
  | succ n ih =>
    have hdrop : (xs.drop 16).length = 16 * n := by
      rw [List.length_drop]
      omega
    rw [show n + 1 + k = n + k + 1 by omega, blocksOf, blocksOf, List.take_append_of_le_length (by omega),
      List.drop_append_of_le_length (by omega), ih hdrop, List.cons_append]

/-- **Whole blocks come out again**, and what is decrypted behind them does not matter. -/
theorem cbcBytesBack_append (nk : Nat) (key iv : Bytes) {n k : Nat} {plain behind : Bytes}
    (hplain : plain.length = 16 * n)
    (hbehind : behind.length = 16 * k) : ∃ garbage : Bytes, garbage.length = behind.length ∧
      cbcBytesBack nk key iv (cbcBytes nk key iv plain ++ behind) = plain ++ garbage := by
  have hlen := length_cbcBytes nk key iv hplain
  have hdiv : (cbcBytes nk key iv plain ++ behind).length / 16 = n + k := by
    rw [List.length_append, hlen, hbehind, ← Nat.mul_add, Nat.mul_div_cancel_left _ (by omega)]
  have hdiv' : plain.length / 16 = n := by omega
  have hblocks := blocksOf_bytesOfBlocks (chain (cbcEncryptStep addState (cipher nk (keyColumns key)))
    (stateOf iv) (blocksOf n plain)).2
  rw [length_chain, length_blocksOf] at hblocks
  rw [cbcBytesBack, hdiv, blocksOf_append hlen, cbcBytes, hdiv', hblocks, chain_append,
    chain_decrypt_encrypt addState_cancel (decipher_cipher nk _)]
  simp only
  generalize hrest : chain _ _ (blocksOf k behind) = rest
  have hlenRest : rest.2.length = k := by rw [← hrest, length_chain, length_blocksOf]
  refine ⟨bytesOfBlocks rest.2, by rw [length_bytesOfBlocks, hlenRest, hbehind], ?_⟩
  rw [bytesOfBlocks, List.flatMap_append]
  exact congrArg (· ++ _) (bytesOfBlocks_blocksOf hplain)

theorem cbcBytesBack_cbcBytes {nk n : Nat} {key iv plain : Bytes} (hplain : plain.length = 16 * n) :
    cbcBytesBack nk key iv (cbcBytes nk key iv plain) = plain := by
  obtain ⟨garbage, hlen, h⟩ := cbcBytesBack_append nk key iv hplain
    (show ([] : Bytes).length = 16 * 0 from rfl)
  rwa [List.append_nil, List.eq_nil_of_length_eq_zero hlen, List.append_nil] at h

/-- What stands in the input when the loop begins: padded data in place, or the bytes of the input. -/
def cbcPlain (m : Memory UInt8) (pInData datalen pOutData : Nat) : Bytes :=
  if pInData = pOutData then padded (m.load pInData datalen)
  else m.load pInData (16 * paddedBlocks datalen)

theorem move_self (m : Memory UInt8) (p n : Nat) : m.move p p n = m := by
  funext a
  rw [Memory.move]
  by_cases h : a < p ∨ p + (m.load p n).length ≤ a
  · exact Memory.store_outside _ _ h
  · obtain ⟨k, rfl⟩ := Nat.exists_eq_add_of_le (Nat.le_of_not_lt fun hlt => h (.inl hlt))
    rw [Memory.store_inside _ _ (by omega)]
    simp [Memory.load]

/-- The memory when the loop begins. -/
theorem load_prepared (m : Memory UInt8) {pInData datalen pOutData : Nat}
    (hio : pInData = pOutData ∨ Apart pInData (16 * paddedBlocks datalen) pOutData
      (16 * paddedBlocks datalen)) :
    ((m.move pOutData pInData datalen).fill (pOutData + datalen) 0
      (utilsAesBlockLen - datalen % utilsAesBlockLen)).load pInData (16 * paddedBlocks datalen) =
        cbcPlain m pInData datalen pOutData := by
  have hlen : 16 * paddedBlocks datalen =
      datalen + (utilsAesBlockLen - datalen % utilsAesBlockLen) := by
    unfold paddedBlocks utilsAesBlockLen
    omega
  unfold cbcPlain
  by_cases heq : pInData = pOutData
  · rw [if_pos heq, heq, move_self, hlen, Memory.load_add, Memory.load_fill_before _ _ (Nat.le_refl _),
      padded, Memory.length_load]
    have hfill := Memory.load_store m (pOutData + datalen)
      (List.replicate (utilsAesBlockLen - datalen % utilsAesBlockLen) 0)
    rw [List.length_replicate] at hfill
    exact congrArg _ hfill
  · rw [if_neg heq]
    have hapart := hio.resolve_left heq
    unfold Apart at hapart
    refine Memory.load_congr fun a ha hlt => ?_
    rw [Memory.fill, Memory.store_outside _ _ (by rw [List.length_replicate]; omega), Memory.move,
      Memory.store_outside _ _ (by rw [Memory.length_load]; omega)]

/-- A cell outside the output when the loop begins. -/
theorem prepared_outside (m : Memory UInt8) (pInData : Nat) {datalen pOutData a : Nat}
    (h : a < pOutData ∨ pOutData + 16 * paddedBlocks datalen ≤ a) :
    ((m.move pOutData pInData datalen).fill (pOutData + datalen) 0
      (utilsAesBlockLen - datalen % utilsAesBlockLen)) a = m a := by
  have hlen : 16 * paddedBlocks datalen =
      datalen + (utilsAesBlockLen - datalen % utilsAesBlockLen) := by
    unfold paddedBlocks utilsAesBlockLen
    omega
  rw [Memory.fill, Memory.store_outside _ _ (by rw [List.length_replicate]; omega), Memory.move,
    Memory.store_outside _ _ (by rw [Memory.length_load]; omega)]

theorem keybits_div (nk : Nat) : 32 * nk / 8 = 4 * nk := by omega

/-- **Encryption**: from any state of the statics, with room for the padding and `iv` apart from the
buffers, these being the same or apart, `output` holds the ciphertext of `cbcPlain` and nothing else is
written but `iv`. -/
theorem utilsAesCbc_encrypt {s : AesStatics} (hs : s.Reachable) {nk : Nat} (hnk : KeyWords nk)
    (pow log : Nat → Nat) (ctx : AesContext) (pKey : Nat)
    {pInData datalen pOutData outBuffLen iv : Nat} {m : Memory UInt8}
    (hbuff : outBuffLen < 2 ^ 32) (hroom : datalen + utilsAesBlockLen ≤ outBuffLen)
    (hl : Layout iv (paddedBlocks datalen) ⟨m, pInData, pOutData⟩) :
    (utilsAesCbc pow log s ctx pInData datalen pOutData outBuffLen utilsAesEncrypt pKey (32 * nk) iv
      m).1 = 0 ∧
    (utilsAesCbc pow log s ctx pInData datalen pOutData outBuffLen utilsAesEncrypt pKey (32 * nk) iv
      m).2.2.load pOutData (16 * paddedBlocks datalen) =
        cbcBytes nk (m.load pKey (4 * nk)) (m.load iv 16) (cbcPlain m pInData datalen pOutData) ∧
    ∀ a, a < pOutData ∨ pOutData + 16 * paddedBlocks datalen ≤ a → a < iv ∨ iv + 16 ≤ a →
      (utilsAesCbc pow log s ctx pInData datalen pOutData outBuffLen utilsAesEncrypt pKey (32 * nk) iv
        m).2.2 a = m a := by
  have henc := utilsAesSetkeyEnc_spec hs.ready hnk pow log (utilsAesInit ctx) (m.load pKey (4 * nk))
  have hunwrapped : (datalen + utilsAesBlockLen) % 2 ^ 32 = datalen + utilsAesBlockLen :=
    Nat.mod_eq_of_lt (by omega)
  have htotal : (datalen + (utilsAesBlockLen - datalen % utilsAesBlockLen)) % 2 ^ 32 =
      16 * paddedBlocks datalen := by
    unfold utilsAesBlockLen paddedBlocks at *
    omega
  have hprepared := load_prepared m hl.inputOutput
  have houtside : ∀ a, a < pOutData ∨ pOutData + 16 * paddedBlocks datalen ≤ a → _ = m a :=
    fun a ha => prepared_outside m pInData ha
  have hdiv : (cbcPlain m pInData datalen pOutData).length / 16 = paddedBlocks datalen := by
    rw [← hprepared, Memory.length_load, Nat.mul_div_cancel_left _ (by omega)]
  unfold utilsAesCbc
  simp only
  rw [if_pos trivial, keybits_div]
  generalize utilsAesSetkeyEnc pow log s (utilsAesInit ctx) (m.load pKey (4 * nk)) (32 * nk) = r at *
  obtain ⟨ret, s', ctx'⟩ := r
  obtain rfl : ret = 0 := henc.ret
  simp only
  rw [if_neg (not_not.mpr rfl), if_neg (by omega), htotal]
  generalize (m.move pOutData pInData datalen).fill _ _ _ = m₁ at *
  obtain ⟨hret, hout, -, hframe⟩ := utilsAesCryptCbc_encrypt (henc.encrypts hnk) henc.right
    m₁ (show Layout iv (paddedBlocks datalen) ⟨m₁, pInData, pOutData⟩ from
      ⟨hl.ivInput, hl.ivOutput, hl.inputOutput⟩)
  have hiv : m₁.load iv 16 = m.load iv 16 := Memory.load_congr fun a ha hlt => houtside a (by
    have h : iv + 16 ≤ pOutData ∨ pOutData + 16 * paddedBlocks datalen ≤ iv := hl.ivOutput
    omega)
  simp only at hret hout hframe
  rw [hiv, hprepared] at hout
  refine ⟨?_, ?_, fun a ha hiva => ?_⟩
  · rw [hret]
    rfl
  · rw [hout, cbcBytes, hdiv]
  · rw [hframe a ha hiva, houtside a ha]

/-- **Decryption** of whole blocks, in place. -/
theorem utilsAesCbc_decrypt {s : AesStatics} (hs : s.Reachable) {nk : Nat} (hnk : KeyWords nk)
    (pow log : Nat → Nat) (ctx : AesContext) (p n outBuffLen pKey iv : Nat) {m : Memory UInt8}
    (hl : Apart iv 16 p (16 * n)) :
    (utilsAesCbc pow log s ctx p (16 * n) p outBuffLen utilsAesDecrypt pKey (32 * nk) iv m).1 = 0 ∧
    (utilsAesCbc pow log s ctx p (16 * n) p outBuffLen utilsAesDecrypt pKey (32 * nk) iv m).2.2.load p
      (16 * n) = cbcBytesBack nk (m.load pKey (4 * nk)) (m.load iv 16) (m.load p (16 * n)) ∧
    ∀ a, a < p ∨ p + 16 * n ≤ a → a < iv ∨ iv + 16 ≤ a →
      (utilsAesCbc pow log s ctx p (16 * n) p outBuffLen utilsAesDecrypt pKey (32 * nk) iv m).2.2 a =
        m a := by
  have hdec := utilsAesSetkeyDec_spec hs.ready hnk pow log ⟨0, fun _ => 0⟩ (utilsAesInit ctx)
    (m.load pKey (4 * nk))
  have hdiv : (m.load p (16 * n)).length / 16 = n := by
    rw [Memory.length_load, Nat.mul_div_cancel_left _ (by omega)]
  unfold utilsAesCbc
  simp only
  rw [if_neg (by decide), keybits_div]
  generalize utilsAesSetkeyDec pow log s _ (utilsAesInit ctx) (m.load pKey (4 * nk)) (32 * nk) = r at *
  obtain ⟨ret, s', ctx'⟩ := r
  obtain rfl : ret = 0 := hdec.ret
  simp only
  rw [if_neg (not_not.mpr rfl)]
  obtain ⟨hret, hout, -, hframe⟩ := utilsAesCryptCbc_decrypt (hdec.decrypts hnk) hdec.right
    m (show Layout iv n ⟨m, p, p⟩ from ⟨hl, hl, .inl rfl⟩)
  simp only at hret hout hframe
  refine ⟨?_, ?_, fun a ha hiva => hframe a ha hiva⟩
  · rw [hret]
    rfl
  · rw [hout, cbcBytesBack, hdiv]

/-- A memory in which each byte is the low byte of its address. -/
def countingMemory : Memory UInt8 := fun a => UInt8.ofNat a

/-- It with the ciphertext of its first five bytes. -/
def cipheredMemory : Memory UInt8 :=
  countingMemory.store 0 ((utilsAesCbc (fun _ => 0) (fun _ => 0) startStatics blankContext 0 5 0 64
    utilsAesEncrypt 200 (32 * 4) 100 countingMemory).2.2.load 0 (16 * paddedBlocks 5))

theorem cipheredMemory_load {p n : Nat} (h : 16 ≤ p) :
    cipheredMemory.load p n = countingMemory.load p n :=
  Memory.load_store_after _ _ (by rw [Memory.length_load]; exact h)

theorem cipheredMemory_cipher : cipheredMemory.load 0 (16 * paddedBlocks 5) =
    (utilsAesCbc (fun _ => 0) (fun _ => 0) startStatics blankContext 0 5 0 64 utilsAesEncrypt 200 (32 * 4)
      100 countingMemory).2.2.load 0 (16 * paddedBlocks 5) := by
  have h := Memory.load_store countingMemory 0 ((utilsAesCbc (fun _ => 0) (fun _ => 0) startStatics
    blankContext 0 5 0 64 utilsAesEncrypt 200 (32 * 4) 100 countingMemory).2.2.load 0
      (16 * paddedBlocks 5))
  rwa [Memory.length_load] at h

/-- **There and back**: data of any length encrypted in place come out again with the zeros of the
padding, from any state of the statics; between the calls the ciphertext, the key and the value may be
taken anywhere. -/
theorem utilsAesCbc_roundTrip {s₁ s₂ : AesStatics} (h₁ : s₁.Reachable) (h₂ : s₂.Reachable) {nk : Nat}
    (hnk : KeyWords nk) (pow log : Nat → Nat) (ctx₁ ctx₂ : AesContext)
    {p₁ p₂ datalen outBuffLen₁ outBuffLen₂ pKey₁ pKey₂ iv₁ iv₂ : Nat} {m₁ m₂ : Memory UInt8}
    (hbuff : outBuffLen₁ < 2 ^ 32) (hroom : datalen + utilsAesBlockLen ≤ outBuffLen₁)
    (hl₁ : Apart iv₁ 16 p₁ (16 * paddedBlocks datalen))
    (hl₂ : Apart iv₂ 16 p₂ (16 * paddedBlocks datalen))
    (hcipher : m₂.load p₂ (16 * paddedBlocks datalen) = (utilsAesCbc pow log s₁ ctx₁ p₁ datalen p₁
      outBuffLen₁ utilsAesEncrypt pKey₁ (32 * nk) iv₁ m₁).2.2.load p₁ (16 * paddedBlocks datalen))
    (hkey : m₂.load pKey₂ (4 * nk) = m₁.load pKey₁ (4 * nk))
    (hvalue : m₂.load iv₂ 16 = m₁.load iv₁ 16) :
    (utilsAesCbc pow log s₁ ctx₁ p₁ datalen p₁ outBuffLen₁ utilsAesEncrypt pKey₁ (32 * nk) iv₁ m₁).1 = 0 ∧
    (utilsAesCbc pow log s₂ ctx₂ p₂ (16 * paddedBlocks datalen) p₂ outBuffLen₂ utilsAesDecrypt pKey₂
      (32 * nk) iv₂ m₂).1 = 0 ∧
    (utilsAesCbc pow log s₂ ctx₂ p₂ (16 * paddedBlocks datalen) p₂ outBuffLen₂ utilsAesDecrypt pKey₂
      (32 * nk) iv₂ m₂).2.2.load p₂ (16 * paddedBlocks datalen) = padded (m₁.load p₁ datalen) := by
  obtain ⟨hret, hout, -⟩ := utilsAesCbc_encrypt h₁ hnk pow log ctx₁ pKey₁ hbuff hroom
    (show Layout iv₁ (paddedBlocks datalen) ⟨m₁, p₁, p₁⟩ from ⟨hl₁, hl₁, .inl rfl⟩)
  obtain ⟨hret', hout', -⟩ := utilsAesCbc_decrypt h₂ hnk pow log ctx₂ p₂ (paddedBlocks datalen)
    outBuffLen₂ pKey₂ iv₂ (m := m₂) hl₂
  have hpadded := length_padded (m₁.load p₁ datalen)
  rw [Memory.length_load] at hpadded
  refine ⟨hret, hret', ?_⟩
  rw [hout', hcipher, hout, hkey, hvalue, cbcPlain, if_pos rfl, cbcBytesBack_cbcBytes hpadded]

/-- Five bytes there and back. -/
theorem utilsAesCbc_five :
    (utilsAesCbc (fun _ => 0) (fun _ => 0) startStatics blankContext 0 5 0 64 utilsAesEncrypt 200 (32 * 4)
      100 countingMemory).1 = 0 ∧
    (utilsAesCbc (fun _ => 0) (fun _ => 0) usedStatics blankContext 0 (16 * paddedBlocks 5) 0 16
      utilsAesDecrypt 200 (32 * 4) 100 cipheredMemory).1 = 0 ∧
    (utilsAesCbc (fun _ => 0) (fun _ => 0) usedStatics blankContext 0 (16 * paddedBlocks 5) 0 16
      utilsAesDecrypt 200 (32 * 4) 100 cipheredMemory).2.2.load 0 (16 * paddedBlocks 5) =
        padded (countingMemory.load 0 5) :=
  utilsAesCbc_roundTrip startStatics_reachable usedStatics_reachable (.inl rfl) _ _ _ _ (by decide)
    (by decide) (.inr (by decide)) (.inr (by decide)) cipheredMemory_cipher
    (cipheredMemory_load (by decide)) (cipheredMemory_load (by decide))

/-- **Two buffers**: what is encrypted then are the bytes that stand behind the data in the input, and not
the padding; the last block depends on up to sixteen bytes that are no part of the data. -/
theorem utilsAesCbc_apart {s : AesStatics} (hs : s.Reachable) {nk : Nat} (hnk : KeyWords nk)
    (pow log : Nat → Nat) (ctx : AesContext)
    {pInData datalen pOutData outBuffLen pKey iv : Nat} {m : Memory UInt8}
    (hbuff : outBuffLen < 2 ^ 32) (hroom : datalen + utilsAesBlockLen ≤ outBuffLen)
    (hin : Apart iv 16 pInData (16 * paddedBlocks datalen))
    (hout : Apart iv 16 pOutData (16 * paddedBlocks datalen))
    (hio : Apart pInData (16 * paddedBlocks datalen) pOutData (16 * paddedBlocks datalen)) :
    (utilsAesCbc pow log s ctx pInData datalen pOutData outBuffLen utilsAesEncrypt pKey (32 * nk) iv
      m).1 = 0 ∧
    cbcBytesBack nk (m.load pKey (4 * nk)) (m.load iv 16) ((utilsAesCbc pow log s ctx pInData datalen
      pOutData outBuffLen utilsAesEncrypt pKey (32 * nk) iv m).2.2.load pOutData
        (16 * paddedBlocks datalen)) = m.load pInData (16 * paddedBlocks datalen) ∧
    datalen < 16 * paddedBlocks datalen := by
  obtain ⟨hret, hcipher, -⟩ := utilsAesCbc_encrypt hs hnk pow log ctx pKey hbuff hroom
    (show Layout iv (paddedBlocks datalen) ⟨m, pInData, pOutData⟩ from ⟨hin, hout, .inr hio⟩)
  have hne : pInData ≠ pOutData := by
    rintro rfl
    unfold Apart paddedBlocks at hio
    omega
  refine ⟨hret, ?_, by unfold paddedBlocks; omega⟩
  rw [hcipher, cbcPlain, if_neg hne, cbcBytesBack_cbcBytes (Memory.length_load _ _ _)]

/-- Five bytes into another buffer. -/
theorem utilsAesCbc_five_apart :
    (utilsAesCbc (fun _ => 0) (fun _ => 0) startStatics blankContext 0 5 32 64 utilsAesEncrypt 200 (32 * 4)
      100 countingMemory).1 = 0 ∧
    cbcBytesBack 4 (countingMemory.load 200 (4 * 4)) (countingMemory.load 100 16) ((utilsAesCbc
      (fun _ => 0) (fun _ => 0) startStatics blankContext 0 5 32 64 utilsAesEncrypt 200 (32 * 4) 100
        countingMemory).2.2.load 32 (16 * paddedBlocks 5)) =
          countingMemory.load 0 (16 * paddedBlocks 5) ∧
    5 < 16 * paddedBlocks 5 :=
  utilsAesCbc_apart startStatics_reachable (.inl rfl) _ _ _ (by decide) (by decide) (.inr (by decide))
    (.inr (by decide)) (.inl (by decide))

end QcloudIot.Utils.Aes
