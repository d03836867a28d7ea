import Mathlib.Logic.Function.Basic
import QcloudIot.Lib.Rijndael
import QcloudIot.Lib.Run
import QcloudIot.Lib.WordBytes

/-!
# The tables of AES

`aes_gen_tables` of `utils_aes.c`, in the build without tables in ROM: the powers and logarithms over the
bytes, the round constants, the two boxes and the eight tables of a round. `int` is `Nat`, since no
value is negative; an array is a function from indices to values, with whatever it holds at first.

* `powLog_spec`: the loop over `pow` and `log`;
* `mul_eq`, `sboxInt_eq`: a product by logarithms, and a byte of the box by shifts;
* **`aesGenTables_spec`**: every table holds what its name says, whatever the arrays held before.
-/

namespace QcloudIot.Utils.Aes

open Lib Lib.Rijndael

/-- `FSb`, `FT0` to `FT3`, `RSb`, `RT0` to `RT3` and `RCON`. -/
structure AesTables where
  fsb : Nat → UInt8
  ft0 : Nat → UInt32
  ft1 : Nat → UInt32
  ft2 : Nat → UInt32
  ft3 : Nat → UInt32
  rsb : Nat → UInt8
  rt0 : Nat → UInt32
  rt1 : Nat → UInt32
  rt2 : Nat → UInt32
  rt3 : Nat → UInt32
  rcon : Nat → UInt32

/-- `pow`, `log` and `x`. -/
structure Powers where
  pow : Nat → Nat
  log : Nat → Nat
  x : Nat

/-- `XTIME`. -/
def xtime (x : Nat) : Nat := (x <<< 1) ^^^ (if x &&& 0x80 ≠ 0 then 0x1B else 0x00)

/-- `MUL`. -/
def mul (p : Powers) (x y : Nat) : Nat :=
  if x ≠ 0 ∧ y ≠ 0 then p.pow ((p.log x + p.log y) % 255) else 0

/-- `ROTL8`. -/
def rotl8 (x : UInt32) : UInt32 := ((x <<< 8) &&& (0xFFFFFFFF : UInt32)) ||| x >>> 24

/-- A turn of the loop over `pow` and `log`. -/
def powLogTurn (i : Nat) (p : Powers) : Powers where
  pow := Function.update p.pow i p.x
  log := Function.update p.log p.x i
  x := (p.x ^^^ xtime p.x) &&& 0xFF

/-- The powers and logarithms. -/
def powLog (pow log : Nat → Nat) : Powers := forTo 256 powLogTurn ⟨pow, log, 1⟩

/-- A turn of the loop over `RCON`. -/
def rconTurn (i : Nat) (s : AesTables × Nat) : AesTables × Nat :=
  ({ s.1 with rcon := Function.update s.1.rcon i (UInt32.ofNat s.2) }, xtime s.2 &&& 0xFF)

/-- The byte of the box, of the inverse. -/
def sboxInt (x : Nat) : Nat :=
  let y := x
  let y := (y <<< 1 ||| y >>> 7) &&& 0xFF
  let x := x ^^^ y
  let y := (y <<< 1 ||| y >>> 7) &&& 0xFF
  let x := x ^^^ y
  let y := (y <<< 1 ||| y >>> 7) &&& 0xFF
  let x := x ^^^ y
  let y := (y <<< 1 ||| y >>> 7) &&& 0xFF
  x ^^^ (y ^^^ 0x63)

/-- A turn of the loop over the boxes. -/
def boxTurn (p : Powers) (i : Nat) (t : AesTables) : AesTables :=
  let x := sboxInt (p.pow (255 - p.log i))
  { t with
    fsb := Function.update t.fsb i (UInt8.ofNat x)
    rsb := Function.update t.rsb x (UInt8.ofNat i) }

/-- `FT0[i]`, of `FSb[i]`. -/
def ft0Word (x : Nat) : UInt32 :=
  let y := xtime x &&& 0xFF
  let z := (y ^^^ x) &&& 0xFF
  UInt32.ofNat y ^^^ UInt32.ofNat x <<< 8 ^^^ UInt32.ofNat x <<< 16 ^^^ UInt32.ofNat z <<< 24

/-- `RT0[i]`, of `RSb[i]`. -/
def rt0Word (p : Powers) (x : Nat) : UInt32 :=
  UInt32.ofNat (mul p 0x0E x) ^^^ UInt32.ofNat (mul p 0x09 x) <<< 8 ^^^
    UInt32.ofNat (mul p 0x0D x) <<< 16 ^^^ UInt32.ofNat (mul p 0x0B x) <<< 24

/-- A turn of the loop over the tables of a round. -/
def roundTurn (p : Powers) (i : Nat) (t : AesTables) : AesTables :=
  let ft0 := ft0Word (t.fsb i).toNat
  let rt0 := rt0Word p (t.rsb i).toNat
  { t with
    ft0 := Function.update t.ft0 i ft0
    ft1 := Function.update t.ft1 i (rotl8 ft0)
    ft2 := Function.update t.ft2 i (rotl8 (rotl8 ft0))
    ft3 := Function.update t.ft3 i (rotl8 (rotl8 (rotl8 ft0)))
    rt0 := Function.update t.rt0 i rt0
    rt1 := Function.update t.rt1 i (rotl8 rt0)
    rt2 := Function.update t.rt2 i (rotl8 (rotl8 rt0))
    rt3 := Function.update t.rt3 i (rotl8 (rotl8 (rotl8 rt0))) }

/-- `aes_gen_tables` behind its first loop. -/
def tablesFrom (p : Powers) (t : AesTables) : AesTables :=
  let t := (forTo 10 rconTurn (t, 1)).1
  let t := { t with
    fsb := Function.update t.fsb 0x00 0x63
    rsb := Function.update t.rsb 0x63 0x00 }
  let t := forTo 255 (fun i => boxTurn p (i + 1)) t
  forTo 256 (roundTurn p) t

/-- `aes_gen_tables`, with what stands in its arrays when it is called. -/
def aesGenTables (pow log : Nat → Nat) (t : AesTables) : AesTables := tablesFrom (powLog pow log) t

/-! ## What the tables are -/

/-- The tables of a round by the row of their byte. -/
def AesTables.ft (t : AesTables) : Fin 4 → Nat → UInt32
  | 0 => t.ft0
  | 1 => t.ft1
  | 2 => t.ft2
  | 3 => t.ft3

def AesTables.rt (t : AesTables) : Fin 4 → Nat → UInt32
  | 0 => t.rt0
  | 1 => t.rt1
  | 2 => t.rt2
  | 3 => t.rt3

/-- The boxes substitute, the tables of a round substitute and mix, and the constants are there. -/
structure AesTables.Right (t : AesTables) : Prop where
  fsb : ∀ b : UInt8, t.fsb b.toNat = sbox b
  rsb : ∀ b : UInt8, t.rsb b.toNat = unsbox b
  ft : ∀ (k : Fin 4) (b : UInt8), t.ft k b.toNat = word (part mixMatrix k (sbox b))
  rt : ∀ (k : Fin 4) (b : UInt8), t.rt k b.toNat = word (part unmixMatrix k (unsbox b))
  rcon : ∀ i < 10, t.rcon i = (Rijndael.rcon i).toUInt32

/-! ## Bytes in an `int` -/

theorem toNat_and_255 (b : UInt8) : b.toNat &&& 0xFF = b.toNat := by
  have hlt := b.toNat_lt
  rw [show (0xFF : Nat) = 2 ^ 8 - 1 from rfl, Nat.and_two_pow_sub_one_eq_mod]
  omega

theorem xtime_eq (b : UInt8) : xtime b.toNat &&& 0xFF = (ByteField.xtime b).toNat := by
  have hcond : (b.toNat &&& 0x80 ≠ 0) ↔ ¬ b &&& 0x80 = 0 := by
    rw [← UInt8.toNat_inj]
    rfl
  have hshift : b.toNat <<< 1 &&& 0xFF = (b <<< 1).toNat := by
    rw [show (0xFF : Nat) = 2 ^ 8 - 1 from rfl, Nat.and_two_pow_sub_one_eq_mod]
    rfl
  rw [xtime, Nat.and_xor_distrib_right, hshift, ByteField.xtime, UInt8.toNat_xor]
  congr 1
  by_cases h : b &&& 0x80 = 0
  · rw [if_pos h, if_neg (by rw [hcond]; exact not_not.mpr h)]
    rfl
  · rw [if_neg h, if_pos (hcond.mpr h)]
    rfl

theorem times3_eq (b : UInt8) : (b.toNat ^^^ xtime b.toNat) &&& 0xFF = (ByteField.times3 b).toNat := by
  rw [Nat.and_xor_distrib_right, toNat_and_255, xtime_eq, ← UInt8.toNat_xor]
  rfl

/-- The turns of the loop are the affine map. -/
theorem sboxInt_eq (b : UInt8) : sboxInt b.toNat = (affine b).toNat :=
  forall_byte (P := fun b => sboxInt b.toNat = (affine b).toNat) (by decide +kernel) b

/-! ## Powers and logarithms -/

/-- `pow` and `log` up to an index. -/
structure Powers.Filled (n : Nat) (p : Powers) : Prop where
  pow : ∀ i < n, p.pow i = (ByteField.gen i).toNat
  log : ∀ i, 1 ≤ i → i < n → p.log (ByteField.gen i).toNat = i
  x : p.x = (ByteField.gen n).toNat

theorem filled_turn {i : Nat} {p : Powers} (hi : i < 256) (h : p.Filled i) :
    (powLogTurn i p).Filled (i + 1) := by
  refine ⟨fun k hk => ?_, fun k h1 hk => ?_, ?_⟩
  · by_cases heq : k = i
    · rw [heq]
      exact (Function.update_self i p.x p.pow).trans h.x
    · exact (Function.update_of_ne heq p.x p.pow).trans (h.pow k (by omega))
  · change Function.update p.log p.x i (ByteField.gen k).toNat = k
    by_cases heq : k = i
    · rw [h.x, heq, Function.update_self]
    · have hne : (ByteField.gen k).toNat ≠ p.x := by
        rw [h.x]
        intro hgen
        refine heq (ByteField.gen_inj ?_ ?_ (UInt8.toNat_inj.mp hgen)) <;> rw [Finset.mem_Icc] <;> omega
      rw [Function.update_of_ne hne]
      exact h.log k h1 (by omega)
  · change (p.x ^^^ xtime p.x) &&& 0xFF = _
    rw [h.x, times3_eq]
    rfl

/-- **The loop over `pow` and `log`**, whatever they hold before. -/
theorem powLog_spec (pow log : Nat → Nat) : (powLog pow log).Filled 256 :=
  forTo_induction (fun i (p : Powers) => p.Filled i) 256 ⟨fun _ h => absurd h (Nat.not_lt_zero _),
    fun _ _ h => absurd h (Nat.not_lt_zero _), rfl⟩ fun _ _ hi h => filled_turn hi h

/-- A product by logarithms. -/
theorem mul_eq {p : Powers} (h : p.Filled 256) (a b : UInt8) :
    mul p a.toNat b.toNat = (ByteField.mul a b).toNat := by
  have hzero : ∀ c : UInt8, c.toNat = 0 ↔ c = 0 := fun c =>
    ⟨fun hc => UInt8.toNat_inj.mp hc, fun hc => hc ▸ rfl⟩
  unfold mul
  by_cases ha : a = 0
  · rw [if_neg (by rw [ha]; exact fun h => h.1 rfl), ha]
    exact (congrArg UInt8.toNat (ByteField.zero_mulBits 8 b)).symm
  by_cases hb : b = 0
  · rw [if_neg (by rw [hb]; exact fun h => h.2 rfl), hb, ByteField.mul_zero]
    rfl
  obtain ⟨i, hi1, hi, rfl⟩ := ByteField.exists_gen ha
  obtain ⟨j, hj1, hj, rfl⟩ := ByteField.exists_gen hb
  have hmod : (i + j) % 255 < 256 := (Nat.mod_lt _ (by omega)).trans (by omega)
  rw [if_pos ⟨mt (hzero _).mp ha, mt (hzero _).mp hb⟩, h.log i hi1 (by omega), h.log j hj1 (by omega),
    h.pow _ hmod, ByteField.gen_mod, ByteField.mul_gen]

/-- The power that the loop over the boxes takes is the inverse. -/
theorem inv_eq {p : Powers} (h : p.Filled 256) {b : UInt8} (hb : b ≠ 0) :
    p.pow (255 - p.log b.toNat) = (ByteField.inv b).toNat := by
  obtain ⟨i, hi1, hi, rfl⟩ := ByteField.exists_gen hb
  rw [h.log i hi1 (by omega), h.pow _ (by omega), ByteField.inv_gen hi]

/-! ## The loops over the tables -/

/-- The round constants up to an index. -/
theorem rcon_spec (t : AesTables) :
    ∀ k < 10, (forTo 10 rconTurn (t, 1)).1.rcon k = (Rijndael.rcon k).toUInt32 := by
  refine (forTo_induction (fun i (s : AesTables × Nat) => (∀ k < i, s.1.rcon k =
    (Rijndael.rcon k).toUInt32) ∧ s.2 = (Rijndael.rcon i).toNat) 10
    ⟨fun _ h => absurd h (Nat.not_lt_zero _), rfl⟩ fun i s _ h => ⟨fun k hk => ?_, ?_⟩).1
  · by_cases heq : k = i
    · rw [heq]
      refine (Function.update_self i (UInt32.ofNat s.2) s.1.rcon).trans ?_
      rw [h.2, UInt32.ofNat_uInt8ToNat]
    · exact (Function.update_of_ne heq _ s.1.rcon).trans (h.1 k (by omega))
  · change xtime s.2 &&& 0xFF = _
    rw [h.2, xtime_eq]
    rfl

/-- The boxes up to an index. -/
def BoxesUpTo (n : Nat) (t : AesTables) : Prop :=
  ∀ b : UInt8, b.toNat ≤ n → t.fsb b.toNat = sbox b ∧ t.rsb (sbox b).toNat = b

theorem boxTurn_eq {p : Powers} (h : p.Filled 256) {b : UInt8} (hb : b ≠ 0) (t : AesTables) :
    boxTurn p b.toNat t = { t with
      fsb := Function.update t.fsb b.toNat (sbox b)
      rsb := Function.update t.rsb (sbox b).toNat b } := by
  rw [boxTurn, inv_eq h hb, sboxInt_eq]
  simp only [UInt8.ofNat_toNat]
  rfl

theorem boxes_turn {p : Powers} (h : p.Filled 256) {i : Nat} (hi : i < 255) {t : AesTables}
    (ht : BoxesUpTo i t) : BoxesUpTo (i + 1) (boxTurn p (i + 1) t) := by
  obtain ⟨b, hb⟩ : ∃ b : UInt8, b.toNat = i + 1 :=
    ⟨UInt8.ofNat (i + 1), by rw [UInt8.toNat_ofNat']; omega⟩
  have hne : b ≠ 0 := fun hzero => by rw [hzero] at hb; cases hb
  intro c hc
  rw [← hb, boxTurn_eq h hne]
  by_cases heq : c = b
  · rw [heq]
    exact ⟨Function.update_self _ _ _, Function.update_self _ _ _⟩
  · have hother : c.toNat ≠ b.toNat := fun h => heq (UInt8.toNat_inj.mp h)
    have hbox : (sbox c).toNat ≠ (sbox b).toNat := fun h =>
      heq (sbox_injective (UInt8.toNat_inj.mp h))
    obtain ⟨hf, hr⟩ := ht c (by omega)
    exact ⟨(Function.update_of_ne hother _ _).trans hf, (Function.update_of_ne hbox _ _).trans hr⟩

theorem boxes_zero (t : AesTables) : BoxesUpTo 0 { t with
    fsb := Function.update t.fsb 0x00 0x63
    rsb := Function.update t.rsb 0x63 0x00 } := by
  have hbox : sbox 0 = 0x63 := by
    rw [sbox, ByteField.inv_zero]
    decide
  intro b hb
  obtain rfl : b = 0 := UInt8.toNat_inj.mp (Nat.le_zero.mp hb)
  rw [hbox]
  exact ⟨Function.update_self 0x00 (0x63 : UInt8) t.fsb, Function.update_self 0x63 (0x00 : UInt8) t.rsb⟩

/-- The next table of a byte is the one before, turned. -/
theorem rotl8_part (m : Column) (k : Fin 4) (a : UInt8) :
    rotl8 (word (part m k a)) = word (part m (k + 1) a) := by
  have hmask : ∀ w : UInt32, w &&& 0xFFFFFFFF = w := fun w => by
    refine UInt32.toNat_inj.mp ?_
    have hw := w.toNat_lt
    rw [UInt32.toNat_and]
    exact (Nat.and_two_pow_sub_one_eq_mod w.toNat 32).trans (Nat.mod_eq_of_lt hw)
  rw [rotl8, hmask, word_turn]
  refine congrArg word (funext fun r => ?_)
  rw [part, part, show k - (r - 1) = k + 1 - r by omega]

/-- The first table of a round, of a byte of the box. -/
theorem ft0Word_eq (b : UInt8) : ft0Word b.toNat = word (part mixMatrix 0 b) := by
  have hz : ((xtime b.toNat &&& 0xFF) ^^^ b.toNat) &&& 0xFF = (ByteField.mul 3 b).toNat := by
    rw [xtime_eq, ← UInt8.toNat_xor, toNat_and_255, mul_3, UInt8.xor_comm]
  have h1 := mul_1 b
  rw [ft0Word, hz, xtime_eq, ← mul_2, word_eq_xor, UInt32.ofNat_uInt8ToNat, UInt32.ofNat_uInt8ToNat,
    UInt32.ofNat_uInt8ToNat]
  change _ = (ByteField.mul 2 b).toUInt32 ^^^ (ByteField.mul 1 b).toUInt32 <<< 8 ^^^
    (ByteField.mul 1 b).toUInt32 <<< 16 ^^^ (ByteField.mul 3 b).toUInt32 <<< 24
  rw [h1]

/-- The first table of a round back. -/
theorem rt0Word_eq {p : Powers} (h : p.Filled 256) (b : UInt8) :
    rt0Word p b.toNat = word (part unmixMatrix 0 b) := by
  have hmul : ∀ a : UInt8, UInt32.ofNat (mul p a.toNat b.toNat) = (ByteField.mul a b).toUInt32 :=
    fun a => by rw [mul_eq h, UInt32.ofNat_uInt8ToNat]
  have h14 : UInt32.ofNat (mul p 0x0E b.toNat) = _ := hmul 14
  have h9 : UInt32.ofNat (mul p 0x09 b.toNat) = _ := hmul 9
  have h13 : UInt32.ofNat (mul p 0x0D b.toNat) = _ := hmul 13
  have h11 : UInt32.ofNat (mul p 0x0B b.toNat) = _ := hmul 11
  rw [rt0Word, h14, h9, h13, h11, word_eq_xor]
  rfl

theorem roundTurn_ft (p : Powers) (i : Nat) (t : AesTables) (k : Fin 4) :
    (roundTurn p i t).ft k =
      Function.update (t.ft k) i (word (part mixMatrix k (t.fsb i))) := by
  have hword := ft0Word_eq (t.fsb i)
  revert k
  apply forall_place
  · exact congrArg (Function.update t.ft0 i) hword
  · refine congrArg (Function.update t.ft1 i) ?_
    rw [hword, rotl8_part]
    rfl
  · refine congrArg (Function.update t.ft2 i) ?_
    rw [hword, rotl8_part, rotl8_part]
    rfl
  · refine congrArg (Function.update t.ft3 i) ?_
    rw [hword, rotl8_part, rotl8_part, rotl8_part]
    rfl

theorem roundTurn_rt {p : Powers} (h : p.Filled 256) (i : Nat) (t : AesTables) (k : Fin 4) :
    (roundTurn p i t).rt k =
      Function.update (t.rt k) i (word (part unmixMatrix k (t.rsb i))) := by
  have hword := rt0Word_eq h (t.rsb i)
  revert k
  apply forall_place
  · exact congrArg (Function.update t.rt0 i) hword
  · refine congrArg (Function.update t.rt1 i) ?_
    rw [hword, rotl8_part]
    rfl
  · refine congrArg (Function.update t.rt2 i) ?_
    rw [hword, rotl8_part, rotl8_part]
    rfl
  · refine congrArg (Function.update t.rt3 i) ?_
    rw [hword, rotl8_part, rotl8_part, rotl8_part]
    rfl

theorem boxTurn_others (p : Powers) (i : Nat) (t : AesTables) : (boxTurn p i t).rcon = t.rcon := rfl

/-- The tables of a round up to an index, and the others as they were. -/
structure RoundsUpTo (t : AesTables) (n : Nat) (s : AesTables) : Prop where
  fsb : s.fsb = t.fsb
  rsb : s.rsb = t.rsb
  rcon : s.rcon = t.rcon
  ft : ∀ i < n, ∀ k, s.ft k i = word (part mixMatrix k (t.fsb i))
  rt : ∀ i < n, ∀ k, s.rt k i = word (part unmixMatrix k (t.rsb i))

theorem rounds_turn {p : Powers} (h : p.Filled 256) {i : Nat} {t s : AesTables}
    (hs : RoundsUpTo t i s) : RoundsUpTo t (i + 1) (roundTurn p i s) := by
  refine ⟨hs.fsb, hs.rsb, hs.rcon, fun j hj k => ?_, fun j hj k => ?_⟩
  · rw [roundTurn_ft, hs.fsb]
    by_cases heq : j = i
    · rw [heq, Function.update_self]
    · rw [Function.update_of_ne heq, hs.ft j (by omega)]
  · rw [roundTurn_rt h, hs.rsb]
    by_cases heq : j = i
    · rw [heq, Function.update_self]
    · rw [Function.update_of_ne heq, hs.rt j (by omega)]

theorem tablesFrom_spec {p : Powers} (hp : p.Filled 256) (t : AesTables) : (tablesFrom p t).Right := by
  have hrcon := rcon_spec t
  unfold tablesFrom
  simp only
  generalize (forTo 10 rconTurn (t, 1)).1 = t1 at *
  have hzero := boxes_zero t1
  generalize ht2 : ({ t1 with
    fsb := Function.update t1.fsb 0x00 0x63
    rsb := Function.update t1.rsb 0x63 0x00 } : AesTables) = t2 at *
  have hboxes : BoxesUpTo 255 _ ∧ _ = t1.rcon :=
    forTo_induction (fun i s => BoxesUpTo i s ∧ s.rcon = t1.rcon) 255
      ⟨hzero, by rw [← ht2]⟩ fun i s hi hs =>
        ⟨boxes_turn hp hi hs.1, (boxTurn_others _ _ _).trans hs.2⟩
  generalize forTo 255 (fun i => boxTurn p (i + 1)) t2 = t3 at *
  have hlast := forTo_induction (RoundsUpTo t3) 256
    ⟨rfl, rfl, rfl, fun _ h => absurd h (Nat.not_lt_zero _), fun _ h => absurd h (Nat.not_lt_zero _)⟩
    fun i s _ hs => rounds_turn hp hs
  have hf : ∀ b : UInt8, t3.fsb b.toNat = sbox b := fun b =>
    (hboxes.1 b (Nat.le_of_lt_succ b.toNat_lt)).1
  have hr : ∀ b : UInt8, t3.rsb b.toNat = unsbox b := fun b => by
    have h := (hboxes.1 (unsbox b) (Nat.le_of_lt_succ (unsbox b).toNat_lt)).2
    rwa [sbox_unsbox] at h
  refine ⟨fun b => ?_, fun b => ?_, fun k b => ?_, fun k b => ?_, fun k hk => ?_⟩
  · rw [hlast.fsb, hf]
  · rw [hlast.rsb, hr]
  · rw [hlast.ft _ b.toNat_lt, hf]
  · rw [hlast.rt _ b.toNat_lt, hr]
  · rw [hlast.rcon, hboxes.2, hrcon k hk]

/-- **The tables**: whatever the arrays hold before, the boxes are those of the cipher, the tables of a
round are its substitution and its mixing, and the constants are those of the key schedule. -/
theorem aesGenTables_spec (pow log : Nat → Nat) (t : AesTables) : (aesGenTables pow log t).Right :=
  tablesFrom_spec (powLog_spec pow log) t

end QcloudIot.Utils.Aes
