import QcloudIot.Utils.Base64

/-!
# The base64 encoder of the HTTP client

`_http_client_base64enc` shifts the characters of a string into an `int` and takes six bits at a time
off its lower end. Where plain `char` is signed, a byte of 128 or more comes with all higher bits set,
and the bits of the bytes before it that have not been written yet are lost.

* `toNat_shiftIn`: the number after a character is shifted in;
* `encLoop_group`: the four letters of a group, from any number left over;
* **`encoders_agree_iff`**: when the text is the one of RFC 4648, which the SDK's other encoder writes.
-/

namespace QcloudIot.Http

open Lib Utils

def code : List UInt8 := chars "ABCDEFGHIJKLMNOPQRSTUVWXYZabcdefghijklmnopqrstuvwxyz0123456789+/="

/-- `*in`, as an `int`. -/
def charInt (signed : Bool) (c : UInt8) : BitVec 32 :=
  if signed then c.toBitVec.signExtend 32 else c.toBitVec.setWidth 32

/-- `x = x << 8 | *in`. -/
def shiftIn (signed : Bool) (x : BitVec 32) (c : UInt8) : BitVec 32 := x <<< 8 ||| charInt signed c

/-- `code[(x >> k) & 0x3f]`. -/
def sextet (x : BitVec 32) (k : Nat) : UInt8 := code.getD (x.sshiftRight k &&& 0x3f#32).toNat 0

/-- The inner loop, with `l` bits: what it writes, and the bits left. -/
def emit (x : BitVec 32) : (l : Nat) → List UInt8 × Nat
  | l + 6 => (sextet x l :: (emit x l).1, (emit x l).2)
  | l => ([], l)

/-- The outer loop over the rest of the string: what it writes, `x` and `l`. -/
def encLoop (signed : Bool) : List UInt8 → (x : BitVec 32) → (l : Nat) → List UInt8 × BitVec 32 × Nat
  | [], x, l => ([], x, l)
  | c :: src, x, l =>
    if c = 0 then ([], x, l)
    else
      let x := shiftIn signed x c
      let (out, l) := emit x (l + 8)
      let (rest, x, l) := encLoop signed src x l
      (out ++ rest, x, l)

/-- What follows the loops, from what they leave. -/
def finish : List UInt8 × BitVec 32 × Nat → List UInt8
  | (out, x, l) =>
    let out := if l > 0 then out ++ [sextet (x <<< (6 - l)) 0] else out
    out ++ List.replicate ((4 - out.length % 4) % 4) 61

/-- `_http_client_base64enc`: the string written to `out`. -/
def httpClientBase64enc (signed : Bool) (src : List UInt8) : List UInt8 :=
  finish (encLoop signed src 0 0)

/-! ## The number shifted in -/

/-- The bits of a byte of 128 or more hide all others. -/
theorem or_signExtend (x : BitVec 32) {c : BitVec 8} (h : c.msb = true) :
    x <<< 8 ||| c.signExtend 32 = c.signExtend 32 := by
  refine BitVec.eq_of_getLsbD_eq fun i hi => ?_
  rw [BitVec.getLsbD_or, BitVec.getLsbD_shiftLeft, BitVec.getLsbD_signExtend]
  by_cases h8 : i < 8
  · simp [h8]
  · simp [h8, hi, h]

theorem toNat_zeroExtend (x : BitVec 32) (c : UInt8) :
    (x <<< 8 ||| c.toBitVec.setWidth 32).toNat = (x.toNat * 256 + c.toNat) % 2 ^ 32 := by
  have hc := c.toNat_lt
  have hshift : (x <<< 8).toNat = 2 ^ 8 * (x.toNat % 2 ^ 24) := by
    rw [BitVec.toNat_shiftLeft, Nat.shiftLeft_eq]
    omega
  have hchar : (c.toBitVec.setWidth 32).toNat = c.toNat := by
    rw [BitVec.toNat_setWidth, UInt8.toNat_toBitVec]
    omega
  rw [BitVec.toNat_or, hshift, hchar, ← Nat.two_pow_add_eq_or_of_lt hc]
  omega

theorem msb_iff (c : UInt8) : c.toBitVec.msb = true ↔ 128 ≤ c.toNat := by
  rw [BitVec.msb_eq_decide, decide_eq_true_eq, UInt8.toNat_toBitVec]

/-- **A character shifted in**: one of 128 or more sets all the bits above it, where it is signed. -/
theorem toNat_shiftIn (signed : Bool) (x : BitVec 32) (c : UInt8) :
    (shiftIn signed x c).toNat =
      if signed ∧ 128 ≤ c.toNat then 2 ^ 32 - 256 + c.toNat else (x.toNat * 256 + c.toNat) % 2 ^ 32 := by
  have hc := c.toNat_lt
  unfold shiftIn charInt
  cases signed with
  | false =>
    simp only [Bool.false_eq_true, if_false, false_and]
    exact toNat_zeroExtend x c
  | true =>
    simp only [if_true, true_and]
    by_cases h : 128 ≤ c.toNat
    · have hmsb := (msb_iff c).mpr h
      rw [if_pos h, or_signExtend x hmsb, BitVec.toNat_signExtend, hmsb, if_pos rfl,
        BitVec.toNat_setWidth, UInt8.toNat_toBitVec]
      omega
    · have hmsb : c.toBitVec.msb = false := by
        rw [Bool.eq_false_iff, ne_eq, msb_iff]
        exact h
      rw [if_neg h, BitVec.signExtend_eq_setWidth_of_msb_false hmsb]
      exact toNat_zeroExtend x c

/-- Six bits of a number, its sign apart. -/
theorem sextet_eq (x : BitVec 32) {k : Nat} (h : k ≤ 26) : sextet x k = letter (x.toNat / 2 ^ k % 64) := by
  have hlogical : x.sshiftRight k &&& 0x3f#32 = x >>> k &&& 0x3f#32 := by
    refine BitVec.eq_of_getLsbD_eq fun i hi => ?_
    rw [BitVec.getLsbD_and, BitVec.getLsbD_and, BitVec.getLsbD_sshiftRight, BitVec.getLsbD_ushiftRight]
    by_cases h6 : i < 6
    · have hin : k + i < 32 := by omega
      simp [hin, hi, Nat.not_le_of_lt]
    · have hmask : (0x3f#32).getLsbD i = false := by
        interval_cases i <;> first | omega | rfl
      rw [hmask, Bool.and_false, Bool.and_false]
  have hvalue : (x >>> k &&& 0x3f#32).toNat = x.toNat / 2 ^ k % 64 := by
    rw [BitVec.toNat_and, BitVec.toNat_ushiftRight, Nat.shiftRight_eq_div_pow]
    exact Nat.and_two_pow_sub_one_eq_mod _ 6
  rw [sextet, hlogical, hvalue]
  have hall : ∀ n ∈ List.range 64, code.getD n 0 = letter n := by decide
  exact forall_digit hall (Nat.mod_lt _ (by omega))

/-! ## The text -/

/-- The bits the number has left for a character: of the one before it, or those of its sign. -/
def leftOver (signed : Bool) (c : UInt8) (before size : Nat) : Nat :=
  if signed ∧ 128 ≤ c.toNat then size - 1 else before % size

theorem first_sextet (signed : Bool) (x : BitVec 32) (a : UInt8) :
    sextet (shiftIn signed x a) 2 = letter (a.toNat / 4) := by
  have ha := a.toNat_lt
  rw [sextet_eq _ (by omega), toNat_shiftIn]
  congr 1
  split <;> omega

/-- The letter that a byte and the two bits before it make, after any byte. -/
theorem second_sextet (signed : Bool) (x : BitVec 32) (a b : UInt8) :
    sextet (shiftIn signed (shiftIn signed x a) b) 4 =
      letter (leftOver signed b a.toNat 4 * 16 + b.toNat / 16) := by
  have ha := a.toNat_lt
  have hb := b.toNat_lt
  rw [sextet_eq _ (by omega), toNat_shiftIn, toNat_shiftIn, leftOver]
  congr 1
  split
  · omega
  · split <;> omega

theorem third_sextet (signed : Bool) (x : BitVec 32) (b c : UInt8) :
    sextet (shiftIn signed (shiftIn signed x b) c) 6 =
      letter (leftOver signed c b.toNat 16 * 4 + c.toNat / 64) := by
  have hb := b.toNat_lt
  have hc := c.toNat_lt
  rw [sextet_eq _ (by omega), toNat_shiftIn, toNat_shiftIn, leftOver]
  congr 1
  split
  · omega
  · split <;> omega

theorem last_sextet (signed : Bool) (x : BitVec 32) (c : UInt8) :
    sextet (shiftIn signed x c) 0 = letter (c.toNat % 64) := by
  have hc := c.toNat_lt
  rw [sextet_eq _ (by omega), toNat_shiftIn]
  congr 1
  split <;> omega

/-- The letter of the bits left at the end, with zeros behind them. -/
theorem end_sextet (signed : Bool) (x : BitVec 32) (c : UInt8) {l : Nat} (h : l = 2 ∨ l = 4) :
    sextet (shiftIn signed x c <<< (6 - l)) 0 = letter (c.toNat % 2 ^ l * 2 ^ (6 - l)) := by
  have hc := c.toNat_lt
  rw [sextet_eq _ (by omega), BitVec.toNat_shiftLeft, Nat.shiftLeft_eq, toNat_shiftIn]
  congr 1
  obtain rfl | rfl := h <;> split <;> omega

theorem finish_group {four : List UInt8} (h : four.length = 4) (out : List UInt8) (x : BitVec 32)
    (l : Nat) : finish (four ++ out, x, l) = four ++ finish (out, x, l) := by
  have hlen : ∀ more : List UInt8, (four ++ more).length % 4 = more.length % 4 := by
    intro more
    rw [List.length_append, h]
    omega
  unfold finish
  dsimp only
  split
  · rw [List.append_assoc four out, hlen, List.append_assoc four]
  · rw [hlen, List.append_assoc four]

/-- **A group** of the string is four letters of the text, whatever number is left over. -/
theorem encLoop_group (signed : Bool) {a b c : UInt8} (ha : a ≠ 0) (hb : b ≠ 0) (hc : c ≠ 0)
    (rest : List UInt8) (x : BitVec 32) : ∃ x', finish (encLoop signed (a :: b :: c :: rest) x 0) =
      [letter (a.toNat / 4), letter (leftOver signed b a.toNat 4 * 16 + b.toNat / 16),
        letter (leftOver signed c b.toNat 16 * 4 + c.toNat / 64), letter (c.toNat % 64)] ++
          finish (encLoop signed rest x' 0) := by
  refine ⟨shiftIn signed (shiftIn signed (shiftIn signed x a) b) c, ?_⟩
  have hone : ∀ y : BitVec 32, emit y (0 + 8) = ([sextet y 2], 2) := fun _ => rfl
  have htwo : ∀ y : BitVec 32, emit y (2 + 8) = ([sextet y 4], 4) := fun _ => rfl
  have hthree : ∀ y : BitVec 32, emit y (4 + 8) = ([sextet y 6, sextet y 0], 0) := fun _ => rfl
  simp only [encLoop, if_neg ha, if_neg hb, if_neg hc, hone, htwo, hthree]
  obtain ⟨out, x', l⟩ := encLoop signed rest (shiftIn signed (shiftIn signed (shiftIn signed x a) b) c) 0
  rw [first_sextet, second_sextet, third_sextet, last_sextet]
  have hfour : [letter (a.toNat / 4), letter (leftOver signed b a.toNat 4 * 16 + b.toNat / 16),
      letter (leftOver signed c b.toNat 16 * 4 + c.toNat / 64), letter (c.toNat % 64)].length = 4 := rfl
  exact finish_group hfour out x' l

/-- The text of the bytes behind the last whole group. -/
theorem encLoop_one (signed : Bool) {a : UInt8} (ha : a ≠ 0) (x : BitVec 32) :
    finish (encLoop signed [a] x 0) = [letter (a.toNat / 4), letter (a.toNat % 4 * 16), 61, 61] := by
  have hone : ∀ y : BitVec 32, emit y (0 + 8) = ([sextet y 2], 2) := fun _ => rfl
  simp only [encLoop, if_neg ha, hone, first_sextet]
  exact congrArg (fun c => [letter (a.toNat / 4), c, 61, 61]) (end_sextet signed x a (.inl rfl))

theorem encLoop_two (signed : Bool) {a b : UInt8} (ha : a ≠ 0) (hb : b ≠ 0) (x : BitVec 32) :
    finish (encLoop signed [a, b] x 0) =
      [letter (a.toNat / 4), letter (leftOver signed b a.toNat 4 * 16 + b.toNat / 16),
        letter (b.toNat % 16 * 4), 61] := by
  have hone : ∀ y : BitVec 32, emit y (0 + 8) = ([sextet y 2], 2) := fun _ => rfl
  have htwo : ∀ y : BitVec 32, emit y (2 + 8) = ([sextet y 4], 4) := fun _ => rfl
  simp only [encLoop, if_neg ha, if_neg hb, hone, htwo, first_sextet, second_sextet]
  exact congrArg (fun c => [letter (a.toNat / 4),
    letter (leftOver signed b a.toNat 4 * 16 + b.toNat / 16), c, 61])
    (end_sextet signed (shiftIn signed x a) b (.inr rfl))

/-! ## The two encoders -/

/-- Where plain `char` is signed: a byte of 128 or more that is the second of its group comes after one
whose two low bits are set, and one that is the third after one whose four low bits are. -/
def SignsFit (signed : Bool) : List UInt8 → Prop
  | a :: b :: c :: rest => (signed → 128 ≤ b.toNat → a.toNat % 4 = 3) ∧
      (signed → 128 ≤ c.toNat → b.toNat % 16 = 15) ∧ SignsFit signed rest
  | [a, b] => signed → 128 ≤ b.toNat → a.toNat % 4 = 3
  | _ => True

/-- The bits are those of the byte before iff the byte's sign does not hide them, or they are set. -/
theorem leftOver_eq_iff {signed : Bool} {c : UInt8} {before size : Nat} :
    leftOver signed c before size = before % size ↔
      (signed → 128 ≤ c.toNat → before % size = size - 1) := by
  unfold leftOver
  cases signed with
  | false => simp
  | true =>
    by_cases hc : 128 ≤ c.toNat
    · simp [hc, eq_comm]
    · simp [hc]

theorem leftOver_lt (signed : Bool) (c : UInt8) (before : Nat) {size : Nat} (h : 0 < size) :
    leftOver signed c before size < size := by
  unfold leftOver
  split
  · omega
  · exact Nat.mod_lt _ h

/-- The second letter is right iff the two bits are. -/
theorem second_letter_iff (signed : Bool) (a b : UInt8) :
    letter (leftOver signed b a.toNat 4 * 16 + b.toNat / 16) = letter (a.toNat % 4 * 16 + b.toNat / 16) ↔
      (signed → 128 ≤ b.toNat → a.toNat % 4 = 3) := by
  have hb := b.toNat_lt
  have hlt : leftOver signed b a.toNat 4 < 4 := leftOver_lt signed b a.toNat (by omega)
  rw [← leftOver_eq_iff]
  refine ⟨fun h => ?_, fun h => by rw [h]⟩
  have heq := letter_injective (by omega) (by omega) h
  omega

theorem third_letter_iff (signed : Bool) (b c : UInt8) :
    letter (leftOver signed c b.toNat 16 * 4 + c.toNat / 64) = letter (b.toNat % 16 * 4 + c.toNat / 64) ↔
      (signed → 128 ≤ c.toNat → b.toNat % 16 = 15) := by
  have hc := c.toNat_lt
  have hlt : leftOver signed c b.toNat 16 < 16 := leftOver_lt signed c b.toNat (by omega)
  rw [← leftOver_eq_iff]
  refine ⟨fun h => ?_, fun h => by rw [h]⟩
  have heq := letter_injective (by omega) (by omega) h
  omega

theorem finish_eq_iff (signed : Bool) {s : List UInt8} (hfree : ∀ b ∈ s, b ≠ 0) (x : BitVec 32) :
    finish (encLoop signed s x 0) = base64 s ↔ SignsFit signed s := by
  induction s using base64.induct generalizing x with
  | case1 => exact iff_of_true (by simp [encLoop, finish, base64]) trivial
  | case2 a =>
    rw [encLoop_one signed (hfree a List.mem_cons_self), base64, digitsOf_group]
    refine iff_of_true ?_ trivial
    simp [padSign]
  | case3 a b =>
    obtain ⟨ha, hb, -⟩ := List.forall_mem_cons.mp hfree |>.imp_right List.forall_mem_cons.mp
    rw [encLoop_two signed ha hb, base64, digitsOf_group, SignsFit, ← second_letter_iff]
    simp [padSign]
  | case4 a b c rest ih =>
    obtain ⟨ha, hmore⟩ := List.forall_mem_cons.mp hfree
    obtain ⟨hb, hmore⟩ := List.forall_mem_cons.mp hmore
    obtain ⟨hc, hrest⟩ := List.forall_mem_cons.mp hmore
    obtain ⟨x', hgroup⟩ := encLoop_group signed ha hb hc rest x
    have hih : finish (encLoop signed rest x' 0) = base64 rest ↔ SignsFit signed rest := ih hrest x'
    rw [hgroup, base64, digitsOf_group, SignsFit, ← second_letter_iff, ← third_letter_iff, ← hih]
    simp

/-- Where plain `char` is unsigned there is nothing to fit. -/
theorem signsFit_unsigned (s : List UInt8) : SignsFit false s := by
  induction s using base64.induct with
  | case1 => trivial
  | case2 a => trivial
  | case3 a b => exact fun h => absurd h Bool.false_ne_true
  | case4 a b c rest ih =>
    exact ⟨fun h => absurd h Bool.false_ne_true, fun h => absurd h Bool.false_ne_true, ih⟩

/-- **The two encoders** write the same text, that of RFC 4648, iff plain `char` is unsigned or the
bytes of 128 or more fit the bytes before them. -/
theorem encoders_agree_iff (signed : Bool) {w dlen : Nat} {s : List UInt8} (hfree : ∀ b ∈ s, b ≠ 0)
    (hroom : 4 * ((s.length + 2) / 3) + 1 ≤ dlen) (hdlen : dlen < 2 ^ w) :
    (httpClientBase64enc signed s = encodedText w dlen s ∧ encodedText w dlen s = base64 s) ↔
      SignsFit signed s := by
  rw [encodedText_eq hroom hdlen, and_iff_left rfl]
  exact finish_eq_iff signed hfree 0

/-- A user and a password with a letter of two bytes, and a `char` that is unsigned. -/
theorem encoders_agree_umlaut :
    httpClientBase64enc false [117, 58, 195, 164] = encodedText 32 9 [117, 58, 195, 164] ∧
      encodedText 32 9 [117, 58, 195, 164] = base64 [117, 58, 195, 164] :=
  (encoders_agree_iff false (by decide) (by decide) (by decide)).mpr
    (signsFit_unsigned _)

/-- A byte of 128 behind an `a`, and a `char` that is signed: the two low bits of the `a` are lost. -/
theorem encoders_differ : httpClientBase64enc true [97, 128] = chars "Y4A=" ∧
    encodedText 32 5 [97, 128] = chars "YYA=" ∧ base64 [97, 128] = chars "YYA=" := by
  decide

end QcloudIot.Http
