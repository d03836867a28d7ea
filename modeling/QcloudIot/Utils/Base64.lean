import Mathlib.Tactic.IntervalCases
import QcloudIot.Lib.Base64

/-!
# The base64 codec

`utils_base64.c`. The decoder goes over the text twice: the first pass checks it and counts its
characters, the second writes. Between them the length is computed in `size_t`, of `w` bits.

* `encodeLoop_eq`: the encoder writes the text of RFC 4648;
* `firstPass_spec`, `length_secondPass`: the text is letters and at most two signs `=`, and what is
  written is counted from them;
* `secondPass_base64`: the second pass undoes the encoder;
* **`base64_iff`**: when an encoded string comes back, and when the decoder keeps to the length it
  has computed and to its destination.
-/

namespace QcloudIot.Utils

open Lib

/-- `QCLOUD_ERR_FAILURE`. -/
def qcloudErrFailure : Int := -1001

def base64EncMap : List UInt8 :=
  chars "ABCDEFGHIJKLMNOPQRSTUVWXYZabcdefghijklmnopqrstuvwxyz0123456789+/"

def base64DecMap : List UInt8 :=
  [127, 127, 127, 127, 127, 127, 127, 127, 127, 127, 127, 127, 127, 127, 127, 127, 127, 127, 127, 127, 127, 127,
   127, 127, 127, 127, 127, 127, 127, 127, 127, 127, 127, 127, 127, 127, 127, 127, 127, 127, 127, 127, 127, 62,
   127, 127, 127, 63, 52, 53, 54, 55, 56, 57, 58, 59, 60, 61, 127, 127, 127, 64, 127, 127, 127, 0,
   1, 2, 3, 4, 5, 6, 7, 8, 9, 10, 11, 12, 13, 14, 15, 16, 17, 18, 19, 20, 21, 22,
   23, 24, 25, 127, 127, 127, 127, 127, 127, 26, 27, 28, 29, 30, 31, 32, 33, 34, 35, 36, 37, 38,
   39, 40, 41, 42, 43, 44, 45, 46, 47, 48, 49, 50, 51, 127, 127, 127, 127, 127]

/-- `base64_enc_map[i]`. -/
def encMap (i : Nat) : UInt8 := base64EncMap.getD i 0

/-- `base64_dec_map[c]`. -/
def decMap (c : UInt8) : UInt8 := base64DecMap.getD c.toNat 127

/-- What a call returns, the length it stores if it does, and what it writes from `dst` on. -/
structure Coded where
  rc : Int
  olen : Option Nat
  written : List UInt8
  deriving DecidableEq, Repr

/-! ## The encoder -/

/-- What follows the last whole group. -/
def encodeTail : List UInt8 → List UInt8
  | [] => []
  | c1 :: src =>
    let c1 := c1.toNat
    let c2 := (src.head?.map UInt8.toNat).getD 0
    [encMap ((c1 >>> 2) &&& 0x3F), encMap ((((c1 &&& 3) <<< 4) + (c2 >>> 4)) &&& 0x3F),
      if src ≠ [] then encMap (((c2 &&& 15) <<< 2) &&& 0x3F) else 61, 61]

/-- The text written. -/
def encodeLoop : List UInt8 → List UInt8
  | c1 :: c2 :: c3 :: src =>
    let c1 := c1.toNat
    let c2 := c2.toNat
    let c3 := c3.toNat
    [encMap ((c1 >>> 2) &&& 0x3F), encMap ((((c1 &&& 3) <<< 4) + (c2 >>> 4)) &&& 0x3F),
      encMap ((((c2 &&& 15) <<< 2) + (c3 >>> 6)) &&& 0x3F), encMap (c3 &&& 0x3F)] ++ encodeLoop src
  | src => encodeTail src

/-- `qcloud_iot_utils_base64encode`; `dst` says whether the pointer is not `NULL`. -/
def base64encode (w : Nat) (dst : Bool) (dlen : Nat) (src : List UInt8) : Coded :=
  let slen := src.length
  if slen = 0 then ⟨0, some 0, []⟩
  else
    let n := slen / 3 + if slen % 3 ≠ 0 then 1 else 0
    if n > (2 ^ w - 1 - 1) / 4 then ⟨qcloudErrFailure, some (2 ^ w - 1), []⟩
    else
      let n := n * 4
      if dlen < n + 1 ∨ ¬ dst then ⟨qcloudErrFailure, some (n + 1), []⟩
      else ⟨0, some (encodeLoop src).length, encodeLoop src ++ [0]⟩

/-! ## The decoder -/

/-- The first pass over the rest of the text, behind `x` spaces, with `n` characters and `j` signs
`=` so far. -/
def firstPass : List UInt8 → (x : UInt32) → (n j : Nat) → Option (Nat × Nat)
  | [], _, n, j => some (n, j)
  | c :: src, x, n, j =>
    if c = 32 then firstPass src (x + 1) n j
    else if c = 13 ∧ src.head? = some 10 then firstPass src 0 n j
    else if c = 10 then firstPass src 0 n j
    else if x ≠ 0 then none
    else
      let j := if c = 61 then j + 1 else j
      if c = 61 ∧ j > 2 then none
      else if c > 127 ∨ decMap c = 127 then none
      else if decMap c < 64 ∧ j ≠ 0 then none
      else firstPass src 0 (n + 1) j

/-- `n = ((n * 6) + 7) >> 3; n -= j;`. -/
def computedLength (w n j : Nat) : Nat := ((n * 6 + 7) % 2 ^ w / 8 + 2 ^ w - j) % 2 ^ w

/-- The second pass over the rest of the text. -/
def secondPass : List UInt8 → (j n : Nat) → (x : UInt32) → List UInt8
  | [], _, _, _ => []
  | c :: src, j, n, x =>
    if c = 13 ∨ c = 10 ∨ c = 32 then secondPass src j n x
    else
      let j := j - if decMap c = 64 then 1 else 0
      let x := (x <<< 6) ||| (decMap c &&& 0x3F).toUInt32
      if n + 1 = 4 then
        (if j > 0 then [(x >>> 16).toUInt8] else []) ++ (if j > 1 then [(x >>> 8).toUInt8] else []) ++
          (if j > 2 then [x.toUInt8] else []) ++ secondPass src j 0 x
      else secondPass src j (n + 1) x

/-- `qcloud_iot_utils_base64decode`. -/
def base64decode (w : Nat) (dst : Bool) (dlen : Nat) (src : List UInt8) : Coded :=
  match firstPass src 0 0 0 with
  | none => ⟨qcloudErrFailure, none, []⟩
  | some (n, j) =>
    if n = 0 then ⟨0, some 0, []⟩
    else
      let n := computedLength w n j
      if ¬ dst ∨ dlen < n then ⟨qcloudErrFailure, some n, []⟩
      else ⟨0, some (secondPass src 3 0 0).length, secondPass src 3 0 0⟩

/-! ## The text written -/

theorem encMap_eq (i : Nat) : encMap i = letter i := rfl

theorem and_63 (n : Nat) : n &&& 0x3F = n % 64 := Nat.and_two_pow_sub_one_eq_mod n 6

theorem and_15 (n : Nat) : n &&& 15 = n % 16 := Nat.and_two_pow_sub_one_eq_mod n 4

theorem and_3 (n : Nat) : n &&& 3 = n % 4 := Nat.and_two_pow_sub_one_eq_mod n 2

/-- The shifts and masks take the digits of a group. -/
theorem digits_eq (a b c : UInt8) :
    [encMap ((a.toNat >>> 2) &&& 0x3F),
      encMap ((((a.toNat &&& 3) <<< 4) + (b.toNat >>> 4)) &&& 0x3F),
      encMap ((((b.toNat &&& 15) <<< 2) + (c.toNat >>> 6)) &&& 0x3F), encMap (c.toNat &&& 0x3F)] =
      digitsOf (group a b c) := by
  have ha := a.toNat_lt
  have hb := b.toNat_lt
  have hc := c.toNat_lt
  have h1 : a.toNat / 2 ^ 2 % 64 = a.toNat / 4 := by omega
  have h2 : (a.toNat % 4 * 2 ^ 4 + b.toNat / 2 ^ 4) % 64 = a.toNat % 4 * 16 + b.toNat / 16 := by omega
  have h3 : (b.toNat % 16 * 2 ^ 2 + c.toNat / 2 ^ 6) % 64 = b.toNat % 16 * 4 + c.toNat / 64 := by omega
  rw [digitsOf_group]
  simp only [and_63, and_15, and_3, Nat.shiftRight_eq_div_pow, Nat.shiftLeft_eq, encMap_eq, h1, h2, h3]

/-- **The encoder** writes the text of RFC 4648. -/
theorem encodeLoop_eq (src : List UInt8) : encodeLoop src = base64 src := by
  induction src using base64.induct with
  | case1 => rfl
  | case2 a =>
    have h := congrArg (List.take 2) (digits_eq a 0 0)
    have hb : (0 : UInt8).toNat = 0 := rfl
    rw [hb] at h
    rw [base64, ← h]
    rfl
  | case3 a b =>
    have h := congrArg (List.take 3) (digits_eq a b 0)
    have hc : (0 : UInt8).toNat = 0 := rfl
    rw [hc, Nat.zero_shiftRight, Nat.add_zero] at h
    rw [base64, ← h]
    rfl
  | case4 a b c rest ih =>
    rw [encodeLoop, base64, ih]
    exact congrArg (· ++ base64 rest) (digits_eq a b c)

/-! ## The characters of a text -/

/-- The characters that count: no spaces, no ends of lines. -/
def textChars (src : List UInt8) : List UInt8 := src.filter fun c => c ≠ 32 ∧ c ≠ 13 ∧ c ≠ 10

theorem textChars_skip {c : UInt8} (h : c = 32 ∨ c = 13 ∨ c = 10) (src : List UInt8) :
    textChars (c :: src) = textChars src := by
  refine List.filter_cons_of_neg ?_
  simp only [decide_eq_true_eq]
  tauto

theorem textChars_keep {c : UInt8} (h32 : c ≠ 32) (h13 : c ≠ 13) (h10 : c ≠ 10) (src : List UInt8) :
    textChars (c :: src) = c :: textChars src :=
  List.filter_cons_of_pos (decide_eq_true ⟨h32, h13, h10⟩)

/-- A character that the first pass lets through is a letter or the sign `=`. -/
theorem decMap_cases (c : UInt8) : c > 127 ∨ decMap c = 127 ∨ decMap c < 64 ∨ c = 61 :=
  forall_byte (P := fun c => c > 127 ∨ decMap c = 127 ∨ decMap c < 64 ∨ c = 61) (by decide +kernel) c

theorem decMap_pad : decMap 61 = 64 := by decide

/-- **An accepted text**: letters, then at most two signs `=`; they are what is counted. -/
theorem firstPass_spec {src : List UInt8} {x : UInt32} {n j n' j' : Nat} (hj : j ≤ 2)
    (h : firstPass src x n j = some (n', j')) :
    ∃ ls k, textChars src = ls ++ List.replicate k 61 ∧ (∀ c ∈ ls, decMap c < 64) ∧
      n' = n + ls.length + k ∧ j' = j + k ∧ j' ≤ 2 ∧ (j ≠ 0 → ls = []) := by
  induction src generalizing x n j with
  | nil =>
    cases h
    exact ⟨[], 0, rfl, List.forall_mem_nil _, rfl, rfl, hj, fun _ => rfl⟩
  | cons c src ih =>
    rw [firstPass] at h
    split at h
    · rename_i hspace
      rw [textChars_skip (.inl hspace)]
      exact ih hj h
    split at h
    · rename_i hreturn
      rw [textChars_skip (.inr (.inl hreturn.1))]
      exact ih hj h
    split at h
    · rename_i hline
      rw [textChars_skip (.inr (.inr hline))]
      exact ih hj h
    rename_i h32 _ h10
    split at h
    · cases h
    dsimp only at h
    by_cases hpad : c = 61
    · -- a sign `=`
      subst hpad
      have h13 : (61 : UInt8) ≠ 13 := by decide
      simp only [if_true, true_and, decMap_pad] at h
      split at h
      · cases h
      rename_i hle
      rw [if_neg (by decide), if_neg (by simp)] at h
      obtain ⟨ls, k, htext, hls, hn, hj', hle', hnil⟩ := ih (by omega) h
      obtain rfl := hnil (by omega)
      refine ⟨[], k + 1, ?_, List.forall_mem_nil _, ?_, by omega, hle', fun _ => rfl⟩
      · rw [textChars_keep h32 h13 h10, htext, List.replicate_succ]
        rfl
      · rw [hn, List.length_nil]
        omega
    · -- a letter: only before the first `=`
      simp only [hpad, if_false, false_and] at h
      split at h
      · cases h
      rename_i hvalid
      have hletter : decMap c < 64 := by
        obtain hbig | hbad | hlt | heq := decMap_cases c
        · exact absurd (.inl hbig) hvalid
        · exact absurd (.inr hbad) hvalid
        · exact hlt
        · exact absurd heq hpad
      split at h
      · cases h
      rename_i hfirst
      have hj0 : j = 0 := by
        by_contra hne
        exact hfirst ⟨hletter, hne⟩
      have h13 : c ≠ 13 := by
        rintro rfl
        exact absurd hletter (by decide)
      obtain ⟨ls, k, htext, hls, hn, hj', hle', -⟩ := ih hj h
      refine ⟨c :: ls, k, ?_, List.forall_mem_cons.mpr ⟨hletter, hls⟩, ?_, hj', hle', ?_⟩
      · rw [textChars_keep h32 h13 h10, htext, List.cons_append]
      · rw [hn, List.length_cons]
        omega
      · exact fun hne => absurd hj0 hne

/-! ## What the second pass writes -/

/-- Spaces and ends of lines are passed over. -/
theorem secondPass_textChars (src : List UInt8) (j n : Nat) (x : UInt32) :
    secondPass src j n x = secondPass (textChars src) j n x := by
  induction src generalizing j n x with
  | nil => rfl
  | cons c src ih =>
    by_cases hskip : c = 13 ∨ c = 10 ∨ c = 32
    · rw [secondPass, if_pos hskip, textChars_skip (by tauto), ih]
    · rw [textChars_keep (by tauto) (by tauto) (by tauto), secondPass, secondPass, if_neg hskip]
      dsimp only
      split
      · rw [ih]
      · exact ih _ _ _

/-- A letter is none of the characters passed over, and no sign `=`. -/
theorem decMap_letter {c : UInt8} (h : decMap c < 64) :
    ¬ (c = 13 ∨ c = 10 ∨ c = 32) ∧ decMap c ≠ 64 := by
  refine ⟨?_, fun heq => ?_⟩
  · rintro (rfl | rfl | rfl) <;> exact absurd h (by decide)
  · rw [heq] at h
    exact absurd h (by decide)

/-- **The letters** give three bytes for every four of them. -/
theorem length_secondPass_letters {ls : List UInt8} (h : ∀ c ∈ ls, decMap c < 64) {n : Nat} (hn : n < 4)
    (x : UInt32) (rest : List UInt8) : ∃ x', (secondPass (ls ++ rest) 3 n x).length =
      3 * ((n + ls.length) / 4) + (secondPass rest 3 ((n + ls.length) % 4) x').length := by
  induction ls generalizing n x with
  | nil =>
    refine ⟨x, ?_⟩
    rw [List.nil_append, List.length_nil, Nat.add_zero, Nat.mod_eq_of_lt hn, Nat.div_eq_of_lt hn,
      Nat.mul_zero, Nat.zero_add]
  | cons c ls ih =>
    obtain ⟨hc, hls⟩ := List.forall_mem_cons.mp h
    obtain ⟨hkeep, hpad⟩ := decMap_letter hc
    rw [List.cons_append, secondPass, if_neg hkeep]
    dsimp only
    rw [if_neg hpad, List.length_cons]
    by_cases hfull : n + 1 = 4
    · obtain ⟨x', hx'⟩ := ih hls (n := 0) (by omega) (x <<< 6 ||| (decMap c &&& 0x3F).toUInt32)
      refine ⟨x', ?_⟩
      have hmod : (n + (ls.length + 1)) % 4 = (0 + ls.length) % 4 := by omega
      rw [if_pos hfull, hmod, List.length_append, Nat.sub_zero, hx']
      change 3 + _ = _
      omega
    · obtain ⟨x', hx'⟩ := ih hls (n := n + 1) (by omega) (x <<< 6 ||| (decMap c &&& 0x3F).toUInt32)
      refine ⟨x', ?_⟩
      have hsum : n + (ls.length + 1) = n + 1 + ls.length := by omega
      rw [if_neg hfull, Nat.sub_zero, hx', hsum]

/-- The signs `=` at the end give the rest of the group they are in. -/
theorem length_secondPass_pads {k n : Nat} (hk : k ≤ 2) (hn : n < 4) (x : UInt32) :
    (secondPass (List.replicate k 61) 3 n x).length = if 4 ≤ n + k then n - 1 else 0 := by
  interval_cases k <;> interval_cases n <;> simp [secondPass, decMap_pad, List.replicate]

/-- **What is written**, counted from the letters and the signs `=`. -/
theorem length_secondPass {ls : List UInt8} (h : ∀ c ∈ ls, decMap c < 64) {k : Nat} (hk : k ≤ 2)
    (x : UInt32) : (secondPass (ls ++ List.replicate k 61) 3 0 x).length =
      3 * (ls.length / 4) + if 4 ≤ ls.length % 4 + k then ls.length % 4 - 1 else 0 := by
  obtain ⟨x', hx'⟩ := length_secondPass_letters h (n := 0) (by omega) x (List.replicate k 61)
  rw [hx', Nat.zero_add, length_secondPass_pads hk (Nat.mod_lt _ (by omega))]

/-- The length counted from all characters is that, and up to three bytes more. -/
theorem written_bounds {src : List UInt8} {n j : Nat} (h : firstPass src 0 0 0 = some (n, j)) :
    j ≤ n ∧ j ≤ 2 ∧ (secondPass src 3 0 0).length + j ≤ (n * 6 + 7) / 8 ∧
      (n * 6 + 7) / 8 ≤ (secondPass src 3 0 0).length + j + 3 := by
  obtain ⟨ls, k, htext, hls, hn, hj, hle, -⟩ := firstPass_spec (by omega) h
  have hlen := length_secondPass hls (k := k) (by omega) 0
  rw [secondPass_textChars, htext, hlen]
  obtain rfl | rfl | rfl : k = 0 ∨ k = 1 ∨ k = 2 := by omega
  all_goals split <;> omega

/-- The text has no more characters than bytes. -/
theorem count_le {src : List UInt8} {n j : Nat} (h : firstPass src 0 0 0 = some (n, j)) :
    n ≤ src.length := by
  obtain ⟨ls, k, htext, -, hn, -⟩ := firstPass_spec (by omega) h
  have hlen : (textChars src).length ≤ src.length := List.length_filter_le _ _
  rw [htext, List.length_append, List.length_replicate] at hlen
  omega

/-! ## The length in `size_t` -/

theorem computedLength_eq {w n j : Nat} (hw : 16 ≤ w) (hj : j ≤ 2) :
    computedLength w n j = if j ≤ (n * 6 + 7) % 2 ^ w / 8 then (n * 6 + 7) % 2 ^ w / 8 - j
      else (n * 6 + 7) % 2 ^ w / 8 + 2 ^ w - j := by
  have hwidth : 2 ^ 16 ≤ 2 ^ w := Nat.pow_le_pow_right (by omega) hw
  unfold computedLength
  generalize 2 ^ w = m at hwidth ⊢
  have hmod : (n * 6 + 7) % m < m := Nat.mod_lt _ (by omega)
  split
  · have hsum : (n * 6 + 7) % m / 8 + m - j = (n * 6 + 7) % m / 8 - j + m := by omega
    rw [hsum, Nat.add_mod_right, Nat.mod_eq_of_lt (by omega)]
  · exact Nat.mod_eq_of_lt (by omega)

/-- The sum that wraps around loses at least an eighth of the word. -/
theorem wrapped_lt {w n : Nat} (hw : 16 ≤ w) (h : 2 ^ w ≤ n * 6 + 7) :
    (n * 6 + 7) % 2 ^ w / 8 + 4 ≤ (n * 6 + 7) / 8 := by
  have hwidth : 2 ^ 16 ≤ 2 ^ w := Nat.pow_le_pow_right (by omega) hw
  generalize 2 ^ w = m at hwidth h ⊢
  have hmod : (n * 6 + 7) % m ≤ n * 6 + 7 - m := by
    rw [Nat.mod_eq_sub_mod h]
    exact Nat.mod_le _ _
  omega

/-- The decoder keeps to the length it has computed, and to its destination. -/
def KeepsToLength (w : Nat) (dst : Bool) (dlen : Nat) (src : List UInt8) : Prop :=
  (base64decode w dst dlen src).written.length ≤ dlen ∧
    ∀ n j, firstPass src 0 0 0 = some (n, j) → n ≠ 0 →
      (base64decode w dst dlen src).written.length ≤ computedLength w n j

/-- The text is turned down, by the first pass or for the length computed; or that length has not
wrapped around, or has wrapped around again below zero. -/
def LengthHolds (w : Nat) (dst : Bool) (dlen : Nat) (src : List UInt8) : Prop :=
  ∀ n j, firstPass src 0 0 0 = some (n, j) →
    n * 6 + 7 < 2 ^ w ∨ dst = false ∨ (n * 6 + 7) % 2 ^ w / 8 < j ∨ dlen + j < (n * 6 + 7) % 2 ^ w / 8

theorem keepsToLength_iff {w : Nat} (hw : 16 ≤ w) (dst : Bool) (dlen : Nat) {src : List UInt8}
    (hsrc : src.length < 2 ^ w) : KeepsToLength w dst dlen src ↔ LengthHolds w dst dlen src := by
  unfold KeepsToLength LengthHolds base64decode
  cases hfirst : firstPass src 0 0 0 with
  | none =>
    refine iff_of_true ⟨Nat.zero_le _, ?_⟩ ?_ <;> exact fun n j h => nomatch h
  | some counted =>
    obtain ⟨n, j⟩ := counted
    obtain ⟨hjn, hj, hle, hge⟩ := written_bounds hfirst
    have hcount := count_le hfirst
    have hwidth : 2 ^ 16 ≤ 2 ^ w := Nat.pow_le_pow_right (by omega) hw
    have hcomputed := computedLength_eq (n := n) hw hj
    have hwrap := wrapped_lt (n := n) hw
    have hnowrap : n * 6 + 7 < 2 ^ w → (n * 6 + 7) % 2 ^ w = n * 6 + 7 := Nat.mod_eq_of_lt
    have hiff : ∀ p : Nat → Nat → Prop,
        (∀ n' j', some (n, j) = some (n', j') → p n' j') ↔ p n j :=
      fun p => ⟨fun h => h n j rfl, fun h n' j' heq => by cases heq; exact h⟩
    simp only [hiff]
    generalize 2 ^ w = m at *
    by_cases hzero : n = 0
    · rw [if_pos hzero]
      refine iff_of_true ⟨Nat.zero_le _, fun h => absurd hzero h⟩ (.inl (by omega))
    rw [if_neg hzero]
    by_cases hdown : ¬ dst ∨ dlen < computedLength w n j
    · -- turned down: nothing is written
      rw [if_pos hdown]
      refine iff_of_true ⟨Nat.zero_le _, fun _ => Nat.zero_le _⟩ ?_
      obtain hnull | hshort := hdown
      · exact .inr (.inl (Bool.eq_false_iff.mpr hnull))
      · rw [hcomputed] at hshort
        split at hshort <;> omega
    · rw [if_neg hdown]
      obtain ⟨hdst, hroom⟩ := not_or.mp hdown
      obtain rfl : dst = true := by simpa using hdst
      simp only [hcomputed, ne_eq, hzero, not_false_eq_true, forall_const, Bool.true_eq_false,
        false_or] at hroom ⊢
      split <;> rename_i hpads
      · rw [if_pos hpads] at hroom
        omega
      · rw [if_neg hpads] at hroom
        omega

/-! ## What is encoded comes back -/

/-- The code's table takes a letter back to its digit; no letter is passed over, or is the sign. -/
theorem decMap_digit {n : Nat} (h : n < 64) : (decMap (letter n)).toNat = n ∧ decMap (letter n) < 64 ∧
    ¬ letter n > 127 ∧ letter n ≠ 61 := by
  have hall : ∀ n ∈ List.range 64, (decMap (letter n)).toNat = n ∧ decMap (letter n) < 64 ∧
      ¬ letter n > 127 ∧ letter n ≠ 61 := by
    unfold letter
    rw [base64Alphabet_eq]
    decide
  exact forall_digit hall h

/-- The first pass over letters. -/
theorem firstPass_letters {ls : List UInt8} (h : ∀ c ∈ ls, IsLetter c) (n : Nat) (rest : List UInt8) :
    firstPass (ls ++ rest) 0 n 0 = firstPass rest 0 (n + ls.length) 0 := by
  induction ls generalizing n with
  | nil => rfl
  | cons c ls ih =>
    obtain ⟨⟨digit, hdigit, rfl⟩, hls⟩ := List.forall_mem_cons.mp h
    obtain ⟨-, hlt, hsmall, hpad⟩ := decMap_digit hdigit
    obtain ⟨hkeep, -⟩ := decMap_letter hlt
    have h13 : letter digit ≠ 13 := fun heq => hkeep (.inl heq)
    have h10 : letter digit ≠ 10 := fun heq => hkeep (.inr (.inl heq))
    have h32 : letter digit ≠ 32 := fun heq => hkeep (.inr (.inr heq))
    have h127 : decMap (letter digit) ≠ 127 := by
      intro heq
      rw [heq] at hlt
      exact absurd hlt (by decide)
    rw [List.cons_append, firstPass, if_neg h32, if_neg fun heq => h13 heq.1, if_neg h10,
      if_neg (by decide)]
    dsimp only
    rw [if_neg hpad, if_neg fun heq => hpad heq.1, if_neg (by tauto), if_neg fun heq => heq.2 rfl, ih hls,
      List.length_cons, Nat.add_assoc, Nat.add_comm 1]

theorem firstPass_pads {k : Nat} (h : k ≤ 2) (n : Nat) :
    firstPass (List.replicate k 61) 0 n 0 = some (n + k, k) := by
  have h127 : ¬ (61 : UInt8) > 127 := by decide
  interval_cases k <;> simp [firstPass, decMap_pad, h127]

/-- One digit shifted in. -/
theorem toNat_shift_digit (x : UInt32) {d : UInt8} (h : d.toNat < 64) :
    (x <<< 6 ||| (d &&& 0x3F).toUInt32).toNat = (x.toNat * 64 + d.toNat) % 2 ^ 32 := by
  have hmask : (d &&& 0x3F).toNat = d.toNat := by
    rw [UInt8.toNat_and]
    exact (Nat.and_two_pow_sub_one_eq_mod d.toNat 6).trans (Nat.mod_eq_of_lt h)
  have hshift : (x <<< 6).toNat = 2 ^ 6 * (x.toNat % 2 ^ 26) := by
    rw [UInt32.toNat_shiftLeft]
    have hsix : (6 : UInt32).toNat % 32 = 6 := rfl
    rw [hsix, Nat.shiftLeft_eq]
    omega
  rw [UInt32.toNat_or, hshift, UInt8.toNat_toUInt32, hmask, ← Nat.two_pow_add_eq_or_of_lt h]
  omega

/-- The bytes of the number shifted in. -/
theorem toNat_byte (x : UInt32) : (x >>> 16).toUInt8.toNat = x.toNat / 2 ^ 16 % 2 ^ 8 ∧
    (x >>> 8).toUInt8.toNat = x.toNat / 2 ^ 8 % 2 ^ 8 ∧ x.toUInt8.toNat = x.toNat % 2 ^ 8 := by
  refine ⟨?_, ?_, UInt32.toNat_toUInt8 x⟩
  · rw [UInt32.toNat_toUInt8, UInt32.toNat_shiftRight, Nat.shiftRight_eq_div_pow]
    rfl
  · rw [UInt32.toNat_toUInt8, UInt32.toNat_shiftRight, Nat.shiftRight_eq_div_pow]
    rfl

/-- A letter that does not end its group. -/
theorem secondPass_letter {d n : Nat} (hd : d < 64) (hn : n + 1 ≠ 4) (src : List UInt8) (j : Nat)
    (x : UInt32) : ∃ x' : UInt32, x'.toNat = (x.toNat * 64 + d) % 2 ^ 32 ∧
      secondPass (letter d :: src) j n x = secondPass src j (n + 1) x' := by
  obtain ⟨hvalue, hlt, -, -⟩ := decMap_digit hd
  obtain ⟨hkeep, hpad⟩ := decMap_letter hlt
  refine ⟨x <<< 6 ||| (decMap (letter d) &&& 0x3F).toUInt32, ?_, ?_⟩
  · rw [toNat_shift_digit x (by rwa [hvalue]), hvalue]
  · rw [secondPass, if_neg hkeep]
    dsimp only
    rw [if_neg hpad, if_neg hn, Nat.sub_zero]

/-- The letter that ends a group of four. -/
theorem secondPass_letter_last {d : Nat} (hd : d < 64) (src : List UInt8) (x : UInt32) :
    ∃ x' : UInt32, x'.toNat = (x.toNat * 64 + d) % 2 ^ 32 ∧ secondPass (letter d :: src) 3 3 x =
      (x' >>> 16).toUInt8 :: (x' >>> 8).toUInt8 :: x'.toUInt8 :: secondPass src 3 0 x' := by
  obtain ⟨hvalue, hlt, -, -⟩ := decMap_digit hd
  obtain ⟨hkeep, hpad⟩ := decMap_letter hlt
  refine ⟨x <<< 6 ||| (decMap (letter d) &&& 0x3F).toUInt32, ?_, ?_⟩
  · rw [toNat_shift_digit x (by rwa [hvalue]), hvalue]
  · rw [secondPass, if_neg hkeep]
    dsimp only
    rw [if_neg hpad, if_pos rfl]
    rfl

theorem toNat_shift_pad (x : UInt32) :
    (x <<< 6 ||| (decMap 61 &&& 0x3F).toUInt32).toNat = x.toNat * 64 % 2 ^ 32 := by
  have hzero : decMap 61 &&& 0x3F = (0 : UInt8) &&& 0x3F := by decide
  rw [hzero]
  exact toNat_shift_digit x (d := 0) (by decide)

/-- The signs `=` behind three letters, and behind two. -/
theorem secondPass_pad (x : UInt32) : ∃ x' : UInt32, x'.toNat = x.toNat * 64 % 2 ^ 32 ∧
    secondPass [61] 3 3 x = [(x' >>> 16).toUInt8, (x' >>> 8).toUInt8] :=
  ⟨_, toNat_shift_pad x, by simp [secondPass, decMap_pad]⟩

theorem secondPass_pads (x : UInt32) : ∃ x' : UInt32, x'.toNat = x.toNat * 64 * 64 % 2 ^ 32 ∧
    secondPass [61, 61] 3 2 x = [(x' >>> 16).toUInt8] := by
  refine ⟨(x <<< 6 ||| (decMap 61 &&& 0x3F).toUInt32) <<< 6 ||| (decMap 61 &&& 0x3F).toUInt32, ?_,
    by simp [secondPass, decMap_pad]⟩
  rw [toNat_shift_pad, toNat_shift_pad, Nat.mod_mul_mod]

/-- The bytes of a group shifted in. -/
theorem bytes_of_group {x : UInt32} {a b c : UInt8} (h : x.toNat % 2 ^ 24 = group a b c) :
    (x >>> 16).toUInt8 = a ∧ (x >>> 8).toUInt8 = b ∧ x.toUInt8 = c := by
  obtain ⟨hfirst, hsecond, hthird⟩ := toNat_byte x
  have ha := a.toNat_lt
  have hb := b.toNat_lt
  have hc := c.toNat_lt
  unfold group at h
  refine ⟨?_, ?_, ?_⟩
  · rw [← UInt8.toNat_inj, hfirst]
    omega
  · rw [← UInt8.toNat_inj, hsecond]
    omega
  · rw [← UInt8.toNat_inj, hthird]
    omega

/-- Two digits of a group, and three; what was left in `x` is shifted out later. -/
theorem secondPass_two {v : Nat} (hv : v < 2 ^ 24) (x : UInt32) (rest : List UInt8) :
    ∃ x' : UInt32, x'.toNat % 2 ^ 12 = v / 2 ^ 12 ∧
      secondPass ((digitsOf v).take 2 ++ rest) 3 0 x = secondPass rest 3 2 x' := by
  obtain ⟨x₁, h₁, e₁⟩ := secondPass_letter (d := v / 2 ^ 18) (n := 0) (by omega) (by omega)
    (letter (v / 2 ^ 12 % 64) :: rest) 3 x
  obtain ⟨x₂, h₂, e₂⟩ := secondPass_letter (d := v / 2 ^ 12 % 64) (n := 1) (by omega) (by omega) rest 3 x₁
  exact ⟨x₂, by omega, e₁.trans e₂⟩

theorem secondPass_three {v : Nat} (hv : v < 2 ^ 24) (x : UInt32) (rest : List UInt8) :
    ∃ x' : UInt32, x'.toNat % 2 ^ 18 = v / 2 ^ 6 ∧
      secondPass ((digitsOf v).take 3 ++ rest) 3 0 x = secondPass rest 3 3 x' := by
  obtain ⟨x₂, h₂, e₂⟩ := secondPass_two hv x (letter (v / 2 ^ 6 % 64) :: rest)
  obtain ⟨x₃, h₃, e₃⟩ := secondPass_letter (d := v / 2 ^ 6 % 64) (n := 2) (by omega) (by omega) rest 3 x₂
  exact ⟨x₃, by omega, e₂.trans e₃⟩

/-- **The second pass** undoes the encoder, whatever is left in `x`. -/
theorem secondPass_base64 (s : List UInt8) (x : UInt32) : secondPass (base64 s) 3 0 x = s := by
  induction s using base64.induct generalizing x with
  | case1 => rfl
  | case2 a =>
    obtain ⟨x₂, h₂, e₂⟩ := secondPass_two (group_lt a 0 0) x [61, 61]
    obtain ⟨x₃, h₃, e₃⟩ := secondPass_pads x₂
    have hlow : group a 0 0 % 2 ^ 12 = 0 := by
      simp only [group, UInt8.toNat_zero]
      omega
    rw [(bytes_of_group (x := x₃) (a := a) (b := 0) (c := 0) (by omega)).1] at e₃
    exact e₂.trans e₃
  | case3 a b =>
    obtain ⟨x₃, h₃, e₃⟩ := secondPass_three (group_lt a b 0) x [61]
    obtain ⟨x₄, h₄, e₄⟩ := secondPass_pad x₃
    have hlow : group a b 0 % 2 ^ 6 = 0 := by
      simp only [group, UInt8.toNat_zero]
      omega
    obtain ⟨hfirst, hsecond, -⟩ := bytes_of_group (x := x₄) (a := a) (b := b) (c := 0) (by omega)
    rw [hfirst, hsecond] at e₄
    exact e₃.trans e₄
  | case4 a b c rest ih =>
    have hv := group_lt a b c
    obtain ⟨x₃, h₃, e₃⟩ := secondPass_three hv x (letter (group a b c % 64) :: base64 rest)
    obtain ⟨x₄, h₄, e₄⟩ := secondPass_letter_last (d := group a b c % 64) (by omega) (base64 rest) x₃
    obtain ⟨hfirst, hsecond, hthird⟩ := bytes_of_group (x := x₄) (a := a) (b := b) (c := c) (by omega)
    rw [ih, hfirst, hsecond, hthird] at e₄
    exact e₃.trans e₄

/-- The first pass over an encoded string. -/
theorem firstPass_base64 (s : List UInt8) : firstPass (base64 s) 0 0 0 =
    some (4 * ((s.length + 2) / 3), 3 * ((s.length + 2) / 3) - s.length) := by
  obtain ⟨ls, hls, htext⟩ := base64_letters s
  have hlen := length_base64 s
  rw [htext, List.length_append, List.length_replicate] at hlen
  have hpad : padSign = 61 := rfl
  rw [htext, firstPass_letters hls, hpad, firstPass_pads (by omega), Nat.zero_add, hlen]

/-- The text an encoder with room for it has written. -/
def encodedText (w dlen : Nat) (s : List UInt8) : List UInt8 :=
  (base64encode w true dlen s).written.take ((base64encode w true dlen s).olen.getD 0)

theorem encodedText_eq {w dlen : Nat} {s : List UInt8} (hroom : 4 * ((s.length + 2) / 3) + 1 ≤ dlen)
    (hdlen : dlen < 2 ^ w) : encodedText w dlen s = base64 s := by
  unfold encodedText base64encode
  dsimp only
  by_cases hnil : s.length = 0
  · rw [if_pos hnil, List.length_eq_zero_iff.mp hnil]
    rfl
  have hgroups : (s.length / 3 + if s.length % 3 ≠ 0 then 1 else 0) = (s.length + 2) / 3 := by
    split <;> omega
  have hroom' : ¬ (dlen < (s.length + 2) / 3 * 4 + 1 ∨ ¬ true = true) := by
    rintro (h | h)
    · omega
    · exact h rfl
  rw [if_neg hnil, hgroups, if_neg (by omega), if_neg hroom', Option.getD_some, List.take_left,
    encodeLoop_eq]

/-- The length an encoder with room for the text stores. -/
theorem olen_encode {w dlen : Nat} {s : List UInt8} (hroom : 4 * ((s.length + 2) / 3) + 1 ≤ dlen)
    (hdlen : dlen < 2 ^ w) : (base64encode w true dlen s).olen = some (base64 s).length := by
  rw [length_base64]
  unfold base64encode
  dsimp only
  by_cases hnil : s.length = 0
  · rw [if_pos hnil, hnil]
  have hgroups : (s.length / 3 + if s.length % 3 ≠ 0 then 1 else 0) = (s.length + 2) / 3 := by
    split <;> omega
  rw [if_neg hnil, hgroups, if_neg (by omega), if_neg (not_or.mpr ⟨by omega, not_not.mpr rfl⟩),
    encodeLoop_eq, length_base64]

/-- It returns zero. -/
theorem rc_encode {w dlen : Nat} {s : List UInt8} (hroom : 4 * ((s.length + 2) / 3) + 1 ≤ dlen)
    (hdlen : dlen < 2 ^ w) : (base64encode w true dlen s).rc = 0 := by
  unfold base64encode
  dsimp only
  by_cases hnil : s.length = 0
  · rw [if_pos hnil]
  have hgroups : (s.length / 3 + if s.length % 3 ≠ 0 then 1 else 0) = (s.length + 2) / 3 := by
    split <;> omega
  rw [if_neg hnil, hgroups, if_neg (by omega), if_neg (not_or.mpr ⟨by omega, not_not.mpr rfl⟩)]

/-- A string comes back from its text, with its length. -/
def RoundTrip (w dlen dlen' : Nat) (s : List UInt8) : Prop :=
  base64decode w true dlen' (encodedText w dlen s) = ⟨0, some s.length, s⟩

/-- The length the decoder computes for the text of `s` is not below zero, or the destination is as
large as what it wraps around to. -/
def RoundTripHolds (w dlen' : Nat) (s : List UInt8) : Prop :=
  let n := 4 * ((s.length + 2) / 3)
  let j := 3 * ((s.length + 2) / 3) - s.length
  j ≤ (n * 6 + 7) % 2 ^ w / 8 ∨ (n * 6 + 7) % 2 ^ w / 8 + 2 ^ w ≤ dlen' + j

theorem roundTrip_iff {w dlen dlen' : Nat} {s : List UInt8} (hw : 16 ≤ w)
    (hroom : 4 * ((s.length + 2) / 3) + 1 ≤ dlen) (hdlen : dlen < 2 ^ w) (hroom' : s.length ≤ dlen') :
    RoundTrip w dlen dlen' s ↔ RoundTripHolds w dlen' s := by
  unfold RoundTrip RoundTripHolds base64decode
  rw [encodedText_eq hroom hdlen, firstPass_base64]
  dsimp only
  have hcomputed := computedLength_eq (w := w) (n := 4 * ((s.length + 2) / 3))
    (j := 3 * ((s.length + 2) / 3) - s.length) hw (by omega)
  -- the sum can only have become smaller
  have hmod : (4 * ((s.length + 2) / 3) * 6 + 7) % 2 ^ w ≤ 4 * ((s.length + 2) / 3) * 6 + 7 :=
    Nat.mod_le _ _
  by_cases hnil : 4 * ((s.length + 2) / 3) = 0
  · have hs : s = [] := List.length_eq_zero_iff.mp (by omega)
    subst hs
    exact iff_of_true rfl (.inl (Nat.zero_le _))
  rw [if_neg hnil, secondPass_base64, hcomputed]
  generalize (4 * ((s.length + 2) / 3) * 6 + 7) % 2 ^ w = sum at hmod ⊢
  generalize 2 ^ w = m at hdlen ⊢
  by_cases hpads : 3 * ((s.length + 2) / 3) - s.length ≤ sum / 8
  · have hfits : ¬ (¬ true = true ∨ dlen' < sum / 8 - (3 * ((s.length + 2) / 3) - s.length)) := by
      rintro (h | h)
      · exact h rfl
      · omega
    rw [if_pos hpads, if_neg hfits]
    exact iff_of_true rfl (.inl hpads)
  · rw [if_neg hpads]
    split
    · rename_i hdown
      have hshort := hdown.resolve_left fun h => h rfl
      refine iff_of_false (fun h => ?_) (by omega)
      have hrc : qcloudErrFailure = 0 := congrArg Coded.rc h
      exact absurd hrc (by decide)
    · rename_i hfits
      exact iff_of_true rfl (.inr (by omega))

/-- A string short enough for the word comes back from its text. -/
theorem base64decode_base64 {w dlen : Nat} (hw : 16 ≤ w) {s : List UInt8} (h : s.length ≤ dlen)
    (hshort : 8 * s.length + 24 ≤ 2 ^ w) :
    base64decode w true dlen (base64 s) = ⟨0, some s.length, s⟩ := by
  have hsum : (4 * ((s.length + 2) / 3) * 6 + 7) % 2 ^ w = 4 * ((s.length + 2) / 3) * 6 + 7 :=
    Nat.mod_eq_of_lt (by omega)
  have htrip : RoundTrip w (4 * ((s.length + 2) / 3) + 1) dlen s :=
    (roundTrip_iff hw (Nat.le_refl _) (by omega) h).mpr (.inl (by rw [hsum]; omega))
  rwa [RoundTrip, encodedText_eq (Nat.le_refl _) (by omega)] at htrip

/-- **The codec**, for a `size_t` of `w` bits: a string comes back from its text through destinations
large enough iff the length computed for it is not below zero; and for every text the decoder keeps to
the length computed and to its destination iff that length is not cut short by the word. -/
theorem base64_iff {w : Nat} (hw : 16 ≤ w) :
    (∀ s dlen dlen', 4 * ((s.length + 2) / 3) + 1 ≤ dlen → dlen < 2 ^ w → s.length ≤ dlen' →
      (RoundTrip w dlen dlen' s ↔ RoundTripHolds w dlen' s)) ∧
    ∀ src dst dlen, src.length < 2 ^ w →
      (KeepsToLength w dst dlen src ↔ LengthHolds w dst dlen src) :=
  ⟨fun _ _ _ hroom hdlen hroom' => roundTrip_iff hw hroom hdlen hroom',
    fun _ dst dlen hsrc => keepsToLength_iff hw dst dlen hsrc⟩

/-- Five bytes there and back; and a text of two lines. -/
theorem base64_five : RoundTrip 32 9 5 [0, 255, 16, 131, 7] ∧
    KeepsToLength 32 true 4 (chars "QUJD \r\nRA== ") := by
  obtain ⟨htrip, hkeeps⟩ := base64_iff (w := 32) (by omega)
  refine ⟨(htrip [0, 255, 16, 131, 7] 9 5 (by decide) (by omega) (by decide)).mpr (.inl (by decide)),
    (hkeeps (chars "QUJD \r\nRA== ") true 4 (by decide)).mpr fun n j h => .inl ?_⟩
  have hn := count_le h
  have hlen : (chars "QUJD \r\nRA== ").length = 12 := by decide
  omega

/-- More than `2 ^ 32 / 6` letters on a 32-bit target: the length computed is 1, and half a gigabyte
is written. -/
theorem letters_overrun : ¬ KeepsToLength 32 true 1 (List.replicate 715827883 65) := by
  have hletter : ∀ c ∈ List.replicate 715827883 (65 : UInt8), IsLetter c := by
    intro c hc
    rw [List.eq_of_mem_replicate hc]
    exact isLetter_letter (n := 0) (by omega)
  have hfirst := firstPass_letters hletter 0 []
  rw [List.append_nil, List.length_replicate, firstPass] at hfirst
  rw [keepsToLength_iff (by omega) true 1 (by rw [List.length_replicate]; omega)]
  intro h
  obtain h | h | h | h := h _ _ hfirst
  · omega
  · cases h
  · omega
  · omega

end QcloudIot.Utils
