import QcloudIot.Lib.Run
import QcloudIot.Lib.Sha1

/-!
# SHA-1 in pieces

`utils_sha1.c`. The sixteen words of `W` are written over in turn, and the uses of `P` give the five
variables other names instead of moving their values.

* `Sha1Work.Follows`: what holds before each use of `P`;
* **`utilsSha1Process_eq`**: a block is compressed as the standard says;
* **`utilsSha1_pieces`**: the digest is that of all bytes fed since the start, however they were fed.
-/

namespace QcloudIot.Utils

open Lib Lib.Sha1

/-! ## The code -/

/-- `IOT_SHA1_GET_UINT32_BE`. -/
def getUint32Be (b : List UInt8) (i : Nat) : UInt32 :=
  (b.getD i 0).toUInt32 <<< 24 ||| (b.getD (i + 1) 0).toUInt32 <<< 16 |||
    (b.getD (i + 2) 0).toUInt32 <<< 8 ||| (b.getD (i + 3) 0).toUInt32

/-- `IOT_SHA1_PUT_UINT32_BE`. -/
def putUint32Be (n : UInt32) : List UInt8 :=
  [(n >>> 24).toUInt8, (n >>> 16).toUInt8, (n >>> 8).toUInt8, n.toUInt8]

/-- `S`. -/
def sha1S (x n : UInt32) : UInt32 := x <<< n ||| (x &&& (0xFFFFFFFF : UInt32)) >>> (32 - n)

/-- `F`, in the twenty uses of `P` from `20 * part` on. -/
def sha1F (part : Nat) (x y z : UInt32) : UInt32 :=
  match part with
  | 0 => z ^^^ (x &&& (y ^^^ z))
  | 1 => x ^^^ y ^^^ z
  | 2 => (x &&& y) ||| (z &&& (x ||| y))
  | _ => x ^^^ y ^^^ z

/-- `K`. -/
def sha1K : (part : Nat) → UInt32
  | 0 => 0x5A827999
  | 1 => 0x6ED9EBA1
  | 2 => 0x8F1BBCDC
  | _ => 0xCA62C1D6

/-- `W`, and the variables `A` to `E`. -/
structure Sha1Work where
  w : Nat → UInt32
  v : Fin 5 → UInt32

/-- What `R(t)` writes to `W[t & 0x0F]`. -/
def sha1R (t : Nat) (w : Nat → UInt32) : UInt32 :=
  let temp := w ((t - 3) &&& 0x0F) ^^^ w ((t - 8) &&& 0x0F) ^^^ w ((t - 14) &&& 0x0F) ^^^ w (t &&& 0x0F)
  sha1S temp 1

/-- `P(a, b, c, d, e, x)`, for variables of these numbers. -/
def sha1P (part : Nat) (a b c d e : Fin 5) (x : UInt32) (r : Sha1Work) : Sha1Work :=
  let v := Function.update r.v e
    (r.v e + (sha1S (r.v a) 5 + sha1F part (r.v b) (r.v c) (r.v d) + sha1K part + x))
  { r with v := Function.update v b (sha1S (v b) 30) }

/-- The variable that stands at place `i` of the `t`-th use of `P`: `A, B, C, D, E`, then
`E, A, B, C, D`, and so on. -/
def sha1Name (t i : Nat) : Fin 5 := Fin.ofNat 5 (i + 4 * t)

/-- `W[t]`, or `R(t)` behind the first sixteen. -/
def sha1Word (t : Nat) (r : Sha1Work) : Sha1Work :=
  if t < 16 then r else { r with w := Function.update r.w (t &&& 0x0F) (sha1R t r.w) }

/-- The `t`-th use of `P`. -/
def sha1Turn (t : Nat) (r : Sha1Work) : Sha1Work :=
  let r := sha1Word t r
  sha1P (t / 20) (sha1Name t 0) (sha1Name t 1) (sha1Name t 2) (sha1Name t 3) (sha1Name t 4)
    (r.w (t &&& 0x0F)) r

/-- `utils_sha1_process`. -/
def utilsSha1Process (state : State) (data : List UInt8) : State :=
  let r := forTo 80 sha1Turn ⟨fun i => getUint32Be data (4 * i), state.word⟩
  ⟨fun i => state.word i + r.v i⟩

/-- `iot_sha1_context`. -/
abbrev Sha1Context := HashStream State

/-- `utils_sha1_init`. -/
def utilsSha1Init : Sha1Context := .fresh ⟨fun _ => 0⟩

/-- `utils_sha1_starts`. -/
def utilsSha1Starts (ctx : Sha1Context) : Sha1Context :=
  { ctx with
    total0 := 0
    total1 := 0
    state := ⟨![0x67452301, 0xEFCDAB89, 0x98BADCFE, 0x10325476, 0xC3D2E1F0]⟩ }

/-- `utils_sha1_update`. -/
def utilsSha1Update (ctx : Sha1Context) (input : List UInt8) : Sha1Context :=
  ctx.feed utilsSha1Process input

/-- `iot_sha1_padding`. -/
def iotSha1Padding : List UInt8 := 0x80 :: List.replicate 63 0

/-- `utils_sha1_finish`: `output`. -/
def utilsSha1Finish (ctx : Sha1Context) : List UInt8 :=
  let high := ctx.total0 >>> 29 ||| ctx.total1 <<< 3
  let low := ctx.total0 <<< 3
  let msglen := putUint32Be high ++ putUint32Be low
  let last := (ctx.total0 &&& 0x3F).toNat
  let padn := if last < 56 then 56 - last else 120 - last
  let ctx := utilsSha1Update ctx (iotSha1Padding.take padn)
  let ctx := utilsSha1Update ctx msglen
  putUint32Be (ctx.state.word 0) ++ putUint32Be (ctx.state.word 1) ++ putUint32Be (ctx.state.word 2) ++
    putUint32Be (ctx.state.word 3) ++ putUint32Be (ctx.state.word 4)

/-- `utils_sha1`. -/
def utilsSha1 (input : List UInt8) : List UInt8 :=
  utilsSha1Finish (utilsSha1Update (utilsSha1Starts utilsSha1Init) input)

/-! ## The pieces of the standard -/

theorem or_reverse (a b c d : UInt32) : a ||| b ||| c ||| d = d ||| c ||| b ||| a := by ac_rfl

theorem getUint32Be_eq (data : List UInt8) (t : Nat) : getUint32Be data (4 * t) = blockWord data t :=
  or_reverse _ _ _ _

theorem sha1S_eq (x n : UInt32) : sha1S x n = rotl x n := by
  have hmask : x &&& 0xFFFFFFFF = x := UInt32.and_neg_one
  rw [sha1S, hmask, rotl]

theorem sha1F_eq {t : Nat} (h : t < 80) : sha1F (t / 20) = mixing t := by
  obtain ⟨part, hpart⟩ : ∃ part, t / 20 = part := ⟨_, rfl⟩
  rw [hpart]
  funext x y z
  match part with
  | 0 =>
    rw [mixing, if_pos (by omega), ← choose_eq]
    rfl
  | 1 =>
    rw [mixing, if_neg (by omega), if_pos (by omega)]
    rfl
  | 2 =>
    rw [mixing, if_neg (by omega), if_neg (by omega), if_pos (by omega), ← majority_eq]
    rfl
  | part + 3 =>
    rw [mixing, if_neg (by omega), if_neg (by omega), if_neg (by omega)]
    rfl

theorem sha1K_eq {t : Nat} (h : t < 80) : sha1K (t / 20) = constant t := by
  obtain ⟨part, hpart⟩ : ∃ part, t / 20 = part := ⟨_, rfl⟩
  rw [hpart]
  match part with
  | 0 => exact (if_pos (by omega)).symm
  | 1 => rw [constant, if_neg (by omega), if_pos (by omega), sha1K]
  | 2 => rw [constant, if_neg (by omega), if_neg (by omega), if_pos (by omega), sha1K]
  | part + 3 =>
    rw [constant, if_neg (by omega), if_neg (by omega), if_neg (by omega)]
    rfl

theorem and_0x0F (t : Nat) : t &&& 0x0F = t % 16 := Nat.and_two_pow_sub_one_eq_mod t 4

/-! ## A use of `P` -/

/-- Two places have two variables. -/
theorem sha1Name_inj {t i j : Nat} (hi : i < 5) (hj : j < 5) (h : sha1Name t i = sha1Name t j) :
    i = j := by
  have hval : (i + 4 * t) % 5 = (j + 4 * t) % 5 := congrArg Fin.val h
  omega

/-- The names move on by one place. -/
theorem sha1Name_succ (t i : Nat) : sha1Name (t + 1) (i + 1) = sha1Name t i :=
  Fin.ext (show (i + 1 + 4 * (t + 1)) % 5 = (i + 4 * t) % 5 by omega)

theorem sha1Name_first (t : Nat) : sha1Name (t + 1) 0 = sha1Name t 4 :=
  Fin.ext (show (0 + 4 * (t + 1)) % 5 = (4 + 4 * t) % 5 by omega)

/-- The variables in the order of the `t`-th use. -/
def named (t : Nat) (v : Fin 5 → UInt32) : State := ⟨fun i => v (sha1Name t i)⟩

/-- **A use of `P`** with the names of its turn is a round. -/
theorem named_sha1P {t : Nat} (h : t < 80) (x : UInt32) (r : Sha1Work) :
    named (t + 1) (sha1P (t / 20) (sha1Name t 0) (sha1Name t 1) (sha1Name t 2) (sha1Name t 3)
      (sha1Name t 4) x r).v = round t x (named t r.v) := by
  have hne : ∀ {i j : Nat}, i < 5 → j < 5 → i ≠ j → sha1Name t i ≠ sha1Name t j :=
    fun hi hj hij heq => hij (sha1Name_inj hi hj heq)
  have hbe := hne (i := 1) (j := 4) (by decide) (by decide) (by decide)
  unfold sha1P
  simp only [sha1S_eq, sha1F_eq h, sha1K_eq h]
  ext i : 2
  match i with
  | 0 =>
    change Function.update _ _ _ (sha1Name (t + 1) 0) = _
    rw [sha1Name_first, Function.update_of_ne hbe.symm, Function.update_self]
    change r.v (sha1Name t 4) + (rotl _ 5 + mixing t _ _ _ + constant t + x) =
      rotl (r.v (sha1Name t 0)) 5 + mixing t (r.v (sha1Name t 1)) (r.v (sha1Name t 2))
        (r.v (sha1Name t 3)) + r.v (sha1Name t 4) + constant t + x
    ac_rfl
  | 1 =>
    change Function.update _ _ _ (sha1Name (t + 1) 1) = _
    rw [sha1Name_succ, Function.update_of_ne (hne (by decide) (by decide) (by decide)),
      Function.update_of_ne (hne (by decide) (by decide) (by decide))]
    rfl
  | 2 =>
    change Function.update _ _ _ (sha1Name (t + 1) 2) = _
    rw [sha1Name_succ, Function.update_self, Function.update_of_ne hbe]
    rfl
  | 3 =>
    change Function.update _ _ _ (sha1Name (t + 1) 3) = _
    rw [sha1Name_succ, Function.update_of_ne (hne (by decide) (by decide) (by decide)),
      Function.update_of_ne (hne (by decide) (by decide) (by decide))]
    rfl
  | 4 =>
    change Function.update _ _ _ (sha1Name (t + 1) 4) = _
    rw [sha1Name_succ, Function.update_of_ne (hne (by decide) (by decide) (by decide)),
      Function.update_of_ne (hne (by decide) (by decide) (by decide))]
    rfl

/-! ## A block -/

/-- What holds before the `t`-th use of `P`: the variables are the words after as many rounds, and `W`
holds the last sixteen words of the schedule. -/
structure Sha1Work.Follows (m : Nat → UInt32) (state : State) (t : Nat) (r : Sha1Work) : Prop where
  words : ∀ s < max 16 t, max 16 t ≤ s + 16 → r.w (s % 16) = schedule m s
  vars : named t r.v = Lib.Sha1.rounds (schedule m) t state

theorem follows_first (m : Nat → UInt32) (state : State) :
    Sha1Work.Follows m state 0 ⟨m, state.word⟩ := by
  constructor
  · intro s hs _
    rw [schedule_of_lt m (by omega), Nat.mod_eq_of_lt (by omega)]
  · ext i : 2
    exact congrArg state.word (Fin.ext (Nat.mod_eq_of_lt i.isLt))

theorem sha1Word_v (t : Nat) (r : Sha1Work) : (sha1Word t r).v = r.v := by
  unfold sha1Word
  split
  · rfl
  · rfl

/-- The word that a use of `P` takes, and those that it leaves in `W`. -/
theorem sha1Word_w {m : Nat → UInt32} {state : State} {t : Nat} {r : Sha1Work}
    (h : r.Follows m state t) : (sha1Word t r).w (t &&& 0x0F) = schedule m t ∧
      ∀ s < max 16 (t + 1), max 16 (t + 1) ≤ s + 16 → (sha1Word t r).w (s % 16) = schedule m s := by
  unfold sha1Word
  rw [and_0x0F]
  by_cases ht : t < 16
  · rw [if_pos ht]
    exact ⟨h.words t (by omega) (by omega), fun s hs hs' => h.words s (by omega) (by omega)⟩
  · rw [if_neg ht]
    have hnew : sha1R t r.w = schedule m t := by
      have hfirst : t % 16 = (t - 16) % 16 := by omega
      rw [sha1R, and_0x0F, and_0x0F, and_0x0F, and_0x0F, hfirst, h.words (t - 3) (by omega) (by omega),
        h.words (t - 8) (by omega) (by omega), h.words (t - 14) (by omega) (by omega),
        h.words (t - 16) (by omega) (by omega), sha1S_eq, ← schedule_of_ge m ht]
    simp only [hnew]
    rw [Function.update_self]
    refine ⟨rfl, fun s hs hs' => ?_⟩
    by_cases hst : s = t
    · rw [hst, Function.update_self]
    · rw [Function.update_of_ne (by omega), h.words s (by omega) (by omega)]

/-- **What a use of `P` keeps.** -/
theorem Sha1Work.Follows.turn {m : Nat → UInt32} {state : State} {t : Nat} {r : Sha1Work}
    (h : r.Follows m state t) (ht : t < 80) : (sha1Turn t r).Follows m state (t + 1) := by
  obtain ⟨hword, hwords⟩ := sha1Word_w h
  have hround := named_sha1P ht (schedule m t) (sha1Word t r)
  rw [sha1Word_v, h.vars] at hround
  unfold sha1Turn
  simp only [hword]
  exact ⟨hwords, hround⟩

/-- **A block** is compressed as the standard says. -/
theorem utilsSha1Process_eq (state : State) (data : List UInt8) :
    utilsSha1Process state data = compress (blockWord data) state := by
  have hfirst : (fun i => getUint32Be data (4 * i)) = blockWord data :=
    funext (getUint32Be_eq data)
  have hlast := forTo_induction (fun t r => Sha1Work.Follows (blockWord data) state t r) 80
    (follows_first (blockWord data) state) fun t r ht h => h.turn ht
  rw [utilsSha1Process, hfirst, compress, ← hlast.vars]
  ext i : 2
  exact congrArg (fun j => state.word i + (forTo 80 sha1Turn ⟨blockWord data, state.word⟩).v j)
    (Fin.ext (show i.val = (i.val + 4 * 80) % 5 by omega))

/-! ## Pieces -/

theorem process_eq : utilsSha1Process = sha1.process := funext fun s => funext (utilsSha1Process_eq s)

/-- A finish closes the stream. -/
theorem utilsSha1Finish_eq (ctx : Sha1Context) :
    utilsSha1Finish ctx = sha1.output (sha1.finish ctx).state := by
  rw [PaddedHash.finish, ← process_eq]
  rfl

/-- Whatever the context was. -/
theorem holds_utilsSha1Starts (ctx : Sha1Context) :
    (utilsSha1Starts ctx).Holds utilsSha1Process sha1.start [] := ⟨rfl, rfl, rfl, rfl⟩

/-- **However they are fed**: the bytes of any pieces behind a start give the digest of all of them. -/
theorem utilsSha1_pieces (ctx : Sha1Context) {pieces : List (List UInt8)}
    (hlen : ∀ p ∈ pieces, p.length < 2 ^ 32) :
    utilsSha1Finish (pieces.foldl utilsSha1Update (utilsSha1Starts ctx)) = sha1.hash pieces.flatten := by
  have h := holds_pieces (holds_utilsSha1Starts ctx) hlen
  rw [process_eq, List.nil_append] at h
  rw [utilsSha1Finish_eq, ← sha1.finish_eq h, ← process_eq]
  rfl

/-- Five bytes in two pieces, with an empty one between. -/
theorem utilsSha1_two_pieces :
    utilsSha1Finish ([[1, 2, 3], [], [4, 5]].foldl utilsSha1Update (utilsSha1Starts utilsSha1Init)) =
      sha1.hash [[1, 2, 3], [], [4, 5]].flatten :=
  utilsSha1_pieces utilsSha1Init (by decide)

end QcloudIot.Utils
