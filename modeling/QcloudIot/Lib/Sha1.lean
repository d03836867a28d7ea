import Mathlib.Data.Fin.VecNotation
import QcloudIot.Lib.StreamHash

/-!
# SHA-1

The Secure Hash Algorithm with 160 bits, by its definition: the sixteen words of a block are stretched to
eighty, and each round moves five words on by one place.

* `schedule`: the eighty words;
* `round`, `compress`: a round, and a block;
* `sha1`: the hash, with the words written high byte first.
-/

namespace QcloudIot.Lib.Sha1

/-- The numbers of the words are all taken from this one instance. -/
instance neZero_five : NeZero 5 := ⟨by decide⟩

/-- Five words. -/
@[ext] structure State where
  word : Fin 5 → UInt32

/-- A word turned to the left. -/
def rotl (x n : UInt32) : UInt32 := x <<< n ||| x >>> (32 - n)

/-- The words of the schedule, from those of the block. -/
def schedule (m : Nat → UInt32) (t : Nat) : UInt32 :=
  if t < 16 then m t
  else rotl (schedule m (t - 3) ^^^ schedule m (t - 8) ^^^ schedule m (t - 14) ^^^ schedule m (t - 16)) 1

def choose (x y z : UInt32) : UInt32 := (x &&& y) ^^^ (~~~x &&& z)

def parity (x y z : UInt32) : UInt32 := x ^^^ y ^^^ z

def majority (x y z : UInt32) : UInt32 := (x &&& y) ^^^ (x &&& z) ^^^ (y &&& z)

/-- The function of a round. -/
def mixing (t : Nat) : UInt32 → UInt32 → UInt32 → UInt32 :=
  if t < 20 then choose else if t < 40 then parity else if t < 60 then majority else parity

/-- The constant of a round. -/
def constant (t : Nat) : UInt32 :=
  if t < 20 then 0x5A827999 else if t < 40 then 0x6ED9EBA1 else if t < 60 then 0x8F1BBCDC else 0xCA62C1D6

/-- A round with the word of the schedule. -/
def round (t : Nat) (w : UInt32) (s : State) : State where
  word := ![rotl (s.word 0) 5 + mixing t (s.word 1) (s.word 2) (s.word 3) + s.word 4 + constant t + w,
    s.word 0, rotl (s.word 1) 30, s.word 2, s.word 3]

/-- The first rounds. -/
def rounds (w : Nat → UInt32) : Nat → State → State
  | 0, s => s
  | t + 1, s => round t (w t) (rounds w t s)

/-- A block. -/
def compress (m : Nat → UInt32) (s : State) : State where
  word i := s.word i + (rounds (schedule m) 80 s).word i

/-- The words of a block, high byte first. -/
def blockWord (data : List UInt8) (t : Nat) : UInt32 :=
  word ![data.getD (4 * t + 3) 0, data.getD (4 * t + 2) 0, data.getD (4 * t + 1) 0, data.getD (4 * t) 0]

/-- A word, high byte first. -/
def bigEndian (w : UInt32) : List UInt8 := [byteOf w 3, byteOf w 2, byteOf w 1, byteOf w 0]

/-- The hash. -/
def sha1 : PaddedHash State where
  process s data := compress (blockWord data) s
  start := ⟨![0x67452301, 0xEFCDAB89, 0x98BADCFE, 0x10325476, 0xC3D2E1F0]⟩
  count high low := bigEndian high ++ bigEndian low
  output s := bigEndian (s.word 0) ++ bigEndian (s.word 1) ++ bigEndian (s.word 2) ++
    bigEndian (s.word 3) ++ bigEndian (s.word 4)
  length_count _ _ := rfl

theorem schedule_of_lt (m : Nat → UInt32) {t : Nat} (h : t < 16) : schedule m t = m t := by
  rw [schedule, if_pos h]

theorem schedule_of_ge (m : Nat → UInt32) {t : Nat} (h : ¬ t < 16) : schedule m t =
    rotl (schedule m (t - 3) ^^^ schedule m (t - 8) ^^^ schedule m (t - 14) ^^^ schedule m (t - 16)) 1 := by
  rw [schedule, if_neg h]

/-! ## The functions in two forms -/

/-- A choice bit by bit with three operations. -/
theorem choose_eq (x y z : UInt32) : z ^^^ (x &&& (y ^^^ z)) = choose x y z := by
  refine UInt32.toBitVec_inj.mp (BitVec.eq_of_getElem_eq fun i hi => ?_)
  simp only [choose, UInt32.toBitVec_xor, UInt32.toBitVec_and, UInt32.toBitVec_not, BitVec.getElem_xor,
    BitVec.getElem_and, BitVec.getElem_not]
  cases x.toBitVec[i] <;> cases y.toBitVec[i] <;> cases z.toBitVec[i] <;> rfl

/-- A majority bit by bit with four operations. -/
theorem majority_eq (x y z : UInt32) : (x &&& y) ||| (z &&& (x ||| y)) = majority x y z := by
  refine UInt32.toBitVec_inj.mp (BitVec.eq_of_getElem_eq fun i hi => ?_)
  simp only [majority, UInt32.toBitVec_xor, UInt32.toBitVec_and, UInt32.toBitVec_or, BitVec.getElem_xor,
    BitVec.getElem_and, BitVec.getElem_or]
  cases x.toBitVec[i] <;> cases y.toBitVec[i] <;> cases z.toBitVec[i] <;> rfl

end QcloudIot.Lib.Sha1
