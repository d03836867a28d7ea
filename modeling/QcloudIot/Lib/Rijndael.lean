import Mathlib.Data.Fin.VecNotation
import QcloudIot.Lib.BlockCipher
import QcloudIot.Lib.ByteField
import QcloudIot.Lib.WordBytes

/-!
# Rijndael with blocks of sixteen bytes

The cipher of the Advanced Encryption Standard, by its definition: a state is four columns of four
bytes, a round substitutes the bytes, shifts the rows, mixes the columns and adds a round key, and the
round keys are cut from a sequence of words that grows out of the key.

* `sbox`: the inverse in the field of the bytes, and an affine map;
* `mixColumn`, `unmixColumn`: a column times a circulant matrix, and times its inverse;
* `word_circulant`: such a product as a sum of four words;
* `rijndael`: the steps of a round as `RoundSteps`;
* `keyWord`: the words of the key schedule;
* **`decipher_cipher`**: the rounds back in the order of the rounds.
-/

namespace QcloudIot.Lib.Rijndael

open ByteField

/-- Four bytes. -/
abbrev Column := Fin 4 → UInt8

/-- Four columns. -/
abbrev State := Fin 4 → Column

/-- The sum of two columns. -/
def addColumn (a b : Column) : Column := fun r => a r ^^^ b r

/-- The sum of two states. -/
def addState (a b : State) : State := fun j => addColumn (a j) (b j)

theorem addState_addState (a b : State) : addState a (addState a b) = b :=
  funext fun _ => funext fun _ => xor_xor_self _ _

/-! ## Substitution -/

/-- A byte turned to the left. -/
def rotl (a k : UInt8) : UInt8 := a <<< k ||| a >>> (8 - k)

/-- The affine map of the substitution. -/
def affine (a : UInt8) : UInt8 := a ^^^ rotl a 1 ^^^ rotl a 2 ^^^ rotl a 3 ^^^ rotl a 4 ^^^ 0x63

def unaffine (a : UInt8) : UInt8 := rotl a 1 ^^^ rotl a 3 ^^^ rotl a 6 ^^^ 0x05

theorem affine_inverse (a : UInt8) : unaffine (affine a) = a ∧ affine (unaffine a) = a :=
  forall_byte (P := fun a => unaffine (affine a) = a ∧ affine (unaffine a) = a) (by decide +kernel) a

/-- The substitution of a byte. -/
def sbox (a : UInt8) : UInt8 := affine (inv a)

def unsbox (a : UInt8) : UInt8 := inv (unaffine a)

@[simp] theorem unsbox_sbox (a : UInt8) : unsbox (sbox a) = a := by
  rw [unsbox, sbox, (affine_inverse _).1, inv_inv]

@[simp] theorem sbox_unsbox (a : UInt8) : sbox (unsbox a) = a := by
  rw [sbox, unsbox, inv_inv, (affine_inverse _).2]

theorem sbox_injective : Function.Injective sbox := Function.LeftInverse.injective unsbox_sbox

/-- The bytes substituted and the rows shifted: row `r` by `r` columns. -/
def subShift : State ≃ State where
  toFun s j r := sbox (s (j + r) r)
  invFun s j r := unsbox (s (j - r) r)
  left_inv s := by
    funext j r
    have hturn : j - r + r = j := by omega
    simp only [unsbox_sbox, hturn]
  right_inv s := by
    funext j r
    have hturn : j + r - r = j := by omega
    simp only [sbox_unsbox, hturn]

/-! ## Mixing -/

/-- A column times the circulant matrix with this first row. -/
def circulant (m c : Column) : Column := fun r =>
  mul (m 0) (c r) ^^^ mul (m 1) (c (r + 1)) ^^^ mul (m 2) (c (r + 2)) ^^^ mul (m 3) (c (r + 3))

/-- The matrix of a round. -/
def mixMatrix : Column := ![2, 3, 1, 1]

/-- Its inverse. -/
def unmixMatrix : Column := ![14, 11, 13, 9]

/-- What byte `k` of a column adds to the product. -/
def part (m : Column) (k : Fin 4) (a : UInt8) : Column := fun r => mul (m (k - r)) a

/-- A row of the first matrix. -/
def mixRow (a b c d : UInt8) : UInt8 := mul 2 a ^^^ mul 3 b ^^^ mul 1 c ^^^ mul 1 d

/-- A row of the second matrix. -/
def unmixRow (a b c d : UInt8) : UInt8 := mul 14 a ^^^ mul 11 b ^^^ mul 13 c ^^^ mul 9 d

/-- A row of the square of the first matrix, which is its own inverse. -/
def mixTwiceRow (a c : UInt8) : UInt8 := a ^^^ xtime (xtime (a ^^^ c))

theorem mul_1 (a : UInt8) : mul 1 a = a := by simp [mul, mulBits]

theorem mul_2 (a : UInt8) : mul 2 a = xtime a := by simp [mul, mulBits]

theorem mul_3 (a : UInt8) : mul 3 a = a ^^^ xtime a := by simp [mul, mulBits]

theorem mul_9 (a : UInt8) : mul 9 a = a ^^^ xtime (xtime (xtime a)) := by simp [mul, mulBits]

theorem mul_11 (a : UInt8) : mul 11 a = a ^^^ (xtime a ^^^ xtime (xtime (xtime a))) := by
  simp [mul, mulBits]

theorem mul_13 (a : UInt8) : mul 13 a = a ^^^ (xtime (xtime a) ^^^ xtime (xtime (xtime a))) := by
  simp [mul, mulBits]

theorem mul_14 (a : UInt8) : mul 14 a = xtime a ^^^ (xtime (xtime a) ^^^ xtime (xtime (xtime a))) := by
  simp [mul, mulBits]

theorem xor_left_comm (a b c : UInt8) : a ^^^ (b ^^^ c) = b ^^^ (a ^^^ c) := by
  rw [← UInt8.xor_assoc, UInt8.xor_comm a b, UInt8.xor_assoc]

/-- The coefficients cancel as polynomials already. -/
theorem mixRow_mixRow (a b c d : UInt8) :
    mixRow (mixRow a b c d) (mixRow b c d a) (mixRow c d a b) (mixRow d a b c) = mixTwiceRow a c := by
  simp only [mixRow, mixTwiceRow, mul_1, mul_2, mul_3, xtime_xor]
  generalize xtime d = d1, xtime c = c1, xtime b = b1, xtime a = a1, xtime (xtime c) = c2,
    xtime (xtime b) = b2, xtime (xtime a) = a2
  simp only [UInt8.xor_assoc]
  simp only [xor_left_comm, UInt8.xor_comm, xor_xor_self, UInt8.xor_self, UInt8.xor_zero]

theorem mixTwiceRow_mixTwiceRow (a c : UInt8) :
    mixTwiceRow (mixTwiceRow a c) (mixTwiceRow c a) = a := by
  simp only [mixTwiceRow, xtime_xor]
  generalize xtime (xtime c) = c2, xtime (xtime a) = a2, xtime (xtime (xtime (xtime c))) = c4,
    xtime (xtime (xtime (xtime a))) = a4
  simp only [UInt8.xor_assoc]
  simp only [xor_left_comm, UInt8.xor_comm, xor_xor_self, UInt8.xor_self, UInt8.xor_zero]

/-- The second matrix is the third power of the first. -/
theorem unmixRow_eq (a b c d : UInt8) : unmixRow a b c d =
    mixRow (mixTwiceRow a c) (mixTwiceRow b d) (mixTwiceRow c a) (mixTwiceRow d b) := by
  simp only [unmixRow, mixRow, mixTwiceRow, mul_1, mul_2, mul_3, mul_9, mul_11, mul_13, mul_14, xtime_xor]
  generalize xtime b = b1, xtime a = a1, xtime (xtime d) = d2, xtime (xtime c) = c2,
    xtime (xtime b) = b2, xtime (xtime a) = a2, xtime (xtime (xtime d)) = d3,
    xtime (xtime (xtime c)) = c3, xtime (xtime (xtime b)) = b3, xtime (xtime (xtime a)) = a3
  simp only [UInt8.xor_assoc]
  simp only [xor_left_comm, UInt8.xor_comm, xor_xor_self]

theorem unmixRow_xor (a b c d a' b' c' d' : UInt8) :
    unmixRow (a ^^^ a') (b ^^^ b') (c ^^^ c') (d ^^^ d') =
      unmixRow a b c d ^^^ unmixRow a' b' c' d' := by
  simp only [unmixRow, mul_xor, UInt8.xor_assoc]
  generalize mul 14 a' = a1, mul 11 b' = b1, mul 13 c' = c1, mul 11 b = b0, mul 13 c = c0, mul 9 d = d0
  simp only [xor_left_comm]

/-- A column times the matrix of a round. -/
def mixColumn (c : Column) : Column := circulant mixMatrix c

/-- A column times the inverse. -/
def unmixColumn (c : Column) : Column := circulant unmixMatrix c

theorem mixColumn_apply (c : Column) (r : Fin 4) :
    mixColumn c r = mixRow (c r) (c (r + 1)) (c (r + 2)) (c (r + 3)) := rfl

theorem unmixColumn_apply (c : Column) (r : Fin 4) :
    unmixColumn c r = unmixRow (c r) (c (r + 1)) (c (r + 2)) (c (r + 3)) := rfl

/-- The turns of a column. -/
theorem turn (r : Fin 4) : r + 1 + 1 = r + 2 ∧ r + 1 + 2 = r + 3 ∧ r + 1 + 3 = r ∧ r + 2 + 1 = r + 3 ∧
    r + 2 + 2 = r ∧ r + 2 + 3 = r + 1 ∧ r + 3 + 1 = r ∧ r + 3 + 2 = r + 1 ∧ r + 3 + 3 = r + 2 := by
  revert r
  decide

/-- A column times the square of the first matrix. -/
def mixTwice (c : Column) : Column := fun r => mixTwiceRow (c r) (c (r + 2))

theorem mixColumn_mixColumn (c : Column) : mixColumn (mixColumn c) = mixTwice c := by
  funext r
  obtain ⟨h11, h12, h13, h21, h22, h23, h31, h32, h33⟩ := turn r
  simp only [mixColumn_apply, h11, h12, h13, h21, h22, h23, h31, h32, h33]
  exact mixRow_mixRow _ _ _ _

theorem mixTwice_mixTwice (c : Column) : mixTwice (mixTwice c) = c := by
  funext r
  obtain ⟨-, -, -, -, h22, -⟩ := turn r
  simp only [mixTwice, h22]
  exact mixTwiceRow_mixTwiceRow _ _

theorem unmixColumn_eq (c : Column) : unmixColumn c = mixColumn (mixTwice c) := by
  funext r
  obtain ⟨-, h12, -, -, h22, -, -, h32, -⟩ := turn r
  simp only [mixColumn_apply, unmixColumn_apply, mixTwice, h12, h22, h32]
  exact unmixRow_eq _ _ _ _

theorem unmixColumn_mixColumn (c : Column) : unmixColumn (mixColumn c) = c := by
  rw [unmixColumn_eq, ← mixColumn_mixColumn, mixColumn_mixColumn (mixColumn (mixColumn c)),
    mixColumn_mixColumn, mixTwice_mixTwice]

theorem mixColumn_unmixColumn (c : Column) : mixColumn (unmixColumn c) = c := by
  rw [unmixColumn_eq, mixColumn_mixColumn, mixTwice_mixTwice]

theorem unmixColumn_add (a b : Column) :
    unmixColumn (addColumn a b) = addColumn (unmixColumn a) (unmixColumn b) := by
  funext r
  exact unmixRow_xor _ _ _ _ _ _ _ _

/-- A product is the sum of what the bytes add to it. -/
theorem word_circulant (m c : Column) : word (circulant m c) =
    word (part m 0 (c 0)) ^^^ word (part m 1 (c 1)) ^^^ word (part m 2 (c 2)) ^^^
      word (part m 3 (c 3)) := by
  rw [← word_xor, ← word_xor, ← word_xor]
  refine congrArg word (funext fun r => ?_)
  revert r
  apply forall_place
  all_goals simp only [circulant, part, Fin.isValue, Fin.reduceAdd, Fin.reduceSub]
  all_goals ac_rfl

/-- The columns mixed. -/
def mixColumns : State ≃ State where
  toFun s j := mixColumn (s j)
  invFun s j := unmixColumn (s j)
  left_inv s := funext fun j => unmixColumn_mixColumn (s j)
  right_inv s := funext fun j => mixColumn_unmixColumn (s j)

/-- The steps of a round. -/
def rijndael : RoundSteps State State where
  add := addState
  add_add := addState_addState
  sub := subShift
  mix := mixColumns
  mixKey := mixColumns.symm
  mix_symm_add k x := funext fun j => unmixColumn_add (k j) (x j)

/-! ## The key schedule -/

/-- The round constant of a word. -/
def rcon : Nat → UInt8
  | 0 => 1
  | i + 1 => xtime (rcon i)

/-- What is added to the word `nk` before the word `i`, of the word before it. -/
def scheduleCore (nk i : Nat) (w : Column) : Column :=
  if i % nk = 0 then fun r => sbox (w (r + 1)) ^^^ (if r = 0 then rcon (i / nk - 1) else 0)
  else if 6 < nk ∧ i % nk = 4 then fun r => sbox (w r)
  else w

/-- The words of the schedule of a key of `nk` words. -/
def keyWord (nk : Nat) (key : Nat → Column) (i : Nat) : Column :=
  if i < nk ∨ nk = 0 then key i
  else addColumn (keyWord nk key (i - nk)) (scheduleCore nk i (keyWord nk key (i - 1)))
termination_by i

theorem keyWord_of_lt {nk i : Nat} (h : i < nk) (key : Nat → Column) : keyWord nk key i = key i := by
  rw [keyWord, if_pos (.inl h)]

theorem keyWord_of_ge {nk i : Nat} (hnk : 0 < nk) (h : nk ≤ i) (key : Nat → Column) :
    keyWord nk key i =
      addColumn (keyWord nk key (i - nk)) (scheduleCore nk i (keyWord nk key (i - 1))) := by
  rw [keyWord, if_neg (by omega)]

/-- The key of round `i`. -/
def roundKey (w : Nat → Column) (i : Nat) : State := fun j => w (4 * i + j)

/-- The keys of the rounds before the last. -/
def middleKeys (nr : Nat) (w : Nat → Column) : List State :=
  (List.range (nr - 1)).map fun i => roundKey w (i + 1)

/-! ## The cipher -/

/-- The number of rounds for a key of `nk` words. -/
def rounds (nk : Nat) : Nat := nk + 6

/-- The cipher with a key of `nk` words. -/
def cipher (nk : Nat) (key : Nat → Column) (x : State) : State :=
  let w := keyWord nk key
  rijndael.encrypt (roundKey w 0) (middleKeys (rounds nk) w) (roundKey w (rounds nk)) x

/-- The cipher back. -/
def decipher (nk : Nat) (key : Nat → Column) (x : State) : State :=
  let w := keyWord nk key
  rijndael.decrypt (roundKey w (rounds nk)) ((middleKeys (rounds nk) w).reverse.map mixColumns.symm)
    (roundKey w 0) x

/-- **The cipher undone.** -/
theorem decipher_cipher (nk : Nat) (key : Nat → Column) (x : State) :
    decipher nk key (cipher nk key x) = x :=
  rijndael.decrypt_encrypt _ _ _ x

end QcloudIot.Lib.Rijndael
