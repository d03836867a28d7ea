import Mathlib.Logic.Equiv.Defs
import Mathlib.Tactic.Common

/-!
# Block ciphers of rounds, and chains of blocks

A key-alternating cipher adds a key, and then, round by round, substitutes, mixes and adds the next key;
the last round does not mix. It is undone with the keys in the opposite order, and since mixing is
additive the rounds back can have the same order of steps, with the keys mixed.

* `RoundSteps.decrypt_encrypt`: the cipher undone in that way;
* `chain_append`: blocks with a value passed on from each to the next, in two pieces;
* `chain_decrypt_encrypt`: blocks chained with the ciphertext of the one before.
-/

namespace QcloudIot.Lib

/-- The steps of a round. -/
structure RoundSteps (Key State : Type*) where
  /-- The key added; added again it is gone. -/
  add : Key → State → State
  add_add : ∀ k x, add k (add k x) = x
  sub : State ≃ State
  mix : State ≃ State
  /-- The key that is added behind `mix.symm`. -/
  mixKey : Key → Key
  mix_symm_add : ∀ k x, mix.symm (add k x) = add (mixKey k) (mix.symm x)

namespace RoundSteps

variable {Key State : Type*} (R : RoundSteps Key State)

/-- A round. -/
def round (x : State) (k : Key) : State := R.add k (R.mix (R.sub x))

/-- A round back. -/
def unround (x : State) (k : Key) : State := R.add k (R.mix.symm (R.sub.symm x))

/-- The cipher. -/
def encrypt (first : Key) (middle : List Key) (last : Key) (x : State) : State :=
  R.add last (R.sub (middle.foldl R.round (R.add first x)))

/-- The cipher back, with its keys in the order of their use. -/
def decrypt (first : Key) (middle : List Key) (last : Key) (x : State) : State :=
  R.add last (R.sub.symm (middle.foldl R.unround (R.add first x)))

/-- A round undone, up to the substitution. -/
theorem unround_sub_round (x : State) (k : Key) :
    R.unround (R.sub (R.round x k)) (R.mixKey k) = R.sub x := by
  rw [unround, Equiv.symm_apply_apply, round, mix_symm_add, add_add, Equiv.symm_apply_apply]

theorem foldl_unround (middle : List Key) (x : State) :
    (middle.reverse.map R.mixKey).foldl R.unround (R.sub (middle.foldl R.round x)) = R.sub x := by
  induction middle generalizing x with
  | nil => rfl
  | cons k middle ih =>
    rw [List.foldl_cons, List.reverse_cons, List.map_append, List.foldl_append, ih]
    exact R.unround_sub_round x k

/-- **What is encrypted comes out again.** -/
theorem decrypt_encrypt (first : Key) (middle : List Key) (last : Key) (x : State) :
    R.decrypt last (middle.reverse.map R.mixKey) first (R.encrypt first middle last x) = x := by
  rw [decrypt, encrypt, add_add, foldl_unround, Equiv.symm_apply_apply, add_add]

end RoundSteps

/-! ## Chains of blocks -/

section Chain

variable {Value Block Out : Type*} (step : Value → Block → Value × Out)

/-- Blocks taken one after another, with a value that each of them leaves for the next. -/
def chain : Value → List Block → Value × List Out
  | v, [] => (v, [])
  | v, b :: bs => ((chain (step v b).1 bs).1, (step v b).2 :: (chain (step v b).1 bs).2)

@[simp] theorem chain_nil (v : Value) : chain step v [] = (v, []) := rfl

@[simp] theorem length_chain (v : Value) (bs : List Block) : (chain step v bs).2.length = bs.length := by
  induction bs generalizing v with
  | nil => rfl
  | cons b bs ih => rw [chain, List.length_cons, ih, List.length_cons]

/-- A chain in two pieces. -/
theorem chain_append (v : Value) (bs bs' : List Block) : chain step v (bs ++ bs') =
    ((chain step (chain step v bs).1 bs').1,
      (chain step v bs).2 ++ (chain step (chain step v bs).1 bs').2) := by
  induction bs generalizing v with
  | nil => rfl
  | cons b bs ih => rw [List.cons_append, chain, ih, chain, List.cons_append]

end Chain

variable {Block : Type*} (xor : Block → Block → Block) (enc dec : Block → Block)

/-- A block is combined with the ciphertext before it and encrypted. -/
def cbcEncryptStep (v b : Block) : Block × Block := (enc (xor b v), enc (xor b v))

/-- A block is decrypted and combined with the ciphertext before it. -/
def cbcDecryptStep (v c : Block) : Block × Block := (c, xor (dec c) v)

variable {xor enc dec}

/-- **A chain comes out again**, and leaves the same value. -/
theorem chain_decrypt_encrypt (hxor : ∀ a b, xor (xor a b) b = a) (hdec : ∀ b, dec (enc b) = b)
    (v : Block) (bs : List Block) :
    chain (cbcDecryptStep xor dec) v (chain (cbcEncryptStep xor enc) v bs).2 =
      ((chain (cbcEncryptStep xor enc) v bs).1, bs) := by
  induction bs generalizing v with
  | nil => rfl
  | cons b bs ih =>
    simp only [chain, cbcEncryptStep, cbcDecryptStep] at ih ⊢
    rw [ih, hdec, hxor]

end QcloudIot.Lib
