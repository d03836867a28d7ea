import Mathlib.Algebra.Group.Int.Defs
import Mathlib.Algebra.GroupWithZero.Nat
import Mathlib.Data.Nat.Bitwise
import Mathlib.Tactic.Common

/-!
# Facts about a byte

What holds of each of the 256 bytes holds of a byte (`forall_byte`), and the mask and shift
operations as arithmetic.
-/

namespace QcloudIot.Lib

/-- The characters of a string literal. -/
def chars (s : String) : List UInt8 := s.toList.map fun c => UInt8.ofNat c.toNat

/-- What is asked of all bytes of a list is decided along the list, not for all the bytes there are. -/
instance (priority := 1100) decidableForallMem {p : UInt8 → Prop} [DecidablePred p]
    (l : List UInt8) : Decidable (∀ a ∈ l, p a) := List.decidableBAll p l

/-- A property of bytes, one by one. -/
theorem forall_byte {P : UInt8 → Prop} (h : ∀ n : Fin 256, P (UInt8.ofNat n)) (b : UInt8) : P b := by
  have hb := h ⟨b.toNat, b.toNat_lt⟩
  rwa [UInt8.ofNat_toNat] at hb

theorem and_one_cases (b : UInt8) : b &&& 1 = 0 ∨ b &&& 1 = 1 := by
  have hand : (b &&& 1).toNat = b.toNat % 2 := Nat.and_one_is_mod b.toNat
  obtain h | h := Nat.mod_two_eq_zero_or_one b.toNat
  · exact .inl (UInt8.toNat_inj.mp (hand.trans h))
  · exact .inr (UInt8.toNat_inj.mp (hand.trans h))

theorem toNat_char (b : UInt8) : (Char.ofNat b.toNat).toNat = b.toNat := by
  have hlt := b.toNat_lt
  have hvalid : b.toNat.isValidChar := .inl (by omega)
  rw [Char.ofNat, dif_pos hvalid]
  rfl

/-- The characters of a literal by their codes, which are cheaper to compute with than the literal. -/
theorem chars_eq {s : String} {bs : List UInt8}
    (h : s = String.ofList (bs.map fun b => Char.ofNat b.toNat)) : chars s = bs := by
  rw [chars, h, String.toList_ofList, List.map_map]
  refine (List.map_congr_left fun b _ => ?_).trans (List.map_id bs)
  rw [Function.comp_apply, toNat_char, UInt8.ofNat_toNat, id]

/-- The seven low bits. -/
theorem and_127_eq (b : UInt8) : (b &&& 127).toNat = b.toNat % 128 := by
  rw [UInt8.toNat_and]
  exact Nat.and_two_pow_sub_one_eq_mod b.toNat 7

/-- The top bit. -/
theorem and_128_ne_zero (b : UInt8) : b &&& (128 : UInt8) ≠ 0 ↔ 128 ≤ b.toNat := by
  have hlt := b.toNat_lt
  have hand : (b &&& 128).toNat = (b.toNat.testBit 7).toNat * 2 ^ 7 := Nat.and_two_pow b.toNat 7
  have hbit : b.toNat.testBit 7 = decide (128 ≤ b.toNat) := by
    rw [Nat.testBit_eq_decide_div_mod_eq]
    grind
  rw [Ne, ← UInt8.toNat_inj, hand, hbit]
  by_cases h : 128 ≤ b.toNat <;> simp [h]

end QcloudIot.Lib
