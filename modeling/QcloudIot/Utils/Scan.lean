import QcloudIot.Lib.Json
import QcloudIot.Utils.JsonParser

/-!
# Numbers read from strings

`atoi` and the `%i` and `%u` of `sscanf`, as the C library has them: white space, a sign, then as many
digits as there are. A number too large for its type, undefined in C, is handed out as it is.

* `scanInt_mantissa`, `scanUnsigned_mantissa`: an integer of a JSON text is read as what it is.
-/

namespace QcloudIot.Utils

open Lib

/-- `isspace`. -/
def isSpace (c : UInt8) : Bool := c = 32 || (9 ≤ c && c ≤ 13)

/-- The value of a digit. -/
def digitOf (base : Nat) (c : UInt8) : Option Nat :=
  (if 48 ≤ c ∧ c ≤ 57 then some (c.toNat - 48)
  else if 65 ≤ c ∧ c ≤ 70 then some (c.toNat - 55)
  else if 97 ≤ c ∧ c ≤ 102 then some (c.toNat - 87)
  else none).filter (· < base)

/-- The digits at the start of a string, behind those that make `n`. -/
def digitsValue (base n : Nat) : Text → Nat
  | [] => n
  | c :: s =>
    match digitOf base c with
    | none => n
    | some d => digitsValue base (n * base + d) s

/-- A sign, and what is behind it. -/
def signOf : Text → Bool × Text
  | [] => (false, [])
  | c :: s => if c = 45 then (true, s) else if c = 43 then (false, s) else (false, c :: s)

/-- The value with its sign. -/
def signed (negative : Bool) (n : Nat) : Int := if negative then -(n : Int) else n

/-- `atoi`. -/
def atoi (s : Text) : Int :=
  let (negative, s) := signOf (s.dropWhile isSpace)
  signed negative (digitsValue 10 0 s)

/-- The digits of `%i`: hexadecimal behind `0x`, octal behind `0`, else decimal; `none` where there is
none. -/
def scanDigits : Text → Option Nat
  | [] => none
  | [c] => digitOf 10 c
  | c :: x :: s =>
    if c = 48 ∧ (x = 120 ∨ x = 88) then
      (s.head?.bind (digitOf 16)).map fun _ => digitsValue 16 0 s
    else if c = 48 then some (digitsValue 8 0 (x :: s))
    else (digitOf 10 c).map fun d => digitsValue 10 d (x :: s)

/-- `sscanf` with `%i`; `none` where nothing is read. -/
def scanInt (s : Text) : Option Int :=
  let (negative, s) := signOf (s.dropWhile isSpace)
  (scanDigits s).map (signed negative)

/-- `sscanf` with `%u`; `none` where nothing is read. -/
def scanUnsigned (s : Text) : Option Int :=
  let (negative, s) := signOf (s.dropWhile isSpace)
  (s.head?.bind (digitOf 10)).map fun _ => signed negative (digitsValue 10 0 s)

/-! ## Where a number ends -/

theorem digitsValue_stop {base : Nat} {c : UInt8} (hc : digitOf base c = none) (s : Text) :
    ∀ (n : Nat) (x : Text), digitsValue base n (x ++ c :: s) = digitsValue base n x := by
  intro n x
  induction x generalizing n with
  | nil => simp only [List.nil_append, digitsValue, hc]
  | cons d x ih =>
    rw [List.cons_append, digitsValue, digitsValue]
    split
    · rfl
    · exact ih _

/-- A NUL ends a number. -/
theorem atoi_nul (x s : Text) : atoi (x ++ 0 :: s) = atoi x := by
  have hspace : (x ++ 0 :: s).dropWhile isSpace = x.dropWhile isSpace ++ 0 :: s := by
    rw [List.dropWhile_append]
    split
    · rename_i hempty
      rw [List.isEmpty_iff.mp hempty]
      rfl
    · rfl
  unfold atoi
  rw [hspace]
  cases x.dropWhile isSpace with
  | nil => rfl
  | cons c y =>
    have hstop := digitsValue_stop (show digitOf 10 0 = none by decide) s 0
    simp only [List.cons_append, signOf]
    split_ifs
    · simp only [hstop]
    · simp only [hstop]
    · simp only [← List.cons_append, hstop]

/-- Digits are read up to something else. -/
theorem atoi_digits {ds : Text} {c : UInt8} (hne : ds ≠ []) (hds : ∀ d ∈ ds, isDigit d = true)
    (hc : digitOf 10 c = none) (s : Text) : atoi (ds ++ c :: s) = digitsValue 10 0 ds := by
  obtain ⟨d, ds, rfl⟩ := List.exists_cons_of_ne_nil hne
  obtain ⟨hlo, hhi⟩ := isDigit_iff.mp (hds d List.mem_cons_self)
  have hspace : ¬ isSpace d = true := by
    unfold isSpace
    rw [Bool.or_eq_true, Bool.and_eq_true, decide_eq_true_iff, decide_eq_true_iff,
      decide_eq_true_iff, UInt8.le_iff_toNat_le, UInt8.le_iff_toNat_le]
    rintro (rfl | h)
    · exact absurd hlo (by decide)
    · have hthirteen : (13 : UInt8).toNat = 13 := rfl
      omega
  have hminus : d ≠ 45 := by
    rintro rfl
    exact absurd hlo (by decide)
  have hplus : d ≠ 43 := by
    rintro rfl
    exact absurd hlo (by decide)
  unfold atoi
  rw [List.cons_append, List.dropWhile_cons_of_neg hspace]
  simp only [signOf, if_neg hminus, if_neg hplus]
  rw [← List.cons_append, digitsValue_stop hc]
  rfl

/-! ## Integers of JSON texts -/

/-- The value of a number that has neither fraction nor exponent. -/
def intValue (n : JsonNumber) : Int := signed n.negative (digitsValue 10 0 n.int)

theorem digitOf_digit {c : UInt8} (h : isDigit c = true) : digitOf 10 c = some (c.toNat - 48) := by
  obtain ⟨hlo, hhi⟩ := isDigit_iff.mp h
  have hdigit : 48 ≤ c ∧ c ≤ 57 := by
    rw [UInt8.le_iff_toNat_le, UInt8.le_iff_toNat_le]
    exact ⟨hlo, hhi⟩
  have hlt : c.toNat - 48 < 10 := by omega
  rw [digitOf, if_pos hdigit, Option.filter_some, if_pos (by simpa using hlt)]

theorem scanDigits_int {ds : Text} (hds : ds ≠ [] ∧ (∀ c ∈ ds, isDigit c = true) ∧
    (ds.head? = some 48 → ds.length = 1)) : scanDigits ds = some (digitsValue 10 0 ds) := by
  obtain ⟨hne, hdigits, hzero⟩ := hds
  cases ds with
  | nil => exact absurd rfl hne
  | cons c s =>
    have hc := digitOf_digit (hdigits c List.mem_cons_self)
    have hvalue : digitsValue 10 0 (c :: s) = digitsValue 10 (c.toNat - 48) s := by
      rw [digitsValue, hc]
      simp only [Nat.zero_mul, Nat.zero_add]
    rw [hvalue]
    cases s with
    | nil => exact hc
    | cons x s =>
      have hfirst : c ≠ 48 := by
        rintro rfl
        exact absurd (hzero rfl) (by rw [List.length_cons, List.length_cons]; omega)
      rw [scanDigits, if_neg fun h => hfirst h.1, if_neg hfirst, hc, Option.map_some]

/-- The sign of an integer, and its digits. -/
theorem signOf_mantissa {n : JsonNumber} (hfrac : n.frac = []) :
    signOf (n.mantissa.dropWhile isSpace) = (n.negative, n.int) := by
  obtain ⟨hne, hall, -⟩ := n.int_digits
  have hfirst : ∀ {c : UInt8}, isDigit c = true → isSpace c = false ∧ c ≠ 45 ∧ c ≠ 43 := by
    intro c hc
    obtain ⟨hlo, hhi⟩ := isDigit_iff.mp hc
    refine ⟨?_, ?_, ?_⟩
    · unfold isSpace
      rw [Bool.or_eq_false_iff, Bool.and_eq_false_iff, decide_eq_false_iff_not, decide_eq_false_iff_not,
        decide_eq_false_iff_not, UInt8.le_iff_toNat_le, UInt8.le_iff_toNat_le]
      refine ⟨?_, .inr ?_⟩
      · rintro rfl
        exact absurd hlo (by decide)
      · have hthirteen : (13 : UInt8).toNat = 13 := rfl
        omega
    · rintro rfl
      exact absurd hlo (by decide)
    · rintro rfl
      exact absurd hlo (by decide)
  have hmantissa : n.mantissa = (if n.negative then [45] else []) ++ n.int := by
    rw [JsonNumber.mantissa, if_pos hfrac, List.append_nil]
  rw [hmantissa]
  cases hneg : n.negative with
  | true =>
    rw [if_pos rfl, List.singleton_append, List.dropWhile_cons_of_neg (by decide), signOf, if_pos rfl]
  | false =>
    cases hint : n.int with
    | nil => exact absurd hint hne
    | cons c s =>
      obtain ⟨hspace, hminus, hplus⟩ := hfirst (hall c (hint ▸ List.mem_cons_self))
      rw [if_neg (by decide), List.nil_append, List.dropWhile_cons_of_neg (by rw [hspace]; decide), signOf,
        if_neg hminus, if_neg hplus]

/-- **An integer is read as what it is.** -/
theorem scanInt_mantissa {n : JsonNumber} (hfrac : n.frac = []) :
    scanInt n.mantissa = some (intValue n) := by
  rw [scanInt, signOf_mantissa hfrac]
  simp only [scanDigits_int n.int_digits]
  rfl

theorem scanUnsigned_mantissa {n : JsonNumber} (hfrac : n.frac = []) :
    scanUnsigned n.mantissa = some (intValue n) := by
  rw [scanUnsigned, signOf_mantissa hfrac]
  obtain ⟨hne, hall, -⟩ := n.int_digits
  obtain ⟨c, s, hint⟩ := List.exists_cons_of_ne_nil hne
  have hdigit := digitOf_digit (hall c (hint ▸ List.mem_cons_self))
  simp only [hint, List.head?_cons, Option.bind_some, hdigit, Option.map_some, intValue]

end QcloudIot.Utils
