import QcloudIot.Lib.Bytes

/-!
# Base64

The encoding of RFC 4648 with padding: three bytes are one number of 24 bits, written as four digits
of six bits; a last group of one or two bytes is filled up with zero bits, and its missing digits are
the sign `=`.

* `length_base64`: four characters for every three bytes or less;
* `base64_letters`: the text is letters, as many as there are digits, and at most two padding signs;
* `letter_injective`: different digits have different letters.
-/

namespace QcloudIot.Lib

/-- The alphabet, in the order of the digits. -/
def base64Alphabet : List UInt8 :=
  chars "ABCDEFGHIJKLMNOPQRSTUVWXYZabcdefghijklmnopqrstuvwxyz0123456789+/"

/-- The letter of a digit. -/
def letter (digit : Nat) : UInt8 := base64Alphabet.getD digit 0

/-- The padding sign `=`. -/
def padSign : UInt8 := 61

/-- Three bytes as one number. -/
def group (a b c : UInt8) : Nat := a.toNat * 2 ^ 16 + b.toNat * 2 ^ 8 + c.toNat

/-- The letters of the four digits of a group. -/
def digitsOf (v : Nat) : List UInt8 :=
  [letter (v / 2 ^ 18), letter (v / 2 ^ 12 % 64), letter (v / 2 ^ 6 % 64), letter (v % 64)]

/-- The text of a string of bytes. -/
def base64 : List UInt8 → List UInt8
  | [] => []
  | [a] => (digitsOf (group a 0 0)).take 2 ++ [padSign, padSign]
  | [a, b] => (digitsOf (group a b 0)).take 3 ++ [padSign]
  | a :: b :: c :: rest => digitsOf (group a b c) ++ base64 rest

theorem group_lt (a b c : UInt8) : group a b c < 2 ^ 24 := by
  have ha := a.toNat_lt
  have hb := b.toNat_lt
  have hc := c.toNat_lt
  unfold group
  omega

/-- The digits, byte by byte. -/
theorem digitsOf_group (a b c : UInt8) : digitsOf (group a b c) =
    [letter (a.toNat / 4), letter (a.toNat % 4 * 16 + b.toNat / 16),
      letter (b.toNat % 16 * 4 + c.toNat / 64), letter (c.toNat % 64)] := by
  have ha := a.toNat_lt
  have hb := b.toNat_lt
  have hc := c.toNat_lt
  have h1 : group a b c / 2 ^ 18 = a.toNat / 4 := by unfold group; omega
  have h2 : group a b c / 2 ^ 12 % 64 = a.toNat % 4 * 16 + b.toNat / 16 := by unfold group; omega
  have h3 : group a b c / 2 ^ 6 % 64 = b.toNat % 16 * 4 + c.toNat / 64 := by unfold group; omega
  have h4 : group a b c % 64 = c.toNat % 64 := by unfold group; omega
  rw [digitsOf, h1, h2, h3, h4]

theorem length_digitsOf (v : Nat) : (digitsOf v).length = 4 := rfl

theorem length_base64 (s : List UInt8) : (base64 s).length = 4 * ((s.length + 2) / 3) := by
  induction s using base64.induct with
  | case1 => rfl
  | case2 a => simp [base64, digitsOf]
  | case3 a b => simp [base64, digitsOf]
  | case4 a b c rest ih =>
    rw [base64, List.length_append, length_digitsOf, ih]
    simp only [List.length_cons]
    omega

/-- What holds of every digit. -/
theorem forall_digit {p : Nat → Prop} [DecidablePred p] (h : ∀ n ∈ List.range 64, p n) {n : Nat}
    (hn : n < 64) : p n := h n (List.mem_range.mpr hn)

/-- The alphabet by its codes, which are cheaper to compute with. -/
theorem base64Alphabet_eq : base64Alphabet =
    [65, 66, 67, 68, 69, 70, 71, 72, 73, 74, 75, 76, 77, 78, 79, 80, 81, 82, 83, 84, 85, 86, 87, 88, 89, 90,
     97, 98, 99, 100, 101, 102, 103, 104, 105, 106, 107, 108, 109, 110, 111, 112, 113, 114, 115, 116, 117,
     118, 119, 120, 121, 122, 48, 49, 50, 51, 52, 53, 54, 55, 56, 57, 43, 47] :=
  chars_eq rfl

/-- The digit of a letter. -/
def letterDigit (c : UInt8) : Nat :=
  if 97 ≤ c then c.toNat - 71 else if 65 ≤ c then c.toNat - 65 else if 48 ≤ c then c.toNat + 4
  else if c = 43 then 62 else 63

theorem letterDigit_letter {n : Nat} (h : n < 64) : letterDigit (letter n) = n := by
  have hall : ∀ n ∈ List.range 64, letterDigit (letter n) = n := by
    unfold letter
    rw [base64Alphabet_eq]
    decide
  exact forall_digit hall h

theorem letter_injective {n m : Nat} (hn : n < 64) (hm : m < 64) (h : letter n = letter m) : n = m := by
  rw [← letterDigit_letter hn, h, letterDigit_letter hm]

/-- The characters of the alphabet. -/
def IsLetter (c : UInt8) : Prop := ∃ n < 64, c = letter n

theorem isLetter_letter {n : Nat} (h : n < 64) : IsLetter (letter n) := ⟨n, h, rfl⟩

theorem digitsOf_isLetter {v : Nat} (h : v < 2 ^ 24) : ∀ c ∈ digitsOf v, IsLetter c := by
  simp only [digitsOf, List.forall_mem_cons]
  exact ⟨isLetter_letter (by omega), isLetter_letter (by omega), isLetter_letter (by omega),
    isLetter_letter (by omega), List.forall_mem_nil _⟩

/-- **The text** is letters and then padding signs, which fill up the last group. -/
theorem base64_letters (s : List UInt8) : ∃ ls, (∀ c ∈ ls, IsLetter c) ∧
    base64 s = ls ++ List.replicate (3 * ((s.length + 2) / 3) - s.length) padSign := by
  induction s using base64.induct with
  | case1 => exact ⟨[], List.forall_mem_nil _, rfl⟩
  | case2 a =>
    refine ⟨(digitsOf (group a 0 0)).take 2, fun c hc => ?_, by simp [base64]⟩
    exact digitsOf_isLetter (group_lt a 0 0) c (List.mem_of_mem_take hc)
  | case3 a b =>
    refine ⟨(digitsOf (group a b 0)).take 3, fun c hc => ?_, by simp [base64]⟩
    exact digitsOf_isLetter (group_lt a b 0) c (List.mem_of_mem_take hc)
  | case4 a b c rest ih =>
    obtain ⟨ls, hls, heq⟩ := ih
    refine ⟨digitsOf (group a b c) ++ ls, ?_, ?_⟩
    · intro x hx
      obtain hx | hx := List.mem_append.mp hx
      · exact digitsOf_isLetter (group_lt a b c) x hx
      · exact hls x hx
    · have hpads : 3 * (((a :: b :: c :: rest).length + 2) / 3) - (a :: b :: c :: rest).length =
          3 * ((rest.length + 2) / 3) - rest.length := by
        simp only [List.length_cons]
        omega
      rw [base64, heq, hpads, List.append_assoc]

end QcloudIot.Lib
