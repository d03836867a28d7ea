import QcloudIot.Lib.Memory
import QcloudIot.Utils.JsonMemory

/-!
# The buffer behind the parser

`json_parse_name_value` (`json_parser.c`) ends the string at `iStrLen` and puts the character back. Both
are done if the length is not that of the string, which is asked for each time.

* `strlenAt_iff`: what `strlen` finds in a buffer;
* **`restored_iff`**: the buffer is left as it was iff the string has not been cut: the length is then
  what `strlen` finds behind the loop, and nothing is put back.
-/

namespace QcloudIot.Utils

open Lib

/-- All characters of a buffer can be read. -/
def ofMemory (m : Memory UInt8) : Ram := fun i => some (m i)

/-- The first zero character of the buffer is the one at `n`. -/
def Terminated (m : Memory UInt8) (n : Nat) : Prop := m n = 0 ∧ ∀ i < n, m i ≠ 0

instance (m : Memory UInt8) (n : Nat) : Decidable (Terminated m n) :=
  inferInstanceAs (Decidable (m n = 0 ∧ ∀ i < n, m i ≠ 0))

namespace Ram

variable {m : Memory UInt8} {n len : Nat}

/-- The length that `strlen` finds. -/
theorem strlenAt_found {fuel p : Nat} (h : (ofMemory m).strlenAt fuel p = some len) :
    m (p + len) = 0 ∧ ∀ i < len, m (p + i) ≠ 0 := by
  induction fuel generalizing p len with
  | zero => cases h
  | succ fuel ih =>
    rw [strlenAt, ofMemory, Option.bind_some] at h
    split at h
    · rename_i hzero
      cases h
      exact ⟨hzero, fun i hi => absurd hi (Nat.not_lt_zero i)⟩
    · rename_i hne
      obtain ⟨len, hlen, rfl⟩ := Option.map_eq_some_iff.mp h
      obtain ⟨hstop, hbefore⟩ := ih hlen
      refine ⟨by rw [← hstop]; congr 1; omega, fun i hi => ?_⟩
      cases i with
      | zero => exact hne
      | succ i =>
        have h := hbefore i (Nat.lt_of_succ_lt_succ hi)
        rwa [show p + 1 + i = p + (i + 1) by omega] at h

/-- There is one length of a string. -/
theorem terminated_unique (h : Terminated m n) (h' : Terminated m len) : n = len := by
  rcases Nat.lt_trichotomy n len with hlt | heq | hgt
  · exact absurd h.1 (h'.2 n hlt)
  · exact heq
  · exact absurd h'.1 (h.2 len hgt)

theorem terminated_of_strlenAt {fuel : Nat} (h : (ofMemory m).strlenAt fuel 0 = some len) :
    Terminated m len := by
  obtain ⟨hstop, hbefore⟩ := strlenAt_found h
  rw [Nat.zero_add] at hstop
  refine ⟨hstop, fun i hi => ?_⟩
  have h := hbefore i hi
  rwa [Nat.zero_add] at h

end Ram

/-! ## The last character -/

variable {m : Memory UInt8} {n iStrLen : Nat}

/-- The buffer with its string ended at a length. -/
def cut (m : Memory UInt8) (i : Nat) : Memory UInt8 := fun j => if j = i then 0 else m j

theorem write_ofMemory (m : Memory UInt8) (i : Nat) : (ofMemory m).write i 0 = ofMemory (cut m i) := by
  funext j
  simp only [Ram.write, ofMemory, cut]
  split <;> rfl

/-- A string cut in front of its end ends there. -/
theorem terminated_cut_of_lt (h : Terminated m n) (hlt : iStrLen < n) : Terminated (cut m iStrLen) iStrLen := by
  refine ⟨if_pos rfl, fun i hi => ?_⟩
  rw [cut, if_neg (Nat.ne_of_lt hi)]
  exact h.2 i (Nat.lt_trans hi hlt)

/-- One that ends in front of the length is not cut. -/
theorem terminated_cut_of_gt (h : Terminated m n) (hgt : n < iStrLen) : Terminated (cut m iStrLen) n := by
  refine ⟨?_, fun i hi => ?_⟩
  · rw [cut, if_neg (Nat.ne_of_lt hgt)]
    exact h.1
  · rw [cut, if_neg (Nat.ne_of_lt (Nat.lt_trans hi hgt))]
    exact h.2 i hi

/-- **The memory that is left**, if there is a callback and a length. -/
theorem parse_memory (hstr : Terminated m n) (hlen : iStrLen ≠ 0) {finish : Nat → Bool} {fuel : Nat}
    {ret : Int} {members : List NextAt} {ram : Ram}
    (h : jsonParseNameValue (ofMemory m) fuel iStrLen (some finish) = some (ret, members, ram)) :
    ram = if iStrLen < n then ofMemory (cut m iStrLen) else ofMemory m := by
  rw [jsonParseNameValue, if_neg hlen] at h
  obtain ⟨len, hstrlen, h⟩ := Option.bind_eq_some_iff.mp h
  cases Ram.terminated_unique hstr (Ram.terminated_of_strlenAt hstrlen)
  obtain ⟨⟨c, backup⟩, hbackup, h⟩ := Option.bind_eq_some_iff.mp h
  obtain ⟨r, -, h⟩ := Option.bind_eq_some_iff.mp h
  obtain ⟨len', hstrlen', h⟩ := Option.map_eq_some_iff.mp h
  simp only at hstrlen' h
  by_cases heq : iStrLen = n
  · rw [if_neg (not_not.mpr heq)] at hbackup
    cases hbackup
    cases Ram.terminated_unique hstr (Ram.terminated_of_strlenAt hstrlen')
    rw [if_neg (not_not.mpr heq)] at h
    cases h
    rw [if_neg (by omega)]
  · have hread : ofMemory m iStrLen = some (m iStrLen) := rfl
    rw [if_pos heq, hread, Option.map_some] at hbackup
    cases hbackup
    rw [write_ofMemory] at hstrlen' h
    have hend := Ram.terminated_of_strlenAt hstrlen'
    by_cases hlt : iStrLen < n
    · cases Ram.terminated_unique (terminated_cut_of_lt hstr hlt) hend
      rw [if_neg (not_not.mpr rfl)] at h
      cases h
      rw [if_pos hlt]
    · cases Ram.terminated_unique (terminated_cut_of_gt hstr (by omega)) hend
      rw [if_pos heq] at h
      cases h
      rw [if_neg hlt]
      funext j
      simp only [Ram.write, ofMemory, cut]
      split
      · rename_i hj
        rw [hj]
      · rfl

/-- **The buffer is left as it was** iff there is no callback, or no length, or the string does not go on
behind the length. -/
theorem restored_iff (hstr : Terminated m n) {cb : Option (Nat → Bool)} {fuel : Nat} {ret : Int}
    {members : List NextAt} {ram : Ram}
    (h : jsonParseNameValue (ofMemory m) fuel iStrLen cb = some (ret, members, ram)) :
    (∀ i, ram i = some (m i)) ↔ cb = none ∨ iStrLen = 0 ∨ n ≤ iStrLen := by
  cases cb with
  | none =>
    cases h
    exact ⟨fun _ => .inl rfl, fun _ _ => rfl⟩
  | some finish =>
    by_cases hlen : iStrLen = 0
    · rw [jsonParseNameValue, if_pos hlen] at h
      cases h
      exact ⟨fun _ => .inr (.inl hlen), fun _ _ => rfl⟩
    · rw [parse_memory hstr hlen h]
      by_cases hlt : iStrLen < n
      · rw [if_pos hlt]
        constructor
        · intro hall
          have hcut : cut m iStrLen iStrLen = m iStrLen := Option.some.inj (hall iStrLen)
          rw [cut, if_pos rfl] at hcut
          exact absurd hcut.symm (hstr.2 iStrLen hlt)
        · rintro (hcb | hzero | hle)
          · cases hcb
          · exact absurd hzero hlen
          · omega
      · rw [if_neg hlt]
        exact ⟨fun _ => .inr (.inr (by omega)), fun _ _ => rfl⟩

/-! ## A document and what stands behind it -/

/-- A buffer with a string and zeros. -/
def bufferOf (s : Text) : Memory UInt8 := fun i => s.getD i 0

/-- The document `{"a":1}` and a character behind it. -/
def documentBehind : Text := [123, 34, 97, 34, 58, 49, 125, 120]

theorem terminated_documentBehind : Terminated (bufferOf documentBehind) 8 := by decide

/-- A callback that looks at all members, and the length of the whole string. -/
theorem document_restored : ∃ ret members ram,
    jsonParseNameValue (ofMemory (bufferOf documentBehind)) 9 8 (some fun _ => false) =
      some (ret, members, ram) ∧ ∀ i, ram i = some (bufferOf documentBehind i) := by
  obtain ⟨⟨ret, members, ram⟩, h⟩ := Option.isSome_iff_exists.mp (by decide :
    (jsonParseNameValue (ofMemory (bufferOf documentBehind)) 9 8 (some fun _ => false)).isSome = true)
  exact ⟨ret, members, ram, h, (restored_iff terminated_documentBehind h).mpr (.inr (.inr (Nat.le_refl 8)))⟩

/-- The length of the document cuts off what stands behind it. -/
theorem document_cut : ∃ ret members ram,
    jsonParseNameValue (ofMemory (bufferOf documentBehind)) 9 7 (some fun _ => false) =
      some (ret, members, ram) ∧ ram 7 ≠ some (bufferOf documentBehind 7) := by
  obtain ⟨⟨ret, members, ram⟩, h⟩ := Option.isSome_iff_exists.mp (by decide :
    (jsonParseNameValue (ofMemory (bufferOf documentBehind)) 9 7 (some fun _ => false)).isSome = true)
  refine ⟨ret, members, ram, h, ?_⟩
  rw [parse_memory terminated_documentBehind (by decide) h]
  decide

end QcloudIot.Utils
