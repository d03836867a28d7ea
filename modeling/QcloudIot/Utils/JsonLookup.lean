import QcloudIot.Lib.Json
import QcloudIot.Utils.JsonParser

/-!
# What a lookup finds

`LITE_json_value_of` against the syntax tree of a well-formed text. The scanner does not see where an
object ends: behind the members of the object it has reached, it goes on with those that follow in
the objects around it. `flatLookup` is this search, on trees.

* `Skips`, `Scannable`: the values that the scanner comes by are taken whole;
* `Spells`: a text that has these members ahead, in whatever objects;
* `followKey_spells`: on such a text the scanner is `flatLookup`;
* **`valueOf_iff`**: where it is, a lookup finds what the path leads to iff no member of an object
  further out is taken for one of the object itself, and the value is neither an empty string nor a
  number with an exponent.
-/

namespace QcloudIot.Utils

open Lib

/-! ## Values as the scanner takes them -/

/-- The type it gives a value. -/
def typeOf : Json → JsonType
  | .string _ => .string
  | .number _ => .number
  | .literal .true => .boolean
  | .literal .false => .boolean
  | .literal .null => .null
  | .emptyArray _ => .array
  | .array _ => .array
  | .emptyObject _ => .object
  | .object _ => .object

/-- The text it takes for the value: no quotes, and no exponent. -/
def scanned : Json → Text
  | .string s => s.bytes
  | .number n => n.mantissa
  | v => v.text

/-- What of the value's text lies behind that. -/
def unscanned : Json → Text
  | .string _ => [34]
  | .number n => n.exponent
  | _ => []

/-- The text of a value without the quotes of a string. -/
def plainText : Json → Text
  | .string s => s.bytes
  | v => v.text

/-- Between its two brackets, counted also where they stand in strings, a text never closes more than
it has opened. -/
def Enclosed (opening closing : UInt8) (t : Text) : Prop :=
  (∀ n < t.length, 0 < n → (t.take n).count closing < (t.take n).count opening) ∧
    t.count closing = t.count opening

instance (opening closing : UInt8) (t : Text) : Decidable (Enclosed opening closing t) :=
  inferInstanceAs (Decidable (_ ∧ _))

/-- The scanner gets to the end of the value: no string that ends in a backslash, and no brackets in
strings that upset the count. -/
def Skips : Json → Prop
  | .string s => s.bytes.getLast? ≠ some 92
  | .emptyArray space => Enclosed 91 93 (Json.emptyArray space).text
  | .array elements => Enclosed 91 93 (Json.array elements).text
  | .emptyObject space => Enclosed 123 125 (Json.emptyObject space).text
  | .object members => Enclosed 123 125 (Json.object members).text
  | _ => True

instance : DecidablePred Skips
  | .string s => inferInstanceAs (Decidable (s.bytes.getLast? ≠ some 92))
  | .number _ => .isTrue trivial
  | .literal _ => .isTrue trivial
  | .emptyArray space => inferInstanceAs (Decidable (Enclosed 91 93 (Json.emptyArray space).text))
  | .array elements => inferInstanceAs (Decidable (Enclosed 91 93 (Json.array elements).text))
  | .emptyObject space => inferInstanceAs (Decidable (Enclosed 123 125 (Json.emptyObject space).text))
  | .object members => inferInstanceAs (Decidable (Enclosed 123 125 (Json.object members).text))

/-- An empty string: the scanner passes it by. -/
def IsEmpty : Json → Prop
  | .string s => s.bytes = []
  | _ => False

instance : DecidablePred IsEmpty
  | .string s => inferInstanceAs (Decidable (s.bytes = []))
  | .number _ => .isFalse id
  | .literal _ => .isFalse id
  | .emptyArray _ => .isFalse id
  | .array _ => .isFalse id
  | .emptyObject _ => .isFalse id
  | .object _ => .isFalse id

/-! ## Search through the members ahead -/

/-- Members, in order. -/
abbrev Members := List (Text × Json)

/-- The first member of that name that is no empty string, and what comes behind it. -/
def flatFind (name : Text) : Members → Option (Json × Members)
  | [] => none
  | m :: ms => if m.1 = name ∧ ¬ IsEmpty m.2 then some (m.2, ms) else flatFind name ms

/-- The path, followed through the members of each object and then on through those behind it. -/
def flatLookup : List Text → Members → Option Json
  | [], _ => none
  | [name], ms => (flatFind name ms).map (·.1)
  | name :: path, ms =>
    (flatFind name ms).bind fun found =>
      if found.1.isObject then flatLookup path (found.1.members ++ found.2) else none

/-- All values up to the one that is found are taken whole. -/
def Passes (name : Text) : Members → Prop
  | [] => True
  | m :: ms => Skips m.2 ∧ (m.1 = name ∧ ¬ IsEmpty m.2 ∨ Passes name ms)

/-- A string that the scanner would take for an object. -/
def ObjectLike : Json → Prop
  | .string s => ∃ spaces rest, s.bytes = spaces ++ 123 :: rest ∧ ∀ b ∈ spaces, b = 32
  | _ => False

/-- Along the path, all values are taken whole, and none is taken for an object that is a string. -/
def Scannable : List Text → Members → Prop
  | [], _ => True
  | name :: path, ms => Passes name ms ∧ ∀ v behind, flatFind name ms = some (v, behind) →
      path ≠ [] → ¬ ObjectLike v ∧ (v.isObject = true → Scannable path (v.members ++ behind))

/-! ## Single steps -/

/-- White space between a colon and a value is passed by. -/
theorem valueStart_space (t : Text) : ∀ {space : Text},
    (∀ b ∈ space, b = 32 ∨ b = 9 ∨ b = 10 ∨ b = 13) → valueStart (space ++ t) = valueStart t
  | [], _ => rfl
  | b :: space, h => by
    have hrest := valueStart_space t fun c hc => h c (List.mem_cons_of_mem b hc)
    rcases h b List.mem_cons_self with rfl | rfl | rfl | rfl
    · exact hrest
    · exact hrest
    · exact hrest
    · exact hrest

theorem quote_notMem_space (space : JsonSpace) : 34 ∉ space.bytes := by
  intro h
  rcases space.blank 34 h with h | h | h | h <;> exact absurd h (by decide)

theorem colon_notMem_space (space : JsonSpace) : 58 ∉ space.bytes := by
  intro h
  rcases space.blank 58 h with h | h | h | h <;> exact absurd h (by decide)

/-- The next member: its name, and where its value starts. -/
theorem nextObject_eq {gap : Text} {between behind : JsonSpace} {name : Text} (t : Text)
    (hgap : 34 ∉ gap) (hname : 34 ∉ name) :
    jsonGetNextObject (gap ++ 34 :: name ++ 34 :: between.bytes ++ 58 :: behind.bytes ++ t) =
      (valueStart t).map fun value => ⟨name, value.1, value.2⟩ := by
  have hcolon : 58 ∉ 34 :: between.bytes := by
    rw [List.mem_cons, not_or]
    exact ⟨by decide, colon_notMem_space between⟩
  have hvalue : valueStart (58 :: (behind.bytes ++ t)) = valueStart t := by
    rw [← valueStart_space t behind.blank]
    rfl
  unfold jsonGetNextObject
  simp only [List.append_assoc, List.cons_append]
  rw [strchr_append _ hgap, Option.bind_some, List.tail_cons, strchr_append _ hname,
    Option.bind_some]
  rw [show 34 :: (between.bytes ++ 58 :: (behind.bytes ++ t)) =
      (34 :: between.bytes) ++ 58 :: (behind.bytes ++ t) from rfl, strchr_append _ hcolon,
    Option.bind_some]
  rw [hvalue]
  congr 1
  funext value
  congr 1
  rw [List.length_append, Nat.add_sub_cancel, List.take_left]

theorem nextObject_eq_none {gap : Text} (hgap : 34 ∉ gap) : jsonGetNextObject gap = none := by
  unfold jsonGetNextObject
  rw [strchr_eq_none hgap]
  rfl

/-! ## Values -/

/-- The first byte of a number. -/
theorem number_head (n : JsonNumber) : ∃ c t, n.mantissa = c :: t ∧ (c = 45 ∨ isDigit c = true) := by
  obtain ⟨hne, hdigits, -⟩ := n.int_digits
  unfold JsonNumber.mantissa
  cases n.negative
  · cases hint : n.int with
    | nil => exact absurd hint hne
    | cons c t => exact ⟨c, _, rfl, .inr (hdigits c (hint ▸ List.mem_cons_self))⟩
  · exact ⟨45, _, rfl, .inl rfl⟩

theorem valueStart_number {c : UInt8} (hc : c = 45 ∨ isDigit c = true) (t : Text) :
    valueStart (c :: t) = some (.number, c :: t) := by
  have hrange : c.toNat = 45 ∨ 48 ≤ c.toNat ∧ c.toNat ≤ 57 := by
    rcases hc with rfl | hc
    · exact .inl rfl
    · exact .inr (isDigit_iff.mp hc)
  have hne : ∀ d : UInt8, 57 < d.toNat ∨ d.toNat < 45 → c ≠ d := by
    rintro d hd rfl
    omega
  have hnum : c = 45 ∨ 48 ≤ c ∧ c ≤ 57 := by
    rw [UInt8.le_iff_toNat_le, UInt8.le_iff_toNat_le, ← UInt8.toNat_inj]
    exact hrange
  unfold valueStart
  rw [if_neg (hne 34 (by decide)), if_neg (hne 123 (by decide)), if_neg (hne 91 (by decide)),
    if_pos hnum]

/-- Where the scanner finds a value. -/
theorem valueStart_text (v : Json) (rest : Text) :
    valueStart (v.text ++ rest) = some (typeOf v, scanned v ++ unscanned v ++ rest) := by
  cases v with
  | string s => rfl
  | number n =>
    obtain ⟨c, t, hmantissa, hc⟩ := number_head n
    rw [Json.text, JsonNumber.text, scanned, unscanned, hmantissa]
    exact valueStart_number hc _
  | literal l =>
    cases l <;>
    · rw [scanned, unscanned, List.append_nil]
      · rfl
      all_goals exact nofun
  | emptyArray space =>
    rw [scanned, unscanned, List.append_nil]
    · rfl
    all_goals exact nofun
  | array elements =>
    rw [scanned, unscanned, List.append_nil]
    · rfl
    all_goals exact nofun
  | emptyObject space =>
    rw [scanned, unscanned, List.append_nil]
    · rfl
    all_goals exact nofun
  | object members =>
    rw [scanned, unscanned, List.append_nil]
    · rfl
    all_goals exact nofun

/-- The loop over a string ends at its closing quote. -/
theorem stringLen_eq (rest : Text) : ∀ {bytes : Text} {st : StrState} {lastchr : UInt8} {i len : Nat},
    strRun st bytes = some .plain → (st = .escaped → lastchr = 92) →
    (bytes = [] → lastchr ≠ 92) → bytes.getLast? ≠ some 92 →
    stringLen lastchr i len (bytes ++ 34 :: rest) = i + bytes.length
  | [], st, lastchr, i, len, _, _, hlast, _ => by
    rw [List.nil_append, stringLen, if_pos rfl, if_neg (hlast rfl)]
    rfl
  | c :: bytes, st, lastchr, i, len, hrun, hescaped, _, hend => by
    obtain ⟨st', hstep, hrest⟩ := Option.bind_eq_some_iff.mp hrun
    have hend' : bytes.getLast? ≠ some 92 := by
      cases bytes with
      | nil => exact nofun
      | cons b bytes =>
        rw [List.getLast?_cons_cons] at hend
        exact hend
    have hnil : bytes = [] → c ≠ 92 := by
      rintro rfl rfl
      exact hend rfl
    rw [List.cons_append, stringLen]
    by_cases hquote : c = 34
    · subst hquote
      obtain ⟨hst, hplain⟩ := strStep_quote hstep
      rw [hplain] at hrest
      rw [if_pos rfl, if_pos (hescaped hst), stringLen_eq rest hrest nofun ?_ hend',
        List.length_cons]
      · omega
      · rintro rfl
        exact fun h => absurd (show (34 : UInt8) = 92 from h) (by decide)
    · have hnext : st' = .escaped → c = 92 := by
        rintro rfl
        exact (eq_of_strStep_escaped hstep).2
      rw [if_neg hquote, stringLen_eq rest hrest hnext hnil hend', List.length_cons]
      omega

/-- The count over brackets ends where a text is closed that never closed too much before. -/
theorem markLen_eq {opening closing : UInt8} (hne : opening ≠ closing) (rest : Text) :
    ∀ {t : Text} {i depth : Nat},
      (∀ n < t.length, (t.take n).count closing ≤ (t.take n).count opening + depth) →
      t.count closing = t.count opening + depth + 1 →
      markLen opening closing i depth (t ++ rest) = i + t.length
  | [], i, depth, _, hcount => by
    rw [List.count_nil, List.count_nil] at hcount
    omega
  | c :: t, i, depth, hpre, hcount => by
    have hstep : ∀ n < t.length, ((c :: t).take (n + 1)).count closing ≤
        ((c :: t).take (n + 1)).count opening + depth := fun n hn =>
      hpre (n + 1) (by rw [List.length_cons]; omega)
    simp only [List.take_succ_cons, List.count_cons, beq_iff_eq] at hstep
    rw [List.count_cons, List.count_cons] at hcount
    simp only [beq_iff_eq] at hcount
    rw [List.cons_append, markLen, List.length_cons]
    by_cases hclosing : c = closing
    · have hopening : c ≠ opening := fun h => hne (h.symm.trans hclosing)
      simp only [if_pos hclosing, if_neg hopening] at hstep hcount ⊢
      cases depth with
      | zero =>
        -- Nothing may follow: the text up to here would have closed too much.
        cases t with
        | nil => rfl
        | cons b t =>
          have h := hstep 0 (Nat.succ_pos _)
          rw [List.take_zero, List.count_nil, List.count_nil] at h
          omega
      | succ depth =>
        rw [if_neg (Nat.succ_ne_zero depth), Nat.add_sub_cancel,
          markLen_eq hne rest (fun n hn => by have := hstep n hn; omega) (by omega)]
        omega
    · by_cases hopening : c = opening
      · simp only [if_neg hclosing, if_pos hopening] at hstep hcount ⊢
        rw [markLen_eq hne rest (fun n hn => by have := hstep n hn; omega) (by omega)]
        omega
      · simp only [if_neg hclosing, if_neg hopening] at hstep hcount ⊢
        rw [markLen_eq hne rest (fun n hn => by have := hstep n hn; omega) (by omega)]
        omega

/-- Of an enclosed value, that is its end. -/
theorem markLen_enclosed {opening closing : UInt8} (hne : opening ≠ closing) {t : Text}
    (h : Enclosed opening closing (opening :: t)) (rest : Text) :
    markLen opening closing 1 0 (t ++ rest) = (opening :: t).length := by
  obtain ⟨hpre, hcount⟩ := h
  have hfirst : ∀ u : Text, (opening :: u).count closing = u.count closing := fun u =>
    List.count_cons_of_ne hne
  rw [markLen_eq hne rest, List.length_cons]
  · omega
  · intro n hn
    have hlt := hpre (n + 1) (by rw [List.length_cons]; omega) (Nat.succ_pos n)
    rw [List.take_succ_cons, hfirst, List.count_cons_self] at hlt
    omega
  · rw [hfirst, List.count_cons_self] at hcount
    omega

/-- The loop over a number passes digits and points. -/
theorem numberLen_append (t : Text) : ∀ {digits : Text} {i : Nat},
    (∀ c ∈ digits, isDigit c = true ∨ c = 46) →
    numberLen i (digits ++ t) = numberLen (i + digits.length) t
  | [], i, _ => rfl
  | c :: digits, i, h => by
    have hc : ¬ ((c < 48 ∨ 57 < c) ∧ c ≠ 46) := by
      rintro ⟨hrange, hpoint⟩
      have hdigit := isDigit_iff.mp ((h c List.mem_cons_self).resolve_right hpoint)
      rw [UInt8.lt_iff_toNat_lt, UInt8.lt_iff_toNat_lt] at hrange
      change c.toNat < 48 ∨ 57 < c.toNat at hrange
      omega
    rw [List.cons_append, numberLen, if_neg hc,
      numberLen_append t fun d hd => h d (List.mem_cons_of_mem c hd), List.length_cons]
    congr 1
    omega

/-- What comes behind a value: not a digit, not a point. -/
def Ends (rest : Text) : Prop :=
  ∃ c t, rest = c :: t ∧ isDigit c = false ∧ c ≠ 46

theorem numberLen_ends {rest : Text} (h : Ends rest) (i : Nat) : numberLen i rest = i := by
  obtain ⟨c, t, rfl, hdigit, hpoint⟩ := h
  have hrange : c < 48 ∨ 57 < c := by
    have hn : ¬ (48 ≤ c.toNat ∧ c.toNat ≤ 57) := by
      rw [← isDigit_iff, hdigit]
      decide
    rw [UInt8.lt_iff_toNat_lt, UInt8.lt_iff_toNat_lt]
    change c.toNat < 48 ∨ 57 < c.toNat
    omega
  rw [numberLen, if_pos ⟨hrange, hpoint⟩]

theorem ends_space (space : JsonSpace) {c : UInt8} (hc : isDigit c = false ∧ c ≠ 46) (t : Text) :
    Ends (space.bytes ++ c :: t) := by
  cases hs : space.bytes with
  | nil => exact ⟨c, t, rfl, hc⟩
  | cons b bytes =>
    refine ⟨b, _, rfl, ?_⟩
    rcases space.blank b (hs ▸ List.mem_cons_self) with rfl | rfl | rfl | rfl <;> decide

theorem ends_exponent (n : JsonNumber) {rest : Text} (h : Ends rest) : Ends (n.exponent ++ rest) := by
  rcases n.exponent_form with hnil | ⟨e, sign, digits, hexp, he, -⟩
  · rw [hnil]
    exact h
  · refine ⟨e, _, by rw [hexp]; rfl, ?_⟩
    rcases he with rfl | rfl <;> decide

/-- Behind the first byte of a number without its exponent are digits and points. -/
theorem mantissa_tail (n : JsonNumber) : ∀ c ∈ n.mantissa.tail, isDigit c = true ∨ c = 46 := by
  obtain ⟨hne, hdigits, -⟩ := n.int_digits
  have hfrac : ∀ c ∈ (if n.frac = [] then [] else 46 :: n.frac), isDigit c = true ∨ c = 46 := by
    intro c hc
    split at hc
    · exact absurd hc List.not_mem_nil
    · rw [List.mem_cons] at hc
      exact hc.symm.imp_left (n.frac_digits c)
  unfold JsonNumber.mantissa
  intro c hc
  cases hneg : n.negative
  · cases hint : n.int with
    | nil => exact absurd hint hne
    | cons d int =>
      rw [hneg, hint] at hc
      rw [hint] at hdigits
      change c ∈ int ++ _ at hc
      rcases List.mem_append.mp hc with hc | hc
      · exact .inl (hdigits c (List.mem_cons_of_mem d hc))
      · exact hfrac c hc
  · rw [hneg] at hc
    change c ∈ n.int ++ _ at hc
    rcases List.mem_append.mp hc with hc | hc
    · exact .inl (hdigits c hc)
    · exact hfrac c hc

/-- **The length of a value** that is taken whole. -/
theorem valueLen_eq {v : Json} (h : Skips v) {rest : Text} (hends : Ends rest) :
    valueLen (typeOf v) (scanned v ++ unscanned v ++ rest) = (scanned v).length := by
  cases v with
  | string s =>
    rw [List.append_assoc]
    refine (stringLen_eq rest s.valid nofun (fun _ => by decide) h).trans (Nat.zero_add _)
  | number n =>
    obtain ⟨c, t, hmantissa, -⟩ := number_head n
    have htail := mantissa_tail n
    rw [hmantissa, List.tail_cons] at htail
    rw [List.append_assoc, scanned, unscanned, hmantissa]
    change numberLen 1 (t ++ (n.exponent ++ rest)) = _
    rw [numberLen_append _ htail, numberLen_ends (ends_exponent n hends), List.length_cons,
      Nat.add_comm]
  | literal l => cases l <;> rfl
  | emptyArray space =>
    rw [unscanned, List.append_nil]
    · exact markLen_enclosed (by decide) h rest
    all_goals exact nofun
  | array elements =>
    rw [unscanned, List.append_nil]
    · exact markLen_enclosed (by decide) h rest
    all_goals exact nofun
  | emptyObject space =>
    rw [unscanned, List.append_nil]
    · exact markLen_enclosed (by decide) h rest
    all_goals exact nofun
  | object members =>
    rw [unscanned, List.append_nil]
    · exact markLen_enclosed (by decide) h rest
    all_goals exact nofun

/-- What lies between the value and the text behind it, when the scanner goes on. -/
def leftOver : Json → Text
  | .number n => n.exponent
  | _ => []

/-- What it has passed then: the value, and the quote of a string. -/
theorem exists_passed (v : Json) : ∃ passed : Text,
    scanned v ++ unscanned v = passed ++ leftOver v ∧
      passed.length = if typeOf v = .string then (scanned v).length + 1 else (scanned v).length := by
  cases v with
  | string s => exact ⟨s.bytes ++ [34], (List.append_nil _).symm, List.length_append⟩
  | literal l => cases l <;> exact ⟨_, rfl, rfl⟩
  | number n => exact ⟨n.mantissa, rfl, rfl⟩
  | emptyArray space => exact ⟨_, rfl, rfl⟩
  | array elements => exact ⟨_, rfl, rfl⟩
  | emptyObject space => exact ⟨_, rfl, rfl⟩
  | object members => exact ⟨_, rfl, rfl⟩

/-- Where it goes on behind a value that is taken whole. -/
theorem next_eq {v : Json} (h : Skips v) {rest : Text} (hends : Ends rest) (name : Text) :
    (NextObject.mk name (typeOf v) (scanned v ++ unscanned v ++ rest)).next =
      some (leftOver v ++ rest) := by
  obtain ⟨passed, htext, hlength⟩ := exists_passed v
  have hskip : (NextObject.mk name (typeOf v) (scanned v ++ unscanned v ++ rest)).skip =
      passed.length := by
    unfold NextObject.skip NextObject.valLen
    simp only [valueLen_eq h hends, hlength]
  unfold NextObject.next
  rw [hskip]
  simp only [htext, List.append_assoc, List.drop_left]
  rw [if_pos]
  rw [List.length_append]
  omega

theorem quote_notMem_leftOver (v : Json) : 34 ∉ leftOver v := by
  cases v with
  | number n =>
    rw [leftOver]
    rcases n.exponent_form with hnil | ⟨e, sign, digits, hexp, he, hsign, -, hdigits⟩
    · rw [hnil]
      exact List.not_mem_nil
    · rw [hexp, List.mem_append, List.mem_cons]
      rintro ((h | h) | h)
      · rcases he with he | he <;> exact absurd (h.trans he) (by decide)
      · rcases hsign with rfl | rfl | rfl <;> exact absurd h (by decide)
      · exact absurd (hdigits 34 h) (by decide)
  | _ => exact List.not_mem_nil

/-- Empty is what has no length for the scanner. -/
theorem length_scanned_eq_zero {v : Json} : (scanned v).length = 0 ↔ IsEmpty v := by
  cases v with
  | string s => exact List.length_eq_zero_iff
  | number n =>
    obtain ⟨c, t, hmantissa, -⟩ := number_head n
    rw [scanned, hmantissa]
    exact iff_of_false (Nat.succ_ne_zero _) id
  | literal l => cases l <;> exact iff_of_false (Nat.succ_ne_zero _) id
  | _ => exact iff_of_false (Nat.succ_ne_zero _) id

/-! ## Texts with members ahead -/

/-- What can stand between two members for the scanner: anything without a quote. -/
inductive Spells : Text → Members → Prop where
  | done {gap : Text} (quiet : 34 ∉ gap) : Spells gap []
  | member {gap : Text} (quiet : 34 ∉ gap) {name : Text} (plain : 34 ∉ name)
      (between behind : JsonSpace) (v : Json) {rest : Text} (ends : Ends rest) {ms : Members}
      (ahead : Spells rest ms) :
      Spells (gap ++ 34 :: name ++ 34 :: between.bytes ++ 58 :: behind.bytes ++ (v.text ++ rest))
        ((name, v) :: ms)

theorem Spells.behind {text : Text} {ms : Members} (h : Spells text ms) {gap : Text}
    (hgap : 34 ∉ gap) : Spells (gap ++ text) ms := by
  cases h with
  | done quiet => exact .done fun hm => (List.mem_append.mp hm).elim hgap quiet
  | member quiet plain between behind v ends ahead =>
    have hquiet := fun hm => (List.mem_append.mp hm).elim hgap quiet
    have h := Spells.member hquiet plain between behind v ends ahead
    simp only [List.append_assoc] at h ⊢
    exact h

/-- The members of an object, with whatever comes behind it. -/
theorem spells_members {after : Text} {ms : Members} (hafter : Spells after ms) :
    ∀ {members : JsonMembers}, (∀ m ∈ members.toList, 34 ∉ m.1) →
      Spells (members.text ++ after) (members.toList ++ ms)
  | .last name v space, hplain => by
    have hgap : 34 ∉ space.bytes ++ [125] := by
      rw [List.mem_append, List.mem_singleton, not_or]
      exact ⟨quote_notMem_space space, by decide⟩
    have hrest : Spells (space.bytes ++ 125 :: after) ms := by
      have h := hafter.behind hgap
      rwa [List.append_assoc] at h
    have h := Spells.member (quote_notMem_space name.before)
      (hplain (name.name.bytes, v) (List.mem_singleton.mpr rfl)) name.between name.behind v
      (ends_space space (by decide) after) hrest
    rw [JsonMembers.text, JsonMembers.toList, JsonName.text]
    simp only [List.append_assoc, List.cons_append, List.nil_append] at h ⊢
    exact h
  | .more name v space rest, hplain => by
    have hahead : Spells (rest.text ++ after) (rest.toList ++ ms) :=
      spells_members hafter fun m hm => hplain m (List.mem_cons_of_mem _ hm)
    have hgap : 34 ∉ space.bytes ++ [44] := by
      rw [List.mem_append, List.mem_singleton, not_or]
      exact ⟨quote_notMem_space space, by decide⟩
    have hrest : Spells (space.bytes ++ 44 :: (rest.text ++ after)) (rest.toList ++ ms) := by
      have h := hahead.behind hgap
      rwa [List.append_assoc] at h
    have h := Spells.member (quote_notMem_space name.before)
      (hplain (name.name.bytes, v) List.mem_cons_self) name.between name.behind v
      (ends_space space (by decide) _) hrest
    rw [JsonMembers.text, JsonMembers.toList, JsonName.text]
    simp only [List.append_assoc, List.cons_append] at h ⊢
    exact h

/-! ## Searching -/

/-- **One search**, on a text with these members ahead: it finds the first of that name that is not
an empty string, and stands before what comes behind it. -/
theorem search_spells {name : Text} : ∀ {ms : Members} {text : Text}, (∀ m ∈ ms, m.1 ≠ []) →
    Spells text ms → Passes name ms →
      (flatFind name ms = none → search name text = some none) ∧
      ∀ v behind, flatFind name ms = some (v, behind) → ∃ rest, Ends rest ∧ Spells rest behind ∧
        Skips v ∧
        search name text = some (some ⟨name, typeOf v, scanned v ++ unscanned v ++ rest⟩) := by
  intro ms
  induction ms with
  | nil =>
    rintro text - ⟨quiet⟩ -
    refine ⟨fun _ => ?_, fun v behind h => ?_⟩
    · rw [search_eq, nextObject_eq_none quiet]
    · cases h
  | cons m ms ih =>
    intro text hnames hspells hpass
    cases hspells with
    | @member gap quiet key plain between behind v rest ends ms ahead =>
      obtain ⟨hkey, hnames⟩ := List.forall_mem_cons.mp hnames
      obtain ⟨hskip, hpass⟩ := hpass
      have hobject : jsonGetNextObject (gap ++ 34 :: key ++ 34 :: between.bytes ++ 58 :: behind.bytes ++
          (v.text ++ rest)) = _ := nextObject_eq (v.text ++ rest) quiet plain
      rw [valueStart_text, Option.map_some] at hobject
      have hlen : (NextObject.mk key (typeOf v) (scanned v ++ unscanned v ++ rest)).valLen =
          (scanned v).length := valueLen_eq hskip ends
      rw [search_eq, hobject]
      simp only [hlen, flatFind]
      by_cases hfound : key = name ∧ ¬ IsEmpty v
      · have hcall : key ≠ [] ∧ (scanned v).length ≠ 0 ∧ key = name :=
          ⟨hkey, fun hzero => hfound.2 (length_scanned_eq_zero.mp hzero), hfound.1⟩
        rw [if_pos hfound, if_pos hcall]
        constructor
        · intro h
          cases h
        · intro w after h
          cases h
          exact ⟨rest, ends, ahead, hskip, by rw [hfound.1]⟩
      · have hcall : ¬ (key ≠ [] ∧ (scanned v).length ≠ 0 ∧ key = name) := fun h =>
          hfound ⟨h.2.2, fun hempty => h.2.1 (length_scanned_eq_zero.mpr hempty)⟩
        rw [if_neg hfound, if_neg hcall, next_eq hskip ends, Option.bind_some]
        exact ih hnames (ahead.behind (quote_notMem_leftOver v)) (hpass.resolve_left hfound)

/-! ## Paths -/

theorem jsonGetObject_spaces (t : Text) : ∀ {spaces : Text}, (∀ b ∈ spaces, b = 32) →
    jsonGetObject (spaces ++ t) = jsonGetObject t
  | [], _ => rfl
  | b :: spaces, h => by
    rw [List.cons_append, jsonGetObject, if_pos (h b List.mem_cons_self),
      jsonGetObject_spaces t fun c hc => h c (List.mem_cons_of_mem b hc)]

/-- A string that does not look like an object is none. -/
theorem jsonGetObject_string (rest : Text) {bytes : Text}
    (h : ¬ ∃ spaces t, bytes = spaces ++ 123 :: t ∧ ∀ b ∈ spaces, b = 32) :
    jsonGetObject (bytes ++ 34 :: rest) = none := by
  induction bytes with
  | nil => rfl
  | cons c bytes ih =>
    rw [List.cons_append, jsonGetObject]
    split
    · rename_i hc
      refine ih ?_
      rintro ⟨spaces, t, hbytes, hspaces⟩
      refine h ⟨c :: spaces, t, ?_, ?_⟩
      · rw [hbytes]
        rfl
      · intro b hb
        rcases List.mem_cons.mp hb with rfl | hb
        · exact hc
        · exact hspaces b hb
    split
    · rename_i hc
      exact absurd ⟨[], bytes, by rw [hc]; rfl, fun b hb => absurd hb List.not_mem_nil⟩ h
    · rfl

/-- Behind another value no object is found. -/
theorem jsonGetObject_value {v : Json} (hobject : v.isObject ≠ true) (hlike : ¬ ObjectLike v)
    (rest : Text) : jsonGetObject (scanned v ++ unscanned v ++ rest) = none := by
  cases v with
  | string s =>
    rw [List.append_assoc]
    exact jsonGetObject_string rest hlike
  | number n =>
    obtain ⟨c, t, hmantissa, hc⟩ := number_head n
    have hne : c ≠ 32 ∧ c ≠ 123 := by
      rcases hc with rfl | hc
      · decide
      · constructor <;> rintro rfl <;> exact absurd hc (by decide)
    rw [scanned, hmantissa]
    change jsonGetObject (c :: _) = none
    rw [jsonGetObject, if_neg hne.1, if_neg hne.2]
  | literal l => cases l <;> rfl
  | emptyArray space => rfl
  | array elements => rfl
  | emptyObject space => exact absurd rfl hobject
  | object members => exact absurd rfl hobject

/-- A name as paths have it: not empty, without points, quotes and backslashes. -/
def NameOk (name : Text) : Prop := name ≠ [] ∧ 46 ∉ name ∧ 34 ∉ name ∧ 92 ∉ name

instance : DecidablePred NameOk := fun _ => inferInstanceAs (Decidable (_ ∧ _))

/-- The names of an object: such names, each of them once. -/
def NamesOk (names : List Text) : Prop := names.Nodup ∧ ∀ name ∈ names, NameOk name

instance : DecidablePred NamesOk := fun _ => inferInstanceAs (Decidable (_ ∧ _))

theorem nameOk_of_named {v : Json} (h : v.Named NamesOk) : ∀ m ∈ v.members, NameOk m.1 := by
  cases v with
  | object members =>
    intro m hm
    exact h.1.2 m.1 (List.mem_map_of_mem hm)
  | _ => exact fun m hm => absurd hm List.not_mem_nil

/-- An object, and what comes behind it. -/
theorem spells_object {v : Json} (hobject : v.isObject = true) (hplain : ∀ m ∈ v.members, 34 ∉ m.1)
    {rest : Text} {ms : Members} (hrest : Spells rest ms) :
    Spells (v.text ++ rest) (v.members ++ ms) := by
  cases v with
  | emptyObject space =>
    refine hrest.behind ?_
    rw [Json.text, List.mem_append, List.mem_cons, List.mem_singleton]
    rintro ((h | h) | h)
    · exact absurd h (by decide)
    · exact quote_notMem_space space h
    · exact absurd h (by decide)
  | object members =>
    have hgap : (34 : UInt8) ∉ [123] := by decide
    exact (spells_members hrest hplain).behind hgap
  | _ => exact nomatch hobject

theorem scanned_object {v : Json} (hobject : v.isObject = true) :
    scanned v ++ unscanned v = v.text ∧ ∃ t, v.text = 123 :: t := by
  cases v with
  | emptyObject space => exact ⟨List.append_nil _, _, rfl⟩
  | object members => exact ⟨List.append_nil _, _, rfl⟩
  | _ => exact nomatch hobject

theorem flatFind_mem {name : Text} {v : Json} : ∀ {ms behind : Members},
    flatFind name ms = some (v, behind) → (∃ m ∈ ms, m.2 = v) ∧ ∀ m ∈ behind, m ∈ ms
  | [], _, h => nomatch h
  | m :: ms, behind, h => by
    rw [flatFind] at h
    split at h
    · cases h
      exact ⟨⟨m, List.mem_cons_self, rfl⟩, fun _ hn => List.mem_cons_of_mem m hn⟩
    · obtain ⟨⟨n, hn, hv⟩, hbehind⟩ := flatFind_mem h
      exact ⟨⟨n, List.mem_cons_of_mem m hn, hv⟩, fun k hk => List.mem_cons_of_mem m (hbehind k hk)⟩

theorem followKey_cons (name name' : Text) (path : List Text) (src : Text) :
    followKey (name :: name' :: path) src = (jsonGetValueByName src name).bind fun found =>
      match found with
      | none => some none
      | some o => followKey (name' :: path) o.val := rfl

theorem flatLookup_cons (name name' : Text) (path : List Text) (ms : Members) :
    flatLookup (name :: name' :: path) ms = (flatFind name ms).bind fun found =>
      if found.1.isObject then flatLookup (name' :: path) (found.1.members ++ found.2) else none :=
  rfl

/-- Without a value of the first name there is nothing to follow. -/
theorem followKey_of_none {name : Text} {src : Text} (h : jsonGetValueByName src name = some none) :
    ∀ path : List Text, followKey (name :: path) src = some none
  | [] => by
    rw [followKey, h]
    rfl
  | name' :: path => by
    rw [followKey_cons, h]
    rfl

theorem flatLookup_of_none {name : Text} {ms : Members} (h : flatFind name ms = none) :
    ∀ path : List Text, flatLookup (name :: path) ms = none
  | [] => by
    rw [flatLookup, h]
    rfl
  | name' :: path => by
    rw [flatLookup_cons, h]
    rfl

/-- **The scanner is `flatLookup`** on a text with these members ahead, where it takes what it comes
by whole. -/
theorem followKey_spells : ∀ {path : List Text}, path ≠ [] →
    ∀ {v : Json} {rest : Text} {ms : Members}, v.isObject = true → v.Named NamesOk →
      (∀ m ∈ ms, m.1 ≠ [] ∧ m.2.Named NamesOk) → Spells rest ms → Scannable path (v.members ++ ms) →
      followKey path (v.text ++ rest) = some ((flatLookup path (v.members ++ ms)).map scanned)
  | [], hpath, _, _, _, _, _, _, _, _ => absurd rfl hpath
  | name :: path, _, v, rest, ms, hobject, hv, hms, hrest, hscan => by
    have hspells := spells_object hobject (fun m hm => (nameOk_of_named hv m hm).2.2.1) hrest
    have hvalue : jsonGetValueByName (v.text ++ rest) name = search name (v.text ++ rest) := by
      obtain ⟨-, t, ht⟩ := scanned_object hobject
      rw [ht]
      rfl
    have hall : ∀ m ∈ v.members ++ ms, m.1 ≠ [] ∧ m.2.Named NamesOk := fun m hm =>
      (List.mem_append.mp hm).elim (fun hm => ⟨(nameOk_of_named hv m hm).1, Json.named_of_mem hv hm⟩) (hms m)
    obtain ⟨hnone, hsome⟩ := search_spells (fun m hm => (hall m hm).1) hspells hscan.1
    cases hfind : flatFind name (v.members ++ ms) with
    | none =>
      rw [followKey_of_none (hvalue.trans (hnone hfind)), flatLookup_of_none hfind]
      rfl
    | some found =>
      obtain ⟨w, behind⟩ := found
      obtain ⟨rest', hends, hspells', hskip, hsearch⟩ := hsome w behind hfind
      cases path with
      | nil =>
        have hlen := valueLen_eq hskip hends
        rw [followKey, hvalue, hsearch, flatLookup, hfind]
        simp only [Option.map_some, NextObject.valLen, hlen]
        rw [List.append_assoc, List.take_left]
      | cons name' path =>
        obtain ⟨hlike, hdeeper⟩ := hscan.2 w behind hfind (List.cons_ne_nil _ _)
        obtain ⟨⟨m, hm, rfl⟩, hbehind⟩ := flatFind_mem hfind
        rw [followKey_cons, hvalue, hsearch, flatLookup_cons, hfind, Option.bind_some,
          Option.bind_some]
        simp only
        by_cases hw : m.2.isObject = true
        · rw [if_pos hw, (scanned_object hw).1]
          exact followKey_spells (List.cons_ne_nil _ _) hw (hall m hm).2
            (fun k hk => hall k (hbehind k hk)) hspells' (hdeeper hw)
        · have hnothing : jsonGetValueByName (scanned m.2 ++ unscanned m.2 ++ rest') name' =
              some none := by
            rw [jsonGetValueByName, jsonGetObject_value hw hlike]
          rw [if_neg hw, followKey_of_none hnothing]
          rfl

/-! ## Where both agree -/

theorem flatFind_of_find {name : Text} {v : Json} (behind : Members) (hempty : ¬ IsEmpty v) :
    ∀ {ms : Members}, (ms.find? fun m => m.1 = name).map (·.2) = some v →
      ∃ rest, flatFind name (ms ++ behind) = some (v, rest ++ behind)
  | [], h => nomatch h
  | m :: ms, h => by
    rw [List.find?_cons] at h
    rw [List.cons_append, flatFind]
    by_cases hname : m.1 = name
    · simp only [hname, decide_true] at h
      cases h
      exact ⟨ms, if_pos ⟨hname, hempty⟩⟩
    · simp only [hname, decide_false] at h
      rw [if_neg fun hfound => hname hfound.1]
      exact flatFind_of_find behind hempty h

theorem flatFind_notEmpty {name : Text} {v : Json} {behind : Members} : ∀ {ms : Members},
    flatFind name ms = some (v, behind) → ¬ IsEmpty v
  | [], h => nomatch h
  | m :: ms, h => by
    rw [flatFind] at h
    split at h
    · rename_i hfound
      cases h
      exact hfound.2
    · exact flatFind_notEmpty h

theorem flatLookup_notEmpty {v : Json} : ∀ {path : List Text} {ms : Members},
    flatLookup path ms = some v → ¬ IsEmpty v
  | [], _, h => nomatch h
  | [name], ms, h => by
    obtain ⟨⟨w, behind⟩, hfind, rfl⟩ := Option.map_eq_some_iff.mp h
    exact flatFind_notEmpty hfind
  | name :: name' :: path, ms, h => by
    rw [flatLookup_cons] at h
    obtain ⟨found, -, h⟩ := Option.bind_eq_some_iff.mp h
    split at h
    · exact flatLookup_notEmpty h
    · cases h

/-- Only an object has members that a path can go through. -/
theorem isObject_of_lookup {name : Text} {path : List Text} {v w : Json}
    (h : v.lookup (name :: path) = some w) : v.isObject = true ∧ ¬ IsEmpty v := by
  cases v with
  | object members => exact ⟨rfl, id⟩
  | _ => exact nomatch h

/-- What the path leads to is found, unless it is an empty string. -/
theorem flatLookup_of_lookup {v : Json} (hempty : ¬ IsEmpty v) : ∀ {path : List Text} {doc : Json}
    (behind : Members), path ≠ [] → doc.lookup path = some v →
      flatLookup path (doc.members ++ behind) = some v
  | [], _, _, hpath, _ => absurd rfl hpath
  | [name], doc, behind, _, h => by
    obtain ⟨w, hfind, hw⟩ := Option.bind_eq_some_iff.mp h
    cases hw
    obtain ⟨rest, hflat⟩ := flatFind_of_find behind hempty hfind
    rw [flatLookup, hflat]
    rfl
  | name :: name' :: path, doc, behind, _, h => by
    obtain ⟨w, hfind, hw⟩ := Option.bind_eq_some_iff.mp h
    obtain ⟨hobject, hw'⟩ := isObject_of_lookup hw
    obtain ⟨rest, hflat⟩ := flatFind_of_find behind hw' hfind
    rw [flatLookup_cons, hflat, Option.bind_some, if_pos hobject]
    exact flatLookup_of_lookup hempty _ (List.cons_ne_nil _ _) hw

/-- A number with an exponent. -/
def HasExponent : Json → Prop
  | .number n => n.exponent ≠ []
  | _ => False

theorem scanned_eq_plainText {v : Json} : scanned v = plainText v ↔ ¬ HasExponent v := by
  cases v with
  | number n =>
    change n.mantissa = n.mantissa ++ n.exponent ↔ ¬ n.exponent ≠ []
    rw [not_not]
    exact List.self_eq_append_right
  | literal l => cases l <;> exact iff_of_true rfl id
  | _ => exact iff_of_true rfl id

/-- Only spaces, the one white space that is passed by before an object. -/
def OnlySpaces (before : JsonSpace) : Prop := ∀ b ∈ before.bytes, b = 32

instance : DecidablePred OnlySpaces := fun _ => inferInstanceAs (Decidable (∀ _ ∈ _, _))

/-- What the path leads to can be read; where it leads nowhere, it leads nowhere through the members
that follow either. -/
def Agrees (before : JsonSpace) (path : List Text) (doc : Json) : Prop :=
  match doc.lookup path with
  | some v => OnlySpaces before ∧ ¬ IsEmpty v ∧ ¬ HasExponent v
  | none => OnlySpaces before → flatLookup path doc.members = none

theorem followKey_congr {s t : Text} (h : ∀ name, jsonGetValueByName s name = jsonGetValueByName t name) :
    ∀ path : List Text, followKey path s = followKey path t
  | [] => rfl
  | [name] => by
    rw [followKey, followKey, h]
  | name :: name' :: path => by
    rw [followKey_cons, followKey_cons, h]

/-- Other white space hides the object. -/
theorem jsonGetObject_space (t : Text) : ∀ {bytes : Text},
    (∀ b ∈ bytes, b = 32 ∨ b = 9 ∨ b = 10 ∨ b = 13) → (¬ ∀ b ∈ bytes, b = 32) →
      jsonGetObject (bytes ++ t) = none
  | [], _, h => absurd (fun b hb => absurd hb List.not_mem_nil) h
  | c :: bytes, hblank, h => by
    rw [List.cons_append, jsonGetObject]
    by_cases hc : c = 32
    · rw [if_pos hc]
      refine jsonGetObject_space t (fun b hb => hblank b (List.mem_cons_of_mem c hb)) fun hall => h ?_
      intro b hb
      rcases List.mem_cons.mp hb with rfl | hb
      · exact hc
      · exact hall b hb
    · have hbrace : c ≠ 123 := by
        rintro rfl
        exact absurd (hblank 123 List.mem_cons_self) (by decide)
      rw [if_neg hc, if_neg hbrace]

/-- Any key is looked up part by part. -/
theorem valueOf_parts {doc : Json} (hobject : doc.isObject = true) (hdoc : doc.Named NamesOk)
    {before : JsonSpace} (hspaces : OnlySpaces before) {after : Text} (hquiet : 34 ∉ after) (key : Text)
    (hscan : Scannable (key.splitOn 46) doc.members) :
    liteJsonValueOf key (before.bytes ++ doc.text ++ after) =
      some ((flatLookup (key.splitOn 46) doc.members).map scanned) := by
  have hsame : ∀ name, jsonGetValueByName (before.bytes ++ (doc.text ++ after)) name =
      jsonGetValueByName (doc.text ++ after) name := fun name => by
    rw [jsonGetValueByName, jsonGetValueByName, jsonGetObject_spaces _ hspaces]
  have hms : doc.members ++ [] = doc.members := List.append_nil _
  have h := followKey_spells (List.splitOn_ne_nil 46 key) hobject hdoc
    (fun m hm => absurd hm List.not_mem_nil) (.done hquiet) (hms.symm ▸ hscan)
  rw [liteJsonValueOf, List.append_assoc, followKey_congr hsame, h, hms]

/-- The whole key, on an object with no quotes behind it. -/
theorem valueOf_eq {doc : Json} (hobject : doc.isObject = true) (hdoc : doc.Named NamesOk)
    (before : JsonSpace) {after : Text} (hquiet : 34 ∉ after) {path : List Text} (hpath : path ≠ [])
    (hnames : ∀ name ∈ path, NameOk name)
    (hscan : OnlySpaces before → Scannable path doc.members) :
    (OnlySpaces before → liteJsonValueOf ([46].intercalate path)
      (before.bytes ++ doc.text ++ after) = some ((flatLookup path doc.members).map scanned)) ∧
    (¬ OnlySpaces before → liteJsonValueOf ([46].intercalate path)
      (before.bytes ++ doc.text ++ after) = some none) := by
  have hsplit : ([46].intercalate path).splitOn 46 = path :=
    List.splitOn_intercalate 46 (fun name hname => (hnames name hname).2.1) hpath
  constructor
  · intro hspaces
    have h := valueOf_parts hobject hdoc hspaces hquiet ([46].intercalate path)
      (hsplit.symm ▸ hscan hspaces)
    rwa [hsplit] at h
  · intro hspaces
    rw [liteJsonValueOf, hsplit, List.append_assoc]
    cases path with
    | nil => exact absurd rfl hpath
    | cons name path =>
      refine followKey_of_none ?_ path
      rw [jsonGetValueByName, jsonGetObject_space _ before.blank hspaces]

/-- What a path leads to is found, unless it is an empty string. -/
theorem valueOf_lookup {doc v : Json} (hobject : doc.isObject = true) (hdoc : doc.Named NamesOk)
    {before : JsonSpace} (hspaces : OnlySpaces before) {after : Text} (hquiet : 34 ∉ after)
    {path : List Text} (hpath : path ≠ []) (hnames : ∀ name ∈ path, NameOk name)
    (hscan : Scannable path doc.members) (hlookup : doc.lookup path = some v)
    (hempty : ¬ IsEmpty v) : liteJsonValueOf ([46].intercalate path)
      (before.bytes ++ doc.text ++ after) = some (some (scanned v)) := by
  have hflat := flatLookup_of_lookup hempty [] hpath hlookup
  rw [List.append_nil] at hflat
  rw [(valueOf_eq hobject hdoc before hquiet hpath hnames fun _ => hscan).1 hspaces, hflat,
    Option.map_some]

/-- **A lookup returns the text of what the path leads to**, on documents that the scanner takes as
they are, exactly where it agrees with the path on what comes behind. -/
theorem valueOf_iff {doc : Json} (hobject : doc.isObject = true) (hdoc : doc.Named NamesOk)
    (before after : JsonSpace) {path : List Text} (hpath : path ≠ [])
    (hnames : ∀ name ∈ path, NameOk name)
    (hscan : OnlySpaces before → Scannable path doc.members) :
    liteJsonValueOf ([46].intercalate path) (before.bytes ++ doc.text ++ after.bytes) =
      some ((doc.lookup path).map plainText) ↔ Agrees before path doc := by
  obtain ⟨hplain, hhidden⟩ :=
    valueOf_eq hobject hdoc before (quote_notMem_space after) hpath hnames hscan
  unfold Agrees
  by_cases hspaces : OnlySpaces before
  · rw [hplain hspaces, Option.some_inj]
    cases hlookup : doc.lookup path with
    | none =>
      rw [Option.map_none, Option.map_eq_none_iff]
      exact ⟨fun h _ => h, fun h => h hspaces⟩
    | some v =>
      by_cases hempty : IsEmpty v
      · refine iff_of_false (fun h => ?_) fun h => h.2.1 hempty
        obtain ⟨w, hflat, hw⟩ := Option.map_eq_some_iff.mp h
        refine flatLookup_notEmpty hflat (length_scanned_eq_zero.mp ?_)
        have hv := length_scanned_eq_zero.mpr hempty
        rw [hw]
        cases v with
        | string s => exact hv
        | _ => exact hempty.elim
      · have hflat := flatLookup_of_lookup hempty [] hpath hlookup
        rw [List.append_nil] at hflat
        rw [hflat, Option.map_some, Option.map_some, Option.some_inj, scanned_eq_plainText]
        exact ⟨fun h => ⟨hspaces, hempty, h⟩, fun h => h.2.2⟩
  · rw [hhidden hspaces, Option.some_inj]
    cases doc.lookup path with
    | none => exact iff_of_true rfl fun h => absurd h hspaces
    | some v => exact iff_of_false (fun h => nomatch h) fun h => hspaces h.1

/-! ## One document of each kind -/

/-- No white space. -/
def noSpace : JsonSpace := ⟨[], fun _ h => absurd h List.not_mem_nil⟩

/-- A name of one letter, without white space. -/
def letterName (c : UInt8) (h : strRun .plain [c] = some .plain) : JsonName :=
  ⟨noSpace, ⟨[c], h⟩, noSpace, noSpace⟩

theorem letter_a : strRun .plain [97] = some .plain := rfl

theorem letter_b : strRun .plain [98] = some .plain := rfl

theorem digit_one : ([49] : Text) ≠ [] ∧ (∀ c ∈ ([49] : Text), isDigit c) ∧
    (([49] : Text).head? = some 48 → ([49] : Text).length = 1) := by decide

/-- `{"a":{"b":"x"}}`. -/
def nestedDocument : Json :=
  .object (.last (letterName 97 rfl)
    (.object (.last (letterName 98 rfl) (.string ⟨[120], rfl⟩) noSpace)) noSpace)

theorem valueOf_nested : liteJsonValueOf ([46].intercalate [[97], [98]])
    (noSpace.bytes ++ nestedDocument.text ++ noSpace.bytes) =
      some ((nestedDocument.lookup [[97], [98]]).map plainText) := by
  have hnamed : nestedDocument.Named NamesOk := ⟨by decide, by decide, trivial⟩
  refine (valueOf_iff rfl hnamed noSpace noSpace (List.cons_ne_nil _ _) (by decide) fun _ => ?_).mpr
    ⟨by decide, by decide, id⟩
  refine ⟨⟨by decide, .inl (by decide)⟩, ?_⟩
  rintro _ _ ⟨⟩ -
  refine ⟨id, fun _ => ⟨⟨by decide, .inl (by decide)⟩, ?_⟩⟩
  rintro _ _ ⟨⟩ h
  exact absurd rfl h

/-- `{"a":{},"b":1}`. -/
def strayDocument : Json :=
  .object (.more (letterName 97 rfl) (.emptyObject noSpace) noSpace
    (.last (letterName 98 rfl)
      (.number (.ofDigits false [49] (by decide))) noSpace))

/-- The path `a.b` leads nowhere, and `1` is returned for it. -/
theorem stray_found : strayDocument.isObject = true ∧ strayDocument.Named NamesOk ∧
    (∀ name ∈ [[97], [98]], NameOk name) ∧ strayDocument.lookup [[97], [98]] = none ∧
    liteJsonValueOf ([46].intercalate [[97], [98]])
      (noSpace.bytes ++ strayDocument.text ++ noSpace.bytes) = some (some [49]) :=
  ⟨rfl, ⟨by decide, trivial, trivial⟩, by decide, rfl, by decide⟩

end QcloudIot.Utils
