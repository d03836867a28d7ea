import QcloudIot.Utils.JsonParser

/-!
# The JSON scanner on memory

The functions of `json_parser.c` once more, character by character: a pointer is an offset, and a
character is read by its offset (`Ram`). A result `none` is a read where there is nothing to be read, or
a loop that has run out of fuel.

* `At`: a string with its terminator stands at an offset;
* `strchrAt_eq`, ..., `nextObjectAt_eq`: on a string each function computes what the one of `JsonParser`
  does, and reads no further than the terminator;
* `jsonParseNameValue` with the members it goes past and the memory it leaves.
-/

namespace QcloudIot.Utils

/-- `JSON_RESULT_OK` and `JSON_RESULT_ERR`. -/
def jsonResultOk : Int := 0
def jsonResultErr : Int := -1

/-- The character at an offset, where there is one. -/
abbrev Ram := Nat → Option UInt8

namespace Ram

variable (ram : Ram)

/-- A character written. -/
def write (i : Nat) (c : UInt8) : Ram := fun j => if j = i then some c else ram j

/-- `strchr`; `some none` is `NULL`. -/
def strchrAt (c : UInt8) : (fuel : Nat) → Nat → Option (Option Nat)
  | 0, _ => none
  | fuel + 1, p =>
    (ram p).bind fun b =>
      if b = c then some (some p) else if b = 0 then some none else strchrAt c fuel (p + 1)

/-- `strlen`. -/
def strlenAt : (fuel : Nat) → Nat → Option Nat
  | 0, _ => none
  | fuel + 1, p =>
    (ram p).bind fun b => if b = 0 then some 0 else (strlenAt fuel (p + 1)).map (· + 1)

/-- Whether `strncmp` finds the characters of a word. -/
def prefixAt : (word : Text) → Nat → Option Bool
  | [], _ => some true
  | c :: word, p => (ram p).bind fun b => if b = c then prefixAt word (p + 1) else some false

/-- `json_get_object`, for an object. -/
def getObjectAt : (fuel : Nat) → Nat → Option (Option Nat)
  | 0, _ => none
  | fuel + 1, p =>
    (ram p).bind fun b =>
      if b = 0 then some none
      else if b = 32 then getObjectAt fuel (p + 1)
      else some (if b = 123 then some p else none)

/-! ## The next value -/

/-- The loop that looks for the first character of a value: its type, `p_cValue` and `p_cPos`. -/
def valueStartAt : (fuel : Nat) → Nat → Option (Option (JsonType × Nat × Nat))
  | 0, _ => none
  | fuel + 1, p =>
    (ram p).bind fun c =>
      if c = 0 then some none
      else if c = 34 then some (some (.string, p + 1, p + 1))
      else if c = 123 then some (some (.object, p, p + 1))
      else if c = 91 then some (some (.array, p, p + 1))
      else if c = 45 ∨ (48 ≤ c ∧ c ≤ 57) then some (some (.number, p, p + 1))
      else if c = 116 ∨ c = 84 ∨ c = 102 ∨ c = 70 then some (some (.boolean, p, p))
      else if c = 110 ∨ c = 78 then some (some (.null, p, p))
      else valueStartAt fuel (p + 1)

/-- Whether a word in small or in capital letters stands at the value. -/
def wordAt (fuel : Nat) (val : Nat) (small capital : Text) : Option Bool :=
  (ram.strlenAt fuel val).bind fun len =>
    (ram val).bind fun c =>
      if (some c = small.head? ∨ some c = capital.head?) ∧ len ≥ small.length then
        (ram.prefixAt small val).bind fun found => if found then some true else ram.prefixAt capital val
      else some false

def trueWord : Text := [116, 114, 117, 101]
def trueCapital : Text := [84, 82, 85, 69]
def falseWord : Text := [102, 97, 108, 115, 101]
def falseCapital : Text := [70, 65, 76, 83, 69]
def nullWord : Text := [110, 117, 108, 108]
def nullCapital : Text := [78, 85, 76, 76]

/-- `JsonMark`, for the types that have two marks. -/
def jsonMark : JsonType → UInt8 × UInt8
  | .string => (34, 34)
  | .object => (123, 125)
  | _ => (91, 93)

/-- The loop over the value, which ends with `iValueLen`. A turn goes by the type. -/
def valueLoop (type : JsonType) (val size : Nat) :
    (fuel : Nat) → (depth len : Nat) → (lastchr : UInt8) → (pos : Nat) → Option Nat
  | 0, _, _, _, _ => none
  | fuel + 1, depth, len, lastchr, pos =>
    (ram pos).bind fun c =>
      if c = 0 then some len
      else
        match type with
        | .boolean =>
          (ram.wordAt size val trueWord trueCapital).bind fun isTrue =>
            if isTrue then some 4
            else
              (ram.wordAt size val falseWord falseCapital).bind fun isFalse =>
                if isFalse then some 5 else valueLoop type val size fuel depth len c (pos + 1)
        | .null =>
          (ram.wordAt size val nullWord nullCapital).bind fun isNull =>
            if isNull then some 4 else valueLoop type val size fuel depth len c (pos + 1)
        | .number =>
          if (c < 48 ∨ 57 < c) ∧ c ≠ 46 then some (pos - val)
          else valueLoop type val size fuel depth len c (pos + 1)
        | _ =>
          if c = (jsonMark type).2 then
            if depth = 0 then
              let len := pos - val + if type = .string then 0 else 1
              if type = .string ∧ lastchr = 92 then
                (ram (pos + 1)).bind fun next => valueLoop type val size fuel depth len next (pos + 1)
              else some len
            else valueLoop type val size fuel (depth - 1) len c (pos + 1)
          else if c = (jsonMark type).1 then valueLoop type val size fuel (depth + 1) len c (pos + 1)
          else valueLoop type val size fuel depth len c (pos + 1)

end Ram

/-- What `json_get_next_object` hands out, and the pointer it returns. -/
structure NextAt where
  key : Nat
  keyLen : Nat
  valType : JsonType
  val : Nat
  valLen : Nat
  next : Nat
  deriving DecidableEq, Repr

namespace Ram

variable (ram : Ram)

/-- `json_get_next_object`, for an object; `some none` where it returns `NULL`. -/
def nextObjectAt (fuel : Nat) (str : Nat) : Option (Option NextAt) :=
  (ram.strchrAt 34 fuel str).bind fun opening =>
    match opening with
    | none => some none
    | some opening =>
      (ram.strchrAt 34 fuel (opening + 1)).bind fun closing =>
        match closing with
        | none => some none
        | some closing =>
          (ram.strchrAt 58 fuel closing).bind fun colon =>
            match colon with
            | none => some none
            | some colon =>
              (ram.valueStartAt fuel colon).bind fun start =>
                match start with
                | none => some none
                | some (type, val, pos) =>
                  let lastchr := if type = .string then 34 else 32
                  (ram.valueLoop type val fuel fuel 0 0 lastchr pos).map fun len =>
                    some ⟨opening + 1, closing - (opening + 1), type, val, len,
                      if type = .string then val + len + 1 else val + len⟩

/-! ## A string in memory -/

/-- At `p` stands a string, with its terminator. -/
def At : Nat → Text → Prop
  | p, [] => ram p = some 0
  | p, c :: t => ram p = some c ∧ c ≠ 0 ∧ At (p + 1) t

variable {ram}

theorem At.stop {p : Nat} (h : ram.At p []) : ram p = some 0 := h

theorem At.head {p : Nat} {t : Text} (h : ram.At p t) : ram p = some (t.headD 0) := by
  cases t with
  | nil => exact h
  | cons c t => exact h.1

theorem At.suffix {p : Nat} {t u : Text} (h : ram.At p t) (hu : u <:+ t) :
    ram.At (p + (t.length - u.length)) u := by
  induction t generalizing p with
  | nil =>
    rw [List.suffix_nil.mp hu]
    exact h
  | cons c t ih =>
    rcases List.suffix_cons_iff.mp hu with rfl | hu
    · rw [Nat.sub_self]
      exact h
    · have hat := ih h.2.2 hu
      have hle := hu.length_le
      rwa [show p + 1 + (t.length - u.length) = p + ((c :: t).length - u.length) by
        rw [List.length_cons]
        omega] at hat

theorem strchrAt_eq {c : UInt8} (hc : c ≠ 0) {p fuel : Nat} {t : Text} (h : ram.At p t)
    (hfuel : t.length < fuel) :
    ram.strchrAt c fuel p = some ((strchr c t).map fun u => p + (t.length - u.length)) := by
  induction t generalizing p fuel with
  | nil =>
    cases fuel with
    | zero => cases hfuel
    | succ fuel =>
      rw [strchrAt, h.stop, Option.bind_some, if_neg hc.symm, if_pos rfl]
      rfl
  | cons b t ih =>
    cases fuel with
    | zero => cases hfuel
    | succ fuel =>
      rw [strchrAt, h.1, Option.bind_some, strchr]
      by_cases hb : b = c
      · rw [if_pos hb, if_pos hb, Option.map_some, Nat.sub_self]
        rfl
      · rw [if_neg hb, if_neg h.2.1, if_neg hb, ih h.2.2 (Nat.lt_of_succ_lt_succ hfuel)]
        cases hu : strchr c t with
        | none => rfl
        | some u =>
          have hle := (strchr_suffix hu).length_le
          rw [Option.map_some, Option.map_some, List.length_cons]
          congr 2
          omega

theorem strlenAt_eq {p fuel : Nat} {t : Text} (h : ram.At p t) (hfuel : t.length < fuel) :
    ram.strlenAt fuel p = some t.length := by
  induction t generalizing p fuel with
  | nil =>
    cases fuel with
    | zero => cases hfuel
    | succ fuel =>
      rw [strlenAt, h.stop, Option.bind_some, if_pos rfl]
      rfl
  | cons b t ih =>
    cases fuel with
    | zero => cases hfuel
    | succ fuel =>
      rw [strlenAt, h.1, Option.bind_some, if_neg h.2.1, ih h.2.2 (Nat.lt_of_succ_lt_succ hfuel)]
      rfl

theorem prefixAt_eq {p : Nat} {t word : Text} (h : ram.At p t) (hword : 0 ∉ word) :
    ram.prefixAt word p = some (word.isPrefixOf t) := by
  induction word generalizing p t with
  | nil => rfl
  | cons c word ih =>
    rw [List.mem_cons, not_or] at hword
    cases t with
    | nil =>
      rw [prefixAt, h.stop, Option.bind_some, if_neg hword.1]
      rfl
    | cons b t =>
      rw [prefixAt, h.1, Option.bind_some, List.isPrefixOf]
      by_cases hb : b = c
      · rw [if_pos hb, ih h.2.2 hword.2, hb, beq_self_eq_true, Bool.true_and]
      · rw [if_neg hb, beq_false_of_ne (Ne.symm hb), Bool.false_and]

theorem getObjectAt_eq {p fuel : Nat} {t : Text} (h : ram.At p t) (hfuel : t.length < fuel) :
    ram.getObjectAt fuel p = some ((jsonGetObject t).map fun u => p + (t.length - u.length)) := by
  induction t generalizing p fuel with
  | nil =>
    cases fuel with
    | zero => cases hfuel
    | succ fuel =>
      rw [getObjectAt, h.stop, Option.bind_some, if_pos rfl]
      rfl
  | cons b t ih =>
    cases fuel with
    | zero => cases hfuel
    | succ fuel =>
      rw [getObjectAt, h.1, Option.bind_some, if_neg h.2.1, jsonGetObject]
      by_cases hspace : b = 32
      · rw [if_pos hspace, if_pos hspace, ih h.2.2 (Nat.lt_of_succ_lt_succ hfuel)]
        cases hu : jsonGetObject t with
        | none => rfl
        | some u =>
          have hle := (jsonGetObject_suffix hu).length_le
          rw [Option.map_some, Option.map_some, List.length_cons]
          congr 2
          omega
      · rw [if_neg hspace, if_neg hspace]
        by_cases hopen : b = 123
        · rw [if_pos hopen, if_pos hopen, Option.map_some, Nat.sub_self]
          rfl
        · rw [if_neg hopen, if_neg hopen]
          rfl

/-! ## A value in memory -/

/-- `p_cPos` behind the loop that has found a value. -/
def posOf : JsonType → Nat → Nat
  | .string, val => val
  | .object, val => val + 1
  | .array, val => val + 1
  | .number, val => val + 1
  | .boolean, val => val
  | .null, val => val

theorem valueStartAt_eq {p fuel : Nat} {t : Text} (h : ram.At p t) (hfuel : t.length < fuel) :
    ram.valueStartAt fuel p = some ((valueStart t).map fun v =>
      (v.1, p + (t.length - v.2.length), posOf v.1 (p + (t.length - v.2.length)))) := by
  induction t generalizing p fuel with
  | nil =>
    cases fuel with
    | zero => cases hfuel
    | succ fuel =>
      rw [valueStartAt, h.stop, Option.bind_some, if_pos rfl]
      rfl
  | cons c t ih =>
    cases fuel with
    | zero => cases hfuel
    | succ fuel =>
      rw [valueStartAt, h.1, Option.bind_some, if_neg h.2.1, valueStart]
      split
      · rw [Option.map_some, List.length_cons, Nat.add_sub_cancel_left]
        rfl
      iterate 5
        split
        · rw [Option.map_some, Nat.sub_self]
          rfl
      rw [ih h.2.2 (Nat.lt_of_succ_lt_succ hfuel)]
      cases hv : valueStart t with
      | none => rfl
      | some v =>
        have hle := (valueStart_suffix hv).length_le
        rw [Option.map_some, Option.map_some, List.length_cons,
          show p + 1 + (t.length - v.2.length) = p + (t.length + 1 - v.2.length) by omega]

/-- A word that stands at a value passes the checks in front of the comparison. -/
theorem head_of_isPrefixOf {word v : Text} (hne : word ≠ []) (h : word.isPrefixOf v = true) :
    some (v.headD 0) = word.head? ∧ word.length ≤ v.length := by
  obtain ⟨rest, rfl⟩ := List.isPrefixOf_iff_prefix.mp h
  cases word with
  | nil => exact absurd rfl hne
  | cons c word => exact ⟨rfl, (List.prefix_append _ rest).length_le⟩

theorem wordAt_eq {val fuel : Nat} {v small capital : Text} (h : ram.At val v) (hfuel : v.length < fuel)
    (hsmall : small ≠ [] ∧ 0 ∉ small) (hcapital : capital ≠ [] ∧ 0 ∉ capital)
    (hlen : small.length = capital.length) :
    ram.wordAt fuel val small capital = some (small.isPrefixOf v || capital.isPrefixOf v) := by
  rw [wordAt, strlenAt_eq h hfuel, Option.bind_some, h.head, Option.bind_some, prefixAt_eq h hsmall.2,
    prefixAt_eq h hcapital.2, Option.bind_some]
  split
  · cases small.isPrefixOf v <;> rfl
  · rename_i hchecks
    have hnotSmall : small.isPrefixOf v = false := Bool.eq_false_iff.mpr fun hpre =>
      hchecks ⟨.inl (head_of_isPrefixOf hsmall.1 hpre).1, (head_of_isPrefixOf hsmall.1 hpre).2⟩
    have hnotCapital : capital.isPrefixOf v = false := Bool.eq_false_iff.mpr fun hpre =>
      hchecks ⟨.inr (head_of_isPrefixOf hcapital.1 hpre).1,
        hlen ▸ (head_of_isPrefixOf hcapital.1 hpre).2⟩
    rw [hnotSmall, hnotCapital]
    rfl

section

variable {val size pos fuel depth : Nat} {lastchr : UInt8} {t v : Text}

/-- The terminator ends the loop. -/
theorem valueLoop_end {type : JsonType} {len : Nat} (h : ram.At pos []) (hfuel : 0 < fuel) :
    ram.valueLoop type val size fuel depth len lastchr pos = some len := by
  cases fuel with
  | zero => cases hfuel
  | succ fuel => rw [valueLoop, h.stop, Option.bind_some, if_pos rfl]

theorem valueLoop_string (hval : val ≤ pos) (h : ram.At pos t) (hfuel : t.length < fuel) (len : Nat) :
    ram.valueLoop .string val size fuel 0 len lastchr pos =
      some (stringLen lastchr (pos - val) len t) := by
  induction t generalizing pos fuel len lastchr with
  | nil => exact valueLoop_end h hfuel
  | cons c t ih =>
    cases fuel with
    | zero => cases hfuel
    | succ fuel =>
      have hnext : pos + 1 - val = pos - val + 1 := by omega
      have hrest : ∀ len lastchr, ram.valueLoop .string val size fuel 0 len lastchr (pos + 1) =
          some (stringLen lastchr (pos - val + 1) len t) := fun len lastchr => by
        rw [ih (Nat.le_succ_of_le hval) h.2.2 (Nat.lt_of_succ_lt_succ hfuel), hnext]
      rw [valueLoop, h.1, Option.bind_some, if_neg h.2.1, stringLen]
      simp only [jsonMark, true_and, if_true, Nat.add_zero]
      by_cases hquote : c = 34
      · rw [if_pos hquote, if_pos hquote]
        by_cases hescaped : lastchr = 92
        · rw [if_pos hescaped, if_pos hescaped, h.2.2.head, Option.bind_some, hrest]
        · rw [if_neg hescaped, if_neg hescaped]
      · simp only [if_neg hquote, hrest]

/-- An object or an array, by its marks. -/
theorem valueLoop_marks {type : JsonType} (htype : type = .object ∨ type = .array) (hval : val ≤ pos)
    (h : ram.At pos t) (hfuel : t.length < fuel) :
    ram.valueLoop type val size fuel depth 0 lastchr pos =
      some (markLen (jsonMark type).1 (jsonMark type).2 (pos - val) depth t) := by
  induction t generalizing pos fuel depth lastchr with
  | nil => exact valueLoop_end h hfuel
  | cons c t ih =>
    cases fuel with
    | zero => cases hfuel
    | succ fuel =>
      have hnext : pos + 1 - val = pos - val + 1 := by omega
      have hrest : ∀ depth lastchr, ram.valueLoop type val size fuel depth 0 lastchr (pos + 1) =
          some (markLen (jsonMark type).1 (jsonMark type).2 (pos - val + 1) depth t) :=
        fun depth lastchr => by
          rw [ih (Nat.le_succ_of_le hval) h.2.2 (Nat.lt_of_succ_lt_succ hfuel), hnext]
      rw [valueLoop, h.1, Option.bind_some, if_neg h.2.1, markLen]
      rcases htype with rfl | rfl
      · simp only [hrest, reduceCtorEq, false_and, if_false]
        split_ifs <;> rfl
      · simp only [hrest, reduceCtorEq, false_and, if_false]
        split_ifs <;> rfl

theorem valueLoop_number (hval : val ≤ pos) (h : ram.At pos t) (hfuel : t.length < fuel) :
    ram.valueLoop .number val size fuel depth 0 lastchr pos = some (numberLen (pos - val) t) := by
  induction t generalizing pos fuel lastchr with
  | nil => exact valueLoop_end h hfuel
  | cons c t ih =>
    cases fuel with
    | zero => cases hfuel
    | succ fuel =>
      have hnext : pos + 1 - val = pos - val + 1 := by omega
      rw [valueLoop, h.1, Option.bind_some, if_neg h.2.1, numberLen]
      simp only
      split
      · rfl
      · rw [ih (Nat.le_succ_of_le hval) h.2.2 (Nat.lt_of_succ_lt_succ hfuel), hnext]

/-- A word is looked for in every turn, where it stands or not. -/
theorem valueLoop_word {type : JsonType} (htype : type = .boolean ∨ type = .null) (hv : ram.At val v)
    (hsize : v.length < size) (h : ram.At pos t) (hfuel : t.length < fuel) :
    ram.valueLoop type val size fuel depth 0 lastchr pos =
      some (if t = [] then 0 else valueLen type v) := by
  induction t generalizing pos fuel lastchr with
  | nil => exact valueLoop_end h hfuel
  | cons c t ih =>
    cases fuel with
    | zero => cases hfuel
    | succ fuel =>
      have hrest : ∀ lastchr, ram.valueLoop type val size fuel depth 0 lastchr (pos + 1) =
          some (if t = [] then 0 else valueLen type v) := fun lastchr =>
        ih h.2.2 (Nat.lt_of_succ_lt_succ hfuel)
      rw [valueLoop, h.1, Option.bind_some, if_neg h.2.1, if_neg (List.cons_ne_nil c t)]
      rcases htype with rfl | rfl
      · have htrue : ram.wordAt size val trueWord trueCapital = _ :=
          wordAt_eq hv hsize (by decide) (by decide) rfl
        have hfalse : ram.wordAt size val falseWord falseCapital = _ :=
          wordAt_eq hv hsize (by decide) (by decide) rfl
        have hlen : valueLen .boolean v = if trueWord.isPrefixOf v ∨ trueCapital.isPrefixOf v then 4
          else if falseWord.isPrefixOf v ∨ falseCapital.isPrefixOf v then 5 else 0 := rfl
        simp only [htrue, hfalse, Option.bind_some, Bool.or_eq_true, hrest]
        rw [hlen]
        split_ifs <;> rfl
      · have hnull : ram.wordAt size val nullWord nullCapital = _ :=
          wordAt_eq hv hsize (by decide) (by decide) rfl
        have hlen : valueLen .null v = if nullWord.isPrefixOf v ∨ nullCapital.isPrefixOf v then 4
          else 0 := rfl
        simp only [hnull, Option.bind_some, Bool.or_eq_true, hrest]
        rw [hlen]
        split_ifs <;> rfl

end

/-- **The value**: its length is the one of `JsonParser`. -/
theorem valueLoop_eq {type : JsonType} {val size : Nat} {v : Text} (hne : type ≠ .string → v ≠ [])
    (hv : ram.At val v) (hsize : v.length < size) :
    ram.valueLoop type val size size 0 0 (if type = .string then 34 else 32) (posOf type val) =
      some (valueLen type v) := by
  have htail : type ≠ .string → ram.At (val + 1) v.tail ∧ v.tail.length < size := fun h => by
    cases v with
    | nil => exact absurd rfl (hne h)
    | cons c v => exact ⟨hv.2.2, Nat.lt_of_succ_lt hsize⟩
  have hone : val + 1 - val = 1 := Nat.add_sub_cancel_left val 1
  cases type with
  | string =>
    rw [if_pos rfl, posOf, valueLoop_string (Nat.le_refl val) hv hsize, Nat.sub_self]
    rfl
  | object =>
    obtain ⟨hat, hlt⟩ := htail (by decide)
    rw [posOf, valueLoop_marks (.inl rfl) (Nat.le_succ val) hat hlt, hone]
    rfl
  | array =>
    obtain ⟨hat, hlt⟩ := htail (by decide)
    rw [posOf, valueLoop_marks (.inr rfl) (Nat.le_succ val) hat hlt, hone]
    rfl
  | number =>
    obtain ⟨hat, hlt⟩ := htail (by decide)
    rw [posOf, valueLoop_number (Nat.le_succ val) hat hlt, hone]
    rfl
  | boolean =>
    rw [posOf, valueLoop_word (.inl rfl) hv hsize hv hsize, if_neg (hne (by decide))]
  | null =>
    rw [posOf, valueLoop_word (.inr rfl) hv hsize hv hsize, if_neg (hne (by decide))]

/-! ## A member in memory -/

/-- The string from the name that is found on. -/
def keyAt (t : Text) : Text := ((strchr 34 t).getD []).tail

/-- What is found in the string at `p`, as offsets. -/
def locate (p : Nat) (t : Text) (o : NextObject) : NextAt where
  key := p + (t.length - (keyAt t).length)
  keyLen := o.key.length
  valType := o.valType
  val := p + (t.length - o.val.length)
  valLen := o.valLen
  next := p + (t.length - o.val.length) + o.skip

/-- **`json_get_next_object` on a string**: what it hands out, at its place; it reads no further than the
terminator. -/
theorem nextObjectAt_eq {p fuel : Nat} {t : Text} (h : ram.At p t) (hfuel : t.length < fuel) :
    ram.nextObjectAt fuel p = some ((jsonGetNextObject t).map (locate p t)) := by
  rw [nextObjectAt, strchrAt_eq (by decide) h hfuel, Option.bind_some, jsonGetNextObject]
  cases hopening : strchr 34 t with
  | none => rfl
  | some opening =>
    obtain ⟨name, rfl⟩ := strchr_head hopening
    have hsuffix := strchr_suffix hopening
    have hat := h.suffix hsuffix
    have hle := hsuffix.length_le
    rw [List.length_cons] at hle
    simp only [Option.map_some, Option.bind_some, List.tail_cons]
    rw [strchrAt_eq (by decide) hat.2.2 (by omega), Option.bind_some]
    cases hclosing : strchr 34 name with
    | none => rfl
    | some closing =>
      have hsuffix' := strchr_suffix hclosing
      have hat' := hat.2.2.suffix hsuffix'
      have hle' := hsuffix'.length_le
      simp only [Option.map_some, Option.bind_some]
      rw [strchrAt_eq (by decide) hat' (by omega), Option.bind_some]
      cases hcolon : strchr 58 closing with
      | none => rfl
      | some colon =>
        have hsuffix'' := strchr_suffix hcolon
        have hat'' := hat'.suffix hsuffix''
        have hle'' := hsuffix''.length_le
        simp only [Option.map_some, Option.bind_some]
        rw [valueStartAt_eq hat'' (by omega), Option.bind_some]
        cases hstart : valueStart colon with
        | none => rfl
        | some start =>
          obtain ⟨type, v⟩ := start
          have hsuffix3 := valueStart_suffix hstart
          have hat3 := hat''.suffix hsuffix3
          have hle3 := hsuffix3.length_le
          simp only [Option.map_some]
          rw [valueLoop_eq (valueStart_ne_nil hstart) hat3 (by omega), Option.map_some]
          have hkey : keyAt t = name := by
            rw [keyAt, hopening]
            rfl
          have hval : p + (t.length - (name.length + 1)) + 1 + (name.length - closing.length) +
              (closing.length - colon.length) + (colon.length - v.length) = p + (t.length - v.length) := by
            omega
          have hkeyLen : (name.take (name.length - closing.length)).length =
              p + (t.length - (name.length + 1)) + 1 + (name.length - closing.length) -
                (p + (t.length - (name.length + 1)) + 1) := by
            rw [List.length_take]
            omega
          simp only [locate, hkey, NextObject.skip, NextObject.valLen, List.length_cons, hval, hkeyLen]
          congr 3
          · omega
          · split <;> rfl

/-! ## All members -/

/-- The loop of `json_object_for_each_kv` in `json_parse_name_value`; `finish` says of each call of the
callback whether it ends the loop. The members it gets to are listed. -/
def forEachKv (ram : Ram) (finish : Nat → Bool) (fuel : Nat) :
    (turns : Nat) → (calls : Nat) → (ret : Int) → (pos : Nat) → Option (Int × List NextAt)
  | 0, _, _, _ => none
  | turns + 1, calls, ret, pos =>
    (ram pos).bind fun c =>
      if c = 0 then some (ret, [])
      else
        (ram.nextObjectAt fuel pos).bind fun next =>
          match next with
          | none => some (ret, [])
          | some o =>
            if o.keyLen ≠ 0 ∧ o.valLen ≠ 0 then
              if finish calls then some (jsonResultOk, [o])
              else (forEachKv ram finish fuel turns (calls + 1) jsonResultOk o.next).map fun r =>
                (r.1, o :: r.2)
            else (forEachKv ram finish fuel turns calls ret o.next).map fun r => (r.1, o :: r.2)

/-- The loop from the head of the string on. -/
def forEachFrom (ram : Ram) (finish : Nat → Bool) (fuel : Nat) : Option (Int × List NextAt) :=
  (ram.getObjectAt fuel 0).bind fun pos =>
    match pos with
    | none => some (jsonResultErr, [])
    | some pos => forEachKv ram finish fuel fuel 0 jsonResultErr pos

end Ram

/-- `json_parse_name_value`: what it returns, the members it gets to, and the memory it leaves. A callback
is its answers; `none` is `NULL`. -/
def jsonParseNameValue (ram : Ram) (fuel : Nat) (iStrLen : Nat) (cb : Option (Nat → Bool)) :
    Option (Int × List NextAt × Ram) :=
  match cb with
  | none => some (jsonResultErr, [], ram)
  | some finish =>
    if iStrLen = 0 then some (jsonResultErr, [], ram)
    else
      (ram.strlenAt fuel 0).bind fun len =>
        -- the macro saves the last character and puts the end of the string there
        ((if iStrLen ≠ len then (ram iStrLen).map fun c => (c, ram.write iStrLen 0)
          else some (0, ram)) : Option (UInt8 × Ram)).bind fun backup =>
          (backup.2.forEachFrom finish fuel).bind fun r =>
            (backup.2.strlenAt fuel 0).map fun len =>
              (r.1, r.2, if iStrLen ≠ len then backup.2.write iStrLen backup.1 else backup.2)

end QcloudIot.Utils
