import Mathlib.Data.List.Basic
import QcloudIot.Lib.Bytes

/-!
# JSON texts

The JSON grammar as data: a `Json` is a syntax tree with its white space, and `Json.text` is the text
it stands for. White space, strings and numbers carry their well-formedness, so a text is well formed
iff it is the text of such a tree. Bytes from 128 on count as characters of a string; which encoding
they are in is left open.

* `strStep`: the characters of a string, one after the other;
* `Json.lookup`: the value a path of names leads to;
* `Json.Named`, `Json.Strings`: what can be asked of all member names, and all strings, of a tree;
* `lexRun`: a text read for its strings only; `Json.lexRun_text`: all well-formed texts pass, so none
  holds a NUL (`Json.zero_notMem_text`).
-/

namespace QcloudIot.Lib

/-! ## White space, strings and numbers -/

/-- White space between tokens. -/
structure JsonSpace where
  bytes : List UInt8
  blank : ∀ b ∈ bytes, b = 32 ∨ b = 9 ∨ b = 10 ∨ b = 13

theorem JsonSpace.blank_nil : ∀ b ∈ ([] : List UInt8), b = 32 ∨ b = 9 ∨ b = 10 ∨ b = 13 :=
  fun _ h => absurd h List.not_mem_nil

/-- Where in a string one is: between two characters, behind a backslash, or before the last `left`
and one more digits of a `\u`. -/
inductive StrState where
  | plain
  | escaped
  | hex (left : Nat)
  deriving DecidableEq, Repr

/-- A hexadecimal digit. -/
def isHexDigit (c : UInt8) : Bool :=
  (48 ≤ c && c ≤ 57) || (65 ≤ c && c ≤ 70) || (97 ≤ c && c ≤ 102)

/-- One byte of a string; `none` where it may not stand. -/
def strStep : StrState → UInt8 → Option StrState
  | .plain, c =>
    if c = 34 then none
    else if c = 92 then some .escaped
    else if c < 32 then none
    else some .plain
  | .escaped, c =>
    if c = 117 then some (.hex 3)
    else if c ∈ [34, 92, 47, 98, 102, 110, 114, 116] then some .plain
    else none
  | .hex left, c =>
    if isHexDigit c then
      match left with
      | 0 => some .plain
      | left + 1 => some (.hex left)
    else none

/-- A quote stands only behind a backslash. -/
theorem strStep_quote {st st' : StrState} (h : strStep st 34 = some st') :
    st = .escaped ∧ st' = .plain := by
  cases st with
  | plain => exact nomatch h
  | escaped => exact ⟨rfl, (Option.some.inj h).symm⟩
  | hex left => exact nomatch h

/-- Only a backslash between two characters escapes the next one. -/
theorem eq_of_strStep_escaped {st : StrState} {c : UInt8} (h : strStep st c = some .escaped) :
    st = .plain ∧ c = 92 := by
  cases st with
  | plain =>
    change (if c = 34 then none else if c = 92 then some StrState.escaped
      else if c < 32 then none else some .plain) = _ at h
    split at h
    · cases h
    split at h
    · exact ⟨rfl, by assumption⟩
    · split at h <;> exact nomatch h
  | escaped =>
    change (if c = 117 then some (StrState.hex 3)
      else if c ∈ [34, 92, 47, 98, 102, 110, 114, 116] then some .plain else none) = _ at h
    split at h
    · exact nomatch h
    · split at h <;> exact nomatch h
  | hex left =>
    cases left with
    | zero =>
      change (if isHexDigit c = true then some StrState.plain else none) = _ at h
      split at h <;> exact nomatch h
    | succ left =>
      change (if isHexDigit c = true then some (StrState.hex left) else none) = _ at h
      split at h <;> exact nomatch h

/-- From one place in a string to another. -/
def strRun : StrState → List UInt8 → Option StrState
  | st, [] => some st
  | st, c :: bytes => (strStep st c).bind (strRun · bytes)

/-- What stands between the quotes of a string. -/
structure JsonString where
  bytes : List UInt8
  valid : strRun .plain bytes = some .plain

/-- Without quotes, backslashes and control characters any text is a string. -/
theorem strRun_plain : ∀ {bytes : List UInt8}, (∀ c ∈ bytes, c ≠ 34 ∧ c ≠ 92) →
    (∀ c ∈ bytes, 32 ≤ c) → strRun .plain bytes = some .plain
  | [], _, _ => rfl
  | c :: bytes, hbytes, hge => by
    obtain ⟨hc, hbytes⟩ := List.forall_mem_cons.mp hbytes
    obtain ⟨hc32, hge⟩ := List.forall_mem_cons.mp hge
    have hstep : strStep .plain c = some .plain := by
      change (if c = 34 then none else if c = 92 then some StrState.escaped
        else if c < 32 then none else some .plain) = _
      rw [if_neg hc.1, if_neg hc.2, if_neg (UInt8.not_lt.mpr hc32)]
    rw [strRun, hstep, Option.bind_some, strRun_plain hbytes hge]

def isDigit (c : UInt8) : Bool := 48 ≤ c && c ≤ 57

/-- A number; an empty `frac` or `exponent` is none. -/
structure JsonNumber where
  negative : Bool
  int : List UInt8
  frac : List UInt8
  exponent : List UInt8
  int_digits : int ≠ [] ∧ (∀ c ∈ int, isDigit c) ∧ (int.head? = some 48 → int.length = 1)
  frac_digits : ∀ c ∈ frac, isDigit c
  exponent_form : exponent = [] ∨ ∃ e sign digits, exponent = e :: sign ++ digits ∧
    (e = 101 ∨ e = 69) ∧ (sign = [] ∨ sign = [43] ∨ sign = [45]) ∧ digits ≠ [] ∧
    ∀ c ∈ digits, isDigit c

/-- A number of digits alone. -/
def JsonNumber.ofDigits (negative : Bool) (digits : List UInt8) (h : digits ≠ [] ∧
    (∀ c ∈ digits, isDigit c) ∧ (digits.head? = some 48 → digits.length = 1)) : JsonNumber :=
  ⟨negative, digits, [], [], h, fun _ hc => absurd hc List.not_mem_nil, .inl rfl⟩

def JsonNumber.zero : JsonNumber := .ofDigits false [48] (by decide)

theorem JsonNumber.zero_integer : zero.frac = [] ∧ zero.exponent = [] := ⟨rfl, rfl⟩

/-- The number without its exponent. -/
def JsonNumber.mantissa (n : JsonNumber) : List UInt8 :=
  (if n.negative then [45] else []) ++ n.int ++ (if n.frac = [] then [] else 46 :: n.frac)

theorem JsonNumber.mantissa_ofDigits (negative : Bool) (digits : List UInt8) (h) :
    (ofDigits negative digits h).mantissa = (if negative then [45] else []) ++ digits :=
  List.append_nil _

def JsonNumber.text (n : JsonNumber) : List UInt8 := n.mantissa ++ n.exponent

/-- The three names of values. -/
inductive JsonLiteral where
  | true | false | null
  deriving DecidableEq, Repr

def JsonLiteral.text : JsonLiteral → List UInt8
  | .true => [116, 114, 117, 101]
  | .false => [102, 97, 108, 115, 101]
  | .null => [110, 117, 108, 108]

/-! ## Values -/

/-- The name of a member, with the white space up to the value. -/
structure JsonName where
  before : JsonSpace
  name : JsonString
  between : JsonSpace
  behind : JsonSpace

mutual

inductive Json where
  | string (s : JsonString)
  | number (n : JsonNumber)
  | literal (l : JsonLiteral)
  | emptyArray (space : JsonSpace)
  | array (elements : JsonElements)
  | emptyObject (space : JsonSpace)
  | object (members : JsonMembers)

inductive JsonElements where
  | last (before : JsonSpace) (v : Json) (after : JsonSpace)
  | more (before : JsonSpace) (v : Json) (after : JsonSpace) (rest : JsonElements)

inductive JsonMembers where
  | last (name : JsonName) (v : Json) (after : JsonSpace)
  | more (name : JsonName) (v : Json) (after : JsonSpace) (rest : JsonMembers)

end

/-- `"name":`, with its white space. -/
def JsonName.text (n : JsonName) : List UInt8 :=
  n.before.bytes ++ 34 :: n.name.bytes ++ 34 :: n.between.bytes ++ 58 :: n.behind.bytes

mutual

/-- The text of a value. -/
def Json.text : Json → List UInt8
  | .string s => 34 :: s.bytes ++ [34]
  | .number n => n.text
  | .literal l => l.text
  | .emptyArray space => 91 :: space.bytes ++ [93]
  | .array elements => 91 :: elements.text
  | .emptyObject space => 123 :: space.bytes ++ [125]
  | .object members => 123 :: members.text

/-- Elements, with the closing bracket. -/
def JsonElements.text : JsonElements → List UInt8
  | .last before v after => before.bytes ++ v.text ++ after.bytes ++ [93]
  | .more before v after rest => before.bytes ++ v.text ++ after.bytes ++ 44 :: rest.text

/-- Members, with the closing brace. -/
def JsonMembers.text : JsonMembers → List UInt8
  | .last name v after => name.text ++ v.text ++ after.bytes ++ [125]
  | .more name v after rest => name.text ++ v.text ++ after.bytes ++ 44 :: rest.text

end

/-! ## Members -/

/-- Names and values in order. -/
def JsonMembers.toList : JsonMembers → List (List UInt8 × Json)
  | .last name v _ => [(name.name.bytes, v)]
  | .more name v _ rest => (name.name.bytes, v) :: rest.toList

/-- The members of an object; other values have none. -/
def Json.members : Json → List (List UInt8 × Json)
  | .object members => members.toList
  | _ => []

def Json.isObject : Json → Bool
  | .emptyObject _ => true
  | .object _ => true
  | _ => false

/-- The member of that name. -/
def Json.find (name : List UInt8) (v : Json) : Option Json :=
  (v.members.find? fun m => m.1 = name).map (·.2)

/-- The value that the path of names leads to. -/
def Json.lookup : List (List UInt8) → Json → Option Json
  | [], v => some v
  | name :: path, v => (v.find name).bind (Json.lookup path)

mutual

/-- The names of every object in the value meet `p`, the list of names of one object taken at
once. -/
def Json.Named (p : List (List UInt8) → Prop) : Json → Prop
  | .array elements => elements.Named p
  | .object members => p (members.toList.map (·.1)) ∧ members.Named p
  | _ => True

def JsonElements.Named (p : List (List UInt8) → Prop) : JsonElements → Prop
  | .last _ v _ => v.Named p
  | .more _ v _ rest => v.Named p ∧ rest.Named p

def JsonMembers.Named (p : List (List UInt8) → Prop) : JsonMembers → Prop
  | .last _ v _ => v.Named p
  | .more _ v _ rest => v.Named p ∧ rest.Named p

end

/-- What holds of the names of a value's objects holds of those of its members'. -/
theorem JsonMembers.named_of_mem {p : List (List UInt8) → Prop} :
    ∀ {members : JsonMembers}, members.Named p → ∀ m ∈ members.toList, m.2.Named p
  | .last _ v _, h, m, hm => by
    rw [JsonMembers.toList, List.mem_singleton] at hm
    rw [hm]
    exact h
  | .more _ v _ rest, h, m, hm => by
    rw [JsonMembers.toList, List.mem_cons] at hm
    rcases hm with rfl | hm
    · exact h.1
    · exact named_of_mem h.2 m hm

theorem Json.named_of_mem {p : List (List UInt8) → Prop} {v : Json} (h : v.Named p)
    {m : List UInt8 × Json} (hm : m ∈ v.members) : m.2.Named p := by
  cases v with
  | object members => exact JsonMembers.named_of_mem h.2 m hm
  | _ => exact absurd hm List.not_mem_nil

/-- What a value hands down to its members holds of what a path leads to. -/
theorem Json.of_lookup {p : Json → Prop} (hdown : ∀ {v : Json}, p v → ∀ m ∈ v.members, p m.2) :
    ∀ {path : List (List UInt8)} {v w : Json}, p v → v.lookup path = some w → p w
  | [], _, _, h, hlookup => by
    cases hlookup
    exact h
  | name :: path, v, w, h, hlookup => by
    obtain ⟨u, hfind, hrest⟩ := Option.bind_eq_some_iff.mp hlookup
    obtain ⟨m, hm, rfl⟩ := Option.map_eq_some_iff.mp hfind
    exact of_lookup hdown (hdown h m (List.mem_of_find?_eq_some hm)) hrest

theorem Json.named_of_lookup {p : List (List UInt8) → Prop} {path : List (List UInt8)} {v w : Json} :
    v.Named p → v.lookup path = some w → w.Named p :=
  Json.of_lookup (p := Json.Named p) fun h _ hm => Json.named_of_mem h hm

mutual

/-- All strings in the value meet `p`, the names of members among them. -/
def Json.Strings (p : List UInt8 → Prop) : Json → Prop
  | .string s => p s.bytes
  | .array elements => elements.Strings p
  | .object members => members.Strings p
  | _ => True

def JsonElements.Strings (p : List UInt8 → Prop) : JsonElements → Prop
  | .last _ v _ => v.Strings p
  | .more _ v _ rest => v.Strings p ∧ rest.Strings p

def JsonMembers.Strings (p : List UInt8 → Prop) : JsonMembers → Prop
  | .last name v _ => p name.name.bytes ∧ v.Strings p
  | .more name v _ rest => (p name.name.bytes ∧ v.Strings p) ∧ rest.Strings p

end

theorem JsonMembers.strings_of_mem {p : List UInt8 → Prop} :
    ∀ {members : JsonMembers}, members.Strings p → ∀ m ∈ members.toList, m.2.Strings p
  | .last name v _, h, m, hm => by
    rw [JsonMembers.toList, List.mem_singleton] at hm
    rw [hm]
    exact h.2
  | .more name v _ rest, h, m, hm => by
    rw [JsonMembers.toList, List.mem_cons] at hm
    rcases hm with rfl | hm
    · exact h.1.2
    · exact strings_of_mem h.2 m hm

theorem Json.strings_of_mem {p : List UInt8 → Prop} {v : Json} (h : v.Strings p)
    {m : List UInt8 × Json} (hm : m ∈ v.members) : m.2.Strings p := by
  cases v with
  | object members => exact JsonMembers.strings_of_mem h m hm
  | _ => exact absurd hm List.not_mem_nil

theorem Json.strings_of_lookup {p : List UInt8 → Prop} {path : List (List UInt8)} {v w : Json} :
    v.Strings p → v.lookup path = some w → w.Strings p :=
  Json.of_lookup (p := Json.Strings p) fun h _ hm => Json.strings_of_mem h hm

/-! ## First bytes -/

theorem isDigit_iff {c : UInt8} : isDigit c = true ↔ 48 ≤ c.toNat ∧ c.toNat ≤ 57 := by
  unfold isDigit
  rw [Bool.and_eq_true, decide_eq_true_iff, decide_eq_true_iff, UInt8.le_iff_toNat_le,
    UInt8.le_iff_toNat_le]
  rfl

/-! ## Inside and outside of strings -/

/-- Where in a text one is. -/
inductive LexState where
  | outside
  | inside (st : StrState)
  deriving DecidableEq, Repr

/-- What can stand outside of strings: white space, punctuation, digits, the signs of numbers and the
letters of `true`, `false`, `null` and of an exponent. -/
def isOutside (c : UInt8) : Bool :=
  isDigit c || c ∈ [32, 9, 10, 13, 123, 125, 91, 93, 58, 44, 43, 45, 46, 69, 101, 97, 102, 108, 110, 114,
    115, 116, 117]

/-- One byte of a text; `none` where it may not stand. -/
def lexStep : LexState → UInt8 → Option LexState
  | .outside, c => if c = 34 then some (.inside .plain) else if isOutside c then some .outside else none
  | .inside st, c => if st = .plain ∧ c = 34 then some .outside else (strStep st c).map .inside

def lexRun : LexState → List UInt8 → Option LexState
  | st, [] => some st
  | st, c :: bytes => (lexStep st c).bind (lexRun · bytes)

theorem lexRun_outside (rest : List UInt8) : ∀ {bytes : List UInt8}, (∀ c ∈ bytes, isOutside c = true) →
    lexRun .outside (bytes ++ rest) = lexRun .outside rest
  | [], _ => rfl
  | c :: bytes, h => by
    have hc := h c List.mem_cons_self
    have hquote : c ≠ 34 := by
      rintro rfl
      exact absurd hc (by decide)
    rw [List.cons_append, lexRun, lexStep, if_neg hquote, if_pos hc, Option.bind_some,
      lexRun_outside rest fun d hd => h d (List.mem_cons_of_mem c hd)]

/-- From one place in a string to another. -/
theorem lexRun_inside (rest : List UInt8) : ∀ {bytes : List UInt8} {st st' : StrState},
    strRun st bytes = some st' → lexRun (.inside st) (bytes ++ rest) = lexRun (.inside st') rest
  | [], st, st', h => by
    cases h
    rfl
  | c :: bytes, st, st', h => by
    obtain ⟨next, hstep, hrun⟩ := Option.bind_eq_some_iff.mp h
    have hquote : ¬ (st = .plain ∧ c = 34) := by
      rintro ⟨rfl, rfl⟩
      exact nomatch hstep
    rw [List.cons_append, lexRun, lexStep, if_neg hquote, hstep, Option.map_some, Option.bind_some,
      lexRun_inside rest hrun]

/-- A string, with its quotes. -/
theorem lexRun_string {bytes : List UInt8} (h : strRun .plain bytes = some .plain)
    (rest : List UInt8) : lexRun .outside (34 :: (bytes ++ 34 :: rest)) = lexRun .outside rest :=
  lexRun_inside (34 :: rest) h

theorem JsonSpace.isOutside_bytes (space : JsonSpace) : ∀ c ∈ space.bytes, isOutside c = true := by
  intro c hc
  rcases space.blank c hc with rfl | rfl | rfl | rfl <;> decide

/-- What a number is written with. -/
def isNumeric (c : UInt8) : Bool := isDigit c || c ∈ [43, 45, 46, 69, 101]

theorem isNumeric_of_isDigit {c : UInt8} (h : isDigit c = true) : isNumeric c = true := by
  unfold isNumeric
  rw [h, Bool.true_or]

theorem isOutside_of_isNumeric {c : UInt8} (h : isNumeric c = true) : isOutside c = true := by
  have hsigns : ∀ c ∈ [43, 45, 46, 69, 101], isOutside c = true := by decide
  rcases Bool.or_eq_true_iff.mp h with hdigit | hsign
  · unfold isOutside
    rw [hdigit, Bool.true_or]
  · exact hsigns c (of_decide_eq_true hsign)

theorem isOutside_of_isDigit {c : UInt8} (h : isDigit c = true) : isOutside c = true :=
  isOutside_of_isNumeric (isNumeric_of_isDigit h)

theorem JsonNumber.isNumeric_mantissa (n : JsonNumber) : ∀ c ∈ n.mantissa, isNumeric c = true := by
  intro c hc
  rcases List.mem_append.mp hc with hc | hc
  · rcases List.mem_append.mp hc with hc | hc
    · split at hc
      · rw [List.mem_singleton.mp hc]
        decide
      · exact absurd hc List.not_mem_nil
    · exact isNumeric_of_isDigit (n.int_digits.2.1 c hc)
  · split at hc
    · exact absurd hc List.not_mem_nil
    · rcases List.mem_cons.mp hc with rfl | hc
      · decide
      · exact isNumeric_of_isDigit (n.frac_digits c hc)

theorem JsonNumber.isNumeric_text (n : JsonNumber) : ∀ c ∈ n.text, isNumeric c = true := by
  intro c hc
  rcases List.mem_append.mp hc with hc | hc
  · exact n.isNumeric_mantissa c hc
  rcases n.exponent_form with hnil | ⟨e, sign, digits, hexp, he, hsign, -, hdigits⟩
  · exact absurd (hnil ▸ hc) List.not_mem_nil
  · rw [hexp] at hc
    rcases List.mem_append.mp hc with hc | hc
    · rcases List.mem_cons.mp hc with rfl | hc
      · rcases he with rfl | rfl <;> decide
      · rcases hsign with rfl | rfl | rfl
        · exact absurd hc List.not_mem_nil
        · rw [List.mem_singleton.mp hc]
          decide
        · rw [List.mem_singleton.mp hc]
          decide
    · exact isNumeric_of_isDigit (hdigits c hc)

theorem JsonNumber.isOutside_mantissa (n : JsonNumber) : ∀ c ∈ n.mantissa, isOutside c = true :=
  fun c hc => isOutside_of_isNumeric (n.isNumeric_mantissa c hc)

theorem JsonNumber.isOutside_text (n : JsonNumber) : ∀ c ∈ n.text, isOutside c = true :=
  fun c hc => isOutside_of_isNumeric (n.isNumeric_text c hc)

theorem JsonLiteral.isOutside_text (l : JsonLiteral) : ∀ c ∈ l.text, isOutside c := by
  cases l <;> decide

theorem JsonName.lexRun_text (n : JsonName) (rest : List UInt8) :
    lexRun .outside (n.text ++ rest) = lexRun .outside rest := by
  have hbehind := lexRun_outside rest n.behind.isOutside_bytes
  have hbetween := lexRun_outside (58 :: (n.behind.bytes ++ rest)) n.between.isOutside_bytes
  have hstring := lexRun_string n.name.valid (n.between.bytes ++ 58 :: (n.behind.bytes ++ rest))
  have hbefore := lexRun_outside (34 :: (n.name.bytes ++ 34 :: (n.between.bytes ++ 58 ::
    (n.behind.bytes ++ rest)))) n.before.isOutside_bytes
  rw [JsonName.text]
  simp only [List.append_assoc, List.cons_append]
  exact hbefore.trans (hstring.trans (hbetween.trans hbehind))

/-- One byte outside of strings. -/
theorem lexRun_cons {c : UInt8} (hc : isOutside c = true) (rest : List UInt8) :
    lexRun .outside (c :: rest) = lexRun .outside rest :=
  lexRun_outside rest (List.forall_mem_singleton.mpr hc)

mutual

/-- **A value leaves one where one was**, outside of strings. -/
theorem Json.lexRun_text : ∀ (v : Json) (rest : List UInt8),
    lexRun .outside (v.text ++ rest) = lexRun .outside rest
  | .string s, rest => by
    rw [Json.text, List.append_assoc]
    exact lexRun_string s.valid rest
  | .number n, rest => lexRun_outside rest n.isOutside_text
  | .literal l, rest => lexRun_outside rest l.isOutside_text
  | .emptyArray space, rest => by
    rw [Json.text, List.cons_append, List.cons_append, lexRun_cons (by decide), List.append_assoc,
      lexRun_outside _ space.isOutside_bytes]
    exact lexRun_cons (by decide) rest
  | .array elements, rest => by
    rw [Json.text, List.cons_append, lexRun_cons (by decide), elements.lexRun_text]
  | .emptyObject space, rest => by
    rw [Json.text, List.cons_append, List.cons_append, lexRun_cons (by decide), List.append_assoc,
      lexRun_outside _ space.isOutside_bytes]
    exact lexRun_cons (by decide) rest
  | .object members, rest => by
    rw [Json.text, List.cons_append, lexRun_cons (by decide), members.lexRun_text]

theorem JsonElements.lexRun_text : ∀ (elements : JsonElements) (rest : List UInt8),
    lexRun .outside (elements.text ++ rest) = lexRun .outside rest
  | .last before v after, rest => by
    rw [JsonElements.text, List.append_assoc, List.append_assoc, List.append_assoc,
      lexRun_outside _ before.isOutside_bytes, v.lexRun_text, lexRun_outside _ after.isOutside_bytes]
    exact lexRun_cons (by decide) rest
  | .more before v after others, rest => by
    rw [JsonElements.text, List.append_assoc, List.append_assoc, List.append_assoc,
      lexRun_outside _ before.isOutside_bytes, v.lexRun_text, lexRun_outside _ after.isOutside_bytes,
      List.cons_append, lexRun_cons (by decide), others.lexRun_text]

theorem JsonMembers.lexRun_text : ∀ (members : JsonMembers) (rest : List UInt8),
    lexRun .outside (members.text ++ rest) = lexRun .outside rest
  | .last name v after, rest => by
    rw [JsonMembers.text, List.append_assoc, List.append_assoc, List.append_assoc, name.lexRun_text,
      v.lexRun_text, lexRun_outside _ after.isOutside_bytes]
    exact lexRun_cons (by decide) rest
  | .more name v after others, rest => by
    rw [JsonMembers.text, List.append_assoc, List.append_assoc, List.append_assoc, name.lexRun_text,
      v.lexRun_text, lexRun_outside _ after.isOutside_bytes, List.cons_append, lexRun_cons (by decide),
      others.lexRun_text]

end

/-! ## No NUL -/

/-- A zero byte may stand nowhere in a text. -/
theorem lexStep_zero : ∀ st, lexStep st 0 = none
  | .outside => rfl
  | .inside .plain => rfl
  | .inside .escaped => rfl
  | .inside (.hex 0) => rfl
  | .inside (.hex (_ + 1)) => rfl

theorem zero_notMem_of_lexRun : ∀ {bytes : List UInt8} {st st' : LexState},
    lexRun st bytes = some st' → 0 ∉ bytes
  | [], _, _, _ => List.not_mem_nil
  | c :: bytes, st, st', h => by
    obtain ⟨next, hstep, hrun⟩ := Option.bind_eq_some_iff.mp h
    rw [List.mem_cons, not_or]
    refine ⟨?_, zero_notMem_of_lexRun hrun⟩
    rintro rfl
    rw [lexStep_zero] at hstep
    exact nomatch hstep

/-- A well-formed text is a C string. -/
theorem Json.zero_notMem_text (doc : Json) (before after : JsonSpace) :
    0 ∉ before.bytes ++ doc.text ++ after.bytes := by
  have hafter := lexRun_outside [] after.isOutside_bytes
  rw [List.append_nil] at hafter
  have hrun : lexRun .outside (before.bytes ++ doc.text ++ after.bytes) = some .outside := by
    rw [List.append_assoc, lexRun_outside _ before.isOutside_bytes, doc.lexRun_text, hafter]
    rfl
  exact zero_notMem_of_lexRun hrun

end QcloudIot.Lib
