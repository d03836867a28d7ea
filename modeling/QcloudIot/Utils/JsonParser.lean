import Mathlib.Data.List.Basic

/-!
# The JSON scanner

`json_parser.c` and `LITE_json_value_of` of `json_token.c`. Nothing is parsed: the scanner goes from
quote to quote and takes what stands behind a colon for a value.

* A pointer is the string it points to, up to its end; a `NULL` pointer is `none`.
* Lengths are natural numbers: the texts are shorter than what an `int` counts. Memory is always
  there.
* A result `none` of a search: it has been moved behind the end of the string, and reads on there.
* `json_get_value_by_name` passes the length of its string, so the saving and restoring of a last
  character never happens.
-/

namespace QcloudIot.Utils

/-- A string, from a pointer on. -/
abbrev Text := List UInt8

/-- `enum JSONTYPE`, without the value that stands for no type. -/
inductive JsonType where
  | string | object | array | number | boolean | null
  deriving DecidableEq, Repr

/-- `strchr`. -/
def strchr (c : UInt8) : Text → Option Text
  | [] => none
  | b :: s => if b = c then some (b :: s) else strchr c s

/-- `json_get_object`, for an object. -/
def jsonGetObject : Text → Option Text
  | [] => none
  | c :: s => if c = 32 then jsonGetObject s else if c = 123 then some (c :: s) else none

/-! ## The next value -/

/-- The loop that looks for the first character of a value: its type, and `p_cValue`. -/
def valueStart : Text → Option (JsonType × Text)
  | [] => none
  | c :: s =>
    if c = 34 then some (.string, s)
    else if c = 123 then some (.object, c :: s)
    else if c = 91 then some (.array, c :: s)
    else if c = 45 ∨ (48 ≤ c ∧ c ≤ 57) then some (.number, c :: s)
    else if c = 116 ∨ c = 84 ∨ c = 102 ∨ c = 70 then some (.boolean, c :: s)
    else if c = 110 ∨ c = 78 then some (.null, c :: s)
    else valueStart s

/-- The loop over a string, at offset `i`: `len` is `iValueLen` so far. A quote behind a backslash is
no end, but its place is kept. -/
def stringLen (lastchr : UInt8) (i len : Nat) : Text → Nat
  | [] => len
  | c :: s =>
    if c = 34 then
      if lastchr = 92 then stringLen (s.headD 0) (i + 1) i s else i
    else stringLen c (i + 1) len s

/-- The loop over an object or an array, with its two marks. -/
def markLen (opening closing : UInt8) (i depth : Nat) : Text → Nat
  | [] => 0
  | c :: s =>
    if c = closing then
      if depth = 0 then i + 1 else markLen opening closing (i + 1) (depth - 1) s
    else if c = opening then markLen opening closing (i + 1) (depth + 1) s
    else markLen opening closing (i + 1) depth s

/-- The loop over a number. -/
def numberLen (i : Nat) : Text → Nat
  | [] => 0
  | c :: s => if (c < 48 ∨ 57 < c) ∧ c ≠ 46 then i else numberLen (i + 1) s

/-- What follows `iValueType`: the length of the value at `p_cValue`. -/
def valueLen (type : JsonType) (value : Text) : Nat :=
  match type with
  | .string => stringLen 34 0 0 value
  | .object => markLen 123 125 1 0 value.tail
  | .array => markLen 91 93 1 0 value.tail
  | .number => numberLen 1 value.tail
  | .boolean =>
    if [116, 114, 117, 101].isPrefixOf value ∨ [84, 82, 85, 69].isPrefixOf value then 4
    else if [102, 97, 108, 115, 101].isPrefixOf value ∨ [70, 65, 76, 83, 69].isPrefixOf value then 5
    else 0
  | .null => if [110, 117, 108, 108].isPrefixOf value ∨ [78, 85, 76, 76].isPrefixOf value then 4 else 0

/-- What `json_get_next_object` hands out. -/
structure NextObject where
  key : Text
  valType : JsonType
  val : Text
  deriving DecidableEq, Repr

/-- `val_len`. -/
def NextObject.valLen (o : NextObject) : Nat := valueLen o.valType o.val

/-- How far behind the value it goes on: behind the quote of a string. -/
def NextObject.skip (o : NextObject) : Nat :=
  if o.valType = .string then o.valLen + 1 else o.valLen

/-- The pointer it returns; `none` lies behind the end of the string. -/
def NextObject.next (o : NextObject) : Option Text :=
  if o.skip ≤ o.val.length then some (o.val.drop o.skip) else none

/-- `json_get_next_object`, for an object; `none` where it returns `NULL`. -/
def jsonGetNextObject (str : Text) : Option NextObject :=
  (strchr 34 str).bind fun opening =>
    (strchr 34 opening.tail).bind fun closing =>
      ((strchr 58 closing).bind valueStart).map fun value =>
        ⟨opening.tail.take (opening.tail.length - closing.length), value.1, value.2⟩

/-! ## Searches -/

/-- The loop of `json_parse_name_value` with `json_get_value_by_name_cb`. Every turn shortens the
string, so its length is fuel enough. -/
def searchLoop (name : Text) : Nat → Text → Option (Option NextObject)
  | 0, _ => some none
  | fuel + 1, pos =>
    if pos = [] then some none
    else
      match jsonGetNextObject pos with
      | none => some none
      | some o =>
        if o.key ≠ [] ∧ o.valLen ≠ 0 ∧ o.key = name then some (some o)
        else o.next.bind (searchLoop name fuel)

/-- `json_parse_name_value` from a position on. -/
def search (name : Text) (pos : Text) : Option (Option NextObject) := searchLoop name pos.length pos

/-- `json_get_value_by_name`. -/
def jsonGetValueByName (str name : Text) : Option (Option NextObject) :=
  match jsonGetObject str with
  | none => some none
  | some pos => search name pos

/-- The loop of `LITE_json_value_of` over the parts of the key. -/
def followKey : List Text → Text → Option (Option Text)
  | [], _ => some none
  | [name], src =>
    (jsonGetValueByName src name).map fun found => found.map fun o => o.val.take o.valLen
  | name :: rest, src =>
    (jsonGetValueByName src name).bind fun found =>
      match found with
      | none => some none
      | some o => followKey rest o.val

/-- `LITE_json_value_of`. -/
def liteJsonValueOf (key src : Text) : Option (Option Text) := followKey (key.splitOn 46) src

/-! ## How far a turn gets -/

theorem strchr_eq (c : UInt8) (s : Text) :
    strchr c s = if c ∈ s then some (s.dropWhile (· ≠ c)) else none := by
  induction s with
  | nil => rfl
  | cons b s ih =>
    rw [strchr]
    by_cases hb : b = c
    · rw [if_pos hb, if_pos (hb ▸ List.mem_cons_self), List.dropWhile_cons,
        if_neg (by simp [hb])]
    · have hmem : c ∈ b :: s ↔ c ∈ s := by
        rw [List.mem_cons]
        exact or_iff_right fun h => hb h.symm
      rw [if_neg hb, ih, List.dropWhile_cons, if_pos (decide_eq_true hb)]
      simp only [hmem]

/-- A gap without the character is passed by. -/
theorem strchr_gap {c : UInt8} (t : Text) {gap : Text} (h : c ∉ gap) :
    strchr c (gap ++ t) = strchr c t := by
  induction gap with
  | nil => rfl
  | cons b gap ih =>
    rw [List.mem_cons, not_or] at h
    rw [List.cons_append, strchr, if_neg (Ne.symm h.1), ih h.2]

theorem strchr_append {c : UInt8} {gap : Text} (s : Text) (h : c ∉ gap) :
    strchr c (gap ++ c :: s) = some (c :: s) := by
  rw [strchr_gap _ h, strchr, if_pos rfl]

theorem strchr_eq_none {c : UInt8} {gap : Text} (h : c ∉ gap) : strchr c gap = none := by
  rw [strchr_eq, if_neg h]

/-- A character found, with what stands in front of it. -/
theorem strchr_split {c : UInt8} {s t : Text} (h : strchr c s = some t) :
    ∃ front behind, s = front ++ c :: behind ∧ t = c :: behind ∧ c ∉ front := by
  induction s with
  | nil => cases h
  | cons b s ih =>
    rw [strchr] at h
    split at h
    · rename_i hb
      cases h
      exact ⟨[], s, by rw [hb]; rfl, by rw [hb], List.not_mem_nil⟩
    · rename_i hb
      obtain ⟨front, behind, rfl, rfl, hfront⟩ := ih h
      exact ⟨b :: front, behind, rfl, rfl, fun hmem =>
        (List.mem_cons.mp hmem).elim (fun heq => hb heq.symm) hfront⟩

theorem strchr_suffix {c : UInt8} {s t : Text} (h : strchr c s = some t) : t <:+ s := by
  obtain ⟨front, behind, rfl, rfl, -⟩ := strchr_split h
  exact List.suffix_append front _

theorem strchr_head {c : UInt8} {s t : Text} (h : strchr c s = some t) : ∃ u, t = c :: u := by
  obtain ⟨-, behind, -, rfl, -⟩ := strchr_split h
  exact ⟨behind, rfl⟩

theorem valueStart_suffix {s t : Text} {type : JsonType} (h : valueStart s = some (type, t)) :
    t <:+ s := by
  induction s with
  | nil => cases h
  | cons c s ih =>
    unfold valueStart at h
    split at h
    · cases h
      exact List.suffix_cons c _
    iterate 5
      split at h
      · cases h
        exact List.suffix_rfl
    exact (ih h).trans (List.suffix_cons c s)

/-- Only of a string nothing may be left. -/
theorem valueStart_ne_nil {s t : Text} {type : JsonType} (h : valueStart s = some (type, t))
    (htype : type ≠ .string) : t ≠ [] := by
  induction s with
  | nil => cases h
  | cons c s ih =>
    unfold valueStart at h
    split at h
    · cases h
      exact absurd rfl htype
    iterate 5
      split at h
      · cases h
        exact List.cons_ne_nil c s
    exact ih h

/-- A value stands behind the quotes of its name. -/
theorem val_suffix {pos : Text} {o : NextObject} (h : jsonGetNextObject pos = some o) :
    o.val <:+ pos.tail := by
  obtain ⟨opening, hopening, h⟩ := Option.bind_eq_some_iff.mp h
  obtain ⟨closing, hclosing, h⟩ := Option.bind_eq_some_iff.mp h
  obtain ⟨⟨type, val⟩, hval, rfl⟩ := Option.map_eq_some_iff.mp h
  obtain ⟨colon, hcolon, hstart⟩ := Option.bind_eq_some_iff.mp hval
  obtain ⟨before, rfl⟩ := strchr_suffix hopening
  have htail : opening.tail <:+ (before ++ opening).tail := by
    cases before with
    | nil => exact List.suffix_rfl
    | cons b before => exact (List.tail_suffix opening).trans (List.suffix_append before opening)
  exact ((valueStart_suffix hstart).trans (strchr_suffix hcolon)).trans
    ((strchr_suffix hclosing).trans htail)

theorem jsonGetObject_suffix {src pos : Text} (h : jsonGetObject src = some pos) : pos <:+ src := by
  induction src with
  | nil => cases h
  | cons c s ih =>
    rw [jsonGetObject] at h
    split at h
    · exact (ih h).trans (List.suffix_cons c s)
    split at h
    · cases h
      exact List.suffix_rfl
    · cases h

theorem length_val_lt {pos : Text} {o : NextObject} (h : jsonGetNextObject pos = some o) :
    o.val.length < pos.length := by
  have hle := (val_suffix h).length_le
  rw [List.length_tail] at hle
  cases pos with
  | nil => cases h
  | cons c s =>
    rw [List.length_cons] at hle ⊢
    omega

theorem length_next_lt {pos pos' : Text} {o : NextObject} (h : jsonGetNextObject pos = some o)
    (hnext : o.next = some pos') : pos'.length < pos.length := by
  have hval := length_val_lt h
  unfold NextObject.next at hnext
  split at hnext
  · cases hnext
    rw [List.length_drop]
    omega
  · cases hnext

/-- With fuel for the whole string it does not matter how much. -/
theorem searchLoop_congr {name : Text} : ∀ {fuel fuel' : Nat} {pos : Text}, pos.length ≤ fuel →
    pos.length ≤ fuel' → searchLoop name fuel pos = searchLoop name fuel' pos
  | 0, 0, _, _, _ => rfl
  | 0, _ + 1, pos, h, _ => by
    rw [List.eq_nil_of_length_eq_zero (Nat.le_zero.mp h)]
    rfl
  | _ + 1, 0, pos, _, h' => by
    rw [List.eq_nil_of_length_eq_zero (Nat.le_zero.mp h')]
    rfl
  | fuel + 1, fuel' + 1, pos, h, h' => by
    rw [searchLoop, searchLoop]
    split
    · rfl
    split
    · rfl
    rename_i o ho
    split
    · rfl
    cases hnext : o.next with
    | none => rfl
    | some pos' =>
      have hlt := length_next_lt ho hnext
      rw [Option.bind_some, Option.bind_some]
      exact searchLoop_congr (by omega) (by omega)

theorem searchLoop_eq {name : Text} {fuel : Nat} {pos : Text} (h : pos.length ≤ fuel) :
    searchLoop name fuel pos = search name pos :=
  searchLoop_congr h (Nat.le_refl _)

/-- A search, turn by turn. -/
theorem search_eq (name pos : Text) : search name pos =
    match jsonGetNextObject pos with
    | none => some none
    | some o =>
      if o.key ≠ [] ∧ o.valLen ≠ 0 ∧ o.key = name then some (some o)
      else o.next.bind (search name) := by
  cases pos with
  | nil => rfl
  | cons c s =>
    rw [search, List.length_cons, searchLoop, if_neg (List.cons_ne_nil c s)]
    cases ho : jsonGetNextObject (c :: s) with
    | none => rfl
    | some o =>
      simp only
      split
      · rfl
      cases hnext : o.next with
      | none => rfl
      | some pos' =>
        have hlt := length_next_lt ho hnext
        rw [List.length_cons] at hlt
        rw [Option.bind_some, Option.bind_some, searchLoop_eq (by omega)]

/-! ## Where values stand -/

/-- What a search finds stands in the string. -/
theorem search_suffix {name pos : Text} {o : NextObject} (h : search name pos = some (some o)) :
    o.val <:+ pos := by
  generalize hlen : pos.length = n
  induction n using Nat.strongRecOn generalizing pos with
  | _ n ih =>
    rw [search_eq] at h
    split at h
    · cases h
    rename_i o' ho'
    have hval := (val_suffix ho').trans (List.tail_suffix pos)
    split at h
    · cases h
      exact hval
    · obtain ⟨pos', hnext, hfound⟩ := Option.bind_eq_some_iff.mp h
      have hlt := length_next_lt ho' hnext
      have hsuffix : pos' <:+ o'.val := by
        unfold NextObject.next at hnext
        split at hnext
        · cases hnext
          exact List.drop_suffix _ _
        · cases hnext
      exact ((ih _ (hlen ▸ hlt) hfound rfl).trans hsuffix).trans hval

theorem valueByName_suffix {src name : Text} {o : NextObject}
    (h : jsonGetValueByName src name = some (some o)) : o.val <:+ src := by
  unfold jsonGetValueByName at h
  split at h
  · cases h
  · rename_i pos hpos
    exact (search_suffix h).trans (jsonGetObject_suffix hpos)

/-- A value is made of bytes of the string. -/
theorem followKey_subset {path : List Text} {src v : Text} (h : followKey path src = some (some v)) :
    v ⊆ src := by
  induction path generalizing src with
  | nil => cases h
  | cons name rest ih =>
    cases rest with
    | nil =>
      obtain ⟨found, hfound, h⟩ := Option.map_eq_some_iff.mp h
      obtain ⟨o, rfl, rfl⟩ := Option.map_eq_some_iff.mp h
      exact List.Subset.trans (List.take_subset _ _) (valueByName_suffix hfound).subset
    | cons name' rest =>
      obtain ⟨found, hfound, h⟩ := Option.bind_eq_some_iff.mp h
      cases found with
      | none => cases h
      | some o => exact List.Subset.trans (ih h) (valueByName_suffix hfound).subset

example : liteJsonValueOf [97, 46, 98] ("\x7b\"a\":\x7b\"b\":\"xy\"\x7d\x7d".toList.map
    fun c => c.toNat.toUInt8) = some (some [120, 121]) := by
  decide

end QcloudIot.Utils
