import QcloudIot.Utils.JsonParser

/-!
# Where a lookup stops

A string that is handed to the scanner without its length is read up to its NUL, which may lie far
behind the text that was meant. `settled` says that a lookup does not get that far: the member is
found, and its value and all values before it end inside of the text.

* `valueLen_inside`: a value that ends inside is measured inside;
* `search_append`: so is the search through the members;
* **`liteJsonValueOf_append`**: a settled lookup does not depend on what stands behind the text.
-/

namespace QcloudIot.Utils

/-! ## Values that end inside of a text -/

/-- A string, with `lastchr` in front of it. -/
def stringEnds (lastchr : UInt8) : Text → Bool
  | [] => false
  | c :: s =>
    if c = 34 then
      if lastchr = 92 then stringEnds (s.headD 0) s else true
    else stringEnds c s

/-- An object or an array, behind its first mark. -/
def markEnds (opening closing : UInt8) (depth : Nat) : Text → Bool
  | [] => false
  | c :: s =>
    if c = closing then
      if depth = 0 then true else markEnds opening closing (depth - 1) s
    else if c = opening then markEnds opening closing (depth + 1) s
    else markEnds opening closing depth s

/-- A number, behind its first character. -/
def numberEnds : Text → Bool
  | [] => false
  | c :: s => if (c < 48 ∨ 57 < c) ∧ c ≠ 46 then true else numberEnds s

/-- The text tells whether one of the words stands at its start. -/
def wordEnds (words : List Text) (value : Text) : Bool :=
  words.all fun word => word.isPrefixOf value || !value.isPrefixOf word

def valueEnds (type : JsonType) (value : Text) : Bool :=
  match type with
  | .string => stringEnds 34 value
  | .object => markEnds 123 125 0 value.tail
  | .array => markEnds 91 93 0 value.tail
  | .number => numberEnds value.tail
  | .boolean => wordEnds [[116, 114, 117, 101], [84, 82, 85, 69], [102, 97, 108, 115, 101],
      [70, 65, 76, 83, 69]] value
  | .null => wordEnds [[110, 117, 108, 108], [78, 85, 76, 76]] value

/-- The loop of a search: it finds the name, over values that end. -/
def settlesLoop (name : Text) : Nat → Text → Bool
  | 0, _ => false
  | fuel + 1, pos =>
    match jsonGetNextObject pos with
    | none => false
    | some o =>
      valueEnds o.valType o.val &&
        (if o.key ≠ [] ∧ o.valLen ≠ 0 ∧ o.key = name then true
        else o.next.any (settlesLoop name fuel))

/-- A lookup of one name stops inside of the text: at the member, or at once where the text is no
object. -/
def settled (name : Text) : Text → Bool
  | [] => false
  | c :: s =>
    if c = 32 then settled name s
    else if c = 123 then settlesLoop name (c :: s).length (c :: s)
    else true

/-! ## Measured inside -/

theorem stringLen_inside (t : Text) : ∀ {lastchr : UInt8} (i len : Nat) {s : Text},
    stringEnds lastchr s = true →
      stringLen lastchr i len (s ++ t) = stringLen lastchr i len s ∧
        stringLen lastchr i len s < i + s.length
  | _, _, _, [], h => nomatch h
  | lastchr, i, len, c :: s, h => by
    rw [stringEnds] at h
    rw [List.cons_append, stringLen, stringLen, List.length_cons]
    by_cases hquote : c = 34
    · rw [if_pos hquote] at h
      rw [if_pos hquote, if_pos hquote]
      by_cases hescaped : lastchr = 92
      · rw [if_pos hescaped] at h
        rw [if_pos hescaped, if_pos hescaped]
        cases s with
        | nil => exact nomatch h
        | cons d s =>
          obtain ⟨heq, hlt⟩ := stringLen_inside t (i + 1) i h
          exact ⟨heq, by omega⟩
      · rw [if_neg hescaped, if_neg hescaped]
        exact ⟨rfl, by omega⟩
    · rw [if_neg hquote] at h
      rw [if_neg hquote, if_neg hquote]
      obtain ⟨heq, hlt⟩ := stringLen_inside t (i + 1) len h
      exact ⟨heq, by omega⟩

theorem markLen_inside (opening closing : UInt8) (t : Text) : ∀ {i depth : Nat} {s : Text},
    markEnds opening closing depth s = true →
      markLen opening closing i depth (s ++ t) = markLen opening closing i depth s ∧
        markLen opening closing i depth s ≤ i + s.length
  | _, _, [], h => nomatch h
  | i, depth, c :: s, h => by
    rw [markEnds] at h
    rw [List.cons_append, markLen, markLen, List.length_cons]
    by_cases hclosing : c = closing
    · rw [if_pos hclosing] at h
      rw [if_pos hclosing, if_pos hclosing]
      by_cases hlast : depth = 0
      · rw [if_pos hlast, if_pos hlast]
        exact ⟨rfl, by omega⟩
      · rw [if_neg hlast] at h
        rw [if_neg hlast, if_neg hlast]
        obtain ⟨heq, hle⟩ := markLen_inside opening closing t (i := i + 1) h
        exact ⟨heq, by omega⟩
    · rw [if_neg hclosing] at h
      rw [if_neg hclosing, if_neg hclosing]
      by_cases hopening : c = opening
      · rw [if_pos hopening] at h
        rw [if_pos hopening, if_pos hopening]
        obtain ⟨heq, hle⟩ := markLen_inside opening closing t (i := i + 1) h
        exact ⟨heq, by omega⟩
      · rw [if_neg hopening] at h
        rw [if_neg hopening, if_neg hopening]
        obtain ⟨heq, hle⟩ := markLen_inside opening closing t (i := i + 1) h
        exact ⟨heq, by omega⟩

theorem numberLen_inside (t : Text) : ∀ {i : Nat} {s : Text}, numberEnds s = true →
    numberLen i (s ++ t) = numberLen i s ∧ numberLen i s ≤ i + s.length
  | _, [], h => nomatch h
  | i, c :: s, h => by
    rw [numberEnds] at h
    rw [List.cons_append, numberLen, numberLen, List.length_cons]
    by_cases hend : (c < 48 ∨ 57 < c) ∧ c ≠ 46
    · rw [if_pos hend, if_pos hend]
      exact ⟨rfl, by omega⟩
    · rw [if_neg hend] at h
      rw [if_neg hend, if_neg hend]
      obtain ⟨heq, hle⟩ := numberLen_inside t (i := i + 1) h
      exact ⟨heq, by omega⟩

/-- What is behind the text makes no word of what is none. -/
theorem isPrefixOf_append {words : List Text} {value word : Text} (h : wordEnds words value = true)
    (hword : word ∈ words) (t : Text) : word.isPrefixOf (value ++ t) = word.isPrefixOf value := by
  have hends := List.all_eq_true.mp h word hword
  rw [Bool.or_eq_true, Bool.not_eq_true'] at hends
  rw [Bool.eq_iff_iff, List.isPrefixOf_iff_prefix, List.isPrefixOf_iff_prefix]
  constructor
  · intro hprefix
    rcases hends with hends | hends
    · exact List.isPrefixOf_iff_prefix.mp hends
    · rcases List.prefix_or_prefix_of_prefix hprefix (List.prefix_append value t) with hle | hle
      · exact hle
      · exact absurd (List.isPrefixOf_iff_prefix.mpr hle) (by rw [hends]; decide)
  · intro hprefix
    exact hprefix.trans (List.prefix_append value t)

/-- **A value that ends inside is measured inside**, whatever stands behind it. -/
theorem valueLen_inside {type : JsonType} {value : Text} (h : valueEnds type value = true)
    (t : Text) : valueLen type (value ++ t) = valueLen type value ∧
      (if type = .string then valueLen type value + 1 else valueLen type value) ≤ value.length := by
  have htail : ∀ {p : Text → Bool}, p [] = false → p value.tail = true →
      (value ++ t).tail = value.tail ++ t ∧ 1 + value.tail.length = value.length := by
    intro p hnil hp
    cases value with
    | nil => exact nomatch hnil.symm.trans hp
    | cons c s => exact ⟨rfl, Nat.add_comm 1 s.length⟩
  have hword : ∀ {word : Text}, word.isPrefixOf value = true → word.length ≤ value.length :=
    fun hprefix => (List.isPrefixOf_iff_prefix.mp hprefix).length_le
  cases type with
  | string =>
    obtain ⟨heq, hlt⟩ := stringLen_inside t 0 0 h
    rw [if_pos rfl]
    exact ⟨heq, by rw [Nat.zero_add] at hlt; exact hlt⟩
  | object =>
    obtain ⟨heq, hle⟩ := markLen_inside 123 125 t (i := 1) h
    obtain ⟨hvalue, hlen⟩ := htail (p := markEnds 123 125 0) rfl h
    rw [if_neg (by decide), valueLen, valueLen, hvalue, heq]
    exact ⟨rfl, hlen ▸ hle⟩
  | array =>
    obtain ⟨heq, hle⟩ := markLen_inside 91 93 t (i := 1) h
    obtain ⟨hvalue, hlen⟩ := htail (p := markEnds 91 93 0) rfl h
    rw [if_neg (by decide), valueLen, valueLen, hvalue, heq]
    exact ⟨rfl, hlen ▸ hle⟩
  | number =>
    obtain ⟨heq, hle⟩ := numberLen_inside t (i := 1) h
    obtain ⟨hvalue, hlen⟩ := htail (p := numberEnds) rfl h
    rw [if_neg (by decide), valueLen, valueLen, hvalue, heq]
    exact ⟨rfl, hlen ▸ hle⟩
  | boolean =>
    rw [if_neg (by decide), valueLen, valueLen, isPrefixOf_append h (by decide),
      isPrefixOf_append h (by decide), isPrefixOf_append h (by decide),
      isPrefixOf_append h (by decide)]
    refine ⟨rfl, ?_⟩
    split
    · rename_i hfour
      exact hfour.elim hword hword
    split
    · rename_i hfive
      exact hfive.elim hword hword
    · exact Nat.zero_le _
  | null =>
    rw [if_neg (by decide), valueLen, valueLen, isPrefixOf_append h (by decide),
      isPrefixOf_append h (by decide)]
    refine ⟨rfl, ?_⟩
    split
    · rename_i hfour
      exact hfour.elim hword hword
    · exact Nat.zero_le _

/-! ## Found inside -/

theorem strchr_append_right {c : UInt8} (t : Text) {s u : Text} (h : strchr c s = some u) :
    strchr c (s ++ t) = some (u ++ t) ∧ (u ++ t).tail = u.tail ++ t := by
  obtain ⟨front, behind, rfl, rfl, hfront⟩ := strchr_split h
  rw [List.append_assoc, List.cons_append]
  exact ⟨strchr_append _ hfront, rfl⟩

theorem valueStart_append (t : Text) : ∀ {s u : Text} {type : JsonType},
    valueStart s = some (type, u) → valueStart (s ++ t) = some (type, u ++ t)
  | [], _, _, h => nomatch h
  | c :: s, u, type, h => by
    unfold valueStart at h
    rw [List.cons_append, valueStart]
    by_cases h₁ : c = 34
    · rw [if_pos h₁] at h ⊢
      cases h
      rfl
    rw [if_neg h₁] at h ⊢
    by_cases h₂ : c = 123
    · rw [if_pos h₂] at h ⊢
      cases h
      rfl
    rw [if_neg h₂] at h ⊢
    by_cases h₃ : c = 91
    · rw [if_pos h₃] at h ⊢
      cases h
      rfl
    rw [if_neg h₃] at h ⊢
    by_cases h₄ : c = 45 ∨ (48 ≤ c ∧ c ≤ 57)
    · rw [if_pos h₄] at h ⊢
      cases h
      rfl
    rw [if_neg h₄] at h ⊢
    by_cases h₅ : c = 116 ∨ c = 84 ∨ c = 102 ∨ c = 70
    · rw [if_pos h₅] at h ⊢
      cases h
      rfl
    rw [if_neg h₅] at h ⊢
    by_cases h₆ : c = 110 ∨ c = 78
    · rw [if_pos h₆] at h ⊢
      cases h
      rfl
    rw [if_neg h₆] at h ⊢
    exact valueStart_append t h

/-- The same object in the longer text. -/
def NextObject.append (o : NextObject) (t : Text) : NextObject := { o with val := o.val ++ t }

@[simp] theorem NextObject.append_val (o : NextObject) (t : Text) : (o.append t).val = o.val ++ t := rfl

theorem jsonGetNextObject_append {pos : Text} {o : NextObject} (h : jsonGetNextObject pos = some o)
    (t : Text) : jsonGetNextObject (pos ++ t) = some (o.append t) := by
  obtain ⟨opening, hopening, h⟩ := Option.bind_eq_some_iff.mp h
  obtain ⟨closing, hclosing, h⟩ := Option.bind_eq_some_iff.mp h
  obtain ⟨⟨type, val⟩, hval, rfl⟩ := Option.map_eq_some_iff.mp h
  obtain ⟨colon, hcolon, hstart⟩ := Option.bind_eq_some_iff.mp hval
  obtain ⟨hopening', htail⟩ := strchr_append_right t hopening
  obtain ⟨hclosing', -⟩ := strchr_append_right t hclosing
  obtain ⟨hcolon', -⟩ := strchr_append_right t hcolon
  have hkey : (opening.tail ++ t).length - (closing ++ t).length =
      opening.tail.length - closing.length := by
    rw [List.length_append, List.length_append]
    omega
  unfold jsonGetNextObject
  rw [hopening', Option.bind_some, htail, hclosing', Option.bind_some, hcolon', Option.bind_some,
    valueStart_append t hstart, Option.map_some, hkey,
    List.take_append_of_le_length (Nat.sub_le _ _)]
  rfl

/-- How a value that ends inside is gone over. -/
theorem NextObject.next_append {o : NextObject} (h : valueEnds o.valType o.val = true) (t : Text) :
    (o.append t).valLen = o.valLen ∧ (o.append t).val.take o.valLen = o.val.take o.valLen ∧
      ∃ pos, o.next = some pos ∧ (o.append t).next = some (pos ++ t) := by
  obtain ⟨heq, hle⟩ := valueLen_inside h t
  have hlen : (o.append t).valLen = o.valLen := heq
  have hvalLen : o.valLen ≤ o.val.length := by
    refine Nat.le_trans ?_ hle
    split
    · exact Nat.le_succ _
    · exact Nat.le_refl _
  have hskip : o.skip ≤ o.val.length := hle
  have hskip' : (o.append t).skip = o.skip := by
    unfold skip
    rw [hlen]
    rfl
  refine ⟨hlen, List.take_append_of_le_length hvalLen, o.val.drop o.skip, if_pos hskip, ?_⟩
  have hle' : o.skip ≤ (o.val ++ t).length := by
    rw [List.length_append]
    omega
  unfold next
  rw [hskip', append_val, if_pos hle', ← List.drop_append_of_le_length hskip]

/-- **A settled search**: the object found is one of the text, whatever stands behind. -/
theorem search_append {name : Text} : ∀ {fuel : Nat} {pos : Text}, settlesLoop name fuel pos = true →
    ∃ o : NextObject, valueEnds o.valType o.val = true ∧
      ∀ t, search name (pos ++ t) = some (some (o.append t))
  | 0, _, h => nomatch h
  | fuel + 1, pos, h => by
    rw [settlesLoop] at h
    cases ho : jsonGetNextObject pos with
    | none =>
      rw [ho] at h
      exact nomatch h
    | some o =>
      rw [ho] at h
      obtain ⟨hends, h⟩ := Bool.and_eq_true_iff.mp h
      by_cases hfound : o.key ≠ [] ∧ o.valLen ≠ 0 ∧ o.key = name
      · refine ⟨o, hends, fun t => ?_⟩
        obtain ⟨hlen, -, -⟩ := o.next_append hends t
        have hfound' : (o.append t).key ≠ [] ∧ (o.append t).valLen ≠ 0 ∧ (o.append t).key = name := by
          rwa [hlen]
        rw [search_eq, jsonGetNextObject_append ho]
        simp only
        rw [if_pos hfound']
      · rw [if_neg hfound] at h
        obtain ⟨pos', hnext, hsettles⟩ := (Option.any_eq_true _ _).mp h
        obtain ⟨o', hends', hsearch⟩ := search_append hsettles
        refine ⟨o', hends', fun t => ?_⟩
        obtain ⟨hlen, -, pos'', hpos'', hnext'⟩ := o.next_append hends t
        rw [hnext] at hpos''
        cases hpos''
        have hfound' :
            ¬ ((o.append t).key ≠ [] ∧ (o.append t).valLen ≠ 0 ∧ (o.append t).key = name) := by
          rwa [hlen]
        rw [search_eq, jsonGetNextObject_append ho]
        simp only
        rw [if_neg hfound', hnext', Option.bind_some]
        exact hsearch t

/-- **A settled lookup** finds the same in every text that begins with this one. -/
theorem liteJsonValueOf_append {name : Text} (hname : 46 ∉ name) {doc : Text}
    (h : settled name doc = true) (t : Text) :
    liteJsonValueOf name (doc ++ t) = liteJsonValueOf name doc := by
  have hvalue : ∃ r, ∀ t, (jsonGetValueByName (doc ++ t) name).map
      (fun found => found.map fun o => o.val.take o.valLen) = r := by
    induction doc with
    | nil => exact nomatch h
    | cons c s ih =>
      rw [settled] at h
      by_cases hspace : c = 32
      · rw [if_pos hspace] at h
        obtain ⟨r, hr⟩ := ih h
        refine ⟨r, fun t => ?_⟩
        rw [← hr t, List.cons_append, jsonGetValueByName, jsonGetValueByName, jsonGetObject,
          if_pos hspace]
      · rw [if_neg hspace] at h
        by_cases hbrace : c = 123
        · rw [if_pos hbrace] at h
          obtain ⟨o, hends, hsearch⟩ := search_append h
          refine ⟨some (some (o.val.take o.valLen)), fun t => ?_⟩
          obtain ⟨hlen, htake, -⟩ := o.next_append hends t
          rw [List.cons_append, jsonGetValueByName, jsonGetObject, if_neg hspace, if_pos hbrace]
          simp only
          rw [← List.cons_append, hsearch t, Option.map_some, Option.map_some, hlen, htake]
        · refine ⟨some none, fun t => ?_⟩
          rw [List.cons_append, jsonGetValueByName, jsonGetObject, if_neg hspace, if_neg hbrace]
          rfl
  obtain ⟨r, hr⟩ := hvalue
  have hnil := hr []
  rw [List.append_nil] at hnil
  have hsplit : name.splitOn 46 = [name] := List.splitOn_eq_singleton hname
  unfold liteJsonValueOf
  rw [hsplit, followKey, followKey, hr t, hnil]

end QcloudIot.Utils
