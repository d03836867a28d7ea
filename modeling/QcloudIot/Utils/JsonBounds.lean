import Mathlib.Logic.Relation
import QcloudIot.Utils.JsonLookup
import QcloudIot.Utils.JsonMemory

/-!
# Where the JSON scanner reads

The iteration over the members of a string, malformed or not, and `json_parse_name_value`
(`json_parser.c`): whether the scanner keeps to the string and its terminator.

* `Head`, `Passed`: the name of a member, and how far the scanner goes on behind the start of its value;
  they are told from the text, not from the scanner;
* `Dangling`: a string whose members lead to a value that is a quote and nothing else: behind it the
  scanner goes on behind the terminator;
* **`inBounds_iff`**: it keeps to all strings but those.
-/

namespace QcloudIot.Utils

open Lib

/-! ## How members are told -/

/-- A character that starts a value. -/
def StartsValue (c : UInt8) : Prop :=
  c = 34 ∨ c = 123 ∨ c = 91 ∨ (c = 45 ∨ (48 ≤ c ∧ c ≤ 57)) ∨ (c = 116 ∨ c = 84 ∨ c = 102 ∨ c = 70) ∨
    (c = 110 ∨ c = 78)

instance : DecidablePred StartsValue := fun c => inferInstanceAs (Decidable (c = 34 ∨ _))

/-- A member, in front of its value: a name in quotes and a colon, with what stands between. -/
structure Head (t value : Text) (gap name between behind : Text) : Prop where
  text : t = gap ++ 34 :: (name ++ 34 :: (between ++ 58 :: (behind ++ value)))
  gap : 34 ∉ gap
  name : 34 ∉ name
  between : 58 ∉ between
  behind : ∀ c ∈ behind, ¬ StartsValue c
  value : ∃ c w, value = c :: w ∧ StartsValue c

/-- Each quote in the text has a backslash in front, and the text does not end in a backslash: what follows
is not judged by it. -/
def Unended : (lastchr : UInt8) → Text → Prop
  | lastchr, [] => lastchr ≠ 92
  | lastchr, c :: body => (c = 34 → lastchr = 92) ∧ Unended c body

/-- The marks of an object and of an array. -/
def markPairs : List (UInt8 × UInt8) := [(123, 125), (91, 93)]

/-- The words the scanner knows. -/
def jsonWords : List Text :=
  [Ram.trueWord, Ram.trueCapital, Ram.falseWord, Ram.falseCapital, Ram.nullWord, Ram.nullCapital]

/-- Their first letters. -/
def wordStarts : List UInt8 := [116, 84, 102, 70, 110, 78]

/-- Where the scanner goes on behind a value: at the end of a string, of what is enclosed in brackets, of
the digits of a number or of a word. Brackets that are never closed and words it does not know are not
gone past. -/
inductive Passed : Text → Text → Prop where
  | string {body rest : Text} : Unended 34 body → Passed (34 :: (body ++ 34 :: rest)) rest
  | enclosed {o c : UInt8} {inner rest : Text} : (o, c) ∈ markPairs →
      Enclosed o c (o :: inner) → Passed (o :: (inner ++ rest)) rest
  | unclosed {o c : UInt8} {inner : Text} : (o, c) ∈ markPairs →
      (∀ front behind, inner = front ++ behind → ¬ Enclosed o c (o :: front)) →
        Passed (o :: inner) (o :: inner)
  | number {c : UInt8} {digits rest : Text} : c = 45 ∨ isDigit c = true →
      (∀ d ∈ digits, isDigit d = true ∨ d = 46) → Ends rest → Passed (c :: (digits ++ rest)) rest
  | word {word rest : Text} : word ∈ jsonWords → Passed (word ++ rest) rest
  | noWord {c : UInt8} {rest : Text} : c ∈ wordStarts →
      (∀ word ∈ jsonWords, ¬ word <+: c :: rest) → Passed (c :: rest) (c :: rest)

/-- The next member is gone past. -/
def GoesPast (t rest : Text) : Prop :=
  ∃ value gap name between behind, Head t value gap name between behind ∧ Passed value rest

/-- Members lead to one whose value is a quote and nothing else. -/
def DanglesFrom (t : Text) : Prop :=
  ∃ last gap name between behind, Relation.ReflTransGen GoesPast t last ∧
    Head last [34] gap name between behind

/-- An object with such a member. -/
def Dangling (s : Text) : Prop :=
  ∃ spaces t, s = spaces ++ 123 :: t ∧ (∀ b ∈ spaces, b = 32) ∧ DanglesFrom (123 :: t)

/-! ## Dangling strings end in a quote -/

theorem Passed.suffix {value rest : Text} (h : Passed value rest) : rest <:+ value := by
  cases h with
  | string => exact (List.suffix_cons _ _).trans ((List.suffix_append _ _).trans (List.suffix_cons _ _))
  | enclosed => exact (List.suffix_append _ _).trans (List.suffix_cons _ _)
  | unclosed => exact List.suffix_rfl
  | number => exact (List.suffix_append _ _).trans (List.suffix_cons _ _)
  | word => exact List.suffix_append _ _
  | noWord => exact List.suffix_rfl

theorem Head.suffix {t value gap name between behind : Text}
    (h : Head t value gap name between behind) :
    value <:+ t := by
  rw [h.text]
  exact ⟨gap ++ 34 :: (name ++ 34 :: (between ++ 58 :: behind)), by
    simp only [List.append_assoc, List.cons_append]⟩

theorem suffix_of_goesPast {t last : Text} (hpath : Relation.ReflTransGen GoesPast t last) :
    last <:+ t := by
  induction hpath with
  | refl => exact List.suffix_rfl
  | tail _ hstep ih =>
    obtain ⟨value, _, _, _, _, hhead, hpassed⟩ := hstep
    exact (hpassed.suffix.trans hhead.suffix).trans ih

/-- A text that does not end in a quote does not dangle. -/
theorem Dangling.getLast? {s : Text} (h : Dangling s) : s.getLast? = some 34 := by
  obtain ⟨spaces, t, rfl, -, last, gap, name, between, behind, hpath, hlast⟩ := h
  obtain ⟨front, hfront⟩ :=
    (hlast.suffix.trans (suffix_of_goesPast hpath)).trans (List.suffix_append spaces _)
  rw [← hfront, List.getLast?_append]
  rfl

/-! ## The scanner goes by the heads -/

theorem valueStart_skip {c : UInt8} (hc : ¬ StartsValue c) (s : Text) : valueStart (c :: s) =
    valueStart s := by
  unfold StartsValue at hc
  simp only [not_or] at hc
  obtain ⟨h₁, h₂, h₃, h₄, h₅, h₆⟩ := hc
  rw [valueStart, if_neg h₁, if_neg h₂, if_neg h₃, if_neg (not_or.mpr h₄), if_neg, if_neg]
  · exact not_or.mpr h₆
  · simp only [not_or]
    exact h₅

theorem valueStart_skips {behind : Text} (h : ∀ c ∈ behind, ¬ StartsValue c) (s : Text) :
    valueStart (behind ++ s) = valueStart s := by
  induction behind with
  | nil => rfl
  | cons c behind ih =>
    rw [List.cons_append, valueStart_skip (h c List.mem_cons_self),
      ih fun d hd => h d (List.mem_cons_of_mem c hd)]

/-- What is found starts with a character that starts a value. -/
theorem valueStart_split {s v : Text} {type : JsonType} (h : valueStart s = some (type, v)) :
    ∃ behind c w, s = behind ++ c :: w ∧ (∀ d ∈ behind, ¬ StartsValue d) ∧ StartsValue c := by
  induction s with
  | nil => cases h
  | cons c s ih =>
    by_cases hc : StartsValue c
    · exact ⟨[], c, s, rfl, fun d hd => absurd hd List.not_mem_nil, hc⟩
    · rw [valueStart_skip hc] at h
      obtain ⟨behind, d, w, rfl, hbehind, hd⟩ := ih h
      exact ⟨c :: behind, d, w, rfl, List.forall_mem_cons.mpr ⟨hc, hbehind⟩, hd⟩

/-- **The next member**, told from the text. -/
theorem nextObject_of_head {t value gap name between behind : Text}
    (h : Head t value gap name between behind) : jsonGetNextObject t =
      (valueStart value).map fun v => ⟨name, v.1, v.2⟩ := by
  have hcolon : 58 ∉ 34 :: between := by
    rw [List.mem_cons, not_or]
    exact ⟨by decide, h.between⟩
  have hskip : valueStart (58 :: (behind ++ value)) = valueStart value :=
    valueStart_skips (List.forall_mem_cons.mpr ⟨by decide, h.behind⟩) value
  rw [h.text, jsonGetNextObject, strchr_append _ h.gap, Option.bind_some, List.tail_cons,
    strchr_append _ h.name, Option.bind_some, ← List.cons_append, strchr_append _ hcolon,
    Option.bind_some, hskip]
  congr 1
  funext v
  rw [List.cons_append, List.length_append, Nat.add_sub_cancel, List.take_left]

/-- What is found has such a text. -/
theorem head_of_nextObject {t : Text} {o : NextObject} (h : jsonGetNextObject t = some o) :
    ∃ value gap name between behind, Head t value gap name between behind ∧
      valueStart value = some (o.valType, o.val) := by
  obtain ⟨opening, hopening, h⟩ := Option.bind_eq_some_iff.mp h
  obtain ⟨gap, t', rfl, rfl, hgap⟩ := strchr_split hopening
  obtain ⟨closing, hclosing, h⟩ := Option.bind_eq_some_iff.mp h
  obtain ⟨name, t'', hname, rfl, hquiet⟩ := strchr_split hclosing
  rw [List.tail_cons] at hname
  subst hname
  obtain ⟨⟨type, val⟩, hval, rfl⟩ := Option.map_eq_some_iff.mp h
  obtain ⟨colon, hcolon, hstart⟩ := Option.bind_eq_some_iff.mp hval
  obtain ⟨front, u, hfront, rfl, hcolonless⟩ := strchr_split hcolon
  obtain ⟨between, rfl⟩ : ∃ between, front = 34 :: between := by
    cases front with
    | nil => exact absurd (List.cons.inj hfront).1 (by decide)
    | cons b between => exact ⟨between, by rw [(List.cons.inj hfront).1]⟩
  have ht'' : t'' = between ++ 58 :: u := (List.cons.inj hfront).2
  subst ht''
  obtain ⟨behind, c, w, hu, hbehind, hc⟩ := valueStart_split hstart
  rw [hu, valueStart_skips hbehind] at hstart
  obtain ⟨behind, rfl⟩ : ∃ behind', behind = 58 :: behind' := by
    cases behind with
    | nil => exact absurd ((List.cons.inj hu).1 ▸ hc) (by decide)
    | cons b behind => exact ⟨behind, by rw [(List.cons.inj hu).1]⟩
  have hu : u = behind ++ c :: w := (List.cons.inj hu).2
  subst hu
  exact ⟨c :: w, gap, name, between, behind, ⟨rfl, hgap, hquiet,
    fun hmem => hcolonless (List.mem_cons_of_mem 34 hmem),
    fun d hd => hbehind d (List.mem_cons_of_mem 58 hd), c, w, rfl, hc⟩, hstart⟩

/-! ## How far it goes behind a value -/

/-- Behind a quote that is no end it matters only whether the next character is a quote. -/
theorem stringLen_head (s : Text) (i len : Nat) : stringLen (s.headD 0) i len s =
    stringLen 34 i len s := by
  cases s with
  | nil => rfl
  | cons c s =>
    rw [List.headD_cons, stringLen, stringLen]
    by_cases hquote : c = 34
    · rw [hquote]
    · rw [if_neg hquote, if_neg hquote]

/-- The loop over a string ends at the first quote that no backslash stands in front of. -/
theorem stringLen_unended {body : Text} (rest : Text) {lastchr : UInt8} (h : Unended lastchr body)
    (i len : Nat) : stringLen lastchr i len (body ++ 34 :: rest) = i + body.length := by
  induction body generalizing lastchr i len with
  | nil =>
    rw [List.nil_append, stringLen, if_pos rfl, if_neg h]
    rfl
  | cons c body ih =>
    rw [List.cons_append, stringLen, List.length_cons]
    by_cases hquote : c = 34
    · rw [if_pos hquote, if_pos (h.1 hquote), stringLen_head, ih (hquote ▸ h.2)]
      omega
    · rw [if_neg hquote, ih h.2]
      omega

/-- A string that is not ended: the length is where the last quote in it stands, or the one given. -/
theorem stringLen_cases (s : Text) (lastchr : UInt8) (i len : Nat) :
    (∃ body rest, s = body ++ 34 :: rest ∧ Unended lastchr body) ∨
      (34 ∉ s ∧ stringLen lastchr i len s = len) ∨
      ∃ front behind, s = front ++ 34 :: behind ∧ 34 ∉ behind ∧
        stringLen lastchr i len s = i + front.length := by
  induction s generalizing lastchr i len with
  | nil => exact .inr (.inl ⟨List.not_mem_nil, rfl⟩)
  | cons c s ih =>
    rw [stringLen]
    by_cases hquote : c = 34
    · rw [if_pos hquote]
      by_cases hescaped : lastchr = 92
      · rw [if_pos hescaped, stringLen_head]
        rcases ih 34 (i + 1) i with ⟨body, rest, rfl, hbody⟩ | ⟨hquiet, hlen⟩ |
          ⟨front, behind, rfl, hquiet, hlen⟩
        · exact .inl ⟨c :: body, rest, rfl, fun _ => hescaped, hquote ▸ hbody⟩
        · exact .inr (.inr ⟨[], s, by rw [hquote]; rfl, hquiet, hlen⟩)
        · exact .inr (.inr ⟨c :: front, behind, rfl, hquiet, by rw [hlen, List.length_cons]; omega⟩)
      · exact .inl ⟨[], s, by rw [hquote]; rfl, hescaped⟩
    · rw [if_neg hquote]
      rcases ih c (i + 1) len with ⟨body, rest, rfl, hbody⟩ | ⟨hquiet, hlen⟩ |
        ⟨front, behind, rfl, hquiet, hlen⟩
      · exact .inl ⟨c :: body, rest, rfl, fun h => absurd h hquote, hbody⟩
      · refine .inr (.inl ⟨fun hmem => ?_, hlen⟩)
        exact (List.mem_cons.mp hmem).elim (fun h => hquote h.symm) hquiet
      · exact .inr (.inr ⟨c :: front, behind, rfl, hquiet, by rw [hlen, List.length_cons]; omega⟩)

/-- The count over brackets ends where all are closed, or it finds nothing. -/
theorem markLen_cases {o c : UInt8} (hne : o ≠ c) (s : Text) (i depth : Nat) :
    markLen o c i depth s = 0 ∨
      ∃ inner rest, s = inner ++ rest ∧
        (∀ n < inner.length, (inner.take n).count c ≤ (inner.take n).count o + depth) ∧
        inner.count c = inner.count o + depth + 1 := by
  induction s generalizing i depth with
  | nil => exact .inl rfl
  | cons b s ih =>
    have hbehind : ∀ depth' : Nat, (∃ inner rest, s = inner ++ rest ∧
        (∀ n < inner.length, (inner.take n).count c ≤ (inner.take n).count o + depth') ∧
        inner.count c = inner.count o + depth' + 1) →
        (if b = c then 1 else 0) + depth' = (if b = o then 1 else 0) + depth →
        ∃ inner rest, b :: s = inner ++ rest ∧
          (∀ n < inner.length, (inner.take n).count c ≤ (inner.take n).count o + depth) ∧
          inner.count c = inner.count o + depth + 1 := by
      rintro depth' ⟨inner, rest, rfl, hpre, hcount⟩ hdepth
      refine ⟨b :: inner, rest, rfl, fun n hn => ?_, ?_⟩
      · cases n with
        | zero => exact Nat.zero_le _
        | succ n =>
          have h := hpre n (by rw [List.length_cons] at hn; omega)
          rw [List.take_succ_cons, List.count_cons, List.count_cons]
          simp only [beq_iff_eq]
          omega
      · rw [List.count_cons, List.count_cons]
        simp only [beq_iff_eq]
        omega
    rw [markLen]
    by_cases hclosing : b = c
    · have hopening : b ≠ o := fun h => hne (h.symm.trans hclosing)
      rw [if_pos hclosing]
      by_cases hdepth : depth = 0
      · refine .inr ⟨[b], s, rfl, fun n hn => ?_, ?_⟩
        · rw [Nat.lt_one_iff.mp hn]
          exact Nat.zero_le _
        · rw [hclosing, hdepth, List.count_singleton_self, List.count_eq_zero_of_not_mem fun h =>
            hne (List.mem_singleton.mp h)]
      · rw [if_neg hdepth]
        refine (ih (i + 1) (depth - 1)).imp_right fun h => hbehind (depth - 1) h ?_
        rw [if_pos hclosing, if_neg hopening]
        omega
    · rw [if_neg hclosing]
      by_cases hopening : b = o
      · rw [if_pos hopening]
        refine (ih (i + 1) (depth + 1)).imp_right fun h => hbehind (depth + 1) h ?_
        rw [if_neg hclosing, if_pos hopening]
        omega
      · rw [if_neg hopening]
        refine (ih (i + 1) depth).imp_right fun h => hbehind depth h ?_
        rw [if_neg hclosing, if_neg hopening]

theorem enclosed_of_counts {o c : UInt8} (hne : o ≠ c) {inner : Text}
    (hpre : ∀ n < inner.length, (inner.take n).count c ≤ (inner.take n).count o + 0)
    (hcount : inner.count c = inner.count o + 0 + 1) : Enclosed o c (o :: inner) := by
  refine ⟨fun n hn hpos => ?_, ?_⟩
  · obtain ⟨n, rfl⟩ := Nat.exists_eq_succ_of_ne_zero (Nat.ne_of_gt hpos)
    have h := hpre n (by rw [List.length_cons] at hn; omega)
    rw [List.take_succ_cons, List.count_cons_of_ne hne, List.count_cons_self]
    omega
  · rw [List.count_cons_of_ne hne, List.count_cons_self, hcount]

/-- The loop over a number ends behind the digits; it finds nothing if they are the last. -/
theorem numberLen_cases (s : Text) (i : Nat) : ∃ digits rest, s = digits ++ rest ∧
    (∀ d ∈ digits, isDigit d = true ∨ d = 46) ∧ (Ends rest ∨ rest = [] ∧ numberLen i s = 0) := by
  induction s generalizing i with
  | nil => exact ⟨[], [], rfl, fun d hd => absurd hd List.not_mem_nil, .inr ⟨rfl, rfl⟩⟩
  | cons c s ih =>
    rw [numberLen]
    by_cases hend : (c < 48 ∨ 57 < c) ∧ c ≠ 46
    · refine ⟨[], c :: s, rfl, fun d hd => absurd hd List.not_mem_nil, .inl ⟨c, s, rfl, ?_, hend.2⟩⟩
      rw [Bool.eq_false_iff, ne_eq, isDigit_iff]
      have hrange := hend.1
      rw [UInt8.lt_iff_toNat_lt, UInt8.lt_iff_toNat_lt] at hrange
      change c.toNat < 48 ∨ 57 < c.toNat at hrange
      omega
    · rw [if_neg hend]
      obtain ⟨digits, rest, rfl, hdigits, hrest⟩ := ih (i + 1)
      refine ⟨c :: digits, rest, rfl, List.forall_mem_cons.mpr ⟨?_, hdigits⟩, hrest⟩
      rw [isDigit_iff]
      by_contra hno
      refine hend ⟨?_, fun h => hno (.inr h)⟩
      rw [UInt8.lt_iff_toNat_lt, UInt8.lt_iff_toNat_lt]
      change c.toNat < 48 ∨ 57 < c.toNat
      omega

/-! ## How far it goes behind a member -/

theorem next_eq_drop {o : NextObject} {n : Nat} (hskip : o.skip = n) (hle : n ≤ o.val.length) :
    o.next = some (o.val.drop n) := by
  rw [NextObject.next, hskip, if_pos hle]

/-- Behind what it takes of a value it goes on with the rest of the string. -/
theorem next_eq_append (front : Text) {name rest : Text} {type : JsonType} (htype : type ≠ .string)
    (hlen : valueLen type (front ++ rest) = front.length) :
    (NextObject.mk name type (front ++ rest)).next = some rest := by
  have hskip : (NextObject.mk name type (front ++ rest)).skip = front.length := by
    rw [NextObject.skip, if_neg htype]
    exact hlen
  have hle : front.length ≤ (front ++ rest).length := by
    rw [List.length_append]
    exact Nat.le_add_right _ _
  rw [next_eq_drop hskip hle, List.drop_left]

/-- A value it finds nothing of it does not go past. -/
theorem next_eq_self {name val : Text} {type : JsonType} (htype : type ≠ .string)
    (hlen : valueLen type val = 0) : (NextObject.mk name type val).next = some val :=
  next_eq_append [] htype hlen

theorem next_string {name body rest : Text} (h : Unended 34 body) :
    (NextObject.mk name .string (body ++ 34 :: rest)).next = some rest := by
  have hskip : (NextObject.mk name .string (body ++ 34 :: rest)).skip = (body ++ [34]).length := by
    rw [NextObject.skip, if_pos rfl, List.length_append, List.length_singleton]
    exact congrArg (· + 1) ((stringLen_unended rest h 0 0).trans (Nat.zero_add _))
  have happend : body ++ 34 :: rest = (body ++ [34]) ++ rest := by
    rw [List.append_assoc]
    rfl
  rw [happend] at hskip ⊢
  rw [next_eq_drop hskip, List.drop_left]
  exact (List.prefix_append (body ++ [34]) rest).length_le

theorem valueStart_mark {o c : UInt8} (h : (o, c) ∈ markPairs) (inner : Text) :
    o ≠ c ∧ ∃ type, type ≠ .string ∧ valueStart (o :: inner) = some (type, o :: inner) ∧
      ∀ t, valueLen type (o :: t) = markLen o c 1 0 t := by
  rcases List.mem_cons.mp h with heq | h
  · cases heq
    exact ⟨by decide, .object, by decide, rfl, fun _ => rfl⟩
  · cases List.mem_singleton.mp h
    exact ⟨by decide, .array, by decide, rfl, fun _ => rfl⟩

theorem valueStart_known {word : Text} (h : word ∈ jsonWords) (rest : Text) :
    ∃ type, type ≠ .string ∧ valueStart (word ++ rest) = some (type, word ++ rest) ∧
      valueLen type (word ++ rest) = word.length := by
  simp only [jsonWords, List.mem_cons, List.not_mem_nil, or_false] at h
  rcases h with rfl | rfl | rfl | rfl | rfl | rfl
  · exact ⟨.boolean, by decide, rfl, rfl⟩
  · exact ⟨.boolean, by decide, rfl, rfl⟩
  · exact ⟨.boolean, by decide, rfl, rfl⟩
  · exact ⟨.boolean, by decide, rfl, rfl⟩
  · exact ⟨.null, by decide, rfl, rfl⟩
  · exact ⟨.null, by decide, rfl, rfl⟩

theorem valueStart_unknown {c : UInt8} (h : c ∈ wordStarts) {rest : Text}
    (hnone : ∀ word ∈ jsonWords, ¬ word <+: c :: rest) :
    ∃ type, type ≠ .string ∧ valueStart (c :: rest) = some (type, c :: rest) ∧
      valueLen type (c :: rest) = 0 := by
  have hno : ∀ word ∈ jsonWords, ¬ word.isPrefixOf (c :: rest) = true := fun word hword =>
    mt List.isPrefixOf_iff_prefix.mp (hnone word hword)
  have hboolean : valueLen .boolean (c :: rest) = 0 := by
    rw [valueLen, if_neg, if_neg]
    · exact not_or.mpr ⟨hno Ram.falseWord (by decide), hno Ram.falseCapital (by decide)⟩
    · exact not_or.mpr ⟨hno Ram.trueWord (by decide), hno Ram.trueCapital (by decide)⟩
  have hnull : valueLen .null (c :: rest) = 0 := by
    rw [valueLen, if_neg]
    exact not_or.mpr ⟨hno Ram.nullWord (by decide), hno Ram.nullCapital (by decide)⟩
  simp only [wordStarts, List.mem_cons, List.not_mem_nil, or_false] at h
  rcases h with rfl | rfl | rfl | rfl | rfl | rfl
  · exact ⟨.boolean, by decide, rfl, hboolean⟩
  · exact ⟨.boolean, by decide, rfl, hboolean⟩
  · exact ⟨.boolean, by decide, rfl, hboolean⟩
  · exact ⟨.boolean, by decide, rfl, hboolean⟩
  · exact ⟨.null, by decide, rfl, hnull⟩
  · exact ⟨.null, by decide, rfl, hnull⟩

/-- **Behind a value** it goes on where the text says. -/
theorem next_of_passed {value rest : Text} (h : Passed value rest) (name : Text) :
    ∃ v, valueStart value = some v ∧ (NextObject.mk name v.1 v.2).next = some rest := by
  cases h with
  | string hbody => exact ⟨_, rfl, next_string hbody⟩
  | @enclosed o c inner rest hmark hinner =>
    obtain ⟨hne, type, htype, hstart, hlen⟩ := valueStart_mark hmark (inner ++ rest)
    exact ⟨_, hstart, next_eq_append (o :: inner) htype
      ((hlen _).trans (markLen_enclosed hne hinner rest))⟩
  | @unclosed o c inner hmark hinner =>
    obtain ⟨hne, type, htype, hstart, hlen⟩ := valueStart_mark hmark inner
    refine ⟨_, hstart, next_eq_self htype ?_⟩
    rw [hlen]
    rcases markLen_cases hne inner 1 0 with hzero | ⟨front, behind, hsplit, hpre, hcount⟩
    · exact hzero
    · exact absurd (enclosed_of_counts hne hpre hcount) (hinner front behind hsplit)
  | @number c digits rest hc hdigits hrest =>
    refine ⟨_, valueStart_number hc _, next_eq_append (c :: digits) JsonType.noConfusion ?_⟩
    refine (numberLen_append rest hdigits).trans ((numberLen_ends hrest _).trans ?_)
    rw [List.length_cons, Nat.add_comm]
  | word hword =>
    obtain ⟨type, htype, hstart, hlen⟩ := valueStart_known hword rest
    exact ⟨_, hstart, next_eq_append _ htype hlen⟩
  | @noWord c rest hc hnone =>
    obtain ⟨type, htype, hstart, hlen⟩ := valueStart_unknown hc hnone
    exact ⟨_, hstart, next_eq_self htype hlen⟩

/-- It goes on in the string, unless the value is a quote and nothing else; where it goes on in front of
another name, it has gone past the value. -/
theorem next_cases {value val : Text} {type : JsonType} (hvalue : ∃ c w, value = c :: w ∧ StartsValue c)
    (hstart : valueStart value = some (type, val)) (name : Text) :
    value = [34] ∨ ∃ rest, (NextObject.mk name type val).next = some rest ∧
      (34 ∈ rest → Passed value rest) := by
  obtain ⟨c, w, rfl, hc⟩ := hvalue
  -- what has been gone past is told by the text, and the type and the value found are its
  have hpassed : ∀ rest, Passed (c :: w) rest → ∃ rest, (NextObject.mk name type val).next = some rest ∧
      (34 ∈ rest → Passed (c :: w) rest) := by
    intro rest h
    obtain ⟨v, hv, hnext⟩ := next_of_passed h name
    cases hstart.symm.trans hv
    exact ⟨rest, hnext, fun _ => h⟩
  have hmarks : ∀ c', (c, c') ∈ markPairs → ∃ rest, Passed (c :: w) rest := by
    intro c' hmark
    by_cases hinner : ∃ front behind, w = front ++ behind ∧ Enclosed c c' (c :: front)
    · obtain ⟨front, behind, rfl, hinner⟩ := hinner
      exact ⟨behind, .enclosed hmark hinner⟩
    · exact ⟨c :: w, .unclosed hmark fun front behind hsplit henclosed =>
        hinner ⟨front, behind, hsplit, henclosed⟩⟩
  have hwords : c ∈ wordStarts → ∃ rest, Passed (c :: w) rest := by
    intro hc
    by_cases hword : ∃ word ∈ jsonWords, word <+: c :: w
    · obtain ⟨word, hword, rest, hsplit⟩ := hword
      exact ⟨rest, hsplit ▸ .word hword⟩
    · exact ⟨c :: w, .noWord hc fun word hmem hprefix => hword ⟨word, hmem, hprefix⟩⟩
  rcases hc with rfl | rfl | rfl | hc | hc | hc
  · obtain ⟨rfl, rfl⟩ : .string = type ∧ w = val := Prod.mk.inj (Option.some.inj hstart)
    rcases stringLen_cases w 34 0 0 with ⟨body, rest, rfl, hbody⟩ | ⟨hquiet, hlen⟩ |
      ⟨front, behind, rfl, hquiet, hlen⟩
    · exact .inr (hpassed rest (.string hbody))
    · cases w with
      | nil => exact .inl rfl
      | cons c w =>
        have hskip : (NextObject.mk name .string (c :: w)).skip = 1 := congrArg (· + 1) hlen
        exact .inr ⟨w, next_eq_drop hskip (Nat.succ_le_succ (Nat.zero_le _)),
          fun hmem => absurd (List.mem_cons_of_mem c hmem) hquiet⟩
    · have hskip : (NextObject.mk name .string (front ++ 34 :: behind)).skip = front.length + 1 :=
        congrArg (· + 1) (hlen.trans (Nat.zero_add _))
      have hlength : front.length + 1 ≤ (front ++ 34 :: behind).length := by
        rw [List.length_append, List.length_cons]
        omega
      refine .inr ⟨behind, ?_, fun hmem => absurd hmem hquiet⟩
      rw [next_eq_drop hskip hlength, List.drop_append, List.drop_of_length_le (Nat.le_succ _),
        Nat.add_sub_cancel_left]
      rfl
  · obtain ⟨rest, h⟩ := hmarks 125 (by decide)
    exact .inr (hpassed rest h)
  · obtain ⟨rest, h⟩ := hmarks 93 (by decide)
    exact .inr (hpassed rest h)
  · have hdigit : c = 45 ∨ isDigit c = true := hc.imp_right fun h => by
      rw [isDigit, Bool.and_eq_true, decide_eq_true_iff, decide_eq_true_iff]
      exact h
    cases hstart.symm.trans (valueStart_number hdigit w)
    obtain ⟨digits, rest, rfl, hdigits, hrest | ⟨rfl, hlen⟩⟩ := numberLen_cases w 1
    · exact .inr (hpassed rest (.number hdigit hdigits hrest))
    · refine .inr ⟨_, next_eq_self (by decide) hlen, fun hmem => ?_⟩
      rw [List.append_nil] at hmem
      rcases List.mem_cons.mp hmem with rfl | hmem
      · exact absurd hdigit (by decide)
      · exact absurd (hdigits 34 hmem) (by decide)
  · obtain ⟨rest, h⟩ := hwords (by rcases hc with rfl | rfl | rfl | rfl <;> decide)
    exact .inr (hpassed rest h)
  · obtain ⟨rest, h⟩ := hwords (by rcases hc with rfl | rfl <;> decide)
    exact .inr (hpassed rest h)

/-! ## Members in memory -/

/-- The name, the value and the pointer that is returned lie in the string or at its end. -/
structure InBounds (n : Nat) (o : NextAt) : Prop where
  key : o.key + o.keyLen ≤ n
  val : o.val + o.valLen ≤ n
  next : o.next ≤ n

open Ram

section

variable {ram : Ram} {p : Nat} {t rest : Text} {o : NextObject}

theorem key_le (h : jsonGetNextObject t = some o) :
    o.key.length ≤ (keyAt t).length ∧ (keyAt t).length ≤ t.length := by
  obtain ⟨opening, hopening, h⟩ := Option.bind_eq_some_iff.mp h
  obtain ⟨closing, hclosing, h⟩ := Option.bind_eq_some_iff.mp h
  obtain ⟨value, -, rfl⟩ := Option.map_eq_some_iff.mp h
  have hkey : keyAt t = opening.tail := by
    rw [keyAt, hopening]
    rfl
  rw [hkey]
  exact ⟨(List.take_prefix _ _).length_le, ((List.tail_suffix opening).trans
    (strchr_suffix hopening)).length_le⟩

/-- The pointer that is returned, for what lies behind it. -/
theorem skip_of_next (hnext : o.next = some rest) :
    o.skip ≤ o.val.length ∧ rest = o.val.drop o.skip := by
  unfold NextObject.next at hnext
  split at hnext
  · rename_i hle
    exact ⟨hle, (Option.some.inj hnext).symm⟩
  · cases hnext

theorem valLen_le_skip (o : NextObject) : o.valLen ≤ o.skip := by
  unfold NextObject.skip
  split
  · exact Nat.le_succ _
  · exact Nat.le_refl _

/-- **A member** lies in the string if the scanner goes on in it. -/
theorem locate_inBounds (h : jsonGetNextObject t = some o) (hnext : o.next = some rest) :
    InBounds (p + t.length) (locate p t o) := by
  obtain ⟨hkey, hname⟩ := key_le h
  obtain ⟨hskip, -⟩ := skip_of_next hnext
  have hval := length_val_lt h
  have hlen := valLen_le_skip o
  refine ⟨?_, ?_, ?_⟩
  · change p + (t.length - (keyAt t).length) + o.key.length ≤ _
    omega
  · change p + (t.length - o.val.length) + o.valLen ≤ _
    omega
  · change p + (t.length - o.val.length) + o.skip ≤ _
    omega

/-- What it goes on with is the end of the string. -/
theorem at_next (hat : ram.At p t) (h : jsonGetNextObject t = some o) (hnext : o.next = some rest) :
    rest.length < t.length ∧ (locate p t o).next + rest.length = p + t.length ∧
      ram.At (locate p t o).next rest := by
  obtain ⟨hskip, rfl⟩ := skip_of_next hnext
  have hval := length_val_lt h
  have hsuffix : o.val.drop o.skip <:+ t :=
    (List.drop_suffix _ _).trans ((val_suffix h).trans (List.tail_suffix t))
  have hplace : (locate p t o).next = p + (t.length - (o.val.drop o.skip).length) := by
    change p + (t.length - o.val.length) + o.skip = _
    rw [List.length_drop]
    omega
  rw [hplace]
  refine ⟨length_next_lt h hnext, ?_, hat.suffix hsuffix⟩
  rw [List.length_drop]
  omega

end

/-- One turn of the loop, at a string. -/
theorem forEachKv_turn {ram : Ram} {finish : Nat → Bool} {fuel turns calls p : Nat} {ret : Int}
    {t : Text}
    (hat : ram.At p t) (hne : t ≠ []) (hfuel : t.length < fuel) :
    forEachKv ram finish fuel (turns + 1) calls ret p =
      match jsonGetNextObject t with
      | none => some (ret, [])
      | some o =>
        if o.key.length ≠ 0 ∧ o.valLen ≠ 0 then
          if finish calls then some (jsonResultOk, [locate p t o])
          else (forEachKv ram finish fuel turns (calls + 1) jsonResultOk (locate p t o).next).map
            fun r => (r.1, locate p t o :: r.2)
        else (forEachKv ram finish fuel turns calls ret (locate p t o).next).map
          fun r => (r.1, locate p t o :: r.2) := by
  cases t with
  | nil => exact absurd rfl hne
  | cons c t =>
    rw [forEachKv, hat.1, Option.bind_some, if_neg hat.2.1, nextObjectAt_eq hat hfuel, Option.bind_some]
    cases jsonGetNextObject (c :: t) with
    | none => rfl
    | some o => rfl

/-- **All members** lie in the string if none is a quote at its end. -/
theorem forEachKv_inBounds {ram : Ram} {fuel turns p : Nat} {t : Text} (finish : Nat → Bool) (calls : Nat)
    (ret : Int) (hat : ram.At p t) (hsafe : ¬ DanglesFrom t) (hfuel : t.length < fuel)
    (hturns : t.length < turns) : ∃ r, forEachKv ram finish fuel turns calls ret p = some r ∧
      ∀ o ∈ r.2, InBounds (p + t.length) o := by
  induction turns generalizing calls p ret t with
  | zero => cases hturns
  | succ turns ih =>
    have hdone : ∀ ret : Int, ∃ r, some (ret, ([] : List NextAt)) = some r ∧
        ∀ o ∈ r.2, InBounds (p + t.length) o := fun ret =>
      ⟨_, rfl, fun o ho => absurd ho List.not_mem_nil⟩
    by_cases hne : t = []
    · subst hne
      rw [forEachKv, hat.stop, Option.bind_some, if_pos rfl]
      exact hdone ret
    rw [forEachKv_turn hat hne hfuel]
    cases ho : jsonGetNextObject t with
    | none => exact hdone ret
    | some o =>
      obtain ⟨value, gap, name, between, behind, hhead, hstart⟩ := head_of_nextObject ho
      rcases next_cases hhead.value hstart o.key with rfl | ⟨rest, hnext, hpassed⟩
      · exact absurd ⟨t, gap, name, between, behind, .refl, hhead⟩ hsafe
      · obtain ⟨hlt, hend, hat'⟩ := at_next hat ho hnext
        have hsafe' : ¬ DanglesFrom rest := by
          rintro ⟨last, gap', name', between', behind', hpath, hlast⟩
          have hquote : 34 ∈ rest := by
            rcases hpath.cases_head with rfl | ⟨_, ⟨_, _, _, _, _, hhead', -⟩, -⟩
            · rw [hlast.text]
              simp only [List.mem_append, List.mem_cons, true_or, or_true]
            · rw [hhead'.text]
              simp only [List.mem_append, List.mem_cons, true_or, or_true]
          exact hsafe ⟨last, gap', name', between', behind',
            .head ⟨value, gap, name, between, behind, hhead, hpassed hquote⟩ hpath, hlast⟩
        have hmember := locate_inBounds (p := p) ho hnext
        have hrest : ∀ calls ret, ∃ r, (forEachKv ram finish fuel turns calls ret
          (locate p t o).next).map
            (fun r => (r.1, locate p t o :: r.2)) = some r ∧ ∀ o ∈ r.2, InBounds (p + t.length) o := by
          intro calls ret
          obtain ⟨r, hr, hall⟩ := ih calls ret hat' hsafe' (by omega) (by omega)
          rw [hr, Option.map_some]
          exact ⟨_, rfl, List.forall_mem_cons.mpr ⟨hmember, hend ▸ hall⟩⟩
        simp only
        split_ifs
        · exact ⟨_, rfl, List.forall_mem_singleton.mpr hmember⟩
        · exact hrest _ _
        · exact hrest _ _

/-- A callback that never ends the loop: what is listed behind a member is what the loop lists from there. -/
theorem forEachKv_rest {ram : Ram} {fuel turns calls p : Nat} {ret : Int} {t : Text} {o : NextObject}
    {r : Int × List NextAt} (hat : ram.At p t) (ho : jsonGetNextObject t = some o)
    (hfuel : t.length < fuel) (hr : forEachKv ram (fun _ => false) fuel turns calls ret p = some r) :
    ∃ turns' calls' ret' r',
      forEachKv ram (fun _ => false) fuel turns' calls' ret' (locate p t o).next = some r' ∧
      r.2 = locate p t o :: r'.2 := by
  have hne : t ≠ [] := by
    rintro rfl
    cases ho
  cases turns with
  | zero => cases hr
  | succ turns =>
    rw [forEachKv_turn hat hne hfuel, ho] at hr
    simp only [Bool.false_eq_true, if_false] at hr
    split at hr
    · obtain ⟨r', hr', rfl⟩ := Option.map_eq_some_iff.mp hr
      exact ⟨turns, calls + 1, jsonResultOk, r', hr', rfl⟩
    · obtain ⟨r', hr', rfl⟩ := Option.map_eq_some_iff.mp hr
      exact ⟨turns, calls, ret, r', hr', rfl⟩

/-- **Behind a quote at the end** the pointer leaves the string. -/
theorem forEachKv_dangles {ram : Ram} {fuel turns calls p : Nat} {ret : Int} {t : Text}
    {r : Int × List NextAt} (hat : ram.At p t) (hdangles : DanglesFrom t) (hfuel : t.length < fuel)
    (hr : forEachKv ram (fun _ => false) fuel turns calls ret p = some r) :
    ∃ o ∈ r.2, o.next = p + t.length + 1 := by
  obtain ⟨last, gap, name, between, behind, hpath, hlast⟩ := hdangles
  induction hpath using Relation.ReflTransGen.head_induction_on generalizing p turns calls ret r with
  | refl =>
    have ho : jsonGetNextObject last = some ⟨name, .string, []⟩ := nextObject_of_head hlast
    obtain ⟨_, _, _, r', -, hlist⟩ := forEachKv_rest hat ho hfuel hr
    exact ⟨_, hlist ▸ List.mem_cons_self, rfl⟩
  | head hstep _ ih =>
    obtain ⟨value, gap', name', between', behind', hhead, hpassed⟩ := hstep
    obtain ⟨v, hv, hnext⟩ := next_of_passed hpassed name'
    have ho := nextObject_of_head hhead
    rw [hv, Option.map_some] at ho
    obtain ⟨hlt, hend, hat'⟩ := at_next hat ho hnext
    obtain ⟨_, _, _, r', hr', hlist⟩ := forEachKv_rest hat ho hfuel hr
    obtain ⟨o, hmem, ho'⟩ := ih hat' (by omega) hr'
    exact ⟨o, hlist ▸ List.mem_cons_of_mem _ hmem, ho'.trans (congrArg (· + 1) hend)⟩

/-! ## The whole string -/

/-- The memory of a string: its characters and its terminator, and nothing else. -/
def ramOf (s : Text) : Ram := fun i => (s ++ [0])[i]?

/-- What stands at an offset, told character by character. -/
theorem at_of_chars {ram : Ram} {t : Text} (hzero : 0 ∉ t) {p : Nat}
    (hchars : ∀ i < t.length, ram (p + i) = t[i]?) (hend : ram (p + t.length) = some 0) :
      ram.At p t := by
  induction t generalizing p with
  | nil => exact hend
  | cons c t ih =>
    rw [List.mem_cons, not_or] at hzero
    refine ⟨hchars 0 (Nat.succ_pos _), Ne.symm hzero.1, ih hzero.2 (fun i hi => ?_) ?_⟩
    · have h := hchars (i + 1) (Nat.succ_lt_succ hi)
      rwa [show p + (i + 1) = p + 1 + i by omega, List.getElem?_cons_succ] at h
    · rwa [List.length_cons, show p + (t.length + 1) = p + 1 + t.length by omega] at hend

theorem at_ramOf {s : Text} (hstr : 0 ∉ s) : (ramOf s).At 0 s := by
  refine at_of_chars hstr (fun i hi => ?_) ?_
  · rw [Nat.zero_add, ramOf, List.getElem?_append_left hi]
  · rw [Nat.zero_add, ramOf, List.getElem?_append_right (Nat.le_refl _), Nat.sub_self]
    rfl

/-- The string ended at a length. -/
theorem at_cut {s : Text} (hstr : 0 ∉ s) {len : Nat} (hle : len ≤ s.length) :
    ((ramOf s).write len 0).At 0 (s.take len) := by
  have hlen : (s.take len).length = len := List.length_take_of_le hle
  refine at_of_chars (fun hmem => hstr (List.mem_of_mem_take hmem)) (fun i hi => ?_) ?_
  · rw [hlen] at hi
    rw [Nat.zero_add, Ram.write, if_neg (Nat.ne_of_lt hi), ramOf, List.getElem?_take_of_lt hi,
      List.getElem?_append_left (by omega)]
  · rw [hlen, Nat.zero_add, Ram.write, if_pos rfl]

/-- Where the members of a string start. -/
theorem getObject_eq_some {s pos : Text} (h : jsonGetObject s = some pos) :
    ∃ spaces t, s = spaces ++ 123 :: t ∧ (∀ b ∈ spaces, b = 32) ∧ pos = 123 :: t := by
  induction s with
  | nil => cases h
  | cons c s ih =>
    rw [jsonGetObject] at h
    split at h
    · rename_i hspace
      obtain ⟨spaces, t, rfl, hspaces, rfl⟩ := ih h
      exact ⟨c :: spaces, t, rfl, List.forall_mem_cons.mpr ⟨hspace, hspaces⟩, rfl⟩
    split at h
    · rename_i hopen
      cases h
      exact ⟨[], s, by rw [hopen]; rfl, fun b hb => absurd hb List.not_mem_nil, by rw [hopen]⟩
    · cases h

theorem forEachFrom_inBounds {ram : Ram} {s : Text} (hat : ram.At 0 s) (hsafe : ¬ Dangling s)
    (finish : Nat → Bool) {fuel : Nat} (hfuel : s.length < fuel) :
    ∃ r, forEachFrom ram finish fuel = some r ∧ ∀ o ∈ r.2, InBounds s.length o := by
  rw [forEachFrom, getObjectAt_eq hat hfuel, Option.bind_some]
  cases hpos : jsonGetObject s with
  | none => exact ⟨_, rfl, fun o ho => absurd ho List.not_mem_nil⟩
  | some pos =>
    have hsuffix := jsonGetObject_suffix hpos
    have hle := hsuffix.length_le
    obtain ⟨spaces, t, rfl, hspaces, rfl⟩ := getObject_eq_some hpos
    obtain ⟨r, hr, hall⟩ := forEachKv_inBounds finish 0 jsonResultErr
      (hat.suffix hsuffix) (fun h => hsafe ⟨spaces, t, rfl, hspaces, h⟩) (Nat.lt_of_le_of_lt hle hfuel)
      (Nat.lt_of_le_of_lt hle hfuel)
    refine ⟨r, hr, ?_⟩
    rwa [Nat.zero_add, Nat.sub_add_cancel hle] at hall

theorem forEachFrom_dangles {ram : Ram} {s : Text} (hat : ram.At 0 s) (hdangling : Dangling s)
    {fuel : Nat} (hfuel : s.length < fuel) {r : Int × List NextAt}
    (hr : forEachFrom ram (fun _ => false) fuel = some r) : ∃ o ∈ r.2, o.next = s.length + 1 := by
  obtain ⟨spaces, t, rfl, hspaces, hdangles⟩ := hdangling
  have hpos : jsonGetObject (spaces ++ 123 :: t) = some (123 :: t) := jsonGetObject_spaces _ hspaces
  have hsuffix := jsonGetObject_suffix hpos
  have hle := hsuffix.length_le
  rw [forEachFrom, getObjectAt_eq hat hfuel, Option.bind_some, hpos] at hr
  obtain ⟨o, hmem, ho⟩ := forEachKv_dangles (hat.suffix hsuffix) hdangles
    (Nat.lt_of_le_of_lt hle hfuel) hr
  rw [Nat.zero_add, Nat.sub_add_cancel hle] at ho
  exact ⟨o, hmem, ho⟩

/-- The iteration over the members ends, reads nothing but the string and its terminator, and hands out
nothing that lies elsewhere; whenever the caller leaves the loop. -/
def IterationInBounds (s : Text) : Prop :=
  ∀ finish, ∃ enough, ∀ fuel, enough ≤ fuel →
    ∃ r, forEachFrom (ramOf s) finish fuel = some r ∧ ∀ o ∈ r.2, InBounds s.length o

/-- So does `json_parse_name_value`, in the string it is given the length of. -/
def ParseInBounds (s : Text) (iStrLen : Nat) : Prop :=
  ∀ cb, ∃ enough, ∀ fuel, enough ≤ fuel →
    ∃ ret members ram, jsonParseNameValue (ramOf s) fuel iStrLen cb = some (ret, members, ram) ∧
      ∀ o ∈ members, InBounds iStrLen o

theorem iterationInBounds_iff {s : Text} (hstr : 0 ∉ s) : IterationInBounds s ↔ ¬ Dangling s := by
  constructor
  · intro h hdangling
    obtain ⟨enough, h⟩ := h fun _ => false
    obtain ⟨r, hr, hall⟩ := h (max enough (s.length + 1)) (Nat.le_max_left _ _)
    obtain ⟨o, hmem, ho⟩ := forEachFrom_dangles (at_ramOf hstr) hdangling
      (Nat.lt_of_succ_le (Nat.le_max_right enough (s.length + 1))) hr
    have hbound := (hall o hmem).next
    omega
  · intro hsafe finish
    exact ⟨s.length + 1, fun fuel hfuel => forEachFrom_inBounds (at_ramOf hstr) hsafe finish hfuel⟩

/-- What `json_parse_name_value` scans: the string, ended at the length. -/
theorem parse_eq {s : Text} (hstr : 0 ∉ s) {iStrLen fuel : Nat} (hlen : iStrLen ≠ 0)
    (hle : iStrLen ≤ s.length)
    (hfuel : s.length < fuel) (finish : Nat → Bool) : ∃ ram : Ram, ram.At 0 (s.take iStrLen) ∧
      ((jsonParseNameValue (ramOf s) fuel iStrLen (some finish)).map fun r => (r.1, r.2.1)) =
        ram.forEachFrom finish fuel := by
  rw [jsonParseNameValue, if_neg hlen, strlenAt_eq (at_ramOf hstr) hfuel, Option.bind_some]
  by_cases heq : iStrLen = s.length
  · refine ⟨ramOf s, ?_, ?_⟩
    · rw [heq, List.take_length]
      exact at_ramOf hstr
    · rw [if_neg (not_not.mpr heq), Option.bind_some, strlenAt_eq (at_ramOf hstr) hfuel]
      cases (ramOf s).forEachFrom finish fuel <;> rfl
  · have hcut := at_cut hstr hle
    refine ⟨_, hcut, ?_⟩
    have hread : ramOf s iStrLen = s[iStrLen]? := List.getElem?_append_left (by omega)
    rw [if_pos heq, hread, List.getElem?_eq_getElem (by omega), Option.map_some, Option.bind_some,
      strlenAt_eq hcut (by
      rw [List.length_take]
      omega)]
    cases ((ramOf s).write iStrLen 0).forEachFrom finish fuel <;> rfl

theorem parseInBounds_iff {s : Text} (hstr : 0 ∉ s) (iStrLen : Nat) :
    ParseInBounds s iStrLen ↔ iStrLen = 0 ∨ iStrLen ≤ s.length ∧ ¬ Dangling (s.take iStrLen) := by
  constructor
  · intro h
    by_contra hno
    rw [not_or, not_and_not_right] at hno
    obtain ⟨enough, h⟩ := h (some fun _ => false)
    obtain ⟨ret, members, ram, hparse, hall⟩ := h (max enough (s.length + 1)) (Nat.le_max_left _ _)
    have hfuel : s.length < max enough (s.length + 1) := Nat.lt_of_succ_le (Nat.le_max_right _ _)
    by_cases hle : iStrLen ≤ s.length
    · obtain ⟨cut, hat, hscan⟩ := parse_eq hstr hno.1 hle hfuel fun _ => false
      have hlen : (s.take iStrLen).length = iStrLen := List.length_take_of_le hle
      rw [hparse, Option.map_some] at hscan
      obtain ⟨o, hmem, ho⟩ := forEachFrom_dangles hat (hno.2 hle) (by omega) hscan.symm
      have hbound := (hall o hmem).next
      omega
    · -- the character at the length is read and written
      have hread : ramOf s iStrLen = none :=
        List.getElem?_eq_none (by rw [List.length_append, List.length_singleton]; omega)
      rw [jsonParseNameValue, if_neg hno.1, strlenAt_eq (at_ramOf hstr) hfuel, Option.bind_some,
        if_pos (by omega), hread] at hparse
      cases hparse
  · intro h cb
    refine ⟨s.length + 1, fun fuel hfuel => ?_⟩
    cases cb with
    | none => exact ⟨_, _, _, rfl, fun o ho => absurd ho List.not_mem_nil⟩
    | some finish =>
      rcases eq_or_ne iStrLen 0 with rfl | hlen
      · exact ⟨jsonResultErr, [], ramOf s, by rw [jsonParseNameValue, if_pos rfl],
          fun o ho => absurd ho List.not_mem_nil⟩
      · obtain ⟨hle, hsafe⟩ := h.resolve_left hlen
        obtain ⟨cut, hat, hscan⟩ := parse_eq hstr hlen hle (Nat.lt_of_succ_le hfuel) finish
        have htake : (s.take iStrLen).length = iStrLen := List.length_take_of_le hle
        have hshort : (s.take iStrLen).length < fuel := by omega
        obtain ⟨r, hr, hall⟩ := forEachFrom_inBounds hat hsafe finish hshort
        rw [hr] at hscan
        obtain ⟨⟨ret, members, ram⟩, hparse, rfl⟩ := Option.map_eq_some_iff.mp hscan
        exact ⟨ret, members, ram, hparse, htake ▸ hall⟩

/-- **The scanner keeps to the string** iff no members lead to a value that is a quote at its end, neither
in the string nor in what the length given leaves of it, and that length is not that of more than the
string. -/
theorem inBounds_iff {s : Text} (hstr : 0 ∉ s) (iStrLen : Nat) :
    IterationInBounds s ∧ ParseInBounds s iStrLen ↔
      ¬ Dangling s ∧ (iStrLen = 0 ∨ iStrLen ≤ s.length ∧ ¬ Dangling (s.take iStrLen)) :=
  and_congr (iterationInBounds_iff hstr) (parseInBounds_iff hstr iStrLen)

/-- The object `{"a":1}`. -/
theorem closed_inBounds : 0 ∉ ([123, 34, 97, 34, 58, 49, 125] : Text) ∧
    IterationInBounds [123, 34, 97, 34, 58, 49, 125] ∧
      ParseInBounds [123, 34, 97, 34, 58, 49, 125] 7 := by
  have hsafe : ¬ Dangling [123, 34, 97, 34, 58, 49, 125] := fun h =>
    absurd h.getLast? (by decide)
  have hparts := (inBounds_iff (by decide) 7).mpr ⟨hsafe, .inr ⟨by decide, hsafe⟩⟩
  exact ⟨by decide, hparts.1, hparts.2⟩

/-- The string `{"a":"`, cut behind the quote of a value. -/
def cutBehindQuote : Text := [123, 34, 97, 34, 58, 34]

/-- The pointer that is returned lies behind the terminator at 6. -/
theorem cutBehindQuote_leaves : 0 ∉ cutBehindQuote ∧
    (ramOf cutBehindQuote).nextObjectAt 7 0 = some (some ⟨2, 1, .string, 6, 0, 7⟩) ∧
    ¬ (IterationInBounds cutBehindQuote ∧ ParseInBounds cutBehindQuote cutBehindQuote.length) := by
  have hdangling : Dangling cutBehindQuote := by
    refine ⟨[], [34, 97, 34, 58, 34], rfl, fun b hb => absurd hb List.not_mem_nil, ?_⟩
    exact ⟨_, [123], [97], [], [], .refl, rfl, by decide, by decide, by decide,
      fun b hb => absurd hb List.not_mem_nil, 34, [], rfl, by decide⟩
  exact ⟨by decide, by decide, fun h => (iterationInBounds_iff (by decide)).mp h.1 hdangling⟩

end QcloudIot.Utils
