import Mathlib.Data.List.TakeWhile
import QcloudIot.Lib.Levels
import QcloudIot.Mqtt.Wire

/-!
# Matching a topic name against a subscribed filter

`_is_topic_equals` and `_is_topic_matched` (`mqtt_client_common.c`) and the disjunction of the two
that `_deliver_message` decides by, against the MQTT 3.1.1 rule on levels.

The matcher walks the two strings together. It stops where they differ or where one ends, and
then judges by the two filter characters at hand and the last name character. That judgement
sees neither whether the name's level has ended nor whether more filter levels follow, so it
accepts two kinds of names the rule does not (`Overmatched`):
* the filter ends in `l/#` and the name's level only begins with the literal level `l`
  (`ab/#` accepts `abc`);
* the name ends in `/` at a `+` of the filter that further levels follow (`a/+/b` accepts `a/`).

* `isTopicMatchedLoop_eq`: the walk computes `looseMatch` of the remaining levels.
* `looseMatch_iff`: on levels it accepts what the rule accepts, and the overmatched pairs.
* **`topicDecision_iff`**: for every valid filter and every name the decision is the rule's iff
  the pair is not of those kinds.
-/

namespace QcloudIot.Mqtt

open QcloudIot.Lib

/-! ## The rule on levels -/

/-- `'/'`. -/
def slash : UInt8 := 47

/-- `'+'`. -/
def plus : UInt8 := 43

/-- `'#'`. -/
def hash : UInt8 := 35

/-- The levels of a filter or a name. -/
def levels (s : Bytes) : List Bytes := s.splitOn slash

/-- **The MQTT 3.1.1 rule**: a literal level matches the identical level, `+` any one level, and
a final `#` the parent level and any number of further levels. -/
def levelsMatch : List Bytes → List Bytes → Bool
  | [], ms => ms.isEmpty
  | l :: fs, ms =>
    (l == [hash] && fs.isEmpty) ||
      match ms with
      | [] => false
      | m :: ms => (l == [plus] || l == m) && levelsMatch fs ms

/-- A filter level other than a final `#`: `+` alone, or no wildcard character. -/
def LevelOk (l : Bytes) : Prop := l = [plus] ∨ (plus ∉ l ∧ hash ∉ l)

/-- `+` only as a whole level, `#` only as the whole last level. -/
def LevelsOk : List Bytes → Prop
  | [] => True
  | [l] => l = [hash] ∨ LevelOk l
  | l :: fs => LevelOk l ∧ LevelsOk fs

/-- A syntactically valid topic filter, as a C string. -/
structure TopicFilter where
  bytes : Bytes
  noNul : 0 ∉ bytes
  ok : LevelsOk (levels bytes)

/-- A topic name: not empty, no wildcard characters, a C string whose length a PUBLISH packet can
carry. -/
structure TopicName where
  bytes : Bytes
  noNul : 0 ∉ bytes
  ne_nil : bytes ≠ []
  noWildcard : plus ∉ bytes ∧ hash ∉ bytes
  length_lt : bytes.length < 2 ^ 16

/-! ## The code -/

/-- The C string at a pointer: what precedes the first NUL. The end of the list is one. -/
def cString (s : Bytes) : Bytes := s.takeWhile (· != 0)

/-- `_is_topic_equals`. -/
def isTopicEquals (topicFilter topicName : Bytes) : Bool :=
  (cString topicFilter).length == (cString topicName).length &&
    cString topicFilter == cString topicName

/-- The test after the loop of `_is_topic_matched`, `*curf` not NUL: `curf :: curf'` are the filter
characters from `curf` on (NUL after the last), `before` is `*(curn - 1)`. -/
def matchedAtExit (before curf : UInt8) (curf' : Bytes) : Bool :=
  curf == hash || curf'.headD 0 == hash || (curf == plus && before == slash)

/-- The loop of `_is_topic_matched`: the filter from `curf` on, the name from `curn` on, and the
byte before `curn`. -/
def isTopicMatchedLoop : (before : UInt8) → (curf curn : Bytes) → Bool
  | _, [], curn => curn.isEmpty
  | before, f :: curf, [] => matchedAtExit before f curf
  | before, f :: curf, n :: curn =>
    if f = plus ∧ n = slash then isTopicMatchedLoop before curf (n :: curn)
    else if n = slash ∧ f ≠ slash then matchedAtExit before f curf
    else if f ≠ plus ∧ f ≠ hash ∧ f ≠ n then matchedAtExit before f curf
    else if f = plus then
      -- `curn` moves to the last character of its level, then both pointers advance
      isTopicMatchedLoop ((n :: curn.takeWhile (· != slash)).getLastD 0) curf
        (curn.dropWhile (· != slash))
    else if f = hash then
      -- `curn = curn_end - 1`, then both pointers advance
      isTopicMatchedLoop ((n :: curn).getLastD 0) curf []
    else isTopicMatchedLoop n curf curn

/-- `_is_topic_matched`; `before` is the byte in front of the name's buffer. -/
def isTopicMatched (before : UInt8) (topicFilter topicName : Bytes) (topicNameLen : UInt16) :
    Bool :=
  isTopicMatchedLoop before topicFilter (topicName.take topicNameLen.toNat)

/-- The condition under which `_deliver_message` takes a slot with filter `topicFilter`;
`topicName` are the bytes from the name's buffer on. -/
def topicDecision (before : UInt8) (topicFilter topicName : Bytes) (topicNameLen : UInt16) :
    Bool :=
  isTopicEquals topicName topicFilter || isTopicMatched before topicFilter topicName topicNameLen

/-! ## The walk, level by level -/

/-- What the walk decides on levels. -/
def looseMatch : List Bytes → List Bytes → Bool
  | [], _ => false
  | _, [] => false
  | l :: fs, m :: ms =>
    if l = [hash] then true
    else if ms.isEmpty then
      if l = [plus] then fs.isEmpty || m.isEmpty || fs == [[hash]]
      else if fs.isEmpty then l == m
      else l.isPrefixOf m && fs == [[hash]]
    else if l = [plus] ∨ l = m then looseMatch fs ms
    else l.isPrefixOf m && fs == [[hash]]

/-- What is left of a filter or a name after a level: nothing, or a separator and more levels. -/
def LevelEnd (s : Bytes) : Prop := s = [] ∨ ∃ r, s = slash :: r

/-- A literal level: no separator, no wildcard. -/
structure Literal (l : Bytes) : Prop where
  noSlash : slash ∉ l
  noPlus : plus ∉ l
  noHash : hash ∉ l

theorem Literal.tail {c : UInt8} {l : Bytes} (h : Literal (c :: l)) : Literal l :=
  ⟨fun x => h.1 (List.mem_cons_of_mem c x), fun x => h.2 (List.mem_cons_of_mem c x),
    fun x => h.3 (List.mem_cons_of_mem c x)⟩

theorem Literal.head_ne {c : UInt8} {l : Bytes} (h : Literal (c :: l)) :
    c ≠ slash ∧ c ≠ plus ∧ c ≠ hash :=
  ⟨fun e => h.1 (e ▸ List.mem_cons_self), fun e => h.2 (e ▸ List.mem_cons_self),
    fun e => h.3 (e ▸ List.mem_cons_self)⟩

theorem exit_literal {before c : UInt8} {curf : Bytes} (hp : c ≠ plus) (hh : c ≠ hash) :
    matchedAtExit before c curf = (curf.headD 0 == hash) := by
  rw [matchedAtExit, beq_false_of_ne hh, beq_false_of_ne hp, Bool.false_or, Bool.false_and,
    Bool.or_false]

theorem headD_level {l F : Bytes} (hl : Literal l) (hne : l ≠ [] ∨ LevelEnd F) :
    ((l ++ F).headD 0 == hash) = false := by
  cases l with
  | nil =>
    rcases hne with h | rfl | ⟨r, rfl⟩
    · exact absurd rfl h
    · rfl
    · rfl
  | cons c l => simpa using hl.head_ne.2.2

/-- The walk through a literal level that the name begins with. -/
theorem walk_literal {F N : Bytes} : ∀ {l : Bytes} (before : UInt8), Literal l →
    isTopicMatchedLoop before (l ++ F) (l ++ N) =
      isTopicMatchedLoop (l.getLastD before) F N := by
  intro l
  induction l with
  | nil => intro before hl; rfl
  | cons c l ih =>
    intro before hl
    obtain ⟨hs, hp, hh⟩ := hl.head_ne
    simp only [List.cons_append, isTopicMatchedLoop, hs, hp, hh, and_false, false_and, if_false,
      ne_eq, not_true_eq_false, List.getLastD_cons]
    exact ih c hl.tail

/-- The walk stops inside a literal level that the name does not begin with. -/
theorem walk_mismatch {F : Bytes} (hF : LevelEnd F) : ∀ {l n : Bytes} (before : UInt8),
    Literal l → ¬ l <+: n → isTopicMatchedLoop before (l ++ F) n = false := by
  intro l
  induction l with
  | nil => intro n before _ h; exact absurd List.nil_prefix h
  | cons c l ih =>
    intro n before hl h
    obtain ⟨hs, hp, hh⟩ := hl.head_ne
    cases n with
    | nil =>
      rw [List.cons_append, isTopicMatchedLoop, exit_literal hp hh]
      exact headD_level hl.tail (Or.inr hF)
    | cons x n =>
      have hexit : matchedAtExit before c (l ++ F) = false := by
        rw [exit_literal hp hh]
        exact headD_level hl.tail (Or.inr hF)
      by_cases hx : c = x
      · subst hx
        simp only [List.cons_append, isTopicMatchedLoop, hs, hp, hh, and_false, false_and, if_false,
          ne_eq, not_true_eq_false]
        exact ih c hl.tail fun hpre => h (List.cons_prefix_cons.mpr ⟨rfl, hpre⟩)
      · simp only [List.cons_append, isTopicMatchedLoop, hp, hh, hx, hexit, false_and, if_false,
          ne_eq, not_false_eq_true, and_self, if_true, ite_self]

/-- The walk through a `+`: to the end of the name's level. -/
theorem walk_plus {F m N : Bytes} (before : UInt8) (hm : slash ∉ m) (hN : LevelEnd N)
    (hne : m ++ N ≠ []) :
    isTopicMatchedLoop before (plus :: F) (m ++ N) =
      isTopicMatchedLoop (m.getLastD before) F N := by
  cases m with
  | nil =>
    rcases hN with rfl | ⟨r, rfl⟩
    · exact absurd rfl hne
    · simp [isTopicMatchedLoop]
  | cons c m =>
    have hc : c ≠ slash := fun e => hm (e ▸ List.mem_cons_self)
    have hm' : ∀ x ∈ m, (x != slash) = true := fun x hx => by
      simp only [bne_iff_ne, ne_eq]
      rintro rfl
      exact hm (List.mem_cons_of_mem c hx)
    have htake : (m ++ N).takeWhile (· != slash) = m ∧ (m ++ N).dropWhile (· != slash) = N := by
      rw [List.takeWhile_append_of_pos hm', List.dropWhile_append_of_pos hm']
      rcases hN with rfl | ⟨r, rfl⟩ <;> simp
    simp only [List.cons_append, isTopicMatchedLoop, hc, htake.1, htake.2, and_false, false_and,
      if_false, ne_eq, not_true_eq_false, if_true, List.getLastD_cons]

/-- A whole level of `#` accepts every name. -/
theorem walk_hash (before : UInt8) (n : Bytes) : isTopicMatchedLoop before [hash] n = true := by
  cases n with
  | nil => rfl
  | cons c n =>
    have hhp : hash ≠ plus := by decide
    have hhs : hash ≠ slash := by decide
    by_cases hc : c = slash
    · simp [isTopicMatchedLoop, hhp, hhs, hc, matchedAtExit]
    · simp [isTopicMatchedLoop, hhp, hc]

/-- After a level of each: the filter's end against the name's. -/
theorem walk_levelEnd_nil {before : UInt8} {N : Bytes} :
    isTopicMatchedLoop before [] N = N.isEmpty := by
  cases N <;> rfl

theorem walk_levelEnd_slash {before : UInt8} {F N : Bytes} :
    isTopicMatchedLoop before (slash :: F) (slash :: N) = isTopicMatchedLoop slash F N := by
  have h1 : slash ≠ plus := by decide
  have h2 : slash ≠ hash := by decide
  simp [isTopicMatchedLoop, h1, h2]

/-- The filter has a separator where the name has ended, or goes on with its level. -/
theorem walk_levelEnd_exit {before : UInt8} {F N : Bytes} (hN : ∀ r, N ≠ slash :: r) :
    isTopicMatchedLoop before (slash :: F) N = (F.headD 0 == hash) := by
  have h1 : slash ≠ plus := by decide
  have h2 : slash ≠ hash := by decide
  cases N with
  | nil => exact exit_literal h1 h2
  | cons c N =>
    have hc : slash ≠ c := fun e => hN N (e ▸ rfl)
    simp only [isTopicMatchedLoop, h1, h2, hc, false_and, and_false, if_false, ne_eq,
      not_false_eq_true, not_true_eq_false, and_self, if_true]
    exact exit_literal h1 h2

theorem LevelOk.cases {l : Bytes} (hs : slash ∉ l) (h : LevelOk l) : l = [plus] ∨ Literal l :=
  h.imp id fun ⟨hp, hh⟩ => ⟨hs, hp, hh⟩

theorem LevelOk.ne_hash {l : Bytes} (h : LevelOk l) : l ≠ [hash] := by
  rintro rfl
  rcases h with h | ⟨-, h⟩
  · exact absurd h (by decide)
  · exact h List.mem_cons_self

theorem levels_last {l : Bytes} (h : slash ∉ l) : levels l = [l] := List.splitOn_eq_singleton h

theorem levels_cons {l : Bytes} (h : slash ∉ l) (r : Bytes) :
    levels (l ++ slash :: r) = l :: levels r := List.splitOn_append_cons_self_of_not_mem h r

theorem levels_ne_nil (s : Bytes) : levels s ≠ [] := List.splitOn_ne_nil slash s

theorem levelsOk_cons {l : Bytes} {fs : List Bytes} (hne : fs ≠ []) :
    LevelsOk (l :: fs) ↔ LevelOk l ∧ LevelsOk fs := by
  cases fs with
  | nil => exact absurd rfl hne
  | cons _ _ => exact Iff.rfl

/-- In a valid filter a level that begins with `#` is the final `#`. -/
theorem headD_hash {f : Bytes} (hf : LevelsOk (levels f)) :
    (f.headD 0 == hash) = (levels f == [[hash]]) := by
  have hzero : (0 : UInt8) ≠ hash := by decide
  have hnot : ∀ {l F : Bytes}, slash ∉ l → LevelOk l → LevelEnd F →
      ((l ++ F).headD 0 == hash) = false := by
    intro l F hs hl hF
    rcases hl.cases hs with rfl | hlit
    · rfl
    · exact headD_level hlit (Or.inr hF)
  rcases level_cases slash f with hs | ⟨l, r, hs, rfl⟩
  · rw [levels_last hs] at hf ⊢
    rcases hf with rfl | hok
    · rfl
    · have h0 := hnot hs hok (Or.inl rfl)
      rw [List.append_nil] at h0
      rw [h0]
      symm
      rw [beq_eq_false_iff_ne]
      rintro e
      rw [List.cons.injEq] at e
      rw [e.1] at h0
      exact absurd h0 (by decide)
  · rw [levels_cons hs] at hf ⊢
    obtain ⟨hok, -⟩ := (levelsOk_cons (levels_ne_nil r)).mp hf
    rw [hnot hs hok (Or.inr ⟨r, rfl⟩)]
    symm
    rw [beq_eq_false_iff_ne]
    rintro e
    rw [List.cons.injEq] at e
    exact levels_ne_nil r e.2

/-- A name is its first level and what follows it. -/
theorem name_cases (n : Bytes) : ∃ m N, n = m ++ N ∧ slash ∉ m ∧
    ((N = [] ∧ levels n = [m]) ∨ ∃ r, N = slash :: r ∧ levels n = m :: levels r) := by
  rcases level_cases slash n with hs | ⟨m, r, hs, rfl⟩
  · exact ⟨n, [], by simp, hs, Or.inl ⟨rfl, levels_last hs⟩⟩
  · exact ⟨m, slash :: r, rfl, hs, Or.inr ⟨r, rfl, levels_cons hs r⟩⟩

/-- A level that the name begins with is its first level or a proper beginning of it. -/
theorem prefix_name {l m N : Bytes} (hl : slash ∉ l) (hN : LevelEnd N) (h : l <+: m ++ N) :
    l <+: m := by
  rcases hN with rfl | ⟨r, rfl⟩
  · rwa [List.append_nil] at h
  · exact prefix_of_level hl h

theorem append_ne_slash {x N : Bytes} (hx : x ≠ []) (hs : slash ∉ x) :
    ∀ r, x ++ N ≠ slash :: r := by
  intro r e
  cases x with
  | nil => exact absurd rfl hx
  | cons c x =>
    rw [List.cons_append, List.cons.injEq] at e
    exact hs (e.1 ▸ List.mem_cons_self)

/-- The walk over one literal level against one level of the name. -/
theorem walk_level {l F m N : Bytes} (before : UInt8) (hl : Literal l) (hm : slash ∉ m)
    (hF : LevelEnd F) (hN : LevelEnd N) :
    isTopicMatchedLoop before (l ++ F) (m ++ N) =
      if l = m then isTopicMatchedLoop (m.getLastD before) F N
      else l.isPrefixOf m && (F != [] && F.tail.headD 0 == hash) := by
  by_cases he : l = m
  · rw [if_pos he, ← he, walk_literal before hl]
  rw [if_neg he]
  by_cases hp : l <+: m
  · obtain ⟨x, rfl⟩ := hp
    have hx : x ≠ [] := by
      rintro rfl
      exact he (by simp)
    have hxs : slash ∉ x := fun h => hm (List.mem_append_right l h)
    rw [List.append_assoc, walk_literal before hl]
    have hpre : l.isPrefixOf (l ++ x) = true := by simp
    rw [hpre, Bool.true_and]
    rcases hF with rfl | ⟨f, rfl⟩
    · rw [walk_levelEnd_nil]
      simp [hx]
    · rw [walk_levelEnd_exit (append_ne_slash hx hxs)]
      rfl
  · have hp' : ¬ l <+: m ++ N := fun h => hp (prefix_name hl.noSlash hN h)
    have hpre : l.isPrefixOf m = false := by
      rw [Bool.eq_false_iff, ne_eq, List.isPrefixOf_iff_prefix]
      exact hp
    rw [walk_mismatch hF before hl hp', hpre, Bool.false_and]

/-- A literal level against a level of the name. -/
theorem looseMatch_literal {l : Bytes} (hl : Literal l) (fs : List Bytes) (m : Bytes)
    (ms : List Bytes) :
    looseMatch (l :: fs) (m :: ms) =
      if l = m then (if ms = [] then fs.isEmpty || fs == [[hash]] else looseMatch fs ms)
      else l.isPrefixOf m && fs == [[hash]] := by
  have hlh : l ≠ [hash] := fun e => hl.noHash (e ▸ List.mem_cons_self)
  have hlp : l ≠ [plus] := fun e => hl.noPlus (e ▸ List.mem_cons_self)
  rw [looseMatch, if_neg hlh, if_neg hlp]
  by_cases he : l = m
  · subst he
    cases ms <;> cases fs <;> simp
  · cases ms <;> cases fs <;> simp [he, hlp]

/-- A level of `+` against a level of the name. -/
theorem looseMatch_plus (fs : List Bytes) (m : Bytes) (ms : List Bytes) :
    looseMatch ([plus] :: fs) (m :: ms) =
      if ms = [] then fs.isEmpty || m.isEmpty || fs == [[hash]] else looseMatch fs ms := by
  have hph : [plus] ≠ [hash] := by decide
  rw [looseMatch, if_neg hph]
  cases ms <;> simp

/-- **The walk computes `looseMatch`** from any level on; a name that has ended there ended in
`/`. -/
theorem isTopicMatchedLoop_eq : ∀ (f : Bytes), LevelsOk (levels f) → ∀ (before : UInt8)
    (n : Bytes), (n ≠ [] ∨ before = slash) →
      isTopicMatchedLoop before f n = looseMatch (levels f) (levels n) := by
  intro f
  induction f using levels_induction slash with
  | last l hs =>
    intro hok before n hn
    rw [levels_last hs] at hok ⊢
    obtain ⟨m, N, rfl, hm, hN⟩ := name_cases n
    have hend : LevelEnd N := hN.imp And.left fun ⟨r, h, _⟩ => ⟨r, h⟩
    rcases hok with rfl | hok
    · rw [walk_hash]
      rcases hN with ⟨-, hlv⟩ | ⟨r, -, hlv⟩ <;> rw [hlv] <;> simp [looseMatch]
    rcases hok.cases hs with rfl | hlit
    · by_cases hnil : m ++ N = []
      · obtain ⟨rfl, rfl⟩ := List.append_eq_nil_iff.mp hnil
        obtain rfl : before = slash := hn.resolve_left (by simp)
        rfl
      rw [walk_plus before hm hend hnil, walk_levelEnd_nil]
      rcases hN with ⟨rfl, hlv⟩ | ⟨r, rfl, hlv⟩
      · rw [hlv, looseMatch_plus, if_pos rfl]
        rfl
      · rw [hlv, looseMatch_plus, if_neg (levels_ne_nil r), looseMatch]
        rfl
    · have hwalk := walk_level (F := []) before hlit hm (Or.inl rfl) hend
      rw [List.append_nil] at hwalk
      rw [hwalk, walk_levelEnd_nil]
      rcases hN with ⟨rfl, hlv⟩ | ⟨r, rfl, hlv⟩
      · rw [hlv, looseMatch_literal hlit, if_pos rfl]
        rfl
      · rw [hlv, looseMatch_literal hlit, if_neg (levels_ne_nil r), looseMatch]
        rfl
  | cons l f hs ih =>
    intro hok before n hn
    rw [levels_cons hs] at hok ⊢
    obtain ⟨hl, hf⟩ := (levelsOk_cons (levels_ne_nil f)).mp hok
    have hhd := headD_hash hf
    have hmore : (levels f).isEmpty = false := List.isEmpty_eq_false_iff.mpr (levels_ne_nil f)
    obtain ⟨m, N, rfl, hm, hN⟩ := name_cases n
    have hend : LevelEnd N := hN.imp And.left fun ⟨r, h, _⟩ => ⟨r, h⟩
    rcases hl.cases hs with rfl | hlit
    · by_cases hnil : m ++ N = []
      · obtain ⟨rfl, rfl⟩ := List.append_eq_nil_iff.mp hnil
        obtain rfl : before = slash := hn.resolve_left (by simp)
        have hlv : levels ([] ++ []) = [[]] := rfl
        rw [hlv, looseMatch_plus]
        simp [isTopicMatchedLoop, matchedAtExit]
      rw [List.singleton_append, walk_plus before hm hend hnil]
      rcases hN with ⟨rfl, hlv⟩ | ⟨r, rfl, hlv⟩
      · have hm0 : m.isEmpty = false := by simpa using hnil
        rw [hlv, walk_levelEnd_exit (by simp), hhd, looseMatch_plus, if_pos rfl, hmore, hm0]
        rfl
      · rw [hlv, walk_levelEnd_slash, ih hf slash r (Or.inr rfl), looseMatch_plus,
          if_neg (levels_ne_nil r)]
    · have hrest : (slash :: f != [] && (slash :: f).tail.headD 0 == hash) =
          (levels f == [[hash]]) := hhd
      rw [walk_level before hlit hm (Or.inr ⟨f, rfl⟩) hend, hrest]
      rcases hN with ⟨rfl, hlv⟩ | ⟨r, rfl, hlv⟩
      · rw [hlv, walk_levelEnd_exit (by simp), hhd, looseMatch_literal hlit, if_pos rfl, hmore]
        rfl
      · rw [hlv, walk_levelEnd_slash, ih hf slash r (Or.inr rfl), looseMatch_literal hlit,
          if_neg (levels_ne_nil r)]

/-! ## Against the rule -/

/-- **What the walk accepts beyond the rule**, by the levels of filter and name. -/
inductive Overmatched : List Bytes → List Bytes → Prop
  /-- `l/#` against a level that only begins with the literal `l`. -/
  | cutLevel {l m : Bytes} {ms : List Bytes} : l ≠ [plus] → l ≠ m → l <+: m →
      Overmatched [l, [hash]] (m :: ms)
  /-- `+` with further levels against the empty level after a final `/`. -/
  | emptyPlus {fs : List Bytes} : fs ≠ [] → fs ≠ [[hash]] → Overmatched ([plus] :: fs) [[]]
  | step {l m : Bytes} {fs ms : List Bytes} : l = [plus] ∨ l = m → Overmatched fs ms →
      Overmatched (l :: fs) (m :: ms)

theorem levelsMatch_nil {fs : List Bytes} :
    levelsMatch fs [] = true ↔ fs = [] ∨ fs = [[hash]] := by
  cases fs with
  | nil => simp [levelsMatch]
  | cons l fs => simp [levelsMatch]

/-- The rule, one level further in a valid filter. -/
theorem levelsMatch_cons {l m : Bytes} {fs ms : List Bytes} (hl : l ≠ [hash]) :
    levelsMatch (l :: fs) (m :: ms) = true ↔ (l = [plus] ∨ l = m) ∧ levelsMatch fs ms = true := by
  simp [levelsMatch, hl]

theorem levelsMatch_self (fs : List Bytes) : levelsMatch fs fs = true := by
  induction fs with
  | nil => rfl
  | cons l fs ih => simp [levelsMatch, ih]

/-- The names accepted beyond the rule do not match by it. -/
theorem Overmatched.not_levelsMatch {fs ms : List Bytes} (h : Overmatched fs ms)
    (hok : LevelsOk fs) : levelsMatch fs ms = false := by
  rw [Bool.eq_false_iff, ne_eq]
  induction h with
  | cutLevel hp hlm _ =>
    rw [levelsMatch_cons hok.1.ne_hash]
    rintro ⟨h | h, -⟩
    · exact hp h
    · exact hlm h
  | emptyPlus h0 h1 =>
    rw [levelsMatch_cons (by decide), levelsMatch_nil]
    rintro ⟨-, h | h⟩
    · exact h0 h
    · exact h1 h
  | @step l m fs ms _ hrest ih =>
    have hfs : fs ≠ [] := by cases hrest <;> simp
    obtain ⟨hl, hok⟩ := (levelsOk_cons hfs).mp hok
    rw [levelsMatch_cons hl.ne_hash]
    exact fun h => ih hok h.2

theorem Overmatched.ne_nil {fs ms : List Bytes} (h : Overmatched fs ms) : fs ≠ [] ∧ ms ≠ [] := by
  cases h <;> simp

/-- What the overmatched pairs are, one level further. -/
theorem overmatched_cons {l m : Bytes} {fs ms : List Bytes} :
    Overmatched (l :: fs) (m :: ms) ↔
      (l ≠ [plus] ∧ l ≠ m ∧ l <+: m ∧ fs = [[hash]]) ∨
      (l = [plus] ∧ m = [] ∧ ms = [] ∧ fs ≠ [] ∧ fs ≠ [[hash]]) ∨
      ((l = [plus] ∨ l = m) ∧ Overmatched fs ms) := by
  constructor
  · intro h
    cases h with
    | cutLevel hp hlm hpre => exact Or.inl ⟨hp, hlm, hpre, rfl⟩
    | emptyPlus h0 h1 => exact Or.inr (Or.inl ⟨rfl, rfl, rfl, h0, h1⟩)
    | step hl h => exact Or.inr (Or.inr ⟨hl, h⟩)
  · rintro (⟨hp, hlm, hpre, rfl⟩ | ⟨rfl, rfl, rfl, h0, h1⟩ | ⟨hl, h⟩)
    · exact .cutLevel hp hlm hpre
    · exact .emptyPlus h0 h1
    · exact .step hl h

/-- **The walk accepts what the rule accepts, and the overmatched pairs.** -/
theorem looseMatch_iff : ∀ (fs ms : List Bytes), LevelsOk fs → fs ≠ [] → ms ≠ [] →
    (looseMatch fs ms = true ↔ levelsMatch fs ms = true ∨ Overmatched fs ms)
  | [], _, _, h, _ => absurd rfl h
  | _, [], _, _, h => absurd rfl h
  | [l], m :: ms, hok, _, _ => by
    have hno : ¬ Overmatched [l] (m :: ms) := by
      rw [overmatched_cons]
      rintro (⟨-, -, -, h⟩ | ⟨-, -, -, h, -⟩ | ⟨-, h⟩)
      · exact absurd h (by simp)
      · exact h rfl
      · exact h.ne_nil.1 rfl
    by_cases hh : l = [hash]
    · simp [looseMatch, levelsMatch, hh]
    · have hmatch : levelsMatch [] ms = ms.isEmpty := rfl
      rw [levelsMatch_cons hh, hmatch]
      cases ms with
      | nil => by_cases hp : l = [plus] <;> simp [looseMatch, hh, hp, hno]
      | cons m' ms => simp [looseMatch, hh, hno]
  | l :: l' :: fs, [m], hok, _, _ => by
    have hh : l ≠ [hash] := hok.1.ne_hash
    rw [levelsMatch_cons hh, levelsMatch_nil, overmatched_cons]
    have hno : ¬ Overmatched (l' :: fs) [] := fun h => h.ne_nil.2 rfl
    by_cases hp : l = [plus]
    · subst hp
      rw [looseMatch, if_neg hh]
      simp
      tauto
    · by_cases hm : l = m
      · subst hm
        simp [looseMatch, hh, hp, hno]
      · simp [looseMatch, hh, hp, hm, hno]
  | l :: l' :: fs, m :: m' :: ms, hok, _, _ => by
    have ih := looseMatch_iff (l' :: fs) (m' :: ms) hok.2 (by simp) (by simp)
    have hh : l ≠ [hash] := hok.1.ne_hash
    rw [levelsMatch_cons hh, overmatched_cons, looseMatch, if_neg hh, if_neg (by simp)]
    by_cases hl : l = [plus] ∨ l = m
    · rw [if_pos hl, ih]
      simp only [ne_eq, reduceCtorEq, false_and, and_false, false_or]
      tauto
    · rw [if_neg hl]
      simp
      tauto

theorem cString_eq {s : Bytes} (h : 0 ∉ s) : cString s = s := by
  have hne : ∀ x ∈ s, (x != 0) = true := fun x hx => by
    simp only [bne_iff_ne, ne_eq]
    rintro rfl
    exact h hx
  exact List.takeWhile_eq_self_iff.mpr hne

theorem cString_append {s : Bytes} (h : 0 ∉ s) (t : Bytes) : cString (s ++ t) = s ++ cString t :=
  List.takeWhile_append_of_pos fun c hc => by
    have hne : c ≠ 0 := fun h0 => h (h0 ▸ hc)
    simpa using hne

/-- The string in an array that ends it. -/
theorem cString_behind {s rest : Bytes} {n : Nat} (h : 0 ∉ s) (hn : n ≠ 0) :
    cString (s ++ (List.replicate n 0 ++ rest)) = s := by
  obtain ⟨n, rfl⟩ := Nat.exists_eq_succ_of_ne_zero hn
  rw [cString_append h, List.replicate_succ, List.cons_append, cString,
    List.takeWhile_cons_of_neg (by decide), List.append_nil]

/-- Identical strings match by the rule, so the test for equality adds nothing to the walk's. -/
theorem topicDecision_eq (before : UInt8) (f : TopicFilter) (n : TopicName) :
    topicDecision before f.bytes n.bytes n.bytes.length.toUInt16 = true ↔
      levelsMatch (levels f.bytes) (levels n.bytes) = true ∨
        Overmatched (levels f.bytes) (levels n.bytes) := by
  have hlen : n.bytes.length.toUInt16.toNat = n.bytes.length := by
    rw [UInt16.toNat_ofNat', Nat.mod_eq_of_lt n.length_lt]
  rw [topicDecision, isTopicMatched, hlen, List.take_length,
    isTopicMatchedLoop_eq f.bytes f.ok before n.bytes (Or.inl n.ne_nil), Bool.or_eq_true,
    looseMatch_iff _ _ f.ok (levels_ne_nil _) (levels_ne_nil _)]
  constructor
  · rintro (h | h)
    · have he : n.bytes = f.bytes := by
        simp only [isTopicEquals, cString_eq f.noNul, cString_eq n.noNul, Bool.and_eq_true,
          beq_iff_eq] at h
        exact h.2
      exact Or.inl (he ▸ levelsMatch_self _)
    · exact h
  · exact Or.inr

/-- **When the decision is the rule's.** For every byte in front of the name's buffer, every valid
filter and every topic name, `_is_topic_equals` or `_is_topic_matched` agrees with the MQTT 3.1.1
rule iff the pair is not overmatched. -/
theorem topicDecision_iff (before : UInt8) (f : TopicFilter) (n : TopicName) :
    (topicDecision before f.bytes n.bytes n.bytes.length.toUInt16 = true ↔
      levelsMatch (levels f.bytes) (levels n.bytes) = true) ↔
        ¬ Overmatched (levels f.bytes) (levels n.bytes) := by
  rw [topicDecision_eq]
  constructor
  · intro h ho
    exact absurd (h.mp (Or.inr ho)) (by simp [ho.not_levelsMatch f.ok])
  · intro hno
    simp [hno]

/-- `ab/#`. -/
def filterAbHash : TopicFilter :=
  ⟨[97, 98, 47, 35], by decide, ⟨Or.inr (by decide), Or.inl rfl⟩⟩

/-- `a/+/b`. -/
def filterAPlusB : TopicFilter :=
  ⟨[97, 47, 43, 47, 98], by decide, ⟨Or.inr (by decide), Or.inl rfl, Or.inr (Or.inr (by decide))⟩⟩

/-- `abc`. -/
def nameAbc : TopicName := ⟨[97, 98, 99], by decide, by simp, by decide, by decide⟩

/-- `a/`. -/
def nameASlash : TopicName := ⟨[97, 47], by decide, by simp, by decide, by decide⟩

/-- `ab/#` takes `abc`, and `a/+/b` takes `a/`; the rule takes neither. -/
theorem topicDecision_overmatches :
    (topicDecision 0 filterAbHash.bytes nameAbc.bytes 3 = true ∧
      levelsMatch (levels filterAbHash.bytes) (levels nameAbc.bytes) = false) ∧
    topicDecision 0 filterAPlusB.bytes nameASlash.bytes 2 = true ∧
      levelsMatch (levels filterAPlusB.bytes) (levels nameASlash.bytes) = false := by
  decide

end QcloudIot.Mqtt
