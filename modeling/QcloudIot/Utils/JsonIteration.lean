import QcloudIot.Utils.JsonBounds

/-!
# What the iteration over the members finds

`json_get_next_object` (`json_parser.c`), started at the text of an object and repeated as
`json_object_for_each_kv` does it, against the syntax tree of the text.

* `memberSpans`: where the names and values of an object stand, told from the tree;
* `Exact`: the scanner finds the end of a value;
* **`iteration_iff`**: it finds the members, all of them and nothing else, iff no name has an escaped quote,
  no value an exponent, no brackets in strings upset the count over an object or an array, and no string
  ends in a backslash but a last one.
-/

namespace QcloudIot.Utils

open Lib

/-! ## Spans -/

/-- Where the name and the value of a member stand, and the type of the value. -/
structure Span where
  key : Nat
  keyLen : Nat
  valType : JsonType
  val : Nat
  valLen : Nat
  deriving DecidableEq, Repr

def NextAt.span (o : NextAt) : Span := ⟨o.key, o.keyLen, o.valType, o.val, o.valLen⟩

/-- The spans of a member whose text starts at `p`: the name and a string without their quotes. -/
def memberSpan (p : Nat) (name : JsonName) (v : Json) : Span where
  key := p + name.before.bytes.length + 1
  keyLen := name.name.bytes.length
  valType := typeOf v
  val := p + name.text.length + if typeOf v = .string then 1 else 0
  valLen := (plainText v).length

/-- The spans of all members. -/
def memberSpans : Nat → JsonMembers → List Span
  | p, .last name v _ => [memberSpan p name v]
  | p, .more name v after rest => memberSpan p name v ::
    memberSpans (p + name.text.length + v.text.length + after.bytes.length + 1) rest

/-- The spans of the members of an object that starts at `p`. -/
def objectSpans (p : Nat) : Json → List Span
  | .object members => memberSpans (p + 1) members
  | _ => []

namespace Ram

/-- `json_get_next_object`, repeated as `json_object_for_each_kv` does it. -/
def nextObjects (ram : Ram) (fuel : Nat) : (turns : Nat) → (pos : Nat) → Option (List NextAt)
  | 0, _ => none
  | turns + 1, pos =>
    (ram pos).bind fun c =>
      if c = 0 then some []
      else
        (ram.nextObjectAt fuel pos).bind fun next =>
          match next with
          | none => some []
          | some o => (nextObjects ram fuel turns o.next).map (o :: ·)

/-- These are the members that `json_parse_name_value` goes past with a callback that never ends the
loop. -/
theorem nextObjects_eq (ram : Ram) (fuel turns calls : Nat) (ret : Int) (pos : Nat) :
    ram.nextObjects fuel turns pos =
      (forEachKv ram (fun _ => false) fuel turns calls ret pos).map (·.2) := by
  induction turns generalizing calls ret pos with
  | zero => rfl
  | succ turns ih =>
    rw [nextObjects, forEachKv]
    cases ram pos with
    | none => rfl
    | some c =>
      rw [Option.bind_some, Option.bind_some]
      split
      · rfl
      cases ram.nextObjectAt fuel pos with
      | none => rfl
      | some next =>
        cases next with
        | none => rfl
        | some o =>
          simp only [Option.bind_some, Bool.false_eq_true, if_false]
          split
          · rw [ih (calls + 1) jsonResultOk, Option.map_map, Option.map_map]
            rfl
          · rw [ih calls ret, Option.map_map, Option.map_map]
            rfl

end Ram

open Ram

/-! ## Values that are found whole -/

/-- The scanner finds the end of a value with this text behind it. -/
def Exact (v : Json) (rest : Text) : Prop :=
  ¬ HasExponent v ∧ (Skips v ∨ typeOf v = .string ∧ 34 ∉ rest)

/-- Without a quote the length stays what it is. -/
theorem stringLen_quiet {s : Text} (h : 34 ∉ s) (lastchr : UInt8) (i len : Nat) :
    stringLen lastchr i len s = len := by
  induction s generalizing lastchr i with
  | nil => rfl
  | cons c s ih =>
    rw [List.mem_cons, not_or] at h
    rw [stringLen, if_neg (Ne.symm h.1), ih h.2]

/-- The closing quote, if it is the last one: it is taken for the end, or is where the last one stands. -/
theorem stringLen_last {rest : Text} (hrest : 34 ∉ rest) {bytes : Text} {st : StrState}
    {lastchr : UInt8}
    (hrun : strRun st bytes = some .plain) (hescaped : st = .escaped → lastchr = 92) (i len : Nat) :
    stringLen lastchr i len (bytes ++ 34 :: rest) = i + bytes.length := by
  induction bytes generalizing st lastchr i len with
  | nil =>
    rw [List.nil_append, stringLen, if_pos rfl]
    split
    · exact stringLen_quiet hrest _ _ _
    · rfl
  | cons c bytes ih =>
    obtain ⟨st', hstep, hrun'⟩ := Option.bind_eq_some_iff.mp hrun
    rw [List.cons_append, stringLen]
    by_cases hquote : c = 34
    · subst hquote
      obtain ⟨hst, rfl⟩ := strStep_quote hstep
      rw [if_pos rfl, if_pos (hescaped hst), stringLen_head, ih hrun' StrState.noConfusion,
        List.length_cons]
      omega
    · have hnext : st' = .escaped → c = 92 := by
        rintro rfl
        exact (eq_of_strStep_escaped hstep).2
      rw [if_neg hquote, ih hrun' hnext, List.length_cons]
      omega

theorem Unended.getLast? {body : Text} {lastchr : UInt8} (h : Unended lastchr body) :
    (lastchr :: body).getLast? ≠ some 92 := by
  induction body generalizing lastchr with
  | nil =>
    intro hlast
    exact h (Option.some.inj hlast)
  | cons c body ih =>
    rw [List.getLast?_cons_cons]
    exact ih h.2

/-- **The end of a string** is found iff it does not end in a backslash, or no quote comes behind it. -/
theorem stringLen_iff (s : JsonString) (rest : Text) :
    stringLen 34 0 0 (s.bytes ++ 34 :: rest) = s.bytes.length ↔ s.bytes.getLast? ≠ some 92 ∨
      34 ∉ rest := by
  constructor
  · intro hlen
    by_contra hno
    rw [not_or, not_not, not_not] at hno
    obtain ⟨hlast, hquote⟩ := hno
    rcases stringLen_cases (s.bytes ++ 34 :: rest) 34 0 0 with
      ⟨body, rest', hsplit, hbody⟩ | ⟨hquiet, -⟩ | ⟨front, behind, hsplit, hquiet, hfront⟩
    · rw [hsplit, stringLen_unended rest' hbody, Nat.zero_add] at hlen
      obtain ⟨rfl, -⟩ := List.append_inj hsplit hlen.symm
      refine hbody.getLast? ?_
      rw [List.getLast?_cons, hlast]
      rfl
    · exact hquiet (List.mem_append_right _ List.mem_cons_self)
    · rw [hfront, Nat.zero_add] at hlen
      obtain ⟨-, hrest⟩ := List.append_inj hsplit hlen.symm
      exact hquiet ((List.cons.inj hrest).2 ▸ hquote)
  · rintro (hlast | hquiet)
    · exact (stringLen_eq rest s.valid StrState.noConfusion (fun _ => by decide) hlast).trans
        (Nat.zero_add _)
    · exact (stringLen_last hquiet s.valid StrState.noConfusion 0 0).trans (Nat.zero_add _)

/-- **The end of an object or an array** is found iff its brackets are balanced. -/
theorem markLen_iff {o c : UInt8} (hne : o ≠ c) (inner rest : Text) :
    markLen o c 1 0 (inner ++ rest) = (o :: inner).length ↔ Enclosed o c (o :: inner) := by
  constructor
  · intro hlen
    rcases markLen_cases hne (inner ++ rest) 1 0 with hzero | ⟨front, behind, hsplit, hpre, hcount⟩
    · rw [hzero] at hlen
      cases hlen
    · have henclosed := enclosed_of_counts hne hpre hcount
      rw [hsplit, markLen_enclosed hne henclosed] at hlen
      obtain ⟨rfl, -⟩ := List.append_inj hsplit (Nat.succ.inj hlen).symm
      exact henclosed
  · intro h
    exact markLen_enclosed hne h rest

theorem exact_iff_skips {v : Json} {rest : Text} (htype : typeOf v ≠ .string) (hexp : ¬ HasExponent v) :
    Exact v rest ↔ Skips v :=
  ⟨fun h => h.2.resolve_right fun h => htype h.1, fun h => ⟨hexp, .inl h⟩⟩

/-- **The length that is found** is that of the value. -/
theorem valueLen_iff (v : Json) {rest : Text} (hends : Ends rest) :
    valueLen (typeOf v) (scanned v ++ unscanned v ++ rest) = (plainText v).length ↔ Exact v rest := by
  cases v with
  | string s =>
    rw [List.append_assoc]
    refine (stringLen_iff s rest).trans ⟨fun h => ⟨id, h.imp_right fun h => ⟨rfl, h⟩⟩, fun h => ?_⟩
    exact h.2.imp_right And.right
  | number n =>
    have hlen := valueLen_eq (v := .number n) trivial hends
    rw [hlen]
    constructor
    · intro h
      refine ⟨fun hexp => hexp ?_, .inl trivial⟩
      have hsplit : (plainText (.number n)).length = n.mantissa.length + n.exponent.length :=
        List.length_append
      rw [hsplit] at h
      exact List.eq_nil_of_length_eq_zero (Nat.left_eq_add.mp h)
    · intro h
      rw [scanned_eq_plainText.mpr h.1]
  | literal l => cases l <;> exact iff_of_true rfl ⟨id, .inl trivial⟩
  | emptyArray space =>
    rw [unscanned, List.append_nil]
    · refine (markLen_iff (o := 91) (c := 93) (by decide) (space.bytes ++ [93]) rest).trans
        (Iff.symm ?_)
      exact exact_iff_skips JsonType.noConfusion fun h => h
    all_goals exact fun _ h => Json.noConfusion h
  | array elements =>
    rw [unscanned, List.append_nil]
    · refine (markLen_iff (by decide) elements.text rest).trans (Iff.symm ?_)
      exact exact_iff_skips JsonType.noConfusion fun h => h
    all_goals exact fun _ h => Json.noConfusion h
  | emptyObject space =>
    rw [unscanned, List.append_nil]
    · refine (markLen_iff (o := 123) (c := 125) (by decide) (space.bytes ++ [125]) rest).trans
        (Iff.symm ?_)
      exact exact_iff_skips JsonType.noConfusion fun h => h
    all_goals exact fun _ h => Json.noConfusion h
  | object members =>
    rw [unscanned, List.append_nil]
    · refine (markLen_iff (by decide) members.text rest).trans (Iff.symm ?_)
      exact exact_iff_skips JsonType.noConfusion fun h => h
    all_goals exact fun _ h => Json.noConfusion h

/-- What the scanner takes of a value and what it has passed in front of that. -/
theorem length_text (v : Json) : v.text.length =
    (scanned v ++ unscanned v).length + if typeOf v = .string then 1 else 0 := by
  cases v with
  | string s => rfl
  | literal l => cases l <;> rfl
  | number n => rfl
  | _ => exact congrArg List.length (List.append_nil _).symm

/-- Behind a value that is found whole it goes on with what follows. -/
theorem next_of_exact {v : Json} {rest : Text} (h : Exact v rest) (hends : Ends rest) (name : Text) :
    (NextObject.mk name (typeOf v) (scanned v ++ unscanned v ++ rest)).next = some rest := by
  have hlen := (valueLen_iff v hends).mpr h
  have hplain : (plainText v).length + (if typeOf v = .string then 1 else 0) =
      (scanned v ++ unscanned v).length := by
    rw [← scanned_eq_plainText.mpr h.1, List.length_append]
    cases v with
    | string s => rfl
    | number n =>
      have hexp : n.exponent = [] := not_not.mp h.1
      exact congrArg (_ + ·) (congrArg List.length hexp).symm
    | literal l => cases l <;> rfl
    | _ => rfl
  have hskip : (NextObject.mk name (typeOf v) (scanned v ++ unscanned v ++ rest)).skip =
      (scanned v ++ unscanned v).length := by
    rw [← hplain, ← hlen, NextObject.skip, NextObject.valLen]
    split <;> rfl
  rw [next_eq_drop hskip (List.prefix_append _ _).length_le]
  exact congrArg some List.drop_left

/-! ## One member -/

section

variable {gap rest : Text} {name : JsonName} {v : Json}

/-- A text with a member ahead, with the quotes and the colon of its name in sight. -/
theorem member_text (gap : Text) (name : JsonName) (t : Text) : gap ++ (name.text ++ t) =
    (gap ++ name.before.bytes) ++ 34 ::
      (name.name.bytes ++ 34 :: (name.between.bytes ++ 58 :: (name.behind.bytes ++ t))) := by
  rw [JsonName.text]
  simp only [List.append_assoc, List.cons_append]

theorem quote_notMem_before (hgap : 34 ∉ gap) (name : JsonName) : 34 ∉ gap ++ name.before.bytes :=
  fun h => (List.mem_append.mp h).elim hgap (quote_notMem_space name.before)

theorem keyAt_member (hgap : 34 ∉ gap) (t : Text) : keyAt (gap ++ (name.text ++ t)) =
    name.name.bytes ++ 34 :: (name.between.bytes ++ 58 :: (name.behind.bytes ++ t)) := by
  rw [keyAt, member_text, strchr_append _ (quote_notMem_before hgap name)]
  rfl

/-- **The next member**, if its name has no quote. -/
theorem nextObject_member (v : Json) (rest : Text) (hgap : 34 ∉ gap) (hname : 34 ∉ name.name.bytes) :
    jsonGetNextObject (gap ++ (name.text ++ (v.text ++ rest))) =
      some ⟨name.name.bytes, typeOf v, scanned v ++ unscanned v ++ rest⟩ := by
  have h : jsonGetNextObject (gap ++ name.before.bytes ++ 34 :: name.name.bytes ++
      34 :: name.between.bytes ++ 58 :: name.behind.bytes ++ (v.text ++ rest)) = _ :=
    nextObject_eq _ (quote_notMem_before hgap name) hname
  rw [valueStart_text, Option.map_some] at h
  rw [← h, member_text]
  simp only [List.append_assoc, List.cons_append]

/-- If it has one, the name is cut there. -/
theorem key_of_quoted (hgap : 34 ∉ gap) (hname : 34 ∈ name.name.bytes) {o : NextObject} {t : Text}
    (ho : jsonGetNextObject (gap ++ (name.text ++ t)) = some o) :
    o.key.length < name.name.bytes.length := by
  obtain ⟨front, behind, hsplit, hfront⟩ := List.eq_append_cons_of_mem hname
  rw [member_text, hsplit, jsonGetNextObject, strchr_append _ (quote_notMem_before hgap name),
    Option.bind_some, List.tail_cons, List.append_assoc, List.cons_append, strchr_append _ hfront,
    Option.bind_some] at ho
  obtain ⟨value, -, rfl⟩ := Option.map_eq_some_iff.mp ho
  have hlength : name.name.bytes.length = front.length + (behind.length + 1) := by
    rw [hsplit, List.length_append, List.length_cons]
  rw [hlength, List.length_take, List.length_append]
  omega

/-- **Where it is found**: at the place the tree tells, with the length the scanner finds. -/
theorem span_member (name : JsonName) (v : Json) (rest : Text) (p : Nat) (hgap : 34 ∉ gap) :
    (locate p (gap ++ (name.text ++ (v.text ++ rest)))
      ⟨name.name.bytes, typeOf v, scanned v ++ unscanned v ++ rest⟩).span =
    { memberSpan (p + gap.length) name v with
      valLen := valueLen (typeOf v) (scanned v ++ unscanned v ++ rest) } := by
  have hlength := length_text v
  have hkey : (gap ++ (name.text ++ (v.text ++ rest))).length =
      gap.length + name.before.bytes.length + 1 +
        (keyAt (gap ++ (name.text ++ (v.text ++ rest)))).length := by
    rw [keyAt_member hgap, member_text, List.length_append, List.length_append, List.length_cons]
    omega
  have hval : (gap ++ (name.text ++ (v.text ++ rest))).length =
      gap.length + name.text.length + (if typeOf v = .string then 1 else 0) +
        (scanned v ++ unscanned v ++ rest).length := by
    have hbehind : (scanned v ++ unscanned v ++ rest).length =
        (scanned v ++ unscanned v).length + rest.length := List.length_append
    rw [hbehind, List.length_append, List.length_append, List.length_append, hlength]
    omega
  simp only [NextAt.span, locate, memberSpan, Span.mk.injEq, true_and]
  refine ⟨?_, ?_, rfl⟩
  · omega
  · omega

end

/-! ## All members -/

/-- The spans of what is found. -/
def spansFound (ram : Ram) (fuel turns p : Nat) : Option (List Span) :=
  (ram.nextObjects fuel turns p).map (·.map NextAt.span)

theorem spansFound_turn {ram : Ram} {fuel turns p : Nat} {t : Text} (hat : ram.At p t) (hne : t ≠ [])
    (hfuel : t.length < fuel) : spansFound ram fuel (turns + 1) p =
      match jsonGetNextObject t with
      | none => some []
      | some o => (spansFound ram fuel turns (locate p t o).next).map ((locate p t o).span :: ·) := by
  cases t with
  | nil => exact absurd rfl hne
  | cons c t =>
    rw [spansFound, nextObjects, hat.1, Option.bind_some, if_neg hat.2.1, nextObjectAt_eq hat hfuel,
      Option.bind_some]
    cases jsonGetNextObject (c :: t) with
    | none => rfl
    | some o =>
      simp only [Option.map_some, spansFound, Option.map_map]
      rfl

/-- Behind the members, where no quote comes any more, it stops. -/
theorem spansFound_quiet {ram : Ram} {fuel turns p : Nat} {t : Text} (hat : ram.At p t)
    (hquiet : 34 ∉ t)
    (hfuel : t.length < fuel) : spansFound ram fuel (turns + 1) p = some [] := by
  by_cases hne : t = []
  · subst hne
    rw [spansFound, nextObjects, hat.stop, Option.bind_some, if_pos rfl]
    rfl
  · rw [spansFound_turn hat hne hfuel, nextObject_eq_none hquiet]

theorem length_member (gap rest : Text) (name : JsonName) (v : Json) :
    (gap ++ (name.text ++ (v.text ++ rest))).length =
      gap.length + name.text.length + v.text.length + rest.length := by
  rw [List.length_append, List.length_append, List.length_append]
  omega

/-- Where what stands behind a value starts. -/
theorem at_behind {ram : Ram} {p : Nat} {gap rest : Text} {name : JsonName} {v : Json}
    (hat : ram.At p (gap ++ (name.text ++ (v.text ++ rest)))) :
    ram.At (p + gap.length + name.text.length + v.text.length) rest := by
  have hsuffix : rest <:+ gap ++ (name.text ++ (v.text ++ rest)) :=
    (List.suffix_append _ _).trans ((List.suffix_append _ _).trans (List.suffix_append _ _))
  have h := hat.suffix hsuffix
  rwa [length_member, show p + (gap.length + name.text.length + v.text.length + rest.length -
    rest.length) =
    p + gap.length + name.text.length + v.text.length by omega] at h

theorem map_cons_eq_some {α : Type} {found : Option (List α)} {x y : α} {ys : List α} :
    found.map (x :: ·) = some (y :: ys) ↔ x = y ∧ found = some ys := by
  cases found with
  | none => exact ⟨fun h => absurd h (by simp only [Option.map_none, reduceCtorEq, not_false_iff]),
      fun h => absurd h.2 (by simp only [reduceCtorEq, not_false_iff])⟩
  | some xs => rw [Option.map_some, Option.some.injEq, Option.some.injEq, List.cons.injEq]

/-- **One member** is found iff its name has no quote and the end of its value is found; then the next one
is looked for behind it. -/
theorem spansFound_member {ram : Ram} {fuel turns p : Nat} {gap rest : Text} {name : JsonName}
    {v : Json}
    (hgap : 34 ∉ gap) (hends : Ends rest) (hat : ram.At p (gap ++ (name.text ++ (v.text ++ rest))))
    (hfuel : (gap ++ (name.text ++ (v.text ++ rest))).length < fuel) (spans : List Span) :
    spansFound ram fuel (turns + 1) p = some (memberSpan (p + gap.length) name v :: spans) ↔
      34 ∉ name.name.bytes ∧ Exact v rest ∧
        spansFound ram fuel turns (p + gap.length + name.text.length + v.text.length) = some spans := by
  have hne : gap ++ (name.text ++ (v.text ++ rest)) ≠ [] := by
    rw [member_text]
    exact List.append_ne_nil_of_right_ne_nil _ (List.cons_ne_nil _ _)
  rw [spansFound_turn hat hne hfuel]
  by_cases hname : 34 ∈ name.name.bytes
  · -- the name that is handed out is too short
    refine iff_of_false (fun h => ?_) fun h => h.1 hname
    cases ho : jsonGetNextObject (gap ++ (name.text ++ (v.text ++ rest))) with
    | none =>
      rw [ho] at h
      cases Option.some.inj h
    | some o =>
      rw [ho] at h
      have hlen : o.key.length = name.name.bytes.length :=
        congrArg Span.keyLen (map_cons_eq_some.mp h).1
      have hlt := key_of_quoted hgap hname ho
      omega
  · have ho := nextObject_member v rest hgap hname
    have hspan : (locate p _ _).span = _ := span_member name v rest p hgap
    rw [ho]
    refine map_cons_eq_some.trans ?_
    have hexact : (locate p (gap ++ (name.text ++ (v.text ++ rest)))
        ⟨name.name.bytes, typeOf v, scanned v ++ unscanned v ++ rest⟩).span =
        memberSpan (p + gap.length) name v ↔ Exact v rest := by
      rw [hspan, ← valueLen_iff v hends, Span.mk.injEq]
      simp only [memberSpan, true_and]
    rw [hexact, and_iff_right hname]
    refine and_congr_right fun h => ?_
    obtain ⟨-, hend, -⟩ := at_next hat ho (next_of_exact h hends _)
    rw [length_member] at hend
    have hplace : (locate p (gap ++ (name.text ++ (v.text ++ rest)))
        ⟨name.name.bytes, typeOf v, scanned v ++ unscanned v ++ rest⟩).next =
        p + gap.length + name.text.length + v.text.length := by
      omega
    rw [hplace]

/-- The members whose ends and names are found: no quote in a name, and all values taken whole; of the last
value no more is asked if it is a string. -/
def Found : JsonMembers → Prop
  | .last name v _ => 34 ∉ name.name.bytes ∧ ¬ HasExponent v ∧ (Skips v ∨ typeOf v = .string)
  | .more name v _ rest => 34 ∉ name.name.bytes ∧ ¬ HasExponent v ∧ Skips v ∧ Found rest

theorem name_length (name : JsonName) : name.text.length = name.before.bytes.length +
    name.name.bytes.length + name.between.bytes.length + name.behind.bytes.length + 3 := by
  rw [JsonName.text]
  simp only [List.length_append, List.length_cons]
  omega

theorem quote_mem_text (members : JsonMembers) (after : Text) : 34 ∈ members.text ++ after := by
  have hname : ∀ (name : JsonName) (t : Text), 34 ∈ name.text ++ t := fun name t => by
    rw [← List.nil_append (name.text ++ t), member_text]
    exact List.mem_append_right _ List.mem_cons_self
  cases members with
  | last name v space =>
    rw [JsonMembers.text]
    simp only [List.append_assoc]
    exact hname name _
  | more name v space rest =>
    rw [JsonMembers.text]
    simp only [List.append_assoc]
    exact hname name _

theorem quote_notMem_behind (space : JsonSpace) {c : UInt8} (hc : c ≠ 34) : 34 ∉ space.bytes ++
    [c] := by
  rw [List.mem_append, List.mem_singleton, not_or]
  exact ⟨quote_notMem_space space, hc.symm⟩

/-- **All members** of an object are found iff they are such. Each is looked for in front of what stands
between it and the one before. -/
theorem spansFound_members {ram : Ram} {fuel : Nat} {after : Text} (hafter : 34 ∉ after) :
    ∀ (members : JsonMembers) {gap : Text} {turns p : Nat}, 34 ∉ gap →
      ram.At p (gap ++ (members.text ++ after)) → (gap ++ (members.text ++ after)).length < fuel →
      (gap ++ (members.text ++ after)).length < turns →
      (spansFound ram fuel turns p = some (memberSpans (p + gap.length) members) ↔ Found members)
  | _, _, 0, _, _, _, _, hturns => absurd hturns (Nat.not_lt_zero _)
  | .last name v space, gap, turns + 1, p, hgap, hat, hfuel, hturns => by
    have htext : (JsonMembers.last name v space).text ++ after =
        name.text ++ (v.text ++ ((space.bytes ++ [125]) ++ after)) := by
      rw [JsonMembers.text]
      simp only [List.append_assoc]
    have hquiet : 34 ∉ (space.bytes ++ [125]) ++ after := fun h =>
      (List.mem_append.mp h).elim (quote_notMem_behind space (by decide)) hafter
    have hends : Ends ((space.bytes ++ [125]) ++ after) := by
      rw [List.append_assoc]
      exact ends_space space (by decide) after
    rw [htext] at hat hfuel hturns
    have hbehind : spansFound ram fuel turns (p + gap.length + name.text.length + v.text.length) =
        some [] := by
      rw [length_member, name_length] at hfuel hturns
      obtain ⟨turns', rfl⟩ := Nat.exists_eq_succ_of_ne_zero (show turns ≠ 0 by omega)
      exact spansFound_quiet (at_behind hat) hquiet (by omega)
    refine (spansFound_member hgap hends hat hfuel []).trans ?_
    rw [and_iff_left hbehind, Exact, Found]
    simp only [hquiet, not_false_iff, and_true]
  | .more name v space rest, gap, turns + 1, p, hgap, hat, hfuel, hturns => by
    have htext : (JsonMembers.more name v space rest).text ++ after =
        name.text ++ (v.text ++ ((space.bytes ++ [44]) ++ (rest.text ++ after))) := by
      rw [JsonMembers.text]
      simp only [List.append_assoc, List.cons_append, List.nil_append]
    have hends : Ends ((space.bytes ++ [44]) ++ (rest.text ++ after)) := by
      rw [List.append_assoc]
      exact ends_space space (by decide) _
    rw [htext] at hat hfuel hturns
    have hquote : 34 ∈ space.bytes ++ [44] ++ (rest.text ++ after) :=
      List.mem_append_right _ (quote_mem_text rest after)
    have hbehind : spansFound ram fuel turns (p + gap.length + name.text.length + v.text.length) =
        some (memberSpans (p + gap.length + name.text.length + v.text.length +
          (space.bytes ++ [44]).length)
          rest) ↔ Found rest := by
      rw [length_member, name_length] at hfuel hturns
      exact spansFound_members hafter rest (quote_notMem_behind space (by decide)) (at_behind hat)
        (by omega) (by omega)
    refine (spansFound_member hgap hends hat hfuel _).trans ?_
    rw [List.length_append, List.length_singleton, ← Nat.add_assoc] at hbehind
    rw [hbehind, Exact, Found]
    simp only [hquote, not_true, and_false, or_false, and_assoc]

/-! ## The whole object -/

/-- The members of an object that are found. -/
def FoundIn : Json → Prop
  | .object members => Found members
  | _ => True

/-- From the first character on; white space may stand around the object. -/
theorem spansFound_object {doc : Json} (hobject : doc.isObject = true) (before after : JsonSpace)
    {fuel : Nat}
    (hfuel : (before.bytes ++ doc.text ++ after.bytes).length < fuel) :
    spansFound (ramOf (before.bytes ++ doc.text ++ after.bytes)) fuel fuel 0 =
      some (objectSpans before.bytes.length doc) ↔ FoundIn doc := by
  have hat := at_ramOf (doc.zero_notMem_text before after)
  cases doc with
  | emptyObject space =>
    have hquiet : 34 ∉ before.bytes ++ (Json.emptyObject space).text ++ after.bytes := by
      simp only [Json.text, List.mem_append, List.mem_cons, List.not_mem_nil, or_false, not_or]
      exact ⟨⟨quote_notMem_space before, ⟨by decide, quote_notMem_space space⟩, by decide⟩,
        quote_notMem_space after⟩
    obtain ⟨turns, rfl⟩ := Nat.exists_eq_succ_of_ne_zero (Nat.ne_of_gt (Nat.zero_lt_of_lt hfuel))
    exact iff_of_true (spansFound_quiet hat hquiet hfuel) trivial
  | object members =>
    have htext : before.bytes ++ (Json.object members).text ++ after.bytes =
        (before.bytes ++ [123]) ++ (members.text ++ after.bytes) := by
      rw [Json.text]
      simp only [List.append_assoc, List.cons_append, List.nil_append]
    rw [htext] at hat hfuel ⊢
    have h := spansFound_members (quote_notMem_space after) members
      (quote_notMem_behind before (by decide)) hat hfuel hfuel
    rwa [List.length_append, List.length_singleton, Nat.zero_add] at h
  | _ => cases hobject

/-- The iteration ends and has found members with these spans and no others. -/
def Iterates (text : Text) (spans : List Span) : Prop :=
  ∃ enough, ∀ fuel, enough ≤ fuel → spansFound (ramOf text) fuel fuel 0 = some spans

/-- **The iteration finds the members of an object** iff no name has a quote, no value has an exponent, the
brackets of each object and array are balanced, also with those in strings, and only a last value is a
string that ends in a backslash. -/
theorem iteration_iff {doc : Json} (hobject : doc.isObject = true) (before after : JsonSpace) :
    Iterates (before.bytes ++ doc.text ++ after.bytes) (objectSpans before.bytes.length doc) ↔
      FoundIn doc := by
  constructor
  · rintro ⟨enough, h⟩
    exact (spansFound_object hobject before after (Nat.lt_of_succ_le (Nat.le_max_right enough _))).mp
      (h _ (Nat.le_max_left _ _))
  · intro h
    exact ⟨_, fun fuel hfuel => (spansFound_object hobject before after
      (Nat.lt_of_succ_le hfuel)).mpr h⟩

/-! ## Objects that are misread -/

/-- The object `{"a":{},"b":"\\"}`: the last string ends in a backslash. -/
def lastBackslash : Json :=
  .object (.more (letterName 97 letter_a) (.emptyObject noSpace) noSpace
    (.last (letterName 98 letter_b) (.string ⟨[92, 92], rfl⟩) noSpace))

theorem lastBackslash_iterates : lastBackslash.isObject = true ∧
    Iterates (noSpace.bytes ++ lastBackslash.text ++ noSpace.bytes)
      [⟨2, 1, .object, 5, 2⟩, ⟨9, 1, .string, 13, 2⟩] := by
  exact ⟨rfl, (iteration_iff rfl noSpace noSpace).mpr
    ⟨by decide, id, by decide, by decide, id, .inr rfl⟩⟩

/-- The object `{"a":{"b":"}"}}`: the brace in the string closes the object. -/
def braceInString : Json :=
  .object (.last (letterName 97 letter_a)
    (.object (.last (letterName 98 letter_b) (.string ⟨[125], rfl⟩) noSpace)) noSpace)

theorem no_digits : ∀ c ∈ ([] : Text), isDigit c := fun _ h => absurd h List.not_mem_nil

/-- The object `{"a":1e5}`. -/
def withExponent : Json :=
  .object (.last (letterName 97 letter_a) (.number ⟨false, [49], [], [101, 53], digit_one, no_digits,
    .inr ⟨101, [], [53], rfl, .inl rfl, .inl rfl, List.cons_ne_nil _ _, by decide⟩⟩) noSpace)

/-- The object `{"\"":{}}`. -/
def quoteInName : Json :=
  .object (.last ⟨noSpace, ⟨[92, 34], rfl⟩, noSpace, noSpace⟩ (.emptyObject noSpace) noSpace)

/-- The object `{"a":"\\","b":{}}`: the first string goes on up to the name that follows. -/
def firstBackslash : Json :=
  .object (.more (letterName 97 letter_a) (.string ⟨[92, 92], rfl⟩) noSpace
    (.last (letterName 98 letter_b) (.emptyObject noSpace) noSpace))

/-- What is found of the object are not its members. -/
def Misread (doc : Json) : Prop :=
  doc.isObject = true ∧
    ¬ Iterates (noSpace.bytes ++ doc.text ++ noSpace.bytes) (objectSpans noSpace.bytes.length doc)

theorem misread_of_not {doc : Json} (hobject : doc.isObject = true) (h : ¬ FoundIn doc) : Misread doc := by
  refine ⟨hobject, fun ⟨enough, hruns⟩ => h ?_⟩
  exact (spansFound_object hobject noSpace noSpace (Nat.lt_of_succ_le (Nat.le_max_right enough _))).mp
    (hruns _ (Nat.le_max_left _ _))

theorem objects_misread : Misread braceInString ∧ Misread withExponent ∧ Misread quoteInName ∧
    Misread firstBackslash := by
  refine ⟨?_, ?_, ?_, ?_⟩
  · exact misread_of_not rfl fun h =>
      h.2.2.elim (fun h => absurd h (by decide)) fun h => absurd h (by decide)
  · exact misread_of_not rfl fun h => h.2.1 (List.cons_ne_nil _ _)
  · exact misread_of_not rfl fun h => absurd h.1 (by decide)
  · exact misread_of_not rfl fun h => h.2.2.1 rfl

end QcloudIot.Utils
