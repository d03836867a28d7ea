import QcloudIot.Utils.JsonBounds

/-!
# A lookup in a buffer

`LITE_json_value_of` (`json_token.c`) on the bytes of a buffer, which may hold no NUL at all, one or
many: the scanner of `JsonMemory` with the search for a name, and the copy of the value.

* A key has no dots here. As in `JsonParser` the length of the string itself is passed on.
* `terminated`: the strings that stand in the buffer one behind the other, each up to its NUL;
* `valueIn`: the search, string by string: it goes on with the next one where it has been moved behind
  the NUL of one;
* **`liteJsonValueOfAt_eq`**: the lookup is that search, and reads what is no byte of the buffer iff the
  strings run out.
-/

namespace QcloudIot.Utils

namespace Ram

variable (ram : Ram)

/-- Characters read one after the other. -/
def charsAt : (n : Nat) → Nat → Option Text
  | 0, _ => some []
  | n + 1, p => (ram p).bind fun c => (charsAt n (p + 1)).map (c :: ·)

/-- What `json_parse_name_value` and `json_get_value_by_name_cb` check of a member. -/
def isNamedAt (name : Text) (o : NextAt) : Option Bool :=
  if o.keyLen ≠ 0 ∧ o.valLen ≠ 0 ∧ o.keyLen = name.length then ram.prefixAt name o.key else some false

/-- The loop of `json_parse_name_value` with `json_get_value_by_name_cb`. -/
def searchAt (name : Text) (fuel : Nat) : (turns : Nat) → Nat → Option (Option NextAt)
  | 0, _ => none
  | turns + 1, pos =>
    (ram pos).bind fun c =>
      if c = 0 then some none
      else
        (ram.nextObjectAt fuel pos).bind fun next =>
          match next with
          | none => some none
          | some o =>
            (ram.isNamedAt name o).bind fun found =>
              if found then some (some o) else searchAt name fuel turns o.next

/-- `json_get_value_by_name`. -/
def valueByNameAt (name : Text) (fuel : Nat) : Option (Option NextAt) :=
  (ram.strlenAt fuel 0).bind fun iStrLen =>
    if iStrLen = 0 then some none
    else
      (ram.getObjectAt fuel 0).bind fun pos =>
        match pos with
        | none => some none
        | some pos => ram.searchAt name fuel fuel pos

/-- `HAL_Snprintf` of a value: it is read up to its NUL, and copied up to its length. -/
def copyAt (fuel : Nat) : Option NextAt → Option (Option Text)
  | none => some none
  | some o =>
    (ram.strlenAt fuel o.val).bind fun len => (ram.charsAt (min len o.valLen) o.val).map some

/-- `LITE_json_value_of`, of the memory at 0. -/
def liteJsonValueOfAt (key : Text) (fuel : Nat) : Option (Option Text) :=
  (ram.valueByNameAt key fuel).bind (ram.copyAt fuel)

end Ram

/-! ## The strings of a buffer -/

/-- The strings of a buffer that have a terminator. -/
def terminated : Text → List Text
  | [] => []
  | c :: t =>
    if c = 0 then [] :: terminated t
    else match terminated t with
      | [] => []
      | s :: rest => (c :: s) :: rest

/-- The search in strings that stand one behind the other; `none` behind the last. -/
def searchStrings (name : Text) : List Text → Option (Option NextObject)
  | [] => none
  | s :: rest =>
    match search name s with
    | none => searchStrings name rest
    | some found => some found

/-- The text of a value. -/
def NextObject.text (o : NextObject) : Text := o.val.take o.valLen

/-- The lookup in a buffer; `none` where its strings run out. -/
def valueIn (key buff : Text) : Option (Option Text) :=
  match terminated buff with
  | [] => none
  | s :: rest =>
    match jsonGetObject s with
    | none => some none
    | some pos => (searchStrings key (pos :: rest)).map fun found => found.map NextObject.text

/-- The bytes of a buffer, and nothing else. -/
def bufferRam (buff : Text) : Ram := fun i => buff[i]?

namespace Ram

variable {ram : Ram}

/-- No NUL stands at or behind an offset. -/
def Open (ram : Ram) (p : Nat) : Prop := ∀ i, p ≤ i → ram i ≠ some 0

/-- Strings stand from an offset on one behind the other, and no NUL behind them. -/
def Strings (ram : Ram) : Nat → List Text → Prop
  | p, [] => ram.Open p
  | p, s :: rest => ram.At p s ∧ Strings ram (p + s.length + 1) rest

theorem Open.mono {p q : Nat} (h : ram.Open p) (hle : p ≤ q) : ram.Open q :=
  fun i hi => h i (Nat.le_trans hle hi)

/-- A buffer is its strings and what is open behind them. -/
theorem strings_terminated {buff : Text} {p : Nat} (h : ∀ i, ram (p + i) = buff[i]?) :
    ram.Strings p (terminated buff) := by
  induction buff generalizing p with
  | nil =>
    intro i hi
    rw [← Nat.add_sub_cancel' hi, h]
    exact fun hno => Option.noConfusion rfl (heq_of_eq hno)
  | cons c t ih =>
    have hrest := ih (p := p + 1) fun i => by
      rw [Nat.add_assoc, Nat.add_comm 1 i, h, List.getElem?_cons_succ]
    have hhead : ram p = some c := h 0
    rw [terminated]
    split
    · rename_i hc
      rw [hc] at hhead
      exact ⟨hhead, hrest⟩
    · rename_i hc
      cases hstrings : terminated t with
      | nil =>
        rw [hstrings] at hrest
        intro i hi
        rcases Nat.eq_or_lt_of_le hi with rfl | hlt
        · rw [hhead]
          exact fun heq => hc (Option.some.inj heq)
        · exact hrest i hlt
      | cons s rest =>
        rw [hstrings] at hrest
        refine ⟨⟨hhead, hc, hrest.1⟩, ?_⟩
        have hplace : p + (c :: s).length + 1 = p + 1 + s.length + 1 := by
          rw [List.length_cons]
          omega
        rw [hplace]
        exact hrest.2

/-! ## Behind the last NUL -/

theorem strlenAt_open {p : Nat} (h : ram.Open p) (fuel : Nat) : ram.strlenAt fuel p = none := by
  induction fuel generalizing p with
  | zero => rfl
  | succ fuel ih =>
    rw [strlenAt]
    cases hc : ram p with
    | none => rfl
    | some c =>
      have hne : c ≠ 0 := by
        rintro rfl
        exact h p (Nat.le_refl p) hc
      rw [Option.bind_some, if_neg hne, ih (h.mono (Nat.le_succ p))]
      rfl

/-- No search for a character ends with `NULL`. -/
theorem strchrAt_open {p : Nat} (h : ram.Open p) (c : UInt8) (fuel : Nat) :
    ram.strchrAt c fuel p = none ∨ ∃ q, p ≤ q ∧ ram.strchrAt c fuel p = some (some q) := by
  induction fuel generalizing p with
  | zero => exact .inl rfl
  | succ fuel ih =>
    rw [strchrAt]
    cases hb : ram p with
    | none => exact .inl rfl
    | some b =>
      have hne : b ≠ 0 := by
        rintro rfl
        exact h p (Nat.le_refl p) hb
      rw [Option.bind_some, if_neg hne]
      split
      · exact .inr ⟨p, Nat.le_refl p, rfl⟩
      · refine (ih (h.mono (Nat.le_succ p))).imp_right ?_
        rintro ⟨q, hq, heq⟩
        exact ⟨q, Nat.le_of_succ_le hq, heq⟩

theorem valueStartAt_open {p : Nat} (h : ram.Open p) (fuel : Nat) :
    ram.valueStartAt fuel p = none ∨
      ∃ type val pos, p ≤ val ∧ ram.valueStartAt fuel p = some (some (type, val, pos)) := by
  induction fuel generalizing p with
  | zero => exact .inl rfl
  | succ fuel ih =>
    rw [valueStartAt]
    cases hc : ram p with
    | none => exact .inl rfl
    | some c =>
      have hne : c ≠ 0 := by
        rintro rfl
        exact h p (Nat.le_refl p) hc
      rw [Option.bind_some, if_neg hne]
      split
      · exact .inr ⟨_, _, _, Nat.le_succ p, rfl⟩
      iterate 5
        split
        · exact .inr ⟨_, _, _, Nat.le_refl p, rfl⟩
      refine (ih (h.mono (Nat.le_succ p))).imp_right ?_
      rintro ⟨type, val, pos, hval, heq⟩
      exact ⟨type, val, pos, Nat.le_of_succ_le hval, heq⟩

/-- A member that is found lies further on. -/
theorem nextObjectAt_open {p : Nat} (h : ram.Open p) (fuel : Nat) :
    ram.nextObjectAt fuel p = none ∨
      ∃ o, p ≤ o.val ∧ p ≤ o.next ∧ ram.nextObjectAt fuel p = some (some o) := by
  rw [nextObjectAt]
  rcases strchrAt_open h 34 fuel with hnone | ⟨opening, hopening, heq⟩
  · rw [hnone]
    exact .inl rfl
  rw [heq, Option.bind_some]
  simp only
  rcases strchrAt_open (h.mono (Nat.le_succ_of_le hopening)) 34 fuel with
    hnone | ⟨closing, hclosing, heq⟩
  · rw [hnone]
    exact .inl rfl
  rw [heq, Option.bind_some]
  simp only
  have hle : p ≤ closing := Nat.le_trans (Nat.le_succ_of_le hopening) hclosing
  rcases strchrAt_open (h.mono hle) 58 fuel with hnone | ⟨colon, hcolon, heq⟩
  · rw [hnone]
    exact .inl rfl
  rw [heq, Option.bind_some]
  simp only
  rcases valueStartAt_open (h.mono (Nat.le_trans hle hcolon)) fuel with
    hnone | ⟨type, val, pos, hval, heq⟩
  · rw [hnone]
    exact .inl rfl
  rw [heq, Option.bind_some]
  simp only
  cases ram.valueLoop type val fuel fuel 0 0 (if type = .string then 34 else 32) pos with
  | none => exact .inl rfl
  | some len =>
    have hge : p ≤ val := Nat.le_trans (Nat.le_trans hle hcolon) hval
    refine .inr ⟨_, hge, ?_, rfl⟩
    simp only
    split <;> omega

/-- **Behind the last NUL** a search goes on until it leaves the buffer, or the copy does. -/
theorem searchAt_open {p : Nat} (h : ram.Open p) (name : Text) (fuel turns : Nat) :
    (ram.searchAt name fuel turns p).bind (ram.copyAt fuel) = none := by
  induction turns generalizing p with
  | zero => rfl
  | succ turns ih =>
    rw [searchAt]
    cases hc : ram p with
    | none => rfl
    | some c =>
      have hne : c ≠ 0 := by
        rintro rfl
        exact h p (Nat.le_refl p) hc
      rw [Option.bind_some, if_neg hne]
      rcases nextObjectAt_open h fuel with hnone | ⟨o, hval, hnext, heq⟩
      · rw [hnone]
        rfl
      rw [heq, Option.bind_some]
      simp only
      cases ram.isNamedAt name o with
      | none => rfl
      | some found =>
        rw [Option.bind_some]
        cases found with
        | true =>
          rw [if_pos rfl, Option.bind_some, copyAt, strlenAt_open (h.mono hval)]
          rfl
        | false => exact ih (h.mono hnext)

/-! ## In a string -/

theorem charsAt_eq {p n : Nat} {t : Text} (h : ram.At p t) (hn : n ≤ t.length) :
    ram.charsAt n p = some (t.take n) := by
  induction n generalizing p t with
  | zero => rfl
  | succ n ih =>
    cases t with
    | nil => cases hn
    | cons c t =>
      rw [charsAt, h.1, Option.bind_some, ih h.2.2 (Nat.le_of_succ_le_succ hn)]
      rfl

end Ram

/-- The name that is found, where it stands. -/
theorem key_eq_take {t : Text} {o : NextObject} (h : jsonGetNextObject t = some o) :
    o.key = (Ram.keyAt t).take o.key.length ∧ Ram.keyAt t <:+ t := by
  obtain ⟨opening, hopening, h⟩ := Option.bind_eq_some_iff.mp h
  obtain ⟨closing, hclosing, h⟩ := Option.bind_eq_some_iff.mp h
  obtain ⟨value, -, rfl⟩ := Option.map_eq_some_iff.mp h
  have hkey : Ram.keyAt t = opening.tail := by
    rw [Ram.keyAt, hopening]
    rfl
  rw [hkey]
  refine ⟨?_, (List.tail_suffix opening).trans (strchr_suffix hopening)⟩
  have hprefix : (⟨opening.tail.take (opening.tail.length - closing.length), value.1, value.2⟩ :
      NextObject).key <+: opening.tail := List.take_prefix _ _
  exact List.prefix_iff_eq_take.mp hprefix

/-- Where a search does not go on in a string, it goes on right behind the terminator. -/
theorem skip_of_next_none {t : Text} {o : NextObject} (h : jsonGetNextObject t = some o)
    (hnext : o.next = none) : o.skip = o.val.length + 1 := by
  obtain ⟨value, gap, name, between, behind, hhead, hstart⟩ := head_of_nextObject h
  rcases next_cases hhead.value hstart o.key with rfl | ⟨rest, hsome, -⟩
  · have hdangling : some (o.valType, o.val) = some (.string, []) := hstart.symm.trans rfl
    obtain ⟨htype, hval⟩ := Prod.mk.inj (Option.some.inj hdangling)
    rw [NextObject.skip, NextObject.valLen, htype, hval]
    rfl
  · have hsame : o.next = some rest := hsome
    rw [hnext] at hsame
    cases hsame

namespace Ram

variable {ram : Ram}

/-- The name is compared as a whole. -/
theorem isNamedAt_eq {p : Nat} {t name : Text} {o : NextObject} (hat : ram.At p t) (hname : 0 ∉ name)
    (ho : jsonGetNextObject t = some o) : ram.isNamedAt name (locate p t o) =
      some (decide (o.key ≠ [] ∧ o.valLen ≠ 0 ∧ o.key = name)) := by
  obtain ⟨hkey, hsuffix⟩ := key_eq_take ho
  have hat' : ram.At (locate p t o).key (keyAt t) := hat.suffix hsuffix
  have hfound : o.key.length = name.length → (name.isPrefixOf (keyAt t) = true ↔ o.key = name) := by
    intro hlen
    rw [List.isPrefixOf_iff_prefix, List.prefix_iff_eq_take, ← hlen, ← hkey]
    exact eq_comm
  rw [isNamedAt]
  change (if o.key.length ≠ 0 ∧ o.valLen ≠ 0 ∧ o.key.length = name.length then _ else _) = _
  split
  · rename_i h
    rw [prefixAt_eq hat' hname, Option.some_inj, Bool.eq_iff_iff, hfound h.2.2, decide_eq_true_iff]
    have hne := List.ne_nil_of_length_pos (Nat.pos_of_ne_zero h.1)
    exact ⟨fun heq => ⟨hne, h.2.1, heq⟩, fun heq => heq.2.2⟩
  · rename_i h
    rw [Option.some_inj, eq_comm, decide_eq_false_iff_not]
    rintro ⟨hne, hlen, heq⟩
    exact h ⟨fun hzero => hne (List.eq_nil_of_length_eq_zero hzero), hlen, congrArg _ heq⟩

/-- The copy of a value that is found. -/
theorem copyAt_eq {p fuel : Nat} {t : Text} {o : NextObject} (hat : ram.At p t)
    (ho : jsonGetNextObject t = some o) (hfuel : t.length < fuel) :
    ram.copyAt fuel (some (locate p t o)) = some (some o.text) := by
  have hsuffix := (val_suffix ho).trans (List.tail_suffix t)
  have hat' : ram.At (locate p t o).val o.val := hat.suffix hsuffix
  have hlen : o.val.length < fuel := Nat.lt_of_le_of_lt hsuffix.length_le hfuel
  rw [copyAt, strlenAt_eq hat' hlen, Option.bind_some, charsAt_eq hat' (Nat.min_le_left _ _),
    Option.map_some, NextObject.text, List.take_eq_take_min (i := o.valLen), Nat.min_comm]
  rfl

/-- How many bytes strings take with their terminators. -/
def span (segs : List Text) : Nat := (segs.map fun s => s.length + 1).sum

theorem span_cons (s : Text) (segs : List Text) : span (s :: segs) = s.length + 1 + span segs :=
  List.sum_cons

/-- **The search in memory** is the search string by string. -/
theorem searchAt_eq {name : Text} (hname : 0 ∉ name) {fuel turns p : Nat} {s : Text} {rest : List Text}
    (hat : ram.Strings p (s :: rest)) (hfuel : span (s :: rest) ≤ fuel)
    (hturns : span (s :: rest) ≤ turns) :
    (ram.searchAt name fuel turns p).bind (ram.copyAt fuel) =
      (searchStrings name (s :: rest)).map fun found => found.map NextObject.text := by
  induction turns generalizing p s rest with
  | zero =>
    rw [span_cons] at hturns
    omega
  | succ turns ih =>
    obtain ⟨hs, hrest⟩ := hat
    rw [span_cons] at hfuel hturns
    rw [searchAt, searchStrings, search_eq]
    cases s with
    | nil =>
      rw [hs.stop, Option.bind_some, if_pos rfl]
      rfl
    | cons c t =>
      rw [hs.1, Option.bind_some, if_neg hs.2.1, nextObjectAt_eq hs (by omega), Option.bind_some]
      cases ho : jsonGetNextObject (c :: t) with
      | none => rfl
      | some o =>
        rw [Option.map_some]
        simp only
        rw [isNamedAt_eq hs hname ho, Option.bind_some]
        by_cases hfound : o.key ≠ [] ∧ o.valLen ≠ 0 ∧ o.key = name
        · rw [if_pos (decide_eq_true hfound), if_pos hfound, Option.bind_some,
            copyAt_eq hs ho (by omega)]
          rfl
        rw [if_neg (by simpa using hfound), if_neg hfound]
        cases hnext : o.next with
        | some pos =>
          -- in the same string
          obtain ⟨hlt, hend, hat'⟩ := at_next hs ho hnext
          rw [Option.bind_some, ← searchStrings]
          refine ih ⟨hat', ?_⟩ ?_ ?_
          · rw [hend]
            exact hrest
          · rw [span_cons]
            omega
          · rw [span_cons]
            omega
        | none =>
          -- in the next string, or behind the last
          have hval := length_val_lt ho
          have hplace : (locate p (c :: t) o).next = p + (c :: t).length + 1 := by
            change p + ((c :: t).length - o.val.length) + o.skip = _
            rw [skip_of_next_none ho hnext]
            omega
          rw [Option.bind_none, hplace]
          cases rest with
          | nil => exact searchAt_open hrest name fuel turns
          | cons s' rest =>
            refine ih hrest ?_ ?_
            · omega
            · omega

end Ram

theorem span_terminated (buff : Text) : Ram.span (terminated buff) ≤ buff.length := by
  induction buff with
  | nil => exact Nat.le_refl 0
  | cons c t ih =>
    rw [terminated, List.length_cons]
    split
    · change 0 + 1 + Ram.span (terminated t) ≤ _
      omega
    · cases hstrings : terminated t with
      | nil => exact Nat.zero_le _
      | cons s rest =>
        rw [hstrings] at ih
        rw [Ram.span_cons] at ih
        rw [Ram.span_cons, List.length_cons]
        omega

/-- **The lookup in a buffer** is the search string by string, and leaves the buffer iff the strings run
out. -/
theorem liteJsonValueOfAt_eq (buff : Text) {key : Text} (hkey : 0 ∉ key) {fuel : Nat}
    (hfuel : buff.length < fuel) : (bufferRam buff).liteJsonValueOfAt key fuel = valueIn key buff := by
  have hstrings : (bufferRam buff).Strings 0 (terminated buff) :=
    Ram.strings_terminated fun i => by rw [Nat.zero_add, bufferRam]
  have hspan := span_terminated buff
  unfold Ram.liteJsonValueOfAt Ram.valueByNameAt valueIn
  cases hsegs : terminated buff with
  | nil =>
    rw [hsegs] at hstrings
    rw [Ram.strlenAt_open hstrings]
    rfl
  | cons s rest =>
    rw [hsegs] at hstrings hspan
    rw [Ram.span_cons] at hspan
    obtain ⟨hat, hrest⟩ := hstrings
    rw [Ram.strlenAt_eq hat (by omega), Option.bind_some]
    simp only
    split
    · rename_i hzero
      rw [List.eq_nil_of_length_eq_zero hzero]
      rfl
    rw [Ram.getObjectAt_eq hat (by omega), Option.bind_some]
    cases hpos : jsonGetObject s with
    | none => rfl
    | some pos =>
      have hsuffix := jsonGetObject_suffix hpos
      have hle := hsuffix.length_le
      have hplace : 0 + (s.length - pos.length) + pos.length + 1 = 0 + s.length + 1 := by omega
      refine Ram.searchAt_eq hkey ⟨hat.suffix hsuffix, ?_⟩ ?_ ?_
      · rw [hplace]
        exact hrest
      · rw [Ram.span_cons]
        omega
      · rw [Ram.span_cons]
        omega

/-! ## Buffers that end in zeros -/

theorem searchStrings_stop (name : Text) {segs : List Text} (h : [] ∈ segs) :
    (searchStrings name segs).isSome := by
  induction segs with
  | nil => exact absurd h List.not_mem_nil
  | cons s rest ih =>
    rw [searchStrings]
    cases hfound : search name s with
    | some found => rfl
    | none =>
      have hne : s ≠ [] := by
        rintro rfl
        cases hfound
      exact ih ((List.mem_cons.mp h).resolve_left (Ne.symm hne))

/-- Two zeros leave an empty string behind another. -/
theorem terminated_zeros (x y : Text) : ∃ s rest, terminated (x ++ 0 :: 0 :: y) = s :: rest ∧
    [] ∈ rest := by
  induction x with
  | nil => exact ⟨[], [] :: terminated y, rfl, List.mem_cons_self⟩
  | cons c x ih =>
    obtain ⟨s, rest, heq, hmem⟩ := ih
    rw [List.cons_append, terminated, heq]
    split
    · exact ⟨[], s :: rest, rfl, List.mem_cons_of_mem s hmem⟩
    · exact ⟨c :: s, rest, rfl, hmem⟩

/-- **Two zeros** in a buffer keep every lookup in it. -/
theorem valueIn_zeros (key x y : Text) : (valueIn key (x ++ 0 :: 0 :: y)).isSome := by
  obtain ⟨s, rest, heq, hmem⟩ := terminated_zeros x y
  unfold valueIn
  rw [heq]
  simp only
  cases jsonGetObject s with
  | none => rfl
  | some pos =>
    simp only
    rw [Option.isSome_map]
    exact searchStrings_stop key (List.mem_cons_of_mem pos hmem)

end QcloudIot.Utils
