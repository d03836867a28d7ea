import Mathlib.Data.List.GetD
import QcloudIot.Gateway.Messages
import QcloudIot.Utils.JsonIteration
import QcloudIot.Utils.JsonPlain

/-!
# The list of bindings

`_subdev_proc_get_bindlist` and `_subdev_add_bindinfo` of `gateway_common.c`, with
`json_array_for_each_entry` of `json_parser.h`. Each element of the array is ended in place while its
names are looked up; where one of them is missing, the turn is left before the character is put back.

* The buffer is a list of characters, with its terminator behind it; a string ends at the first zero.
* `none` where the code reads on behind the end of a string or of the buffer. Memory is always there.

## Results

* `arrayElements`: what the macro hands out of a text that nobody writes to;
* `bindLoop_zero`: a character once cleared stays cleared;
* `subdevProcGetBindlist_iff`: the loop leaves the text as it was iff no element with text behind it
  lacks a name, and adds then what has both;
* **`bindList_iff`**: the array's entries with both names are added, and the text is unchanged, exactly
  then;
* `bindList_plain`: where strings hold no brackets, iff every entry has both.
-/

namespace QcloudIot.Gateway

open Lib Utils

/-! ## The elements of an array -/

/-- `json_get_next_object`, for an array: no name is read. -/
def jsonGetNextElement (str : Text) : Option NextObject :=
  (valueStart str).map fun v => ⟨[], v.1, v.2⟩

/-- The text of an element. -/
def elementText (o : NextObject) : Text := o.val.take o.valLen

/-- What stands behind it. -/
def elementRest (o : NextObject) : Text := o.val.drop o.valLen

/-- `json_array_for_each_entry` with nothing in its body. Every turn shortens the string. -/
def elementsLoop : Nat → Text → Option (List NextObject)
  | 0, _ => some []
  | _, [] => some []
  | fuel + 1, _ :: rest =>
    match jsonGetNextElement rest with
    | none => some []
    | some o => o.next.bind fun pos => (elementsLoop fuel pos).map (o :: ·)

/-- `json_get_object`, for an array. -/
def jsonGetArray : Text → Option Text
  | [] => none
  | c :: s => if c = 32 then jsonGetArray s else if c = 91 then some (c :: s) else none

/-- The elements that are handed out. -/
def arrayElements (str : Text) : Option (List NextObject) :=
  match jsonGetArray str with
  | none => some []
  | some pos => elementsLoop pos.length pos

/-! ## The functions -/

/-- `SubdevBindInfo`. -/
structure SubdevBindInfo where
  productId : Text
  deviceName : Text
  deriving DecidableEq, Repr

/-- `SubdevBindList`, from its head on. -/
structure SubdevBindList where
  bindlist : List SubdevBindInfo
  bindNum : Nat
  deriving DecidableEq, Repr

/-- The names as they are copied. -/
def bindInfo (productId deviceName : Text) : SubdevBindInfo :=
  ⟨productId.take maxSizeOfProductId, deviceName.take maxSizeOfDeviceName⟩

/-- A new head. -/
def SubdevBindList.push (l : SubdevBindList) (info : SubdevBindInfo) : SubdevBindList :=
  ⟨info :: l.bindlist, l.bindNum + 1⟩

/-- `_subdev_add_bindinfo`; `none` is `NULL`. -/
def subdevAddBindinfo (l : SubdevBindList) (productId deviceName : Text) : Option SubdevBindList :=
  if productId = [] then none
  else if deviceName = [] then none
  else some (l.push (bindInfo productId deviceName))

/-- The string at an offset of the buffer. -/
def stringAt (buf : Text) (p : Nat) : Text := (buf.drop p).takeWhile (· ≠ 0)

/-- The loop of `_subdev_proc_get_bindlist`. -/
def bindLoop : (fuel : Nat) → (buf : Text) → (pos : Nat) → SubdevBindList →
    Option (Text × SubdevBindList)
  | 0, _, _, _ => none
  | fuel + 1, buf, pos, l =>
    if pos > buf.length then none
    else if stringAt buf pos = [] then some (buf, l)
    else
      let str := stringAt buf (pos + 1)
      match jsonGetNextElement str with
      | none => some (buf, l)
      | some o =>
        let entry := pos + 1 + (str.length - o.val.length)
        let next := entry + o.skip
        -- backup_json_str_last_char
        let oldCh := buf.getD (entry + o.valLen) 0
        let cut := buf.set (entry + o.valLen) 0
        match liteJsonValueOf productIdField (stringAt cut entry) with
        | none => none
        | some none => bindLoop fuel cut next l
        | some (some productId) =>
          match liteJsonValueOf deviceNameField (stringAt cut entry) with
          | none => none
          | some none => bindLoop fuel cut next l
          | some (some deviceName) =>
            match subdevAddBindinfo l productId deviceName with
            | none => some (cut, l)
            -- restore_json_str_last_char
            | some l => bindLoop fuel (cut.set (entry + o.valLen) oldCh) next l

/-- `_subdev_proc_get_bindlist`: the text it leaves, and the list. -/
def subdevProcGetBindlist (l : SubdevBindList) (devices : Text) : Option (Text × SubdevBindList) :=
  match jsonGetArray devices with
  | none => some (devices, l)
  | some pos => bindLoop (devices.length + 1) devices (devices.length - pos.length) l

/-! ## What an element adds -/

/-- The names that are read from the text of an element: `some none` if one is missing. -/
def readNames (t : Text) : Option (Option SubdevBindInfo) :=
  (liteJsonValueOf productIdField t).bind fun productId =>
    match productId with
    | none => some none
    | some productId => (liteJsonValueOf deviceNameField t).map fun deviceName =>
      deviceName.map (bindInfo productId)

/-- The element has both names, or it is the last thing in the text. -/
def Harmless (o : NextObject) : Prop :=
  (∃ info, readNames (elementText o) = some (some info)) ∨
    readNames (elementText o) = some none ∧ elementRest o = []

/-- What it adds. -/
def added (o : NextObject) : Option SubdevBindInfo := (readNames (elementText o)).join

/-- New heads, one after the other. -/
def SubdevBindList.pushAll (l : SubdevBindList) (infos : List SubdevBindInfo) : SubdevBindList :=
  infos.foldl SubdevBindList.push l

theorem pushAll_bindlist (infos : List SubdevBindInfo) : ∀ l : SubdevBindList,
    (l.pushAll infos).bindlist = infos.reverse ++ l.bindlist := by
  induction infos with
  | nil => exact fun _ => rfl
  | cons info infos ih =>
    intro l
    rw [SubdevBindList.pushAll, List.foldl_cons, List.reverse_cons, List.append_assoc]
    exact ih (l.push info)

theorem pushAll_bindNum (infos : List SubdevBindInfo) : ∀ l : SubdevBindList,
    (l.pushAll infos).bindNum = infos.length + l.bindNum := by
  induction infos with
  | nil => exact fun l => (Nat.zero_add _).symm
  | cons info infos ih =>
    intro l
    have h := ih (l.push info)
    rw [SubdevBindList.pushAll, List.foldl_cons, List.length_cons]
    refine h.trans ?_
    change infos.length + (l.bindNum + 1) = _
    omega

/-! ## One turn -/

/-- No value is found without characters. -/
theorem valueLen_nil (type : JsonType) : valueLen type [] = 0 := by
  cases type <;> rfl

theorem search_ne_nil {name : Text} : ∀ {fuel : Nat} {pos : Text} {o : NextObject},
    searchLoop name fuel pos = some (some o) → o.valLen ≠ 0
  | 0, _, _, h => by cases h
  | fuel + 1, pos, o, h => by
    rw [searchLoop] at h
    split at h
    · cases h
    split at h
    · cases h
    rename_i o' _
    split at h
    · rename_i hfound
      cases h
      exact hfound.2.1
    · obtain ⟨pos', -, h⟩ := Option.bind_eq_some_iff.mp h
      exact search_ne_nil h

/-- What a lookup returns is not empty. -/
theorem followKey_ne_nil {v : Text} : ∀ {path : List Text} {src : Text},
    followKey path src = some (some v) → v ≠ []
  | [], _, h => by cases h
  | [name], src, h => by
    obtain ⟨found, hfound, h⟩ := Option.map_eq_some_iff.mp h
    obtain ⟨o, rfl, rfl⟩ := Option.map_eq_some_iff.mp h
    have hlen : o.valLen ≠ 0 := by
      unfold jsonGetValueByName at hfound
      split at hfound
      · cases hfound
      · exact search_ne_nil hfound
    intro hnil
    rcases List.take_eq_nil_iff.mp hnil with hzero | hval
    · exact hlen hzero
    · rw [NextObject.valLen, hval, valueLen_nil] at hlen
      exact hlen rfl
  | name :: name' :: path, src, h => by
    rw [followKey_cons] at h
    obtain ⟨found, -, h⟩ := Option.bind_eq_some_iff.mp h
    cases found with
    | none => cases h
    | some o => exact followKey_ne_nil h

/-- The string up to a character that is cleared. -/
theorem takeWhile_set {val : Text} (h : 0 ∉ val) (n : Nat) :
    (val.set n 0).takeWhile (· ≠ 0) = val.take n := by
  induction val generalizing n with
  | nil => simp
  | cons c val ih =>
    rw [List.mem_cons, not_or] at h
    cases n with
    | zero => simp
    | succ n =>
      rw [List.set_cons_succ, List.take_succ_cons, List.takeWhile_cons,
        if_pos (by simpa using Ne.symm h.1),
        ih h.2]

theorem stringAt_set (front : Text) {val : Text} (h : 0 ∉ val) (n : Nat) :
    stringAt ((front ++ val).set (front.length + n) 0) front.length = val.take n := by
  rw [stringAt, List.set_append_right _ _ (Nat.le_add_right _ _), Nat.add_sub_cancel_left,
    List.drop_left, takeWhile_set h]

theorem stringAt_append (front : Text) {u : Text} (h : 0 ∉ u) : stringAt (front ++ u) front.length = u := by
  have htake := stringAt_set front h u.length
  rwa [List.set_eq_of_length_le (Nat.le_of_eq List.length_append), List.take_length] at htake

/-- Behind its first character. -/
theorem stringAt_tail {front rest : Text} {c : UInt8} (h : 0 ∉ c :: rest) :
    stringAt (front ++ c :: rest) (front.length + 1) = rest := by
  have hstr := stringAt_append (front ++ [c]) (show 0 ∉ rest from fun hmem =>
    h (List.mem_cons_of_mem c hmem))
  rwa [List.append_assoc, List.length_append] at hstr

theorem set_restore (buf : Text) (k : Nat) : (buf.set k 0).set k (buf.getD k 0) = buf := by
  rw [List.set_set]
  by_cases hk : k < buf.length
  · rw [List.getD_eq_getElem _ _ hk, List.set_getElem_self]
  · exact List.set_eq_of_length_le (Nat.le_of_not_lt hk)

theorem nextElement_suffix {rest : Text} {o : NextObject} (h : jsonGetNextElement rest = some o) :
    o.val <:+ rest := by
  obtain ⟨v, hv, rfl⟩ := Option.map_eq_some_iff.mp h
  exact valueStart_suffix hv

/-- A turn that finds nothing. -/
theorem bindLoop_none {front rest : Text} {c : UInt8} (hzero : 0 ∉ c :: rest)
    (ho : jsonGetNextElement rest = none) (fuel : Nat) (l : SubdevBindList) :
    bindLoop (fuel + 1) (front ++ c :: rest) front.length l = some (front ++ c :: rest, l) := by
  rw [bindLoop, if_neg (by rw [List.length_append]; omega), stringAt_append front hzero,
    if_neg (List.cons_ne_nil c rest), stringAt_tail hzero]
  simp only [ho]

/-- **One turn**: where the element starts, and what happens to it. -/
theorem bindLoop_turn {front rest : Text} {c : UInt8} (hzero : 0 ∉ front ++ c :: rest)
    {o : NextObject} (ho : jsonGetNextElement rest = some o) (fuel : Nat) (l : SubdevBindList) :
    ∃ before, front ++ c :: rest = before ++ o.val ∧ front.length < before.length ∧
      bindLoop (fuel + 1) (front ++ c :: rest) front.length l =
        match readNames (elementText o) with
        | none => none
        | some none => bindLoop fuel ((front ++ c :: rest).set (before.length + o.valLen) 0)
            (before.length + o.skip) l
        | some (some info) =>
          bindLoop fuel (front ++ c :: rest) (before.length + o.skip) (l.push info) := by
  obtain ⟨gap, hgap⟩ := nextElement_suffix ho
  have hsplit : front ++ c :: rest = (front ++ c :: gap) ++ o.val := by
    rw [← hgap, List.append_assoc, List.cons_append]
  have hlen : front.length + 1 + (rest.length - o.val.length) = (front ++ c :: gap).length := by
    rw [← hgap, List.length_append, List.length_append, List.length_cons]
    omega
  have hcons : 0 ∉ c :: rest := fun h => hzero (List.mem_append_right _ h)
  have hval : 0 ∉ o.val := fun h => hcons (List.mem_cons_of_mem c (hgap ▸ List.mem_append_right gap h))
  refine ⟨front ++ c :: gap, hsplit, by rw [List.length_append, List.length_cons]; omega, ?_⟩
  have hentry : stringAt ((front ++ c :: rest).set ((front ++ c :: gap).length + o.valLen) 0)
      (front ++ c :: gap).length = elementText o := by
    rw [hsplit]
    exact stringAt_set _ hval o.valLen
  rw [bindLoop, if_neg (by rw [List.length_append]; omega), stringAt_append front hcons,
    if_neg (List.cons_ne_nil c rest), stringAt_tail hcons]
  simp only [ho, hlen, hentry, set_restore]
  cases hproduct : liteJsonValueOf productIdField (elementText o) with
  | none => simp only [readNames, hproduct, Option.bind_none]
  | some productId =>
    cases productId with
    | none => simp only [readNames, hproduct, Option.bind_some]
    | some productId =>
      cases hdevice : liteJsonValueOf deviceNameField (elementText o) with
      | none => simp only [readNames, hproduct, hdevice, Option.bind_some, Option.map_none]
      | some deviceName =>
        cases deviceName with
        | none =>
          simp only [readNames, hproduct, hdevice, Option.bind_some, Option.map_some, Option.map_none]
        | some deviceName =>
          simp only [readNames, hproduct, hdevice, Option.bind_some, Option.map_some,
            subdevAddBindinfo, if_neg (followKey_ne_nil hproduct), if_neg (followKey_ne_nil hdevice)]

/-- **A character once cleared stays cleared.** -/
theorem bindLoop_zero : ∀ {fuel : Nat} {buf buf' : Text} {pos : Nat} {l l' : SubdevBindList} {i : Nat},
    bindLoop fuel buf pos l = some (buf', l') → buf[i]? = some 0 → buf'[i]? = some 0
  | 0, _, _, _, _, _, _, h, _ => by cases h
  | fuel + 1, buf, buf', pos, l, l', i, h, hi => by
    have hcut : ∀ k, (buf.set k 0)[i]? = some 0 := fun k => by
      rw [List.getElem?_set]
      split
      · rename_i hk
        rw [if_pos (hk ▸ (List.getElem?_eq_some_iff.mp hi).1)]
      · exact hi
    rw [bindLoop] at h
    split at h
    · cases h
    split at h
    · cases h
      exact hi
    simp only at h
    split at h
    · cases h
      exact hi
    rename_i o _
    split at h
    · cases h
    · exact bindLoop_zero h (hcut _)
    split at h
    · cases h
    · exact bindLoop_zero h (hcut _)
    split at h
    · cases h
      exact hcut _
    · rw [set_restore] at h
      exact bindLoop_zero h hi

/-! ## The loop -/

theorem bindLoop_end {fuel pos : Nat} {buf : Text} (h : buf.length < pos) (l : SubdevBindList) :
    bindLoop fuel buf pos l = none := by
  cases fuel with
  | zero => rfl
  | succ fuel => rw [bindLoop, if_pos h]

theorem harmless_of_some {o : NextObject} {info : SubdevBindInfo}
    (h : readNames (elementText o) = some (some info)) : Harmless o ∧ added o = some info :=
  ⟨.inl ⟨info, h⟩, by rw [added, h]; rfl⟩

theorem harmless_of_none {o : NextObject} (h : readNames (elementText o) = some none) :
    (Harmless o ↔ elementRest o = []) ∧ added o = none := by
  refine ⟨⟨?_, fun hrest => .inr ⟨h, hrest⟩⟩, by rw [added, h]; rfl⟩
  rintro (⟨info, hinfo⟩ | ⟨-, hrest⟩)
  · rw [h] at hinfo
    cases hinfo
  · exact hrest

/-- Where no element is handed out, nothing changes. -/
theorem handedOut_nil (buf : Text) (l l' : SubdevBindList) : some (buf, l) = some (buf, l') ↔
    ∃ els, some [] = some els ∧ (∀ o ∈ els, Harmless o) ∧ l' = l.pushAll (els.filterMap added) := by
  constructor
  · rintro ⟨⟩
    exact ⟨[], rfl, fun o ho => absurd ho List.not_mem_nil, rfl⟩
  · rintro ⟨els, ⟨⟩, -, rfl⟩
    rfl

/-- An element in front of those the loop hands out. -/
theorem handedOut_cons {found : Option (List NextObject)} {o : NextObject}
    (p : List NextObject → Prop) :
    (∃ els, found.map (o :: ·) = some els ∧ (∀ o ∈ els, Harmless o) ∧ p els) ↔
      Harmless o ∧ ∃ els, found = some els ∧ (∀ o ∈ els, Harmless o) ∧ p (o :: els) := by
  constructor
  · rintro ⟨_, hmap, hall, hp⟩
    obtain ⟨els, hels, rfl⟩ := Option.map_eq_some_iff.mp hmap
    obtain ⟨ho, hall⟩ := List.forall_mem_cons.mp hall
    exact ⟨ho, els, hels, hall, hp⟩
  · rintro ⟨ho, els, hels, hall, hp⟩
    exact ⟨o :: els, by rw [hels]; rfl, List.forall_mem_cons.mpr ⟨ho, hall⟩, hp⟩

/-- What an element adds comes before what those behind it add. -/
theorem pushAll_added (l : SubdevBindList) (o : NextObject) (els : List NextObject) :
    l.pushAll ((o :: els).filterMap added) =
      ((added o).elim l l.push).pushAll (els.filterMap added) := by
  rw [List.filterMap_cons]
  cases added o <;> rfl

section Element

variable {buf : Text} {o : NextObject} {fuel start : Nat} {l l' : SubdevBindList}

/-- **An element the loop goes on behind**, where `Q` says what the rest of the text asks for. -/
theorem bindLoop_element (hzero : 0 ∉ buf) (hbuf : start + o.val.length = buf.length)
    {Q : SubdevBindList → Prop}
    (ih : ∀ l, bindLoop fuel buf (start + o.skip) l = some (buf, l') ↔ Q l) :
    (match readNames (elementText o) with
      | none => none
      | some none => bindLoop fuel (buf.set (start + o.valLen) 0) (start + o.skip) l
      | some (some info) => bindLoop fuel buf (start + o.skip) (l.push info)) = some (buf, l') ↔
      Harmless o ∧ Q ((added o).elim l l.push) := by
  cases hread : readNames (elementText o) with
  | none =>
    refine iff_of_false (fun h => nomatch h) fun h => ?_
    rcases h.1 with ⟨info, hinfo⟩ | ⟨hnone, -⟩
    · rw [hread] at hinfo
      cases hinfo
    · rw [hread] at hnone
      cases hnone
  | some found =>
    cases found with
    | some info =>
      obtain ⟨hharmless, hadded⟩ := harmless_of_some hread
      rw [hadded, Option.elim_some]
      exact (ih _).trans ⟨fun h => ⟨hharmless, h⟩, And.right⟩
    | none =>
      obtain ⟨hharmless, hadded⟩ := harmless_of_none hread
      rw [hadded, Option.elim_none, hharmless]
      by_cases hrest : elementRest o = []
      · have hend := List.drop_eq_nil_iff.mp hrest
        simp only
        rw [List.set_eq_of_length_le (by omega), ih]
        exact ⟨fun h => ⟨hrest, h⟩, And.right⟩
      · -- a character is left cleared
        refine iff_of_false (fun h => hzero ?_) fun h => hrest h.1
        have hbehind : o.valLen < o.val.length := by
          by_contra hge
          exact hrest (List.drop_eq_nil_of_le (Nat.le_of_not_lt hge))
        refine List.mem_of_getElem? (bindLoop_zero (i := start + o.valLen) h ?_)
        rw [List.getElem?_set_self (by omega)]

/-- An element behind which the pointer has left the buffer. -/
theorem bindLoop_beyond (h : buf.length < start + o.skip) :
    (match readNames (elementText o) with
      | none => none
      | some none => bindLoop fuel (buf.set (start + o.valLen) 0) (start + o.skip) l
      | some (some info) => bindLoop fuel buf (start + o.skip) (l.push info)) = none := by
  split
  · rfl
  · exact bindLoop_end (by rw [List.length_set]; exact h) l
  · exact bindLoop_end h _

end Element

/-- **The text is unchanged iff every element is harmless**, and then what has both names is added.
The induction is on the turns; once a character is left cleared the text differs. -/
theorem bindLoop_iff : ∀ {fuel n : Nat} {front u : Text} {l l' : SubdevBindList},
    0 ∉ front ++ u → u.length < fuel → u.length ≤ n →
    (bindLoop fuel (front ++ u) front.length l = some (front ++ u, l') ↔
      ∃ els, elementsLoop n u = some els ∧ (∀ o ∈ els, Harmless o) ∧
        l' = l.pushAll (els.filterMap added))
  | 0, _, _, _, _, _, _, hfuel, _ => absurd hfuel (Nat.not_lt_zero _)
  | fuel + 1, n, front, [], l, l', hzero, _, _ => by
    have hloop : elementsLoop n [] = some [] := by cases n <;> rfl
    have hstr : stringAt (front ++ []) front.length = [] := stringAt_append front List.not_mem_nil
    rw [bindLoop, if_neg (by rw [List.append_nil]; omega), if_pos hstr, hloop]
    exact handedOut_nil _ l l'
  | fuel + 1, 0, front, c :: rest, l, l', _, _, hn => absurd hn (Nat.not_succ_le_zero _)
  | fuel + 1, n + 1, front, c :: rest, l, l', hzero, hfuel, hn => by
    have hcons : 0 ∉ c :: rest := fun h => hzero (List.mem_append_right _ h)
    rw [elementsLoop]
    cases ho : jsonGetNextElement rest with
    | none =>
      rw [bindLoop_none hcons ho]
      exact handedOut_nil _ l l'
    | some o =>
      obtain ⟨before, hsplit, hlt, hturn⟩ := bindLoop_turn hzero ho fuel l
      have hlen : before.length + o.val.length = (front ++ c :: rest).length := by
        rw [hsplit, List.length_append]
      have hu : (front ++ c :: rest).length = front.length + (rest.length + 1) := by
        rw [List.length_append, List.length_cons]
      rw [List.length_cons] at hfuel hn
      rw [hturn]
      simp only
      by_cases hskip : o.skip ≤ o.val.length
      · -- the loop goes on behind the element
        have hnext : o.next = some (o.val.drop o.skip) := if_pos hskip
        have hbuf : front ++ c :: rest = (before ++ o.val.take o.skip) ++ o.val.drop o.skip := by
          rw [hsplit, List.append_assoc, List.take_append_drop]
        have hpos : before.length + o.skip = (before ++ o.val.take o.skip).length := by
          rw [List.length_append, List.length_take, Nat.min_eq_left hskip]
        have hdrop : (o.val.drop o.skip).length = o.val.length - o.skip := List.length_drop
        have ih : ∀ l, bindLoop fuel (front ++ c :: rest) (before.length + o.skip) l =
            some (front ++ c :: rest, l') ↔ ∃ els, elementsLoop n (o.val.drop o.skip) = some els ∧
              (∀ o ∈ els, Harmless o) ∧ l' = l.pushAll (els.filterMap added) := fun l => by
          rw [hbuf] at hzero ⊢
          rw [hpos]
          exact bindLoop_iff hzero (by omega) (by omega)
        rw [hnext, Option.bind_some, handedOut_cons fun els => l' = l.pushAll (els.filterMap added)]
        simp only [pushAll_added]
        exact bindLoop_element hzero hlen ih
      · -- the pointer lies behind the end of the buffer
        have hnext : o.next = none := if_neg hskip
        rw [hnext, bindLoop_beyond (by omega)]
        exact iff_of_false (fun h => nomatch h) fun ⟨els, hels, _⟩ => nomatch hels

theorem jsonGetArray_suffix : ∀ {str pos : Text}, jsonGetArray str = some pos → pos <:+ str
  | [], _, h => by cases h
  | c :: str, pos, h => by
    rw [jsonGetArray] at h
    split at h
    · exact (jsonGetArray_suffix h).trans (List.suffix_cons c str)
    split at h
    · cases h
      exact List.suffix_rfl
    · cases h

/-- **The text stays as it was iff every element is harmless**; what has both names is then added. -/
theorem subdevProcGetBindlist_iff {devices : Text} (hzero : 0 ∉ devices) (l l' : SubdevBindList) :
    subdevProcGetBindlist l devices = some (devices, l') ↔
      ∃ els, arrayElements devices = some els ∧ (∀ o ∈ els, Harmless o) ∧
        l' = l.pushAll (els.filterMap added) := by
  unfold subdevProcGetBindlist arrayElements
  cases hpos : jsonGetArray devices with
  | none =>
    exact handedOut_nil _ l l'
  | some pos =>
    obtain ⟨front, rfl⟩ := jsonGetArray_suffix hpos
    simp only [List.length_append, Nat.add_sub_cancel]
    exact bindLoop_iff hzero (by omega) (Nat.le_refl _)

/-! ## Arrays of objects -/

/-- The elements of an array, in order. -/
def elementList : JsonElements → List Json
  | .last _ v _ => [v]
  | .more _ v _ rest => v :: elementList rest

def elementsOf : Json → List Json
  | .array elements => elementList elements
  | _ => []

/-- A value of `payload.devices`: an array of objects. -/
structure Devices where
  json : Json
  isArray : (∃ space, json = .emptyArray space) ∨ ∃ elements, json = .array elements
  objects : ∀ e ∈ elementsOf json, e.isObject = true

namespace Devices

/-- The text that is parsed. -/
def text (d : Devices) : Text := d.json.text

def entries (d : Devices) : List Json := elementsOf d.json

theorem zero_notMem (d : Devices) : 0 ∉ d.text := by
  have h := d.json.zero_notMem_text noSpace noSpace
  rwa [show noSpace.bytes = [] from rfl, List.nil_append, List.append_nil] at h

end Devices

/-- The names of an entry that has both. -/
def entryInfo (e : Json) : Option SubdevBindInfo :=
  (e.lookup [productIdField]).bind fun productId =>
    (e.lookup [deviceNameField]).map fun deviceName =>
      bindInfo (plainText productId) (plainText deviceName)

/-- Each entry that has both names is added once, nothing else is, the number is that of the list, and
the text is unchanged. -/
def BindsAll (d : Devices) (l : SubdevBindList) : Prop :=
  ∃ l', subdevProcGetBindlist l d.text = some (d.text, l') ∧
    l'.bindlist.Perm (d.entries.filterMap entryInfo ++ l.bindlist) ∧
    (l.bindNum = l.bindlist.length → l'.bindNum = l'.bindlist.length)

/-- The macro, on the text as it is, hands out elements with both names, but perhaps for one at the end
of the text; and the names read from them are those of the entries. -/
def ReadsAll (d : Devices) : Prop :=
  ∃ els, arrayElements d.text = some els ∧ (∀ o ∈ els, Harmless o) ∧
    (els.filterMap added).Perm (d.entries.filterMap entryInfo)

theorem bindsAll_iff_readsAll (d : Devices) (l : SubdevBindList) : BindsAll d l ↔ ReadsAll d := by
  have hperm : ∀ infos : List SubdevBindInfo,
      (l.pushAll infos).bindlist.Perm (d.entries.filterMap entryInfo ++ l.bindlist) ↔
        infos.Perm (d.entries.filterMap entryInfo) := fun infos => by
    rw [pushAll_bindlist, List.perm_append_right_iff]
    exact ⟨(List.reverse_perm infos).symm.trans, (List.reverse_perm infos).trans⟩
  constructor
  · rintro ⟨l', hproc, hadded, -⟩
    obtain ⟨els, hels, hharmless, rfl⟩ := (subdevProcGetBindlist_iff d.zero_notMem l l').mp hproc
    exact ⟨els, hels, hharmless, (hperm _).mp hadded⟩
  · rintro ⟨els, hels, hharmless, hadded⟩
    refine ⟨_, (subdevProcGetBindlist_iff d.zero_notMem l _).mpr ⟨els, hels, hharmless, rfl⟩,
      (hperm _).mpr hadded, fun hnum => ?_⟩
    rw [pushAll_bindNum, pushAll_bindlist, List.length_append, List.length_reverse, hnum]

/-! ## Arrays the scanner takes as they are -/

theorem space_starts (space : JsonSpace) : ∀ c ∈ space.bytes, ¬ StartsValue c := by
  intro c hc
  rcases space.blank c hc with rfl | rfl | rfl | rfl <;> decide

/-- What stands between two entries, or behind the last. -/
theorem separator_starts (space : JsonSpace) {c : UInt8} (hc : ¬ StartsValue c) :
    ∀ d ∈ space.bytes ++ [c], ¬ StartsValue d := by
  intro d hd
  rcases List.mem_append.mp hd with hd | hd
  · exact space_starts space d hd
  · rwa [List.mem_singleton.mp hd]

/-- **An entry is handed out** as it stands in the text. -/
theorem nextElement_object {e : Json} (hobject : e.isObject = true) (hquiet : e.Strings Quiet)
    {gap rest : Text} (hgap : ∀ c ∈ gap, ¬ StartsValue c) (before : JsonSpace) (hends : Ends rest) :
    ∃ o, jsonGetNextElement (gap ++ (before.bytes ++ (e.text ++ rest))) = some o ∧
      o.next = some rest ∧ elementText o = e.text ∧ elementRest o = rest := by
  obtain ⟨htext, -⟩ := scanned_object hobject
  have hleft : leftOver e = [] ∧ scanned e = e.text := by
    cases e with
    | emptyObject space => exact ⟨rfl, rfl⟩
    | object members => exact ⟨rfl, rfl⟩
    | _ => cases hobject
  have hskips := skips_of_quiet hquiet
  have hlen := valueLen_eq hskips hends
  have hnext := next_eq hskips hends []
  rw [htext, hleft.2] at hlen
  rw [htext, hleft.1, List.nil_append] at hnext
  refine ⟨⟨[], typeOf e, e.text ++ rest⟩, ?_, hnext, ?_, ?_⟩
  · rw [jsonGetNextElement, valueStart_skips hgap, valueStart_space _ before.blank, valueStart_text,
      htext]
    rfl
  · change (e.text ++ rest).take (valueLen (typeOf e) (e.text ++ rest)) = _
    rw [hlen, List.take_left]
  · change (e.text ++ rest).drop (valueLen (typeOf e) (e.text ++ rest)) = _
    rw [hlen, List.drop_left]

/-- **All entries are handed out**, none of them last in the text. -/
theorem elementsLoop_entries : ∀ (es : JsonElements) (gap : Text) {n : Nat} {c : UInt8},
    (∀ e ∈ elementList es, e.isObject = true ∧ e.Strings Quiet) →
    (∀ d ∈ gap, ¬ StartsValue d) → (c :: (gap ++ es.text)).length ≤ n →
    ∃ els, elementsLoop n (c :: (gap ++ es.text)) = some els ∧
      els.map elementText = (elementList es).map Json.text ∧ ∀ o ∈ els, elementRest o ≠ []
  | _, _, 0, _, _, _, hn => absurd hn (Nat.not_succ_le_zero _)
  | .last before v after, gap, n + 1, c, hes, hgap, hn => by
    obtain ⟨hobject, hquiet⟩ := hes v List.mem_cons_self
    have htext : (JsonElements.last before v after).text =
        before.bytes ++ (v.text ++ (after.bytes ++ [93])) := by
      rw [JsonElements.text]
      simp only [List.append_assoc]
    obtain ⟨o, ho, hnext, helement, hrest⟩ := nextElement_object hobject hquiet hgap before
      (ends_space after (c := 93) (by decide) [])
    have hstarts := separator_starts after (c := 93) (by decide)
    refine ⟨[o], ?_, by rw [List.map_singleton, helement]; rfl, fun o' ho' => ?_⟩
    · rw [htext, elementsLoop, ho]
      simp only [hnext, Option.bind_some]
      obtain ⟨d, t, hd⟩ := List.exists_cons_of_ne_nil
        (List.append_ne_nil_of_right_ne_nil after.bytes (List.cons_ne_nil 93 []))
      rw [hd] at hstarts ⊢
      have hnone : jsonGetNextElement t = none := by
        have h : valueStart (t ++ []) = valueStart [] :=
          valueStart_skips (fun x hx => hstarts x (List.mem_cons_of_mem d hx)) []
        rw [List.append_nil] at h
        rw [jsonGetNextElement, h]
        rfl
      cases n with
      | zero => rfl
      | succ n =>
        rw [elementsLoop, hnone]
        rfl
    · rw [List.mem_singleton.mp ho', hrest]
      exact List.append_ne_nil_of_right_ne_nil _ (List.cons_ne_nil _ _)
  | .more before v after es, gap, n + 1, c, hes, hgap, hn => by
    obtain ⟨hobject, hquiet⟩ := hes v List.mem_cons_self
    have htext : (JsonElements.more before v after es).text =
        before.bytes ++ (v.text ++ (after.bytes ++ 44 :: es.text)) := by
      rw [JsonElements.text]
      simp only [List.append_assoc]
    obtain ⟨o, ho, hnext, helement, hrest⟩ := nextElement_object hobject hquiet hgap before
      (ends_space after (c := 44) (by decide) es.text)
    have hstarts := separator_starts after (c := 44) (by decide)
    obtain ⟨d, t, hd⟩ := List.exists_cons_of_ne_nil
      (List.append_ne_nil_of_right_ne_nil after.bytes (List.cons_ne_nil 44 []))
    have hbehind : after.bytes ++ 44 :: es.text = d :: (t ++ es.text) := by
      rw [← List.cons_append, ← hd, List.append_assoc]
      rfl
    rw [hd] at hstarts
    rw [htext, hbehind] at hn
    simp only [List.length_cons, List.length_append] at hn
    obtain ⟨els, hels, hmap, hrests⟩ := elementsLoop_entries es t (n := n) (c := d)
      (fun e he => hes e (List.mem_cons_of_mem v he))
      (fun x hx => hstarts x (List.mem_cons_of_mem d hx))
      (by simp only [List.length_cons, List.length_append]; omega)
    refine ⟨o :: els, ?_, ?_, List.forall_mem_cons.mpr ⟨?_, hrests⟩⟩
    · rw [htext, elementsLoop, ho]
      simp only [hnext, Option.bind_some]
      rw [hbehind, hels]
      rfl
    · rw [List.map_cons, helement, hmap]
      rfl
    · rw [hrest]
      exact List.append_ne_nil_of_right_ne_nil _ (List.cons_ne_nil _ _)

/-- A name that the entry has, with a value that is no empty string. -/
def HasName (key : Text) (e : Json) : Prop := ∃ v, e.lookup [key] = some v ∧ ¬ IsEmpty v

def HasBoth (e : Json) : Prop := HasName productIdField e ∧ HasName deviceNameField e

/-- A document that the scanner takes as it is: no string holds a bracket or a backslash, the names of an
object are different names, and those of a subdevice are no numbers with an exponent. -/
structure Devices.Plain (d : Devices) : Prop where
  strings : ∀ e ∈ d.entries, e.Strings Quiet
  named : ∀ e ∈ d.entries, e.Named NamesOk
  noExponent : ∀ e ∈ d.entries, ∀ key ∈ [productIdField, deviceNameField], ∀ v,
    e.lookup [key] = some v → ¬ HasExponent v

theorem flatFind_member {name : Text} {v : Json} {behind : Members} : ∀ {ms : Members},
    flatFind name ms = some (v, behind) → (name, v) ∈ ms
  | [], h => by cases h
  | m :: ms, h => by
    rw [flatFind] at h
    split at h
    · rename_i hfound
      cases h
      rw [← hfound.1]
      exact List.mem_cons_self
    · exact List.mem_cons_of_mem m (flatFind_member h)

/-- Of different names the first is the only one. -/
theorem find_of_mem {name : Text} {v : Json} : ∀ {ms : Members}, (ms.map (·.1)).Nodup →
    (name, v) ∈ ms → (ms.find? fun m => m.1 = name).map (·.2) = some v
  | [], _, h => absurd h List.not_mem_nil
  | m :: ms, hnodup, h => by
    rw [List.map_cons, List.nodup_cons] at hnodup
    rw [List.find?_cons]
    rcases List.mem_cons.mp h with rfl | hms
    · simp
    · have hne : m.1 ≠ name := by
        rintro rfl
        exact hnodup.1 (List.mem_map.mpr ⟨_, hms, rfl⟩)
      simp only [hne, decide_false]
      exact find_of_mem hnodup.2 hms

/-- The lookup of one name. -/
theorem flatLookup_iff {e : Json} (hnamed : e.Named NamesOk) (key : Text) (v : Json) :
    flatLookup [key] e.members = some v ↔ e.lookup [key] = some v ∧ ¬ IsEmpty v := by
  have hlookup : e.lookup [key] = e.find key := by
    cases h : e.find key <;> simp [Json.lookup, h]
  constructor
  · intro h
    have hempty := flatLookup_notEmpty h
    obtain ⟨⟨w, behind⟩, hfind, rfl⟩ := Option.map_eq_some_iff.mp h
    have hmem := flatFind_member hfind
    refine ⟨?_, hempty⟩
    rw [hlookup]
    cases e with
    | object members => exact find_of_mem hnamed.1.1 hmem
    | _ => exact absurd hmem List.not_mem_nil
  · rintro ⟨h, hempty⟩
    have hflat := flatLookup_of_lookup hempty [] (List.cons_ne_nil key []) h
    rwa [List.append_nil] at hflat

/-- **A lookup in the text of an entry.** -/
theorem valueOf_entry {e : Json} (hobject : e.isObject = true) (hquiet : e.Strings Quiet)
    (hnamed : e.Named NamesOk) {key : Text} (hkey : NameOk key) :
    liteJsonValueOf key e.text = some ((flatLookup [key] e.members).map scanned) := by
  have hscan : Scannable [key] e.members :=
    scannable_of_quiet [key] fun m hm => Json.strings_of_mem hquiet hm
  have h := (valueOf_eq hobject hnamed noSpace
    (show (34 : UInt8) ∉ ([] : Text) from List.not_mem_nil) (List.cons_ne_nil key [])
    (fun name hname => by rwa [List.mem_singleton.mp hname]) fun _ => hscan).1
    fun b hb => absurd hb List.not_mem_nil
  rwa [show [46].intercalate [key] = key by simp, show noSpace.bytes = [] from rfl, List.nil_append,
    List.append_nil] at h

theorem nameOk_fields : NameOk productIdField ∧ NameOk deviceNameField := by
  constructor <;> decide

section

variable {d : Devices} (hd : d.Plain) {e : Json} (he : e ∈ d.entries)
include hd he

/-- The lookup of one of the two names. -/
theorem Devices.Plain.valueOf {key : Text} (hkey : key ∈ [productIdField, deviceNameField]) :
    (∀ v, e.lookup [key] = some v → ¬ IsEmpty v →
      liteJsonValueOf key e.text = some (some (plainText v))) ∧
    (¬ HasName key e → liteJsonValueOf key e.text = some none) := by
  have hnamed := hd.named e he
  have hok : NameOk key := by
    rcases List.mem_cons.mp hkey with rfl | hkey
    · exact nameOk_fields.1
    · rw [List.mem_singleton.mp hkey]
      exact nameOk_fields.2
  rw [valueOf_entry (d.objects e he) (hd.strings e he) hnamed hok]
  constructor
  · intro v hv hempty
    rw [(flatLookup_iff hnamed key v).mpr ⟨hv, hempty⟩, Option.map_some,
      scanned_eq_plainText.mpr (hd.noExponent e he key hkey v hv)]
  · intro hno
    cases hflat : flatLookup [key] e.members with
    | none => rfl
    | some v => exact absurd ⟨v, (flatLookup_iff hnamed key v).mp hflat⟩ hno

/-- What is read from the text of an entry. -/
theorem Devices.Plain.readNames_iff :
    (HasBoth e → ∃ info, readNames e.text = some (some info) ∧ entryInfo e = some info) ∧
    (¬ HasBoth e → readNames e.text = some none) := by
  obtain ⟨hproduct, hnoProduct⟩ := hd.valueOf he List.mem_cons_self
  obtain ⟨hdevice, hnoDevice⟩ := hd.valueOf he (List.mem_cons_of_mem _ List.mem_cons_self)
  unfold readNames entryInfo
  constructor
  · rintro ⟨⟨v, hv, hv'⟩, w, hw, hw'⟩
    rw [hproduct v hv hv', hdevice w hw hw', hv, hw]
    exact ⟨_, rfl, rfl⟩
  · intro hno
    by_cases hfirst : HasName productIdField e
    · obtain ⟨v, hv, hv'⟩ := hfirst
      rw [hproduct v hv hv', hnoDevice fun hsecond => hno ⟨⟨v, hv, hv'⟩, hsecond⟩]
      rfl
    · rw [hnoProduct hfirst]
      rfl

end

/-- **Plain arrays are read right iff every entry has both names.** -/
theorem readsAll_plain {d : Devices} (hd : d.Plain) : ReadsAll d ↔ ∀ e ∈ d.entries, HasBoth e := by
  obtain ⟨els, hels, hmap, hrests⟩ : ∃ els, arrayElements d.text = some els ∧
      els.map elementText = d.entries.map Json.text ∧ ∀ o ∈ els, elementRest o ≠ [] := by
    rcases d.isArray with ⟨space, h⟩ | ⟨es, h⟩
    · have htext : d.text = 91 :: (space.bytes ++ [93]) := by rw [Devices.text, h]; rfl
      have hentries : d.entries = [] := by rw [Devices.entries, h]; rfl
      have hnone := valueStart_skips (separator_starts space (c := 93) (by decide)) []
      rw [List.append_nil] at hnone
      refine ⟨[], ?_, by rw [hentries]; rfl, fun o ho => absurd ho List.not_mem_nil⟩
      rw [htext, arrayElements, jsonGetArray, if_neg (by decide), if_pos rfl]
      simp only [List.length_cons, elementsLoop, jsonGetNextElement, hnone]
      rfl
    · have htext : d.text = 91 :: ([] ++ es.text) := by rw [Devices.text, h]; rfl
      have hentries : d.entries = elementList es := by rw [Devices.entries, h]; rfl
      have hloop := elementsLoop_entries es [] (c := 91)
        (fun e he => by
          rw [← hentries] at he
          exact ⟨d.objects e he, hd.strings e he⟩)
        (fun _ h => absurd h List.not_mem_nil) (Nat.le_refl _)
      rw [htext, hentries, arrayElements, jsonGetArray, if_neg (by decide), if_pos rfl]
      exact hloop
  have hmem : ∀ e ∈ d.entries, ∃ o ∈ els, elementText o = e.text := fun e he =>
    List.mem_map.mp (hmap ▸ List.mem_map_of_mem he)
  constructor
  · rintro ⟨els', hels', hharmless, -⟩ e he
    rw [hels] at hels'
    cases hels'
    obtain ⟨o, ho, htext⟩ := hmem e he
    by_contra hno
    have hnone := (hd.readNames_iff he).2 hno
    rw [← htext] at hnone
    exact hrests o ho ((harmless_of_none hnone).1.mp (hharmless o ho))
  · intro hboth
    have hinfo : ∀ e ∈ d.entries, ∃ info, readNames e.text = some (some info) ∧
        entryInfo e = some info := fun e he => (hd.readNames_iff he).1 (hboth e he)
    refine ⟨els, hels, fun o ho => ?_, List.Perm.of_eq ?_⟩
    · obtain ⟨e, he, htext⟩ := List.mem_map.mp (hmap ▸ List.mem_map_of_mem (f := elementText) ho)
      obtain ⟨info, hread, -⟩ := hinfo e he
      exact (harmless_of_some (htext ▸ hread)).1
    · have hadded : els.filterMap added =
          (els.map elementText).filterMap fun t => (readNames t).join := by
        rw [List.filterMap_map]
        rfl
      rw [hadded, hmap, List.filterMap_map]
      refine List.filterMap_congr fun e he => ?_
      obtain ⟨info, hread, hentry⟩ := hinfo e he
      rw [hentry, Function.comp_apply, hread]
      rfl

theorem productId_valid : strRun .plain productIdField = some .plain := by decide

theorem deviceName_valid : strRun .plain deviceNameField = some .plain := by decide

theorem letter_p : strRun .plain [112] = some .plain := rfl

theorem letter_d : strRun .plain [100] = some .plain := rfl

/-- `{"product_id":"p","device_name":"d"}`. -/
def bothNames : Json :=
  .object (.more ⟨noSpace, ⟨productIdField, productId_valid⟩, noSpace, noSpace⟩
    (.string ⟨[112], letter_p⟩) noSpace
    (.last ⟨noSpace, ⟨deviceNameField, deviceName_valid⟩, noSpace, noSpace⟩
      (.string ⟨[100], letter_d⟩) noSpace))

theorem objects_one : ∀ e ∈ elementsOf (.array (.last noSpace bothNames noSpace)),
    e.isObject = true := by
  intro e he
  rw [List.mem_singleton.mp he]
  rfl

/-- One entry with both names. -/
def oneEntry : Devices := ⟨.array (.last noSpace bothNames noSpace), .inr ⟨_, rfl⟩, objects_one⟩

theorem objects_two : ∀ e ∈ elementsOf (.array (.more noSpace (.emptyObject noSpace) noSpace
    (.last noSpace bothNames noSpace))), e.isObject = true := by
  intro e he
  rcases List.mem_cons.mp he with rfl | he
  · rfl
  · rw [List.mem_singleton.mp he]
    rfl

/-- `{}` in front of it. -/
def emptyEntryFirst : Devices :=
  ⟨.array (.more noSpace (.emptyObject noSpace) noSpace (.last noSpace bothNames noSpace)),
    .inr ⟨_, rfl⟩, objects_two⟩

theorem bothNames_plain : bothNames.Strings Quiet ∧ bothNames.Named NamesOk ∧
    (∀ key ∈ [productIdField, deviceNameField], ∀ v, bothNames.lookup [key] = some v →
      ¬ HasExponent v) ∧ HasBoth bothNames := by
  refine ⟨?_, ?_, ?_, ?_⟩
  · have hp : Quiet [112] := by decide
    have hd : Quiet [100] := by decide
    exact ⟨⟨by decide, hp⟩, by decide, hd⟩
  · exact ⟨by decide, trivial, trivial⟩
  · intro key hkey v hv
    rcases List.mem_cons.mp hkey with rfl | hkey
    · cases hv
      exact id
    · rw [List.mem_singleton.mp hkey] at hv
      cases hv
      exact id
  · exact ⟨⟨_, rfl, by decide⟩, _, rfl, by decide⟩

theorem oneEntry_plain : oneEntry.Plain := by
  have hall : ∀ {p : Json → Prop}, p bothNames → ∀ e ∈ oneEntry.entries, p e := fun hp e he => by
    rwa [List.mem_singleton.mp he]
  exact ⟨hall bothNames_plain.1, hall bothNames_plain.2.1, hall bothNames_plain.2.2.1⟩

end QcloudIot.Gateway
