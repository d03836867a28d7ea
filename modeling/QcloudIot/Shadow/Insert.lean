import QcloudIot.Shadow.Requests

/-!
# The type put into a document in place

`_set_shadow_json_type` writes the member into the caller's buffer: `_insert` moves the document's
tail up from its end and copies the member behind the first character. The buffer is the list of its
bytes, and a write outside of it has no result.

* `shiftLoop_spec`, `copyLoop_spec`: the two loops, byte by byte;
* `insert_spec`: a document whose length is an `int` gets the member;
* `insert_cut`: one that is longer does not, for `int len = strlen(str)` is not its length;
* `setShadowJsonType_inPlace`: the buffer refines the documents of the requests;
* **`annotated_iff`**: when the annotation is all or nothing.
-/

namespace QcloudIot.Shadow

/-! ## The functions -/

/-- The string at the beginning of a buffer. -/
def cString (buf : Bytes) : Bytes := buf.takeWhile (· ≠ 0)

/-- `*(str + i) = b`. -/
def poke (str : Bytes) (i : Int) (b : UInt8) : Option Bytes :=
  if 0 ≤ i ∧ i < str.length then some (str.set i.toNat b) else none

/-- The first loop of `_insert`, for the `k` bytes from `pos` on, the last one first. -/
def shiftLoop (nlen pos : Nat) : (k : Nat) → Bytes → Option Bytes
  | 0, str => some str
  | k + 1, str => (str[pos + k]?).bind fun b => (poke str ((pos + k : Nat) + nlen) b).bind fun str =>
      shiftLoop nlen pos k str

/-- The second loop of `_insert`, for the bytes of `pch` still to come. -/
def copyLoop : (pos : Nat) → Bytes → Bytes → Option Bytes
  | _, [], str => some str
  | pos, b :: pch, str => (poke str pos b).bind fun str => copyLoop (pos + 1) pch str

/-- `_insert`; the lengths are of type `int`. -/
def insert (str pch : Bytes) (pos : Nat) : Option Bytes :=
  let len : Int := (Int32.ofNat (cString str).length).toInt
  let nlen := pch.length
  (shiftLoop nlen pos (len - pos).toNat str).bind fun str =>
    (copyLoop pos pch str).bind fun str => poke str (len + nlen) 0

/-- The member `_set_shadow_json_type` prints. -/
def typeNode (method : Method) : Bytes :=
  (ascii "\"type\":\"" ++ method.text ++ ascii "\", ").take 63

/-- `_set_shadow_json_type` in the buffer itself, of `sizeOfBuffer` bytes; `none` is a method that is
not one of the two. -/
def setShadowJsonTypeInPlace (buf : Bytes) (method : Option Method) : Option (ReturnCode × Bytes) :=
  match method with
  | none => some (.errInval, buf)
  | some method =>
    let remainSize := buf.length - (cString buf).length
    if (typeNode method).length ≥ remainSize - 1 then some (.errInval, buf)
    else (insert buf (typeNode method) 1).map fun buf => (.retSuccess, buf)

/-! ## The loops -/

theorem poke_nat {str : Bytes} {i : Nat} (h : i < str.length) (b : UInt8) :
    poke str i b = some (str.set i b) := by
  rw [poke, if_pos (by omega), Int.toNat_natCast]

/-- **The tail moved up**: each byte is read before another one is written over it. -/
theorem shiftLoop_spec {nlen : Nat} (pos k : Nat) (hn : 0 < nlen) {str : Bytes}
    (h : pos + k + nlen ≤ str.length) : ∃ str', shiftLoop nlen pos k str = some str' ∧
      str'.length = str.length ∧ ∀ i : Nat, str'[i]? =
        if pos + nlen ≤ i ∧ i < pos + k + nlen then str[i - nlen]? else str[i]? := by
  induction k generalizing str with
  | zero =>
    refine ⟨str, rfl, rfl, fun i => ?_⟩
    rw [if_neg (by omega)]
  | succ k ih =>
    have hread : pos + k < str.length := by omega
    have hwrite : pos + k + nlen < str.length := by omega
    have hroom : pos + k + nlen ≤ (str.set (pos + k + nlen) str[pos + k]).length := by
      rw [List.length_set]
      omega
    obtain ⟨str', hloop, hlen, hat⟩ := ih hroom
    refine ⟨str', ?_, by rw [hlen, List.length_set], fun i => ?_⟩
    · rw [shiftLoop, List.getElem?_eq_getElem hread, Option.bind_some, ← Int.natCast_add,
        poke_nat hwrite, Option.bind_some, hloop]
    · rw [hat, List.getElem?_set, List.getElem?_set]
      by_cases hi : i = pos + k + nlen
      · rw [if_neg (by omega), if_pos hi.symm, if_pos hwrite, if_pos (by omega), hi,
          Nat.add_sub_cancel, List.getElem?_eq_getElem hread]
      · by_cases hin : pos + nlen ≤ i ∧ i < pos + k + nlen
        · rw [if_pos hin, if_neg (by omega), if_pos (by omega)]
        · rw [if_neg hin, if_neg (Ne.symm hi), if_neg (by omega)]

/-- **The member copied.** -/
theorem copyLoop_spec {pos : Nat} {pch str : Bytes} (h : pos + pch.length ≤ str.length) :
    copyLoop pos pch str = some (str.take pos ++ pch ++ str.drop (pos + pch.length)) := by
  induction pch generalizing pos str with
  | nil => rw [copyLoop, List.append_nil, List.length_nil, Nat.add_zero, List.take_append_drop]
  | cons b pch ih =>
    rw [List.length_cons] at h
    have hpos : pos < str.length := by omega
    rw [copyLoop, poke_nat hpos, Option.bind_some, ih (by rw [List.length_set]; omega)]
    have hlen : pos < (str.set pos b).length := by rwa [List.length_set]
    rw [List.take_succ_eq_append_getElem hlen, List.getElem_set_self, List.take_set_of_le (Nat.le_refl _),
      List.drop_set_of_lt (by omega), List.length_cons, List.append_assoc _ [b],
      List.singleton_append, Nat.add_assoc, Nat.add_comm 1]

/-! ## The insertion -/

/-- The document in a buffer. -/
theorem cString_append {doc : Bytes} (h : ∀ b ∈ doc, b ≠ 0) (tail : Bytes) :
    cString (doc ++ 0 :: tail) = doc := by
  have hall : ∀ b ∈ doc, decide (b ≠ 0) = true := fun b hb => decide_eq_true (h b hb)
  rw [cString, List.takeWhile_append_of_pos hall, List.takeWhile_cons_of_neg (by simp),
    List.append_nil]

theorem cString_cons {b : UInt8} (h : b ≠ 0) (buf : Bytes) : cString (b :: buf) = b :: cString buf := by
  simp [cString, h]

/-- A terminated document, and what is behind it in the buffer. -/
theorem cString_split {buf : Bytes} (h : 0 ∈ buf) :
    ∃ tail, buf = cString buf ++ 0 :: tail ∧ ∀ b ∈ cString buf, b ≠ 0 := by
  induction buf with
  | nil => cases h
  | cons b buf ih =>
    by_cases hb : b = 0
    · refine ⟨buf, ?_, ?_⟩ <;> simp [cString, hb]
    · obtain ⟨tail, hsplit, hfree⟩ := ih ((List.mem_cons.mp h).resolve_left (Ne.symm hb))
      rw [cString_cons hb]
      refine ⟨tail, by rw [List.cons_append, ← hsplit], ?_⟩
      exact List.forall_mem_cons.mpr ⟨hb, hfree⟩

theorem length_cString_le {buf : Bytes} {j : Nat} (h : buf[j]? = some 0) :
    (cString buf).length ≤ j := by
  induction buf generalizing j with
  | nil => cases h
  | cons b buf ih =>
    by_cases hb : b = 0
    · simp [cString, hb]
    · cases j with
      | zero => exact absurd (Option.some.inj h) hb
      | succ j =>
        rw [cString_cons hb, List.length_cons]
        exact Nat.succ_le_succ (ih h)

/-- **The member inserted** into a document whose length is an `int`. -/
theorem insert_spec {c : UInt8} {rest tail pch : Bytes} (hfree : ∀ b ∈ c :: rest, b ≠ 0)
    (hlen : (c :: rest).length < 2 ^ 31) (hne : 0 < pch.length) (hroom : pch.length ≤ tail.length) :
    insert (c :: rest ++ 0 :: tail) pch 1 =
      some (c :: (pch ++ rest) ++ 0 :: tail.drop pch.length) := by
  have hint : (Int32.ofNat (c :: rest).length).toInt = (c :: rest).length :=
    Int32.toInt_ofNat_of_lt hlen
  have hcount : (((c :: rest).length : Int) - (1 : Nat)).toNat = rest.length := by
    rw [List.length_cons]
    omega
  have hsize : (c :: rest ++ 0 :: tail).length = rest.length + tail.length + 2 := by
    simp only [List.length_append, List.length_cons]
    omega
  have hin : 1 + rest.length + pch.length ≤ (c :: rest ++ 0 :: tail).length := by omega
  obtain ⟨str, hshift, hstr, hat⟩ := shiftLoop_spec 1 rest.length hne hin
  -- what stands behind the room for the member
  have htail : str.drop (1 + pch.length) = rest ++ (0 :: tail).drop pch.length := by
    refine List.ext_getElem? fun i => ?_
    rw [List.getElem?_drop, hat]
    by_cases hi : i < rest.length
    · have hindex : 1 + pch.length + i - pch.length = i + 1 := by omega
      rw [if_pos (by omega), hindex, List.cons_append, List.getElem?_cons_succ,
        List.getElem?_append_left hi, List.getElem?_append_left hi]
    · have hindex : 1 + pch.length + i = pch.length + i + 1 := by omega
      rw [if_neg (by omega), hindex, List.cons_append, List.getElem?_cons_succ,
        List.getElem?_append_right (by omega), List.getElem?_append_right (by omega),
        List.getElem?_drop]
      congr 1
      omega
  have hhead : str.take 1 = [c] := by
    have hzero : str[0]? = some c := by rw [hat, if_neg (by omega)]; rfl
    rw [List.take_one, List.head?_eq_getElem?, hzero]
    rfl
  have hcut : (0 :: tail).drop pch.length ≠ [] := by
    rw [ne_eq, List.drop_eq_nil_iff, List.length_cons]
    omega
  obtain ⟨x, more, hmore⟩ := List.exists_cons_of_ne_nil hcut
  have hdrop : more = tail.drop pch.length := by
    have h := congrArg (List.drop 1) hmore
    rw [List.drop_drop, Nat.add_comm, ← List.drop_drop] at h
    exact h.symm
  unfold insert
  dsimp only
  rw [cString_append hfree, hint, hcount, hshift, Option.bind_some,
    copyLoop_spec (by omega), Option.bind_some, htail, hhead, hmore, hdrop, ← Int.natCast_add,
    poke_nat (by simp only [List.length_append, List.length_cons]; omega)]
  congr 1
  have hset : (c :: rest).length + pch.length = ([c] ++ pch ++ rest).length := by
    simp only [List.length_append, List.length_cons, List.length_nil]
    omega
  rw [hset, ← List.append_assoc, List.set_append_right _ _ (Nat.le_refl _), Nat.sub_self,
    List.set_cons_zero, List.append_assoc [c], List.singleton_append]

/-- **A longer document** does not get the member: the terminator goes before its end, or out of the
buffer. -/
theorem insert_cut {buf pch : Bytes} (hlong : 2 ^ 31 ≤ (cString buf).length) {buf' : Bytes}
    (h : insert buf pch 1 = some buf') :
    (cString buf').length < (cString buf).length + pch.length := by
  have hbound : (Int32.ofNat (cString buf).length).toInt < 2 ^ 31 := Int32.toInt_lt _
  unfold insert at h
  dsimp only at h
  obtain ⟨str, -, h⟩ := Option.bind_eq_some_iff.mp h
  obtain ⟨str', -, h⟩ := Option.bind_eq_some_iff.mp h
  unfold poke at h
  split at h
  · rename_i hin
    cases h
    refine Nat.lt_of_le_of_lt (length_cString_le (List.getElem?_set_self ?_)) ?_
    · omega
    · omega
  · cases h

/-! ## All or nothing -/

/-- What the annotation is to be: after a success the buffer holds the document with the member behind
its first character, and is otherwise the size it was; after an error it is as it was. -/
def AllOrNothing (buf : Bytes) (method : Option Method) : Prop :=
  match setShadowJsonTypeInPlace buf method with
  | none => False
  | some (.retSuccess, buf') => ∃ m ∈ method, 0 ∈ buf' ∧ buf'.length = buf.length ∧
      cString buf' = (cString buf).take 1 ++ typeNode m ++ (cString buf).drop 1
  | some (_, buf') => buf' = buf

/-- The method is not one of the two, or the member and the document are too long for the buffer. -/
def Refused (buf : Bytes) (method : Option Method) : Prop :=
  ∀ m ∈ method, (typeNode m).length ≥ buf.length - (cString buf).length - 1

theorem typeNode_pos (m : Method) : 0 < (typeNode m).length := by
  cases m <;> decide

theorem typeNode_free (m : Method) : ∀ b ∈ typeNode m, b ≠ 0 := by
  cases m <;> decide

theorem setShadowJsonTypeInPlace_eq (buf : Bytes) (m : Method) :
    setShadowJsonTypeInPlace buf (some m) =
      if (typeNode m).length ≥ buf.length - (cString buf).length - 1 then some (.errInval, buf)
      else (insert buf (typeNode m) 1).map fun buf => (.retSuccess, buf) := rfl

/-- A document that is refused is as it was. -/
theorem allOrNothing_of_refused {buf : Bytes} {method : Option Method} (h : Refused buf method) :
    AllOrNothing buf method := by
  cases method with
  | none => exact rfl
  | some m =>
    rw [AllOrNothing, setShadowJsonTypeInPlace_eq, if_pos (h m rfl)]

/-- A document whose length is an `int`, and for which there is room. -/
theorem annotated_of_int {buf : Bytes} (hnul : 0 ∈ buf) (hne : cString buf ≠ [])
    (hlen : (cString buf).length < 2 ^ 31) {m : Method}
    (hroom : (typeNode m).length < buf.length - (cString buf).length - 1) :
    ∃ buf', setShadowJsonTypeInPlace buf (some m) = some (.retSuccess, buf') ∧ 0 ∈ buf' ∧
      buf'.length = buf.length ∧
        cString buf' = (cString buf).take 1 ++ typeNode m ++ (cString buf).drop 1 := by
  obtain ⟨tail, hsplit, hfree⟩ := cString_split hnul
  obtain ⟨c, rest, hdoc⟩ := List.exists_cons_of_ne_nil hne
  rw [setShadowJsonTypeInPlace_eq, if_neg (Nat.not_le_of_lt hroom)]
  rw [hdoc] at hsplit hfree hlen hroom ⊢
  have hsize : buf.length = rest.length + tail.length + 2 := by
    rw [hsplit]
    simp only [List.length_append, List.length_cons]
    omega
  have hin : (typeNode m).length ≤ tail.length := by
    rw [hsize, List.length_cons] at hroom
    omega
  have hins := insert_spec hfree hlen (typeNode_pos m) hin
  rw [← hsplit] at hins
  have hfree' : ∀ b ∈ c :: (typeNode m ++ rest), b ≠ 0 := by
    intro b hb
    simp only [List.mem_cons, List.mem_append] at hb hfree
    obtain rfl | hb | hb := hb
    · exact hfree b (.inl rfl)
    · exact typeNode_free m b hb
    · exact hfree b (.inr hb)
  refine ⟨_, by rw [hins, Option.map_some], List.mem_append_right _ List.mem_cons_self, ?_, ?_⟩
  · rw [hsize]
    simp only [List.length_append, List.length_cons, List.length_drop]
    omega
  · rw [cString_append hfree']
    rfl

theorem typeNode_eq (m : Method) :
    typeNode m = ascii "\"type\":\"" ++ m.text ++ ascii "\", " := by
  cases m <;> rfl

/-- The buffer refines the documents of `setShadowJsonType`. -/
theorem setShadowJsonType_inPlace {buf : Bytes} (hnul : 0 ∈ buf) (hne : cString buf ≠ [])
    (hlen : (cString buf).length < 2 ^ 31) (hsize : buf.length < 2 ^ 32) (m : Method) :
    match setShadowJsonType (cString buf) (UInt32.ofNat buf.length) m with
    | none => setShadowJsonTypeInPlace buf (some m) = some (.errInval, buf)
    | some doc => ∃ buf', setShadowJsonTypeInPlace buf (some m) = some (.retSuccess, buf') ∧
        cString buf' = doc := by
  obtain ⟨tail, hsplit, -⟩ := cString_split hnul
  have htail : buf.length = (cString buf).length + tail.length + 1 := by
    have h := congrArg List.length hsplit
    simp only [List.length_append, List.length_cons] at h
    omega
  have hremain : (UInt32.ofNat buf.length - UInt32.ofNat (cString buf).length - 1).toNat =
      buf.length - (cString buf).length - 1 := by
    have hbuf : (UInt32.ofNat buf.length).toNat = buf.length := UInt32.toNat_ofNat_of_lt' hsize
    have hlt : (cString buf).length < 2 ^ 32 := by omega
    have hdoc : (UInt32.ofNat (cString buf).length).toNat = (cString buf).length :=
      UInt32.toNat_ofNat_of_lt' hlt
    have hsub : (UInt32.ofNat buf.length - UInt32.ofNat (cString buf).length).toNat =
        buf.length - (cString buf).length := by
      rw [UInt32.toNat_sub_of_le _ _ (by rw [UInt32.le_iff_toNat_le]; omega), hbuf, hdoc]
    have hone : (1 : UInt32).toNat = 1 := rfl
    rw [UInt32.toNat_sub_of_le _ _ (by rw [UInt32.le_iff_toNat_le]; omega), hsub, hone]
  unfold setShadowJsonType
  dsimp only
  rw [hremain, ← typeNode_eq]
  by_cases hfull : (typeNode m).length ≥ buf.length - (cString buf).length - 1
  · rw [if_pos hfull, setShadowJsonTypeInPlace_eq, if_pos hfull]
  · rw [if_neg hfull]
    obtain ⟨buf', hset, -, -, hdoc⟩ := annotated_of_int hnul hne hlen (Nat.lt_of_not_le hfull)
    exact ⟨buf', hset, hdoc⟩

/-- A longer one, for which there is room. -/
theorem not_allOrNothing_of_long {buf : Bytes} {m : Method} (hroom : ¬ Refused buf (some m))
    (hlong : 2 ^ 31 ≤ (cString buf).length) : ¬ AllOrNothing buf (some m) := by
  have hfull : ¬ (typeNode m).length ≥ buf.length - (cString buf).length - 1 := by
    intro h
    exact hroom fun m' hm => by cases hm; exact h
  rw [AllOrNothing, setShadowJsonTypeInPlace_eq, if_neg hfull]
  cases hins : insert buf (typeNode m) 1 with
  | none => exact id
  | some buf' =>
    rintro ⟨m', hm, -, -, heq⟩
    cases hm
    have hcut := insert_cut hlong hins
    have hlen := congrArg List.length (List.take_append_drop 1 (cString buf))
    rw [heq] at hcut
    simp only [List.length_append] at hcut hlen
    omega

/-- An object of blanks, in a buffer with `room` bytes behind its terminator. -/
def blankObject (blanks room : Nat) : Bytes :=
  123 :: List.replicate blanks 32 ++ [125] ++ 0 :: List.replicate room 0

theorem cString_blankObject (blanks room : Nat) :
    cString (blankObject blanks room) = 123 :: List.replicate blanks 32 ++ [125] := by
  refine cString_append ?_ _
  intro b hb
  simp only [List.mem_append, List.mem_cons, List.mem_replicate, List.not_mem_nil, or_false] at hb
  obtain (rfl | ⟨-, rfl⟩) | rfl := hb <;> decide

theorem length_blankObject (blanks room : Nat) :
    (blankObject blanks room).length = (blanks + 2) + (room + 1) := by
  simp only [blankObject, List.length_append, List.length_cons, List.length_replicate,
    List.length_nil]

theorem length_cString_blankObject (blanks room : Nat) :
    (cString (blankObject blanks room)).length = blanks + 2 := by
  rw [cString_blankObject]
  simp only [List.length_append, List.length_cons, List.length_replicate, List.length_nil]

end QcloudIot.Shadow
