import Mathlib.Data.List.Basic
import QcloudIot.Lib.Bytes

/-!
# Building shadow documents

`put_json_node` of `shadow_client_json.c` and the functions of `shadow_client.c` that build a
document in the buffer of the caller.

* The target's `size_t` has 32 bits, as `HAL_Snprintf`'s `int` has: a size that goes through it comes
  out as it went in.
* The buffer is the string in it, up to its end. That a byte lands at or behind `sizeOfBuffer`, and
  that a remaining size is computed below zero, are recorded as they happen and stay recorded.
* A result `none`: the loop over the properties reads one that is not there.
* A `NULL` handle, buffer or array is turned away at once and is left out. What `%f` prints of a
  float is given with the float.
-/

namespace QcloudIot.Shadow

/-- A run of bytes. -/
abbrev Bytes := List UInt8

/-- The bytes of a literal. -/
def ascii (s : String) : Bytes := s.toList.map fun c => c.toNat.toUInt8

/-- The codes the functions of this module return. -/
inductive ReturnCode where
  | retSuccess | errInval | errJson | errJsonBufferTruncated | errJsonBufferTooSmall
  deriving DecidableEq, Repr

/-! ## Properties -/

/-- What `data` points to, by `type`. -/
inductive JsonData where
  | jint32 (n : Int32)
  | jint16 (n : Int16)
  | jint8 (n : Int8)
  | juint32 (n : UInt32)
  | juint16 (n : UInt16)
  | juint8 (n : UInt8)
  | jfloat (printed : Bytes)
  | jdouble (printed : Bytes)
  | jbool (b : Bool)
  | jstring (s : Bytes)
  | jobject (s : Bytes)
  deriving DecidableEq, Repr

/-- `DeviceProperty`; `none` is a `NULL` pointer. -/
structure DeviceProperty where
  key : Option Bytes
  data : Option JsonData
  deriving DecidableEq, Repr

/-- `%u`. -/
def printNat (n : Nat) : Bytes := (Nat.toDigits 10 n).map fun c => c.toNat.toUInt8

/-- `%d`. -/
def printInt (n : Int) : Bytes := if n < 0 then 45 :: printNat n.natAbs else printNat n.natAbs

/-- The text of a value. -/
def JsonData.text : JsonData → Bytes
  | .jint32 n => printInt n.toInt
  | .jint16 n => printInt n.toInt
  | .jint8 n => printInt n.toInt
  | .juint32 n => printNat n.toNat
  | .juint16 n => printNat n.toNat
  | .juint8 n => printNat n.toNat
  | .jfloat printed => printed
  | .jdouble printed => printed
  | .jbool b => if b then ascii "true" else ascii "false"
  | .jstring s => 34 :: s ++ [34]
  | .jobject s => s

/-- What `put_json_node` prints of a value. -/
def valueText (data : Option JsonData) : Bytes :=
  match data with
  | none => ascii "null,"
  | some data => data.text ++ [44]

/-- What it prints of a key. -/
def keyText (key : Bytes) : Bytes := 34 :: key ++ [34, 58]

/-! ## The buffer -/

/-- `INT_MAX`. -/
def intMax : Nat := 2 ^ 31 - 1

/-- The string in `jsonBuffer`, the token number of the client, and what has gone wrong. -/
structure JsonBuffer where
  text : Bytes
  tokenNum : UInt32
  overrun : Bool
  wrapped : Bool
  deriving DecidableEq, Repr

namespace JsonBuffer

/-- `HAL_Snprintf(jsonBuffer + start, len, …)` into a buffer of `size` bytes. -/
def halSnprintf (size : UInt32) (start : Nat) (len : UInt32) (s : Bytes) (b : JsonBuffer) :
    Int × JsonBuffer :=
  let rc : Int := if s.length ≤ intMax then s.length else -1
  if len = 0 then (rc, b)
  else
    let text := b.text.take start ++ s.take (min (len.toNat - 1) intMax)
    (rc, { b with text := text, overrun := b.overrun || decide (size.toNat ≤ text.length) })

/-- `_check_snprintf_return`; the comparison is one of unsigned numbers. -/
def checkSnprintfReturn (returnCode : Int) (maxSizeOfWrite : UInt32) : ReturnCode :=
  if returnCode % (2 ^ 32 : Nat) ≥ maxSizeOfWrite.toNat then .errJsonBufferTruncated
  else if returnCode < 0 then .errJson
  else .retSuccess

/-- A print and the check of what it returns. -/
def print (size : UInt32) (start : Nat) (len : UInt32) (s : Bytes) (b : JsonBuffer) :
    ReturnCode × JsonBuffer :=
  let (rc, b) := b.halSnprintf size start len s
  (checkSnprintfReturn rc len, b)

/-- `limit - strlen(jsonBuffer)`. -/
def remainSize (limit : UInt32) (b : JsonBuffer) : UInt32 := limit - UInt32.ofNat b.text.length

/-- The same, with the record of its going below zero. -/
def computeRemain (limit : UInt32) (b : JsonBuffer) : UInt32 × JsonBuffer :=
  (b.remainSize limit,
    { b with wrapped := b.wrapped || decide (limit.toNat < b.text.length) })

/-- The next step, if the last one succeeded. -/
def andThen (r : ReturnCode × JsonBuffer) (next : JsonBuffer → ReturnCode × JsonBuffer) :
    ReturnCode × JsonBuffer :=
  if r.1 = .retSuccess then next r.2 else r

/-- The lines that come again and again: the remaining size, its check, and a print that starts
`back` bytes before the end of the string. -/
def append (size limit : UInt32) (back : Nat) (s : Bytes) (b : JsonBuffer) :
    ReturnCode × JsonBuffer :=
  let (remain, b) := b.computeRemain limit
  if remain ≤ 1 then (.errJsonBufferTooSmall, b)
  else b.print size (b.text.length - back) remain s

/-- `put_json_node`, with `limit` for its `sizeOfBuffer`. -/
def putJsonNode (size limit : UInt32) (key : Bytes) (data : Option JsonData) (b : JsonBuffer) :
    ReturnCode × JsonBuffer :=
  andThen (b.append size limit 0 (keyText key)) (append size limit 0 (valueText data))

/-! ## The documents -/

/-- `IOT_Shadow_JSON_Init`. -/
def head (overwrite : Bool) : Bytes :=
  if overwrite then ascii "\x7b\"overwriteUpdate\":true, \"state\":\x7b" else ascii "\x7b\"state\":\x7b"

def jsonInit (sizeOfBuffer : UInt32) (overwrite : Bool) (tokenNum : UInt32) :
    ReturnCode × JsonBuffer :=
  print sizeOfBuffer 0 sizeOfBuffer (head overwrite) ⟨[], tokenNum, false, false⟩

/-- What `generate_client_token` prints. -/
def clientToken (productId : Bytes) (tokenNum : UInt32) : Bytes :=
  productId ++ 45 :: printNat tokenNum.toNat

/-- `generate_client_token` at the end of the string, with the lines around it. -/
def appendClientToken (sizeOfBuffer : UInt32) (productId : Bytes) (b : JsonBuffer) :
    ReturnCode × JsonBuffer :=
  let (remain, b) := b.computeRemain sizeOfBuffer
  if remain ≤ 1 then (.errJsonBufferTooSmall, b)
  else
    print sizeOfBuffer b.text.length remain (clientToken productId b.tokenNum)
      { b with tokenNum := b.tokenNum + 1 }

/-- `IOT_Shadow_JSON_Finalize`. -/
def jsonFinalize (sizeOfBuffer : UInt32) (productId : Bytes) (b : JsonBuffer) :
    ReturnCode × JsonBuffer :=
  andThen (andThen (b.append sizeOfBuffer sizeOfBuffer 1 (ascii "\x7d, \"clientToken\":\""))
    (appendClientToken sizeOfBuffer productId)) (append sizeOfBuffer sizeOfBuffer 0 (ascii "\"\x7d"))

/-- The loop over the properties, where `int8_t i` is to reach `count`: `properties` are those from
the next one on. An array is read at the index `i`, arguments are read one after the other. -/
def putNodes (size limit : UInt32) (array : Bool) (count : UInt8) :
    Int8 → List (Option DeviceProperty) → JsonBuffer → Option (ReturnCode × JsonBuffer)
  | i, [], b => if i.toInt < count.toNat then none else some (.retSuccess, b)
  | i, p :: properties, b =>
    if i.toInt < count.toNat then
      if array ∧ i < 0 then none
      else
        match p with
        | some ⟨some key, data⟩ =>
          let r := b.putJsonNode size limit key data
          if r.1 = .retSuccess then putNodes size limit array count (i + 1) properties r.2
          else some r
        | _ => some (.errInval, b)
    else some (.retSuccess, b)

/-- What the functions with properties have in common, up to the `},` behind the last property; the
remaining size computed for it comes along. -/
def constructNodes (sizeOfBuffer : UInt32) (overwrite array : Bool) (opening : Bytes)
    (tokenNum : UInt32) (properties : List (Option DeviceProperty)) :
    Option ((ReturnCode × JsonBuffer) × UInt32) :=
  let (rc, b) := jsonInit sizeOfBuffer overwrite tokenNum
  if rc ≠ .retSuccess then some ((rc, b), 0)
  else
    -- This remaining size, of the buffer behind the head, is what `put_json_node` gets as the size of
    -- the whole buffer.
    let (limit, b) := b.computeRemain sizeOfBuffer
    if limit ≤ 1 then some ((.errJsonBufferTooSmall, b), 0)
    else
      let (rc, b) := b.print sizeOfBuffer b.text.length limit opening
      if rc ≠ .retSuccess then some ((rc, b), 0)
      else
        (putNodes sizeOfBuffer limit array (UInt8.ofNat properties.length) 0 properties b).map fun r =>
          (andThen r (append sizeOfBuffer sizeOfBuffer 1 (ascii "\x7d,")),
            r.2.remainSize sizeOfBuffer)

/-- The six functions that construct a document. -/
inductive Construct where
  | report | reportArray | overwriteReport | reportAndDesireAllNull | desireAllNull | desirePropNull
  deriving DecidableEq, Repr

section

variable (sizeOfBuffer : UInt32) (productId : Bytes) (tokenNum : UInt32)
  (properties : List (Option DeviceProperty))

/-- `IOT_Shadow_JSON_ConstructReport`. -/
def constructReport : Option (ReturnCode × JsonBuffer) :=
  (constructNodes sizeOfBuffer false false (ascii "\"reported\":\x7b") tokenNum properties).map
    fun r => andThen r.1 (jsonFinalize sizeOfBuffer productId)

/-- `IOT_Shadow_JSON_ConstructReportArray`. -/
def constructReportArray : Option (ReturnCode × JsonBuffer) :=
  (constructNodes sizeOfBuffer false true (ascii "\"reported\":\x7b") tokenNum properties).map
    fun r => andThen r.1 (jsonFinalize sizeOfBuffer productId)

/-- `IOT_Shadow_JSON_Construct_OverwriteReport`. -/
def constructOverwriteReport : Option (ReturnCode × JsonBuffer) :=
  (constructNodes sizeOfBuffer true false (ascii "\"reported\":\x7b") tokenNum properties).map
    fun r => andThen r.1 (jsonFinalize sizeOfBuffer productId)

/-- `IOT_Shadow_JSON_ConstructReportAndDesireAllNull`. The remaining size is not computed again
before `"desired"` is printed. -/
def constructReportAndDesireAllNull : Option (ReturnCode × JsonBuffer) :=
  (constructNodes sizeOfBuffer false false (ascii "\"reported\":\x7b") tokenNum properties).map
    fun r => andThen (andThen r.1 fun b =>
      b.print sizeOfBuffer b.text.length r.2 (ascii "\"desired\": null "))
      (jsonFinalize sizeOfBuffer productId)

/-- `IOT_Shadow_JSON_ConstructDesireAllNull`. -/
def constructDesireAllNull : ReturnCode × JsonBuffer :=
  andThen (andThen (jsonInit sizeOfBuffer false tokenNum)
    (append sizeOfBuffer sizeOfBuffer 0 (ascii "\"desired\": null ")))
    (jsonFinalize sizeOfBuffer productId)

/-- `IOT_Shadow_JSON_ConstructDesirePropNull`. -/
def constructDesirePropNull : Option (ReturnCode × JsonBuffer) :=
  (constructNodes sizeOfBuffer false false (ascii "\"desired\":\x7b") tokenNum properties).map
    fun r => andThen r.1 (jsonFinalize sizeOfBuffer productId)

/-- What a call of the function gives. -/
def Construct.run : Construct → Option (ReturnCode × JsonBuffer)
  | .report => constructReport sizeOfBuffer productId tokenNum properties
  | .reportArray => constructReportArray sizeOfBuffer productId tokenNum properties
  | .overwriteReport => constructOverwriteReport sizeOfBuffer productId tokenNum properties
  | .reportAndDesireAllNull =>
    constructReportAndDesireAllNull sizeOfBuffer productId tokenNum properties
  | .desireAllNull => some (constructDesireAllNull sizeOfBuffer productId tokenNum)
  | .desirePropNull => constructDesirePropNull sizeOfBuffer productId tokenNum properties

end

/-! ## What a step does -/

/-- Nothing has gone wrong. -/
def Clean (b : JsonBuffer) : Prop := b.overrun = false ∧ b.wrapped = false

/-- What is recorded stays recorded. -/
def Keeps (b b' : JsonBuffer) : Prop :=
  (b.overrun = true → b'.overrun = true) ∧ (b.wrapped = true → b'.wrapped = true)

theorem Keeps.refl (b : JsonBuffer) : b.Keeps b := ⟨id, id⟩

theorem Keeps.trans {b b' b'' : JsonBuffer} (h : b.Keeps b') (h' : b'.Keeps b'') : b.Keeps b'' :=
  ⟨fun ho => h'.1 (h.1 ho), fun hw => h'.2 (h.2 hw)⟩

theorem not_clean_of_keeps {b b' : JsonBuffer} (h : b.Keeps b') (hb : ¬ b.Clean) : ¬ b'.Clean := by
  rintro ⟨ho, hw⟩
  refine hb ⟨?_, ?_⟩
  · cases hb : b.overrun
    · rfl
    · exact (h.1 hb).symm.trans ho
  · cases hb : b.wrapped
    · rfl
    · exact (h.2 hb).symm.trans hw

theorem keeps_print (size : UInt32) (start : Nat) (len : UInt32) (s : Bytes) (b : JsonBuffer) :
    b.Keeps (b.print size start len s).2 := by
  unfold print halSnprintf
  simp only
  split
  · exact .refl b
  · exact ⟨fun h => by simp [h], id⟩

theorem keeps_computeRemain (limit : UInt32) (b : JsonBuffer) :
    b.Keeps (b.computeRemain limit).2 :=
  ⟨id, fun h => by simp [computeRemain, h]⟩

theorem andThen_of_success {r : ReturnCode × JsonBuffer}
    {next : JsonBuffer → ReturnCode × JsonBuffer} (h : r.1 = .retSuccess) :
    andThen r next = next r.2 :=
  if_pos h

theorem andThen_of_error {r : ReturnCode × JsonBuffer}
    {next : JsonBuffer → ReturnCode × JsonBuffer} (h : r.1 ≠ .retSuccess) : andThen r next = r :=
  if_neg h

theorem keeps_andThen {b : JsonBuffer} {r : ReturnCode × JsonBuffer}
    {next : JsonBuffer → ReturnCode × JsonBuffer} (h : b.Keeps r.2)
    (hnext : ∀ b : JsonBuffer, b.Keeps (next b).2) : b.Keeps (andThen r next).2 := by
  unfold andThen
  split
  · exact h.trans (hnext r.2)
  · exact h

theorem keeps_append (size limit : UInt32) (back : Nat) (s : Bytes) (b : JsonBuffer) :
    b.Keeps (b.append size limit back s).2 := by
  unfold append
  simp only
  split
  · exact keeps_computeRemain limit b
  · exact (keeps_computeRemain limit b).trans (keeps_print _ _ _ _ _)

theorem keeps_appendClientToken (size : UInt32) (productId : Bytes) (b : JsonBuffer) :
    b.Keeps (b.appendClientToken size productId).2 := by
  unfold appendClientToken
  simp only
  split
  · exact keeps_computeRemain size b
  · obtain ⟨ho, hw⟩ := keeps_computeRemain size b
    have hprint := keeps_print size b.text.length (b.computeRemain size).1
      (clientToken productId b.tokenNum)
      { (b.computeRemain size).2 with tokenNum := b.tokenNum + 1 }
    exact ⟨fun h => hprint.1 (ho h), fun h => hprint.2 (hw h)⟩

theorem keeps_jsonFinalize (size : UInt32) (productId : Bytes) (b : JsonBuffer) :
    b.Keeps (b.jsonFinalize size productId).2 :=
  keeps_andThen (keeps_andThen (keeps_append _ _ _ _ _) (keeps_appendClientToken size productId))
    (keeps_append _ _ _ _)

theorem keeps_putJsonNode (size limit : UInt32) (key : Bytes) (data : Option JsonData)
    (b : JsonBuffer) : b.Keeps (b.putJsonNode size limit key data).2 :=
  keeps_andThen (keeps_append _ _ _ _ _) (keeps_append _ _ _ _)

theorem keeps_putNodes {size limit : UInt32} {array : Bool} {count : UInt8} {i : Int8}
    {properties : List (Option DeviceProperty)} {b : JsonBuffer} {r : ReturnCode × JsonBuffer}
    (h : b.putNodes size limit array count i properties = some r) : b.Keeps r.2 := by
  induction properties generalizing i b with
  | nil =>
    unfold putNodes at h
    split at h
    · cases h
    · cases h
      exact .refl b
  | cons p properties ih =>
    unfold putNodes at h
    split at h
    · split at h
      · cases h
      split at h
      · rename_i key data
        simp only at h
        split at h
        · exact (keeps_putJsonNode _ _ _ _ _).trans (ih h)
        · cases h
          exact keeps_putJsonNode _ _ _ _ _
      · cases h
        exact .refl b
    · cases h
      exact .refl b

/-! ## A print that fits -/

/-- The string ends within `limit`, and nothing has gone wrong. -/
structure Ready (size limit : UInt32) (b : JsonBuffer) : Prop where
  clean : b.Clean
  limit_le : limit ≤ size
  length_le : b.text.length ≤ limit.toNat

theorem toNat_remainSize {limit : UInt32} {b : JsonBuffer} (h : b.text.length ≤ limit.toNat) :
    (b.remainSize limit).toNat = limit.toNat - b.text.length := by
  have hlt := limit.toNat_lt
  have hlen : (UInt32.ofNat b.text.length).toNat = b.text.length := by
    rw [UInt32.toNat_ofNat']
    omega
  rw [remainSize, UInt32.toNat_sub_of_le _ _ (UInt32.le_iff_toNat_le.mpr (by omega)), hlen]

/-- The check passes iff all of the text has been printed. -/
theorem check_success {s : Bytes} {len : UInt32} :
    checkSnprintfReturn (if s.length ≤ intMax then s.length else -1) len = .retSuccess ↔
      s.length < len.toNat ∧ s.length ≤ intMax := by
  have hlt := len.toNat_lt
  unfold checkSnprintfReturn
  by_cases hs : s.length ≤ intMax
  · have hmod : (s.length : Int) % (2 ^ 32 : Nat) = s.length := by
      unfold intMax at hs
      omega
    rw [if_pos hs, hmod]
    by_cases hfit : s.length < len.toNat
    · rw [if_neg (by omega), if_neg (by omega)]
      exact iff_of_true rfl ⟨hfit, hs⟩
    · rw [if_pos (by omega)]
      exact iff_of_false (by decide) fun h => hfit h.1
  · rw [if_neg hs, if_pos (by omega)]
    exact iff_of_false (by decide) fun h => hs h.2

/-- All of the text fits, with its end, behind the string. -/
def Fits (limit length : Nat) (s : Bytes) : Prop :=
  length + s.length < limit ∧ s.length ≤ intMax

instance (limit length : Nat) (s : Bytes) : Decidable (Fits limit length s) :=
  inferInstanceAs (Decidable (_ ∧ _))

variable {size limit : UInt32} {b : JsonBuffer}

theorem computeRemain_eq (h : b.text.length ≤ limit.toNat) :
    b.computeRemain limit = (b.remainSize limit, b) := by
  unfold computeRemain
  rw [decide_eq_false (Nat.not_lt.mpr h), Bool.or_false]

theorem print_of_fits (h : Ready size limit b) (back : Nat) {s : Bytes} (hs : s ≠ [])
    (hfits : Fits limit.toNat b.text.length s) :
    b.print size (b.text.length - back) (b.remainSize limit) s =
      (.retSuccess, { b with text := b.text.take (b.text.length - back) ++ s }) := by
  have hpos := List.length_pos_iff.mpr hs
  have hroom := toNat_remainSize h.length_le
  have hle := UInt32.le_iff_toNat_le.mp h.limit_le
  obtain ⟨hlt, hmax⟩ := hfits
  have hne : b.remainSize limit ≠ 0 := by
    intro hzero
    rw [hzero, UInt32.toNat_zero] at hroom
    omega
  have htake : s.take (min ((b.remainSize limit).toNat - 1) intMax) = s :=
    List.take_of_length_le (by omega)
  have hover : decide (size.toNat ≤ (b.text.take (b.text.length - back) ++ s).length) = false := by
    rw [List.length_append, List.length_take]
    exact decide_eq_false (by omega)
  unfold print halSnprintf
  simp only [if_neg hne, htake, hover, Bool.or_false]
  rw [check_success.mpr ⟨by omega, hmax⟩]

/-- A text that does not fit is refused, and what is printed of it stays in the buffer. -/
theorem print_of_not_fits (h : Ready size limit b) (back : Nat) {s : Bytes}
    (hfits : ¬ Fits limit.toNat b.text.length s) :
    (b.print size (b.text.length - back) (b.remainSize limit) s).1 ≠ .retSuccess ∧
      (b.print size (b.text.length - back) (b.remainSize limit) s).2.Clean := by
  have hroom := toNat_remainSize h.length_le
  have hle := UInt32.le_iff_toNat_le.mp h.limit_le
  refine ⟨fun hrc => hfits ?_, ?_⟩
  · unfold print halSnprintf at hrc
    have hcheck : s.length < (b.remainSize limit).toNat ∧ s.length ≤ intMax := by
      simp only at hrc
      split at hrc
      · exact check_success.mp hrc
      · exact check_success.mp hrc
    exact ⟨by omega, hcheck.2⟩
  · unfold print halSnprintf
    simp only
    split
    · exact h.clean
    · rename_i hne
      have hpos : 0 < (b.remainSize limit).toNat :=
        Nat.pos_of_ne_zero fun hzero => hne (UInt32.toNat_inj.mp hzero)
      refine ⟨?_, h.clean.2⟩
      have hover : decide (size.toNat ≤ (b.text.take (b.text.length - back) ++
          s.take (min ((b.remainSize limit).toNat - 1) intMax)).length) = false := by
        rw [List.length_append, List.length_take, List.length_take]
        exact decide_eq_false (by omega)
      rw [hover, h.clean.1]
      rfl

theorem append_of_fits (h : Ready size limit b) (back : Nat) {s : Bytes} (hs : s ≠ [])
    (hfits : Fits limit.toNat b.text.length s) :
    b.append size limit back s =
      (.retSuccess, { b with text := b.text.take (b.text.length - back) ++ s }) := by
  have hpos := List.length_pos_iff.mpr hs
  have hroom := toNat_remainSize h.length_le
  have hlt := hfits.1
  unfold append
  rw [computeRemain_eq h.length_le]
  simp only
  rw [if_neg, print_of_fits h back hs hfits]
  rw [UInt32.le_iff_toNat_le, hroom]
  change ¬ _ ≤ 1
  omega

theorem append_of_not_fits (h : Ready size limit b) (back : Nat) {s : Bytes}
    (hfits : ¬ Fits limit.toNat b.text.length s) :
    (b.append size limit back s).1 ≠ .retSuccess ∧ (b.append size limit back s).2.Clean := by
  unfold append
  rw [computeRemain_eq h.length_le]
  simp only
  split
  · exact ⟨nofun, h.clean⟩
  · exact print_of_not_fits h back hfits

/-- A step that fits leaves the buffer ready for the next. -/
theorem Ready.append (h : Ready size limit b) (back : Nat) {s : Bytes}
    (hfits : Fits limit.toNat b.text.length s) :
    Ready size limit { b with text := b.text.take (b.text.length - back) ++ s } := by
  refine ⟨h.clean, h.limit_le, ?_⟩
  have hlt := hfits.1
  simp only [List.length_append, List.length_take]
  omega

end JsonBuffer

end QcloudIot.Shadow
