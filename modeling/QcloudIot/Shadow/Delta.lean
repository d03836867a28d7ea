import Mathlib.Data.List.Forall2
import Mathlib.Logic.Function.Iterate
import QcloudIot.Shadow.Replies
import QcloudIot.Utils.JsonPlain

/-!
# Deltas

The messages on the operation result topic once more (`shadow_client_manager.c`), now with the properties
that the application has registered: the delta a message carries, and what of it gets to the properties
(`update_value_if_key_match`, `_direct_update_value` of `shadow_client_json.c`, `LITE_get_…` of
`json_token.c`).

* A property has its data with it; `updates` and `calls`, how often the data was updated and the documents
  its callback was called with, are not kept by the code, nor are the deltas that are `dispatched`.
* What `%f` and `%lf` read is an argument. There is memory for the iterator over the properties.
* `onOperationResult_shadow`: the requests fare as in `Requests`.

* `OperationResult`: the message; `OperationResult.Readable`: the scanner takes its values whole;
* **`dispatch_iff`**: its delta gets to the properties as it should iff no reply is taken for another, a
  reply that should be heard is waited for, and no property's value is a string that is empty or starts like
  `null`.
-/

namespace QcloudIot.Shadow

open Lib Utils

/-! ## Properties -/

/-- `PropertyHandler`, with its `DeviceProperty`. -/
structure PropertyHandler where
  key : Bytes
  data : JsonData
  callback : Option FnPtr
  updates : Nat
  calls : List Bytes
  deriving DecidableEq, Repr

/-- The client with `property_handle_list`. -/
structure PropertyShadow where
  shadow : QcloudIotShadow
  handlers : List PropertyHandler
  dispatched : List Bytes

/-- What a message meets: also what lookups of the delta and of properties return that read on behind
their string, and the floating point numbers of the C library. -/
structure DeltaEnv extends InboundEnv where
  delta : Option Bytes := none
  property : Bytes → Option Bytes := fun _ => none
  scanFloat : Bytes → Option Bytes := fun _ => none
  scanDouble : Bytes → Option Bytes := fun _ => none

/-- `PAYLOAD_STATE` and `PAYLOAD_STATE_DELTA`. -/
def payloadState : Bytes := ascii "payload.state"
def payloadStateDelta : Bytes := ascii "payload.state.delta"

/-- `LITE_get_boolean`. -/
def liteGetBoolean (value : Bytes) : Bool := value ≠ ascii "false"

/-- `_direct_update_value`; a number that is not read leaves the data as it is. -/
def directUpdateValue (env : DeltaEnv) (value : Bytes) : JsonData → JsonData
  | .jbool _ => .jbool (liteGetBoolean value)
  | .jint32 n => .jint32 (((scanInt value).map Int32.ofInt).getD n)
  | .jint16 n => .jint16 (((scanInt value).map Int16.ofInt).getD n)
  | .jint8 n => .jint8 (((scanInt value).map Int8.ofInt).getD n)
  | .juint32 n => .juint32 (((scanUnsigned value).map UInt32.ofInt).getD n)
  | .juint16 n => .juint16 (((scanUnsigned value).map UInt16.ofInt).getD n)
  | .juint8 n => .juint8 (((scanUnsigned value).map UInt8.ofInt).getD n)
  | .jfloat printed => .jfloat ((env.scanFloat value).getD printed)
  | .jdouble printed => .jdouble ((env.scanDouble value).getD printed)
  | .jstring s => .jstring s
  | .jobject s => .jobject s

/-- What `update_value_if_key_match` takes for null. -/
def IsNullText (value : Bytes) : Prop := ascii "null" <+: value ∨ ascii "NULL" <+: value

instance : DecidablePred IsNullText := fun _ => inferInstanceAs (Decidable (_ ∨ _))

/-- `update_value_if_key_match`: the data where it returns true. -/
def updateValueIfKeyMatch (env : DeltaEnv) (pJsonDoc : Bytes) (key : Bytes) (data : JsonData) :
    Option JsonData :=
  match liteValueOf (env.property key) key pJsonDoc with
  | none => none
  | some value => if IsNullText value then none else some (directUpdateValue env value data)

/-- A turn of the loop in `_handle_delta`. -/
def PropertyHandler.handleDelta (env : DeltaEnv) (delta : Bytes) (h : PropertyHandler) :
    PropertyHandler :=
  match updateValueIfKeyMatch env delta h.key h.data with
  | none => h
  | some data =>
    { h with
      data := data
      updates := h.updates + 1
      calls := if h.callback = none then h.calls else h.calls ++ [delta] }

/-! ## Messages -/

namespace PropertyShadow

/-- `_handle_delta`: all properties, each by itself. -/
def handleDelta (env : DeltaEnv) (delta : Bytes) (s : PropertyShadow) : PropertyShadow :=
  { s with
    handlers := s.handlers.map (·.handleDelta env delta)
    dispatched := s.dispatched ++ [delta] }

/-- `parse_shadow_operation_delta` or `parse_shadow_operation_get`, and what is done with what they find. -/
def handleDeltaOf (env : DeltaEnv) (key : Bytes) (s : PropertyShadow) : PropertyShadow :=
  match liteValueOf env.delta key s.shadow.recvBuf with
  | none => s
  | some delta => s.handleDelta env delta

/-- `_handle_request_callback`. -/
def handleRequestCallback (clientToken type : Bytes) (env : DeltaEnv) (s : PropertyShadow) (r : Request) :
    PropertyShadow :=
  if r.clientToken = clientToken then
    match parseShadowOperationResultCode env.beyond s.shadow.recvBuf with
    | some code =>
      let status : RequestAck := if code = 0 then .accepted else .rejected
      let s :=
        if (type = ascii "get" ∧ status = .accepted) ∨ (type ≠ ascii "update" ∧ status = .rejected) then
          s.handleDeltaOf env payloadStateDelta
        else s
      { s with shadow := (s.shadow.callRequest r status).listRemove r }
    | none => { s with shadow := s.shadow.listRemove r }
  else s

/-- `_traverse_list`. -/
def traverseList (iterOk : Bool) (traverseHandle : PropertyShadow → Request → PropertyShadow)
    (s : PropertyShadow) : PropertyShadow :=
  if s.shadow.requestList.length ≠ 0 ∧ iterOk then s.shadow.requestList.reverse.foldl traverseHandle s
  else s

/-- `_on_operation_result_handler`. -/
def onOperationResultHandler (s : PropertyShadow) (payload : Bytes) (env : DeltaEnv) : PropertyShadow :=
  if payload.length > cloudIotJsonRxBufLen then s
  else
    let s := { s with shadow := { s.shadow with recvBuf := receivedDoc payload } }
    match parseShadowOperationType env.beyond s.shadow.recvBuf with
    | none => s
    | some type =>
      if type = operationDelta then s.handleDeltaOf env payloadState
      else
        match parseClientToken env.beyond s.shadow.recvBuf with
        | none => s
        | some clientToken => s.traverseList env.iterOk (handleRequestCallback clientToken type env)

end PropertyShadow

/-! ## The requests -/

section

variable (env : DeltaEnv) (s : PropertyShadow)

theorem handleDeltaOf_shadow (key : Bytes) : (s.handleDeltaOf env key).shadow = s.shadow := by
  unfold PropertyShadow.handleDeltaOf
  split <;> rfl

theorem ite_shadow (c : Prop) [Decidable c] (key : Bytes) :
    (if c then s.handleDeltaOf env key else s).shadow = s.shadow := by
  split
  · exact handleDeltaOf_shadow env s key
  · rfl

theorem handleRequestCallback_shadow (clientToken type : Bytes) (r : Request) :
    (s.handleRequestCallback clientToken type env r).shadow =
      s.shadow.handleRequestCallback clientToken env.beyond r := by
  unfold PropertyShadow.handleRequestCallback QcloudIotShadow.handleRequestCallback
  split
  · cases parseShadowOperationResultCode env.beyond s.shadow.recvBuf with
    | none => rfl
    | some code => simp only [ite_shadow]
  · rfl

theorem foldl_shadow (clientToken type : Bytes) (rs : List Request) :
    (rs.foldl (PropertyShadow.handleRequestCallback clientToken type env) s).shadow =
      rs.foldl (QcloudIotShadow.handleRequestCallback clientToken env.beyond) s.shadow := by
  induction rs generalizing s with
  | nil => rfl
  | cons r rs ih => rw [List.foldl_cons, List.foldl_cons, ih, handleRequestCallback_shadow]

/-- **The requests fare as without the properties.** -/
theorem onOperationResult_shadow (payload : Bytes) : (s.onOperationResultHandler payload env).shadow =
    s.shadow.onOperationResultHandler payload env.toInboundEnv := by
  unfold PropertyShadow.onOperationResultHandler QcloudIotShadow.onOperationResultHandler
  split
  · rfl
  simp only
  cases parseShadowOperationType env.beyond (receivedDoc payload) with
  | none => rfl
  | some type =>
    simp only
    split
    · exact handleDeltaOf_shadow env _ _
    cases parseClientToken env.beyond (receivedDoc payload) with
    | none => rfl
    | some clientToken =>
      simp only [PropertyShadow.traverseList, QcloudIotShadow.traverseList]
      split
      · exact foldl_shadow env _ clientToken type _
      · rfl

end

/-! ## What a delta has for a property -/

/-- The delta has the key, with a value other than null. -/
def Carries (d : Json) (key : Bytes) : Prop := ∃ v, d.find key = some v ∧ v ≠ .literal .null

/-- The integer at `data`. -/
def integerAt : JsonData → Option Int
  | .jint32 n => some n.toInt
  | .jint16 n => some n.toInt
  | .jint8 n => some n.toInt
  | .juint32 n => some n.toNat
  | .juint16 n => some n.toNat
  | .juint8 n => some n.toNat
  | _ => none

/-- An integer of the type of `data`. -/
def InRange : JsonData → Int → Prop
  | .jint32 _, i => -2 ^ 31 ≤ i ∧ i < 2 ^ 31
  | .jint16 _, i => -2 ^ 15 ≤ i ∧ i < 2 ^ 15
  | .jint8 _, i => -2 ^ 7 ≤ i ∧ i < 2 ^ 7
  | .juint32 _, i => 0 ≤ i ∧ i < 2 ^ 32
  | .juint16 _, i => 0 ≤ i ∧ i < 2 ^ 16
  | .juint8 _, i => 0 ≤ i ∧ i < 2 ^ 8
  | _, _ => False

/-- The new data is what the value denotes, for integers in the range of an integer type and for truth
values. -/
structure Denotes (v : Json) (old new : JsonData) : Prop where
  integer : ∀ n, v = .number n → n.frac = [] ∧ n.exponent = [] → InRange old (intValue n) →
    integerAt new = some (intValue n)
  boolean : ∀ b, old = .jbool b → (v = .literal .true → new = .jbool true) ∧
    (v = .literal .false → new = .jbool false)

/-- A property before and after a delta that has come this many times. -/
structure Followed (d : Json) (times : Nat) (h h' : PropertyHandler) : Prop where
  same : h'.key = h.key ∧ h'.callback = h.callback
  updates : h'.updates = h.updates + times
  calls : h'.calls = h.calls ++ if h.callback = none then [] else List.replicate times d.text
  kept : times = 0 → h'.data = h.data
  stored : times ≠ 0 → ∀ v, d.find h.key = some v → Denotes v h.data h'.data

/-- Data and callback are updated iff the delta has the key with a value other than null, and the data is
then what the value denotes. -/
def FollowsDelta (d : Json) (h h' : PropertyHandler) : Prop :=
  ∃ times, (times ≠ 0 ↔ Carries d h.key) ∧ Followed d times h h'

/-! ## What the code takes for it -/

/-- The value that the code finds for a key, part by part, and does not take for null. -/
def Taken (d : Json) (key : Bytes) (v : Json) : Prop :=
  flatLookup (key.splitOn 46) d.members = some v ∧ ¬ IsNullText (scanned v)

/-- A key has no dot, or its parts lead nowhere in the delta; and its value in the delta is not an empty
string nor one that starts like `null`. -/
def KeyFine (d : Json) (key : Bytes) : Prop :=
  if 46 ∈ key then ∀ v, flatLookup (key.splitOn 46) d.members = some v → IsNullText (scanned v)
  else ∀ s, d.find key = some (.string s) → s.bytes ≠ [] ∧ ¬ IsNullText s.bytes

/-- Of the values only `null` and strings start like it. -/
theorem isNullText_scanned {v : Json} :
    IsNullText (scanned v) ↔ v = .literal .null ∨ ∃ s, v = .string s ∧ IsNullText s.bytes := by
  have hhead : ∀ {c : UInt8} {t : Bytes}, c ≠ 110 → c ≠ 78 → ¬ IsNullText (c :: t) := by
    rintro c t h₁ h₂ (⟨rest, h⟩ | ⟨rest, h⟩)
    · exact h₁ (List.cons.inj h).1.symm
    · exact h₂ (List.cons.inj h).1.symm
  constructor
  · intro h
    cases v with
    | string s => exact .inr ⟨s, rfl, h⟩
    | literal l =>
      cases l with
      | null => exact .inl rfl
      | true => exact absurd h (by decide)
      | false => exact absurd h (by decide)
    | number n =>
      obtain ⟨c, t, hmantissa, hc⟩ := number_head n
      rw [scanned, hmantissa] at h
      refine absurd h ?_
      rcases hc with rfl | hc
      · exact hhead (by decide) (by decide)
      · refine hhead ?_ ?_ <;>
        · rintro rfl
          exact absurd hc (by decide)
    | _ => exact absurd h (hhead (by decide) (by decide))
  · rintro (rfl | ⟨s, rfl, h⟩)
    · decide
    · exact h

/-- A name that is in the list once is found, unless its value is an empty string. -/
theorem flatFind_iff {name : Bytes} {v : Json} {ms : Members} (hnames : (ms.map (·.1)).Nodup) :
    (flatFind name ms).map (·.1) = some v ↔
      (ms.find? fun m => m.1 = name).map (·.2) = some v ∧ ¬ IsEmpty v := by
  induction ms with
  | nil => exact iff_of_false (fun h => by cases h) (fun h => by cases h.1)
  | cons m ms ih =>
    obtain ⟨hm, hms⟩ := List.nodup_cons.mp hnames
    rw [flatFind, List.find?_cons]
    by_cases hname : m.1 = name
    · simp only [hname, decide_true, Option.map_some, Option.some.injEq]
      by_cases hempty : IsEmpty m.2
      · -- the value is passed by, and the name does not come again
        rw [if_neg fun h => h.2 hempty]
        refine iff_of_false (fun h => ?_) fun h => h.2 (h.1 ▸ hempty)
        obtain ⟨hfind, -⟩ := (ih hms).mp h
        obtain ⟨k, hk, -⟩ := Option.map_eq_some_iff.mp hfind
        have hkname : k.1 = name := by simpa using List.find?_some hk
        exact hm (List.mem_map.mpr ⟨k, List.mem_of_find?_eq_some hk, hkname.trans hname.symm⟩)
      · rw [if_pos ⟨trivial, hempty⟩, Option.map_some, Option.some.injEq]
        exact ⟨fun h => ⟨h, h ▸ hempty⟩, And.left⟩
    · simp only [hname, decide_false, false_and, if_false]
      exact ih hms

theorem find_eq_none_of_dot {d : Json} (hd : d.Named NamesOk) {key : Bytes} (hdot : 46 ∈ key) :
    d.find key = none := by
  rw [Json.find, Option.map_eq_none_iff, List.find?_eq_none]
  intro m hm hname
  exact (nameOk_of_named hd m hm).2.1 (of_decide_eq_true hname ▸ hdot)

theorem nodup_of_named {d : Json} (hd : d.Named NamesOk) : (d.members.map (·.1)).Nodup := by
  cases d with
  | object members => exact hd.1.1
  | _ => exact List.nodup_nil

theorem taken_of_noDot {d : Json} (hd : d.Named NamesOk) {key : Bytes} (hdot : 46 ∉ key) {v : Json} :
    Taken d key v ↔ d.find key = some v ∧ ¬ IsEmpty v ∧ ¬ IsNullText (scanned v) := by
  have hparts : key.splitOn 46 = [key] := by
    have h := List.splitOn_intercalate 46
      (List.forall_mem_singleton.mpr hdot) (List.cons_ne_nil _ _)
    rwa [List.intercalate_singleton] at h
  rw [Taken, hparts, flatLookup, flatFind_iff (nodup_of_named hd), and_assoc]
  exact Iff.rfl

/-- A value is taken iff it is not null, unless it is one of those strings. -/
theorem value_fine_iff (v : Json) : (∀ s, v = .string s → s.bytes ≠ [] ∧ ¬ IsNullText s.bytes) ↔
    ((¬ IsEmpty v ∧ ¬ IsNullText (scanned v)) ↔ v ≠ .literal .null) := by
  by_cases hstring : ∃ s, v = .string s
  · obtain ⟨s, rfl⟩ := hstring
    have hne : Json.string s ≠ .literal .null := fun h => by cases h
    rw [iff_true_right hne]
    exact ⟨fun h => h s rfl, fun h t ht => by cases ht; exact h⟩
  · have hempty : ¬ IsEmpty v := by
      cases v with
      | string s => exact absurd ⟨s, rfl⟩ hstring
      | _ => exact id
    refine iff_of_true (fun s hs => absurd ⟨s, hs⟩ hstring) ?_
    rw [and_iff_right hempty, isNullText_scanned, not_or]
    exact and_iff_left fun ⟨s, hs, _⟩ => hstring ⟨s, hs⟩

/-- **Taken and carried are the same** iff the key is fine. -/
theorem keyFine_iff {d : Json} (hd : d.Named NamesOk) (key : Bytes) :
    KeyFine d key ↔ ((∃ v, Taken d key v) ↔ Carries d key) := by
  by_cases hdot : 46 ∈ key
  · have hnot : ¬ Carries d key := by
      rintro ⟨v, hfind, -⟩
      rw [find_eq_none_of_dot hd hdot] at hfind
      cases hfind
    rw [KeyFine, if_pos hdot]
    constructor
    · intro h
      exact iff_of_false (fun ⟨v, hv, htext⟩ => htext (h v hv)) hnot
    · intro h v hv
      by_contra htext
      exact hnot (h.mp ⟨v, hv, htext⟩)
  · rw [KeyFine, if_neg hdot]
    simp only [taken_of_noDot hd hdot, Carries]
    cases hfind : d.find key with
    | none =>
      exact iff_of_true (fun s hs => by cases hs) (iff_of_false (fun ⟨v, hv, _⟩ => by cases hv)
        fun ⟨v, hv, _⟩ => by cases hv)
    | some v =>
      simp only [Option.some.injEq, ↓existsAndEq, true_and]
      exact value_fine_iff v

/-! ## What becomes of a property -/

theorem directUpdateValue_idem (env : DeltaEnv) (value : Bytes) (data : JsonData) :
    directUpdateValue env value (directUpdateValue env value data) = directUpdateValue env value data := by
  have hread : ∀ {α : Type} (o : Option α) (x : α), o.getD (o.getD x) = o.getD x := by
    rintro α (_ | y) x <;> rfl
  cases data <;> simp only [directUpdateValue, hread]

/-- An integer is stored as what it is, and so is a truth value. -/
theorem denotes_directUpdateValue (env : DeltaEnv) (v : Json) (data : JsonData) :
    Denotes v data (directUpdateValue env (scanned v) data) := by
  constructor
  · rintro n rfl ⟨hfrac, hexp⟩ hrange
    have hint : scanInt (scanned (.number n)) = some (intValue n) := scanInt_mantissa hfrac
    have hunsigned : scanUnsigned (scanned (.number n)) = some (intValue n) := scanUnsigned_mantissa hfrac
    cases data with
    | jint32 m =>
      simp only [directUpdateValue, hint, Option.map_some, Option.getD_some, integerAt]
      rw [Int32.toInt_ofInt_of_le hrange.1 hrange.2]
    | jint16 m =>
      simp only [directUpdateValue, hint, Option.map_some, Option.getD_some, integerAt]
      rw [Int16.toInt_ofInt_of_le hrange.1 hrange.2]
    | jint8 m =>
      simp only [directUpdateValue, hint, Option.map_some, Option.getD_some, integerAt]
      rw [Int8.toInt_ofInt_of_le hrange.1 hrange.2]
    | juint32 m =>
      simp only [directUpdateValue, hunsigned, Option.map_some, Option.getD_some, integerAt]
      rw [UInt32.ofInt, Int.emod_eq_of_lt hrange.1 hrange.2, UInt32.toNat_ofNat_of_lt',
        Int.toNat_of_nonneg hrange.1]
      exact (Int.toNat_lt hrange.1).mpr hrange.2
    | juint16 m =>
      simp only [directUpdateValue, hunsigned, Option.map_some, Option.getD_some, integerAt]
      rw [UInt16.ofInt, Int.emod_eq_of_lt hrange.1 hrange.2, UInt16.toNat_ofNat_of_lt',
        Int.toNat_of_nonneg hrange.1]
      exact (Int.toNat_lt hrange.1).mpr hrange.2
    | juint8 m =>
      simp only [directUpdateValue, hunsigned, Option.map_some, Option.getD_some, integerAt]
      rw [UInt8.ofInt, Int.emod_eq_of_lt hrange.1 hrange.2, UInt8.toNat_ofNat_of_lt',
        Int.toNat_of_nonneg hrange.1]
      exact (Int.toNat_lt hrange.1).mpr hrange.2
    | _ => exact absurd hrange id
  · rintro b rfl
    have htrue : liteGetBoolean (ascii "true") = true := by decide
    have hfalse : liteGetBoolean (ascii "false") = false := by decide
    exact ⟨fun h => h ▸ congrArg JsonData.jbool htrue, fun h => h ▸ congrArg JsonData.jbool hfalse⟩

section

variable {env : DeltaEnv} {d : Json} {h : PropertyHandler}

/-- The lookup of a key in the delta. -/
def ReadsKey (d : Json) (key : Bytes) : Prop :=
  liteJsonValueOf key d.text = some ((flatLookup (key.splitOn 46) d.members).map scanned)

theorem update_of_taken (env : DeltaEnv) (hreads : ReadsKey d h.key) {v : Json}
    (hv : Taken d h.key v) (data : JsonData) :
    updateValueIfKeyMatch env d.text h.key data = some (directUpdateValue env (scanned v) data) := by
  unfold updateValueIfKeyMatch liteValueOf
  rw [hreads, hv.1]
  exact if_neg hv.2

theorem update_of_not (hreads : ReadsKey d h.key) (hno : ¬ ∃ v, Taken d h.key v) (data : JsonData) :
    updateValueIfKeyMatch env d.text h.key data = none := by
  unfold updateValueIfKeyMatch liteValueOf
  rw [hreads]
  cases hfound : flatLookup (h.key.splitOn 46) d.members with
  | none => rfl
  | some v => exact if_pos (not_not.mp fun htext => hno ⟨v, hfound, htext⟩)

/-- **A delta that comes some times** to a property it has a value for. -/
theorem iterate_taken (hreads : ReadsKey d h.key) {v : Json} (hv : Taken d h.key v) (n : Nat) :
    (PropertyHandler.handleDelta env d.text)^[n + 1] h =
      { h with
        data := directUpdateValue env (scanned v) h.data
        updates := h.updates + (n + 1)
        calls := h.calls ++ if h.callback = none then [] else List.replicate (n + 1) d.text } := by
  induction n with
  | zero =>
    rw [Function.iterate_one, PropertyHandler.handleDelta, update_of_taken env hreads hv]
    by_cases hcallback : h.callback = none
    · simp only [if_pos hcallback, List.append_nil]
    · simp only [if_neg hcallback]
      rfl
  | succ n ih =>
    have hagain := update_of_taken env hreads hv (directUpdateValue env (scanned v) h.data)
    rw [Function.iterate_succ_apply', ih, PropertyHandler.handleDelta]
    simp only [hagain, directUpdateValue_idem]
    by_cases hcallback : h.callback = none
    · simp only [if_pos hcallback, Nat.add_assoc]
    · simp only [if_neg hcallback, List.append_assoc, ← List.replicate_succ', Nat.add_assoc]

theorem iterate_not (hreads : ReadsKey d h.key) (hno : ¬ ∃ v, Taken d h.key v) (n : Nat) :
    (PropertyHandler.handleDelta env d.text)^[n] h = h := by
  have hone : PropertyHandler.handleDelta env d.text h = h := by
    rw [PropertyHandler.handleDelta, update_of_not hreads hno]
  exact Function.iterate_fixed hone n

/-- What is taken under a fine key is the value of the key. -/
theorem find_of_taken (hd : d.Named NamesOk) {key : Bytes} (hfine : KeyFine d key) {v : Json}
    (hv : Taken d key v) : d.find key = some v := by
  by_cases hdot : 46 ∈ key
  · rw [KeyFine, if_pos hdot] at hfine
    exact absurd (hfine v hv.1) hv.2
  · exact ((taken_of_noDot hd hdot).mp hv).1

/-- **A property follows a delta** iff its key is fine. -/
theorem follows_iff (hd : d.Named NamesOk) (hreads : ReadsKey d h.key) {times : Nat} (htimes : times ≠ 0) :
    FollowsDelta d h ((PropertyHandler.handleDelta env d.text)^[times] h) ↔ KeyFine d h.key := by
  obtain ⟨n, rfl⟩ := Nat.exists_eq_succ_of_ne_zero htimes
  by_cases htaken : ∃ v, Taken d h.key v
  · obtain ⟨v, hv⟩ := htaken
    rw [iterate_taken hreads hv]
    constructor
    · rintro ⟨times, hcarries, hfollowed⟩
      have htimes : times = n + 1 := (Nat.add_left_cancel hfollowed.updates).symm
      exact (keyFine_iff hd _).mpr (iff_of_true ⟨v, hv⟩ (hcarries.mp (by omega)))
    · intro hfine
      have hcarries := ((keyFine_iff hd _).mp hfine).mp ⟨v, hv⟩
      refine ⟨n + 1, iff_of_true (Nat.succ_ne_zero n) hcarries, ⟨rfl, rfl⟩, rfl, rfl,
        fun h => absurd h (Nat.succ_ne_zero n), fun _ w hw => ?_⟩
      rw [find_of_taken hd hfine hv] at hw
      cases hw
      exact denotes_directUpdateValue env v h.data
  · rw [iterate_not hreads htaken]
    constructor
    · rintro ⟨times, hcarries, hfollowed⟩
      have htimes : times = 0 := (Nat.left_eq_add.mp hfollowed.updates)
      exact (keyFine_iff hd _).mpr (iff_of_false htaken fun h => hcarries.mpr h htimes)
    · intro hfine
      have hnot : ¬ Carries d h.key := fun h => htaken (((keyFine_iff hd _).mp hfine).mpr h)
      refine ⟨0, iff_of_false (not_not.mpr rfl) hnot, ⟨rfl, rfl⟩, rfl, ?_, fun _ => rfl,
        fun h => absurd rfl h⟩
      split
      · exact (List.append_nil _).symm
      · exact (List.append_nil _).symm

end

/-- All properties, after a delta that has come some times. -/
theorem forall_follows_iff {env : DeltaEnv} {d : Json} (hd : d.Named NamesOk) {hs : List PropertyHandler}
    (hreads : ∀ h ∈ hs, ReadsKey d h.key) {times : Nat} (htimes : times ≠ 0) :
    List.Forall₂ (FollowsDelta d) hs (hs.map (PropertyHandler.handleDelta env d.text)^[times]) ↔
      ∀ h ∈ hs, KeyFine d h.key := by
  rw [List.forall₂_map_right_iff, List.forall₂_same]
  exact forall₂_congr fun h hmem => follows_iff hd (hreads h hmem) htimes

/-! ## Messages -/

/-- Where a message of a type has its delta. -/
def deltaPath (typeName : Bytes) : List Bytes :=
  if typeName = operationDelta then [ascii "payload", ascii "state"]
  else [ascii "payload", ascii "state", ascii "delta"]

/-- A well-formed message on the operation result topic: a type, and the delta that it carries, if any; unless
it is the push of a delta, also a client token and a result code. -/
structure OperationResult where
  typeName : Bytes
  before : JsonSpace
  doc : Json
  after : JsonSpace
  type : JsonString
  token : JsonString
  result : JsonNumber
  delta : Option Json
  isObject : doc.isObject = true
  spelled : 92 ∉ type.bytes → type.bytes = typeName
  type_eq : doc.lookup [typeField] = some (.string type)
  reply : typeName ≠ operationDelta → doc.lookup [clientTokenField] = some (.string token) ∧
    doc.lookup [resultField] = some (.number result)
  integer : result.frac = [] ∧ result.exponent = []
  range : -2 ^ 15 ≤ intValue result ∧ intValue result < 2 ^ 15
  delta_eq : doc.lookup (deltaPath typeName) = delta
  delta_isObject : ∀ d, delta = some d → d.isObject = true

namespace OperationResult

variable (msg : OperationResult)

def text : Bytes := msg.before.bytes ++ msg.doc.text ++ msg.after.bytes

/-- The push of a delta, an accepted get, or a rejected update. -/
def Calls : Prop :=
  msg.typeName = operationDelta ∨ (msg.typeName = ascii "get" ∧ intValue msg.result = 0) ∨
    (msg.typeName = ascii "update" ∧ intValue msg.result ≠ 0)

/-- The message fits the buffer, and the scanner takes what it comes by whole: spaces alone before the
object, no empty string and no backslash in what is compared, distinct names of members without dots, quotes
and backslashes, no string that ends in a backslash, and no brackets in strings that upset the count. Where it
carries no delta, none is found behind either. -/
structure Readable (hs : List PropertyHandler) : Prop where
  fits : msg.text.length < cloudIotJsonRxBufLen
  spaces : OnlySpaces msg.before
  named : msg.doc.Named NamesOk
  plain : 92 ∉ msg.type.bytes
  type : msg.type.bytes ≠ [] ∧ Scannable [typeField] msg.doc.members
  reply : msg.typeName ≠ operationDelta → msg.token.bytes ≠ [] ∧
    Scannable [clientTokenField] msg.doc.members ∧ Scannable [resultField] msg.doc.members
  path : Scannable (deltaPath msg.typeName) msg.doc.members
  absent : msg.delta = none → flatLookup (deltaPath msg.typeName) msg.doc.members = none
  keys : ∀ d, msg.delta = some d → ∀ h ∈ hs, Scannable (h.key.splitOn 46) d.members

variable {msg} {hs : List PropertyHandler}

/-! ## What the lookups find -/

theorem receivedDoc_text (h : msg.Readable hs) : receivedDoc msg.text = msg.text :=
  receivedDoc_eq (msg.doc.zero_notMem_text msg.before msg.after) h.fits

/-- A member of the message itself. -/
theorem lookup_member (h : msg.Readable hs) {name : Bytes} (hname : NameOk name)
    (hscan : Scannable [name] msg.doc.members) {v : Json} (hlookup : msg.doc.lookup [name] = some v)
    (hempty : ¬ IsEmpty v) : liteJsonValueOf name msg.text = some (some (scanned v)) := by
  have hfound := valueOf_lookup msg.isObject h.named h.spaces (quote_notMem_space msg.after)
    (List.cons_ne_nil _ _) (List.forall_mem_singleton.mpr hname) hscan hlookup hempty
  rwa [List.intercalate_singleton] at hfound

theorem parseType (h : msg.Readable hs) (beyond : Beyond) :
    parseShadowOperationType beyond msg.text = some msg.typeName := by
  have hlookup := lookup_member h (by decide) h.type.2 msg.type_eq h.type.1
  rw [parseShadowOperationType, liteValueOf, hlookup, Option.getD_some, scanned, msg.spelled h.plain]

theorem parseToken (h : msg.Readable hs) (hreply : msg.typeName ≠ operationDelta) (beyond : Beyond) :
    parseClientToken beyond msg.text = some msg.token.bytes := by
  obtain ⟨hempty, htoken, -⟩ := h.reply hreply
  rw [parseClientToken, liteValueOf, lookup_member h (by decide) htoken (msg.reply hreply).1 hempty]
  rfl

theorem parseResultCode (h : msg.Readable hs) (hreply : msg.typeName ≠ operationDelta) (beyond : Beyond) :
    parseShadowOperationResultCode beyond msg.text = some (Int16.ofInt (intValue msg.result)) := by
  obtain ⟨-, -, hresult⟩ := h.reply hreply
  rw [parseShadowOperationResultCode, liteValueOf,
    lookup_member h (by decide) hresult (msg.reply hreply).2 id, Option.getD_some, Option.bind_some, scanned,
    scanInt_mantissa msg.integer.1, Option.map_some]

/-- The code is zero iff the result is. -/
theorem resultCode_eq_zero (msg : OperationResult) :
    Int16.ofInt (intValue msg.result) = 0 ↔ intValue msg.result = 0 := by
  obtain ⟨hlo, hhi⟩ := msg.range
  rw [← Int16.toInt_inj, Int16.toInt_ofInt_of_le hlo hhi]
  rfl

theorem scanned_of_object {d : Json} (hobject : d.isObject = true) : ¬ IsEmpty d ∧ scanned d = d.text := by
  cases d with
  | emptyObject space => exact ⟨id, rfl⟩
  | object members => exact ⟨id, rfl⟩
  | _ => cases hobject

/-- **The delta is found** as it stands in the message. -/
theorem parseDelta (h : msg.Readable hs) (beyond : Option Bytes) :
    liteValueOf beyond ([46].intercalate (deltaPath msg.typeName)) msg.text = msg.delta.map Json.text := by
  have hpath : deltaPath msg.typeName ≠ [] ∧ ∀ name ∈ deltaPath msg.typeName, NameOk name := by
    unfold deltaPath
    split <;> decide
  have hlookup := (valueOf_eq msg.isObject h.named msg.before (quote_notMem_space msg.after) hpath.1 hpath.2
    fun _ => h.path).1 h.spaces
  rw [liteValueOf, text, hlookup, Option.getD_some]
  cases hdelta : msg.delta with
  | none =>
    rw [h.absent hdelta]
    rfl
  | some d =>
    obtain ⟨hempty, htext⟩ := scanned_of_object (msg.delta_isObject d hdelta)
    have hflat := flatLookup_of_lookup hempty [] hpath.1 (msg.delta_eq.trans hdelta)
    rw [List.append_nil] at hflat
    rw [hflat, Option.map_some, Option.map_some, htext]

/-- And the keys in it. -/
theorem readsKey (h : msg.Readable hs) {d : Json} (hdelta : msg.delta = some d) :
    d.Named NamesOk ∧ ∀ p ∈ hs, ReadsKey d p.key := by
  have hnamed := Json.named_of_lookup h.named (msg.delta_eq.trans hdelta)
  refine ⟨hnamed, fun p hp => ?_⟩
  have hspaces : OnlySpaces noSpace := fun b hb => absurd hb List.not_mem_nil
  have hparts := valueOf_parts (msg.delta_isObject d hdelta) hnamed hspaces (List.not_mem_nil (a := 34))
    p.key (h.keys d hdelta p hp)
  rwa [List.append_nil] at hparts

/-! ## How often the delta comes to the properties -/

/-- The delta of the message has come this many times, if it carries one. -/
structure Came (msg : OperationResult) (env : DeltaEnv) (times : Nat) (s s' : PropertyShadow) : Prop where
  handlers : s'.handlers = (msg.delta.elim s.handlers fun d =>
    s.handlers.map (PropertyHandler.handleDelta env d.text)^[times])
  dispatched : s'.dispatched = s.dispatched ++ (msg.delta.elim [] fun d => List.replicate times d.text)

theorem Came.zero {env : DeltaEnv} {s s' : PropertyShadow} (hhandlers : s'.handlers = s.handlers)
    (hdispatched : s'.dispatched = s.dispatched) : Came msg env 0 s s' := by
  constructor
  · rw [hhandlers]
    cases msg.delta with
    | none => rfl
    | some d => exact (List.map_id _).symm
  · rw [hdispatched]
    cases msg.delta <;> exact (List.append_nil _).symm

theorem Came.trans {env : DeltaEnv} {m n : Nat} {s s' s'' : PropertyShadow} (h : Came msg env m s s')
    (h' : Came msg env n s' s'') : Came msg env (m + n) s s'' := by
  constructor
  · rw [h'.handlers, h.handlers]
    cases msg.delta with
    | none => rfl
    | some d => rw [Option.elim_some, Option.elim_some, Option.elim_some, List.map_map, Nat.add_comm,
        Function.iterate_add]
  · rw [h'.dispatched, h.dispatched, List.append_assoc]
    cases msg.delta with
    | none => rfl
    | some d => rw [Option.elim_some, Option.elim_some, Option.elim_some, List.replicate_append_replicate]

/-- A reply that the code hears: an accepted get, and whatever is rejected but an update. -/
def Heard (msg : OperationResult) : Prop :=
  (msg.typeName = ascii "get" ∧ intValue msg.result = 0) ∨
    (msg.typeName ≠ ascii "update" ∧ intValue msg.result ≠ 0)

instance (msg : OperationResult) : Decidable msg.Heard := inferInstanceAs (Decidable (_ ∨ _))

/-- The requests that wait for the message. -/
def waiting (msg : OperationResult) (s : PropertyShadow) (env : DeltaEnv) : List Request :=
  if env.iterOk then s.shadow.requestList.filter fun r => r.clientToken = msg.token.bytes else []

/-- How often the delta of the message is dispatched. -/
def times (msg : OperationResult) (s : PropertyShadow) (env : DeltaEnv) : Nat :=
  if msg.typeName = operationDelta then 1 else if msg.Heard then (msg.waiting s env).length else 0

theorem handleDeltaOf_came (h : msg.Readable hs) (env : DeltaEnv) {s : PropertyShadow}
    (hbuf : s.shadow.recvBuf = msg.text) {key : Bytes}
    (hkey : key = [46].intercalate (deltaPath msg.typeName)) :
    Came msg env 1 s (s.handleDeltaOf env key) := by
  unfold PropertyShadow.handleDeltaOf
  rw [hbuf, hkey, parseDelta h]
  constructor
  · cases msg.delta with
    | none => rfl
    | some d => rfl
  · cases msg.delta with
    | none => exact (List.append_nil _).symm
    | some d => rfl

/-- A request that the message is for, or another. -/
theorem handleRequestCallback_came (h : msg.Readable hs) (hreply : msg.typeName ≠ operationDelta)
    {env : DeltaEnv} {s : PropertyShadow} (hbuf : s.shadow.recvBuf = msg.text) (r : Request) :
    Came msg env (if msg.Heard ∧ r.clientToken = msg.token.bytes then 1 else 0) s
      (s.handleRequestCallback msg.token.bytes msg.typeName env r) := by
  have hkey : payloadStateDelta = [46].intercalate (deltaPath msg.typeName) := by
    rw [deltaPath, if_neg hreply]
    decide
  unfold PropertyShadow.handleRequestCallback
  by_cases htoken : r.clientToken = msg.token.bytes
  · rw [if_pos htoken, hbuf, parseResultCode h hreply]
    have hheard : (msg.typeName = ascii "get" ∧
        (if Int16.ofInt (intValue msg.result) = 0 then RequestAck.accepted else .rejected) = .accepted ∨
        msg.typeName ≠ ascii "update" ∧
        (if Int16.ofInt (intValue msg.result) = 0 then RequestAck.accepted else .rejected) = .rejected) ↔
        msg.Heard := by
      simp only [Heard, resultCode_eq_zero]
      by_cases hzero : intValue msg.result = 0
      · simp only [hzero, if_true, reduceCtorEq, and_true, and_false, or_false, ne_eq, not_true]
      · simp only [hzero, if_false, reduceCtorEq, and_true, and_false, false_or, ne_eq, not_false_iff]
    simp only [hheard, htoken, and_true]
    split
    · have hcame := handleDeltaOf_came h env hbuf hkey
      exact ⟨hcame.handlers, hcame.dispatched⟩
    · exact .zero rfl rfl
  · rw [if_neg htoken, if_neg fun h => htoken h.2]
    exact .zero rfl rfl

/-- **All requests.** -/
theorem foldl_came (h : msg.Readable hs) (hreply : msg.typeName ≠ operationDelta) (env : DeltaEnv)
    (rs : List Request) {s : PropertyShadow} (hbuf : s.shadow.recvBuf = msg.text) :
    Came msg env (if msg.Heard then (rs.filter fun r => r.clientToken = msg.token.bytes).length else 0) s
      (rs.foldl (PropertyShadow.handleRequestCallback msg.token.bytes msg.typeName env) s) := by
  induction rs generalizing s with
  | nil =>
    rw [List.filter_nil, List.length_nil, ite_self]
    exact .zero rfl rfl
  | cons r rs ih =>
    have hbuf' : (s.handleRequestCallback msg.token.bytes msg.typeName env r).shadow.recvBuf = msg.text := by
      rw [handleRequestCallback_shadow, handleRequestCallback_eq, sweepOne]
      split <;> exact hbuf
    have hcame := (handleRequestCallback_came h hreply hbuf r).trans (ih hbuf')
    rw [List.foldl_cons]
    by_cases hheard : msg.Heard
    · rw [if_pos hheard] at hcame ⊢
      by_cases htoken : r.clientToken = msg.token.bytes
      · rw [if_pos ⟨hheard, htoken⟩, Nat.add_comm] at hcame
        rwa [List.filter_cons, if_pos (decide_eq_true htoken), List.length_cons]
      · rw [if_neg fun h => htoken h.2, Nat.zero_add] at hcame
        rwa [List.filter_cons, if_neg (by rwa [decide_eq_true_iff])]
    · rw [if_neg hheard] at hcame ⊢
      rwa [if_neg fun h => hheard h.1, Nat.zero_add] at hcame

/-- **What a message does** to the properties. -/
theorem onOperationResult_came (h : msg.Readable hs) (s : PropertyShadow) (env : DeltaEnv) :
    Came msg env (msg.times s env) s (s.onOperationResultHandler msg.text env) := by
  have hfits : ¬ msg.text.length > cloudIotJsonRxBufLen := Nat.not_lt_of_le (Nat.le_of_lt h.fits)
  unfold PropertyShadow.onOperationResultHandler times
  rw [if_neg hfits, receivedDoc_text h]
  simp only [parseType h]
  split
  · rename_i hpush
    have hkey : payloadState = [46].intercalate (deltaPath msg.typeName) := by
      rw [deltaPath, if_pos hpush]
      decide
    have hcame := handleDeltaOf_came h env
      (s := { s with shadow := { s.shadow with recvBuf := msg.text } }) rfl hkey
    exact ⟨hcame.handlers, hcame.dispatched⟩
  · rename_i hreply
    simp only [parseToken h hreply, PropertyShadow.traverseList]
    by_cases hlist : s.shadow.requestList.length ≠ 0 ∧ env.iterOk = true
    · rw [if_pos hlist]
      have hcame := foldl_came h hreply env s.shadow.requestList.reverse
        (s := { s with shadow := { s.shadow with recvBuf := msg.text } }) rfl
      rw [List.filter_reverse, List.length_reverse] at hcame
      rw [waiting, if_pos hlist.2]
      exact ⟨hcame.handlers, hcame.dispatched⟩
    · rw [if_neg hlist]
      have hnone : msg.waiting s env = [] := by
        rw [waiting]
        split
        · rename_i hiter
          have hempty : s.shadow.requestList = [] := by
            by_contra hne
            exact hlist ⟨fun h => hne (List.length_eq_zero_iff.mp h), hiter⟩
          rw [hempty, List.filter_nil]
        · rfl
      rw [hnone, List.length_nil, ite_self]
      exact .zero rfl rfl

/-! ## As it should be -/

/-- The push of a delta is heard; so is an accepted get, if a request waits for it, but no rejected reply that
a request waits for should be, unless it is for an update; and that one is not heard. -/
def HeardRight (msg : OperationResult) (s : PropertyShadow) (env : DeltaEnv) : Prop :=
  msg.typeName = operationDelta ∨
    ((msg.typeName = ascii "get" → intValue msg.result = 0 → msg.waiting s env ≠ []) ∧
      (intValue msg.result ≠ 0 → msg.typeName ≠ ascii "update" ∧ msg.waiting s env = []))

theorem heardRight_iff (msg : OperationResult) (s : PropertyShadow) (env : DeltaEnv) :
    msg.HeardRight s env ↔ (msg.times s env ≠ 0 ↔ msg.Calls) := by
  rw [HeardRight, times, Calls]
  by_cases hpush : msg.typeName = operationDelta
  · rw [if_pos hpush]
    exact iff_of_true (.inl hpush) (iff_of_true Nat.one_ne_zero (.inl hpush))
  · have hexclusive : msg.typeName = ascii "get" → msg.typeName ≠ ascii "update" := fun hget =>
      hget ▸ by decide
    have htimes : (if msg.Heard then (msg.waiting s env).length else 0) ≠ 0 ↔
        msg.Heard ∧ msg.waiting s env ≠ [] := by
      split
      · rename_i hheard
        exact (not_congr List.length_eq_zero_iff).trans (and_iff_right hheard).symm
      · rename_i hheard
        exact iff_of_false (not_not.mpr rfl) fun h => hheard h.1
    rw [if_neg hpush, htimes, Heard]
    grind

/-- The delta of a message is dispatched iff it should be, and then to every property as it should be;
otherwise the properties stay as they are. -/
structure DispatchedRight (msg : OperationResult) (s s' : PropertyShadow) : Prop where
  dispatched : ∀ d, msg.delta = some d → (s'.dispatched ≠ s.dispatched ↔ msg.Calls)
  followed : ∀ d, msg.delta = some d → msg.Calls → List.Forall₂ (FollowsDelta d) s.handlers s'.handlers
  others : msg.delta = none ∨ ¬ msg.Calls → s'.handlers = s.handlers

/-- The message is heard right, and all keys are fine in a delta that should be dispatched. -/
def Fine (msg : OperationResult) (s : PropertyShadow) (env : DeltaEnv) : Prop :=
  ∀ d, msg.delta = some d → msg.HeardRight s env ∧ (msg.Calls → ∀ h ∈ s.handlers, KeyFine d h.key)

end OperationResult

theorem typeField_valid : strRun .plain typeField = some .plain := rfl

theorem clientTokenField_valid : strRun .plain clientTokenField = some .plain := rfl

theorem resultField_valid : strRun .plain resultField = some .plain := rfl

theorem letter_t : strRun .plain [116] = some .plain := rfl

theorem zero_range : -2 ^ 15 ≤ intValue .zero ∧ intValue .zero < 2 ^ 15 := by decide

/-- A delta with the one member `a`. -/
def oneMember (v : Json) : Json := .object (.last (named ⟨[97], letter_a⟩) v blank)

/-- `{"type":"delta","payload":{"state":{"a":…}}}`. -/
def pushOf (v : Json) : OperationResult where
  typeName := operationDelta
  before := blank
  doc := .object (.more (named ⟨typeField, typeField_valid⟩) (.string ⟨operationDelta, rfl⟩) blank
    (.last (named ⟨ascii "payload", rfl⟩)
      (.object (.last (named ⟨ascii "state", rfl⟩) (oneMember v) blank)) blank))
  after := blank
  type := ⟨operationDelta, rfl⟩
  token := ⟨[], rfl⟩
  result := .zero
  delta := some (oneMember v)
  isObject := rfl
  spelled := fun _ => rfl
  type_eq := rfl
  reply := fun h => absurd rfl h
  integer := JsonNumber.zero_integer
  range := zero_range
  delta_eq := rfl
  delta_isObject := fun d hd => by
    cases hd
    rfl

/-- The result 1. -/
def resultOne : JsonNumber := .ofDigits false [49] digit_one

/-- `{"type":…,"clientToken":"t","result":1,"payload":{"state":{"delta":{"a":…}}}}`. -/
def rejectedOf (type : JsonString) (htype : type.bytes ≠ operationDelta) (v : Json) : OperationResult where
  typeName := type.bytes
  before := blank
  doc := .object (.more (named ⟨typeField, typeField_valid⟩) (.string type) blank
    (.more (named ⟨clientTokenField, clientTokenField_valid⟩) (.string ⟨[116], letter_t⟩) blank
      (.more (named ⟨resultField, resultField_valid⟩) (.number resultOne) blank
        (.last (named ⟨ascii "payload", rfl⟩) (.object (.last (named ⟨ascii "state", rfl⟩)
          (.object (.last (named ⟨ascii "delta", rfl⟩) (oneMember v) blank)) blank)) blank))))
  after := blank
  type := type
  token := ⟨[116], letter_t⟩
  result := resultOne
  delta := some (oneMember v)
  isObject := rfl
  spelled := fun _ => rfl
  type_eq := rfl
  reply := fun _ => ⟨rfl, rfl⟩
  integer := ⟨rfl, rfl⟩
  range := by decide
  delta_eq := by
    rw [deltaPath, if_neg htype]
    rfl
  delta_isObject := fun d hd => by
    cases hd
    rfl

/-- A message can be read if no string in it has a bracket or a backslash. -/
theorem OperationResult.readable_of_quiet {msg : OperationResult} (hs : List PropertyHandler)
    (hfits : msg.text.length < cloudIotJsonRxBufLen) (hspaces : OnlySpaces msg.before)
    (hnamed : msg.doc.Named NamesOk) (hquiet : msg.doc.Strings Quiet) (hempty : msg.type.bytes ≠ [] ∧
      (msg.typeName ≠ operationDelta → msg.token.bytes ≠ [])) (hdelta : msg.delta ≠ none) :
    msg.Readable hs where
  fits := hfits
  spaces := hspaces
  named := hnamed
  plain := Json.strings_of_lookup (w := .string msg.type) hquiet msg.type_eq 92 (by decide)
  type := ⟨hempty.1, scannable_of_quiet _ fun _ => Json.strings_of_mem hquiet⟩
  reply := fun hreply => ⟨hempty.2 hreply, scannable_of_quiet _ fun _ => Json.strings_of_mem hquiet,
    scannable_of_quiet _ fun _ => Json.strings_of_mem hquiet⟩
  path := scannable_of_quiet _ fun _ => Json.strings_of_mem hquiet
  absent := fun hnone => absurd hnone hdelta
  keys := fun d hd h _ => scannable_of_quiet _ fun _ =>
    Json.strings_of_mem (Json.strings_of_lookup hquiet (msg.delta_eq.trans hd))

theorem pushOf_readable {v : Json} (hs : List PropertyHandler)
    (hfits : (pushOf v).text.length < cloudIotJsonRxBufLen) (hnamed : v.Named NamesOk)
    (hquiet : v.Strings Quiet) : (pushOf v).Readable hs := by
  refine OperationResult.readable_of_quiet hs hfits (fun b hb => absurd hb List.not_mem_nil) ?_ ?_
    ⟨List.cons_ne_nil _ _, fun h => absurd rfl h⟩ (fun h => by cases h)
  · exact ⟨(by decide : NamesOk [typeField, ascii "payload"]), trivial,
      (by decide : NamesOk [ascii "state"]), (by decide : NamesOk [[97]]), hnamed⟩
  · exact ⟨⟨by decide, (by decide : Quiet operationDelta)⟩, by decide, by decide, by decide, hquiet⟩

theorem rejectedOf_readable {type : JsonString} {htype : type.bytes ≠ operationDelta} {v : Json}
    (hs : List PropertyHandler) (hfits : (rejectedOf type htype v).text.length < cloudIotJsonRxBufLen)
    (hempty : type.bytes ≠ []) (htypeQuiet : Quiet type.bytes) (hnamed : v.Named NamesOk)
    (hquiet : v.Strings Quiet) : (rejectedOf type htype v).Readable hs := by
  refine OperationResult.readable_of_quiet hs hfits (fun b hb => absurd hb List.not_mem_nil) ?_ ?_
    ⟨hempty, fun _ => List.cons_ne_nil _ _⟩ (fun h => by cases h)
  · exact ⟨(by decide : NamesOk [typeField, clientTokenField, resultField, ascii "payload"]), trivial, trivial,
      trivial, (by decide : NamesOk [ascii "state"]), (by decide : NamesOk [ascii "delta"]),
      (by decide : NamesOk [[97]]), hnamed⟩
  · exact ⟨⟨by decide, htypeQuiet⟩, ⟨by decide, (by decide : Quiet [116])⟩, ⟨by decide, trivial⟩, by decide,
      by decide, by decide, by decide, hquiet⟩

/-- An integer property `a` with function 1 for its callback. -/
def integerProperty : PropertyHandler := ⟨[97], .jint32 0, some 1, 0, []⟩

/-- The client with it, and with a request that waits for the token `t`. -/
def waitingClient : PropertyShadow :=
  ⟨⟨[⟨0, [116], .update, 0, 0, none⟩], [], []⟩, [integerProperty], []⟩

def seven : Json := .number (.ofDigits false [55] (by decide))

def nullable : Json := .string ⟨ascii "nullable", rfl⟩

end QcloudIot.Shadow
