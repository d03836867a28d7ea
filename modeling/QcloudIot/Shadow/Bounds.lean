import QcloudIot.Shadow.Json

/-!
# Shadow documents and the end of their buffer

`put_json_node` is told that the buffer has as many bytes as were left behind the head of the
document. What follows from that, from the `int8_t` counter of the loops, and from the remaining size
that `IOT_Shadow_JSON_ConstructReportAndDesireAllNull` uses twice:

* `putNodes_fit`, `putNodes_unfit`: what the loop does, for every number of properties;
* **`bufferSafe_iff`**: a call stays in the buffer, ends, computes no remaining size below zero and
  refuses what does not fit iff none of the three comes to bear.
-/

namespace QcloudIot.Shadow

namespace JsonBuffer

/-! ## The loop -/

/-- What the properties add to the document. -/
def nodeText : Option DeviceProperty → Bytes
  | some ⟨some key, data⟩ => keyText key ++ valueText data
  | _ => []

def nodesText (properties : List (Option DeviceProperty)) : Bytes := properties.flatMap nodeText

/-- Every property has a key, and all are put behind a string of `length` bytes into `limit` bytes. -/
def NodesFit (limit : Nat) : Nat → List (Option DeviceProperty) → Prop
  | _, [] => True
  | length, some ⟨some key, data⟩ :: properties =>
    Fits limit length (keyText key) ∧ Fits limit (length + (keyText key).length) (valueText data) ∧
      NodesFit limit (length + (nodeText (some ⟨some key, data⟩)).length) properties
  | _, _ :: _ => False

instance NodesFit.decidable (limit : Nat) :
    ∀ length properties, Decidable (NodesFit limit length properties)
  | _, [] => .isTrue trivial
  | length, some ⟨some key, data⟩ :: properties =>
    have := NodesFit.decidable limit (length + (nodeText (some ⟨some key, data⟩)).length) properties
    inferInstanceAs (Decidable (_ ∧ _ ∧ _))
  | _, some ⟨none, _⟩ :: _ => .isFalse id
  | _, none :: _ => .isFalse id

/-- The properties the loop gets to see, from number `k` on: of an array, not those from index 128
on. -/
def readable (array : Bool) (k : Nat) (properties : List (Option DeviceProperty)) :
    List (Option DeviceProperty) :=
  if array then properties.take (128 - k) else properties

/-- `int8_t i` after `k` steps, below the count. -/
theorem counter_lt {k : Nat} {count : UInt8} (hk : k < count.toNat) :
    (Int8.ofNat k).toInt < count.toNat := by
  have hcount := count.toNat_lt
  rw [Int8.toInt_ofNat']
  change (k : Int).bmod 256 < _
  rw [Int.bmod_def]
  split <;> omega

/-- At the count, it has got there only below 128. -/
theorem counter_at (count : UInt8) :
    (Int8.ofNat count.toNat).toInt < count.toNat ↔ 128 ≤ count.toNat := by
  have hcount := count.toNat_lt
  rw [Int8.toInt_ofNat']
  change (count.toNat : Int).bmod 256 < _ ↔ _
  rw [Int.bmod_def]
  split <;> omega

theorem counter_neg {k : Nat} (hk : k < 256) : Int8.ofNat k < 0 ↔ 128 ≤ k := by
  rw [Int8.lt_iff_toInt_lt, Int8.toInt_ofNat', Int8.toInt_zero]
  change (k : Int).bmod 256 < _ ↔ _
  rw [Int.bmod_def]
  split <;> omega

theorem counter_succ (k : Nat) : Int8.ofNat k + 1 = Int8.ofNat (k + 1) :=
  (Int8.ofNat_add k 1).symm

theorem keyText_ne_nil (key : Bytes) : keyText key ≠ [] := nofun

theorem valueText_ne_nil (data : Option JsonData) : valueText data ≠ [] := by
  cases data with
  | none => decide
  | some data => exact List.append_ne_nil_of_right_ne_nil _ (by decide)

variable {size limit : UInt32} {array : Bool} {count : UInt8} {b : JsonBuffer}

/-- The next property, when it is one of those the loop gets to see. -/
theorem readable_cons {k : Nat} (hk : k < 256) (hin : ¬ (array = true ∧ Int8.ofNat k < 0))
    (p : Option DeviceProperty) (properties : List (Option DeviceProperty)) :
    readable array k (p :: properties) = p :: readable array (k + 1) properties := by
  unfold readable
  split
  · rename_i harray
    have : k < 128 := by
      by_contra hge
      exact hin ⟨harray, (counter_neg hk).mpr (by omega)⟩
    rw [show 128 - k = 128 - (k + 1) + 1 by omega, List.take_succ_cons]
  · rfl

theorem take_length_append (s t : Bytes) : (s.take (s.length - 0)) ++ t = s ++ t := by
  rw [Nat.sub_zero, List.take_length]

theorem putJsonNode_fits (h : Ready size limit b) {key : Bytes} {data : Option JsonData}
    (hkey : Fits limit.toNat b.text.length (keyText key))
    (hvalue : Fits limit.toNat (b.text.length + (keyText key).length) (valueText data)) :
    b.putJsonNode size limit key data =
      (.retSuccess, { b with text := b.text ++ nodeText (some ⟨some key, data⟩) }) := by
  have hready := h.append 0 hkey
  rw [take_length_append] at hready
  unfold putJsonNode andThen
  rw [append_of_fits h 0 (keyText_ne_nil key) hkey, if_pos rfl, take_length_append,
    append_of_fits hready 0 (valueText_ne_nil data) (by rwa [List.length_append]),
    take_length_append, List.append_assoc]
  rfl

theorem Ready.node (h : Ready size limit b) {key : Bytes} {data : Option JsonData}
    (hkey : Fits limit.toNat b.text.length (keyText key))
    (hvalue : Fits limit.toNat (b.text.length + (keyText key).length) (valueText data)) :
    Ready size limit { b with text := b.text ++ nodeText (some ⟨some key, data⟩) } := by
  have hready := (h.append 0 hkey).append 0 (by rwa [take_length_append, List.length_append])
  rwa [take_length_append, take_length_append, List.append_assoc] at hready

theorem putJsonNode_unfit (h : Ready size limit b) {key : Bytes} {data : Option JsonData}
    (hfits : ¬ (Fits limit.toNat b.text.length (keyText key) ∧
      Fits limit.toNat (b.text.length + (keyText key).length) (valueText data))) :
    (b.putJsonNode size limit key data).1 ≠ .retSuccess ∧
      (b.putJsonNode size limit key data).2.Clean := by
  unfold putJsonNode andThen
  by_cases hkey : Fits limit.toNat b.text.length (keyText key)
  · have hready := h.append 0 hkey
    rw [append_of_fits h 0 (keyText_ne_nil key) hkey, if_pos rfl]
    refine append_of_not_fits hready 0 fun hvalue => hfits ⟨hkey, ?_⟩
    rwa [take_length_append, List.length_append] at hvalue
  · have hunfit := append_of_not_fits h 0 hkey
    rw [if_neg hunfit.1]
    exact hunfit

/-- **The loop puts all properties.** From 128 properties on it goes on after that, and reads
what is not there. -/
theorem putNodes_fit : ∀ {k : Nat} {properties : List (Option DeviceProperty)} {b : JsonBuffer},
    Ready size limit b → k + properties.length = count.toNat →
    NodesFit limit.toNat b.text.length (readable array k properties) →
    b.putNodes size limit array count (Int8.ofNat k) properties =
      if count.toNat < 128 then some (.retSuccess, { b with text := b.text ++ nodesText properties })
      else none
  | k, [], b, h, hk, hfit => by
    have hat := counter_at count
    rw [List.length_nil, Nat.add_zero] at hk
    rw [hk]
    unfold putNodes
    by_cases hcount : count.toNat < 128
    · rw [if_neg (hat.not.mpr (by omega)), if_pos hcount, nodesText, List.flatMap_nil,
        List.append_nil]
    · rw [if_pos (hat.mpr (by omega)), if_neg hcount]
  | k, p :: properties, b, h, hk, hfit => by
    have hcount := count.toNat_lt
    rw [List.length_cons] at hk
    have hneg := counter_neg (show k < 256 by omega)
    unfold putNodes
    rw [if_pos (counter_lt (by omega))]
    by_cases hstray : array = true ∧ Int8.ofNat k < 0
    · rw [if_pos hstray, if_neg (by have := hneg.mp hstray.2; omega)]
    rw [if_neg hstray]
    rw [readable_cons (by omega) hstray] at hfit
    rcases p with _ | ⟨_ | key, data⟩
    · exact hfit.elim
    · exact hfit.elim
    · obtain ⟨hkey, hvalue, hrest⟩ := hfit
      rw [← List.length_append] at hrest
      simp only [putJsonNode_fits h hkey hvalue, if_true]
      rw [counter_succ, putNodes_fit (h.node hkey hvalue) (by omega) hrest]
      simp only [nodesText, List.flatMap_cons, List.append_assoc]

/-- Where a property has no key or does not fit, the loop ends there with an error. -/
theorem putNodes_unfit : ∀ {k : Nat} {properties : List (Option DeviceProperty)} {b : JsonBuffer},
    Ready size limit b → k + properties.length = count.toNat →
    ¬ NodesFit limit.toNat b.text.length (readable array k properties) →
    ∃ r, b.putNodes size limit array count (Int8.ofNat k) properties = some r ∧
      r.1 ≠ .retSuccess ∧ r.2.Clean
  | k, [], b, h, hk, hfit => by
    refine absurd ?_ hfit
    unfold readable
    split
    · rw [List.take_nil]
      trivial
    · trivial
  | k, p :: properties, b, h, hk, hfit => by
    have hcount := count.toNat_lt
    rw [List.length_cons] at hk
    have hneg := counter_neg (show k < 256 by omega)
    unfold putNodes
    rw [if_pos (counter_lt (by omega))]
    have hin : ¬ (array = true ∧ Int8.ofNat k < 0) := by
      rintro ⟨harray, hk'⟩
      refine hfit ?_
      have := hneg.mp hk'
      rw [readable, if_pos harray, show 128 - k = 0 by omega, List.take_zero]
      trivial
    rw [if_neg hin]
    rw [readable_cons (by omega) hin] at hfit
    have hinval : ReturnCode.errInval ≠ .retSuccess := by decide
    rcases p with _ | ⟨_ | key, data⟩
    · exact ⟨_, rfl, hinval, h.clean⟩
    · exact ⟨_, rfl, hinval, h.clean⟩
    · simp only
      by_cases hnode : Fits limit.toNat b.text.length (keyText key) ∧
          Fits limit.toNat (b.text.length + (keyText key).length) (valueText data)
      · simp only [putJsonNode_fits h hnode.1 hnode.2, if_true]
        rw [counter_succ]
        refine putNodes_unfit (h.node hnode.1 hnode.2) (by omega) fun hrest => hfit ⟨hnode.1, hnode.2, ?_⟩
        rwa [List.length_append] at hrest
      · have hunfit := putJsonNode_unfit h hnode
        rw [if_neg hunfit.1]
        exact ⟨_, rfl, hunfit⟩

/-! ## A succession of prints -/

/-- The result is clean, and a success has left exactly this string in the buffer. -/
def Prints (size : UInt32) (r : ReturnCode × JsonBuffer) (text : Bytes) (tokenNum : UInt32) : Prop :=
  r.2.Clean ∧ (r.1 = .retSuccess →
    r.2 = ⟨text, tokenNum, false, false⟩ ∧ text.length < size.toNat)

theorem eq_of_clean (h : b.Clean) : b = ⟨b.text, b.tokenNum, false, false⟩ := by
  cases b with
  | mk text tokenNum overrun wrapped =>
    obtain ⟨rfl, rfl⟩ : overrun = false ∧ wrapped = false := h
    rfl

theorem prints_print (h : Ready size size b) (back : Nat) {s : Bytes} (hs : s ≠ []) :
    Prints size (b.print size (b.text.length - back) (b.remainSize size) s)
      (b.text.take (b.text.length - back) ++ s) b.tokenNum := by
  by_cases hfits : Fits size.toNat b.text.length s
  · rw [print_of_fits h back hs hfits]
    refine ⟨h.clean, fun _ => ⟨?_, ?_⟩⟩
    · exact eq_of_clean (b := { b with text := _ }) h.clean
    · have hlt := hfits.1
      rw [List.length_append, List.length_take]
      omega
  · have hunfit := print_of_not_fits h back hfits
    exact ⟨hunfit.2, fun hrc => absurd hrc hunfit.1⟩

theorem prints_append (h : Ready size size b) (back : Nat) {s : Bytes} (hs : s ≠ []) :
    Prints size (b.append size size back s) (b.text.take (b.text.length - back) ++ s) b.tokenNum := by
  unfold append
  rw [computeRemain_eq h.length_le]
  simp only
  split
  · exact ⟨h.clean, nofun⟩
  · exact prints_print h back hs

theorem Prints.andThen {r : ReturnCode × JsonBuffer} {next : JsonBuffer → ReturnCode × JsonBuffer}
    {text text' : Bytes} {tokenNum tokenNum' : UInt32} (h : Prints size r text tokenNum)
    (hnext : Ready size size ⟨text, tokenNum, false, false⟩ →
      Prints size (next ⟨text, tokenNum, false, false⟩) text' tokenNum') :
    Prints size (andThen r next) text' tokenNum' := by
  unfold JsonBuffer.andThen
  split
  · rename_i hrc
    obtain ⟨hb, hlt⟩ := h.2 hrc
    rw [hb]
    exact hnext ⟨⟨rfl, rfl⟩, UInt32.le_refl _, Nat.le_of_lt hlt⟩
  · rename_i hrc
    exact ⟨h.1, fun hsuccess => absurd hsuccess hrc⟩

theorem prints_appendClientToken (h : Ready size size b) (productId : Bytes) :
    Prints size (b.appendClientToken size productId)
      (b.text ++ clientToken productId b.tokenNum) (b.tokenNum + 1) := by
  have hne : clientToken productId b.tokenNum ≠ [] := List.append_ne_nil_of_right_ne_nil _ nofun
  unfold appendClientToken
  rw [computeRemain_eq h.length_le]
  simp only
  split
  · exact ⟨h.clean, nofun⟩
  · have hprint := prints_print (b := { b with tokenNum := b.tokenNum + 1 })
      ⟨h.clean, h.limit_le, h.length_le⟩ 0 hne
    rwa [take_length_append] at hprint

/-- The end of every document. -/
def tailText (productId : Bytes) (tokenNum : UInt32) : Bytes :=
  ascii "\x7d, \"clientToken\":\"" ++ clientToken productId tokenNum ++ ascii "\"\x7d"

theorem prints_jsonFinalize (h : Ready size size b) (productId : Bytes) :
    Prints size (b.jsonFinalize size productId)
      (b.text.dropLast ++ tailText productId b.tokenNum) (b.tokenNum + 1) := by
  unfold jsonFinalize tailText
  rw [List.dropLast_eq_take, ← List.append_assoc, ← List.append_assoc]
  refine ((prints_append h 1 (by decide)).andThen fun h' =>
    prints_appendClientToken h' productId).andThen fun h'' => ?_
  have hstep := prints_append h'' 0 (show ascii "\"\x7d" ≠ [] by decide)
  rwa [take_length_append] at hstep

/-! ## Up to the last property -/

/-- The document before the first property. -/
def opened (overwrite : Bool) (opening : Bytes) : Bytes := head overwrite ++ opening

section

variable {overwrite : Bool} {opening : Bytes} {tokenNum : UInt32}
  {properties : List (Option DeviceProperty)}

omit properties in
theorem length_opened : (opened overwrite opening).length =
    (head overwrite).length + opening.length :=
  List.length_append

theorem head_ne_nil (overwrite : Bool) : head overwrite ≠ [] := by
  cases overwrite <;> decide

theorem ready_nil (size : UInt32) (tokenNum : UInt32) :
    Ready size size ⟨[], tokenNum, false, false⟩ :=
  ⟨⟨rfl, rfl⟩, UInt32.le_refl _, Nat.zero_le _⟩

theorem jsonInit_eq (size : UInt32) (overwrite : Bool) (tokenNum : UInt32) :
    jsonInit size overwrite tokenNum =
      print size (([] : Bytes).length - 0) (remainSize size ⟨[], tokenNum, false, false⟩)
        (head overwrite) ⟨[], tokenNum, false, false⟩ := by
  unfold jsonInit remainSize
  rw [show UInt32.ofNat ([] : Bytes).length = 0 from rfl, UInt32.sub_zero]
  rfl

theorem ready_head (hfits : Fits size.toNat 0 (head overwrite)) :
    Ready size size ⟨head overwrite, tokenNum, false, false⟩ :=
  ⟨⟨rfl, rfl⟩, UInt32.le_refl _, by
    have := hfits.1
    simp only
    omega⟩

/-- The buffer before the loop, and the size the loop takes for the buffer's. -/
theorem constructNodes_opened (hopening : 1 < opening.length ∧ opening.length ≤ intMax)
    (hlt : (opened overwrite opening).length < size.toNat) :
    constructNodes size overwrite array opening tokenNum properties =
      (putNodes size (remainSize size ⟨head overwrite, tokenNum, false, false⟩) array
        (UInt8.ofNat properties.length) 0 properties
        ⟨opened overwrite opening, tokenNum, false, false⟩).map fun r =>
          (JsonBuffer.andThen r (append size size 1 (ascii "\x7d,")), r.2.remainSize size) := by
  have hlen : (opened overwrite opening).length = _ := length_opened
  have hhead : Fits size.toNat ([] : Bytes).length (head overwrite) :=
    ⟨by rw [List.length_nil]; omega, by cases overwrite <;> decide⟩
  have hfits : Fits size.toNat (head overwrite).length opening := ⟨by omega, hopening.2⟩
  have hne : opening ≠ [] := by
    rintro rfl
    exact absurd hopening.1 (by decide)
  have hready : Ready size size ⟨head overwrite, tokenNum, false, false⟩ := ready_head hhead
  have hremain := toNat_remainSize hready.length_le
  have hprint := print_of_fits hready 0 hne hfits
  rw [take_length_append] at hprint
  unfold constructNodes
  rw [jsonInit_eq, print_of_fits (ready_nil size tokenNum) 0 (head_ne_nil _) hhead]
  simp only [List.take_nil, List.nil_append, ne_eq, not_true, if_false]
  rw [computeRemain_eq hready.length_le]
  simp only
  have hroom : ¬ remainSize size ⟨head overwrite, tokenNum, false, false⟩ ≤ 1 := by
    rw [UInt32.le_iff_toNat_le, hremain]
    change ¬ _ ≤ 1
    simp only
    omega
  rw [if_neg hroom]
  simp only [Nat.sub_zero] at hprint
  rw [hprint]
  rfl

/-- Too small a buffer is refused before the loop. -/
theorem constructNodes_refused (hge : size.toNat ≤ (opened overwrite opening).length) :
    ∃ r, constructNodes size overwrite array opening tokenNum properties = some r ∧
      r.1.1 ≠ .retSuccess ∧ r.1.2.Clean := by
  have hlen : (opened overwrite opening).length = _ := length_opened
  unfold constructNodes
  rw [jsonInit_eq]
  by_cases hhead : Fits size.toNat ([] : Bytes).length (head overwrite)
  · have hready : Ready size size ⟨head overwrite, tokenNum, false, false⟩ := ready_head hhead
    rw [print_of_fits (ready_nil size tokenNum) 0 (head_ne_nil _) hhead]
    simp only [List.take_nil, List.nil_append, ne_eq, not_true, if_false]
    rw [computeRemain_eq hready.length_le]
    simp only
    split
    · exact ⟨_, rfl, nofun, rfl, rfl⟩
    · have hunfit := print_of_not_fits hready 0 (s := opening) fun hfits => by
        have := hfits.1
        simp only at this
        omega
      simp only [Nat.sub_zero] at hunfit
      rw [if_pos hunfit.1]
      exact ⟨_, rfl, hunfit⟩
  · have hunfit := print_of_not_fits (ready_nil size tokenNum) 0 hhead
    simp only
    rw [if_pos hunfit.1]
    exact ⟨_, rfl, hunfit⟩

/-- The first property has a key. -/
def firstHasKey : List (Option DeviceProperty) → Bool
  | some ⟨some _, _⟩ :: _ => true
  | _ => false

/-- A property without a key ends the loop. -/
theorem putNodes_keyless {p : Option DeviceProperty} (hcount : 0 < count.toNat)
    (hkey : firstHasKey (p :: properties) = false) :
    b.putNodes size limit array count 0 (p :: properties) = some (.errInval, b) := by
  unfold putNodes
  rw [show (0 : Int8) = Int8.ofNat 0 from rfl, if_pos (counter_lt hcount),
    if_neg fun h => absurd h.2 (by decide)]
  rcases p with _ | ⟨_ | key, data⟩
  · rfl
  · rfl
  · cases hkey

/-- The document so far is longer than what `put_json_node` takes for the whole buffer. -/
def Narrow (size : UInt32) (overwrite : Bool) (opening : Bytes) : Prop :=
  (opened overwrite opening).length < size.toNat ∧
    size.toNat < (head overwrite).length + (opened overwrite opening).length

instance : Decidable (Narrow size overwrite opening) := inferInstanceAs (Decidable (_ ∧ _))

/-- All properties the loop gets to see are put. -/
def AllPut (size : UInt32) (overwrite array : Bool) (opening : Bytes)
    (properties : List (Option DeviceProperty)) : Prop :=
  (opened overwrite opening).length < size.toNat ∧
    NodesFit (size.toNat - (head overwrite).length) (opened overwrite opening).length
      (readable array 0 properties)

instance : Decidable (AllPut size overwrite array opening properties) :=
  inferInstanceAs (Decidable (_ ∧ _))

omit properties in
theorem append_wrapped (h : limit.toNat < b.text.length) (back : Nat) (s : Bytes) :
    (b.append size limit back s).2.wrapped = true := by
  have hwrapped : (b.computeRemain limit).2.wrapped = true := by
    simp [computeRemain, h]
  unfold append
  simp only
  split
  · exact hwrapped
  · exact (keeps_print _ _ _ _ _).2 hwrapped

/-- A property that meets a narrow buffer makes the remaining size wrap. -/
theorem constructNodes_narrow (hopening : 1 < opening.length ∧ opening.length ≤ intMax)
    (hnarrow : Narrow size overwrite opening) (hfirst : firstHasKey properties = true)
    (hcount : properties.length < 256) {r : (ReturnCode × JsonBuffer) × UInt32}
    (h : constructNodes size overwrite array opening tokenNum properties = some r) :
    ¬ r.1.2.Clean := by
  rw [constructNodes_opened hopening hnarrow.1] at h
  obtain ⟨r₀, hput, rfl⟩ := Option.map_eq_some_iff.mp h
  refine not_clean_of_keeps (keeps_andThen (.refl r₀.2) (keeps_append _ _ _ _)) ?_
  match properties, hfirst with
  | some ⟨some key, data⟩ :: properties, _ =>
    have hcounter : (Int8.ofNat 0).toInt <
        (UInt8.ofNat (some ⟨some key, data⟩ :: properties).length).toNat := by
      refine counter_lt ?_
      rw [UInt8.toNat_ofNat', Nat.mod_eq_of_lt hcount]
      exact Nat.succ_pos _
    have hwrapped : (putJsonNode size (remainSize size ⟨head overwrite, tokenNum, false, false⟩) key
        data ⟨opened overwrite opening, tokenNum, false, false⟩).2.wrapped = true := by
      refine (keeps_andThen (.refl _) (keeps_append _ _ _ _)).2 (append_wrapped ?_ _ _)
      have hlen : (opened overwrite opening).length = _ := length_opened
      obtain ⟨hlt, hnarrow⟩ := hnarrow
      rw [toNat_remainSize (by simp only; omega)]
      simp only
      omega
    unfold putNodes at hput
    rw [show (0 : Int8) = Int8.ofNat 0 from rfl, if_pos hcounter,
      if_neg fun h => absurd h.2 (by decide)] at hput
    simp only at hput
    split at hput
    · exact fun hclean => absurd hclean.2 (by simp [(keeps_putNodes hput).2 hwrapped])
    · cases hput
      exact fun hclean => absurd hclean.2 (by simp [hwrapped])

theorem readable_of_lt (hlt : properties.length < 128) : readable array 0 properties = properties := by
  unfold readable
  split
  · exact List.take_of_length_le (by omega)
  · rfl

theorem nodesFit_le {n bound : Nat} : ∀ {length : Nat} {properties : List (Option DeviceProperty)},
    NodesFit n length properties → n ≤ bound → length ≤ bound →
    length + (nodesText properties).length ≤ bound
  | _, [], _, _, hle => hle
  | length, some ⟨some key, data⟩ :: properties, ⟨_, hvalue, hrest⟩, hn, _ => by
    have hlt := hvalue.1
    have hnode : (nodeText (some ⟨some key, data⟩)).length =
        (keyText key).length + (valueText data).length := List.length_append
    have hle := nodesFit_le hrest hn (by omega)
    rw [nodesText, List.flatMap_cons, List.length_append]
    change length + ((nodeText (some ⟨some key, data⟩)).length + (nodesText properties).length) ≤ _
    omega

/-- All properties are put: the loop ends behind them, or not at all. -/
theorem constructNodes_put (hopening : 1 < opening.length ∧ opening.length ≤ intMax)
    (hput : AllPut size overwrite array opening properties)
    (hsafe : ¬ (Narrow size overwrite opening ∧ firstHasKey properties = true))
    (hcount : properties.length < 256) :
    constructNodes size overwrite array opening tokenNum properties =
      if properties.length < 128 then
        some (append size size 1 (ascii "\x7d,")
            ⟨opened overwrite opening ++ nodesText properties, tokenNum, false, false⟩,
          remainSize size ⟨opened overwrite opening ++ nodesText properties, tokenNum, false, false⟩)
      else none := by
  have hlen : (opened overwrite opening).length = _ := length_opened
  obtain ⟨hlt, hfit⟩ := hput
  have hnum : (UInt8.ofNat properties.length).toNat = properties.length := by
    rw [UInt8.toNat_ofNat', Nat.mod_eq_of_lt hcount]
  have hremain : (remainSize size ⟨head overwrite, tokenNum, false, false⟩).toNat =
      size.toNat - (head overwrite).length := toNat_remainSize (by simp only; omega)
  rw [constructNodes_opened hopening hlt]
  by_cases hnil : properties = []
  · subst hnil
    rw [nodesText, List.flatMap_nil, List.append_nil]
    rfl
  have hroom : (opened overwrite opening).length ≤ size.toNat - (head overwrite).length := by
    by_contra hgt
    refine hsafe ⟨⟨hlt, by omega⟩, ?_⟩
    cases properties with
    | nil => exact absurd rfl hnil
    | cons p rest =>
      rw [readable_cons (by omega) fun h => absurd h.2 (by decide)] at hfit
      match p, hfit with
      | some ⟨some _, _⟩, _ => rfl
  rw [← hremain] at hroom hfit
  have hready : Ready size (remainSize size ⟨head overwrite, tokenNum, false, false⟩)
      ⟨opened overwrite opening, tokenNum, false, false⟩ :=
    ⟨⟨rfl, rfl⟩, by rw [UInt32.le_iff_toNat_le, hremain]; omega, hroom⟩
  have hsum : 0 + properties.length = (UInt8.ofNat properties.length).toNat := by
    rw [hnum, Nat.zero_add]
  rw [show (0 : Int8) = Int8.ofNat 0 from rfl, putNodes_fit hready hsum hfit, hnum]
  split
  · rfl
  · rfl

/-- Not all properties are put: the call ends with an error, and nothing has gone wrong. -/
theorem constructNodes_unput (hopening : 1 < opening.length ∧ opening.length ≤ intMax)
    (hput : ¬ AllPut size overwrite array opening properties)
    (hsafe : ¬ (Narrow size overwrite opening ∧ firstHasKey properties = true))
    (hcount : properties.length < 256) :
    ∃ r, constructNodes size overwrite array opening tokenNum properties = some r ∧
      r.1.1 ≠ .retSuccess ∧ r.1.2.Clean := by
  have hlen : (opened overwrite opening).length = _ := length_opened
  have hnum : (UInt8.ofNat properties.length).toNat = properties.length := by
    rw [UInt8.toNat_ofNat', Nat.mod_eq_of_lt hcount]
  by_cases hlt : (opened overwrite opening).length < size.toNat
  · have hremain : (remainSize size ⟨head overwrite, tokenNum, false, false⟩).toNat =
        size.toNat - (head overwrite).length := toNat_remainSize (by simp only; omega)
    rw [constructNodes_opened hopening hlt]
    have hloop : ∃ r, putNodes size (remainSize size ⟨head overwrite, tokenNum, false, false⟩) array
        (UInt8.ofNat properties.length) 0 properties
          ⟨opened overwrite opening, tokenNum, false, false⟩ = some r ∧
        r.1 ≠ .retSuccess ∧ r.2.Clean := by
      by_cases hnarrow : Narrow size overwrite opening
      · match properties with
        | [] =>
          refine absurd ⟨hlt, ?_⟩ hput
          unfold readable
          rw [List.take_nil, ite_self]
          trivial
        | p :: rest =>
          refine ⟨_, putNodes_keyless (by rw [hnum]; exact Nat.succ_pos _) ?_, nofun, rfl, rfl⟩
          exact Bool.eq_false_iff.mpr fun hfirst => hsafe ⟨hnarrow, hfirst⟩
      · have hroom : (opened overwrite opening).length ≤ size.toNat - (head overwrite).length := by
          by_contra hgt
          exact hnarrow ⟨hlt, by omega⟩
        rw [← hremain] at hroom
        refine putNodes_unfit ⟨⟨rfl, rfl⟩, ?_, hroom⟩ (by rw [hnum, Nat.zero_add]) ?_
        · rw [UInt32.le_iff_toNat_le, hremain]
          omega
        · rw [hremain]
          exact fun hfit => hput ⟨hlt, hfit⟩
    obtain ⟨r, hr, hrc, hclean⟩ := hloop
    rw [hr]
    refine ⟨_, rfl, ?_⟩
    simp only [andThen_of_error hrc]
    exact ⟨hrc, hclean⟩
  · exact constructNodes_refused (Nat.le_of_not_lt hlt)

end

/-! ## The contract -/

/-- The result of a call that is to build `doc`: the call ends, stays in its buffer, never computes a
remaining size below zero, and fails if `doc` and its end do not fit. -/
def Safe (size : UInt32) (doc : Bytes) : Option (ReturnCode × JsonBuffer) → Prop
  | none => False
  | some r => r.2.overrun = false ∧ r.2.wrapped = false ∧
      (size.toNat ≤ doc.length → r.1 ≠ .retSuccess)

theorem Prints.safe {r : ReturnCode × JsonBuffer} {text : Bytes} {tokenNum : UInt32}
    (h : Prints size r text tokenNum) : Safe size text (some r) :=
  ⟨h.1.1, h.1.2, fun hge hrc => absurd (h.2 hrc).2 (Nat.not_lt.mpr hge)⟩

theorem safe_of_error {r : ReturnCode × JsonBuffer} {doc : Bytes} (hrc : r.1 ≠ .retSuccess)
    (h : r.2.Clean) : Safe size doc (some r) :=
  ⟨h.1, h.2, fun _ => hrc⟩

theorem not_safe_of_not_clean {r : ReturnCode × JsonBuffer} {doc : Bytes} (h : ¬ r.2.Clean) :
    ¬ Safe size doc (some r) :=
  fun hsafe => h ⟨hsafe.1, hsafe.2.1⟩

/-! ## The documents -/

/-- The document up to the `},` behind its properties, in the place of the last comma. -/
def nodesDocument (overwrite : Bool) (opening : Bytes) (properties : List (Option DeviceProperty)) :
    Bytes :=
  (opened overwrite opening ++ nodesText properties).dropLast ++ ascii "\x7d,"

/-- `"reported":{`, `"desired":{` and `"desired": null `. -/
def reportedText : Bytes := ascii "\"reported\":\x7b"
def desiredText : Bytes := ascii "\"desired\":\x7b"
def desiredNullText : Bytes := ascii "\"desired\": null "

/-- Which of the functions overwrites, which reads an array, and what it opens. -/
def Construct.overwrites : Construct → Bool
  | .overwriteReport => true
  | _ => false

def Construct.fromArray : Construct → Bool
  | .reportArray => true
  | _ => false

def Construct.opening : Construct → Bytes
  | .desirePropNull => desiredText
  | _ => reportedText

/-- The document that a function is to build. -/
def Construct.document (f : Construct) (productId : Bytes) (tokenNum : UInt32)
    (properties : List (Option DeviceProperty)) : Bytes :=
  let body := match f with
    | .desireAllNull => head false ++ desiredNullText
    | .reportAndDesireAllNull => nodesDocument false reportedText properties ++ desiredNullText
    | f => nodesDocument f.overwrites f.opening properties
  body.dropLast ++ tailText productId tokenNum

/-- The condition, where there are properties. A first property makes the remaining size wrap in a
buffer that ends less than the head behind the opening; from 128 properties on the loop does not end
when it can put what it reads; and `"desired": null ` is printed past the end when 3 to 17 bytes are
left behind the properties. -/
def Construct.Within (f : Construct) (size : UInt32) (properties : List (Option DeviceProperty)) :
    Prop :=
  f = .desireAllNull ∨
    ¬ (Narrow size f.overwrites f.opening ∧ firstHasKey properties = true) ∧
    ¬ (128 ≤ properties.length ∧ AllPut size f.overwrites f.fromArray f.opening properties) ∧
    (f = .reportAndDesireAllNull → AllPut size f.overwrites f.fromArray f.opening properties →
      ¬ (3 ≤ size.toNat - (opened f.overwrites f.opening ++ nodesText properties).length ∧
        size.toNat - (opened f.overwrites f.opening ++ nodesText properties).length ≤ 17))

instance (f : Construct) (size : UInt32) (properties : List (Option DeviceProperty)) :
    Decidable (f.Within size properties) :=
  inferInstanceAs (Decidable (_ ∨ _ ∧ _ ∧ _))

section

variable {overwrite : Bool} {opening : Bytes} {tokenNum : UInt32} {productId : Bytes}
  {properties : List (Option DeviceProperty)}

/-- With all properties put, the buffer is in order behind them. -/
theorem ready_of_allPut (hput : AllPut size overwrite array opening properties)
    (hlt : properties.length < 128) :
    Ready size size ⟨opened overwrite opening ++ nodesText properties, tokenNum, false, false⟩ := by
  obtain ⟨hopened, hfit⟩ := hput
  rw [readable_of_lt hlt] at hfit
  have hle := nodesFit_le hfit (Nat.sub_le _ _) (Nat.le_of_lt hopened)
  exact ⟨⟨rfl, rfl⟩, UInt32.le_refl _, by rwa [List.length_append]⟩

theorem prints_nodes (hput : AllPut size overwrite array opening properties)
    (hlt : properties.length < 128) :
    Prints size (append size size 1 (ascii "\x7d,")
        ⟨opened overwrite opening ++ nodesText properties, tokenNum, false, false⟩)
      (nodesDocument overwrite opening properties) tokenNum := by
  unfold nodesDocument
  rw [List.dropLast_eq_take]
  exact prints_append (ready_of_allPut hput hlt) 1 (by decide)

/-- Before a call can go wrong in another way: what the loop decides. -/
theorem safe_nodes_iff (good : Prop)
    {next : (ReturnCode × JsonBuffer) × UInt32 → ReturnCode × JsonBuffer} {doc : Bytes}
    (hopening : 1 < opening.length ∧ opening.length ≤ intMax) (hcount : properties.length < 256)
    (hkeeps : ∀ r : (ReturnCode × JsonBuffer) × UInt32, r.1.2.Keeps (next r).2)
    (herror : ∀ r : (ReturnCode × JsonBuffer) × UInt32, r.1.1 ≠ .retSuccess → next r = r.1)
    (hgood : AllPut size overwrite array opening properties → properties.length < 128 →
      (Safe size doc (some (next (append size size 1 (ascii "\x7d,")
          ⟨opened overwrite opening ++ nodesText properties, tokenNum, false, false⟩,
        remainSize size
          ⟨opened overwrite opening ++ nodesText properties, tokenNum, false, false⟩))) ↔ good)) :
    Safe size doc ((constructNodes size overwrite array opening tokenNum properties).map next) ↔
      ¬ (Narrow size overwrite opening ∧ firstHasKey properties = true) ∧
      ¬ (128 ≤ properties.length ∧ AllPut size overwrite array opening properties) ∧
      (AllPut size overwrite array opening properties → good) := by
  by_cases hnarrow : Narrow size overwrite opening ∧ firstHasKey properties = true
  · refine iff_of_false ?_ fun h => h.1 hnarrow
    cases hc : constructNodes size overwrite array opening tokenNum properties with
    | none => exact id
    | some r =>
      have hwrong := constructNodes_narrow hopening hnarrow.1 hnarrow.2 hcount hc
      exact not_safe_of_not_clean (not_clean_of_keeps (hkeeps r) hwrong)
  by_cases hput : AllPut size overwrite array opening properties
  · rw [constructNodes_put hopening hput hnarrow hcount]
    by_cases hlt : properties.length < 128
    · rw [if_pos hlt, Option.map_some, hgood hput hlt]
      exact ⟨fun hg => ⟨hnarrow, fun h => absurd h.1 (by omega), fun _ => hg⟩, fun h => h.2.2 hput⟩
    · rw [if_neg hlt]
      exact iff_of_false id fun h => h.2.1 ⟨by omega, hput⟩
  · obtain ⟨r, hr, hrc, hclean⟩ : ∃ r,
        constructNodes size overwrite array opening tokenNum properties = some r ∧
          r.1.1 ≠ .retSuccess ∧ r.1.2.Clean := constructNodes_unput hopening hput hnarrow hcount
    rw [hr, Option.map_some, herror r hrc]
    exact iff_of_true (safe_of_error hrc hclean)
      ⟨hnarrow, fun h => hput h.2, fun h => absurd h hput⟩

/-- The functions that finish the document right behind the properties. -/
theorem safe_finalize_iff (hopening : 1 < opening.length ∧ opening.length ≤ intMax)
    (hcount : properties.length < 256) :
    Safe size ((nodesDocument overwrite opening properties).dropLast ++ tailText productId tokenNum)
        ((constructNodes size overwrite array opening tokenNum properties).map fun r =>
          andThen r.1 (jsonFinalize size productId)) ↔
      ¬ (Narrow size overwrite opening ∧ firstHasKey properties = true) ∧
      ¬ (128 ≤ properties.length ∧ AllPut size overwrite array opening properties) := by
  refine (safe_nodes_iff True hopening hcount
    (fun r => keeps_andThen (.refl _) (keeps_jsonFinalize size productId))
    (fun r hrc => andThen_of_error hrc) fun hput hlt => iff_of_true ?_ trivial).trans ?_
  · exact ((prints_nodes hput hlt).andThen fun h => prints_jsonFinalize h productId).safe
  · simp only [implies_true, and_true]

/-- A print into a remaining size that was computed for a string one byte shorter. -/
theorem print_stale (h : Ready size size b) {c : JsonBuffer}
    (hlen : c.text.length = b.text.length + 1) {s : Bytes} (hmax : s.length ≤ intMax)
    (hroom : 3 ≤ size.toNat - b.text.length) :
    (s.length + 2 ≤ size.toNat - b.text.length →
      c.print size c.text.length (b.remainSize size) s =
        (.retSuccess, { c with text := c.text ++ s })) ∧
    (size.toNat - b.text.length < s.length + 2 →
      (c.print size c.text.length (b.remainSize size) s).2.overrun = true) := by
  have hremain := toNat_remainSize h.length_le
  have hne : b.remainSize size ≠ 0 := by
    intro hzero
    rw [hzero, UInt32.toNat_zero] at hremain
    omega
  refine ⟨fun hfit => ?_, fun hunfit => ?_⟩
  · have htake : s.take (min ((b.remainSize size).toNat - 1) intMax) = s :=
      List.take_of_length_le (by omega)
    have hover : decide (size.toNat ≤ (c.text ++ s).length) = false := by
      rw [List.length_append]
      exact decide_eq_false (by omega)
    unfold print halSnprintf
    simp only [if_neg hne, htake, List.take_length, hover, Bool.or_false]
    rw [check_success.mpr ⟨by omega, hmax⟩]
  · have hlt := size.toNat_lt
    have hover : decide (size.toNat ≤ (c.text ++
        s.take (min ((b.remainSize size).toNat - 1) intMax)).length) = true := by
      rw [List.length_append, List.length_take]
      exact decide_eq_true (by omega)
    unfold print halSnprintf
    simp only [if_neg hne, List.take_length, hover, Bool.or_true]

/-- `"desired": null ` behind the properties, with the remaining size computed before the `},`. -/
theorem safe_stale (h : Ready size size b) (hpos : 0 < b.text.length) :
    Safe size ((b.text.dropLast ++ ascii "\x7d," ++ desiredNullText).dropLast ++
          tailText productId b.tokenNum)
        (some (andThen (andThen (b.append size size 1 (ascii "\x7d,")) fun c =>
          c.print size c.text.length (b.remainSize size) desiredNullText)
          (jsonFinalize size productId))) ↔
      ¬ (3 ≤ size.toNat - b.text.length ∧ size.toNat - b.text.length ≤ 17) := by
  have hcomma : (ascii "\x7d,").length = 2 := by decide
  have hnull : desiredNullText.length = 16 := by decide
  by_cases hroom : 3 ≤ size.toNat - b.text.length
  · have hfits : Fits size.toNat b.text.length (ascii "\x7d,") := ⟨by omega, by decide⟩
    have hlen : (b.text.take (b.text.length - 1) ++ ascii "\x7d,").length = b.text.length + 1 := by
      rw [List.length_append, List.length_take]
      omega
    rw [append_of_fits h 1 (by decide) hfits, andThen_of_success (r := (.retSuccess, _)) rfl]
    obtain ⟨hfit, hunfit⟩ := print_stale h
      (c := { b with text := b.text.take (b.text.length - 1) ++ ascii "\x7d," }) hlen
      (show desiredNullText.length ≤ intMax by decide) hroom
    by_cases hspace : 18 ≤ size.toNat - b.text.length
    · rw [hfit (by omega), andThen_of_success (r := (.retSuccess, _)) rfl]
      refine iff_of_true ?_ (by omega)
      rw [List.dropLast_eq_take (l := b.text)]
      have hready : Ready size size { b with
          text := b.text.take (b.text.length - 1) ++ ascii "\x7d," ++ desiredNullText } := by
        refine ⟨h.clean, UInt32.le_refl _, ?_⟩
        rw [List.length_append, hlen]
        omega
      exact (prints_jsonFinalize hready productId).safe
    · refine iff_of_false (not_safe_of_not_clean (not_clean_of_keeps
        (keeps_andThen (.refl _) (keeps_jsonFinalize size productId)) fun hclean => ?_))
        fun h => h ⟨hroom, by omega⟩
      exact absurd hclean.1 (by rw [hunfit (by omega)]; decide)
  · have hfits : ¬ Fits size.toNat b.text.length (ascii "\x7d,") := by
      intro hfits
      have := hfits.1
      omega
    have hunfit := append_of_not_fits h 1 hfits
    refine iff_of_true ?_ fun h => hroom h.1
    rw [andThen_of_error hunfit.1, andThen_of_error hunfit.1]
    exact safe_of_error hunfit.1 hunfit.2

/-- The function that uses a remaining size twice. -/
theorem safe_desireAllNull_iff (hopening : 1 < opening.length ∧ opening.length ≤ intMax)
    (hcount : properties.length < 256) :
    Safe size ((nodesDocument overwrite opening properties ++ desiredNullText).dropLast ++
          tailText productId tokenNum)
        ((constructNodes size overwrite array opening tokenNum properties).map fun r =>
          andThen (andThen r.1 fun b => b.print size b.text.length r.2 desiredNullText)
            (jsonFinalize size productId)) ↔
      ¬ (Narrow size overwrite opening ∧ firstHasKey properties = true) ∧
      ¬ (128 ≤ properties.length ∧ AllPut size overwrite array opening properties) ∧
      (AllPut size overwrite array opening properties →
        ¬ (3 ≤ size.toNat - (opened overwrite opening ++ nodesText properties).length ∧
          size.toNat - (opened overwrite opening ++ nodesText properties).length ≤ 17)) := by
  refine safe_nodes_iff _ hopening hcount
    (fun r => keeps_andThen (keeps_andThen (.refl _) fun b => keeps_print _ _ _ _ _)
      (keeps_jsonFinalize size productId))
    (fun r hrc => by rw [andThen_of_error (r := r.1) hrc, andThen_of_error hrc])
    fun hput hlt => ?_
  refine safe_stale (ready_of_allPut hput hlt) ?_
  have hlen : (opened overwrite opening).length = _ := length_opened
  rw [List.length_append]
  omega

end

/-- The function without properties never goes wrong. -/
theorem safe_desireAllNull (size : UInt32) (productId : Bytes) (tokenNum : UInt32) :
    Safe size ((head false ++ desiredNullText).dropLast ++ tailText productId tokenNum)
      (some (constructDesireAllNull size productId tokenNum)) := by
  have hinit : Prints size (jsonInit size false tokenNum) (head false) tokenNum := by
    rw [jsonInit_eq]
    exact prints_print (ready_nil size tokenNum) 0 (head_ne_nil false)
  refine ((hinit.andThen fun h => ?_).andThen fun h => prints_jsonFinalize h productId).safe
  have happend := prints_append h 0 (show desiredNullText ≠ [] by decide)
  rwa [take_length_append] at happend

/-- **Exactly when a document stays in its buffer.** For every function, size, product id, token
number and up to 255 properties: the call ends, never writes at or behind the end of the buffer, never
computes a remaining size below zero and refuses a document that does not fit, iff the condition
holds. -/
theorem bufferSafe_iff (f : Construct) (size : UInt32) (productId : Bytes) (tokenNum : UInt32)
    (properties : List (Option DeviceProperty)) (hcount : properties.length < 256) :
    Safe size (f.document productId tokenNum properties)
        (f.run size productId tokenNum properties) ↔ f.Within size properties := by
  have hreported : 1 < reportedText.length ∧ reportedText.length ≤ intMax := by decide
  have hdesired : 1 < desiredText.length ∧ desiredText.length ≤ intMax := by decide
  cases f with
  | desireAllNull => exact iff_of_true (safe_desireAllNull size productId tokenNum) (.inl rfl)
  | reportAndDesireAllNull =>
    refine (safe_desireAllNull_iff hreported hcount).trans ?_
    simp [Construct.Within, Construct.overwrites, Construct.fromArray, Construct.opening]
  | report =>
    refine (safe_finalize_iff hreported hcount).trans ?_
    simp [Construct.Within, Construct.overwrites, Construct.fromArray, Construct.opening]
  | reportArray =>
    refine (safe_finalize_iff hreported hcount).trans ?_
    simp [Construct.Within, Construct.overwrites, Construct.fromArray, Construct.opening]
  | overwriteReport =>
    refine (safe_finalize_iff hreported hcount).trans ?_
    simp [Construct.Within, Construct.overwrites, Construct.fromArray, Construct.opening]
  | desirePropNull =>
    refine (safe_finalize_iff hdesired hcount).trans ?_
    simp [Construct.Within, Construct.overwrites, Construct.fromArray, Construct.opening]

/-- One property in a buffer of 24 bytes: its value is printed as if there were no end. -/
theorem report_overrun : ¬ Safe 24 (Construct.report.document (ascii "P") 0 [some ⟨ascii "k", none⟩])
    (Construct.report.run 24 (ascii "P") 0 [some ⟨ascii "k", none⟩]) := by
  intro h
  have hrun : (Construct.report.run 24 (ascii "P") 0 [some ⟨ascii "k", none⟩]).map
      (fun r => (r.2.overrun, r.2.wrapped)) = some (true, true) := by decide
  cases hr : Construct.report.run 24 (ascii "P") 0 [some ⟨ascii "k", none⟩] with
  | none =>
    rw [hr] at h
    exact h
  | some r =>
    rw [hr] at h hrun
    exact absurd (h.1.symm.trans (Prod.mk.inj (Option.some.inj hrun)).1) (by decide)

/-- In 80 bytes the same call is in order. -/
theorem bufferSafe_report : Safe 80
    (Construct.report.document (ascii "P") 0 [some ⟨ascii "k", none⟩])
    (Construct.report.run 80 (ascii "P") 0 [some ⟨ascii "k", none⟩]) :=
  (bufferSafe_iff .report 80 (ascii "P") 0 [some ⟨ascii "k", none⟩] (by decide)).mpr (by decide)

end JsonBuffer

end QcloudIot.Shadow
