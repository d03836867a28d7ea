import QcloudIot.Shadow.Bounds
import QcloudIot.Utils.JsonLookup

/-!
# Reading a report back

What `LITE_json_value_of` finds in a document of `IOT_Shadow_JSON_ConstructReportArray`. Keys, string
values and the product id are printed as they are: nothing is escaped.

* `text_of_success`: what a successful call has printed, in the buffer or past its end;
* `search_listed_iff`: when the properties are all found;
* `lexRun_listed`: a string that the scanner takes whole, in a well-formed document, is one;
* **`roundTrips_iff`**: the document is well formed and every value is read back iff it lies in the
  buffer, the keys have no control characters, and the strings are strings of JSON, not empty, without
  a backslash at their end.
-/

namespace QcloudIot.Shadow

open Lib Utils JsonBuffer

/-! ## Reports -/

/-- The keys and values of the properties. -/
abbrev Report := List (Bytes × JsonData)

def asProperties (report : Report) : List (Option DeviceProperty) :=
  report.map fun p => some ⟨some p.1, some p.2⟩

/-- An integer, a boolean or a string. -/
def JsonData.Simple : JsonData → Prop
  | .jfloat _ => False
  | .jdouble _ => False
  | .jobject _ => False
  | _ => True

instance : DecidablePred JsonData.Simple
  | .jint32 _ => .isTrue trivial
  | .jint16 _ => .isTrue trivial
  | .jint8 _ => .isTrue trivial
  | .juint32 _ => .isTrue trivial
  | .juint16 _ => .isTrue trivial
  | .juint8 _ => .isTrue trivial
  | .jfloat _ => .isFalse id
  | .jdouble _ => .isFalse id
  | .jbool _ => .isTrue trivial
  | .jstring _ => .isTrue trivial
  | .jobject _ => .isFalse id

/-- The text of a value, a string without its quotes. -/
def JsonData.plain : JsonData → Bytes
  | .jstring s => s
  | data => data.text

/-- `"key":value`. -/
def entryText (p : Bytes × JsonData) : Bytes := keyText p.1 ++ p.2.text

/-- The entries, each behind a comma. -/
def listed (report : Report) : Bytes := report.flatMap fun p => 44 :: entryText p

/-- The document: the first entry has no comma. -/
def reportText (productId : Bytes) (tokenNum : UInt32) (report : Report) : Bytes :=
  opened false reportedText ++ (listed report).tail ++ 125 :: tailText productId tokenNum

theorem cons_nodesText : ∀ report : Report,
    44 :: nodesText (asProperties report) = listed report ++ [44]
  | [] => rfl
  | p :: report => by
    have h := cons_nodesText report
    rw [listed, List.flatMap_cons, asProperties, List.map_cons, nodesText, List.flatMap_cons]
    rw [listed, asProperties, nodesText] at h
    rw [List.append_assoc, ← h]
    change 44 :: (keyText p.1 ++ (p.2.text ++ [44]) ++ _) = 44 :: (keyText p.1 ++ p.2.text) ++ _
    simp only [List.append_assoc, List.cons_append, List.nil_append]

/-- The last comma makes room for the brace. -/
theorem document_eq {report : Report} (hne : report ≠ []) (productId : Bytes) (tokenNum : UInt32) :
    (nodesDocument false reportedText (asProperties report)).dropLast ++ tailText productId tokenNum =
      reportText productId tokenNum report := by
  have hnodes : nodesText (asProperties report) = (listed report).tail ++ [44] := by
    have h := congrArg List.tail (cons_nodesText report)
    cases report with
    | nil => exact absurd rfl hne
    | cons p report => exact h
  have hbrace : ascii "\x7d," = [125, 44] := by decide
  have hassoc : (opened false reportedText ++ (listed report).tail ++ [44]).dropLast ++ [125, 44] =
      opened false reportedText ++ (listed report).tail ++ [125] ++ [44] := by
    rw [List.dropLast_concat, List.append_assoc _ [125] [44]]
    rfl
  unfold reportText nodesDocument
  rw [hnodes, hbrace, ← List.append_assoc, hassoc, List.dropLast_concat, List.append_assoc _ [125]]
  rfl

/-! ## What a success has printed -/

/-- A success leaves this string and this token number, wherever it lies. -/
def Writes (r : ReturnCode × JsonBuffer) (text : Bytes) (tokenNum : UInt32) : Prop :=
  r.1 = .retSuccess → r.2.text = text ∧ r.2.tokenNum = tokenNum

theorem Writes.andThen {r : ReturnCode × JsonBuffer} {next : JsonBuffer → ReturnCode × JsonBuffer}
    {text text' : Bytes} {tokenNum tokenNum' : UInt32} (h : Writes r text tokenNum)
    (hnext : ∀ b : JsonBuffer, b.text = text → b.tokenNum = tokenNum →
      Writes (next b) text' tokenNum') : Writes (andThen r next) text' tokenNum' := by
  unfold JsonBuffer.andThen
  split
  · rename_i hrc
    obtain ⟨htext, hnum⟩ := h hrc
    exact hnext r.2 htext hnum
  · rename_i hrc
    exact fun hsuccess => absurd hsuccess hrc

/-- The check lets through what has been printed whole. -/
theorem writes_print (size : UInt32) (start : Nat) (len : UInt32) (s : Bytes) (b : JsonBuffer) :
    Writes (b.print size start len s) (b.text.take start ++ s) b.tokenNum := by
  intro hrc
  have hcheck : s.length < len.toNat ∧ s.length ≤ intMax := by
    refine check_success.mp ?_
    unfold print halSnprintf at hrc
    simp only at hrc
    split at hrc <;> exact hrc
  have hne : len ≠ 0 := by
    rintro rfl
    exact Nat.not_lt_zero _ hcheck.1
  have htake : s.take (min (len.toNat - 1) intMax) = s := List.take_of_length_le (by omega)
  unfold print halSnprintf
  simp only [if_neg hne, htake, and_self]

theorem writes_append (size limit : UInt32) (back : Nat) (s : Bytes) (b : JsonBuffer) :
    Writes (b.append size limit back s) (b.text.take (b.text.length - back) ++ s) b.tokenNum := by
  unfold append computeRemain
  simp only
  split
  · exact nofun
  · exact writes_print _ _ _ _ { b with wrapped := _ }

theorem writes_putJsonNode (size limit : UInt32) (key : Bytes) (data : Option JsonData)
    (b : JsonBuffer) : Writes (b.putJsonNode size limit key data)
      (b.text ++ nodeText (some ⟨some key, data⟩)) b.tokenNum := by
  have hkey := writes_append size limit 0 (keyText key) b
  rw [take_length_append] at hkey
  refine hkey.andThen fun c htext hnum => ?_
  have hvalue := writes_append size limit 0 (valueText data) c
  rwa [take_length_append, htext, hnum, List.append_assoc] at hvalue

/-- A loop that succeeds has put all properties. -/
theorem writes_putNodes {size limit : UInt32} {array : Bool} {count : UInt8} :
    ∀ {k : Nat} {properties : List (Option DeviceProperty)} {b : JsonBuffer}
      {r : ReturnCode × JsonBuffer}, k + properties.length = count.toNat →
      b.putNodes size limit array count (Int8.ofNat k) properties = some r →
      Writes r (b.text ++ nodesText properties) b.tokenNum
  | k, [], b, r, _, h => by
    unfold putNodes at h
    split at h
    · cases h
    · cases h
      exact fun _ => ⟨(List.append_nil _).symm, rfl⟩
  | k, p :: properties, b, r, hk, h => by
    rw [List.length_cons] at hk
    unfold putNodes at h
    rw [if_pos (counter_lt (by omega))] at h
    split at h
    · cases h
    have hinval : ReturnCode.errInval ≠ .retSuccess := by decide
    rcases p with _ | ⟨_ | key, data⟩
    · cases h
      exact fun hsuccess => absurd hsuccess hinval
    · cases h
      exact fun hsuccess => absurd hsuccess hinval
    · simp only at h
      split at h
      · rename_i hrc
        obtain ⟨htext, hnum⟩ := writes_putJsonNode size limit key data b hrc
        rw [counter_succ] at h
        have hrest := writes_putNodes (by omega) h
        rwa [htext, hnum, List.append_assoc] at hrest
      · rename_i hrc
        cases h
        exact fun hsuccess => absurd hsuccess hrc

theorem writes_constructNodes {size : UInt32} {overwrite array : Bool} {opening : Bytes}
    {tokenNum : UInt32} {properties : List (Option DeviceProperty)}
    (hcount : properties.length < 256) {r : (ReturnCode × JsonBuffer) × UInt32}
    (h : constructNodes size overwrite array opening tokenNum properties = some r) :
    Writes r.1 (nodesDocument overwrite opening properties) tokenNum := by
  have hhead := writes_print size 0 size (head overwrite) ⟨[], tokenNum, false, false⟩
  unfold constructNodes jsonInit at h
  cases hinit : print size 0 size (head overwrite) ⟨[], tokenNum, false, false⟩ with
  | mk rc b =>
    rw [hinit] at h hhead
    simp only at h
    split at h
    · rename_i hrc
      cases h
      exact fun hsuccess => absurd hsuccess hrc
    rename_i hrc
    have hb := hhead (not_not.mp hrc)
    have hc : (b.computeRemain size).2.text = b.text ∧
        (b.computeRemain size).2.tokenNum = b.tokenNum := ⟨rfl, rfl⟩
    cases hremain : b.computeRemain size with
    | mk limit c =>
      rw [hremain] at h hc
      simp only at h hb hc
      rw [hb.1, hb.2] at hc
      split at h
      · cases h
        exact nofun
      have hopened := writes_print size c.text.length limit opening c
      rw [List.take_length, hc.2] at hopened
      cases hprint : print size c.text.length limit opening c with
      | mk rc' b' =>
        rw [hprint] at h hopened
        simp only at h
        split at h
        · rename_i hrc'
          cases h
          exact fun hsuccess => absurd hsuccess hrc'
        rename_i hrc'
        have hb' := hopened (not_not.mp hrc')
        obtain ⟨r₀, hput, rfl⟩ := Option.map_eq_some_iff.mp h
        have hnodes : Writes r₀ (b'.text ++ nodesText properties) b'.tokenNum :=
          writes_putNodes (k := 0)
            (by rw [UInt8.toNat_ofNat', Nat.mod_eq_of_lt hcount, Nat.zero_add]) hput
        refine hnodes.andThen fun b'' htext hnum => ?_
        have hend := writes_append size size 1 (ascii "\x7d,") b''
        rw [← List.dropLast_eq_take, htext, hnum, hb'.1, hb'.2, hc.1] at hend
        exact hend

theorem writes_appendClientToken (size : UInt32) (productId : Bytes) (b : JsonBuffer) :
    Writes (b.appendClientToken size productId) (b.text ++ clientToken productId b.tokenNum)
      (b.tokenNum + 1) := by
  unfold appendClientToken computeRemain
  simp only
  split
  · exact nofun
  · have h := writes_print size b.text.length (b.remainSize size) (clientToken productId b.tokenNum)
      { b with wrapped := b.wrapped || decide (size.toNat < b.text.length)
               tokenNum := b.tokenNum + 1 }
    rwa [List.take_length] at h

theorem writes_jsonFinalize (size : UInt32) (productId : Bytes) (b : JsonBuffer) :
    Writes (b.jsonFinalize size productId) (b.text.dropLast ++ tailText productId b.tokenNum)
      (b.tokenNum + 1) := by
  have hfield := writes_append size size 1 (ascii "\x7d, \"clientToken\":\"") b
  rw [← List.dropLast_eq_take] at hfield
  have htoken : Writes (andThen (b.append size size 1 (ascii "\x7d, \"clientToken\":\""))
      (appendClientToken size productId)) (b.text.dropLast ++ ascii "\x7d, \"clientToken\":\"" ++
        clientToken productId b.tokenNum) (b.tokenNum + 1) := by
    refine hfield.andThen fun c htext hnum => ?_
    have h := writes_appendClientToken size productId c
    rwa [htext, hnum] at h
  unfold jsonFinalize tailText
  rw [← List.append_assoc, ← List.append_assoc]
  refine htoken.andThen fun c htext hnum => ?_
  have h := writes_append size size 0 (ascii "\"\x7d") c
  rwa [take_length_append, htext, hnum] at h

/-- **The document of a successful call.** -/
theorem text_of_success {size : UInt32} {productId : Bytes} {tokenNum : UInt32} {report : Report}
    (hne : report ≠ []) (hcount : report.length < 256) {r : ReturnCode × JsonBuffer}
    (h : constructReportArray size productId tokenNum (asProperties report) = some r)
    (hrc : r.1 = .retSuccess) : r.2.text = reportText productId tokenNum report := by
  obtain ⟨r₀, hnodes, rfl⟩ := Option.map_eq_some_iff.mp h
  have hlen : (asProperties report).length < 256 := by rwa [asProperties, List.length_map]
  have hdone := (writes_constructNodes hlen hnodes).andThen fun b htext hnum => by
    have hfinal := writes_jsonFinalize size productId b
    rw [htext, hnum] at hfinal
    exact hfinal
  rw [(hdone hrc).1]
  exact document_eq hne productId tokenNum

/-! ## Printed numbers -/

theorem isDigit_digitChar {c : Char} (h : c.isDigit = true) : isDigit c.toNat.toUInt8 = true := by
  have hrange : 48 ≤ c.toNat ∧ c.toNat ≤ 57 := by
    rw [Char.isDigit, Bool.and_eq_true, decide_eq_true_iff, decide_eq_true_iff,
      ge_iff_le, UInt32.le_iff_toNat_le, UInt32.le_iff_toNat_le] at h
    exact h
  rw [isDigit_iff, Nat.toUInt8, UInt8.toNat_ofNat']
  omega

theorem isDigit_printNat (n : Nat) : ∀ c ∈ printNat n, isDigit c = true := by
  intro c hc
  obtain ⟨d, hd, rfl⟩ := List.mem_map.mp hc
  exact isDigit_digitChar (Nat.isDigit_of_mem_toDigits (by decide) (by decide) hd)

theorem printNat_ne_nil (n : Nat) : printNat n ≠ [] := by
  rw [printNat, ne_eq, List.map_eq_nil_iff]
  exact Nat.toDigits_ne_nil

/-- A number below ten is one digit. -/
theorem printNat_lt {n : Nat} (h : n < 10) : printNat n = [n.digitChar.toNat.toUInt8] := by
  rw [printNat, Nat.toDigits_of_lt_base h]
  rfl

theorem printNat_ge {n : Nat} (h : 10 ≤ n) :
    printNat n = printNat (n / 10) ++ [(n % 10).digitChar.toNat.toUInt8] := by
  rw [printNat, Nat.toDigits_of_base_le (by decide) h, List.map_append]
  rfl

/-- Only the number zero begins with a zero. -/
theorem head_printNat (n : Nat) (hpos : 0 < n) : (printNat n).head? ≠ some 48 := by
  induction n using Nat.strongRecOn with
  | _ n ih =>
    by_cases hlt : n < 10
    · have hdigits : ∀ d < 10, 0 < d → (Nat.digitChar d).toNat.toUInt8 ≠ 48 := by decide
      rw [printNat_lt hlt, List.head?_cons, ne_eq, Option.some_inj]
      exact hdigits n hlt hpos
    · have hrest := ih (n / 10) (by omega) (by omega)
      rw [printNat_ge (by omega), List.head?_append_of_ne_nil _ (printNat_ne_nil _)]
      exact hrest

/-- `%d` prints a number of JSON. -/
def intNumber (n : Int) : JsonNumber :=
  .ofDigits (decide (n < 0)) (printNat n.natAbs) (by
    refine ⟨printNat_ne_nil _, isDigit_printNat _, fun hhead => ?_⟩
    by_cases hzero : n.natAbs = 0
    · rw [hzero]
      rfl
    · exact absurd hhead (head_printNat _ (Nat.pos_of_ne_zero hzero)))

theorem text_intNumber (n : Int) : (intNumber n).mantissa = printInt n := by
  rw [intNumber, JsonNumber.mantissa_ofDigits, printInt]
  by_cases hneg : n < 0
  · rw [if_pos hneg, decide_eq_true hneg]
    rfl
  · rw [if_neg hneg, decide_eq_false hneg]
    rfl

theorem printInt_natCast (n : Nat) : printInt n = printNat n := by
  rw [printInt, if_neg (by omega), Int.natAbs_natCast]

/-! ## Values as the scanner meets them -/

/-- The type it gives a value. -/
def dataType : JsonData → JsonType
  | .jbool _ => .boolean
  | .jstring _ => .string
  | _ => .number

/-- Where it finds it: a string behind its quote. -/
def dataVal (data : JsonData) (rest : Bytes) : Bytes :=
  match data with
  | .jstring s => s ++ 34 :: rest
  | data => data.text ++ rest

/-- The value is no string, and `v` is its syntax tree. -/
structure Scalar (data : JsonData) (v : Json) : Prop where
  text : v.text = data.text
  type : typeOf v = dataType data
  scanned : scanned v = data.text
  unscanned : unscanned v = []
  skips : Skips v
  filled : ¬ IsEmpty v
  outside : ∀ c ∈ data.text, isOutside c = true
  plain : data.plain = data.text
  val : ∀ rest, dataVal data rest = data.text ++ rest
  noString : ∀ s, data ≠ .jstring s

theorem scalar_int (data : JsonData) (n : Int) (htext : data.text = printInt n)
    (htype : dataType data = .number) (hplain : data.plain = data.text)
    (hval : ∀ rest, dataVal data rest = data.text ++ rest) (hstring : ∀ s, data ≠ .jstring s) :
    Scalar data (.number (intNumber n)) where
  text := by
    rw [htext, ← text_intNumber]
    exact List.append_nil _
  type := htype.symm
  scanned := by rw [htext, ← text_intNumber]; rfl
  unscanned := rfl
  skips := trivial
  filled := id
  outside := by
    rw [htext, ← text_intNumber]
    exact (intNumber n).isOutside_mantissa
  plain := hplain
  val := hval
  noString := hstring

theorem scalar_bool (b : Bool) :
    Scalar (.jbool b) (.literal (if b then .true else .false)) := by
  cases b
  · exact ⟨by decide, rfl, by decide, rfl, trivial, id, by decide, rfl, fun _ => rfl, nofun⟩
  · exact ⟨by decide, rfl, by decide, rfl, trivial, id, by decide, rfl, fun _ => rfl, nofun⟩

/-- What a simple value is. -/
theorem scalar_or_string {data : JsonData} (h : data.Simple) :
    (∃ s, data = .jstring s) ∨ ∃ v, Scalar data v := by
  cases data with
  | jstring s => exact .inl ⟨s, rfl⟩
  | jbool b => exact .inr ⟨_, scalar_bool b⟩
  | jint32 n => exact .inr ⟨_, scalar_int _ n.toInt rfl rfl rfl (fun _ => rfl) nofun⟩
  | jint16 n => exact .inr ⟨_, scalar_int _ n.toInt rfl rfl rfl (fun _ => rfl) nofun⟩
  | jint8 n => exact .inr ⟨_, scalar_int _ n.toInt rfl rfl rfl (fun _ => rfl) nofun⟩
  | juint32 n =>
    exact .inr ⟨_, scalar_int _ n.toNat (printInt_natCast _).symm rfl rfl (fun _ => rfl) nofun⟩
  | juint16 n =>
    exact .inr ⟨_, scalar_int _ n.toNat (printInt_natCast _).symm rfl rfl (fun _ => rfl) nofun⟩
  | juint8 n =>
    exact .inr ⟨_, scalar_int _ n.toNat (printInt_natCast _).symm rfl rfl (fun _ => rfl) nofun⟩
  | jfloat printed => exact h.elim
  | jdouble printed => exact h.elim
  | jobject s => exact h.elim

/-- All quotes stand behind a backslash, the last byte is none; `last` is the byte before. -/
def QuotesEscaped : UInt8 → Bytes → Prop
  | last, [] => last ≠ 92
  | last, c :: s => (c = 34 → last = 92) ∧ QuotesEscaped c s

instance QuotesEscaped.decidable : ∀ last s, Decidable (QuotesEscaped last s)
  | _, [] => inferInstanceAs (Decidable (_ ≠ _))
  | _, c :: s =>
    have := QuotesEscaped.decidable c s
    inferInstanceAs (Decidable (_ ∧ _))

/-- A quote lies ahead that no backslash escapes. -/
def QuoteAhead (t : Bytes) : Prop := ∃ a c u, t = a ++ c :: 34 :: u ∧ c ≠ 92

theorem QuoteAhead.append {t : Bytes} (h : QuoteAhead t) (s : Bytes) : QuoteAhead (s ++ t) := by
  obtain ⟨a, c, u, rfl, hc⟩ := h
  exact ⟨s ++ a, c, u, (List.append_assoc _ _ _).symm, hc⟩

/-- Behind an escaped quote, the loop goes on as behind any byte but a backslash. -/
theorem stringLen_head (i len : Nat) : ∀ t : Bytes,
    stringLen (t.headD 0) i len t = stringLen 34 i len t
  | [] => rfl
  | c :: t => by
    rw [List.headD_cons, stringLen, stringLen]
    split
    · rename_i hc
      rw [hc]
    · rfl

/-- With a quote ahead, a string does not end before the place one is at. -/
theorem le_stringLen {c : UInt8} (hc : c ≠ 92) (u : Bytes) : ∀ (a : Bytes) (last : UInt8) (i len : Nat),
    i ≤ stringLen last i len (a ++ c :: 34 :: u)
  | [], last, i, len => by
    rw [List.nil_append, stringLen]
    split
    · split
      · rw [stringLen_head, stringLen, if_pos rfl, if_neg (by decide)]
        exact Nat.le_succ i
      · exact Nat.le_refl i
    · rw [stringLen, if_pos rfl, if_neg hc]
      exact Nat.le_succ i
  | b :: a, last, i, len => by
    rw [List.cons_append, stringLen]
    split
    · split
      · exact Nat.le_of_succ_le (le_stringLen hc u a _ (i + 1) i)
      · exact Nat.le_refl i
    · exact Nat.le_of_succ_le (le_stringLen hc u a b (i + 1) len)

/-- Which strings are taken whole. -/
theorem stringLen_eq_iff {rest : Bytes} (hrest : QuoteAhead rest) :
    ∀ {s : Bytes} {last : UInt8} {i len : Nat},
      stringLen last i len (s ++ 34 :: rest) = i + s.length ↔ QuotesEscaped last s
  | [], last, i, len => by
    obtain ⟨a, c, u, rfl, hc⟩ := hrest
    rw [List.nil_append, stringLen, if_pos rfl]
    by_cases hlast : last = 92
    · have hle := le_stringLen hc u a ((a ++ c :: 34 :: u).headD 0) (i + 1) i
      rw [if_pos hlast]
      exact iff_of_false (by rw [List.length_nil]; omega) fun h => h hlast
    · rw [if_neg hlast]
      exact iff_of_true rfl hlast
  | c :: s, last, i, len => by
    have hrun : ∀ {len}, stringLen c (i + 1) len (s ++ 34 :: rest) = i + (c :: s).length ↔
        QuotesEscaped c s := by
      intro len
      have ih : stringLen c (i + 1) len (s ++ 34 :: rest) = i + 1 + s.length ↔ QuotesEscaped c s :=
        stringLen_eq_iff hrest
      rw [← ih, List.length_cons]
      omega
    rw [List.cons_append, stringLen]
    by_cases hc : c = 34
    · subst hc
      rw [if_pos rfl]
      by_cases hlast : last = 92
      · rw [if_pos hlast, stringLen_head, hrun]
        exact ⟨fun h => ⟨fun _ => hlast, h⟩, fun h => h.2⟩
      · rw [if_neg hlast]
        exact iff_of_false (by rw [List.length_cons]; omega) fun h => hlast (h.1 rfl)
    · rw [if_neg hc, hrun]
      exact ⟨fun h => ⟨fun h34 => absurd h34 hc, h⟩, fun h => h.2⟩

/-- A string of JSON without a backslash at its end is taken whole. -/
theorem quotesEscaped_of_valid {s : Bytes} (hvalid : strRun .plain s = some .plain)
    (hlast : s.getLast? ≠ some 92) : QuotesEscaped 34 s := by
  have hahead : QuoteAhead [32, 34] := ⟨[], 32, [], rfl, by decide⟩
  have hlen : stringLen 34 0 0 (s ++ 34 :: [32, 34]) = 0 + s.length :=
    stringLen_eq _ hvalid nofun (fun _ => by decide) hlast
  exact (stringLen_eq_iff hahead).mp hlen

theorem getLast_of_quotesEscaped : ∀ {s : Bytes} {last : UInt8}, QuotesEscaped last s →
    s.getLast? ≠ some 92
  | [], _, _ => nofun
  | [c], _, h => by
    rw [List.getLast?_singleton, ne_eq, Option.some_inj]
    exact h.2
  | c :: d :: s, _, h => by
    rw [List.getLast?_cons_cons]
    exact getLast_of_quotesEscaped h.2

/-- The scanner takes the value whole. -/
def Whole : JsonData → Prop
  | .jstring s => QuotesEscaped 34 s
  | _ => True

/-- And it does not pass it by. -/
def Readable (data : JsonData) : Prop := data ≠ .jstring [] ∧ Whole data

theorem whole_of_scalar {data : JsonData} {v : Json} (h : Scalar data v) : Whole data := by
  cases data with
  | jstring s => exact absurd rfl (h.noString s)
  | _ => trivial

/-- Where a value is found. -/
theorem valueStart_data {data : JsonData} (h : data.Simple) (rest : Bytes) :
    valueStart (data.text ++ rest) = some (dataType data, dataVal data rest) := by
  rcases scalar_or_string h with ⟨s, rfl⟩ | ⟨v, hv⟩
  · change some (JsonType.string, s ++ [34] ++ rest) = some (.string, s ++ 34 :: rest)
    rw [List.append_assoc]
    rfl
  · rw [← hv.text, valueStart_text, hv.scanned, hv.unscanned, hv.type, hv.val, List.append_nil]

/-- How long it is taken to be: exactly as long as it is, if whole. -/
theorem valueLen_data {data : JsonData} (h : data.Simple) {rest : Bytes} (hends : Ends rest)
    (hahead : QuoteAhead rest) :
    valueLen (dataType data) (dataVal data rest) = data.plain.length ↔ Whole data := by
  rcases scalar_or_string h with ⟨s, rfl⟩ | ⟨v, hv⟩
  · have hiff : stringLen 34 0 0 (s ++ 34 :: rest) = 0 + s.length ↔ QuotesEscaped 34 s :=
      stringLen_eq_iff hahead
    rw [Nat.zero_add] at hiff
    exact hiff
  · refine iff_of_true ?_ (whole_of_scalar hv)
    have hlen := valueLen_eq hv.skips hends
    rw [hv.scanned, hv.unscanned, hv.type, List.append_nil] at hlen
    rw [hv.val, hv.plain, hlen]

/-- Where the value's text is. -/
theorem dataVal_eq (data : JsonData) (rest : Bytes) : ∃ quote : Bytes,
    dataVal data rest = data.plain ++ (quote ++ rest) ∧
      quote.length = if dataType data = .string then 1 else 0 := by
  cases data with
  | jstring s => exact ⟨[34], rfl, rfl⟩
  | _ => exact ⟨[], rfl, rfl⟩

theorem next_data {data : JsonData} (h : data.Simple) (hwhole : Whole data) {rest : Bytes}
    (hends : Ends rest) (hahead : QuoteAhead rest) (key : Bytes) :
    (NextObject.mk key (dataType data) (dataVal data rest)).next = some rest := by
  obtain ⟨quote, hval, hquote⟩ := dataVal_eq data rest
  have hskip : (NextObject.mk key (dataType data) (dataVal data rest)).skip =
      (data.plain ++ quote).length := by
    unfold NextObject.skip NextObject.valLen
    simp only [(valueLen_data h hends hahead).mpr hwhole]
    rw [List.length_append, hquote]
    split <;> rfl
  have hlen : (data.plain ++ quote ++ rest).length = (data.plain ++ quote).length + rest.length :=
    List.length_append
  unfold NextObject.next
  rw [hskip]
  simp only [hval]
  rw [← List.append_assoc, List.drop_left, if_pos]
  omega

/-! ## Finding the properties -/

/-- A search does not see what holds no quote. -/
theorem search_gap {gap : Bytes} (h : 34 ∉ gap) (name t : Bytes) :
    search name (gap ++ t) = search name t := by
  have hnext : jsonGetNextObject (gap ++ t) = jsonGetNextObject t := by
    unfold jsonGetNextObject
    rw [strchr_gap t h]
  rw [search_eq, search_eq, hnext]

/-- What a search finds is a value that it has met somewhere. -/
theorem search_found {name : Bytes} {o : NextObject} : ∀ {fuel : Nat} {pos : Bytes},
    searchLoop name fuel pos = some (some o) →
      o.valLen ≠ 0 ∧ ∃ t, valueStart t = some (o.valType, o.val)
  | 0, pos, h => nomatch h
  | fuel + 1, pos, h => by
    rw [searchLoop] at h
    split at h
    · cases h
    split at h
    · cases h
    rename_i o' ho
    split at h
    · rename_i hcall
      cases h
      refine ⟨hcall.2.1, ?_⟩
      obtain ⟨opening, -, ho⟩ := Option.bind_eq_some_iff.mp ho
      obtain ⟨closing, -, ho⟩ := Option.bind_eq_some_iff.mp ho
      obtain ⟨⟨type, val⟩, hval, rfl⟩ := Option.map_eq_some_iff.mp ho
      obtain ⟨colon, -, hstart⟩ := Option.bind_eq_some_iff.mp hval
      exact ⟨colon, hstart⟩
    · obtain ⟨pos', -, hrest⟩ := Option.bind_eq_some_iff.mp h
      exact search_found hrest

/-- Only a string can begin with a quote, behind its own. -/
theorem head_valueStart : ∀ {t val : Bytes} {type : JsonType}, valueStart t = some (type, val) →
    type = .string ∨ ∃ c u, val = c :: u ∧ c ≠ 34
  | [], _, _, h => nomatch h
  | c :: t, val, type, h => by
    unfold valueStart at h
    by_cases hquote : c = 34
    · rw [if_pos hquote] at h
      cases h
      exact .inl rfl
    rw [if_neg hquote] at h
    split at h
    · cases h
      exact .inr ⟨c, t, rfl, hquote⟩
    split at h
    · cases h
      exact .inr ⟨c, t, rfl, hquote⟩
    split at h
    · cases h
      exact .inr ⟨c, t, rfl, hquote⟩
    split at h
    · cases h
      exact .inr ⟨c, t, rfl, hquote⟩
    split at h
    · cases h
      exact .inr ⟨c, t, rfl, hquote⟩
    · exact head_valueStart h

/-- What is found is not empty and does not begin with a quote. -/
theorem found_head {name pos : Bytes} {o : NextObject} (h : search name pos = some (some o)) :
    ∃ c u, o.val.take o.valLen = c :: u ∧ c ≠ 34 := by
  obtain ⟨hlen, t, hstart⟩ := search_found h
  obtain ⟨len, hlen'⟩ := Nat.exists_eq_succ_of_ne_zero hlen
  rw [hlen']
  rcases head_valueStart hstart with htype | ⟨c, u, hval, hc⟩
  · unfold NextObject.valLen at hlen
    rw [htype] at hlen
    change stringLen 34 0 0 o.val ≠ 0 at hlen
    cases hval : o.val with
    | nil =>
      rw [hval] at hlen
      exact absurd rfl hlen
    | cons c u =>
      rw [hval] at hlen
      refine ⟨c, _, rfl, fun hc => hlen ?_⟩
      rw [stringLen, if_pos hc, if_neg (by decide)]
  · rw [hval]
    exact ⟨c, _, rfl, hc⟩

/-- The text that is found for a name. -/
def valueIn (name text : Bytes) : Option (Option Bytes) :=
  (search name text).map fun found => found.map fun o => o.val.take o.valLen

theorem nextObject_entry {p : Bytes × JsonData} (hkey : 34 ∉ p.1) (h : p.2.Simple) (rest : Bytes) :
    jsonGetNextObject (entryText p ++ rest) = some ⟨p.1, dataType p.2, dataVal p.2 rest⟩ := by
  have hnext : jsonGetNextObject ([] ++ 34 :: p.1 ++ 34 :: noSpace.bytes ++ 58 :: noSpace.bytes ++
      (p.2.text ++ rest)) = _ := nextObject_eq _ List.not_mem_nil hkey
  rw [valueStart_data h, Option.map_some] at hnext
  rw [← hnext]
  unfold entryText keyText noSpace
  simp only [List.append_assoc, List.cons_append, List.nil_append]

/-- Another property is passed by. -/
theorem valueIn_other {p : Bytes × JsonData} (hkey : 34 ∉ p.1) (h : p.2.Simple)
    (hwhole : Whole p.2) {rest : Bytes} (hends : Ends rest) (hahead : QuoteAhead rest)
    {name : Bytes} (hname : p.1 ≠ name) : valueIn name (entryText p ++ rest) = valueIn name rest := by
  unfold valueIn
  rw [search_eq, nextObject_entry hkey h]
  simp only
  rw [if_neg fun hcall => hname hcall.2.2, next_data h hwhole hends hahead, Option.bind_some]

/-- A prefix is taken where its length is. -/
theorem take_eq_left {s t : Bytes} (ht : t ≠ []) {n : Nat} : (s ++ t).take n = s ↔ n = s.length := by
  constructor
  · intro h
    have hlen := congrArg List.length h
    have hpos := List.length_pos_iff.mpr ht
    rw [List.length_take, List.length_append] at hlen
    omega
  · rintro rfl
    exact List.take_left

/-- **The property itself** is read back iff it is readable. -/
theorem valueIn_entry {p : Bytes × JsonData} (hne : p.1 ≠ []) (hkey : 34 ∉ p.1) (h : p.2.Simple)
    {rest : Bytes} (hends : Ends rest) (hahead : QuoteAhead rest) :
    valueIn p.1 (entryText p ++ rest) = some (some p.2.plain) ↔ Readable p.2 := by
  have hlen := valueLen_data h hends hahead
  obtain ⟨quote, hval, -⟩ := dataVal_eq p.2 rest
  have hsearch : search p.1 (entryText p ++ rest) =
      if valueLen (dataType p.2) (dataVal p.2 rest) ≠ 0 then
        some (some ⟨p.1, dataType p.2, dataVal p.2 rest⟩)
      else (NextObject.mk p.1 (dataType p.2) (dataVal p.2 rest)).next.bind (search p.1) := by
    rw [search_eq, nextObject_entry hkey h]
    simp only [NextObject.valLen, ne_eq, hne, not_false_eq_true, true_and, and_true]
  by_cases hzero : valueLen (dataType p.2) (dataVal p.2 rest) = 0
  · refine iff_of_false (fun hfound => ?_) fun hread => ?_
    · obtain ⟨found, hsome, htake⟩ := Option.map_eq_some_iff.mp hfound
      obtain ⟨o, rfl, hplain⟩ := Option.map_eq_some_iff.mp htake
      obtain ⟨c, u, hhead, hc⟩ := found_head hsome
      rw [hhead] at hplain
      rcases scalar_or_string h with ⟨s, hs⟩ | ⟨v, hv⟩
      · -- Only a string that is empty or begins with a quote has length zero.
        rw [hs] at hzero hplain
        obtain ⟨a, d, t, rfl, hd⟩ := hahead
        have hle := le_stringLen hd t (u ++ 34 :: a) c 1 0
        rw [show s = c :: u from hplain.symm] at hzero
        change stringLen 34 0 0 (c :: (u ++ 34 :: (a ++ d :: 34 :: t))) = 0 at hzero
        rw [stringLen, if_neg hc] at hzero
        rw [List.append_assoc, List.cons_append, hzero] at hle
        omega
      · rw [hlen.mpr (whole_of_scalar hv), ← hplain] at hzero
        exact absurd hzero (Nat.succ_ne_zero _)
    · rw [hlen.mpr hread.2, List.length_eq_zero_iff] at hzero
      rcases scalar_or_string h with ⟨s, hs⟩ | ⟨v, hv⟩
      · rw [hs] at hzero
        exact hread.1 (hs.trans (congrArg JsonData.jstring hzero))
      · refine hv.filled (length_scanned_eq_zero.mp ?_)
        rw [hv.scanned, ← hv.plain, hzero]
        rfl
  · have hrest : quote ++ rest ≠ [] := by
      obtain ⟨c, t, rfl, -⟩ := hends
      exact List.append_ne_nil_of_right_ne_nil _ (List.cons_ne_nil c t)
    have hnil : p.2 ≠ .jstring [] := by
      intro hs
      rw [hs] at hzero
      exact hzero rfl
    have htaken : valueIn p.1 (entryText p ++ rest) = some (some ((p.2.plain ++ (quote ++ rest)).take
        (valueLen (dataType p.2) (dataVal p.2 rest)))) := by
      unfold valueIn
      rw [hsearch, if_pos hzero, ← hval]
      rfl
    rw [htaken, Option.some_inj, Option.some_inj, take_eq_left hrest, hlen]
    exact ⟨fun hwhole => ⟨hnil, hwhole⟩, fun hread => hread.2⟩

/-- What can follow a list of properties. -/
structure Follows (rest : Bytes) : Prop where
  ends : Ends rest
  ahead : QuoteAhead rest

theorem follows_listed {tail : Bytes} (h : Follows tail) : ∀ report : Report,
    Follows (listed report ++ tail)
  | [] => h
  | p :: report => by
    refine ⟨⟨44, _, rfl, by decide⟩, ?_⟩
    exact h.ahead.append _

theorem valueIn_comma (name t : Bytes) : valueIn name (44 :: t) = valueIn name t := by
  have hgap : (34 : UInt8) ∉ [44] := by decide
  unfold valueIn
  rw [← search_gap hgap name t]
  rfl

/-- **All properties are read back** iff all are readable. -/
theorem search_listed_iff {tail : Bytes} (htail : Follows tail) : ∀ {report : Report},
    (report.map (·.1)).Nodup → (∀ p ∈ report, NameOk p.1) → (∀ p ∈ report, p.2.Simple) →
      ((∀ p ∈ report, valueIn p.1 (listed report ++ tail) = some (some p.2.plain)) ↔
        ∀ p ∈ report, Readable p.2)
  | [], _, _, _ => iff_of_true (fun p hp => absurd hp List.not_mem_nil)
      fun p hp => absurd hp List.not_mem_nil
  | p :: report, hnodup, hnames, hsimple => by
    obtain ⟨hfresh, hnodup⟩ := List.nodup_cons.mp hnodup
    obtain ⟨hname, hnames⟩ := List.forall_mem_cons.mp hnames
    obtain ⟨hp, hsimple⟩ := List.forall_mem_cons.mp hsimple
    have hfollows := follows_listed htail report
    have ih := search_listed_iff htail hnodup hnames hsimple
    have htext : ∀ name, valueIn name (listed (p :: report) ++ tail) =
        valueIn name (entryText p ++ (listed report ++ tail)) := by
      intro name
      rw [listed, List.flatMap_cons, List.append_assoc]
      exact valueIn_comma name _
    have hhead := valueIn_entry hname.1 hname.2.2.1 hp hfollows.ends hfollows.ahead
    have hother : Whole p.2 → ∀ q ∈ report, valueIn q.1 (listed (p :: report) ++ tail) =
        valueIn q.1 (listed report ++ tail) := by
      intro hwhole q hq
      rw [htext, valueIn_other hname.2.2.1 hp hwhole hfollows.ends hfollows.ahead]
      intro heq
      have hmem : q.1 ∈ report.map (·.1) := List.mem_map_of_mem hq
      exact hfresh (show p.1 ∈ report.map (·.1) by rwa [heq])
    rw [List.forall_mem_cons, List.forall_mem_cons, htext, hhead]
    refine and_congr_right fun hread => ?_
    rw [← ih]
    refine forall₂_congr fun q hq => ?_
    rw [hother hread.2 q hq]

/-! ## The way to the properties -/

/-- The brace before this text is closed somewhere in it, for one who counts all braces. -/
def Closes (t : Bytes) : Prop :=
  ∃ n < t.length + 1, (t.take n).count 123 < (t.take n).count 125

instance : DecidablePred Closes := fun _ => inferInstanceAs (Decidable (∃ _ < _, _))

theorem markLen_ne_zero : ∀ {t : Bytes} {i depth n : Nat}, 0 < i →
    (t.take n).count 123 + depth < (t.take n).count 125 → markLen 123 125 i depth t ≠ 0
  | [], i, depth, n, _, h => by
    rw [List.take_nil, List.count_nil] at h
    exact absurd h (Nat.not_lt_zero _)
  | c :: t, i, depth, 0, _, h => by
    rw [List.take_zero, List.count_nil] at h
    exact absurd h (Nat.not_lt_zero _)
  | c :: t, i, depth, n + 1, hi, h => by
    have ih : ∀ depth, (t.take n).count 123 + depth < (t.take n).count 125 →
        markLen 123 125 (i + 1) depth t ≠ 0 := fun _ => markLen_ne_zero (Nat.succ_pos i)
    rw [List.take_succ_cons, List.count_cons, List.count_cons] at h
    simp only [beq_iff_eq] at h
    rw [markLen]
    by_cases hclosing : c = 125
    · have hopening : c ≠ 123 := by
        rintro rfl
        exact absurd hclosing (by decide)
      rw [if_pos hclosing] at h ⊢
      rw [if_neg hopening] at h
      split
      · exact Nat.succ_ne_zero i
      · exact ih _ (by omega)
    · rw [if_neg hclosing] at h ⊢
      by_cases hopening : c = 123
      · rw [if_pos hopening] at h ⊢
        exact ih _ (by omega)
      · rw [if_neg hopening] at h ⊢
        exact ih _ (by omega)

/-- In an object, what is searched is what lies behind its brace. -/
theorem valueByName_brace (t name : Bytes) : jsonGetValueByName (123 :: t) name = search name t := by
  have hbrace : (34 : UInt8) ∉ [123] := by decide
  exact search_gap hbrace name t

/-- `"name":{` -/
def objectText (name t : Bytes) : Bytes := 34 :: (name ++ 34 :: 58 :: 123 :: t)

/-- An object whose brace is closed somewhere is found. -/
theorem search_object {name : Bytes} (hquote : 34 ∉ name) (hne : name ≠ []) {t : Bytes}
    (ht : Closes t) : search name (objectText name t) = some (some ⟨name, .object, 123 :: t⟩) := by
  obtain ⟨n, -, hn⟩ := ht
  have hnext : jsonGetNextObject ([] ++ 34 :: name ++ 34 :: noSpace.bytes ++ 58 :: noSpace.bytes ++
      123 :: t) = _ := nextObject_eq _ List.not_mem_nil hquote
  have htext : [] ++ 34 :: name ++ 34 :: noSpace.bytes ++ 58 :: noSpace.bytes ++ 123 :: t =
      objectText name t := by
    unfold noSpace objectText
    simp only [List.append_assoc, List.cons_append, List.nil_append]
  have hlen : markLen 123 125 1 0 t ≠ 0 := markLen_ne_zero Nat.one_pos (by omega : _ + 0 < _)
  rw [htext] at hnext
  rw [search_eq, hnext]
  exact if_pos ⟨hne, hlen, rfl⟩

/-- The braces of the two objects around the properties are closed: `{"state":` has 9 bytes,
`"reported":` has 11. -/
def BracesClose (text : Bytes) : Prop := Closes (text.drop 10) ∧ Closes (text.drop 22)

instance : DecidablePred BracesClose := fun _ => inferInstanceAs (Decidable (_ ∧ _))

/-- The document, as the two objects and what follows. -/
theorem reportText_eq (productId : Bytes) (tokenNum : UInt32) (report : Report) :
    reportText productId tokenNum report = 123 :: objectText (ascii "state")
      (objectText (ascii "reported") ((listed report).tail ++ 125 :: tailText productId tokenNum)) := by
  have hopened : opened false reportedText = 123 :: 34 :: (ascii "state" ++ 34 :: 58 :: 123 :: 34 ::
      (ascii "reported" ++ [34, 58, 123])) := by decide
  unfold reportText objectText
  rw [hopened]
  simp only [List.append_assoc, List.cons_append, List.nil_append]

theorem splitOn_path {key : Bytes} (hkey : 46 ∉ key) :
    (ascii "state.reported." ++ key).splitOn 46 = [ascii "state", ascii "reported", key] := by
  have hdots : ascii "state.reported." = ascii "state" ++ ([46] ++ (ascii "reported" ++ [46])) := by
    decide
  have hpath : ascii "state.reported." ++ key =
      [46].intercalate [ascii "state", ascii "reported", key] := by
    change _ = ascii "state" ++ ([46] ++ (ascii "reported" ++ ([46] ++ (key ++ []))))
    rw [hdots, List.append_nil]
    simp only [List.append_assoc]
  rw [hpath]
  refine List.splitOn_intercalate 46 ?_ (List.cons_ne_nil _ _)
  intro name hname
  rcases List.mem_cons.mp hname with rfl | hname
  · decide
  rcases List.mem_cons.mp hname with rfl | hname
  · decide
  · rwa [List.mem_singleton.mp hname]

/-- What a path to a property finds. -/
theorem valueOf_property {productId : Bytes} {tokenNum : UInt32} {report : Report} (hne : report ≠ [])
    (hbraces : BracesClose (reportText productId tokenNum report)) {key : Bytes} (hkey : 46 ∉ key) :
    liteJsonValueOf (ascii "state.reported." ++ key) (reportText productId tokenNum report) =
      valueIn key (listed report ++ 125 :: tailText productId tokenNum) := by
  obtain ⟨t, ht⟩ : ∃ t, (listed report).tail ++ 125 :: tailText productId tokenNum = t := ⟨_, rfl⟩
  have hlisted : listed report ++ 125 :: tailText productId tokenNum = 44 :: t := by
    cases report with
    | nil => exact absurd rfl hne
    | cons p report => exact congrArg (44 :: ·) ht
  unfold BracesClose at hbraces
  rw [reportText_eq, ht] at hbraces
  have hstate : search (ascii "state") (objectText (ascii "state") (objectText (ascii "reported") t)) =
      _ := search_object (by decide) (by decide) hbraces.1
  have hreported : search (ascii "reported") (objectText (ascii "reported") t) = _ :=
    search_object (by decide) (by decide) hbraces.2
  unfold liteJsonValueOf
  rw [splitOn_path hkey, reportText_eq, ht, followKey_cons, valueByName_brace, hstate,
    Option.bind_some]
  simp only
  rw [followKey_cons, valueByName_brace, hreported, Option.bind_some]
  simp only
  rw [followKey, valueByName_brace, hlisted, valueIn_comma]
  rfl

/-! ## What a well-formed document says of its strings -/

theorem outside_ne {c : UInt8} (h : isOutside c = true) : c ≠ 34 ∧ c ≠ 92 := by
  constructor <;> rintro rfl <;> exact absurd h (by decide)

/-- In a string, bytes that are neither quotes nor backslashes are no control characters. -/
theorem lexRun_plain {rest : Bytes} {st : LexState} : ∀ {bytes : Bytes},
    (∀ c ∈ bytes, c ≠ 34 ∧ c ≠ 92) → lexRun (.inside .plain) (bytes ++ rest) = some st →
      (∀ c ∈ bytes, 32 ≤ c) ∧ lexRun (.inside .plain) rest = some st
  | [], _, hrun => ⟨fun c hc => absurd hc List.not_mem_nil, hrun⟩
  | c :: bytes, hbytes, hrun => by
    obtain ⟨hc, hbytes⟩ := List.forall_mem_cons.mp hbytes
    rw [List.cons_append, lexRun, lexStep, if_neg fun h => hc.1 h.2] at hrun
    obtain ⟨next, hstep, hrun⟩ := Option.bind_eq_some_iff.mp hrun
    obtain ⟨pos, hstr, rfl⟩ := Option.map_eq_some_iff.mp hstep
    change (if c = 34 then none else if c = 92 then some StrState.escaped
      else if c < 32 then none else some .plain) = _ at hstr
    rw [if_neg hc.1, if_neg hc.2] at hstr
    split at hstr
    · cases hstr
    · rename_i hge
      cases hstr
      obtain ⟨hrest, hrun⟩ := lexRun_plain hbytes hrun
      exact ⟨List.forall_mem_cons.mpr ⟨UInt8.not_lt.mp hge, hrest⟩, hrun⟩

/-- A text that the scanner takes for a string, read outside of strings: the quote behind it opens
one. -/
theorem lexRun_swapped {rest : Bytes} {st : LexState} : ∀ {s : Bytes} {last : UInt8}, last ≠ 92 →
    QuotesEscaped last s → lexRun .outside (s ++ 34 :: rest) = some st →
      lexRun (.inside .plain) rest = some st
  | [], _, _, _, hrun => hrun
  | c :: s, last, hlast, hquotes, hrun => by
    have hc : c ≠ 34 := fun h => hlast (hquotes.1 h)
    rw [List.cons_append, lexRun, lexStep, if_neg hc] at hrun
    obtain ⟨next, hstep, hrun⟩ := Option.bind_eq_some_iff.mp hrun
    split at hstep
    · rename_i houtside
      cases hstep
      exact lexRun_swapped (outside_ne houtside).2 hquotes.2 hrun
    · cases hstep

/-- A text that the scanner takes for a string: it is one of JSON, or the quote behind it does not
close one. -/
theorem lexRun_quoted {rest : Bytes} {st : LexState} : ∀ {s : Bytes} {last : UInt8} {pos : StrState},
    QuotesEscaped last s → lexRun (.inside pos) (s ++ 34 :: rest) = some st →
      (strRun pos s = some .plain ∧ lexRun .outside rest = some st) ∨
        lexRun (.inside .plain) rest = some st
  | [], last, pos, _, hrun => by
    cases pos with
    | plain => exact .inl ⟨rfl, hrun⟩
    | escaped => exact .inr hrun
    | hex left => exact nomatch hrun
  | c :: s, last, pos, hquotes, hrun => by
    rw [List.cons_append, lexRun, lexStep] at hrun
    obtain ⟨next, hstep, hrun⟩ := Option.bind_eq_some_iff.mp hrun
    by_cases hclose : pos = .plain ∧ c = 34
    · rw [if_pos hclose] at hstep
      cases hstep
      refine .inr (lexRun_swapped ?_ hquotes.2 hrun)
      rw [hclose.2]
      decide
    · rw [if_neg hclose] at hstep
      obtain ⟨pos', hstr, rfl⟩ := Option.map_eq_some_iff.mp hstep
      refine (lexRun_quoted hquotes.2 hrun).imp_left fun hinside => ⟨?_, hinside.2⟩
      rw [strRun, hstr]
      exact hinside.1

theorem name_ne {name : Bytes} (h : NameOk name) : ∀ c ∈ name, c ≠ 34 ∧ c ≠ 92 := fun _ hc =>
  ⟨fun h34 => h.2.2.1 (h34 ▸ hc), fun h92 => h.2.2.2 (h92 ▸ hc)⟩

theorem quotesEscaped_name : ∀ {name : Bytes} {last : UInt8}, last ≠ 92 →
    (∀ c ∈ name, c ≠ 34 ∧ c ≠ 92) → QuotesEscaped last name
  | [], _, hlast, _ => hlast
  | _ :: _, _, _, h => by
    obtain ⟨hc, h⟩ := List.forall_mem_cons.mp h
    exact ⟨fun h34 => absurd h34 hc.1, quotesEscaped_name hc.2 h⟩

/-- An entry behind its comma. -/
theorem listed_cons (p : Bytes × JsonData) (report : Report) (tail : Bytes) :
    listed (p :: report) ++ tail =
      44 :: 34 :: (p.1 ++ 34 :: 58 :: (p.2.text ++ (listed report ++ tail))) := by
  rw [listed, List.flatMap_cons, entryText, keyText]
  simp only [List.append_assoc, List.cons_append, List.nil_append]
  rfl

/-- Once a quote has been taken for the wrong one, all that follow are. -/
theorem lexRun_listed_swapped {tail : Bytes} (htail : lexRun (.inside .plain) tail = none) :
    ∀ {report : Report}, (∀ p ∈ report, NameOk p.1) → (∀ p ∈ report, p.2.Simple) →
      (∀ p ∈ report, Whole p.2) → lexRun (.inside .plain) (listed report ++ tail) = none
  | [], _, _, _ => htail
  | p :: report, hnames, hsimple, hwhole => by
    obtain ⟨hname, hnames⟩ := List.forall_mem_cons.mp hnames
    obtain ⟨hp, hsimple⟩ := List.forall_mem_cons.mp hsimple
    obtain ⟨hw, hwhole⟩ := List.forall_mem_cons.mp hwhole
    have ih := lexRun_listed_swapped htail hnames hsimple hwhole
    rw [listed_cons]
    cases hrun : lexRun (.inside .plain)
        (44 :: 34 :: (p.1 ++ 34 :: 58 :: (p.2.text ++ (listed report ++ tail)))) with
    | none => rfl
    | some st =>
      -- The quote before the key closes, the one behind it opens.
      have hkey : lexRun .outside (p.1 ++ 34 :: 58 :: (p.2.text ++ (listed report ++ tail))) =
          some st := hrun
      have hquotes : QuotesEscaped 34 p.1 := quotesEscaped_name (by decide) (name_ne hname)
      have hvalue : lexRun (.inside .plain) (p.2.text ++ (listed report ++ tail)) = some st := by
        have hcolon := lexRun_swapped (by decide) hquotes hkey
        exact hcolon
      rcases scalar_or_string hp with ⟨s, hs⟩ | ⟨v, hv⟩
      · rw [hs] at hvalue hw
        have hstring : lexRun .outside (s ++ 34 :: (listed report ++ tail)) = some st := by
          change lexRun .outside (s ++ [34] ++ (listed report ++ tail)) = _ at hvalue
          rwa [List.append_assoc] at hvalue
        exact absurd (lexRun_swapped (by decide : (34 : UInt8) ≠ 92) hw hstring) (by rw [ih]; exact nofun)
      · have hrest := (lexRun_plain (fun c hc => outside_ne (hv.outside c hc)) hvalue).2
        exact absurd hrest (by rw [ih]; exact nofun)

/-- Keys and strings can be written as they are. -/
def Literal (p : Bytes × JsonData) : Prop :=
  (∀ c ∈ p.1, 32 ≤ c) ∧ ∀ s, p.2 = .jstring s → strRun .plain s = some .plain

/-- **Strings that the scanner takes whole, in a well-formed text, are strings of JSON.** -/
theorem lexRun_listed {tail : Bytes} (htail : lexRun (.inside .plain) tail = none) {st : LexState} :
    ∀ {report : Report}, (∀ p ∈ report, NameOk p.1) → (∀ p ∈ report, p.2.Simple) →
      (∀ p ∈ report, Whole p.2) → lexRun .outside (listed report ++ tail) = some st →
        ∀ p ∈ report, Literal p
  | [], _, _, _, _ => fun p hp => absurd hp List.not_mem_nil
  | p :: report, hnames, hsimple, hwhole, hrun => by
    obtain ⟨hname, hnames⟩ := List.forall_mem_cons.mp hnames
    obtain ⟨hp, hsimple⟩ := List.forall_mem_cons.mp hsimple
    obtain ⟨hw, hwhole⟩ := List.forall_mem_cons.mp hwhole
    rw [listed_cons] at hrun
    have hstart : lexRun (.inside .plain)
        (p.1 ++ 34 :: 58 :: (p.2.text ++ (listed report ++ tail))) = some st := hrun
    obtain ⟨hkey, hvalue⟩ := lexRun_plain (name_ne hname) hstart
    have hvalue : lexRun .outside (p.2.text ++ (listed report ++ tail)) = some st := hvalue
    rw [List.forall_mem_cons]
    rcases scalar_or_string hp with ⟨s, hs⟩ | ⟨v, hv⟩
    · rw [hs] at hvalue hw
      have hstring : lexRun (.inside .plain) (s ++ 34 :: (listed report ++ tail)) = some st := by
        change lexRun (.inside .plain) (s ++ [34] ++ (listed report ++ tail)) = _ at hvalue
        rwa [List.append_assoc] at hvalue
      rcases lexRun_quoted hw hstring with ⟨hvalid, hrest⟩ | hswapped
      · refine ⟨⟨hkey, fun s' hs' => ?_⟩, lexRun_listed htail hnames hsimple hwhole hrest⟩
        cases hs.symm.trans hs'
        exact hvalid
      · rw [lexRun_listed_swapped htail hnames hsimple hwhole] at hswapped
        cases hswapped
    · rw [lexRun_outside _ hv.outside] at hvalue
      exact ⟨⟨hkey, fun s hs => absurd hs (hv.noString s)⟩,
        lexRun_listed htail hnames hsimple hwhole hvalue⟩

/-! ## The document as a syntax tree -/

/-- The text is that of an object. -/
def WellFormed (text : Bytes) : Prop :=
  ∃ (before after : JsonSpace) (doc : Json), doc.isObject = true ∧
    text = before.bytes ++ doc.text ++ after.bytes

theorem lexRun_objectText {name : Bytes} (h : strRun .plain name = some .plain) (t : Bytes) :
    lexRun .outside (objectText name t) = lexRun .outside t := by
  rw [objectText, lexRun_string h, lexRun_cons (by decide), lexRun_cons (by decide)]

theorem lexRun_of_wellFormed {text : Bytes} (h : WellFormed text) :
    lexRun .outside text = some .outside := by
  obtain ⟨before, after, doc, -, rfl⟩ := h
  have hafter := lexRun_outside [] after.isOutside_bytes
  rw [List.append_nil] at hafter
  rw [List.append_assoc, lexRun_outside _ before.isOutside_bytes, doc.lexRun_text, hafter]
  rfl

/-- A name without white space around it. -/
def closeName (name : Bytes) (h : strRun .plain name = some .plain) : JsonName :=
  ⟨noSpace, ⟨name, h⟩, noSpace, noSpace⟩

theorem exists_value {p : Bytes × JsonData} (hp : p.2.Simple) (h : Literal p) :
    ∃ v : Json, v.text = p.2.text := by
  rcases scalar_or_string hp with ⟨s, hs⟩ | ⟨v, hv⟩
  · have hvalid := h.2 s hs
    exact ⟨.string ⟨s, hvalid⟩, by rw [hs]; rfl⟩
  · exact ⟨v, hv.text⟩

/-- The properties, as the members of an object. -/
theorem exists_members : ∀ {report : Report}, report ≠ [] → (∀ p ∈ report, NameOk p.1) →
    (∀ p ∈ report, p.2.Simple) → (∀ p ∈ report, Literal p) →
      ∃ members : JsonMembers, 44 :: members.text = listed report ++ [125]
  | [], hne, _, _, _ => absurd rfl hne
  | p :: report, _, hnames, hsimple, hliteral => by
    obtain ⟨hname, hnames⟩ := List.forall_mem_cons.mp hnames
    obtain ⟨hp, hsimple⟩ := List.forall_mem_cons.mp hsimple
    obtain ⟨hl, hliteral⟩ := List.forall_mem_cons.mp hliteral
    obtain ⟨v, hv⟩ := exists_value hp hl
    have hkey := strRun_plain (name_ne hname) hl.1
    rw [listed_cons]
    by_cases hnil : report = []
    · refine ⟨.last (closeName p.1 hkey) v noSpace, ?_⟩
      rw [hnil, JsonMembers.text, hv]
      unfold JsonName.text closeName noSpace
      simp only [List.append_assoc, List.cons_append, List.nil_append, listed, List.flatMap_nil]
    · obtain ⟨members, hmembers⟩ := exists_members hnil hnames hsimple hliteral
      refine ⟨.more (closeName p.1 hkey) v noSpace members, ?_⟩
      rw [← hmembers, JsonMembers.text, hv]
      unfold JsonName.text closeName noSpace
      simp only [List.append_assoc, List.cons_append, List.nil_append]

theorem strRun_append {bytes : Bytes} {st st' : StrState} (rest : Bytes)
    (h : strRun st bytes = some st') : strRun st (bytes ++ rest) = strRun st' rest := by
  induction bytes generalizing st with
  | nil =>
    cases h
    rfl
  | cons c bytes ih =>
    obtain ⟨next, hstep, hrun⟩ := Option.bind_eq_some_iff.mp h
    rw [List.cons_append, strRun, hstep, Option.bind_some, ih hrun]

theorem strRun_clientToken {productId : Bytes} (h : strRun .plain productId = some .plain)
    (tokenNum : UInt32) : strRun .plain (clientToken productId tokenNum) = some .plain := by
  have hdigit : ∀ c ∈ printNat tokenNum.toNat, (c ≠ 34 ∧ c ≠ 92) ∧ 32 ≤ c := by
    intro c hc
    have hdigit := isDigit_printNat _ c hc
    refine ⟨outside_ne (isOutside_of_isDigit hdigit), ?_⟩
    rw [isDigit_iff] at hdigit
    rw [UInt8.le_iff_toNat_le]
    change 32 ≤ c.toNat
    omega
  have hprinted := strRun_plain (fun c hc => (hdigit c hc).1) fun c hc => (hdigit c hc).2
  rw [clientToken, strRun_append _ h]
  exact hprinted

/-- With keys and strings that can be written as they are, the document is well formed. -/
theorem wellFormed_reportText {productId : Bytes} {tokenNum : UInt32} {report : Report}
    (hne : report ≠ []) (hnames : ∀ p ∈ report, NameOk p.1) (hsimple : ∀ p ∈ report, p.2.Simple)
    (hid : strRun .plain productId = some .plain) (hliteral : ∀ p ∈ report, Literal p) :
    WellFormed (reportText productId tokenNum report) := by
  obtain ⟨members, hmembers⟩ := exists_members hne hnames hsimple hliteral
  have hlisted : members.text = (listed report).tail ++ [125] := by
    have h := congrArg List.tail hmembers
    cases report with
    | nil => exact absurd rfl hne
    | cons p report => exact h
  have hspace : ∀ b ∈ [32], b = 32 ∨ b = 9 ∨ b = 10 ∨ b = (13 : UInt8) := by decide
  refine ⟨noSpace, noSpace, .object (.more (closeName (ascii "state") (by decide))
    (.object (.last (closeName (ascii "reported") (by decide)) (.object members) noSpace)) noSpace
    (.last ⟨⟨[32], hspace⟩, ⟨ascii "clientToken", by decide⟩, noSpace, noSpace⟩
      (.string ⟨_, strRun_clientToken hid tokenNum⟩) noSpace)), rfl, ?_⟩
  have htail : tailText productId tokenNum = 125 :: 44 :: 32 :: 34 :: (ascii "clientToken" ++
      34 :: 58 :: 34 :: (clientToken productId tokenNum ++ [34, 125])) := by
    have hfield : ascii "\x7d, \"clientToken\":\"" =
        125 :: 44 :: 32 :: 34 :: (ascii "clientToken" ++ [34, 58, 34]) := by decide
    unfold tailText
    rw [hfield, show ascii "\"\x7d" = [34, 125] by decide]
    simp only [List.append_assoc, List.cons_append, List.nil_append]
  rw [reportText_eq, htail]
  unfold objectText
  simp only [Json.text, JsonMembers.text, JsonName.text, closeName, noSpace, hlisted,
    List.append_assoc, List.cons_append, List.nil_append, List.append_nil]

/-! ## The contract -/

/-- The document lies in the buffer, is well formed, and every value is read back. -/
def RoundTrips (size : UInt32) (report : Report) (text : Bytes) : Prop :=
  text.length < size.toNat ∧ WellFormed text ∧ ∀ p ∈ report,
    liteJsonValueOf (ascii "state.reported." ++ p.1) text = some (some p.2.plain)

/-- The buffer does not end in the first bytes behind the head; keys have no control characters, and
strings are strings of JSON, not empty, that do not end in a backslash. -/
def Printable (size : UInt32) (report : Report) : Prop :=
  ¬ Narrow size false reportedText ∧ ∀ p ∈ report, (∀ c ∈ p.1, 32 ≤ c) ∧
    ∀ s, p.2 = .jstring s → s ≠ [] ∧ strRun .plain s = some .plain ∧ s.getLast? ≠ some 92

theorem length_lt_iff {size : UInt32} {productId : Bytes} {tokenNum : UInt32} {report : Report}
    (hne : report ≠ []) (hcount : report.length < 256) {r : ReturnCode × JsonBuffer}
    (h : constructReportArray size productId tokenNum (asProperties report) = some r)
    (hrc : r.1 = .retSuccess) : r.2.text.length < size.toNat ↔ ¬ Narrow size false reportedText := by
  have hlen : (asProperties report).length < 256 := by rwa [asProperties, List.length_map]
  constructor
  · rintro hlt ⟨-, hnarrow⟩
    rw [text_of_success hne hcount h hrc, reportText_eq] at hlt
    have hstate : (ascii "state").length = 5 ∧ (ascii "reported").length = 8 := by decide
    have hopened : (head false).length + (opened false reportedText).length = 32 := by decide
    have htail : 18 ≤ (tailText productId tokenNum).length := by
      have hfield : (ascii "\x7d, \"clientToken\":\"").length = 18 := by decide
      rw [tailText, List.length_append, List.length_append]
      omega
    unfold objectText at hlt
    simp only [List.length_cons, List.length_append] at hlt
    omega
  · intro hnarrow
    have hsafe : ¬ (Narrow size false reportedText ∧ firstHasKey (asProperties report) = true) :=
      fun hboth => hnarrow hboth.1
    have hopening : 1 < reportedText.length ∧ reportedText.length ≤ intMax := by decide
    obtain ⟨r₀, hnodes, rfl⟩ := Option.map_eq_some_iff.mp h
    by_cases hput : AllPut size false true reportedText (asProperties report)
    · have hloop : constructNodes size false true reportedText tokenNum (asProperties report) = _ :=
        constructNodes_put hopening hput hsafe hlen
      rw [show constructNodes size false true reportedText tokenNum (asProperties report) = _ from
        hnodes] at hloop
      split at hloop
      · rename_i hlt
        cases hloop
        have hprinted : Prints size _ _ tokenNum := prints_nodes hput hlt
        have hdone := hprinted.andThen fun hready => prints_jsonFinalize hready productId
        obtain ⟨hbuffer, hfits⟩ := hdone.2 hrc
        rw [hbuffer]
        exact hfits
      · cases hloop
    · obtain ⟨r₁, hr₁, herror, -⟩ : ∃ r₁, constructNodes size false true reportedText tokenNum
          (asProperties report) = some r₁ ∧ r₁.1.1 ≠ .retSuccess ∧ r₁.1.2.Clean :=
        constructNodes_unput hopening hput hsafe hlen
      cases hnodes.symm.trans hr₁
      rw [andThen_of_error herror] at hrc
      exact absurd hrc herror

/-- **Exactly when a report is read back.** For every call that succeeds, with a product id that is a
string of JSON, and the braces of the two outer objects closed for one who counts all braces. -/
theorem roundTrips_iff {size : UInt32} {productId : Bytes} {tokenNum : UInt32} {report : Report}
    (hne : report ≠ []) (hcount : report.length < 256) (hnodup : (report.map (·.1)).Nodup)
    (hnames : ∀ p ∈ report, NameOk p.1) (hsimple : ∀ p ∈ report, p.2.Simple)
    (hid : strRun .plain productId = some .plain)
    (hbraces : BracesClose (reportText productId tokenNum report)) {r : ReturnCode × JsonBuffer}
    (h : constructReportArray size productId tokenNum (asProperties report) = some r)
    (hrc : r.1 = .retSuccess) : RoundTrips size report r.2.text ↔ Printable size report := by
  have hfollows : Follows (125 :: tailText productId tokenNum) := by
    refine ⟨⟨125, _, rfl, by decide⟩, ?_⟩
    have hfield : ascii "\x7d, \"clientToken\":\"" =
        [125, 44] ++ 32 :: 34 :: ascii "clientToken\":\"" := by decide
    refine ⟨[125, 125, 44], 32, ascii "clientToken\":\"" ++ clientToken productId tokenNum ++
      ascii "\"\x7d", ?_, by decide⟩
    unfold tailText
    rw [hfield]
    rfl
  have hswapped : lexRun (.inside .plain) (125 :: tailText productId tokenNum) = none := by
    have hfield : ascii "\x7d, \"clientToken\":\"" =
        125 :: 44 :: 32 :: 34 :: 99 :: ascii "lientToken\":\"" := by decide
    unfold tailText
    rw [hfield]
    rfl
  have hfound := search_listed_iff hfollows hnodup hnames hsimple
  have hlookup : (∀ p ∈ report, liteJsonValueOf (ascii "state.reported." ++ p.1)
      (reportText productId tokenNum report) = some (some p.2.plain)) ↔ ∀ p ∈ report, Readable p.2 := by
    rw [← hfound]
    refine forall₂_congr fun p hp => ?_
    rw [valueOf_property hne hbraces (hnames p hp).2.1]
  unfold RoundTrips Printable
  rw [length_lt_iff hne hcount h hrc, text_of_success hne hcount h hrc, hlookup]
  refine and_congr_right fun _ => ⟨fun ⟨hwell, hread⟩ p hp => ?_, fun hprint => ⟨?_, fun p hp => ?_⟩⟩
  · have hrun : lexRun .outside (listed report ++ 125 :: tailText productId tokenNum) =
        some .outside := by
      have h := lexRun_of_wellFormed hwell
      rw [reportText_eq, lexRun_cons (by decide), lexRun_objectText (by decide),
        lexRun_objectText (by decide)] at h
      cases report with
      | nil => exact absurd rfl hne
      | cons p report => exact h
    have hliteral := lexRun_listed hswapped hnames hsimple (fun q hq => (hread q hq).2) hrun p hp
    refine ⟨hliteral.1, fun s hs => ⟨?_, hliteral.2 s hs, ?_⟩⟩
    · rintro rfl
      exact (hread p hp).1 hs
    · have hwhole := (hread p hp).2
      rw [hs] at hwhole
      exact getLast_of_quotesEscaped hwhole
  · exact wellFormed_reportText hne hnames hsimple hid fun p hp =>
      ⟨(hprint p hp).1, fun s hs => ((hprint p hp).2 s hs).2.1⟩
  · refine ⟨fun hs => ((hprint p hp).2 [] hs).1 rfl, ?_⟩
    rcases scalar_or_string (hsimple p hp) with ⟨s, hs⟩ | ⟨v, hv⟩
    · obtain ⟨-, hvalid, hlast⟩ := (hprint p hp).2 s hs
      rw [hs]
      exact quotesEscaped_of_valid hvalid hlast
    · exact whole_of_scalar hv

/-- One property that is read back: `k` is `-5`. -/
theorem roundTrips_number : ∃ r, constructReportArray 80 (ascii "P") 0
    (asProperties [(ascii "k", .jint32 (-5))]) = some r ∧ r.1 = .retSuccess ∧
      RoundTrips 80 [(ascii "k", .jint32 (-5))] r.2.text := by
  have hrun : (constructReportArray 80 (ascii "P") 0
      (asProperties [(ascii "k", .jint32 (-5))])).map (·.1) = some .retSuccess := by decide
  obtain ⟨r, hr, hrc⟩ := Option.map_eq_some_iff.mp hrun
  refine ⟨r, hr, hrc, (roundTrips_iff (List.cons_ne_nil _ _) (by decide) (by decide) (by decide)
    (by decide) (by decide) (by decide) hr hrc).mpr ⟨by decide, ?_⟩⟩
  rw [List.forall_mem_singleton]
  exact ⟨by decide, nofun⟩

/-- A quote in a string ends it: of `a"b` only `a` comes back. -/
theorem quote_cut : ∃ r, constructReportArray 80 (ascii "P") 0
    (asProperties [(ascii "k", .jstring (ascii "a\"b"))]) = some r ∧ r.1 = .retSuccess ∧
      liteJsonValueOf (ascii "state.reported.k") r.2.text = some (some (ascii "a")) := by
  have hrun : (constructReportArray 80 (ascii "P") 0
      (asProperties [(ascii "k", .jstring (ascii "a\"b"))])).map
        (fun r => (r.1, liteJsonValueOf (ascii "state.reported.k") r.2.text)) =
      some (.retSuccess, some (some (ascii "a"))) := by decide
  obtain ⟨r, hr, hrc⟩ := Option.map_eq_some_iff.mp hrun
  exact ⟨r, hr, congrArg Prod.fst hrc, congrArg Prod.snd hrc⟩

end QcloudIot.Shadow
