import QcloudIot.Dynreg.Devinfo
import QcloudIot.Utils.AesCbc

/-!
# A secret from the server to the device

`_parse_devinfo` of `dynreg.c` with the cipher it runs, `utils_aes_cbc` of `utils_aes.c`, instead of any
function that keeps the length. `decodeBuff`, `key` and `iv` stand one behind the other in a memory.

* `Announces`: a text whose object has a member that the scanner takes as it is;
* `stackAes`: `utils_aes_cbc` on the buffers of `_parse_devinfo`;
* `stackAes_decrypt`: with whole blocks it undoes the encryption in CBC mode;
* **`parseDevinfo_secret`**: the `psk` that was encrypted for the product is what the device keeps.

The call decrypts a block more than has been sent. It stands behind the NUL of the text, and no lookup
that finds its member gets there.
-/

namespace QcloudIot.Dynreg

open Lib Utils

/-! ## What a text says -/

/-- An object in a text, with a member that the scanner finds: spaces before it, no quotes behind it. -/
structure Announces (text name : Text) (v : Json) : Prop where
  shows : ∃ (doc : Json) (before : JsonSpace) (after : Text), text = before.bytes ++ doc.text ++ after ∧
    OnlySpaces before ∧ 34 ∉ after ∧ doc.isObject = true ∧ doc.Named NamesOk ∧
      Scannable [name] doc.members ∧ doc.lookup [name] = some v
  nameOk : NameOk name
  notEmpty : ¬ IsEmpty v

variable {text name : Text} {v : Json}

theorem intercalate_one (name : Text) : [46].intercalate [name] = name := List.append_nil _

theorem Announces.valueOf (h : Announces text name v) :
    liteJsonValueOf name text = some (some (scanned v)) := by
  obtain ⟨doc, before, after, rfl, hspaces, hquiet, hobject, hnamed, hscan, hlookup⟩ := h.shows
  have hfound := valueOf_lookup hobject hnamed hspaces hquiet (List.cons_ne_nil name [])
    (List.forall_mem_singleton.mpr h.nameOk) hscan hlookup h.notEmpty
  rwa [intercalate_one] at hfound

/-- A name without points is looked up in one search. -/
theorem Announces.search (h : Announces text name v) : ∃ pos o, jsonGetObject text = some pos ∧
    search name pos = some (some o) ∧ o.text = scanned v := by
  have hpoints : ∀ l ∈ [name], 46 ∉ l := List.forall_mem_singleton.mpr h.nameOk.2.1
  have hsplit := List.splitOn_intercalate 46 hpoints (List.cons_ne_nil name [])
  rw [intercalate_one] at hsplit
  have hvalue := h.valueOf
  rw [liteJsonValueOf, hsplit, followKey, jsonGetValueByName] at hvalue
  cases hobject : jsonGetObject text with
  | none =>
    rw [hobject] at hvalue
    cases hvalue
  | some pos =>
    rw [hobject] at hvalue
    obtain ⟨found, hfound, hvalue⟩ := Option.map_eq_some_iff.mp hvalue
    obtain ⟨o, rfl, htext⟩ := Option.map_eq_some_iff.mp hvalue
    exact ⟨pos, o, rfl, hfound, htext⟩

/-- The first string of a buffer. -/
theorem terminated_append (behind : Text) {text : Text} (h : 0 ∉ text) :
    terminated (text ++ 0 :: behind) = text :: terminated behind := by
  induction text with
  | nil => rfl
  | cons c text ih =>
    rw [List.mem_cons, not_or] at h
    rw [List.cons_append, terminated, if_neg (Ne.symm h.1), ih h.2]

/-- **What a text announces** is found in a buffer that begins with it, whatever stands behind its NUL. -/
theorem Announces.valueIn (h : Announces text name v) (hnul : 0 ∉ text) (behind : Text) :
    valueIn name (text ++ 0 :: behind) = some (some (scanned v)) := by
  obtain ⟨pos, o, hpos, hfound, htext⟩ := h.search
  rw [Utils.valueIn, terminated_append behind hnul]
  simp only [hpos, searchStrings, hfound]
  rw [Option.map_some, Option.map_some, htext]

/-- The response says the same. -/
theorem Announces.response {jdoc : Response} (h : Announces jdoc.text name v) :
    jdoc.valueOf name = some (scanned v) := by
  rw [Response.valueOf, h.valueOf]

/-! ## The cipher on the stack -/

/-- `decodeBuff`, `key` and `iv`. -/
def stackOf (data key iv : Text) : Memory UInt8 :=
  (Memory.store (Memory.store (Memory.store (fun _ => 0) 0 data) data.length key)
    (data.length + key.length) iv)

/-- `utils_aes_cbc` as `_parse_devinfo` calls it, from a state of its statics; `pow` and `log` stand on
the stack of `aes_gen_tables`, and `ctx` on its own. -/
def stackAes (pow log : Nat → Nat) (s : Aes.AesStatics) (ctx : Aes.AesContext) : AesCbc where
  decrypt key iv data := (Aes.utilsAesCbc pow log s ctx 0 data.length 0 decodeBuffLen Aes.utilsAesDecrypt
    data.length aesKeyBits128 (data.length + key.length) (stackOf data key iv)).2.2.load 0 data.length
  length_decrypt _ _ _ := Memory.length_load _ _ _

variable (data key iv : Text)

theorem stackOf_data : (stackOf data key iv).load 0 data.length = data := by
  rw [stackOf, Memory.load_store_before _ _ (by omega), Memory.load_store_before _ _ (by omega),
    Memory.load_store]

theorem stackOf_key : (stackOf data key iv).load data.length key.length = key := by
  rw [stackOf, Memory.load_store_before _ _ (Nat.le_refl _), Memory.load_store]

theorem stackOf_iv : (stackOf data key iv).load (data.length + key.length) iv.length = iv :=
  Memory.load_store _ _ _

variable {data key iv}

/-- **Whole blocks** come out of it as CBC mode has them. -/
theorem stackAes_decrypt (pow log : Nat → Nat) {s : Aes.AesStatics} (hs : s.Reachable)
    (ctx : Aes.AesContext) {n : Nat} (hdata : data.length = 16 * n) (hkey : key.length = 16)
    (hiv : iv.length = 16) :
    (stackAes pow log s ctx).decrypt key iv data = Aes.cbcBytesBack 4 key iv data := by
  have hkeyAt := stackOf_key data key iv
  have hivAt := stackOf_iv data key iv
  have hdataAt := stackOf_data data key iv
  rw [hkey, hdata] at hkeyAt
  rw [hiv, hkey, hdata] at hivAt
  rw [hdata] at hdataAt
  obtain ⟨-, hout, -⟩ := Aes.utilsAesCbc_decrypt hs (show Aes.KeyWords 4 from .inl rfl) pow log ctx 0 n decodeBuffLen
    (16 * n) (16 * n + 16) (m := stackOf data key iv) (.inr (by omega))
  change (Aes.utilsAesCbc pow log s ctx 0 data.length 0 decodeBuffLen Aes.utilsAesDecrypt data.length
    (32 * 4) (data.length + key.length) (stackOf data key iv)).2.2.load 0 data.length = _
  rw [hdata, hkey, hout, hkeyAt, hivAt, hdataAt]

/-- The bytes behind the decryption, of a ciphertext of whole blocks: the text that was encrypted, and a
block that comes of the zeros behind it. -/
theorem decryptedBuff_cipher (pow log : Nat → Nat) {s : Aes.AesStatics} (hs : s.Reachable)
    (ctx : Aes.AesContext) (productSecret : Text) {plain : Text} {n : Nat} (hplain : plain.length = 16 * n) :
    ∃ garbage : Text, decryptedBuff (stackAes pow log s ctx) productSecret
      (Aes.cbcBytes 4 (strncpy productSecret utilsAesBlockLen) (List.replicate utilsAesBlockLen 48) plain) =
        plain ++ garbage := by
  obtain ⟨key, hkey⟩ : ∃ key, key = strncpy productSecret utilsAesBlockLen := ⟨_, rfl⟩
  have hkeyLen : key.length = 16 := by
    rw [hkey, strncpy, List.length_append, List.length_take, List.length_replicate]
    unfold utilsAesBlockLen
    omega
  rw [← hkey]
  have hcipher : (Aes.cbcBytes 4 key (List.replicate utilsAesBlockLen 48) plain).length = 16 * n :=
    Aes.length_cbcBytes 4 key _ hplain
  have hzeros : datalen (16 * n) - 16 * n = 16 * 1 := by
    unfold datalen utilsAesBlockLen
    omega
  obtain ⟨garbage, -, hback⟩ := Aes.cbcBytesBack_append 4 key (List.replicate utilsAesBlockLen 48) hplain
    (show (List.replicate (16 * 1) (0 : UInt8)).length = 16 * 1 from List.length_replicate)
  refine ⟨garbage ++ List.replicate (decodeBuffLen - datalen (16 * n)) 0, ?_⟩
  have hwhole : (Aes.cbcBytes 4 key (List.replicate utilsAesBlockLen 48) plain ++
      List.replicate (16 * 1) 0).length = 16 * (n + 1) := by
    rw [List.length_append, hcipher, List.length_replicate, Nat.mul_add]
  have hiv : (List.replicate utilsAesBlockLen (48 : UInt8)).length = 16 := List.length_replicate
  rw [decryptedBuff, ← hkey, hcipher, hzeros, stackAes_decrypt pow log hs ctx hwhole hkeyLen hiv, hback,
    List.append_assoc]

/-! ## The payload -/

/-- A response with the code 0 and a payload in base64 is decoded. -/
theorem decoded_eq {w : Nat} (hw : 16 ≤ w) {jdoc : Response} {code : Json} {payload : JsonString}
    {bytes : Text} (hcode : Announces jdoc.text (chars "code") code) (hzero : scanInt (scanned code) = some 0)
    (hpayload : Announces jdoc.text (chars "payload") (.string payload))
    (hbytes : payload.bytes = base64 bytes) (hroom : bytes.length ≤ decodeBuffLen) :
    jdoc.decoded w = some bytes := by
  have hresult : getJsonResaultCode jdoc = qcloudRetSuccess := by
    rw [getJsonResaultCode, hcode.response, int32Of, Option.bind_some, hzero]
    rfl
  have hshort : 8 * bytes.length + 24 ≤ 2 ^ w := by
    have hpow : 2 ^ 16 ≤ 2 ^ w := Nat.pow_le_pow_right (by omega) hw
    unfold decodeBuffLen at hroom
    omega
  rw [Response.decoded, if_neg (not_not.mpr hresult.symm), hpayload.response, Option.bind_some]
  simp only
  rw [scanned, hbytes, base64decode_base64 hw hroom hshort]
  exact if_neg (not_not.mpr rfl)

/-! ## The secret -/

/-- The payload is the text, encrypted for the product with a NUL behind it and whatever else fills the
blocks. -/
structure Sealed (productSecret text : Text) (payload : JsonString) : Prop where
  nul : 0 ∉ text
  cipher : ∃ (behind : Text) (n : Nat), (text ++ 0 :: behind).length = 16 * n ∧ 16 * n < decodeBuffLen ∧
    payload.bytes = base64 (Aes.cbcBytes 4 (strncpy productSecret utilsAesBlockLen)
      (List.replicate utilsAesBlockLen 48) (text ++ 0 :: behind))

/-- A response that grants a device of the product a `psk`: the code 0, and a sealed text with the type
2 and the `psk`. -/
structure Grants (productSecret : Text) (psk : JsonString) (jdoc : Response) : Prop where
  code : ∃ code, Announces jdoc.text (chars "code") code ∧ scanInt (scanned code) = some 0
  payload : ∃ payload text, Announces jdoc.text (chars "payload") (.string payload) ∧
    Sealed productSecret text payload ∧ Announces text (chars "psk") (.string psk) ∧
      ∃ type, Announces text (chars "encryptionType") type ∧ scanInt (scanned type) = some 2
  fits : psk.bytes.length ≤ maxSizeOfDeviceSecret

/-- **From the server to the device**: with a response that grants it a `psk` the device ends with that
`psk`, filled up with zeros, in its `device_secret`. -/
theorem parseDevinfo_secret {w : Nat} (hw : 16 ≤ w) (pow log : Nat → Nat) {s : Aes.AesStatics}
    (hs : s.Reachable) (ctx : Aes.AesContext) {productSecret : Text} {psk : JsonString} {jdoc : Response}
    (h : Grants productSecret psk jdoc) {fuel : Nat} (hfuel : decodeBuffLen < fuel) :
    parseDevinfo w (stackAes pow log s ctx) productSecret jdoc fuel =
      .ok ⟨qcloudRetSuccess, some psk.bytes, strncpy psk.bytes maxSizeOfDeviceSecret ++ [0]⟩ := by
  obtain ⟨code, hcode, hzero⟩ := h.code
  obtain ⟨payload, text, hpayload, hsealed, hpsk, type, htype, htwo⟩ := h.payload
  obtain ⟨hnul, behind, n, hplain, hroom, hcipher⟩ := hsealed
  have hlen := Aes.length_cbcBytes 4 (strncpy productSecret utilsAesBlockLen)
    (List.replicate utilsAesBlockLen 48) hplain
  have hdecoded := decoded_eq hw hcode hzero hpayload hcipher (by rw [hlen]; exact hroom.le)
  rw [parseDevinfo_eq hdecoded (by rwa [hlen]) _ productSecret hfuel]
  obtain ⟨garbage, hbuff⟩ := decryptedBuff_cipher pow log hs ctx productSecret hplain
  -- both members stand before the NUL of the text
  rw [hbuff, List.append_assoc, List.cons_append]
  have htypeFound := htype.valueIn hnul (behind ++ garbage)
  have hpskFound := hpsk.valueIn hnul (behind ++ garbage)
  have htypeIs : getJsonEncryType (fun key => valueIn key (text ++ 0 :: (behind ++ garbage))) =
      some ePskType := by
    rw [getJsonEncryType, htypeFound, Option.map_some, int32Of, Option.bind_some, htwo]
    rfl
  have hpskIs : getJsonPsk (fun key => valueIn key (text ++ 0 :: (behind ++ garbage))) =
      some (some psk.bytes) := hpskFound
  have hfits := h.fits
  rw [parseDecrypted, htypeIs]
  simp only
  rw [if_neg (by decide), if_neg (not_not.mpr rfl), hpskIs]
  simp only
  rw [if_neg (by omega)]

/-! ## A registration -/

/-- A name without white space. -/
def memberName (name : Text) (h : strRun .plain name = some .plain) : JsonName :=
  ⟨noSpace, ⟨name, h⟩, noSpace, noSpace⟩

/-- An object with two members. -/
def twoMembers (first second : JsonName) (v v' : Json) : Json :=
  .object (.more first v noSpace (.last second v' noSpace))

variable (first second : JsonName) (v v' : Json)

/-- The first member is announced, and the second if the scanner gets there. -/
theorem twoMembers_announces (hne : first.name.bytes ≠ second.name.bytes) (hfirst : NameOk first.name.bytes)
    (hsecond : NameOk second.name.bytes) (hskips : Skips v) (hskips' : Skips v') (hnames : v.Named NamesOk)
    (hnames' : v'.Named NamesOk) (hempty : ¬ IsEmpty v) (hempty' : ¬ IsEmpty v') :
    Announces (twoMembers first second v v').text first.name.bytes v ∧
      Announces (twoMembers first second v v').text second.name.bytes v' := by
  have htext : (twoMembers first second v v').text =
      noSpace.bytes ++ (twoMembers first second v v').text ++ [] := (List.append_nil _).symm
  have hspaces : OnlySpaces noSpace := fun _ h => absurd h List.not_mem_nil
  have hnamed : (twoMembers first second v v').Named NamesOk := by
    refine ⟨⟨?_, ?_⟩, hnames, hnames'⟩
    · exact List.nodup_cons.mpr ⟨fun h => hne (List.mem_singleton.mp h), List.nodup_singleton _⟩
    · exact List.forall_mem_cons.mpr ⟨hfirst, List.forall_mem_singleton.mpr hsecond⟩
  constructor
  · refine ⟨⟨_, noSpace, [], htext, hspaces, List.not_mem_nil, rfl, hnamed, ?_, ?_⟩, hfirst, hempty⟩
    · exact ⟨⟨hskips, .inl ⟨rfl, hempty⟩⟩, fun _ _ _ h => absurd rfl h⟩
    · simp [twoMembers, Json.lookup, Json.find, Json.members, JsonMembers.toList]
  · refine ⟨⟨_, noSpace, [], htext, hspaces, List.not_mem_nil, rfl, hnamed, ?_, ?_⟩, hsecond, hempty'⟩
    · exact ⟨⟨hskips, .inr ⟨hskips', .inl ⟨rfl, hempty'⟩⟩⟩, fun _ _ _ h => absurd rfl h⟩
    · simp [twoMembers, Json.lookup, Json.find, Json.members, JsonMembers.toList, hne]

/-- Base64 has no quotes, backslashes and control characters. -/
theorem base64_plain (bytes : Text) : ∀ c ∈ base64 bytes, (c ≠ 34 ∧ c ≠ 92) ∧ 32 ≤ c := by
  have hdigit : ∀ n ∈ List.range 64, (letter n ≠ 34 ∧ letter n ≠ 92) ∧ 32 ≤ letter n := by decide
  obtain ⟨ls, hls, htext⟩ := base64_letters bytes
  intro c hc
  rw [htext] at hc
  rcases List.mem_append.mp hc with hc | hc
  · obtain ⟨n, hn, rfl⟩ := hls c hc
    exact forall_digit hdigit hn
  · rw [List.eq_of_mem_replicate hc]
    decide

/-- The text of base64, as a string. -/
def base64String (bytes : Text) : JsonString :=
  ⟨base64 bytes, strRun_plain (fun c hc => (base64_plain bytes c hc).1) fun c hc =>
    (base64_plain bytes c hc).2⟩

theorem base64String_skips (bytes : Text) : Skips (.string (base64String bytes)) := fun h =>
  (base64_plain bytes 92 (List.mem_of_getLast? h)).1.2 rfl

/-- The number 2. -/
def jsonTwo : JsonNumber := .ofDigits false [50] (by decide)

/-- The text of the key `abc`. -/
def smallPsk : JsonString := base64String (chars "abc")

/-- `{"encryptionType":2,"psk":"YWJj"}`. -/
def smallRegistration : Json :=
  twoMembers (memberName (chars "encryptionType") rfl) (memberName (chars "psk") rfl) (.number jsonTwo)
    (.string smallPsk)

/-- What the server encrypts. -/
def smallPlain : Text := smallRegistration.text ++ 0 :: List.replicate 14 0

/-- What it encrypts it to. -/
def smallPayload : JsonString :=
  base64String (Aes.cbcBytes 4 (strncpy exampleSecret utilsAesBlockLen)
    (List.replicate utilsAesBlockLen 48) smallPlain)

/-- `{"code":0,"payload":"…"}`. -/
def smallReply : Json :=
  twoMembers (memberName (chars "code") rfl) (memberName (chars "payload") rfl) (.number .zero)
    (.string smallPayload)

/-- It grants that `psk`. -/
theorem smallReply_grants : Grants exampleSecret smallPsk ⟨smallReply.text, fun _ => none⟩ := by
  have hlen : smallPayload.bytes.length = 64 := by
    have hplain : smallPlain.length = 16 * 3 := by decide
    rw [smallPayload, base64String, length_base64, Aes.length_cbcBytes _ _ _ hplain]
  have hne : smallPayload.bytes ≠ [] := List.ne_nil_of_length_pos (by omega)
  obtain ⟨htype, hpsk⟩ := twoMembers_announces (memberName (chars "encryptionType") rfl)
    (memberName (chars "psk") rfl) (.number jsonTwo) (.string smallPsk)
    (by decide) (by decide) (by decide) trivial (base64String_skips _) trivial trivial id (by decide)
  obtain ⟨hcode, hpayload⟩ := twoMembers_announces (memberName (chars "code") rfl)
    (memberName (chars "payload") rfl) (.number .zero) (.string smallPayload)
    (by decide) (by decide) (by decide) trivial (base64String_skips _) trivial trivial id hne
  exact ⟨⟨_, hcode, by decide⟩, ⟨smallPayload, smallRegistration.text, hpayload, ⟨by decide,
    List.replicate 14 0, 3, by decide, by decide, rfl⟩, hpsk, _, htype, by decide⟩, by decide⟩

/-- The device gets it. -/
theorem parseDevinfo_small : parseDevinfo 32 (stackAes (fun _ => 0) (fun _ => 0) Aes.startStatics
    Aes.blankContext) exampleSecret ⟨smallReply.text, fun _ => none⟩ 1000 =
      .ok ⟨qcloudRetSuccess, some smallPsk.bytes, strncpy smallPsk.bytes maxSizeOfDeviceSecret ++ [0]⟩ :=
  parseDevinfo_secret (by decide) _ _ Aes.startStatics_reachable _ smallReply_grants (by decide)

end QcloudIot.Dynreg
