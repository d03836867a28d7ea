import QcloudIot.Utils.Base64
import QcloudIot.Utils.JsonBuffer
import QcloudIot.Utils.Scan

/-!
# The device secret of a registration

`_parse_devinfo` of `dynreg.c`, in the build without certificates, with `utils_aes_cbc` of `utils_aes.c`
for decryption. The payload of the response is decoded and decrypted in `decodeBuff`, and the secret is
looked up there.

* AES is `AesCbc`: any function that keeps the length.
* `Fault`: bytes written behind `decodeBuff`, or read there; nothing is said of what follows.
* What a search finds that leaves the response is `behind`; the caller has a zeroed buffer.

## Results

* `base64decode_cases`: what is decoded, and what is stored of its length;
* `parseDevinfo_decoded`: what the call does with decoded bytes, by their number;
* **`parseDevinfo_iff`**: when the call keeps to its buffers and succeeds only with a secret that fits;
  with a response that fits the caller's buffer it is up to the `psk` alone.
-/

namespace QcloudIot.Dynreg

open Lib Utils

/-- `QCLOUD_RET_SUCCESS`. -/
def qcloudRetSuccess : Int := 0

/-- `DECODE_BUFF_LEN`. -/
def decodeBuffLen : Nat := 256

/-- `DYN_RESPONSE_BUFF_LEN`. -/
def dynResponseBuffLen : Nat := 256

/-- `MAX_SIZE_OF_DEVICE_SECRET`. -/
def maxSizeOfDeviceSecret : Nat := 64

/-- `UTILS_AES_BLOCK_LEN`. -/
def utilsAesBlockLen : Nat := 16

/-- `AES_KEY_BITS_128`. -/
def aesKeyBits128 : Nat := 128

/-- `ePSK_TYPE`. -/
def ePskType : Int := 2

/-- `strncpy`: the bytes written. -/
def strncpy (s : Text) (n : Nat) : Text := s.take n ++ List.replicate (n - s.length) 0

/-! ## Decryption -/

/-- Decryption in CBC mode: of a key, an initial vector and data. -/
structure AesCbc where
  decrypt : (key iv data : Text) → Text
  length_decrypt : ∀ key iv data, (decrypt key iv data).length = data.length

/-- `utils_aes_setkey_dec`, up to the key. -/
def utilsAesSetkeyDec (keybits : Nat) : Int :=
  if keybits = 128 ∨ keybits = 192 ∨ keybits = 256 then 0 else -0x20

/-- `utils_aes_cbc` with `UTILS_AES_DECRYPT`: what it returns and what it writes. It does not look at
`outBuffLen`. -/
def utilsAesCbc (aes : AesCbc) (data : Text) (_outBuffLen : Nat) (key : Text) (keybits : Nat)
    (iv : Text) : Int × Text :=
  if utilsAesSetkeyDec keybits ≠ 0 then (qcloudErrFailure, [])
  else if data.length % utilsAesBlockLen ≠ 0 then (qcloudErrFailure, [])
  else (qcloudRetSuccess, aes.decrypt key iv data)

/-! ## Members of the texts -/

/-- The text of a response, and what a search for a key finds in the memory behind it. -/
structure Response where
  text : Text
  behind : Text → Option Text

/-- `LITE_json_value_of`, of the response. -/
def Response.valueOf (jdoc : Response) (key : Text) : Option Text :=
  match liteJsonValueOf key jdoc.text with
  | some found => found
  | none => jdoc.behind key

/-- A number from a member, or -1. -/
def int32Of (v : Option Text) : Int := (v.bind scanInt).getD (-1)

/-- `_get_json_resault_code`. -/
def getJsonResaultCode (jdoc : Response) : Int := int32Of (jdoc.valueOf (chars "code"))

/-- `_get_json_encry_type`. -/
def getJsonEncryType (lookup : Text → Option (Option Text)) : Option Int :=
  (lookup (chars "encryptionType")).map int32Of

/-- `_get_json_psk`. -/
def getJsonPsk (lookup : Text → Option (Option Text)) : Option (Option Text) := lookup (chars "psk")

/-! ## The call -/

/-- Where the call leaves `decodeBuff`. -/
inductive Fault where
  | decoding | decryption | scan
  deriving DecidableEq, Repr

/-- What the call returns, the `psk` it has found, and what it writes from `device_secret` on. -/
structure Parsed where
  ret : Int
  psk : Option Text := none
  written : Text := []
  deriving DecidableEq, Repr

/-- `_parse_devinfo` from the decrypted text on; `lookup` is `LITE_json_value_of`, of `decodeBuff`. -/
def parseDecrypted (lookup : Text → Option (Option Text)) : Except Fault Parsed :=
  match getJsonEncryType lookup with
  | none => .error .scan
  | some enType =>
    if enType < 0 then .ok { ret := qcloudErrFailure }
    else if ePskType ≠ enType then .ok { ret := qcloudErrFailure }
    else match getJsonPsk lookup with
      | none => .error .scan
      | some none => .ok { ret := qcloudRetSuccess }
      | some (some psk) =>
        if psk.length > maxSizeOfDeviceSecret then
          -- psk exceed max len: strcpy
          .ok ⟨qcloudRetSuccess, some psk, psk ++ [0]⟩
        else .ok ⟨qcloudRetSuccess, some psk, strncpy psk maxSizeOfDeviceSecret ++ [0]⟩

/-- `datalen`. -/
def datalen (len : Nat) : Nat := len + (utilsAesBlockLen - len % utilsAesBlockLen)

/-- `_parse_devinfo` from the decoded bytes on. -/
def parseDecoded (aes : AesCbc) (productSecret written : Text) (len fuel : Nat) : Except Fault Parsed :=
  let decodeBuff := written ++ List.replicate (decodeBuffLen - written.length) 0
  if decodeBuffLen < datalen len then .error .decryption
  else
    let key := strncpy productSecret utilsAesBlockLen
    let iv := List.replicate utilsAesBlockLen 48
    let out := utilsAesCbc aes (decodeBuff.take (datalen len)) decodeBuffLen key aesKeyBits128 iv
    if qcloudRetSuccess ≠ out.1 then .ok { ret := out.1 }
    else
      let decodeBuff := out.2 ++ decodeBuff.drop (datalen len)
      parseDecrypted fun key => (bufferRam decodeBuff).liteJsonValueOfAt key fuel

/-- `_parse_devinfo`, with a `size_t` of `w` bits and the `product_secret` of the device. -/
def parseDevinfo (w : Nat) (aes : AesCbc) (productSecret : Text) (jdoc : Response) (fuel : Nat) :
    Except Fault Parsed :=
  let ret := getJsonResaultCode jdoc
  if qcloudRetSuccess ≠ ret then .ok { ret := ret }
  else
    match jdoc.valueOf (chars "payload") with
    | none => .ok { ret := qcloudErrFailure }
    | some payload =>
      let decoded := base64decode w true decodeBuffLen payload
      if decodeBuffLen < decoded.written.length then .error .decoding
      else if decoded.rc ≠ qcloudRetSuccess then .ok { ret := qcloudErrFailure }
      else parseDecoded aes productSecret decoded.written (decoded.olen.getD 0) fuel

/-! ## What is asked of it -/

/-- The secret lies in `device_secret` with its NUL, and success means a `psk` that fits. -/
structure Parsed.Sound (p : Parsed) : Prop where
  fits : p.written.length ≤ maxSizeOfDeviceSecret + 1
  terminated : p.written ≠ [] → 0 ∈ p.written
  success : p.ret = qcloudRetSuccess → ∃ psk, p.psk = some psk ∧ psk.length ≤ maxSizeOfDeviceSecret

/-- The call comes to its end without leaving `decodeBuff`. -/
def Bounded (w : Nat) (aes : AesCbc) (productSecret : Text) (jdoc : Response) : Prop :=
  ∃ enough, ∀ fuel, enough ≤ fuel → ∃ p, parseDevinfo w aes productSecret jdoc fuel = .ok p ∧ p.Sound

/-- The bytes that the payload of a response with the code 0 decodes to. -/
def Response.decoded (w : Nat) (jdoc : Response) : Option Text :=
  if qcloudRetSuccess ≠ getJsonResaultCode jdoc then none
  else (jdoc.valueOf (chars "payload")).bind fun payload =>
    let decoded := base64decode w true decodeBuffLen payload
    if decoded.rc ≠ qcloudRetSuccess then none else some decoded.written

/-- What stands in `decodeBuff` behind the decryption. -/
def decryptedBuff (aes : AesCbc) (productSecret bytes : Text) : Text :=
  aes.decrypt (strncpy productSecret utilsAesBlockLen) (List.replicate utilsAesBlockLen 48)
    (bytes ++ List.replicate (datalen bytes.length - bytes.length) 0) ++
      List.replicate (decodeBuffLen - datalen bytes.length) 0

/-- A text of the type of a `psk` has one that fits. -/
def PskFits (lookup : Text → Option (Option Text)) : Prop :=
  ∀ v, lookup (chars "encryptionType") = some v → int32Of v = ePskType →
    ∃ psk, lookup (chars "psk") = some (some psk) ∧ psk.length ≤ maxSizeOfDeviceSecret

/-! ## Decoding -/

/-- What is decoded, and the length that is stored. -/
theorem base64decode_cases (w dlen : Nat) (src : Text) :
    ((base64decode w true dlen src).rc = 0 ∧ (base64decode w true dlen src).olen =
      some (base64decode w true dlen src).written.length) ∨
    ((base64decode w true dlen src).rc ≠ 0 ∧ (base64decode w true dlen src).written = []) := by
  have herr : Utils.qcloudErrFailure ≠ 0 := by decide
  unfold base64decode
  split
  · exact .inr ⟨herr, rfl⟩
  split
  · exact .inl ⟨rfl, rfl⟩
  simp only
  split
  · exact .inr ⟨herr, rfl⟩
  · exact .inl ⟨rfl, rfl⟩

theorem datalen_spec (len : Nat) : len < datalen len ∧ datalen len ≤ len + 16 ∧
    datalen len % utilsAesBlockLen = 0 := by
  unfold datalen utilsAesBlockLen
  omega

/-- The room of `decodeBuff` is enough for the last block iff it is not filled. -/
theorem datalen_le (len : Nat) : datalen len ≤ decodeBuffLen ↔ len < decodeBuffLen := by
  unfold datalen utilsAesBlockLen decodeBuffLen
  omega

theorem length_decryptedBuff (aes : AesCbc) (productSecret : Text) {bytes : Text}
    (h : bytes.length < decodeBuffLen) :
    (decryptedBuff aes productSecret bytes).length = decodeBuffLen := by
  have hle := (datalen_le bytes.length).mpr h
  have hlt := (datalen_spec bytes.length).1
  rw [decryptedBuff, List.length_append, aes.length_decrypt, List.length_append, List.length_replicate,
    List.length_replicate]
  omega

/-! ## The call by its steps -/

/-- What is not decoded is turned down. -/
theorem parseDevinfo_turnedDown {w : Nat} {jdoc : Response} (h : jdoc.decoded w = none) (aes : AesCbc)
    (productSecret : Text) (fuel : Nat) : ∃ ret : Int, ret ≠ qcloudRetSuccess ∧
      parseDevinfo w aes productSecret jdoc fuel = .ok { ret := ret } := by
  have herr : qcloudErrFailure ≠ qcloudRetSuccess := by decide
  unfold Response.decoded at h
  unfold parseDevinfo
  simp only
  split at h
  · rename_i hcode
    rw [if_pos hcode]
    exact ⟨_, Ne.symm hcode, rfl⟩
  rename_i hcode
  rw [if_neg hcode]
  cases hpayload : jdoc.valueOf (chars "payload") with
  | none => exact ⟨_, herr, rfl⟩
  | some payload =>
    rw [hpayload, Option.bind_some] at h
    simp only at h
    split at h
    · rename_i hrc
      simp only
      obtain ⟨hzero, -⟩ | ⟨-, hnothing⟩ := base64decode_cases w decodeBuffLen payload
      · exact absurd hzero hrc
      · rw [if_neg (by rw [hnothing]; exact Nat.not_lt_zero _), if_pos hrc]
        exact ⟨_, herr, rfl⟩
    · cases h

/-- Whole blocks are decrypted. -/
theorem utilsAesCbc_blocks (aes : AesCbc) {data : Text} (h : data.length % utilsAesBlockLen = 0)
    (outBuffLen : Nat) (key iv : Text) : utilsAesCbc aes data outBuffLen key aesKeyBits128 iv =
      (qcloudRetSuccess, aes.decrypt key iv data) := by
  rw [utilsAesCbc, if_neg (by decide), if_neg (not_not.mpr h)]

/-- With room for the last block the text is decrypted and looked up. -/
theorem parseDecoded_eq (aes : AesCbc) (productSecret : Text) {bytes : Text}
    (h : bytes.length < decodeBuffLen) (fuel : Nat) :
    parseDecoded aes productSecret bytes bytes.length fuel = parseDecrypted fun key =>
      (bufferRam (decryptedBuff aes productSecret bytes)).liteJsonValueOfAt key fuel := by
  have hle := (datalen_le bytes.length).mpr h
  obtain ⟨hlt, -, hblocks⟩ := datalen_spec bytes.length
  have htake : (bytes ++ List.replicate (decodeBuffLen - bytes.length) 0).take (datalen bytes.length) =
      bytes ++ List.replicate (datalen bytes.length - bytes.length) 0 := by
    rw [List.take_append, List.take_of_length_le (by omega), List.take_replicate,
      Nat.min_eq_left (by omega)]
  have hdrop : (bytes ++ List.replicate (decodeBuffLen - bytes.length) 0).drop (datalen bytes.length) =
      List.replicate (decodeBuffLen - datalen bytes.length) 0 := by
    rw [List.drop_append, List.drop_of_length_le (by omega), List.nil_append, List.drop_replicate]
    congr 1
    omega
  have hwhole : (bytes ++ List.replicate (datalen bytes.length - bytes.length) (0 : UInt8)).length %
      utilsAesBlockLen = 0 := by
    rw [List.length_append, List.length_replicate, Nat.add_sub_cancel' hlt.le]
    exact hblocks
  unfold parseDecoded
  simp only
  rw [if_neg (by omega), htake, hdrop, utilsAesCbc_blocks aes hwhole,
    if_neg (not_not.mpr rfl)]
  rfl

/-- **What is decoded**: fewer bytes than the buffer has are decrypted and looked up, as many or more
are a fault. -/
theorem parseDevinfo_decoded {w : Nat} {jdoc : Response} {bytes : Text}
    (h : jdoc.decoded w = some bytes) (aes : AesCbc) (productSecret : Text) (fuel : Nat) :
    (bytes.length < decodeBuffLen → parseDevinfo w aes productSecret jdoc fuel =
      parseDecrypted fun key =>
        (bufferRam (decryptedBuff aes productSecret bytes)).liteJsonValueOfAt key fuel) ∧
    (¬ bytes.length < decodeBuffLen → ∃ fault : Fault,
      parseDevinfo w aes productSecret jdoc fuel = .error fault) := by
  unfold Response.decoded at h
  split at h
  · cases h
  rename_i hcode
  obtain ⟨payload, hpayload, h⟩ := Option.bind_eq_some_iff.mp h
  simp only at h
  split at h
  · cases h
  rename_i hrc
  obtain ⟨-, holen⟩ | ⟨hne, -⟩ := base64decode_cases w decodeBuffLen payload
  case inr => exact absurd hne hrc
  have hbytes := Option.some.inj h
  unfold parseDevinfo
  simp only
  rw [if_neg hcode, hpayload]
  simp only
  rw [holen, hbytes, Option.getD_some, if_neg hrc]
  constructor
  · intro hlt
    rw [if_neg (by omega)]
    exact parseDecoded_eq aes productSecret hlt fuel
  · intro hge
    have hpadded := mt (datalen_le bytes.length).mp hge
    split
    · exact ⟨_, rfl⟩
    · unfold parseDecoded
      simp only
      rw [if_pos (by omega)]
      exact ⟨_, rfl⟩

/-! ## The secret -/

theorem strncpy_sound {psk : Text} (h : ¬ psk.length > maxSizeOfDeviceSecret) :
    Parsed.Sound ⟨qcloudRetSuccess, some psk, strncpy psk maxSizeOfDeviceSecret ++ [0]⟩ := by
  refine ⟨?_, fun _ => ?_, fun _ => ⟨psk, rfl, by omega⟩⟩
  · change (strncpy psk maxSizeOfDeviceSecret ++ [0]).length ≤ _
    rw [strncpy, List.length_append, List.length_append, List.length_take, List.length_replicate,
      List.length_singleton]
    omega
  · exact List.mem_append_right _ (List.mem_singleton.mpr rfl)

/-- An error leaves the secret alone. -/
theorem error_sound {ret : Int} (h : ret ≠ qcloudRetSuccess) : Parsed.Sound { ret := ret } :=
  ⟨Nat.zero_le _, fun hne => absurd rfl hne, fun hret => absurd hret h⟩

/-- **The decrypted text**: what is made of it is sound iff the search for its type ends in it, and a
text of the type of a `psk` has one that fits. -/
theorem parseDecrypted_sound (lookup : Text → Option (Option Text)) :
    (∃ p, parseDecrypted lookup = .ok p ∧ p.Sound) ↔
      (lookup (chars "encryptionType")).isSome = true ∧ PskFits lookup := by
  have herr : qcloudErrFailure ≠ qcloudRetSuccess := by decide
  unfold parseDecrypted getJsonEncryType getJsonPsk PskFits
  cases htype : lookup (chars "encryptionType") with
  | none =>
    refine iff_of_false ?_ fun h => absurd h.1 Bool.false_ne_true
    rintro ⟨p, hp, -⟩
    cases hp
  | some v =>
    rw [Option.map_some, Option.isSome_some, and_iff_right rfl]
    simp only
    split
    · rename_i hneg
      refine iff_of_true ⟨_, rfl, error_sound herr⟩ fun v' hv' hpsk => ?_
      rw [Option.some.inj hv', hpsk] at hneg
      exact absurd hneg (by decide)
    split
    · rename_i hother
      refine iff_of_true ⟨_, rfl, error_sound herr⟩ fun v' hv' hpsk => ?_
      rw [Option.some.inj hv'] at hother
      exact absurd hpsk.symm hother
    rename_i hpskType
    have hwanted : ∀ P : Prop, (∀ v', some v = some v' → int32Of v' = ePskType → P) ↔ P := fun P =>
      ⟨fun h => h v rfl (not_not.mp hpskType).symm, fun h _ _ _ => h⟩
    rw [hwanted]
    cases lookup (chars "psk") with
    | none =>
      refine iff_of_false ?_ fun h => ?_
      · rintro ⟨p, hp, -⟩
        cases hp
      · obtain ⟨psk, hpsk, -⟩ := h
        cases hpsk
    | some found =>
      cases found with
      | none =>
        refine iff_of_false ?_ fun h => ?_
        · rintro ⟨p, hp, hsound⟩
          cases hp
          obtain ⟨psk, hpsk, -⟩ := hsound.success rfl
          cases hpsk
        · obtain ⟨psk, hpsk, -⟩ := h
          cases hpsk
      | some psk =>
        simp only
        split
        · rename_i hlong
          refine iff_of_false ?_ fun h => ?_
          · rintro ⟨p, hp, hsound⟩
            cases hp
            obtain ⟨psk', hpsk, hle⟩ := hsound.success rfl
            cases hpsk
            omega
          · obtain ⟨psk', hpsk, hle⟩ := h
            cases hpsk
            omega
        · rename_i hshort
          exact iff_of_true ⟨_, rfl, strncpy_sound hshort⟩ ⟨psk, rfl, by omega⟩

/-- The lookups in memory come out as the search in the strings. -/
theorem parseDecrypted_lookups {buff : Text} {fuel : Nat} (h : buff.length < fuel) :
    parseDecrypted (fun key => (bufferRam buff).liteJsonValueOfAt key fuel) =
      parseDecrypted fun key => valueIn key buff := by
  have htypeKey : 0 ∉ chars "encryptionType" := by decide
  have hpskKey : 0 ∉ chars "psk" := by decide
  have htype := liteJsonValueOfAt_eq buff htypeKey h
  have hpsk := liteJsonValueOfAt_eq buff hpskKey h
  unfold parseDecrypted getJsonEncryType getJsonPsk
  simp only [htype, hpsk]

/-- With enough turns for every lookup it does not matter how many. -/
theorem parseDevinfo_eq {w : Nat} {jdoc : Response} {bytes : Text} (h : jdoc.decoded w = some bytes)
    (hlt : bytes.length < decodeBuffLen) (aes : AesCbc) (productSecret : Text) {fuel : Nat}
    (hfuel : decodeBuffLen < fuel) : parseDevinfo w aes productSecret jdoc fuel =
      parseDecrypted fun key => valueIn key (decryptedBuff aes productSecret bytes) := by
  rw [(parseDevinfo_decoded h aes productSecret fuel).1 hlt]
  exact parseDecrypted_lookups (by rwa [length_decryptedBuff aes productSecret hlt])

/-- **The call**, told without its lookups. -/
theorem bounded_iff (w : Nat) (aes : AesCbc) (productSecret : Text) (jdoc : Response) :
    Bounded w aes productSecret jdoc ↔ ∀ bytes, jdoc.decoded w = some bytes →
      bytes.length < decodeBuffLen ∧ ∃ p, parseDecrypted
        (fun key => valueIn key (decryptedBuff aes productSecret bytes)) = .ok p ∧ p.Sound := by
  unfold Bounded
  cases hdecoded : jdoc.decoded w with
  | none =>
    refine iff_of_true ⟨0, fun fuel _ => ?_⟩ fun bytes h => Option.noConfusion rfl (heq_of_eq h)
    obtain ⟨ret, hret, heq⟩ := parseDevinfo_turnedDown hdecoded aes productSecret fuel
    exact ⟨_, heq, error_sound hret⟩
  | some bytes =>
    have hone : ∀ P : Text → Prop, (∀ bytes', some bytes = some bytes' → P bytes') ↔ P bytes := fun P =>
      ⟨fun h => h bytes rfl, fun h bytes' heq => Option.some.inj heq ▸ h⟩
    rw [hone]
    by_cases hlt : bytes.length < decodeBuffLen
    · rw [and_iff_right hlt]
      have hparsed : ∀ fuel, decodeBuffLen < fuel → parseDevinfo w aes productSecret jdoc fuel =
          parseDecrypted fun key => valueIn key (decryptedBuff aes productSecret bytes) :=
        fun fuel hfuel => parseDevinfo_eq hdecoded hlt aes productSecret hfuel
      constructor
      · rintro ⟨enough, h⟩
        have hrun := h (max enough (decodeBuffLen + 1)) (Nat.le_max_left _ _)
        rwa [hparsed _ (Nat.lt_of_succ_le (Nat.le_max_right _ _))] at hrun
      · intro h
        exact ⟨decodeBuffLen + 1, fun fuel hfuel => by rwa [hparsed fuel (Nat.lt_of_succ_le hfuel)]⟩
    · refine iff_of_false ?_ fun h => hlt h.1
      rintro ⟨enough, h⟩
      obtain ⟨p, hp, -⟩ := h enough (Nat.le_refl _)
      obtain ⟨fault, hfault⟩ := (parseDevinfo_decoded hdecoded aes productSecret enough).2 hlt
      rw [hfault] at hp
      cases hp

/-! ## A response in the caller's buffer -/

/-- What is looked up is no longer than the text. -/
theorem length_valueOf {path : List Text} {src v : Text} (h : followKey path src = some (some v)) :
    v.length ≤ src.length := by
  induction path generalizing src with
  | nil => cases h
  | cons name rest ih =>
    cases rest with
    | nil =>
      obtain ⟨found, hfound, h⟩ := Option.map_eq_some_iff.mp h
      obtain ⟨o, rfl, rfl⟩ := Option.map_eq_some_iff.mp h
      exact (List.take_prefix _ _).length_le.trans (valueByName_suffix hfound).length_le
    | cons name' rest =>
      obtain ⟨found, hfound, h⟩ := Option.bind_eq_some_iff.mp h
      cases found with
      | none => cases h
      | some o => exact (ih h).trans (valueByName_suffix hfound).length_le

/-- Six bits of a byte are decoded from each character. -/
theorem length_base64decode (w dlen : Nat) (src : Text) :
    (base64decode w true dlen src).written.length ≤ (src.length * 6 + 7) / 8 := by
  unfold base64decode
  cases hpass : firstPass src 0 0 0 with
  | none => exact Nat.zero_le _
  | some counts =>
    obtain ⟨n, j⟩ := counts
    have hcount := count_le hpass
    obtain ⟨-, -, hwritten, -⟩ := written_bounds hpass
    simp only
    split
    · exact Nat.zero_le _
    split
    · exact Nat.zero_le _
    · change (secondPass src 3 0 0).length ≤ _
      omega

/-- A response that fits the caller's buffer leaves zeros behind what is decrypted. -/
theorem decoded_short {w : Nat} {jdoc : Response} {bytes : Text}
    (hshort : jdoc.text.length < dynResponseBuffLen) (hbehind : ∀ key, jdoc.behind key = none)
    (h : jdoc.decoded w = some bytes) : bytes.length ≤ 192 := by
  unfold Response.decoded at h
  split at h
  · cases h
  obtain ⟨payload, hpayload, h⟩ := Option.bind_eq_some_iff.mp h
  simp only at h
  split at h
  · cases h
  have hlen : payload.length ≤ jdoc.text.length := by
    unfold Response.valueOf at hpayload
    split at hpayload
    · rename_i hfound
      rw [hpayload] at hfound
      exact length_valueOf hfound
    · rw [hbehind] at hpayload
      cases hpayload
  have hdecoded := length_base64decode w decodeBuffLen payload
  rw [Option.some.inj h] at hdecoded
  unfold dynResponseBuffLen at hshort
  omega

theorem decryptedBuff_zeros (aes : AesCbc) (productSecret : Text) {bytes : Text}
    (h : bytes.length ≤ 192) : ∃ x y, decryptedBuff aes productSecret bytes = x ++ 0 :: 0 :: y := by
  have hroom := (datalen_spec bytes.length).2.1
  obtain ⟨k, hk⟩ : ∃ k, decodeBuffLen - datalen bytes.length = k + 2 :=
    ⟨decodeBuffLen - datalen bytes.length - 2, by unfold decodeBuffLen; omega⟩
  unfold decryptedBuff
  rw [hk, List.replicate_succ, List.replicate_succ]
  exact ⟨_, _, rfl⟩

/-- **When `_parse_devinfo` keeps to its buffers** and succeeds only with a secret that fits: exactly if
nothing is decoded, or fewer bytes than the buffer has, the search for the type ends in the buffer, and
a text of the type of a `psk` has one that fits, found in the buffer. With a response in the caller's
buffer only the last is asked. -/
theorem parseDevinfo_iff (w : Nat) (aes : AesCbc) (productSecret : Text) (jdoc : Response) :
    (Bounded w aes productSecret jdoc ↔ ∀ bytes, jdoc.decoded w = some bytes →
      bytes.length < decodeBuffLen ∧
        (valueIn (chars "encryptionType") (decryptedBuff aes productSecret bytes)).isSome = true ∧
          PskFits fun key => valueIn key (decryptedBuff aes productSecret bytes)) ∧
    (jdoc.text.length < dynResponseBuffLen → (∀ key, jdoc.behind key = none) →
      (Bounded w aes productSecret jdoc ↔ ∀ bytes, jdoc.decoded w = some bytes →
        PskFits fun key => valueIn key (decryptedBuff aes productSecret bytes))) := by
  have hgeneral := bounded_iff w aes productSecret jdoc
  simp only [parseDecrypted_sound] at hgeneral
  refine ⟨hgeneral, fun hshort hbehind => hgeneral.trans ?_⟩
  refine forall_congr' fun bytes => forall_congr' fun hdecoded => ?_
  have hlen := decoded_short hshort hbehind hdecoded
  obtain ⟨x, y, hzeros⟩ := decryptedBuff_zeros aes productSecret hlen
  have hroom : bytes.length < decodeBuffLen := by
    unfold decodeBuffLen
    omega
  rw [and_iff_right hroom, and_iff_right]
  rw [hzeros]
  exact valueIn_zeros _ x y

/-! ## Replies -/

/-- Data come out as they are. -/
def plainCipher : AesCbc := ⟨fun _ _ data => data, fun _ _ _ => rfl⟩

/-- The decrypted text, with this behind its type. -/
def registration (rest : Text) : Text := chars "\x7b\"encryptionType\":2" ++ rest ++ chars "\x7d"

/-- The response with that text; zeros follow it. -/
def reply (rest : Text) : Response where
  text := chars "\x7b\"code\":0,\"payload\":\"" ++ base64 (registration rest) ++ chars "\"\x7d"
  behind := fun _ => none

/-- A `psk` of a length. -/
def pskMember (n : Nat) : Text := chars ",\"psk\":\"" ++ List.replicate n 97 ++ chars "\""

/-- The secret of a product. -/
def exampleSecret : Text := chars "0123456789abcdef"

/-- A `psk` that fits. -/
theorem parseDevinfo_fits : Bounded 32 plainCipher exampleSecret (reply (pskMember 24)) := by
  have hdecoded : (reply (pskMember 24)).decoded 32 = some (registration (pskMember 24)) := by
    decide +kernel
  refine ((parseDevinfo_iff 32 plainCipher exampleSecret (reply (pskMember 24))).2 (by decide)
    fun _ => rfl).mpr fun bytes hbytes v _ _ => ?_
  rw [hdecoded] at hbytes
  rw [← Option.some.inj hbytes]
  exact ⟨List.replicate 24 97, by decide, by decide⟩

/-- **What goes wrong**: a `psk` of 65 characters is written behind `device_secret`, and a text without
one is no error. -/
theorem parseDevinfo_overruns :
    ((∀ fuel, decodeBuffLen < fuel →
        parseDevinfo 32 plainCipher exampleSecret (reply (pskMember 65)) fuel =
          .ok ⟨qcloudRetSuccess, some (List.replicate 65 97), List.replicate 65 97 ++ [0]⟩) ∧
      ¬ Bounded 32 plainCipher exampleSecret (reply (pskMember 65))) ∧
    (∀ fuel, decodeBuffLen < fuel → parseDevinfo 32 plainCipher exampleSecret (reply []) fuel =
        .ok { ret := qcloudRetSuccess }) ∧
      ¬ Bounded 32 plainCipher exampleSecret (reply []) := by
  have hlong : (reply (pskMember 65)).decoded 32 = some (registration (pskMember 65)) := by
    decide +kernel
  have hnone : (reply []).decoded 32 = some (registration []) := by decide
  have hlongRun : (parseDecrypted fun key => valueIn key (decryptedBuff plainCipher exampleSecret
      (registration (pskMember 65)))) =
        .ok ⟨qcloudRetSuccess, some (List.replicate 65 97), List.replicate 65 97 ++ [0]⟩ := by
    decide +kernel
  have hnoneRun : (parseDecrypted fun key => valueIn key (decryptedBuff plainCipher exampleSecret
      (registration []))) = .ok { ret := qcloudRetSuccess } := by
    decide
  refine ⟨⟨fun fuel hfuel => ?_, fun h => ?_⟩, fun fuel hfuel => ?_, fun h => ?_⟩
  · rw [parseDevinfo_eq hlong (by decide) plainCipher exampleSecret hfuel, hlongRun]
  · obtain ⟨-, p, hp, hsound⟩ := (bounded_iff _ _ _ _).mp h _ hlong
    rw [hlongRun] at hp
    cases hp
    exact absurd hsound.fits (by decide)
  · rw [parseDevinfo_eq hnone (by decide) plainCipher exampleSecret hfuel, hnoneRun]
  · obtain ⟨-, p, hp, hsound⟩ := (bounded_iff _ _ _ _).mp h _ hnone
    rw [hnoneRun] at hp
    cases hp
    obtain ⟨psk, hpsk, -⟩ := hsound.success rfl
    cases hpsk

end QcloudIot.Dynreg
