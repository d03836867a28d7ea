import QcloudIot.Dynreg.Random
import QcloudIot.Dynreg.Secret
import QcloudIot.Shadow.RoundTrip
import QcloudIot.Utils.Hmac

/-!
# The request of a registration

`_cal_dynreg_sign` and `IOT_DynReg_Device` of `dynreg.c` up to the request that is posted: its nonce is
drawn from the time, its signature made with `utils_hmac_sha1` and written in base64, and both texts are
printed to buffers of a computed size.

* `signSource_whole`, `request_whole`: the buffers hold what is printed;
* `Authentic`: what a server that knows the product's secret checks;
* **`iotDynRegDevice_authentic`**: the request is the text of a JSON object with the names of the device,
  and its signature is that of its own members.
-/

namespace QcloudIot.Dynreg

open Lib Utils
open Shadow (printNat printInt intNumber text_intNumber)
open QcloudIot.Dynreg.Random (nonce toInt32)

/-! ## The code -/

/-- `MAX_SIZE_OF_DEVICE_NAME`. -/
def maxSizeOfDeviceName : Nat := 48

/-- `MAX_SIZE_OF_PRODUCT_ID`. -/
def maxSizeOfProductId : Nat := 10

/-- `MAX_SIZE_OF_PRODUCT_SECRET`. -/
def maxSizeOfProductSecret : Nat := 32

/-- `DYN_BUFF_DATA_MORE`. -/
def dynBuffDataMore : Nat := 10

/-- `DYN_REG_SIGN_LEN`. -/
def dynRegSignLen : Nat := 64

/-- The strings of `DeviceInfo` that are read, each in its array. -/
structure DeviceInfo where
  productId : Text
  deviceName : Text
  productSecret : Text
  productId_le : productId.length ≤ maxSizeOfProductId
  deviceName_le : deviceName.length ≤ maxSizeOfDeviceName
  productSecret_le : productSecret.length ≤ maxSizeOfProductSecret

/-- `HAL_Snprintf`: the string in a buffer of this size. -/
def snprintf (size : Nat) (s : Text) : Text := s.take (size - 1)

/-- `sign_fmt`, filled in. -/
def signSource (deviceName productId : Text) (nonce timestamp : Int) : Text :=
  chars "deviceName=" ++ deviceName ++ chars "&nonce=" ++ printInt nonce ++ chars "&productId=" ++
    productId ++ chars "&timestamp=" ++ printInt timestamp

/-- The length of `sign_fmt`. -/
def signFmtLen : Nat := (chars "deviceName=%s&nonce=%d&productId=%s&timestamp=%d").length

/-- `_cal_dynreg_sign`: what it returns, and the string in `signout`, which holds zeros before. -/
def calDynregSign (w : Nat) (info : DeviceInfo) (maxSignlen : Nat) (nonce : Int) (timestamp : UInt32) :
    Int × Text :=
  let signLen := signFmtLen + info.deviceName.length + info.productId.length + 4 + 4 + dynBuffDataMore
  let pSignSource := snprintf signLen
    (signSource info.deviceName info.productId nonce (toInt32 timestamp))
  let sign := (utilsHmacSha1 (some pSignSource) true (some info.productSecret)).getD []
  let encoded := base64encode w true maxSignlen sign
  (if encoded.olen.getD 0 > maxSignlen then qcloudErrFailure else qcloudRetSuccess,
    encodedText w maxSignlen sign)

/-- `para_format`, filled in. -/
def requestText (deviceName productId : Text) (nonce timestamp : Int) (sign : Text) : Text :=
  chars "\x7b\"deviceName\":\"" ++ deviceName ++ chars "\",\"nonce\":" ++ printInt nonce ++
    chars ",\"productId\":\"" ++ productId ++ chars "\",\"timestamp\":" ++ printInt timestamp ++
      chars ",\"signature\":\"" ++ sign ++ chars "\"\x7d"

/-- The length of `para_format`. -/
def paraFormatLen : Nat :=
  (chars "\x7b\"deviceName\":\"%s\",\"nonce\":%d,\"productId\":\"%s\",\"timestamp\":%d,\"signature\":\"%s\"\x7d").length

/-- `IOT_DynReg_Device` up to the request it posts, or the error it returns; `none` where an operation of
`rand_r` overflows. -/
def iotDynRegDevice (w : Nat) (info : DeviceInfo) (timeMs timestamp : UInt32) : Option (Except Int Text) :=
  if info.productSecret.length < utilsAesBlockLen then some (.error qcloudErrFailure)
  else
    (nonce timeMs).map fun nonce =>
      let signed := calDynregSign w info dynRegSignLen nonce timestamp
      if signed.1 ≠ qcloudRetSuccess then .error qcloudErrFailure
      else
        let len := paraFormatLen + info.productId.length + info.deviceName.length + 4 + 4 +
          signed.2.length + dynBuffDataMore
        .ok (snprintf len (requestText info.deviceName info.productId nonce (toInt32 timestamp) signed.2))

/-! ## Numbers in digits -/

/-- A number of 32 bits has ten digits at most. -/
theorem length_printNat {n : Nat} (h : n < 10 ^ 10) : (printNat n).length ≤ 10 := by
  rw [printNat, List.length_map]
  exact (Nat.length_toDigits_le_iff (by decide) (by decide)).mpr h

theorem length_printInt {n : Int} (h : n.natAbs < 10 ^ 10) :
    (printInt n).length ≤ if n < 0 then 11 else 10 := by
  have hdigits := length_printNat h
  unfold printInt
  split
  · exact Nat.succ_le_succ hdigits
  · exact hdigits

/-- A printed number as a member's value. -/
theorem text_number (n : Int) : (intNumber n).text = printInt n := by
  rw [JsonNumber.text, text_intNumber]
  exact List.append_nil _

theorem length_timestamp (timestamp : UInt32) : (printInt (toInt32 timestamp)).length ≤ 11 := by
  have hrange := Random.toInt32_range timestamp
  have h := length_printInt (n := toInt32 timestamp) (by omega)
  split at h <;> omega

theorem length_nonce {x : Int} (hx : 0 ≤ x) (hlt : x < 2147483647) : (printInt x).length ≤ 10 := by
  have h := length_printInt (n := x) (by omega)
  rwa [if_neg (by omega)] at h

/-- Every time gives a nonce. -/
theorem nonce_range (timeMs : UInt32) : ∃ x, nonce timeMs = some x ∧ 0 ≤ x ∧ x < 2147483647 := by
  obtain ⟨hnonneg, hlt⟩ := lehmer_range (m := 2147483647) (by decide) Random.A (toInt32 timeMs)
  refine ⟨_, ?_, hnonneg, hlt⟩
  rw [nonce, Random.srandD, Random.randD, Random.randR_eq, Option.map_some]

/-! ## What is printed -/

section

variable {info : DeviceInfo} {x : Int} {timestamp : UInt32}

/-- The buffer of the sign source holds it. -/
theorem signSource_whole (info : DeviceInfo) (timestamp : UInt32) (hx : 0 ≤ x) (hlt : x < 2147483647) :
    snprintf (signFmtLen + info.deviceName.length + info.productId.length + 4 + 4 + dynBuffDataMore)
      (signSource info.deviceName info.productId x (toInt32 timestamp)) =
        signSource info.deviceName info.productId x (toInt32 timestamp) := by
  have hfmt : signFmtLen = 48 := rfl
  have hname : (chars "deviceName=").length = 11 := rfl
  have hnonce : (chars "&nonce=").length = 7 := rfl
  have hproduct : (chars "&productId=").length = 11 := rfl
  have htime : (chars "&timestamp=").length = 11 := rfl
  have hdigits := length_nonce hx hlt
  have hdigits' := length_timestamp timestamp
  refine List.take_of_length_le ?_
  unfold signSource dynBuffDataMore
  simp only [List.length_append, hname, hnonce, hproduct, htime, hfmt]
  omega

/-- The buffer of the request holds it. -/
theorem request_whole (hx : 0 ≤ x) (hlt : x < 2147483647) (sign : Text) :
    snprintf (paraFormatLen + info.productId.length + info.deviceName.length + 4 + 4 + sign.length +
      dynBuffDataMore) (requestText info.deviceName info.productId x (toInt32 timestamp) sign) =
        requestText info.deviceName info.productId x (toInt32 timestamp) sign := by
  have hfmt : paraFormatLen = 79 := rfl
  have hname : (chars "\x7b\"deviceName\":\"").length = 15 := rfl
  have hnonce : (chars "\",\"nonce\":").length = 10 := rfl
  have hproduct : (chars ",\"productId\":\"").length = 14 := rfl
  have htime : (chars "\",\"timestamp\":").length = 14 := rfl
  have hsign : (chars ",\"signature\":\"").length = 14 := rfl
  have hend : (chars "\"\x7d").length = 2 := rfl
  have hdigits := length_nonce hx hlt
  have hdigits' := length_timestamp timestamp
  refine List.take_of_length_le ?_
  unfold requestText dynBuffDataMore
  simp only [List.length_append, hname, hnonce, hproduct, htime, hsign, hend, hfmt]
  omega

end

/-! ## The signature -/

/-- The signature of a registration. -/
def signatureText (productSecret source : Text) : Text :=
  base64 (hexDigits (hmac Sha1.sha1.hash productSecret source))

/-- What a server that knows the product's secret checks of a request: its signature is that of its other
members. -/
def Authentic (productSecret : Text) (doc : Json) : Prop :=
  ∃ (name productId sign : JsonString) (x t : Int),
    doc.lookup [chars "deviceName"] = some (.string name) ∧
    doc.lookup [chars "nonce"] = some (.number (intNumber x)) ∧
    doc.lookup [chars "productId"] = some (.string productId) ∧
    doc.lookup [chars "timestamp"] = some (.number (intNumber t)) ∧
    doc.lookup [chars "signature"] = some (.string sign) ∧
    sign.bytes = signatureText productSecret (signSource name.bytes productId.bytes x t)

/-- **The signature** is always made, and fits its buffer. -/
theorem calDynregSign_eq {w : Nat} (hw : 16 ≤ w) (info : DeviceInfo) {x : Int} (hx : 0 ≤ x)
    (hlt : x < 2147483647) (timestamp : UInt32) :
    calDynregSign w info dynRegSignLen x timestamp = (qcloudRetSuccess,
      signatureText info.productSecret
        (signSource info.deviceName info.productId x (toInt32 timestamp))) := by
  have hpow : 2 ^ 16 ≤ 2 ^ w := Nat.pow_le_pow_right (by omega) hw
  have hsource : (signSource info.deviceName info.productId x (toInt32 timestamp)).length < 2 ^ 31 := by
    have hprinted := congrArg List.length (signSource_whole info timestamp hx hlt)
    have hname := info.deviceName_le
    have hproduct := info.productId_le
    have hfmt : signFmtLen = 48 := rfl
    unfold snprintf at hprinted
    rw [List.length_take] at hprinted
    unfold maxSizeOfDeviceName at hname
    unfold maxSizeOfProductId at hproduct
    unfold dynBuffDataMore at hprinted
    omega
  have hkey : info.productSecret.length ≤ keyIopadSize :=
    info.productSecret_le.trans (by decide)
  rw [calDynregSign]
  simp only [signSource_whole info timestamp hx hlt]
  generalize signSource info.deviceName info.productId x (toInt32 timestamp) = source at *
  have hsign := ((utilsHmac_eq (some source) true (some info.productSecret) fun bs hbs => by
    rwa [← Option.some.inj hbs]).1 source info.productSecret rfl rfl rfl hkey).2.1
  have hlen := length_hexHmac info.productSecret source
  rw [hsign, Option.getD_some]
  rw [signatureText]
  generalize hexDigits (hmac Sha1.sha1.hash info.productSecret source) = sign at *
  have hroom : 4 * ((sign.length + 2) / 3) + 1 ≤ dynRegSignLen := by
    rw [hlen]
    decide
  have hword : dynRegSignLen < 2 ^ w := Nat.lt_of_lt_of_le (by decide) hpow
  rw [olen_encode hroom hword, encodedText_eq hroom hword, Option.getD_some, length_base64, if_neg (by omega)]

/-! ## The request -/

/-- The request as an object. -/
def requestDoc (name productId sign : JsonString) (x t : Int) : Json :=
  .object (.more (memberName (chars "deviceName") rfl) (.string name) noSpace
    (.more (memberName (chars "nonce") rfl) (.number (intNumber x)) noSpace
      (.more (memberName (chars "productId") rfl) (.string productId) noSpace
        (.more (memberName (chars "timestamp") rfl) (.number (intNumber t)) noSpace
          (.last (memberName (chars "signature") rfl) (.string sign) noSpace)))))

/-- What is printed is its text. -/
theorem requestText_eq (name productId sign : JsonString) (x t : Int) :
    requestText name.bytes productId.bytes x t sign.bytes = (requestDoc name productId sign x t).text := by
  have hname : chars "\x7b\"deviceName\":\"" = 123 :: 34 :: (chars "deviceName" ++ [34, 58, 34]) := rfl
  have hnonce : chars "\",\"nonce\":" = 34 :: 44 :: 34 :: (chars "nonce" ++ [34, 58]) := rfl
  have hproduct : chars ",\"productId\":\"" = 44 :: 34 :: (chars "productId" ++ [34, 58, 34]) := rfl
  have htime : chars "\",\"timestamp\":" = 34 :: 44 :: 34 :: (chars "timestamp" ++ [34, 58]) := rfl
  have hsign : chars ",\"signature\":\"" = 44 :: 34 :: (chars "signature" ++ [34, 58, 34]) := rfl
  have hend : chars "\"\x7d" = [34, 125] := rfl
  simp only [requestText, requestDoc, hname, hnonce, hproduct, htime, hsign, hend, Json.text,
    JsonMembers.text, JsonName.text, memberName, noSpace, text_number, List.append_assoc, List.cons_append,
    List.nil_append]

/-- It is signed when the signature is that of its members. -/
theorem requestDoc_authentic {productSecret : Text} {name productId sign : JsonString} {x t : Int}
    (h : sign.bytes = signatureText productSecret (signSource name.bytes productId.bytes x t)) :
    Authentic productSecret (requestDoc name productId sign x t) := by
  refine ⟨name, productId, sign, x, t, ?_, ?_, ?_, ?_, ?_, h⟩
  · rfl
  · rfl
  · rfl
  · rfl
  · rfl

/-- **A server that knows the product's secret** reads the request of a device with such a secret: its
names, and a signature of just these members. Any time will do. -/
theorem iotDynRegDevice_authentic {w : Nat} (hw : 16 ≤ w) (info : DeviceInfo)
    (hsecret : utilsAesBlockLen ≤ info.productSecret.length) {name productId : JsonString}
    (hname : name.bytes = info.deviceName) (hproduct : productId.bytes = info.productId)
    (timeMs timestamp : UInt32) : ∃ request doc, iotDynRegDevice w info timeMs timestamp = some (.ok request) ∧
      request = doc.text ∧ Authentic info.productSecret doc ∧
      doc.lookup [chars "deviceName"] = some (.string name) ∧
      doc.lookup [chars "productId"] = some (.string productId) := by
  obtain ⟨x, hx, hnonneg, hlt⟩ := nonce_range timeMs
  have hsign := calDynregSign_eq hw info hnonneg hlt timestamp
  refine ⟨_, requestDoc name productId (base64String (hexDigits (hmac Sha1.sha1.hash info.productSecret
    (signSource info.deviceName info.productId x (toInt32 timestamp))))) x (toInt32 timestamp), ?_,
    requestText_eq _ _ _ _ _, requestDoc_authentic ?_, rfl, rfl⟩
  · rw [iotDynRegDevice, if_neg (by omega), hx, Option.map_some, hsign]
    simp only [request_whole hnonneg hlt]
    rw [if_neg (not_not.mpr rfl), hname, hproduct]
    rfl
  · rw [hname, hproduct]
    rfl

/-- The device "d" of the product "P". -/
def smallInfo : DeviceInfo where
  productId := chars "P"
  deviceName := chars "d"
  productSecret := exampleSecret
  productId_le := by decide
  deviceName_le := by decide
  productSecret_le := by decide

/-- Its request at the time 1. -/
theorem iotDynRegDevice_small : ∃ request doc, iotDynRegDevice 32 smallInfo 1 1 = some (.ok request) ∧
    request = doc.text ∧ Authentic exampleSecret doc ∧
    doc.lookup [chars "deviceName"] = some (.string ⟨chars "d", rfl⟩) ∧
    doc.lookup [chars "productId"] = some (.string ⟨chars "P", rfl⟩) :=
  iotDynRegDevice_authentic (by decide) smallInfo (by decide)
    (show (⟨chars "d", rfl⟩ : JsonString).bytes = smallInfo.deviceName from rfl)
    (show (⟨chars "P", rfl⟩ : JsonString).bytes = smallInfo.productId from rfl) 1 1

end QcloudIot.Dynreg
