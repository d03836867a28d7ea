import QcloudIot.Dynreg.Request
import QcloudIot.Gateway.Client

/-!
# A subdevice is bound

`IOT_Gateway_Subdev_Bind` of `gateway_api.c` up to the message it publishes, with
`subdev_bind_hmac_sha1_cal` of `gateway_common.c`, in the build with keys. The number that `rand` gives
and the time are arguments; of the time, a `long`, `%d` prints the low word in both texts.

* `bindSource_whole`: the buffer, of a computed size, holds what is signed;
* `BindSigned`: what a server that knows the subdevice's secret checks of an entry;
* **`iotGatewaySubdevBind_signed`**: the message is the text of a JSON object with one entry, signed for
  just its own members.
-/

namespace QcloudIot.Gateway

open Lib Utils
open Shadow (printInt intNumber)
open QcloudIot.Dynreg (snprintf length_printInt length_timestamp text_number memberName base64String)
open QcloudIot.Dynreg.Random (toInt32)

/-! ## The code -/

/-- `BIND_SIGN_KEY_SIZE`. -/
def bindSignKeySize : Nat := 64

/-- `SUBDEV_BIND_SIGN_LEN`. -/
def subdevBindSignLen : Nat := 64

/-- The strings of the subdevice's `DeviceInfo` that are read, each in its array. -/
structure SubdevInfo where
  productId : Bytes
  deviceName : Bytes
  deviceSecret : Bytes
  productId_le : productId.length ≤ maxSizeOfProductId
  deviceName_le : deviceName.length ≤ maxSizeOfDeviceName
  deviceSecret_le : deviceSecret.length ≤ bindSignKeySize

/-- `%s%s;%d;%d`, filled in. -/
def bindSource (productId deviceName : Bytes) (nonce timestamp : Int) : Bytes :=
  productId ++ deviceName ++ chars ";" ++ printInt nonce ++ chars ";" ++ printInt timestamp

/-- The length of `sign_fmt`. -/
def bindFmtLen : Nat := (chars "%s%s;%d;%d").length

/-- `subdev_bind_hmac_sha1_cal`: what it returns, and the string in `signout`. -/
def subdevBindHmacSha1Cal (w longSize : Nat) (info : SubdevInfo) (maxSignlen : Nat) (nonce : Int)
    (timestamp : UInt32) : Int × Bytes :=
  let textLen := bindFmtLen + info.deviceName.length + info.productId.length + 4 + longSize + 10
  let signText := snprintf textLen (bindSource info.productId info.deviceName nonce (toInt32 timestamp))
  let sign := utilsHmacSha1Hex (some signText) true (some info.deviceSecret)
  let bytes := (sign.2.getD []).take sign.1
  let encoded := base64encode w true maxSignlen bytes
  (if encoded.olen.getD 0 > maxSignlen then qcloudErrFailure else encoded.rc,
    encodedText w maxSignlen bytes)

/-- `GATEWAY_PAYLOAD_OP_FMT` for a bind with a key. -/
def bindPayload (productId deviceName sign : Bytes) (nonce timestamp : Int) : Bytes :=
  chars "\x7b\"type\":\"bind\",\"payload\":\x7b\"devices\":[\x7b\"product_id\":\"" ++ productId ++
    chars "\",\"device_name\":\"" ++ deviceName ++ chars "\",\"signature\":\"" ++ sign ++
    chars "\",\"random\":" ++ printInt nonce ++ chars ",\"timestamp\":" ++ printInt timestamp ++
    chars ",\"signmethod\":\"hmacsha1\",\"authtype\":\"psk\"\x7d]\x7d\x7d"

/-- `IOT_Gateway_Subdev_Bind` up to its message: the topic and the payload, or the error it returns. -/
def iotGatewaySubdevBind (w longSize : Nat) (param : GatewayParam) (info : SubdevInfo) (nonce : Int)
    (timestamp : UInt32) : Except Int (Bytes × Bytes) :=
  if (operationTopic param).length > maxSizeOfCloudTopic then .error qcloudErrFailure
  else
    let signed := subdevBindHmacSha1Cal w longSize info subdevBindSignLen nonce timestamp
    if signed.1 ≠ qcloudRetSuccess then .error qcloudErrFailure
    else
      let payload := bindPayload info.productId info.deviceName signed.2 nonce (toInt32 timestamp)
      if payload.length > gatewayPayloadBufferLen then .error qcloudErrFailure
      else if (clientIdText info.productId info.deviceName).length > maxSizeOfClientId then
        .error qcloudErrFailure
      else .ok (operationTopic param, payload)

/-! ## The signature -/

/-- The signature of an entry. -/
def bindSignature (secret source : Bytes) : Bytes := base64 (hmac Sha1.sha1.hash secret source)

/-- What a server that knows the subdevice's secret checks of an entry: its signature is that of its other
members. -/
def BindSigned (secret : Bytes) (entry : Json) : Prop :=
  ∃ (productId deviceName sign : JsonString) (x t : Int),
    entry.lookup [chars "product_id"] = some (.string productId) ∧
    entry.lookup [chars "device_name"] = some (.string deviceName) ∧
    entry.lookup [chars "random"] = some (.number (intNumber x)) ∧
    entry.lookup [chars "timestamp"] = some (.number (intNumber t)) ∧
    entry.lookup [chars "signature"] = some (.string sign) ∧
    sign.bytes = bindSignature secret (bindSource productId.bytes deviceName.bytes x t)

variable {w longSize : Nat} {x : Int}

/-- The digits of what `rand` gives. -/
theorem length_rand (hx : 0 ≤ x) (hlt : x < 2 ^ 31) : (printInt x).length ≤ 10 := by
  have h := length_printInt (n := x) (by omega)
  rwa [if_neg (by omega)] at h

/-- A sign source has 23 bytes besides the names at most. -/
theorem length_bindSource (hx : 0 ≤ x) (hlt : x < 2 ^ 31) (info : SubdevInfo) (timestamp : UInt32) :
    (bindSource info.productId info.deviceName x (toInt32 timestamp)).length ≤
      info.productId.length + info.deviceName.length + 23 := by
  have hsemi : (chars ";").length = 1 := rfl
  have hdigits := length_rand hx hlt
  have hdigits' := length_timestamp timestamp
  unfold bindSource
  simp only [List.length_append, hsemi]
  omega

/-- The buffer of the sign source holds it. -/
theorem bindSource_whole (hlong : 4 ≤ longSize) (hx : 0 ≤ x) (hlt : x < 2 ^ 31) (info : SubdevInfo)
    (timestamp : UInt32) :
    snprintf (bindFmtLen + info.deviceName.length + info.productId.length + 4 + longSize + 10)
      (bindSource info.productId info.deviceName x (toInt32 timestamp)) =
        bindSource info.productId info.deviceName x (toInt32 timestamp) := by
  have hfmt : bindFmtLen = 10 := rfl
  have hsource := length_bindSource hx hlt info timestamp
  refine List.take_of_length_le ?_
  rw [hfmt]
  omega

/-- **The signature** is always made, and fits its buffer. -/
theorem subdevBindHmacSha1Cal_eq (hw : 16 ≤ w) (hlong : 4 ≤ longSize) (hx : 0 ≤ x) (hlt : x < 2 ^ 31)
    (info : SubdevInfo) (timestamp : UInt32) :
    subdevBindHmacSha1Cal w longSize info subdevBindSignLen x timestamp = (qcloudRetSuccess,
      bindSignature info.deviceSecret
        (bindSource info.productId info.deviceName x (toInt32 timestamp))) := by
  have hpow : 2 ^ 16 ≤ 2 ^ w := Nat.pow_le_pow_right (by omega) hw
  have hsource : (bindSource info.productId info.deviceName x (toInt32 timestamp)).length < 2 ^ 31 := by
    have hlength := length_bindSource hx hlt info timestamp
    have hproduct := info.productId_le
    have hname := info.deviceName_le
    unfold maxSizeOfProductId at hproduct
    unfold maxSizeOfDeviceName at hname
    omega
  rw [subdevBindHmacSha1Cal]
  simp only [bindSource_whole hlong hx hlt info timestamp]
  generalize bindSource info.productId info.deviceName x (toInt32 timestamp) = source at *
  have hsign := ((utilsHmac_eq (some source) true (some info.deviceSecret) fun bs hbs => by
    rwa [← Option.some.inj hbs]).1 source info.deviceSecret rfl rfl rfl info.deviceSecret_le).2.2
  have hlen : (hmac Sha1.sha1.hash info.deviceSecret source).length = 20 := length_sha1 _
  rw [hsign, bindSignature]
  simp only [Option.getD_some]
  generalize hmac Sha1.sha1.hash info.deviceSecret source = sign at *
  have hroom : 4 * ((sign.length + 2) / 3) + 1 ≤ subdevBindSignLen := by
    rw [hlen]
    decide
  have hword : subdevBindSignLen < 2 ^ w := Nat.lt_of_lt_of_le (by decide) hpow
  rw [List.take_of_length_le hlen.le, olen_encode hroom hword, rc_encode hroom hword,
    encodedText_eq hroom hword, Option.getD_some, length_base64, if_neg (by omega)]
  rfl

/-! ## The message -/

theorem payload_plain : strRun .plain (chars "payload") = some .plain := rfl

theorem signature_plain : strRun .plain (chars "signature") = some .plain := rfl

theorem timestamp_plain : strRun .plain (chars "timestamp") = some .plain := rfl

theorem psk_plain : strRun .plain (chars "psk") = some .plain := rfl

/-- The entry of the subdevice. -/
def bindEntry (productId deviceName sign : JsonString) (x t : Int) : Json :=
  .object (.more (memberName (chars "product_id") rfl) (.string productId) noSpace
    (.more (memberName (chars "device_name") rfl) (.string deviceName) noSpace
      (.more (memberName (chars "signature") signature_plain) (.string sign) noSpace
        (.more (memberName (chars "random") rfl) (.number (intNumber x)) noSpace
          (.more (memberName (chars "timestamp") timestamp_plain) (.number (intNumber t)) noSpace
            (.more (memberName (chars "signmethod") rfl) (.string ⟨chars "hmacsha1", rfl⟩) noSpace
              (.last (memberName (chars "authtype") rfl) (.string ⟨chars "psk", psk_plain⟩) noSpace)))))))

/-- The message as an object, with this entry alone. -/
def bindDoc (entry : Json) : Json :=
  .object (.more (memberName (chars "type") rfl) (.string ⟨chars "bind", rfl⟩) noSpace
    (.last (memberName (chars "payload") payload_plain)
      (.object (.last (memberName (chars "devices") rfl) (.array (.last noSpace entry noSpace)) noSpace))
      noSpace))

/-- What is printed is its text. -/
theorem bindPayload_eq (productId deviceName sign : JsonString) (x t : Int) :
    bindPayload productId.bytes deviceName.bytes sign.bytes x t =
      (bindDoc (bindEntry productId deviceName sign x t)).text := by
  have hproduct : chars "\x7b\"type\":\"bind\",\"payload\":\x7b\"devices\":[\x7b\"product_id\":\"" =
      123 :: 34 :: (chars "type" ++ [34, 58, 34] ++ chars "bind" ++ [34, 44, 34] ++ chars "payload" ++
        [34, 58, 123, 34] ++ chars "devices" ++ [34, 58, 91, 123, 34] ++ chars "product_id" ++
          [34, 58, 34]) := rfl
  have hname : chars "\",\"device_name\":\"" = 34 :: 44 :: 34 :: (chars "device_name" ++ [34, 58, 34]) := rfl
  have hsign : chars "\",\"signature\":\"" = 34 :: 44 :: 34 :: (chars "signature" ++ [34, 58, 34]) := rfl
  have hrandom : chars "\",\"random\":" = 34 :: 44 :: 34 :: (chars "random" ++ [34, 58]) := rfl
  have htime : chars ",\"timestamp\":" = 44 :: 34 :: (chars "timestamp" ++ [34, 58]) := rfl
  have hend : chars ",\"signmethod\":\"hmacsha1\",\"authtype\":\"psk\"\x7d]\x7d\x7d" =
      44 :: 34 :: (chars "signmethod" ++ [34, 58, 34] ++ chars "hmacsha1" ++ [34, 44, 34] ++
        chars "authtype" ++ [34, 58, 34] ++ chars "psk" ++ [34, 125, 93, 125, 125]) := rfl
  simp only [bindPayload, bindDoc, bindEntry, hproduct, hname, hsign, hrandom, htime, hend, Json.text,
    JsonMembers.text, JsonElements.text, JsonName.text, memberName, noSpace, text_number, List.append_assoc,
    List.cons_append, List.nil_append]

/-- The payload's buffer holds it. -/
theorem length_bindPayload (hx : 0 ≤ x) (hlt : x < 2 ^ 31) (info : SubdevInfo) (timestamp : UInt32)
    {sign : Bytes} (hsign : sign.length ≤ subdevBindSignLen) :
    (bindPayload info.productId info.deviceName sign x (toInt32 timestamp)).length ≤
      gatewayPayloadBufferLen := by
  have hproduct : (chars
      "\x7b\"type\":\"bind\",\"payload\":\x7b\"devices\":[\x7b\"product_id\":\"").length = 52 := rfl
  have hname : (chars "\",\"device_name\":\"").length = 17 := rfl
  have hsignature : (chars "\",\"signature\":\"").length = 15 := rfl
  have hrandom : (chars "\",\"random\":").length = 11 := rfl
  have htime : (chars ",\"timestamp\":").length = 13 := rfl
  have hend : (chars ",\"signmethod\":\"hmacsha1\",\"authtype\":\"psk\"\x7d]\x7d\x7d").length = 45 := rfl
  have hdigits := length_rand hx hlt
  have hdigits' := length_timestamp timestamp
  have hid := info.productId_le
  have hdevice := info.deviceName_le
  unfold maxSizeOfProductId at hid
  unfold maxSizeOfDeviceName at hdevice
  unfold subdevBindSignLen at hsign
  unfold bindPayload gatewayPayloadBufferLen
  simp only [List.length_append, hproduct, hname, hsignature, hrandom, htime, hend]
  omega

/-- So does the one of the client id. -/
theorem length_clientIdText (info : SubdevInfo) :
    (clientIdText info.productId info.deviceName).length ≤ maxSizeOfClientId := by
  have hslash : (chars "/").length = 1 := rfl
  have hid := info.productId_le
  have hdevice := info.deviceName_le
  unfold maxSizeOfProductId at hid
  unfold maxSizeOfDeviceName at hdevice
  unfold clientIdText maxSizeOfClientId
  simp only [List.length_append, hslash]
  omega

/-- An entry is signed when the signature is that of its members. -/
theorem bindEntry_signed {secret : Bytes} {productId deviceName sign : JsonString} {x t : Int}
    (h : sign.bytes = bindSignature secret (bindSource productId.bytes deviceName.bytes x t)) :
    BindSigned secret (bindEntry productId deviceName sign x t) := by
  refine ⟨productId, deviceName, sign, x, t, ?_, ?_, ?_, ?_, ?_, h⟩
  · rfl
  · rfl
  · rfl
  · rfl
  · rfl

/-- **A server that knows the subdevice's secret** reads the message: a bind of the subdevice alone, with a
signature of just the members of its entry. Any time and any number will do. -/
theorem iotGatewaySubdevBind_signed (hw : 16 ≤ w) (hlong : 4 ≤ longSize) (hx : 0 ≤ x) (hlt : x < 2 ^ 31)
    {param : GatewayParam} (htopic : (operationTopic param).length ≤ maxSizeOfCloudTopic)
    (info : SubdevInfo) {productId deviceName : JsonString} (hproduct : productId.bytes = info.productId)
    (hname : deviceName.bytes = info.deviceName) (timestamp : UInt32) :
    ∃ doc entry : Json,
      iotGatewaySubdevBind w longSize param info x timestamp =
        .ok (operationTopic param, doc.text) ∧
      doc.lookup [chars "type"] = some (.string ⟨chars "bind", rfl⟩) ∧
      doc.lookup [chars "payload", chars "devices"] = some (.array (.last noSpace entry noSpace)) ∧
      BindSigned info.deviceSecret entry ∧
      entry.lookup [chars "product_id"] = some (.string productId) ∧
      entry.lookup [chars "device_name"] = some (.string deviceName) := by
  have hsigned := subdevBindHmacSha1Cal_eq hw hlong hx hlt info timestamp
  let sign : JsonString := base64String (hmac Sha1.sha1.hash info.deviceSecret
    (bindSource info.productId info.deviceName x (toInt32 timestamp)))
  have hsign : sign.bytes = bindSignature info.deviceSecret
      (bindSource info.productId info.deviceName x (toInt32 timestamp)) := rfl
  have hfits : sign.bytes.length ≤ subdevBindSignLen := by
    have hlen : (hmac Sha1.sha1.hash info.deviceSecret
      (bindSource info.productId info.deviceName x (toInt32 timestamp))).length = 20 := length_sha1 _
    rw [hsign, bindSignature, length_base64, hlen]
    decide
  have hpayload := length_bindPayload hx hlt info timestamp hfits
  let entry := bindEntry productId deviceName sign x (toInt32 timestamp)
  refine ⟨bindDoc entry, entry, ?_, rfl, rfl, bindEntry_signed ?_, rfl, rfl⟩
  · rw [iotGatewaySubdevBind, if_neg (Nat.not_lt.mpr htopic), hsigned]
    simp only
    rw [if_neg (not_not.mpr rfl), ← hsign, if_neg (Nat.not_lt.mpr hpayload),
      if_neg (Nat.not_lt.mpr (length_clientIdText info)), ← hproduct, ← hname, bindPayload_eq]
  · rw [hproduct, hname]
    exact hsign

/-- The subdevice "lamp" of the product "LP". -/
def smallSubdev : SubdevInfo where
  productId := chars "LP"
  deviceName := chars "lamp"
  deviceSecret := chars "key"
  productId_le := by decide
  deviceName_le := by decide
  deviceSecret_le := by decide

/-- The gateway "hub" of the product "GP". -/
def smallGateway : GatewayParam where
  productId := chars "GP"
  deviceName := chars "hub"
  subdevProductId := chars "LP"
  subdevDeviceName := chars "lamp"
  productId_le := by decide
  deviceName_le := by decide

/-- The gateway binds the subdevice, with the number 7 at the time 1. -/
theorem iotGatewaySubdevBind_small : ∃ doc entry : Json,
    iotGatewaySubdevBind 32 4 smallGateway smallSubdev 7 1 =
      .ok (operationTopic smallGateway, doc.text) ∧
    doc.lookup [chars "type"] = some (.string ⟨chars "bind", rfl⟩) ∧
    doc.lookup [chars "payload", chars "devices"] = some (.array (.last noSpace entry noSpace)) ∧
    BindSigned (chars "key") entry ∧
    entry.lookup [chars "product_id"] = some (.string ⟨chars "LP", rfl⟩) ∧
    entry.lookup [chars "device_name"] = some (.string ⟨chars "lamp", rfl⟩) :=
  iotGatewaySubdevBind_signed (by decide) (by decide) (by decide) (by decide) (by decide) smallSubdev
    (show (⟨chars "LP", rfl⟩ : JsonString).bytes = smallSubdev.productId from rfl)
    (show (⟨chars "lamp", rfl⟩ : JsonString).bytes = smallSubdev.deviceName from rfl) 1

end QcloudIot.Gateway
