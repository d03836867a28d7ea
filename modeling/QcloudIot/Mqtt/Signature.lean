import QcloudIot.Mqtt.Connect
import QcloudIot.Utils.Base64
import QcloudIot.Utils.Hmac

/-!
# The signature of a CONNECT packet

`IOT_MQTT_Construct` (`mqtt_client.c`) decodes the device secret, and `_serialize_connect_packet`
(`mqtt_client_connect.c`) signs the user name with it by `utils_hmac_sha1`: here with that function, not
with any.

* `Signed`: what a server that knows the secret checks;
* `signed_iff`: the password signs the user name iff the secret fits a block of the hash;
* **`connect_signed`**: a server that reads the CONNECT packet of a device finds its client id and the
  signature of the user name under the secret that the device secret spells.
-/

namespace QcloudIot.Mqtt

open Lib Utils

/-! ## The code -/

/-- `DECODE_PSK_LENGTH`. -/
def decodePskLength : Nat := 48

/-- The device secret in `IOT_MQTT_Construct`: `psk_decode` and its length, or an error. -/
def pskDecode (w : Nat) (deviceSecret : Bytes) : Option Bytes :=
  let decoded := base64decode w true decodePskLength deviceSecret
  if decoded.rc ≠ 0 then none else some (decoded.written.take (decoded.olen.getD 0))

/-- `sign`: forty digits, or the zeros it is filled with. -/
def connectSign (username deviceSecret : Bytes) : Bytes :=
  (utilsHmacSha1 (some username) true (some deviceSecret)).getD []

/-! ## The signature -/

/-- The signature of a user name. -/
def signatureOf (secret username : Bytes) : Bytes :=
  hexDigits (hmac Sha1.sha1.hash secret username) ++ chars ";hmacsha1"

/-- The packet has a user name and its signature. -/
def Signed (secret : Bytes) (p : ConnectPacket) : Prop :=
  ∃ username, p.userName = some username ∧ p.password = some (signatureOf secret username)

theorem length_signatureOf (secret username : Bytes) : (signatureOf secret username).length = 49 := by
  have hsuffix : (chars ";hmacsha1").length = 9 := rfl
  rw [signatureOf, List.length_append, length_hexHmac, hsuffix]

variable {o : ConnectOptions} {rand : Nat → Nat} {timesec : Nat} {secret : Bytes}

/-- The password, by the length of the secret. -/
theorem password_signed (rand : Nat → Nat) (timesec : Nat) (hsecret : o.deviceSecret = some secret)
    (hname : (o.username (.drawn rand timesec (some connectSign))).length < 2 ^ 31) :
    o.password (.drawn rand timesec (some connectSign)) =
      some (if secret.length ≤ keyIopadSize
        then signatureOf secret (o.username (.drawn rand timesec (some connectSign)))
        else chars ";hmacsha1") := by
  generalize hctx : ConnectContext.drawn rand timesec (some connectSign) = ctx at *
  have hhmac : ctx.hmacSha1 = some connectSign := by rw [← hctx]; rfl
  have hmsg : ∀ bs ∈ some (o.username ctx), bs.length < 2 ^ 31 := fun bs hbs => by
    rwa [← Option.some.inj hbs]
  obtain ⟨hfits, hnone⟩ := utilsHmac_eq (some (o.username ctx)) true (some secret) hmsg
  rw [ConnectOptions.password, hhmac, hsecret]
  refine congrArg some ?_
  split
  · rename_i hlen
    have hsign : connectSign (o.username ctx) secret =
        hexDigits (hmac Sha1.sha1.hash secret (o.username ctx)) := by
      rw [connectSign, (hfits _ _ rfl rfl rfl hlen).2.1, Option.getD_some]
    rw [hsign]
    exact List.take_of_length_le (by
      rw [← signatureOf, length_signatureOf]
      decide)
  · rename_i hlen
    have hsign : connectSign (o.username ctx) secret = [] := by
      rw [connectSign, (hnone (.inr (.inr fun k hk => by
        rw [← Option.some.inj hk]
        exact Nat.lt_of_not_le hlen))).2.1, Option.getD_none]
    rw [hsign]
    rfl

/-- **The fields are signed** iff the secret fits a block of the hash. -/
theorem signed_iff (hsecret : o.deviceSecret = some secret)
    (hfits : FieldsFit o (.drawn rand timesec (some connectSign))) :
    Signed secret (o.fields (.drawn rand timesec (some connectSign))) ↔ secret.length ≤ keyIopadSize := by
  have hname := hfits.username_length
  have hwhole := username_whole (o := o) hfits.connId
  have hpassword := password_signed rand timesec hsecret (by omega)
  unfold Signed ConnectOptions.fields
  rw [hpassword, ← hwhole]
  constructor
  · rintro ⟨username, -, heq⟩
    by_contra hlong
    rw [if_neg hlong] at heq
    have hlen := congrArg List.length (Option.some.inj heq)
    rw [length_signatureOf] at hlen
    exact absurd hlen (by decide)
  · intro hlen
    rw [if_pos hlen]
    exact ⟨_, rfl, rfl⟩

/-- A device secret that spells bytes. -/
theorem pskDecode_base64 {w : Nat} (hw : 16 ≤ w) (h : secret.length ≤ decodePskLength) :
    pskDecode w (base64 secret) = some secret := by
  have hpow : 2 ^ 16 ≤ 2 ^ w := Nat.pow_le_pow_right (by omega) hw
  have hshort : 8 * secret.length + 24 ≤ 2 ^ w := by
    unfold decodePskLength at h
    omega
  rw [pskDecode, base64decode_base64 hw h hshort]
  exact congrArg some (List.take_of_length_le (Nat.le_refl _))

/-- What is drawn for a connection fits its fields. -/
theorem fieldsFit_drawn (rand : Nat → Nat) (hid : o.clientId.length ≤ maxSizeOfClientId) (htime : timesec < 2 ^ 63)
    (hmacSha1 : Option (Bytes → Bytes → Bytes)) : FieldsFit o (.drawn rand timesec hmacSha1) := by
  refine ⟨hid, ?_, ?_⟩
  · change (getNextConnId rand).length < maxConnIdLen
    rw [getNextConnId, List.length_map, List.length_range]
    decide
  · change (decimal timesec).length ≤ 20
    rw [decimal, List.length_map]
    exact (Nat.length_toDigits_le_iff (by decide) (by decide)).mpr (htime.trans (by norm_num))

/-- A CONNECT packet of fields that fit is written. -/
theorem serializeConnectPacket_fits {ctx : ConnectContext} (h : FieldsFit o ctx) :
    ∃ packet, serializeConnectPacket mqttTxBufLen o ctx = .ok packet := by
  have hrem : getPacketConnectRemLen o ctx ≤ 348 := by
    have hid := h.clientId
    have huser := h.username_length
    have hfixed : (if o.mqttVersion = 3 then 12 else if o.mqttVersion = 4 then 10 else 0) ≤ 12 := by
      split_ifs <;> decide
    unfold maxSizeOfClientId at hid
    unfold getPacketConnectRemLen
    generalize (if o.mqttVersion = 3 then 12 else if o.mqttVersion = 4 then 10 else 0) = fixed at *
    split
    · rename_i password hp
      have hlen := password_length hp
      change fixed + (o.clientId.length + 2) + ((o.username ctx).length + 2) + (password.length + 2) ≤ _
      omega
    · omega
  have hword : (UInt32.ofNat (getPacketConnectRemLen o ctx)).toNat = getPacketConnectRemLen o ctx :=
    UInt32.toNat_ofNat_of_lt' (show _ < 2 ^ 32 by omega)
  have hroom : ¬ getMqttPacketLen (getPacketConnectRemLen o ctx) > mqttTxBufLen := by
    unfold getMqttPacketLen mqttTxBufLen
    dsimp only
    split_ifs <;> omega
  unfold serializeConnectPacket
  dsimp only
  rw [hword, if_neg hroom]
  exact ⟨_, rfl⟩

/-- **A server that knows the secret** reads the CONNECT packet of a device and finds the client id, and
the signature of the user name that is made of it and the time. -/
theorem connect_signed {w : Nat} (hw : 16 ≤ w) (hlen : secret.length ≤ decodePskLength)
    (hsecret : o.deviceSecret = pskDecode w (base64 secret)) (hid : o.clientId.length ≤ maxSizeOfClientId)
    (htime : timesec < 2 ^ 63) (rand : Nat → Nat) : ∃ packet p,
    serializeConnectPacket mqttTxBufLen o (.drawn rand timesec (some connectSign)) = .ok packet ∧
      readConnect packet = some p ∧ Signed secret p ∧ p.clientId = o.clientId ∧
      p.userName = some (o.clientId ++ chars ";21010406;" ++ getNextConnId rand ++ chars ";" ++
        decimal timesec) := by
  rw [pskDecode_base64 hw hlen] at hsecret
  have hfits := fieldsFit_drawn rand hid htime (some connectSign)
  obtain ⟨packet, hok⟩ := serializeConnectPacket_fits hfits
  have hform := connect_wellFormed hid htime (fun _ => by rw [hsecret]; rfl) hok
  have happ : chars ";21010406;" = chars ";" ++ chars "21010406" ++ chars ";" := rfl
  refine ⟨packet, _, hok, hform.read, (signed_iff hsecret hfits).mpr (Nat.le_trans hlen (by decide)), rfl,
    ?_⟩
  rw [happ]
  simp only [ConnectOptions.fields, ConnectContext.drawn, List.append_assoc]

/-- The device "a" with the secret "s". -/
theorem connect_signed_device : ∃ packet p,
    serializeConnectPacket mqttTxBufLen deviceOptions (.drawn (fun _ => 0) 7 (some connectSign)) =
        .ok packet ∧
      readConnect packet = some p ∧ Signed [115] p ∧ p.clientId = [97] ∧
      p.userName = some ([97] ++ chars ";21010406;" ++ getNextConnId (fun _ => 0) ++ chars ";" ++
        decimal 7) :=
  connect_signed (o := deviceOptions) (w := 32) (by decide) (by decide)
    (pskDecode_base64 (by decide) (by decide)).symm (by decide) (by decide) _

end QcloudIot.Mqtt
