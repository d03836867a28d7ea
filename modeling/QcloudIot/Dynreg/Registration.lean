import QcloudIot.Dynreg.Request
import QcloudIot.Lib.Packed
import QcloudIot.Mqtt.Signature

/-!
# From a registration to a connection

A device posts its request (`Request`), takes its secret out of the response (`Secret`) and signs its
CONNECT packets with it (`Mqtt.Signature`). A server that knows the product's secret checks the first,
makes the second for a key of its choice, and checks the third by that key.

* `storedSecret_psk`: the string that is left in `device_secret`;
* **`registered_connects`**: the three steps in a row.
-/

namespace QcloudIot.Dynreg

open Lib Utils Mqtt

/-- The string in `device_secret`. -/
def storedSecret (p : Parsed) : Text := upTo 0 p.written

theorem base64_notMem_zero (bytes : Text) : 0 ∉ base64 bytes := fun h =>
  absurd (base64_plain bytes 0 h).2 (by decide)

/-- The string that is left there is the `psk`. -/
theorem storedSecret_psk {psk : Text} (ret : Int) (hnul : 0 ∉ psk)
    (hfits : psk.length ≤ maxSizeOfDeviceSecret) :
    storedSecret ⟨ret, some psk, strncpy psk maxSizeOfDeviceSecret ++ [0]⟩ = psk := by
  have hwritten : strncpy psk maxSizeOfDeviceSecret ++ [0] =
      psk ++ 0 :: List.replicate (maxSizeOfDeviceSecret - psk.length) 0 := by
    rw [strncpy, List.take_of_length_le hfits, List.append_assoc, ← List.replicate_succ',
      List.replicate_succ]
  rw [storedSecret, hwritten, upTo_ended hnul]

/-- A key whose text is a secret fits `psk_decode`. -/
theorem key_fits {key : Text} (h : (base64 key).length ≤ maxSizeOfDeviceSecret) :
    key.length ≤ decodePskLength := by
  rw [length_base64] at h
  unfold maxSizeOfDeviceSecret at h
  unfold decodePskLength
  omega

/-- **The three steps**: the request of a device is authentic; with a response that grants it the text of
a key it keeps that text; and its CONNECT packets are then signed with the key. -/
theorem registered_connects {w : Nat} (hw : 16 ≤ w) (info : DeviceInfo)
    (hsecret : utilsAesBlockLen ≤ info.productSecret.length) {name productId : JsonString}
    (hname : name.bytes = info.deviceName) (hproduct : productId.bytes = info.productId)
    (timeMs timestamp : UInt32) (pow log : Nat → Nat) {s : Aes.AesStatics} (hs : s.Reachable)
    (ctx : Aes.AesContext) {key : Text} {psk : JsonString} (hpsk : psk.bytes = base64 key)
    {jdoc : Response} (hgrants : Grants info.productSecret psk jdoc) {fuel : Nat}
    (hfuel : decodeBuffLen < fuel) :
    (∃ request doc, iotDynRegDevice w info timeMs timestamp = some (.ok request) ∧ request = doc.text ∧
      Authentic info.productSecret doc) ∧
    ∃ p, parseDevinfo w (stackAes pow log s ctx) info.productSecret jdoc fuel = .ok p ∧
      p.ret = qcloudRetSuccess ∧ storedSecret p = base64 key ∧
      ∀ (o : ConnectOptions) (timesec : Nat) (rand : Nat → Nat),
        o.deviceSecret = pskDecode w (storedSecret p) → o.clientId.length ≤ maxSizeOfClientId →
          timesec < 2 ^ 63 → ∃ packet q,
            serializeConnectPacket mqttTxBufLen o (.drawn rand timesec (some connectSign)) = .ok packet ∧
            readConnect packet = some q ∧ Signed key q ∧ q.clientId = o.clientId := by
  obtain ⟨request, doc, hrequest, htext, hauthentic, -, -⟩ :=
    iotDynRegDevice_authentic hw info hsecret hname hproduct timeMs timestamp
  have hfits := hgrants.fits
  have hnul : 0 ∉ psk.bytes := by
    rw [hpsk]
    exact base64_notMem_zero key
  have hstored := storedSecret_psk qcloudRetSuccess hnul hfits
  rw [hpsk] at hstored hfits
  refine ⟨⟨request, doc, hrequest, htext, hauthentic⟩, _,
    parseDevinfo_secret hw pow log hs ctx hgrants hfuel, rfl, by rw [hpsk]; exact hstored, ?_⟩
  intro o timesec rand ho hid htime
  rw [hpsk, hstored] at ho
  obtain ⟨packet, q, hok, hread, hsigned, hclient, -⟩ :=
    connect_signed hw (key_fits hfits) ho hid htime rand
  exact ⟨packet, q, hok, hread, hsigned, hclient⟩

/-- The device "d" of the product "P" with the key `abc`. -/
theorem registered_connects_small :
    (∃ request doc, iotDynRegDevice 32 smallInfo 1 1 = some (.ok request) ∧ request = doc.text ∧
      Authentic exampleSecret doc) ∧
    ∃ p, parseDevinfo 32 (stackAes (fun _ => 0) (fun _ => 0) Aes.startStatics Aes.blankContext)
        exampleSecret ⟨smallReply.text, fun _ => none⟩ 1000 = .ok p ∧
      p.ret = qcloudRetSuccess ∧ storedSecret p = base64 (chars "abc") ∧
      ∀ (o : ConnectOptions) (timesec : Nat) (rand : Nat → Nat),
        o.deviceSecret = pskDecode 32 (storedSecret p) → o.clientId.length ≤ maxSizeOfClientId →
          timesec < 2 ^ 63 → ∃ packet q,
            serializeConnectPacket mqttTxBufLen o (.drawn rand timesec (some connectSign)) = .ok packet ∧
            readConnect packet = some q ∧ Signed (chars "abc") q ∧ q.clientId = o.clientId :=
  registered_connects (by decide) smallInfo (by decide)
    (show (⟨chars "d", rfl⟩ : JsonString).bytes = smallInfo.deviceName from rfl)
    (show (⟨chars "P", rfl⟩ : JsonString).bytes = smallInfo.productId from rfl) 1 1 _ _ Aes.startStatics_reachable _ rfl smallReply_grants (by decide)

end QcloudIot.Dynreg
