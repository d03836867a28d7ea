import QcloudIot.Utils.Md5
import QcloudIot.Utils.Sha1

/-!
# Keyed digests

`utils_hmac.c`: three functions with one body, over the contexts of `utils_md5.c` and `utils_sha1.c`. A
NULL pointer is `none`, and for `digest` it is `false`. What they return is what is written to `digest`.

* `hmacPasses_eq`: the two passes are HMAC, for a key that fits a block;
* **`utilsHmac_eq`**: what each of the functions writes; a key that does not fit is not hashed, and
  nothing is written.
-/

namespace QcloudIot.Utils

open Lib

/-! ## The code -/

/-- `KEY_IOPAD_SIZE`. -/
def keyIopadSize : Nat := 64

/-- `k_ipad` or `k_opad`. -/
def keyPad (x : UInt8) (key : Bytes) : Bytes :=
  (key ++ List.replicate (keyIopadSize - key.length) 0).map (· ^^^ x)

/-- The two passes, with the operations of a context: `out`. -/
def hmacPasses {C : Type*} (starts : C) (update : C → Bytes → C) (finish : C → Bytes)
    (msg key : Bytes) : Bytes :=
  let out := finish (update (update starts (keyPad 0x36 key)) msg)
  finish (update (update starts (keyPad 0x5C key)) out)

/-- The checks in front, and what is then written. -/
def hmacChecked (msg : Option Bytes) (digest : Bool) (key : Option Bytes) (write : Bytes → Bytes → Bytes) :
    Option Bytes :=
  match msg, digest, key with
  | some msg, true, some key => if key.length > keyIopadSize then none else some (write msg key)
  | _, _, _ => none

/-- A digest as characters. -/
def hexDigits (out : Bytes) : Bytes :=
  out.flatMap fun (b : UInt8) => [utilsHb2hex (b >>> 4), utilsHb2hex b]

/-- `utils_hmac_md5`. -/
def utilsHmacMd5 (msg : Option Bytes) (digest : Bool) (key : Option Bytes) : Option Bytes :=
  hmacChecked msg digest key fun msg key =>
    hexDigits (hmacPasses utilsMd5Starts utilsMd5Update utilsMd5Finish msg key)

/-- `utils_hmac_sha1`. -/
def utilsHmacSha1 (msg : Option Bytes) (digest : Bool) (key : Option Bytes) : Option Bytes :=
  hmacChecked msg digest key fun msg key =>
    hexDigits (hmacPasses (utilsSha1Starts utilsSha1Init) utilsSha1Update utilsSha1Finish msg key)

/-- `utils_hmac_sha1_hex`, which writes no digits: what it returns, and what it writes. -/
def utilsHmacSha1Hex (msg : Option Bytes) (digest : Bool) (key : Option Bytes) : Nat × Option Bytes :=
  match hmacChecked msg digest key fun msg key =>
      hmacPasses (utilsSha1Starts utilsSha1Init) utilsSha1Update utilsSha1Finish msg key with
  | none => (0, none)
  | some out => (20, some out)

/-! ## The two passes -/

theorem length_keyPad (x : UInt8) {key : Bytes} (h : key.length ≤ keyIopadSize) :
    (keyPad x key).length = keyIopadSize := by
  rw [keyPad, List.length_map, List.length_append, List.length_replicate]
  omega

/-- A key that fits is the key of the block. -/
theorem keyPad_eq (x : UInt8) (hash : Bytes → Bytes) {key : Bytes} (h : key.length ≤ keyIopadSize) :
    keyPad x key = (blockKey hash key).map (· ^^^ x) := by
  have hfits : key.length ≤ 64 := h
  rw [keyPad, blockKey, if_pos hfits]
  rfl

/-- **Two passes** over a hash of two pieces are HMAC. -/
theorem hmacPasses_eq {C : Type*} {starts : C} {update : C → Bytes → C} {finish : C → Bytes}
    (hash : Bytes → Bytes) (hpieces : ∀ a b : Bytes, a.length < 2 ^ 32 → b.length < 2 ^ 32 →
      finish (update (update starts a) b) = hash (a ++ b))
    (hshort : ∀ bs, (hash bs).length < 2 ^ 32) {msg key : Bytes} (hmsg : msg.length < 2 ^ 32)
    (hkey : key.length ≤ keyIopadSize) : hmacPasses starts update finish msg key = hmac hash key msg := by
  have hpad : ∀ x, (keyPad x key).length < 2 ^ 32 := fun x => by
    rw [length_keyPad x hkey]
    decide
  rw [hmacPasses, hpieces _ msg (hpad 0x36) hmsg, hpieces _ _ (hpad 0x5C) (hshort _),
    keyPad_eq 0x36 hash hkey, keyPad_eq 0x5C hash hkey]
  rfl

/-- Two pieces of MD5. -/
theorem utilsMd5_two {a b : Bytes} (ha : a.length < 2 ^ 32) (hb : b.length < 2 ^ 32) :
    utilsMd5Finish (utilsMd5Update (utilsMd5Update utilsMd5Starts a) b) = md5Hash.hash (a ++ b) :=
  ((holds_starts.update ha).update hb).digest

/-- Two pieces of SHA-1. -/
theorem utilsSha1_two {a b : Bytes} (ha : a.length < 2 ^ 32) (hb : b.length < 2 ^ 32) :
    utilsSha1Finish (utilsSha1Update (utilsSha1Update (utilsSha1Starts utilsSha1Init) a) b) =
      Sha1.sha1.hash (a ++ b) := by
  have hlen : ∀ p ∈ [a, b], p.length < 2 ^ 32 :=
    List.forall_mem_cons.mpr ⟨ha, List.forall_mem_singleton.mpr hb⟩
  have h := utilsSha1_pieces utilsSha1Init hlen
  rwa [List.flatten_cons, List.flatten_singleton] at h

theorem length_md5Hash (bs : Bytes) : (md5Hash.hash bs).length = 16 := rfl

theorem length_sha1 (bs : Bytes) : (Sha1.sha1.hash bs).length = 20 := rfl

theorem length_hexDigits (out : Bytes) : (hexDigits out).length = 2 * out.length := by
  induction out with
  | nil => rfl
  | cons b out ih =>
    rw [hexDigits, List.flatMap_cons, List.length_append, List.length_cons]
    have hrest : (out.flatMap fun (b : UInt8) => [utilsHb2hex (b >>> 4), utilsHb2hex b]).length =
        2 * out.length := ih
    rw [hrest]
    exact (Nat.add_comm _ _).trans (Nat.mul_succ 2 out.length).symm

/-- The digits of the HMAC over SHA-1. -/
theorem length_hexHmac (key msg : Bytes) : (hexDigits (hmac Sha1.sha1.hash key msg)).length = 40 := by
  have hhash : (hmac Sha1.sha1.hash key msg).length = 20 := length_sha1 _
  rw [length_hexDigits, hhash]

/-! ## What is written -/

theorem hmacChecked_none {msg key : Option Bytes} {digest : Bool} (write : Bytes → Bytes → Bytes)
    (h : msg = none ∨ digest = false ∨ key = none) : hmacChecked msg digest key write = none := by
  cases msg with
  | none => rfl
  | some msg =>
    cases digest with
    | false => rfl
    | true =>
      cases key with
      | none => rfl
      | some key => simp at h

/-- **What is written**: for a key of up to 64 bytes the HMAC over MD5 in digits, over SHA-1 in digits,
and over SHA-1 as it is; for a longer key, which the standard has hashed first, and where a pointer is
NULL, nothing. -/
theorem utilsHmac_eq (msg : Option Bytes) (digest : Bool) (key : Option Bytes)
    (hmsg : ∀ bs ∈ msg, bs.length < 2 ^ 31) :
    (∀ text k, msg = some text → digest = true → key = some k → k.length ≤ keyIopadSize →
      utilsHmacMd5 msg digest key = some (hexDigits (hmac md5Hash.hash k text)) ∧
      utilsHmacSha1 msg digest key = some (hexDigits (hmac Sha1.sha1.hash k text)) ∧
      utilsHmacSha1Hex msg digest key = (20, some (hmac Sha1.sha1.hash k text))) ∧
    (msg = none ∨ digest = false ∨ (∀ k ∈ key, keyIopadSize < k.length) →
      utilsHmacMd5 msg digest key = none ∧ utilsHmacSha1 msg digest key = none ∧
      utilsHmacSha1Hex msg digest key = (0, none)) := by
  constructor
  · rintro text k rfl rfl rfl hkey
    have htext : text.length < 2 ^ 32 := (hmsg text rfl).trans (by decide)
    have hmd5 := hmacPasses_eq md5Hash.hash (fun _ _ ha hb => utilsMd5_two ha hb)
      (fun bs => by rw [length_md5Hash]; decide) htext hkey
    have hsha1 := hmacPasses_eq Sha1.sha1.hash (fun _ _ ha hb => utilsSha1_two ha hb)
      (fun bs => by rw [length_sha1]; decide) htext hkey
    rw [utilsHmacMd5, utilsHmacSha1, utilsHmacSha1Hex]
    simp only [hmacChecked]
    rw [if_neg (by omega), if_neg (by omega), if_neg (by omega), hmd5, hsha1]
    exact ⟨rfl, rfl, rfl⟩
  · intro h
    have hnone : ∀ write, hmacChecked msg digest key write = none := by
      intro write
      cases key with
      | none => exact hmacChecked_none write (.inr (.inr rfl))
      | some k =>
        rcases h with h | h | hlong
        · exact hmacChecked_none write (.inl h)
        · exact hmacChecked_none write (.inr (.inl h))
        · cases msg with
          | none => rfl
          | some text =>
            cases digest with
            | false => rfl
            | true => exact if_pos (hlong k rfl)
    rw [utilsHmacMd5, utilsHmacSha1, utilsHmacSha1Hex, hnone, hnone, hnone]
    exact ⟨rfl, rfl, rfl⟩

/-- A key of one byte, and one of 65. -/
theorem utilsHmac_short_long :
    utilsHmacSha1 (some [97]) true (some [115]) = some (hexDigits (hmac Sha1.sha1.hash [115] [97])) ∧
    utilsHmacSha1 (some [97]) true (some (List.replicate 65 115)) = none := by
  have hone : ∀ bs ∈ some ([97] : Bytes), bs.length < 2 ^ 31 := by
    intro bs hbs
    rw [← Option.some.inj hbs]
    decide
  have hlong : ∀ k ∈ some (List.replicate 65 (115 : UInt8)), keyIopadSize < k.length := by
    intro k hk
    rw [← Option.some.inj hk, List.length_replicate]
    decide
  exact ⟨((utilsHmac_eq (some [97]) true (some [115]) hone).1 [97] [115] rfl rfl rfl (by decide)).2.1,
    ((utilsHmac_eq (some [97]) true (some (List.replicate 65 115)) hone).2 (.inr (.inr hlong))).2.1⟩

end QcloudIot.Utils
