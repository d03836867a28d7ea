import QcloudIot.Ota.Inbound
import QcloudIot.Utils.Md5Finish

/-!
# The check of a firmware

`IOT_OTA_Ioctl` (`ota_client.c`) and the report it makes of a digest that does not match. Checking
finishes the digest in the handle, and the next check finishes it again.

* The `NULL` handle and buffer are turned away at once and are left out. A result `none` is a crash: a
  `NULL` version copied, or a `NULL` MD5 handle finished.
* `check_match_iff`: when a check reports a match, and what it leaves;
* **`check_not_repeatable`**: behind a check that reports a match the later ones do not all do so.
-/

namespace QcloudIot.Ota

open Lib Utils

/-! ## Reports -/

def iotOtaErrNomem : Int := -9

/-- `OTA_VERSION_STR_LEN_MIN` and `OTA_VERSION_STR_LEN_MAX`. -/
def otaVersionStrLenMin : Nat := 1
def otaVersionStrLenMax : Nat := 32

/-- `IOT_OTAReportType`. -/
inductive OtaReportType where
  | downloadTimeout | fileNotExist | authFail | md5NotMatch | upgradeFail | none | downloadBegin
  | downloading | upgradeBegin | upgradeSuccess
  deriving DecidableEq, Repr

/-- What a report meets: memory, and the results of building the message and of sending it. -/
structure ReportEnv where
  alloc : Bool
  gen : Int
  sent : Int
  deriving DecidableEq, Repr

namespace OtaHandle

/-- `IOT_OTA_ReportUpgradeResult`: what it returns, whether a message is sent, and the handle. -/
def reportUpgradeResult (h : OtaHandle) (version : Option Bytes) (reportType : OtaReportType)
    (env : ReportEnv) : Int × Bool × OtaHandle :=
  match version with
  | none => (iotOtaErrInvalidParam, false, h)
  | some version =>
    if h.state = .uninited then (qcloudErrFailure, false, { h with err := iotOtaErrInvalidState })
    else if version.length < otaVersionStrLenMin ∨ version.length > otaVersionStrLenMax then
      (qcloudErrFailure, false, { h with err := iotOtaErrInvalidParam })
    else if ¬ env.alloc then (qcloudErrFailure, false, { h with err := iotOtaErrNomem })
    else if env.gen ≠ 0 then (qcloudErrFailure, false, { h with err := env.gen })
    else if 0 > env.sent then (qcloudErrFailure, true, { h with err := env.sent })
    else if reportType = .upgradeFail ∨ reportType = .upgradeSuccess ∨ reportType = .md5NotMatch then
      (env.sent, true, h.resetStatus)
    else (env.sent, true, h)

end OtaHandle

/-! ## The commands -/

/-- `IOT_OTA_CmdType`; `other` is none of the commands. -/
inductive OtaCmdType where
  | fetchedSize | fileSize | md5sum | version | checkFirmware | other
  deriving DecidableEq, Repr

/-- What is written to the buffer. -/
inductive IoctlOut where
  | untouched
  | number (n : UInt32)
  | text (bytes : Bytes)
  deriving DecidableEq, Repr

/-- What `IOT_OTA_Ioctl` does: the value returned, the buffer, whether a report is sent, and the
handle. -/
structure IoctlResult where
  ret : Int
  out : IoctlOut
  reported : Bool
  handle : OtaHandle

/-- `strncpy` of a string to a buffer of `bufLen` bytes, whose last byte is then set to zero. -/
def copyOut (s : Bytes) (bufLen : Nat) : Bytes :=
  (s ++ List.replicate bufLen 0).take (bufLen - 1) ++ [0]

namespace OtaHandle

/-- The C string in `md5sum`. -/
def md5Text (h : OtaHandle) : Bytes := h.md5sum.takeWhile (· ≠ 0)

/-- The check of `IOT_OTAG_CHECK_FIRMWARE`. -/
def checkFirmware (h : OtaHandle) (env : ReportEnv) : Option IoctlResult :=
  match h.md5 with
  | none => none
  | some ctx =>
    let md5Str := qcloudOtalibMd5Finalize ctx
    let h := { h with md5 := some (utilsMd5FinishContext ctx) }
    if h.md5Text = md5Str then some ⟨0, .number 1, false, h⟩
    else
      let report := h.reportUpgradeResult h.version .md5NotMatch env
      some ⟨0, .number 0, report.2.1, report.2.2⟩

/-- `IOT_OTA_Ioctl`; `aligned` is what the code asks of the address of the buffer. -/
def ioctl (h : OtaHandle) (type : OtaCmdType) (bufLen : Nat) (aligned : Bool) (env : ReportEnv) :
    Option IoctlResult :=
  if bufLen = 0 then some ⟨iotOtaErrInvalidParam, .untouched, false, h⟩
  else if h.state.code < OtaState.fetching.code then
    some ⟨iotOtaErrInvalidState, .untouched, false, { h with err := iotOtaErrInvalidState }⟩
  else
    let invalidParam : IoctlResult :=
      ⟨qcloudErrFailure, .untouched, false, { h with err := iotOtaErrInvalidParam }⟩
    match type with
    | .fetchedSize =>
      if bufLen ≠ 4 ∨ ¬ aligned then some invalidParam
      else some ⟨0, .number h.sizeFetched, false, h⟩
    | .fileSize =>
      if bufLen ≠ 4 ∨ ¬ aligned then some invalidParam
      else some ⟨0, .number h.sizeFile, false, h⟩
    | .version => h.version.map fun version => ⟨0, .text (copyOut version bufLen), false, h⟩
    | .md5sum => some ⟨0, .text (copyOut h.md5Text bufLen), false, h⟩
    | .checkFirmware =>
      if bufLen ≠ 4 ∨ ¬ aligned then some invalidParam
      else if h.state ≠ .fetched then
        some ⟨qcloudErrFailure, .untouched, false, { h with err := iotOtaErrInvalidState }⟩
      else h.checkFirmware env
    | .other => some invalidParam

/-- A check as an application makes it. -/
def check (h : OtaHandle) (env : ReportEnv) : Option IoctlResult := h.ioctl .checkFirmware 4 true env

/-- The check made again and again. -/
def checks (h : OtaHandle) : List ReportEnv → Option (List IoctlResult)
  | [] => some []
  | env :: envs => (h.check env).bind fun r => (r.handle.checks envs).map (r :: ·)

/-! ## What a check leaves -/

/-- **A check that reports a match.** -/
theorem check_match_iff {h : OtaHandle} {env : ReportEnv} {r : IoctlResult} :
    h.check env = some r ∧ r.out = .number 1 ↔ h.state = .fetched ∧ ∃ ctx, h.md5 = some ctx ∧
      h.md5Text = qcloudOtalibMd5Finalize ctx ∧
      r = ⟨0, .number 1, false, { h with md5 := some (utilsMd5FinishContext ctx) }⟩ := by
  constructor
  · rintro ⟨hcheck, hmatch⟩
    unfold check ioctl at hcheck
    rw [if_neg (by decide)] at hcheck
    split at hcheck
    · cases hcheck
      cases hmatch
    simp only at hcheck
    rw [if_neg (by decide)] at hcheck
    split at hcheck
    · cases hcheck
      cases hmatch
    rename_i hstate
    refine ⟨not_not.mp hstate, ?_⟩
    unfold checkFirmware at hcheck
    split at hcheck
    · cases hcheck
    rename_i ctx hmd5
    simp only at hcheck
    split at hcheck
    · rename_i heq
      cases hcheck
      exact ⟨ctx, hmd5, heq, rfl⟩
    · cases hcheck
      cases hmatch
  · rintro ⟨hstate, ctx, hmd5, heq, rfl⟩
    refine ⟨?_, rfl⟩
    rw [check, ioctl, if_neg (by decide), if_neg (by rw [hstate]; decide)]
    simp only
    rw [if_neg (by decide), if_neg (not_not.mpr hstate), checkFirmware, hmd5]
    exact if_pos heq

/-- Checks that all report a match have finished one digest after the other. -/
theorem checks_match {h : OtaHandle} {ctx : Md5Context} (hmd5 : h.md5 = some ctx)
    {envs : List ReportEnv} {rs : List IoctlResult} (hchecks : h.checks envs = some rs)
    (hmatch : ∀ r ∈ rs, r.out = .number 1) :
    ∀ k < envs.length, qcloudOtalibMd5Finalize (utilsMd5FinishContext^[k] ctx) = h.md5Text := by
  induction envs generalizing h ctx rs with
  | nil => exact fun k hk => absurd hk (Nat.not_lt_zero k)
  | cons env envs ih =>
    obtain ⟨r, hcheck, hmap⟩ := Option.bind_eq_some_iff.mp hchecks
    obtain ⟨rest, hrest, rfl⟩ := Option.map_eq_some_iff.mp hmap
    obtain ⟨-, ctx', hctx, heq, rfl⟩ := check_match_iff.mp ⟨hcheck, hmatch r List.mem_cons_self⟩
    cases hmd5.symm.trans hctx
    intro k hk
    cases k with
    | zero => exact heq.symm
    | succ k =>
      rw [Function.iterate_succ_apply]
      exact ih (h := { h with md5 := some (utilsMd5FinishContext ctx) }) rfl hrest
        (fun r' hr' => hmatch r' (List.mem_cons_of_mem _ hr')) k (Nat.lt_of_succ_lt_succ hk)

end OtaHandle

/-! ## The check repeated -/

/-- The number a character of `utils_hb2hex` stands for. -/
def hexDigit (c : UInt8) : UInt8 := if c < 58 then c - 48 else c - 87

/-- The two characters of a byte, read back. -/
theorem hexDigit_hb2hex (b : UInt8) :
    hexDigit (utilsHb2hex (b >>> 4)) <<< 4 ||| hexDigit (utilsHb2hex b) = b :=
  forall_byte (P := fun b => hexDigit (utilsHb2hex (b >>> 4)) <<< 4 ||| hexDigit (utilsHb2hex b) = b)
    (by decide +kernel) b

/-- The characters of a digest give it away. -/
theorem finalize_inj {ctx ctx' : Md5Context}
    (h : qcloudOtalibMd5Finalize ctx = qcloudOtalibMd5Finalize ctx') :
    utilsMd5Finish ctx = utilsMd5Finish ctx' := by
  unfold qcloudOtalibMd5Finalize at h
  generalize utilsMd5Finish ctx = bs, utilsMd5Finish ctx' = bs' at h
  induction bs generalizing bs' with
  | nil =>
    cases bs' with
    | nil => rfl
    | cons b' bs' => cases h
  | cons b bs ih =>
    cases bs' with
    | nil => cases h
    | cons b' bs' =>
      obtain ⟨hhigh, h⟩ := List.cons.inj h
      obtain ⟨hlow, h⟩ := List.cons.inj h
      rw [ih bs' h, ← hexDigit_hb2hex b, ← hexDigit_hb2hex b', hhigh, hlow]

/-- What a check does that is made again behind one that has reported a match: a match again, no report,
and the firmware as it was. -/
structure SameVerdict (h : OtaHandle) (r : IoctlResult) : Prop where
  verdict : r.ret = 0 ∧ r.out = .number 1
  noReport : r.reported = false
  state : r.handle.state = h.state
  purl : r.handle.purl = h.purl
  version : r.handle.version = h.version
  md5sum : r.handle.md5sum = h.md5sum
  sizeFile : r.handle.sizeFile = h.sizeFile

/-- **No check is repeatable.** -/
theorem check_not_repeatable {h : OtaHandle} {env : ReportEnv} {r : IoctlResult}
    (hcheck : h.check env = some r) (hmatch : r.out = .number 1) :
    ¬ ∀ envs, ∃ rs, r.handle.checks envs = some rs ∧ ∀ r' ∈ rs, SameVerdict h r' := by
  intro hall
  obtain ⟨-, ctx, hmd5, heq, rfl⟩ := OtaHandle.check_match_iff.mp ⟨hcheck, hmatch⟩
  refine finish_changes ctx fun n => finalize_inj ?_
  rw [← heq]
  obtain _ | n := n
  · exact heq.symm
  · obtain ⟨rs, hchecks, hsame⟩ := hall (List.replicate (n + 1) env)
    exact OtaHandle.checks_match rfl hchecks (fun r' hr' => (hsame r' hr').verdict.2) n
      (by rw [List.length_replicate]; exact Nat.lt_succ_self n)

/-! ## An empty file -/

/-- A file of no bytes that is fetched, with the digest it has. -/
def emptyFetched : OtaHandle :=
  { OtaHandle.init with
    state := .fetched, purl := some (str "u"), version := some (str "1"),
    md5sum := str "d41d8cd98f00b204e9800998ecf8427e" ++ [0] }

theorem empty_not_repeatable :
    ¬ ∀ envs, ∃ rs, { emptyFetched with
      md5 := some (utilsMd5FinishContext utilsMd5Starts) }.checks envs = some rs ∧
        ∀ r' ∈ rs, SameVerdict emptyFetched r' := by
  have hcheck : emptyFetched.check ⟨true, 0, 0⟩ = some ⟨0, .number 1, false,
      { emptyFetched with md5 := some (utilsMd5FinishContext utilsMd5Starts) }⟩ :=
    (OtaHandle.check_match_iff.mpr ⟨rfl, utilsMd5Starts, rfl, by decide +kernel, rfl⟩).1
  exact check_not_repeatable hcheck rfl

/-- The second check of the file finds no match, and resets the handle. -/
theorem second_check_fails :
    (emptyFetched.check ⟨true, 0, 0⟩).map (·.out) = some (.number 1) ∧
      ((emptyFetched.check ⟨true, 0, 0⟩).bind fun r => (r.handle.check ⟨true, 0, 0⟩).map fun r' =>
        (r'.out, r'.reported, r'.handle.state, r'.handle.purl)) =
          some (.number 0, true, .inited, none) := by
  constructor
  · decide +kernel
  · decide +kernel

end QcloudIot.Ota
