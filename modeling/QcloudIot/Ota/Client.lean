import QcloudIot.Utils.Md5

/-!
# The OTA client

`ota_client.c`: the handle with what a message from the OTA topic, a download and the reports do to
it.

* A `NULL` handle or buffer is turned away at once and is left out, as are the message id and the
  channel for reports.
* What the parser finds in a message is an `OtaMessage`; `qcloud_ofc_connect` and `qcloud_ofc_fetch`
  answer through `StartEnv` and `FetchEnv`, and so does sending a report.
* A result `none` is a crash: a `NULL` channel or MD5 handle that is used, or a file size of zero to
  divide by.
-/

namespace QcloudIot.Ota

open Utils

/-! ## Codes -/

def qcloudRetSuccess : Int := 0

def qcloudErrFailure : Int := -1001

/-- `IOT_OTA_Error_Code`. -/
def iotOtaErrInvalidParam : Int := -2
def iotOtaErrInvalidState : Int := -3
def iotOtaErrFetchFailed : Int := -5
def iotOtaErrFetchNotExist : Int := -6
def iotOtaErrFetchAuthFail : Int := -7
def iotOtaErrFetchTimeout : Int := -8
def iotOtaErrReportVersion : Int := -11

/-- `IOT_OTA_State_Code`. -/
inductive OtaState where
  | uninited | inited | fetching | fetched | disconnected
  deriving DecidableEq, Repr

/-- Its number, by which states are compared. -/
def OtaState.code : OtaState → Nat
  | .uninited => 0
  | .inited => 1
  | .fetching => 2
  | .fetched => 3
  | .disconnected => 4

/-! ## The handle -/

/-- `OTAHTTPStruct`, as far as the client knows it: where in the file the next byte comes from. -/
structure FetchChannel where
  position : Nat
  deriving DecidableEq, Repr

/-- `OTA_Struct_t`. -/
structure OtaHandle where
  state : OtaState
  sizeLastFetched : UInt32
  sizeFetched : UInt32
  sizeFile : UInt32
  purl : Option Bytes
  version : Option Bytes
  md5sum : Bytes
  md5 : Option Md5Context
  chFetch : Option FetchChannel
  err : Int

namespace OtaHandle

/-- `IOT_OTA_Init`. -/
def init : OtaHandle where
  state := .inited
  sizeLastFetched := 0
  sizeFetched := 0
  sizeFile := 0
  purl := none
  version := none
  md5sum := .replicate 33 0
  md5 := some utilsMd5Starts
  chFetch := none
  err := 0

end OtaHandle

/-! ## What the client meets -/

/-- What `qcloud_otalib_get_params` looks up, one by one, and finds or not. -/
structure UpdateParams where
  version : Option Bytes
  url : Option Bytes
  md5 : Option Bytes
  fileSize : Option UInt32
  deriving DecidableEq, Repr

/-- What `_ota_callback` makes of a message: nothing of interest (or nothing readable), the answer to
a reported version, or a new firmware. -/
inductive OtaMessage where
  | other
  | reportVersionRsp (success : Bool)
  | updateFirmware (params : UpdateParams)
  deriving DecidableEq, Repr

/-- What `IOT_OTA_StartDownload` meets: memory for the MD5 handle and for the channel, and the result
of connecting. -/
structure StartEnv where
  md5Alloc : Bool
  fetchAlloc : Bool
  connect : Int
  deriving DecidableEq, Repr

/-- What `qcloud_ofc_fetch` returns: an error, or the bytes it has put in the buffer. -/
inductive Fetched where
  | error (code : Int) (negative : code < 0)
  | data (bytes : Bytes)
  deriving DecidableEq, Repr

/-- The bytes in the buffer. -/
def Fetched.bytes : Fetched → Bytes
  | .error _ _ => []
  | .data bytes => bytes

/-- What `IOT_OTA_FetchYield` meets: the fetch, whether `report_timer` has expired, and what becomes
of the reports. -/
structure FetchEnv where
  fetched : Fetched
  expired : Bool
  reportBegin : Int
  reportPercent : Int
  deriving DecidableEq, Repr

namespace OtaHandle

/-! ## Messages -/

/-- `qcloud_otalib_get_params` on the fields of the handle. A value found is stored before the next
is looked up; the digest is copied without an end. -/
def getParams (h : OtaHandle) (p : UpdateParams) : Bool × OtaHandle :=
  let h := { h with version := p.version }
  if p.version = none then (false, h)
  else
    let h := { h with purl := p.url }
    if p.url = none then (false, h)
    else
      match p.md5 with
      | none => (false, h)
      | some md5 =>
        let h := { h with md5sum := md5 ++ h.md5sum.drop md5.length }
        match p.fileSize with
        | none => (false, h)
        | some size => (true, { h with sizeFile := size })

/-- `_ota_callback`. -/
def otaCallback (h : OtaHandle) (m : OtaMessage) : OtaHandle :=
  if OtaState.fetching.code ≤ h.state.code then h
  else
    match m with
    | .other => h
    | .reportVersionRsp success =>
      if success then h else { h with err := iotOtaErrReportVersion, state := .fetched }
    | .updateFirmware params =>
      let (ok, h) := h.getParams params
      if ok then { h with state := .fetching } else h

/-! ## Reports -/

/-- `IOT_OTA_ResetStatus`. -/
def resetStatus (h : OtaHandle) : OtaHandle :=
  { h with state := .inited, err := 0, purl := none, version := none }

/-- `IOT_OTA_ReportProgress`; `outcome` is zero or the error of allocating, building or sending the
message. -/
def reportProgress (h : OtaHandle) (progress : Int) (outcome : Int) : OtaHandle :=
  if h.state = .uninited then { h with err := iotOtaErrInvalidState }
  else if ¬ (-4 ≤ progress ∧ progress ≤ 100) then { h with err := iotOtaErrInvalidParam }
  else if outcome ≠ 0 then { h with err := outcome }
  else h

/-! ## Downloads -/

/-- `IOT_OTA_ResetClientMD5`; `alloc` says whether there is memory. -/
def resetClientMd5 (h : OtaHandle) (alloc : Bool) : Int × OtaHandle :=
  if alloc then (qcloudRetSuccess, { h with md5 := some utilsMd5Starts })
  else (qcloudErrFailure, { h with md5 := none })

/-- `IOT_OTA_UpdateClientMd5`, the same as `qcloud_otalib_md5_update` on the handle. -/
def updateClientMd5 (h : OtaHandle) (buff : Bytes) : Option OtaHandle :=
  match h.md5 with
  | some ctx => some { h with md5 := some (utilsMd5Update ctx buff) }
  | none => if buff = [] then some h else none

/-- `IOT_OTA_StartDownload`, from the new channel on. -/
def openFetch (h : OtaHandle) (offset : UInt32) (env : StartEnv) : Int × OtaHandle :=
  if env.fetchAlloc then
    let h := { h with chFetch := some ⟨offset.toNat⟩ }
    if env.connect = qcloudRetSuccess then (env.connect, h)
    else (env.connect, { h with state := .disconnected })
  else (qcloudErrFailure, { h with chFetch := none })

/-- `IOT_OTA_StartDownload`. -/
def startDownload (h : OtaHandle) (offset : UInt32) (env : StartEnv) : Int × OtaHandle :=
  let h := { h with sizeFetched := offset }
  if offset = 0 then
    let (ret, h) := h.resetClientMd5 env.md5Alloc
    if ret ≠ qcloudRetSuccess then (qcloudErrFailure, h) else h.openFetch offset env
  else h.openFetch offset env

/-- The error recorded after a fetch has failed. -/
def fetchError (code : Int) : Int :=
  if code = iotOtaErrFetchAuthFail then code
  else if code = iotOtaErrFetchNotExist then code
  else if code = iotOtaErrFetchTimeout then code
  else iotOtaErrFetchFailed

/-- The report of the percentage. -/
def reportPercent (h : OtaHandle) (env : FetchEnv) : OtaHandle :=
  let percent := h.sizeFetched * 100 / h.sizeFile
  if percent = 100 ∨ (h.sizeLastFetched > 0 ∧ env.expired) then
    h.reportProgress percent.toBitVec.toInt env.reportPercent
  else h

/-- `IOT_OTA_FetchYield`. -/
def fetchYield (h : OtaHandle) (bufLen : UInt32) (env : FetchEnv) : Option (Int × OtaHandle) :=
  if bufLen = 0 then some (iotOtaErrInvalidParam, h)
  else if h.state ≠ .fetching then
    some (iotOtaErrInvalidState, { h with err := iotOtaErrInvalidState })
  else
    match h.chFetch with
    | none => none
    | some ch =>
      match env.fetched with
      | .error code _ => some (code, { h with state := .fetched, err := fetchError code })
      | .data bytes =>
        let h := if h.sizeFetched = 0 then h.reportProgress 0 env.reportBegin else h
        let h : OtaHandle := { h with
          chFetch := some ⟨ch.position + bytes.length⟩
          sizeLastFetched := UInt32.ofNat bytes.length
          sizeFetched := h.sizeFetched + UInt32.ofNat bytes.length }
        if h.sizeFile = 0 then none
        else
          let h := h.reportPercent env
          let h := if h.sizeFile ≤ h.sizeFetched then { h with state := .fetched } else h
          (h.updateClientMd5 bytes).map fun h => (bytes.length, h)

/-! ## What a step leaves alone -/

/-- A report sets the error code and nothing else. -/
theorem reportProgress_eq (h : OtaHandle) (progress outcome : Int) :
    ∃ err, h.reportProgress progress outcome = { h with err := err } := by
  unfold reportProgress
  split
  · exact ⟨_, rfl⟩
  split
  · exact ⟨_, rfl⟩
  split
  · exact ⟨_, rfl⟩
  · exact ⟨h.err, rfl⟩

theorem reportPercent_eq (h : OtaHandle) (env : FetchEnv) :
    ∃ err, h.reportPercent env = { h with err := err } := by
  unfold reportPercent
  simp only
  split
  · exact reportProgress_eq h _ _
  · exact ⟨h.err, rfl⟩

theorem getParams_eq (h : OtaHandle) (p : UpdateParams) :
    (h.getParams p).2.md5 = h.md5 ∧ (h.getParams p).2.sizeFetched = h.sizeFetched ∧
      (h.getParams p).2.chFetch = h.chFetch := by
  unfold getParams
  simp only
  split
  · exact ⟨rfl, rfl, rfl⟩
  split
  · exact ⟨rfl, rfl, rfl⟩
  split
  · exact ⟨rfl, rfl, rfl⟩
  split
  · exact ⟨rfl, rfl, rfl⟩
  · exact ⟨rfl, rfl, rfl⟩

/-- A message touches neither the digest nor the download. -/
theorem otaCallback_eq (h : OtaHandle) (m : OtaMessage) :
    (h.otaCallback m).md5 = h.md5 ∧ (h.otaCallback m).sizeFetched = h.sizeFetched ∧
      (h.otaCallback m).chFetch = h.chFetch := by
  unfold otaCallback
  split
  · exact ⟨rfl, rfl, rfl⟩
  cases m with
  | other => exact ⟨rfl, rfl, rfl⟩
  | reportVersionRsp success => cases success <;> exact ⟨rfl, rfl, rfl⟩
  | updateFirmware params =>
    simp only
    split
    · exact h.getParams_eq params
    · exact h.getParams_eq params

theorem updateClientMd5_eq {h h' : OtaHandle} {buff : Bytes}
    (hupdate : h.updateClientMd5 buff = some h') :
    h' = { h with md5 := h.md5.map (utilsMd5Update · buff) } ∧ (h.md5 = none → buff = []) := by
  unfold updateClientMd5 at hupdate
  split at hupdate
  · rename_i ctx hmd5
    rw [hmd5]
    exact ⟨(Option.some.inj hupdate).symm, nofun⟩
  · rename_i hmd5
    split at hupdate
    · rename_i hempty
      rw [hmd5]
      cases hupdate
      exact ⟨congrArg (fun md5 => { h with md5 := md5 }) hmd5, fun _ => hempty⟩
    · cases hupdate

theorem openFetch_eq (h : OtaHandle) (offset : UInt32) (env : StartEnv) :
    (h.openFetch offset env).2.sizeFetched = h.sizeFetched ∧
      (h.openFetch offset env).2.md5 = h.md5 ∧
      ∀ ch, (h.openFetch offset env).2.chFetch = some ch → ch.position = offset.toNat := by
  unfold openFetch
  split
  · simp only
    split
    · exact ⟨rfl, rfl, fun ch hch => by cases hch; rfl⟩
    · exact ⟨rfl, rfl, fun ch hch => by cases hch; rfl⟩
  · exact ⟨rfl, rfl, fun ch hch => nomatch hch⟩

/-- What the start of a download sets: the digest starts again at offset zero alone, and the channel
stands at the offset unless there is no digest. -/
theorem startDownload_eq (h : OtaHandle) (offset : UInt32) (env : StartEnv) :
    (h.startDownload offset env).2.sizeFetched = offset ∧
      (h.startDownload offset env).2.md5 =
        (if offset = 0 then (h.resetClientMd5 env.md5Alloc).2.md5 else h.md5) ∧
      ((h.startDownload offset env).2.md5 ≠ none →
        ∀ ch, (h.startDownload offset env).2.chFetch = some ch → ch.position = offset.toNat) := by
  by_cases hzero : offset = 0
  · cases halloc : env.md5Alloc with
    | true =>
      have hopen := openFetch_eq { h with sizeFetched := offset, md5 := some utilsMd5Starts }
        offset env
      simp only [startDownload, resetClientMd5, if_pos hzero, halloc]
      exact ⟨hopen.1, hopen.2.1, fun _ => hopen.2.2⟩
    | false =>
      simp only [startDownload, resetClientMd5, if_pos hzero, halloc]
      exact ⟨rfl, rfl, fun h => absurd rfl h⟩
  · have hopen := openFetch_eq { h with sizeFetched := offset } offset env
    simp only [startDownload, if_neg hzero]
    exact ⟨hopen.1, hopen.2.1, fun _ => hopen.2.2⟩

/-- **What a fetch does**: nothing to the download, or the bytes go to the counters, the state and
the digest. -/
theorem fetchYield_cases {h h' : OtaHandle} {bufLen : UInt32} {env : FetchEnv} {ret : Int}
    (hyield : h.fetchYield bufLen env = some (ret, h')) :
    ret < 0 ∧ h'.md5 = h.md5 ∧ h'.sizeFetched = h.sizeFetched ∧ h'.chFetch = h.chFetch ∨
    ∃ ch bytes, h.chFetch = some ch ∧ env.fetched = .data bytes ∧ ret = bytes.length ∧
      h'.sizeFile = h.sizeFile ∧ h'.sizeFetched = h.sizeFetched + UInt32.ofNat bytes.length ∧
      h'.chFetch = some ⟨ch.position + bytes.length⟩ ∧
      (h'.state = .fetched ↔ h'.sizeFile ≤ h'.sizeFetched) ∧
      h'.md5 = h.md5.map (utilsMd5Update · bytes) ∧ (h.md5 = none → bytes = []) := by
  unfold fetchYield at hyield
  split at hyield
  · cases hyield
    exact .inl ⟨by decide, rfl, rfl, rfl⟩
  split at hyield
  · cases hyield
    exact .inl ⟨by decide, rfl, rfl, rfl⟩
  rename_i hstate
  split at hyield
  · cases hyield
  rename_i ch hch
  split at hyield
  · rename_i code hneg hfetched
    cases hyield
    exact .inl ⟨hneg, rfl, rfl, rfl⟩
  rename_i bytes hfetched
  right
  refine ⟨ch, bytes, hch, hfetched, ?_⟩
  have hbegin : ∃ err, (if h.sizeFetched = 0 then h.reportProgress 0 env.reportBegin else h) =
      { h with err := err } := by
    split
    · exact reportProgress_eq h _ _
    · exact ⟨h.err, rfl⟩
  obtain ⟨e, hbegin⟩ := hbegin
  simp only [hbegin] at hyield
  split at hyield
  · cases hyield
  obtain ⟨e', hpercent⟩ := reportPercent_eq { h with
    err := e, chFetch := some ⟨ch.position + bytes.length⟩,
    sizeLastFetched := UInt32.ofNat bytes.length,
    sizeFetched := h.sizeFetched + UInt32.ofNat bytes.length } env
  rw [hpercent] at hyield
  simp only at hyield
  obtain ⟨h'', hupdate, heq⟩ := Option.map_eq_some_iff.mp hyield
  have hstate : h.state = .fetching := Decidable.not_not.mp hstate
  cases heq
  by_cases hreached : h.sizeFile ≤ h.sizeFetched + UInt32.ofNat bytes.length
  · rw [if_pos hreached] at hupdate
    obtain ⟨rfl, hempty⟩ := updateClientMd5_eq hupdate
    exact ⟨rfl, rfl, rfl, rfl, ⟨fun _ => hreached, fun _ => rfl⟩, rfl, hempty⟩
  · rw [if_neg hreached] at hupdate
    obtain ⟨rfl, hempty⟩ := updateClientMd5_eq hupdate
    exact ⟨rfl, rfl, rfl, rfl, ⟨fun hf => absurd (hstate.symm.trans hf) (by decide),
      fun hge => absurd hge hreached⟩, rfl, hempty⟩

end OtaHandle

end QcloudIot.Ota
