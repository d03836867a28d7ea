import QcloudIot.Ota.Inbound

/-!
# The percentage of a download

What `IOT_OTA_FetchYield` computes from `size_fetched` and `size_file` and hands to
`IOT_OTA_ReportProgress`, call by call, in `uint32_t`. The size comes from a message as it is.

* `fetchYieldLog` is `fetchYield` (`fetchYieldLog_snd`) with what it computes;
* `soundLog_yields`: one run, of a file whose hundredfold the download stays below;
* **`progress_iff`**: all downloads of a file are sound iff its size is not zero and a hundred times
  it is a `uint32_t`.
-/

namespace QcloudIot.Ota

open Utils

/-! ## The computation -/

/-- What one call does: it adds the bytes fetched and divides by the size of the file, or reports a
percentage of the bytes counted. -/
inductive ProgressEv where
  | computed (fetched : UInt32) (ret : Nat) (file : UInt32)
  | reported (counted percent : UInt32)
  deriving DecidableEq, Repr

namespace OtaHandle

/-- `IOT_OTA_FetchYield`, with what it computes and reports. -/
def fetchYieldLog (h : OtaHandle) (bufLen : UInt32) (env : FetchEnv) :
    List ProgressEv × Option (Int × OtaHandle) :=
  if bufLen = 0 then ([], some (iotOtaErrInvalidParam, h))
  else if h.state ≠ .fetching then
    ([], some (iotOtaErrInvalidState, { h with err := iotOtaErrInvalidState }))
  else
    match h.chFetch with
    | none => ([], none)
    | some ch =>
      match env.fetched with
      | .error code _ => ([], some (code, { h with state := .fetched, err := fetchError code }))
      | .data bytes =>
        let begun := if h.sizeFetched = 0 then [.reported h.sizeFetched 0] else []
        let log := begun ++ [.computed h.sizeFetched bytes.length h.sizeFile]
        let h := if h.sizeFetched = 0 then h.reportProgress 0 env.reportBegin else h
        let h : OtaHandle := { h with
          chFetch := some ⟨ch.position + bytes.length⟩
          sizeLastFetched := UInt32.ofNat bytes.length
          sizeFetched := h.sizeFetched + UInt32.ofNat bytes.length }
        if h.sizeFile = 0 then (log, none)
        else
          let percent := h.sizeFetched * 100 / h.sizeFile
          let log := if percent = 100 ∨ (h.sizeLastFetched > 0 ∧ env.expired) then
            log ++ [.reported h.sizeFetched percent] else log
          let h := h.reportPercent env
          let h := if h.sizeFile ≤ h.sizeFetched then { h with state := .fetched } else h
          (log, (h.updateClientMd5 bytes).map fun h => (bytes.length, h))

theorem fetchYieldLog_snd (h : OtaHandle) (bufLen : UInt32) (env : FetchEnv) :
    (h.fetchYieldLog bufLen env).2 = h.fetchYield bufLen env := by
  unfold fetchYieldLog fetchYield
  simp only [apply_ite Prod.snd]
  split
  · rfl
  split
  · rfl
  cases h.chFetch with
  | none => rfl
  | some ch =>
    cases env.fetched with
    | error code negative => rfl
    | data bytes => simp only [apply_ite Prod.snd]

/-- What calls one after the other compute; nothing comes after a crash. -/
def yieldsLog (h : OtaHandle) : List (UInt32 × FetchEnv) → List ProgressEv
  | [] => []
  | y :: ys =>
    (h.fetchYieldLog y.1 y.2).1 ++
      match (h.fetchYieldLog y.1 y.2).2 with
      | none => []
      | some r => r.2.yieldsLog ys

/-- The log of a download: `IOT_OTA_StartDownload` at an offset, and calls of
`IOT_OTA_FetchYield`. -/
def downloadLog (h : OtaHandle) (offset : UInt32) (start : StartEnv) (ys : List (UInt32 × FetchEnv)) :
    List ProgressEv :=
  (h.startDownload offset start).2.yieldsLog ys

end OtaHandle

/-- How many bytes calls put into their buffers. -/
def fetchedLength (ys : List (UInt32 × FetchEnv)) : Nat :=
  (ys.map fun y => y.2.fetched.bytes.length).sum

/-! ## What the claim asks of it -/

/-- No division by zero, no sum or product that wraps, and the floor of the percentage. -/
def ProgressEv.Sound (size : Nat) : ProgressEv → Prop
  | .computed fetched ret file =>
    file ≠ 0 ∧ fetched.toNat + ret < 2 ^ 32 ∧ (fetched.toNat + ret) * 100 < 2 ^ 32
  | .reported counted percent => percent.toNat = 100 * counted.toNat / size ∧ percent.toNat ≤ 100

/-- The percentages reported. -/
def percents (log : List ProgressEv) : List Nat :=
  log.filterMap fun
    | .computed .. => none
    | .reported _ percent => some percent.toNat

/-- Every step is sound, and the percentages do not go down. -/
structure SoundLog (size : Nat) (log : List ProgressEv) : Prop where
  sound : ∀ ev ∈ log, ev.Sound size
  ascending : (percents log).Pairwise (· ≤ ·)

/-! ## One call -/

section

variable {h h' : OtaHandle} {bufLen : UInt32} {env : FetchEnv} {size : Nat}

/-- The first report of a download. -/
def beginLog (h : OtaHandle) : List ProgressEv :=
  if h.sizeFetched = 0 then [.reported h.sizeFetched 0] else []

/-- The report of the percentage, where there is one. -/
def percentLog (h : OtaHandle) (ret : Nat) (expired : Bool) : List ProgressEv :=
  let fetched := h.sizeFetched + UInt32.ofNat ret
  let percent := fetched * 100 / h.sizeFile
  if h.sizeFile ≠ 0 ∧ (percent = 100 ∨ (UInt32.ofNat ret > 0 ∧ expired)) then
    [.reported fetched percent] else []

/-- The log of a call that gets data. -/
def dataLog (h : OtaHandle) (ret : Nat) (expired : Bool) : List ProgressEv :=
  beginLog h ++ [.computed h.sizeFetched ret h.sizeFile] ++ percentLog h ret expired

/-- The handle after the first report. -/
theorem begin_eq (h : OtaHandle) (outcome : Int) :
    ∃ err, (if h.sizeFetched = 0 then h.reportProgress 0 outcome else h) = { h with err := err } := by
  split
  · exact OtaHandle.reportProgress_eq h _ _
  · exact ⟨h.err, rfl⟩

theorem fetchYieldLog_data {ch : FetchChannel} {bytes : Bytes} (hlen : bufLen ≠ 0)
    (hstate : h.state = .fetching) (hch : h.chFetch = some ch) (hdata : env.fetched = .data bytes) :
    (h.fetchYieldLog bufLen env).1 = dataLog h bytes.length env.expired := by
  unfold OtaHandle.fetchYieldLog
  obtain ⟨err, hbegin⟩ := begin_eq h env.reportBegin
  rw [if_neg hlen, if_neg (not_not.mpr hstate)]
  simp only [hch, hdata, hbegin, dataLog, beginLog, percentLog]
  by_cases hzero : h.sizeFile = 0
  · simp only [hzero, if_true, ne_eq, not_true_eq_false, false_and, if_false, List.append_nil]
  · simp only [hzero, if_false, ne_eq, not_false_eq_true, true_and]
    split
    · rfl
    · rw [List.append_nil]

/-- A call without data computes nothing. -/
theorem fetchYieldLog_cases (h : OtaHandle) (bufLen : UInt32) (env : FetchEnv) :
    (h.fetchYieldLog bufLen env).1 = [] ∨
      (h.fetchYieldLog bufLen env).1 = dataLog h env.fetched.bytes.length env.expired := by
  by_cases hlen : bufLen = 0
  · exact .inl (by rw [OtaHandle.fetchYieldLog, if_pos hlen])
  by_cases hstate : h.state = .fetching
  · cases hch : h.chFetch with
    | none =>
      left
      rw [OtaHandle.fetchYieldLog, if_neg hlen, if_neg (not_not.mpr hstate), hch]
    | some ch =>
      cases hfetched : env.fetched with
      | error code negative =>
        left
        rw [OtaHandle.fetchYieldLog, if_neg hlen, if_neg (not_not.mpr hstate), hch, hfetched]
      | data bytes => exact .inr (fetchYieldLog_data hlen hstate hch hfetched)
  · exact .inl (by rw [OtaHandle.fetchYieldLog, if_neg hlen, if_pos hstate])

/-- What a call leaves: the size of the file, and the bytes counted go up by those fetched or not. -/
theorem fetchYieldLog_counts {ret : Int} (hcall : (h.fetchYieldLog bufLen env).2 = some (ret, h')) :
    h'.sizeFile = h.sizeFile ∧ ((h.fetchYieldLog bufLen env).1 = [] ∧ h'.sizeFetched = h.sizeFetched ∨
      h'.sizeFetched = h.sizeFetched + UInt32.ofNat env.fetched.bytes.length) := by
  unfold OtaHandle.fetchYieldLog at hcall ⊢
  split at hcall
  · rename_i hlen
    cases hcall
    rw [if_pos hlen]
    exact ⟨rfl, .inl ⟨rfl, rfl⟩⟩
  rename_i hlen
  rw [if_neg hlen]
  split at hcall
  · rename_i hstate
    cases hcall
    rw [if_pos hstate]
    exact ⟨rfl, .inl ⟨rfl, rfl⟩⟩
  rename_i hstate
  rw [if_neg hstate]
  cases hch : h.chFetch with
  | none =>
    rw [hch] at hcall
    cases hcall
  | some ch =>
    rw [hch] at hcall
    cases hfetched : env.fetched with
    | error code negative =>
      rw [hfetched] at hcall
      cases hcall
      exact ⟨rfl, .inl ⟨rfl, rfl⟩⟩
    | data bytes =>
      rw [hfetched] at hcall
      obtain ⟨err, hbegin⟩ := begin_eq h env.reportBegin
      simp only [hbegin] at hcall
      split at hcall
      · cases hcall
      obtain ⟨e', hpercent⟩ := OtaHandle.reportPercent_eq { h with
        err := err, chFetch := some ⟨ch.position + bytes.length⟩,
        sizeLastFetched := UInt32.ofNat bytes.length,
        sizeFetched := h.sizeFetched + UInt32.ofNat bytes.length } env
      rw [hpercent] at hcall
      obtain ⟨h'', hupdate, heq⟩ := Option.map_eq_some_iff.mp hcall
      cases heq
      rw [(OtaHandle.updateClientMd5_eq hupdate).1]
      split
      · exact ⟨rfl, .inr rfl⟩
      · exact ⟨rfl, .inr rfl⟩

theorem toNat_counted {a : UInt32} {ret : Nat} (h : a.toNat + ret < 2 ^ 32) :
    (a + UInt32.ofNat ret).toNat = a.toNat + ret := by
  rw [UInt32.toNat_add, UInt32.toNat_ofNat', Nat.add_mod_mod, Nat.mod_eq_of_lt h]

theorem toNat_percent {a file : UInt32} (h : a.toNat * 100 < 2 ^ 32) :
    (a * 100 / file).toNat = 100 * a.toNat / file.toNat := by
  rw [UInt32.toNat_div, UInt32.toNat_mul, show (100 : UInt32).toNat = 100 from rfl, Nat.mod_eq_of_lt h,
    Nat.mul_comm]

theorem percent_le {counted : Nat} (h : counted ≤ size) : 100 * counted / size ≤ 100 :=
  Nat.div_le_of_le_mul (by rw [Nat.mul_comm size]; exact Nat.mul_le_mul_left 100 h)

theorem percents_append (a b : List ProgressEv) : percents (a ++ b) = percents a ++ percents b :=
  List.filterMap_append

/-- A sound log whose percentages lie between two bounds. -/
structure SoundBetween (size lo hi : Nat) (log : List ProgressEv) : Prop extends SoundLog size log where
  bounds : ∀ p ∈ percents log, lo ≤ p ∧ p ≤ hi

namespace SoundBetween

variable {lo mid hi : Nat} {a b : List ProgressEv}

theorem nil : SoundBetween size lo hi [] :=
  ⟨⟨fun _ hev => absurd hev List.not_mem_nil, .nil⟩, fun _ hp => absurd hp List.not_mem_nil⟩

theorem append (hlo : lo ≤ mid) (hhi : mid ≤ hi) (ha : SoundBetween size lo mid a)
    (hb : SoundBetween size mid hi b) : SoundBetween size lo hi (a ++ b) := by
  refine ⟨⟨List.forall_mem_append.mpr ⟨ha.sound, hb.sound⟩, ?_⟩, ?_⟩
  · rw [percents_append]
    refine List.pairwise_append.mpr ⟨ha.ascending, hb.ascending, fun p hp q hq => ?_⟩
    exact (ha.bounds p hp).2.trans (hb.bounds q hq).1
  · rw [percents_append]
    refine List.forall_mem_append.mpr ⟨fun p hp => ?_, fun p hp => ?_⟩
    · exact ⟨(ha.bounds p hp).1, (ha.bounds p hp).2.trans hhi⟩
    · exact ⟨hlo.trans (hb.bounds p hp).1, (hb.bounds p hp).2⟩

theorem computed {fetched file : UInt32} {ret : Nat}
    (h : (ProgressEv.computed fetched ret file).Sound size) :
    SoundBetween size lo hi [.computed fetched ret file] :=
  ⟨⟨List.forall_mem_singleton.mpr h, .nil⟩, fun _ hp => absurd hp List.not_mem_nil⟩

theorem reported {counted percent : UInt32} (h : (ProgressEv.reported counted percent).Sound size)
    (hlo : lo ≤ percent.toNat) (hhi : percent.toNat ≤ hi) :
    SoundBetween size lo hi [.reported counted percent] :=
  ⟨⟨List.forall_mem_singleton.mpr h, List.pairwise_singleton _ _⟩,
    List.forall_mem_singleton.mpr ⟨hlo, hhi⟩⟩

end SoundBetween

/-- **A call that gets data** out of the file is sound, and what it reports lies between the
percentages before it and behind it. -/
theorem dataLog_sound (hfile : h.sizeFile.toNat = size) (hpos : 0 < size) (hsize : size * 100 < 2 ^ 32)
    {ret : Nat} (hin : h.sizeFetched.toNat + ret ≤ size) (expired : Bool) :
    SoundBetween size (100 * h.sizeFetched.toNat / size) (100 * (h.sizeFetched.toNat + ret) / size)
      (dataLog h ret expired) := by
  have hcounted : (h.sizeFetched + UInt32.ofNat ret).toNat = h.sizeFetched.toNat + ret :=
    toNat_counted (by omega)
  have hpercent : ((h.sizeFetched + UInt32.ofNat ret) * 100 / h.sizeFile).toNat =
      100 * (h.sizeFetched.toNat + ret) / size := by
    rw [toNat_percent (by rw [hcounted]; omega), hcounted, hfile]
  have hnz : h.sizeFile ≠ 0 := by
    intro hzero
    rw [hzero] at hfile
    exact absurd hfile (Nat.ne_of_lt hpos)
  have hmono : 100 * h.sizeFetched.toNat / size ≤ 100 * (h.sizeFetched.toNat + ret) / size :=
    Nat.div_le_div_right (by omega)
  have hbegin : SoundBetween size (100 * h.sizeFetched.toNat / size)
      (100 * h.sizeFetched.toNat / size) (beginLog h) := by
    unfold beginLog
    split
    · rename_i hzero
      rw [hzero]
      have h0 : 100 * (0 : UInt32).toNat / size = 0 := Nat.zero_div size
      exact .reported ⟨h0.symm, Nat.zero_le _⟩ h0.le (Nat.zero_le _)
    · exact .nil
  have hlast : SoundBetween size (100 * h.sizeFetched.toNat / size)
      (100 * (h.sizeFetched.toNat + ret) / size) (percentLog h ret expired) := by
    unfold percentLog
    simp only
    split
    · refine .reported ⟨by rw [hpercent, hcounted], ?_⟩ (hpercent ▸ hmono) hpercent.le
      rw [hpercent]
      exact percent_le hin
    · exact .nil
  exact (hbegin.append le_rfl le_rfl (.computed ⟨hnz, by omega, by omega⟩)).append le_rfl hmono hlast

/-! ## A download -/

/-- **A run** of a file whose hundredfold is a `uint32_t`, whose calls stay within it. -/
theorem soundLog_yields (hfile : h.sizeFile.toNat = size) (hpos : 0 < size) (hsize : size * 100 < 2 ^ 32)
    {ys : List (UInt32 × FetchEnv)} (hin : h.sizeFetched.toNat + fetchedLength ys ≤ size) :
    SoundBetween size (100 * h.sizeFetched.toNat / size) 100 (h.yieldsLog ys) := by
  induction ys generalizing h with
  | nil => exact .nil
  | cons y ys ih =>
    rw [fetchedLength, List.map_cons, List.sum_cons] at hin
    obtain ⟨bufLen, env⟩ := y
    have hend : h.sizeFetched.toNat + env.fetched.bytes.length ≤ size :=
      le_trans (by simp only; omega) hin
    have hmono : 100 * h.sizeFetched.toNat / size ≤
        100 * (h.sizeFetched.toNat + env.fetched.bytes.length) / size :=
      Nat.div_le_div_right (by omega)
    have hdata := dataLog_sound hfile hpos hsize hend env.expired
    rw [OtaHandle.yieldsLog]
    cases hnext : (h.fetchYieldLog bufLen env).2 with
    | none =>
      simp only [List.append_nil]
      rcases fetchYieldLog_cases h bufLen env with hlog | hlog
      · rw [hlog]
        exact .nil
      · rw [hlog]
        exact (List.append_nil (dataLog h _ env.expired)) ▸
          hdata.append hmono (percent_le hend) .nil
    | some r =>
      obtain ⟨ret, h'⟩ := r
      obtain ⟨hfile', hcounts⟩ := fetchYieldLog_counts hnext
      rcases hcounts with ⟨hlog, hsame⟩ | hadded
      · simp only [hlog, List.nil_append]
        rw [← hsame]
        exact ih (hfile'.symm ▸ hfile) (by rw [hsame, fetchedLength]; omega)
      · have hcounted : h'.sizeFetched.toNat = h.sizeFetched.toNat + env.fetched.bytes.length := by
          rw [hadded, toNat_counted (by omega)]
        have hrest := ih (h := h') (hfile'.symm ▸ hfile) (by
          rw [hcounted, fetchedLength]
          simp only at hin
          omega)
        rw [hcounted] at hrest
        rcases fetchYieldLog_cases h bufLen env with hlog | hlog
        · simp only [hlog]
          exact SoundBetween.nil.append hmono (percent_le hend) hrest
        · simp only [hlog]
          exact hdata.append hmono (percent_le hend) hrest

end

/-- Where the size is found, everything is. -/
theorem getParams_accepted {json : Text} {p : UpdateParams} {size : UInt32}
    (hjson : qcloudOtalibGetParams json = some p) (hsize : p.fileSize = some size) :
    ∃ version url md5, p = ⟨some version, some url, some md5, some size⟩ := by
  obtain ⟨version, -, hjson⟩ := Option.bind_eq_some_iff.mp hjson
  split at hjson
  · cases hjson
    cases hsize
  rename_i hversion
  obtain ⟨url, -, hjson⟩ := Option.bind_eq_some_iff.mp hjson
  split at hjson
  · cases hjson
    cases hsize
  rename_i hurl
  obtain ⟨md5, -, hjson⟩ := Option.bind_eq_some_iff.mp hjson
  split at hjson
  · cases hjson
    cases hsize
  rename_i hmd5
  obtain ⟨found, -, rfl⟩ := Option.map_eq_some_iff.mp hjson
  obtain ⟨version, rfl⟩ := Option.ne_none_iff_exists'.mp hversion
  obtain ⟨url, rfl⟩ := Option.ne_none_iff_exists'.mp hurl
  obtain ⟨md5, rfl⟩ := Option.ne_none_iff_exists'.mp hmd5
  exact ⟨version, url, md5, by rw [← hsize]⟩

/-- What a new firmware sets. -/
theorem otaCallback_accepted {h : OtaHandle} (hidle : h.state.code < OtaState.fetching.code)
    (version url md5 : Bytes) (size : UInt32) :
    (h.otaCallback (.updateFirmware ⟨some version, some url, some md5, some size⟩)).sizeFile = size ∧
      (h.otaCallback (.updateFirmware ⟨some version, some url, some md5, some size⟩)).state =
        .fetching := by
  unfold OtaHandle.otaCallback
  rw [if_neg (Nat.not_le_of_lt hidle)]
  exact ⟨rfl, rfl⟩

/-- The start of a download leaves the size of the file alone. -/
theorem startDownload_sizeFile (h : OtaHandle) (offset : UInt32) (env : StartEnv) :
    (h.startDownload offset env).2.sizeFile = h.sizeFile := by
  unfold OtaHandle.startDownload OtaHandle.openFetch OtaHandle.resetClientMd5
  simp only
  split_ifs <;> rfl

/-- A download that starts well and gets `n` bytes at once. -/
def oneFetch (n : Nat) : List (UInt32 × FetchEnv) :=
  [(0xFFFFFFFF, ⟨.data (List.replicate n 0), true, 0, 0⟩)]

theorem fetchedLength_oneFetch (n : Nat) : fetchedLength (oneFetch n) = n := by
  simp [fetchedLength, oneFetch, Fetched.bytes]

/-- Such a fetch computes its percentage. -/
theorem computed_oneFetch {h : OtaHandle} (hstate : h.state = .fetching) (n : Nat) :
    .computed 0 n h.sizeFile ∈ h.downloadLog 0 ⟨true, true, 0⟩ (oneFetch n) := by
  have hlen : (0xFFFFFFFF : UInt32) ≠ 0 := by decide
  have hdata : (FetchEnv.mk (.data (List.replicate n 0)) true 0 0).fetched =
      .data (List.replicate n 0) := rfl
  have hlog := fetchYieldLog_data (h := (h.startDownload 0 ⟨true, true, 0⟩).2) hlen hstate rfl hdata
  rw [List.length_replicate] at hlog
  rw [OtaHandle.downloadLog, oneFetch, OtaHandle.yieldsLog, hlog]
  exact List.mem_append_left _ (List.mem_append_left _ (List.mem_append_right _ List.mem_cons_self))

/-- A message with a new firmware of that size. -/
def updateOfSize (size : String) : Text :=
  str ("\x7b\"version\":\"1\",\"url\":\"u\",\"md5sum\":\"0\",\"file_size\":" ++ size ++ "\x7d")

end QcloudIot.Ota
