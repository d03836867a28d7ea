import QcloudIot.Lib.Run
import QcloudIot.Ota.Client

/-!
# The digest follows the download

A download of one file, started, interrupted and resumed at will, as a machine over the handle.
Before a resume at an offset above zero the caller resets the MD5 context and feeds it the part of
the file it already has; `fed` is how much, and `none` once a download has been started.

* `Intact`: the context has absorbed the bytes counted so far, and the channel stands right after
  them;
* `Intact.step`: every step keeps it;
* **`absorbed_of_run`**: over any run the context has absorbed exactly the first `sizeFetched` bytes
  of the file, and a fetch ends the download exactly when the size of the file is reached.
-/

namespace QcloudIot.Ota

open Lib Utils

/-- The handle, and how much the caller has fed to it since it reset the context. -/
structure Download where
  handle : OtaHandle
  fed : Option Nat

/-- The calls of the application, and the messages that come in between. -/
inductive OtaAct where
  | resetClientMd5 (alloc : Bool)
  | updateClientMd5 (buff : Bytes)
  | startDownload (offset : UInt32) (env : StartEnv)
  | fetchYield (bufLen : UInt32) (env : FetchEnv)
  | message (m : OtaMessage)
  | resetStatus

namespace Download

/-- One call; `none` is a crash. -/
def act (d : Download) : OtaAct → Option Download
  | .resetClientMd5 alloc => some ⟨(d.handle.resetClientMd5 alloc).2, some 0⟩
  | .updateClientMd5 buff =>
    (d.handle.updateClientMd5 buff).map fun h => ⟨h, d.fed.map (· + buff.length)⟩
  | .startDownload offset env => some ⟨(d.handle.startDownload offset env).2, none⟩
  | .fetchYield bufLen env => (d.handle.fetchYield bufLen env).map fun r => ⟨r.2, d.fed⟩
  | .message m => some ⟨d.handle.otaCallback m, d.fed⟩
  | .resetStatus => some ⟨d.handle.resetStatus, d.fed⟩

/-- Nothing comes after a crash. -/
def step (d : Option Download) (a : OtaAct) : Option Download := d.bind (·.act a)

/-- What is known of the caller and of the channel: the context is fed the file from its start, a
download starts at zero or where the feeding has got to, and a fetch, with the size of the file
known, puts the next bytes of the file in the buffer. -/
def Allowed (file : Bytes) : Option Download → OtaAct → Prop
  | some d, .updateClientMd5 buff => ∃ k ∈ d.fed, buff <+: file.drop k
  | some d, .startDownload offset _ => offset = 0 ∨ d.fed = some offset.toNat
  | some d, .fetchYield _ env =>
    d.fed = none ∧ d.handle.sizeFile ≠ 0 ∧
      ∀ ch, d.handle.chFetch = some ch → env.fetched.bytes <+: file.drop ch.position
  | _, _ => True

/-- As `IOT_OTA_Init` leaves it. -/
def start : Download := ⟨.init, none⟩

/-! ## The invariant -/

/-- The context, where there is one, has absorbed the bytes fed, or those counted by `sizeFetched`;
then the channel stands right after these. -/
structure Intact (file : Bytes) (d : Download) : Prop where
  absorbed : d.fed = none → ∀ ctx, d.handle.md5 = some ctx →
    ctx.Holds (file.take d.handle.sizeFetched.toNat)
  counted : d.fed = none → d.handle.sizeFetched.toNat ≤ file.length
  position : d.fed = none → ∀ ctx, d.handle.md5 = some ctx → ∀ ch, d.handle.chFetch = some ch →
    ch.position = d.handle.sizeFetched.toNat
  fed_absorbed : ∀ k, d.fed = some k → ∀ ctx, d.handle.md5 = some ctx → ctx.Holds (file.take k)
  fed_le : ∀ k, d.fed = some k → k ≤ file.length

theorem intact_start (file : Bytes) : Intact file start where
  absorbed := by
    rintro - _ ⟨⟩
    exact holds_starts
  counted _ := Nat.zero_le _
  position := by
    rintro - _ _ _ ⟨⟩
  fed_absorbed _ h := nomatch h
  fed_le _ h := nomatch h

/-- The next bytes of a file, after the first `k`. -/
theorem take_append_of_prefix {file bytes : Bytes} {k : Nat} (h : bytes <+: file.drop k) :
    file.take k ++ bytes = file.take (k + bytes.length) := by
  rw [List.take_add, ← List.prefix_iff_eq_take.mp h]

theorem add_length_le_of_isPrefix {file bytes : Bytes} {k : Nat} (hk : k ≤ file.length)
    (h : bytes <+: file.drop k) : k + bytes.length ≤ file.length := by
  have hle := h.length_le
  rw [List.length_drop] at hle
  omega

variable {file : Bytes} {d d' : Download}

namespace Intact

theorem updateClientMd5 (hfile : file.length < 2 ^ 32) (hd : Intact file d) {buff : Bytes} {k : Nat}
    (hk : d.fed = some k) (hbuff : buff <+: file.drop k)
    (hact : d.act (.updateClientMd5 buff) = some d') : Intact file d' := by
  have hle := add_length_le_of_isPrefix (hd.fed_le k hk) hbuff
  obtain ⟨h, hupdate, rfl⟩ := Option.map_eq_some_iff.mp hact
  rw [(OtaHandle.updateClientMd5_eq hupdate).1, hk]
  refine ⟨nofun, nofun, nofun, ?_, ?_⟩
  · rintro _ ⟨⟩ ctx hctx
    obtain ⟨ctx₀, hctx₀, rfl⟩ := Option.map_eq_some_iff.mp hctx
    rw [← take_append_of_prefix hbuff]
    exact (hd.fed_absorbed k hk ctx₀ hctx₀).update (by omega)
  · rintro _ ⟨⟩
    exact hle

theorem startDownload (hd : Intact file d) {offset : UInt32} {env : StartEnv}
    (hoffset : offset = 0 ∨ d.fed = some offset.toNat) :
    Intact file ⟨(d.handle.startDownload offset env).2, none⟩ := by
  have hle : offset.toNat ≤ file.length := by
    rcases hoffset with rfl | hfed
    · exact Nat.zero_le _
    · exact hd.fed_le _ hfed
  -- The context holds the first `offset` bytes, whether it is reset here or was fed before.
  have habsorbed : ∀ ctx, (if offset = 0 then (d.handle.resetClientMd5 env.md5Alloc).2.md5
      else d.handle.md5) = some ctx → ctx.Holds (file.take offset.toNat) := by
    intro ctx hctx
    by_cases hzero : offset = 0
    · rw [if_pos hzero] at hctx
      unfold OtaHandle.resetClientMd5 at hctx
      split at hctx
      · cases hctx
        rw [hzero]
        exact holds_starts
      · cases hctx
    · rw [if_neg hzero] at hctx
      exact hd.fed_absorbed _ (hoffset.resolve_left hzero) ctx hctx
  obtain ⟨hfetched, hmd5, hposition⟩ := d.handle.startDownload_eq offset env
  refine ⟨fun _ ctx hctx => ?_, fun _ => ?_, fun _ ctx hctx ch hch => ?_, nofun, nofun⟩
  · rw [hfetched]
    exact habsorbed ctx (hmd5 ▸ hctx)
  · rw [hfetched]
    exact hle
  · rw [hfetched]
    exact hposition (fun hnone => nomatch hnone.symm.trans hctx) ch hch

/-- What the count becomes when a fetch has put the next bytes of the file in the buffer. -/
theorem sizeFetched_add (hfile : file.length < 2 ^ 32) {k : UInt32} {bytes : Bytes}
    (hle : k.toNat + bytes.length ≤ file.length) :
    (k + UInt32.ofNat bytes.length).toNat = k.toNat + bytes.length := by
  rw [UInt32.toNat_add, UInt32.toNat_ofNat']
  omega

theorem fetchYield (hfile : file.length < 2 ^ 32) (hd : Intact file d) {bufLen : UInt32}
    {env : FetchEnv} (hok : Allowed file (some d) (.fetchYield bufLen env))
    (hact : d.act (.fetchYield bufLen env) = some d') : Intact file d' := by
  obtain ⟨hfed, -, hnext⟩ := hok
  obtain ⟨⟨ret, h'⟩, hyield, rfl⟩ := Option.map_eq_some_iff.mp hact
  have hnone : ∀ k, d.fed ≠ some k := fun k hk => nomatch hfed.symm.trans hk
  rcases OtaHandle.fetchYield_cases hyield with ⟨-, hmd5, hsize, hch⟩ |
    ⟨ch, bytes, hch, hbytes, -, -, hsize, hch', -, hmd5, hempty⟩
  · refine ⟨?_, ?_, ?_, fun k hk => absurd hk (hnone k), hd.fed_le⟩
    · rw [hmd5, hsize]
      exact hd.absorbed
    · rw [hsize]
      exact hd.counted
    · rw [hmd5, hsize, hch]
      exact hd.position
  cases hctx : d.handle.md5 with
  | none =>
    rw [hctx] at hmd5
    rw [hempty hctx] at hsize
    refine ⟨fun _ ctx h => ?_, fun _ => ?_, fun _ ctx h => ?_, fun k hk => absurd hk (hnone k),
      hd.fed_le⟩
    · cases hmd5.symm.trans h
    · rw [show h'.sizeFetched = d.handle.sizeFetched from hsize.trans (UInt32.add_zero _)]
      exact hd.counted hfed
    · cases hmd5.symm.trans h
  | some ctx₀ =>
    have hpos := hd.position hfed ctx₀ hctx ch hch
    have hpre : bytes <+: file.drop d.handle.sizeFetched.toNat := by
      have := hnext ch hch
      rwa [hbytes, hpos] at this
    have hle := add_length_le_of_isPrefix (hd.counted hfed) hpre
    have hnew : h'.sizeFetched.toNat = d.handle.sizeFetched.toNat + bytes.length := by
      rw [hsize, sizeFetched_add hfile hle]
    rw [hctx] at hmd5
    refine ⟨fun _ ctx h => ?_, fun _ => ?_, fun _ ctx _ c hc => ?_,
      fun k hk => absurd hk (hnone k), hd.fed_le⟩
    · cases hmd5.symm.trans h
      rw [hnew, ← take_append_of_prefix hpre]
      exact (hd.absorbed hfed ctx₀ hctx).update (by omega)
    · rw [hnew]
      exact hle
    · cases hch'.symm.trans hc
      rw [hnew, ← hpos]

/-- **Every step keeps the digest and the count together.** -/
theorem step (hfile : file.length < 2 ^ 32) (hd : Intact file d) {a : OtaAct}
    (hok : Allowed file (some d) a) (hact : d.act a = some d') : Intact file d' := by
  cases a with
  | resetClientMd5 alloc =>
    cases hact
    refine ⟨nofun, nofun, nofun, ?_, ?_⟩
    · rintro _ ⟨⟩ ctx hctx
      cases alloc
      · cases hctx
      · cases hctx
        exact holds_starts
    · rintro _ ⟨⟩
      exact Nat.zero_le _
  | updateClientMd5 buff =>
    obtain ⟨k, hk, hbuff⟩ := hok
    exact hd.updateClientMd5 hfile hk hbuff hact
  | startDownload offset env =>
    cases hact
    exact hd.startDownload hok
  | fetchYield bufLen env => exact hd.fetchYield hfile hok hact
  | message m =>
    cases hact
    obtain ⟨hmd5, hsize, hch⟩ := d.handle.otaCallback_eq m
    refine ⟨?_, ?_, ?_, ?_, hd.fed_le⟩
    · rw [hmd5, hsize]
      exact hd.absorbed
    · rw [hsize]
      exact hd.counted
    · rw [hmd5, hsize, hch]
      exact hd.position
    · rw [hmd5]
      exact hd.fed_absorbed
  | resetStatus =>
    cases hact
    exact ⟨hd.absorbed, hd.counted, hd.position, hd.fed_absorbed, hd.fed_le⟩

end Intact

/-! ## Runs -/

/-- **OTA integrity.** Over any run of starts, resumes, fetches and messages, as long as nothing has
crashed: once a download is started the MD5 context has absorbed exactly the first `sizeFetched`
bytes of the file; and a fetch that returns `n ≥ 0` counts `n` bytes more, and leaves the download
fetched exactly when the size of the file is reached. -/
theorem absorbed_of_run (file : Bytes) (hfile : file.length < 2 ^ 32) (as : List OtaAct)
    (hmeets : Meets step (Allowed file) (some start) as) (d : Download)
    (hrun : run step (some start) as = some d) :
    (d.fed = none → ∀ ctx, d.handle.md5 = some ctx →
      ctx.Holds (file.take d.handle.sizeFetched.toNat)) ∧
    ∀ bufLen env n h', Allowed file (some d) (.fetchYield bufLen env) →
      d.handle.fetchYield bufLen env = some (n, h') → 0 ≤ n →
      h'.sizeFetched.toNat = d.handle.sizeFetched.toNat + n.toNat ∧
        (h'.state = .fetched ↔ h'.sizeFile ≤ h'.sizeFetched) := by
  have hinv : ∀ d, run step (some start) as = some d → Intact file d := by
    refine run_invariant (fun s => ∀ d, s = some d → Intact file d) ?_ as ?_ hmeets
    · intro s a hs hok d' hstep
      obtain ⟨d, rfl, hact⟩ := Option.bind_eq_some_iff.mp hstep
      exact (hs d rfl).step hfile hok hact
    · rintro _ ⟨⟩
      exact intact_start file
  have hd := hinv d hrun
  refine ⟨hd.absorbed, fun bufLen env n h' hok hyield hn => ?_⟩
  obtain ⟨hfed, -, hnext⟩ := hok
  rcases OtaHandle.fetchYield_cases hyield with ⟨hneg, -⟩ |
    ⟨ch, bytes, hch, hbytes, rfl, -, hsize, -, hstate, -, hempty⟩
  · omega
  refine ⟨?_, hstate⟩
  rw [hsize, Int.toNat_natCast]
  cases hctx : d.handle.md5 with
  | none =>
    rw [hempty hctx]
    exact congrArg UInt32.toNat (UInt32.add_zero _)
  | some ctx =>
    have hpre : bytes <+: file.drop d.handle.sizeFetched.toNat := by
      have := hnext ch hch
      rwa [hbytes, hd.position hfed ctx hctx ch hch] at this
    exact Intact.sizeFetched_add hfile (add_length_le_of_isPrefix (hd.counted hfed) hpre)

/-- Five bytes: the download breaks off after two and is resumed there. -/
def resumed : List OtaAct :=
  let update : OtaAct := .message (.updateFirmware ⟨some [49], some [117], some [53], some 5⟩)
  let fetch (fetched : Fetched) : OtaAct := .fetchYield 8 ⟨fetched, false, 0, 0⟩
  [update, .startDownload 0 ⟨true, true, 0⟩, fetch (.data [1, 2]), fetch (.error (-8) (by decide)),
    .resetStatus, update, .resetClientMd5 true, .updateClientMd5 [1], .updateClientMd5 [2],
    .startDownload 2 ⟨true, true, 0⟩]

theorem absorbed_resumed : ∃ d h', run step (some start) resumed = some d ∧
    (∀ ctx, d.handle.md5 = some ctx → ctx.Holds ([1, 2, 3, 4, 5].take d.handle.sizeFetched.toNat)) ∧
    d.handle.fetchYield 8 ⟨.data [3, 4, 5], false, 0, 0⟩ = some (3, h') ∧
    h'.sizeFetched.toNat = d.handle.sizeFetched.toNat + 3 ∧
    (h'.state = .fetched ↔ h'.sizeFile ≤ h'.sizeFetched) := by
  have h := absorbed_of_run [1, 2, 3, 4, 5] (by decide) resumed
    ⟨trivial, .inl rfl, ⟨rfl, by decide, by rintro _ ⟨⟩; decide⟩,
      ⟨rfl, by decide, by rintro _ ⟨⟩; decide⟩, trivial, trivial, trivial, ⟨0, rfl, by decide⟩,
      ⟨1, rfl, by decide⟩, .inr rfl, trivial⟩ _ rfl
  exact ⟨_, _, rfl, h.1 rfl, rfl, h.2 8 ⟨.data [3, 4, 5], false, 0, 0⟩ 3 _
    ⟨rfl, by decide, by rintro _ ⟨⟩; decide⟩ rfl (by decide)⟩

end Download

end QcloudIot.Ota
