import QcloudIot.Lib.Run
import QcloudIot.Log.Upload

/-!
# No log byte is lost or sent twice

At every step of the uploader the bytes accepted are those that have left the buffer, then those
the running upload still has to post or save (`front`), then those appended since it took its size
(from `tailFrom` on): this, with the bounds of the uploader's local variables, is `Inv`.

* `Inv.append`, `Inv.doLogUpload`: every step keeps it;
* **`conserved_of_run`**: whenever no upload is in progress, the accepted bytes are those posted and
  saved, in order, followed by the contents of the buffer.
-/

namespace QcloudIot.Log

open Lib

/-! ## The search for a delimiter -/

/-- A delimiter is found before the end of the string. -/
theorem strstrDelimiter_some {m : Memory UInt8} : ∀ {left p pos : Nat},
    LogUploader.strstrDelimiter m left p = some pos →
      p ≤ pos ∧ m pos = newline ∧ m (pos + 1) = formFeed ∧ ∀ i, p ≤ i → i ≤ pos → m i ≠ 0
  | 0, _, _, h => by cases h
  | left + 1, p, pos, h => by
    unfold LogUploader.strstrDelimiter at h
    split at h
    · cases h
    rename_i hp
    split at h
    · rename_i hfound
      cases h
      refine ⟨Nat.le_refl _, hfound.1, hfound.2, fun i hge hle => ?_⟩
      rwa [Nat.le_antisymm hle hge]
    · obtain ⟨hle, hline, hfeed, hmid⟩ := strstrDelimiter_some h
      refine ⟨by omega, hline, hfeed, fun i hge hi => ?_⟩
      rcases Nat.eq_or_lt_of_le hge with rfl | hlt
      · exact hp
      · exact hmid i hlt hi

/-- It lies past a header that holds none. -/
theorem header_lt_of_found {m : Memory UInt8} {left p pos : Nat}
    (hplain : ∀ i < logBufFixedHeaderSize, m i ≠ formFeed)
    (h : LogUploader.strstrDelimiter m left p = some pos) : logBufFixedHeaderSize < pos + 2 := by
  obtain ⟨-, -, hfeed, -⟩ := strstrDelimiter_some h
  by_contra hle
  exact hplain (pos + 1) (by omega) hfeed

/-- It lies before a zero byte. -/
theorem found_le_of_zero {m : Memory UInt8} {left p pos z : Nat} (hz : m z = 0) (hp : p ≤ z)
    (h : LogUploader.strstrDelimiter m left p = some pos) : pos + 2 ≤ z := by
  obtain ⟨hle, -, hfeed, hmid⟩ := strstrDelimiter_some h
  by_contra hlt
  by_cases hzp : z ≤ pos
  · exact hmid z hp hzp hz
  · have hzeq : z = pos + 1 := by omega
    rw [hzeq, hfeed] at hz
    exact absurd hz (by decide)

namespace LogUploader

/-! ## The invariant -/

/-- The bytes the running upload still has to post or save. -/
def front (m : Memory UInt8) : Uploading → Bytes
  | .idle | .started | .sizing | .closing _ => []
  | .posting size | .saving size => m.load logBufFixedHeaderSize (size - logBufFixedHeaderSize)
  | .locating p _ _ | .sending p _ =>
    m.load logBufFixedHeaderSize (p.postSize - logBufFixedHeaderSize)
  | .moving p upload => m.load upload (p.postSize - upload)
  | .posted size rc actual =>
    if rc = .retSuccess then []
    else m.load logBufFixedHeaderSize (size - actual - logBufFixedHeaderSize)

/-- Where the bytes appended since start. -/
def tailFrom : Uploading → Nat
  | .idle | .started | .sizing => logBufFixedHeaderSize
  | .posting size | .posted size _ _ | .saving size | .closing size => size
  | .locating p _ _ | .sending p _ | .moving p _ => p.origPostSize

/-- What is left of the accepted bytes. -/
def remaining (m : Memory UInt8) (writeIndex : Nat) (u : Uploading) : Bytes :=
  front m u ++ m.load (tailFrom u) (writeIndex - tailFrom u)

/-- The local variables of `_post_log_to_server` in its loop. After the first fragment a zero byte
ends the log that is left, so no search gets into what has been appended since. -/
structure Posting.Sound (m : Memory UInt8) (p : Posting) : Prop where
  header_le : logBufFixedHeaderSize ≤ p.postSize
  sum : p.postSize + p.actualPostPayload = p.origPostSize
  large : p.postSize = p.origPostSize → maxHttpLogPostSize ≤ p.origPostSize
  ended : p.postSize < p.origPostSize → m p.postSize = 0

/-- `upload_size` is unset or ends a fragment of the log that is left. -/
def Fragment (p : Posting) (upload : Nat) : Prop :=
  upload = 0 ∨ logBufFixedHeaderSize < upload ∧ upload ≤ p.postSize

/-- The local variables of `do_log_upload`. -/
def Sound (m : Memory UInt8) : Uploading → Prop
  | .idle | .started | .sizing | .closing _ => True
  | .posting size | .saving size => logBufFixedHeaderSize ≤ size
  | .locating p possible upload =>
    Posting.Sound m p ∧ (possible < maxHttpLogPostSize → Fragment p possible) ∧ Fragment p upload
  | .sending p upload => Posting.Sound m p ∧ Fragment p upload
  | .moving p upload =>
    Posting.Sound m p ∧ logBufFixedHeaderSize < upload ∧ upload ≤ p.postSize
  | .posted size rc actual =>
    logBufFixedHeaderSize ≤ size ∧ (rc ≠ .retSuccess → logBufFixedHeaderSize + actual ≤ size)

/-- The invariant of the uploader. -/
structure Inv (s : LogUploader) : Prop where
  noCommErr : s.uploadOnlyInCommErr = false
  saves : s.logSaveEnabled = true
  plain : ∀ i < logBufFixedHeaderSize, s.logBuffer i ≠ formFeed
  header_le : logBufFixedHeaderSize ≤ s.writeIndex
  tail_le : tailFrom s.uploading ≤ s.writeIndex
  sound : Sound s.logBuffer s.uploading
  conserved : s.accepted.flatten =
    s.gone.flatMap Gone.logBytes ++ remaining s.logBuffer s.writeIndex s.uploading

/-- The log bytes of a post from the buffer. -/
theorem logBytes_posted (m : Memory UInt8) {n : Nat} (h : logBufFixedHeaderSize ≤ n) :
    (Gone.posted (m.load 0 n)).logBytes =
      m.load logBufFixedHeaderSize (n - logBufFixedHeaderSize) := by
  have hsplit := m.load_split (Nat.zero_le logBufFixedHeaderSize) h
  rw [Nat.sub_zero, Nat.sub_zero] at hsplit
  rw [Gone.logBytes, hsplit, List.drop_left' (by simp)]

theorem inv_init (header : Header) : (init header false true).Inv where
  noCommErr := rfl
  saves := rfl
  plain := fun i hi => by
    have hlt : i < header.bytes.length := by rwa [header.length_eq]
    have hcell := Memory.store_inside (fun _ => 0) (p := 0) header.bytes hlt
    rw [Nat.zero_add] at hcell
    change Memory.store (fun _ => 0) 0 header.bytes i ≠ formFeed
    rw [hcell]
    exact header.plain _ (List.getElem_mem hlt)
  header_le := Nat.le_refl _
  tail_le := Nat.le_refl _
  sound := trivial
  conserved := by simp [init, remaining, front, tailFrom]

/-! ## What a step that writes to the buffer leaves alone -/

/-- The front lies before the tail, so it is the same in a buffer with the same cells there. -/
theorem front_congr {m m' : Memory UInt8} {u : Uploading} (hsound : Sound m u)
    (h : ∀ i, logBufFixedHeaderSize ≤ i → i < tailFrom u → m' i = m i) :
    front m' u = front m u := by
  cases u with
  | idle | started | sizing | closing => rfl
  | posting size | saving size =>
    refine Memory.load_congr fun i hi hlt => h i hi ?_
    change logBufFixedHeaderSize ≤ size at hsound
    change i < size
    omega
  | locating p possible upload | sending p upload =>
    have hp := hsound.1
    refine Memory.load_congr fun i hi hlt => h i hi ?_
    change i < p.origPostSize
    have := hp.header_le
    have := hp.sum
    omega
  | moving p upload =>
    obtain ⟨hp, hge, hle⟩ := hsound
    refine Memory.load_congr fun i hi hlt => h i (by omega) ?_
    change i < p.origPostSize
    have := hp.sum
    omega
  | posted size rc actual =>
    by_cases hrc : rc = .retSuccess
    · simp only [front, if_pos hrc]
    simp only [front, if_neg hrc]
    have := hsound.2 hrc
    refine Memory.load_congr fun i hi hlt => h i hi ?_
    change i < size
    omega

/-- The zero byte that ends the log that is left lies before the tail and past the header. -/
theorem Sound.congr {m m' : Memory UInt8} {u : Uploading} (hsound : Sound m u)
    (h : ∀ i, logBufFixedHeaderSize ≤ i → i < tailFrom u → m' i = m i) : Sound m' u := by
  have hposting : ∀ p : Posting, p.origPostSize = tailFrom u → Posting.Sound m p →
      Posting.Sound m' p := fun p htail hp =>
    ⟨hp.header_le, hp.sum, hp.large, fun hlt => by
      rw [h p.postSize hp.header_le (by omega)]
      exact hp.ended hlt⟩
  cases u with
  | idle | started | sizing | closing => exact hsound
  | posting size | saving size => exact hsound
  | locating p possible upload => exact ⟨hposting p rfl hsound.1, hsound.2⟩
  | sending p upload => exact ⟨hposting p rfl hsound.1, hsound.2⟩
  | moving p upload => exact ⟨hposting p rfl hsound.1, hsound.2⟩
  | posted size rc actual => exact hsound

variable {s : LogUploader}

/-- A step that only moves the uploading thread on. -/
theorem Inv.goto (hs : s.Inv) {u : Uploading} (htail : tailFrom u ≤ s.writeIndex)
    (hsound : Sound s.logBuffer u)
    (hrem : remaining s.logBuffer s.writeIndex u =
      remaining s.logBuffer s.writeIndex s.uploading) :
    Inv { s with uploading := u } where
  noCommErr := hs.noCommErr
  saves := hs.saves
  plain := hs.plain
  header_le := hs.header_le
  tail_le := htail
  sound := hsound
  conserved := by
    rw [hs.conserved]
    exact congrArg _ hrem.symm

/-! ## Appending -/

/-- An entry of two bytes or more is not accepted, or it is written behind what is there. -/
theorem appendToUploadBuffer_cases (s : LogUploader) {logContent : Bytes} (locked : Bool)
    (hlen : 2 ≤ logContent.length) :
    s.appendToUploadBuffer logContent locked = s ∨
      ∃ m : Memory UInt8, (∀ i < s.writeIndex, m i = s.logBuffer i) ∧
        s.appendToUploadBuffer logContent locked =
          { s with
            logBuffer := m
            writeIndex := s.writeIndex + logContent.length
            accepted := s.accepted ++ [m.load s.writeIndex logContent.length] } := by
  unfold appendToUploadBuffer
  split
  · exact .inl rfl
  split
  · exact .inl rfl
  split
  · exact .inl rfl
  · refine .inr ⟨_, fun i hi => ?_, rfl⟩
    rw [Memory.store_of_lt _ _ (by omega), Memory.store_of_lt _ _ (by omega),
      Memory.store_of_lt _ _ hi]

theorem Inv.append (hs : s.Inv) {logContent : Bytes} (locked : Bool)
    (hlen : 2 ≤ logContent.length) : (s.appendToUploadBuffer logContent locked).Inv := by
  rcases appendToUploadBuffer_cases s locked hlen with h | ⟨m, hcells, h⟩
  · rwa [h]
  rw [h]
  have htail := hs.tail_le
  have hsame : ∀ i, logBufFixedHeaderSize ≤ i → i < tailFrom s.uploading → m i = s.logBuffer i :=
    fun i _ hi => hcells i (by omega)
  exact
    { noCommErr := hs.noCommErr
      saves := hs.saves
      plain := fun i hi => by
        have hle := hs.header_le
        change m i ≠ formFeed
        rw [hcells i (by omega)]
        exact hs.plain i hi
      header_le := Nat.le_trans hs.header_le (Nat.le_add_right _ _)
      tail_le := Nat.le_trans htail (Nat.le_add_right _ _)
      sound := hs.sound.congr hsame
      conserved := by
        -- the tail is longer by the entry, and its old part is what it was
        have hfront := front_congr hs.sound hsame
        have hold : m.load (tailFrom s.uploading) (s.writeIndex - tailFrom s.uploading) =
            s.logBuffer.load (tailFrom s.uploading) (s.writeIndex - tailFrom s.uploading) :=
          Memory.load_congr fun i _ hi => hcells i (by omega)
        have hlonger := m.load_split htail (Nat.le_add_right s.writeIndex logContent.length)
        rw [Nat.add_sub_cancel_left, hold] at hlonger
        simp only [remaining, hlonger, hfront, List.flatten_append, List.flatten_cons,
          List.flatten_nil, List.append_nil, hs.conserved, List.append_assoc] }

/-! ## The steps of an upload -/

/-- The stamp lies in the header. -/
theorem stamp_after (m : Memory UInt8) (stamp : Stamp) {i : Nat} (hi : logBufFixedHeaderSize ≤ i) :
    ((m.store (logBufFixedHeaderSize - 10) stamp.timestamp).store 0 stamp.signature) i = m i := by
  have h1 := stamp.length_timestamp
  have h2 := stamp.length_signature
  have h3 : 40 ≤ logBufFixedHeaderSize := by decide
  rw [Memory.store_of_ge _ _ (by omega), Memory.store_of_ge _ _ (by omega)]

/-- What holds of every byte of the header and of the stamp holds of the header stamped. -/
theorem stamp_header {m : Memory UInt8} {P : UInt8 → Prop}
    (hm : ∀ i < logBufFixedHeaderSize, P (m i)) {stamp : Stamp}
    (hstamp : ∀ b ∈ stamp.timestamp ++ stamp.signature, P b) :
    ∀ i < logBufFixedHeaderSize,
      P (((m.store (logBufFixedHeaderSize - 10) stamp.timestamp).store 0 stamp.signature) i) := by
  intro i hi
  by_cases hsig : i < stamp.signature.length
  · have hcell := Memory.store_inside (m.store (logBufFixedHeaderSize - 10) stamp.timestamp)
      (p := 0) stamp.signature hsig
    rw [Nat.zero_add] at hcell
    rw [hcell]
    exact hstamp _ (List.mem_append_right _ (List.getElem_mem hsig))
  rw [Memory.store_of_ge _ _ (by omega)]
  by_cases hts : logBufFixedHeaderSize - 10 ≤ i
  · have hlt : i - (logBufFixedHeaderSize - 10) < stamp.timestamp.length := by
      have := stamp.length_timestamp
      omega
    have hcell := Memory.store_inside m (p := logBufFixedHeaderSize - 10) stamp.timestamp hlt
    rw [Nat.add_sub_cancel' hts] at hcell
    rw [hcell]
    exact hstamp _ (List.mem_append_left _ (List.getElem_mem hlt))
  · rw [Memory.store_of_lt _ _ (by omega)]
    exact hm i hi

theorem stamp_cells (s : LogUploader) (stamp : Stamp) {i : Nat} (hi : logBufFixedHeaderSize ≤ i) :
    (s.updateTimeAndSignature stamp).logBuffer i = s.logBuffer i :=
  stamp_after _ stamp hi

theorem stamp_plain (hplain : ∀ i < logBufFixedHeaderSize, s.logBuffer i ≠ formFeed)
    (stamp : Stamp) : ∀ i < logBufFixedHeaderSize,
      (s.updateTimeAndSignature stamp).logBuffer i ≠ formFeed :=
  stamp_header hplain stamp.plain

/-- A post of the first `size` bytes, that succeeds or fails. -/
theorem Inv.post (hs : s.Inv) {size : Nat} {env : UploadEnv} {u : Uploading}
    (hsize : logBufFixedHeaderSize ≤ size) (hge : logBufFixedHeaderSize ≤ tailFrom u)
    (htail : tailFrom u ≤ s.writeIndex) (hsound : Sound s.logBuffer u)
    (hrem : remaining s.logBuffer s.writeIndex s.uploading =
      (if env.post = .retSuccess
        then s.logBuffer.load logBufFixedHeaderSize (size - logBufFixedHeaderSize) else []) ++
      remaining s.logBuffer s.writeIndex u) :
    Inv { s.postOneHttp size env with uploading := u } := by
  have hcells : ∀ i, logBufFixedHeaderSize ≤ i →
      (s.updateTimeAndSignature env.stamp).logBuffer i = s.logBuffer i :=
    fun i hi => stamp_cells s env.stamp hi
  have hplain := stamp_plain hs.plain env.stamp
  have hposted := Memory.load_congr (p := logBufFixedHeaderSize)
    (n := size - logBufFixedHeaderSize) fun i hi _ => hcells i hi
  have hsound' := hsound.congr fun i hi _ => hcells i hi
  have hleft : remaining (s.updateTimeAndSignature env.stamp).logBuffer s.writeIndex u =
      remaining s.logBuffer s.writeIndex u := by
    unfold remaining
    rw [front_congr hsound fun i hi _ => hcells i hi,
      Memory.load_congr fun i hi _ => hcells i (Nat.le_trans hge hi)]
  unfold postOneHttp
  by_cases hpost : env.post = .retSuccess
  · rw [if_pos hpost] at hrem
    simp only [if_pos hpost]
    refine ⟨hs.noCommErr, hs.saves, hplain, hs.header_le, htail, hsound', ?_⟩
    change s.accepted.flatten = (s.gone ++ _).flatMap _ ++ remaining _ s.writeIndex u
    rw [hleft, hs.conserved, hrem, List.flatMap_append, List.flatMap_cons, List.flatMap_nil,
      List.append_nil, logBytes_posted _ hsize, hposted, List.append_assoc]
  · rw [if_neg hpost, List.nil_append] at hrem
    simp only [if_neg hpost]
    refine ⟨hs.noCommErr, hs.saves, hplain, hs.header_le, htail, hsound', ?_⟩
    change s.accepted.flatten = s.gone.flatMap _ ++ remaining _ s.writeIndex u
    rw [hleft, hs.conserved, hrem]

/-- The next step of the loop that locates the delimiters. -/
theorem Inv.locate (hs : s.Inv) {p : Posting} {possible upload : Nat}
    (hu : s.uploading = .locating p possible upload) :
    Inv { s with uploading := locate s.logBuffer p possible upload } := by
  have htail := hs.tail_le
  have hsound := hs.sound
  rw [hu] at htail hsound
  obtain ⟨hp, hpossible, hupload⟩ := hsound
  have hle := hp.header_le
  have hsum := hp.sum
  unfold LogUploader.locate
  split
  · rename_i hlt
    simp only
    split
    · -- no delimiter: the log that is left has the size it had
      refine hs.goto htail ⟨by omega, fun _ => by omega⟩ ?_
      rw [hu]
      simp only [remaining, front, tailFrom, reduceCtorEq, if_false]
      rw [show p.origPostSize - p.actualPostPayload = p.postSize by omega]
    · rename_i next hfound
      have hgt := header_lt_of_found hs.plain hfound
      have hfragment : next + 2 < maxHttpLogPostSize → Fragment p (next + 2) := by
        intro hmax
        refine .inr ⟨hgt, ?_⟩
        by_cases horig : p.postSize = p.origPostSize
        · have := hp.large horig
          omega
        · refine found_le_of_zero (hp.ended (by omega)) ?_ hfound
          rcases hpossible hlt with rfl | h
          · exact Nat.zero_le _
          · exact h.2
      split
      · rename_i hend
        exact hs.goto htail ⟨hp, hfragment hend.2⟩ (by rw [hu]; rfl)
      · exact hs.goto htail ⟨hp, hfragment, hpossible hlt⟩ (by rw [hu]; rfl)
  · exact hs.goto htail ⟨hp, hupload⟩ (by rw [hu]; rfl)

/-- A fragment is posted. -/
theorem Inv.send (hs : s.Inv) {p : Posting} {upload : Nat} (env : UploadEnv)
    (hu : s.uploading = .sending p upload) : (s.doLogUpload env).Inv := by
  have htail := hs.tail_le
  have hsound := hs.sound
  rw [hu] at htail hsound
  obtain ⟨hp, hupload⟩ := hsound
  have hle := hp.header_le
  have hsum := hp.sum
  have hleft : p.origPostSize - p.actualPostPayload = p.postSize := by omega
  unfold doLogUpload
  rw [hu]
  simp only
  split
  · refine hs.goto htail ⟨by omega, fun _ => by omega⟩ ?_
    rw [hu]
    simp only [remaining, front, tailFrom, reduceCtorEq, if_false, hleft]
  · rename_i hne
    rcases hupload with h0 | ⟨hgt, hpost⟩
    · exact absurd h0 hne
    split
    · rename_i hok
      refine hs.post (by omega) (by simp only [tailFrom]; omega) htail ⟨hp, hgt, hpost⟩ ?_
      rw [hu, if_pos hok]
      simp only [remaining, front, tailFrom]
      rw [s.logBuffer.load_split (Nat.le_of_lt hgt) hpost, List.append_assoc]
    · rename_i hfail
      refine hs.post (by omega) (by simp only [tailFrom]; omega) htail
        ⟨by omega, fun _ => by omega⟩ ?_
      rw [hu, if_neg hfail]
      simp only [remaining, front, tailFrom, reduceCtorEq, if_false, hleft, List.nil_append]

/-- The log that is left moves forward, and a zero byte ends it. -/
theorem Inv.moveLeft (hs : s.Inv) {p : Posting} {upload : Nat}
    (hu : s.uploading = .moving p upload) : (s.moveLeft p upload).Inv := by
  have htail := hs.tail_le
  have hsound := hs.sound
  rw [hu] at htail hsound
  obtain ⟨hp, hgt, hle⟩ := hsound
  have hsum := hp.sum
  change p.origPostSize ≤ s.writeIndex at htail
  -- the new post_size, and where the moved log ends
  let postSize := p.postSize - (upload - logBufFixedHeaderSize)
  have hsize : logBufFixedHeaderSize + (p.postSize - upload) = postSize := by omega
  let m := (s.logBuffer.move logBufFixedHeaderSize upload (p.postSize - upload)).fill postSize 0
    (p.origPostSize - postSize)
  have hmoved : m.load logBufFixedHeaderSize (postSize - logBufFixedHeaderSize) =
      s.logBuffer.load upload (p.postSize - upload) := by
    rw [show postSize - logBufFixedHeaderSize = p.postSize - upload by omega]
    exact Memory.load_pull _ _ (by omega)
  have hnew : m.load p.origPostSize (s.writeIndex - p.origPostSize) =
      s.logBuffer.load p.origPostSize (s.writeIndex - p.origPostSize) := by
    refine (Memory.load_fill_after _ _ (by omega)).trans ?_
    exact Memory.load_move_after _ (by omega)
  have hposting : Posting.Sound m ⟨p.origPostSize, postSize,
      p.actualPostPayload + (upload - logBufFixedHeaderSize)⟩ :=
    ⟨(by omega : logBufFixedHeaderSize ≤ postSize),
      (by omega : postSize + (p.actualPostPayload + (upload - logBufFixedHeaderSize)) =
        p.origPostSize),
      fun h => absurd h (by change postSize ≠ p.origPostSize; omega),
      fun h => Memory.fill_inside _ _ (Nat.le_refl _) (by
        change postSize < p.origPostSize at h
        change postSize < postSize + (p.origPostSize - postSize)
        omega)⟩
  have hplain : ∀ i < logBufFixedHeaderSize, m i ≠ formFeed := by
    intro i hi
    have hcell : m i = s.logBuffer i := Memory.pull_of_lt _ _ hi (by omega)
    rw [hcell]
    exact hs.plain i hi
  have hconserved := hs.conserved
  rw [hu] at hconserved
  unfold LogUploader.moveLeft
  refine ⟨hs.noCommErr, hs.saves, hplain, hs.header_le, ?_, ?_, ?_⟩
  · simp only
    split <;> exact htail
  · simp only
    split
    · exact ⟨hposting, fun _ => .inl rfl, .inl rfl⟩
    · exact ⟨by omega, fun h => absurd rfl h⟩
  · simp only
    rw [hconserved]
    refine congrArg _ ?_
    split
    · exact (congrArg₂ _ hmoved hnew).symm
    · rename_i hdone
      -- nothing is left
      have hnone : s.logBuffer.load upload (p.postSize - upload) = [] := by
        rw [show p.postSize - upload = 0 by omega, Memory.load_zero]
      exact congrArg₂ _ hnone hnew.symm

/-- After a failure the log of the meantime moves up to what was not sent. -/
theorem Inv.makeRoom (hs : s.Inv) {size actual : Nat} {rc : ReturnCode} (hrc : rc ≠ .retSuccess)
    (hu : s.uploading = .posted size rc actual) : (s.makeRoom size actual).Inv := by
  have htail := hs.tail_le
  have hsound := hs.sound
  have hconserved := hs.conserved
  rw [hu] at htail hsound hconserved
  change size ≤ s.writeIndex at htail
  have hsum := hsound.2 hrc
  simp only [remaining, front, tailFrom, if_neg hrc] at hconserved
  unfold LogUploader.makeRoom
  split
  · rename_i h0
    refine hs.goto (Nat.le_refl _) hs.header_le ?_
    rw [hu]
    simp only [remaining, front, tailFrom, if_neg hrc, Nat.sub_self, Memory.load_zero,
      List.append_nil, h0, Nat.sub_zero]
    exact s.logBuffer.load_split hsound.1 htail
  · let w := s.writeIndex - actual
    let m := (s.logBuffer.move (size - actual) size (s.writeIndex - size)).fill w 0
      (logUploadBufferSize - w)
    have hunsent : m.load logBufFixedHeaderSize (size - actual - logBufFixedHeaderSize) =
        s.logBuffer.load logBufFixedHeaderSize (size - actual - logBufFixedHeaderSize) := by
      refine (Memory.load_fill_before _ _ (by omega)).trans ?_
      exact Memory.load_move_before _ (by omega)
    have hnew : m.load (size - actual) (w - (size - actual)) =
        s.logBuffer.load size (s.writeIndex - size) := by
      rw [show w - (size - actual) = s.writeIndex - size by omega]
      exact Memory.load_pull _ _ (by omega)
    refine ⟨hs.noCommErr, hs.saves, fun i hi => ?_, ?_, Nat.le_refl _, ?_, ?_⟩
    · have hcell : m i = s.logBuffer i := Memory.pull_of_lt _ _ (by omega) (by omega)
      change m i ≠ formFeed
      rw [hcell]
      exact hs.plain i hi
    · change logBufFixedHeaderSize ≤ w
      omega
    · change logBufFixedHeaderSize ≤ w
      omega
    · change s.accepted.flatten = s.gone.flatMap _ ++ (m.load _ (w - _) ++ m.load w (w - w))
      rw [hconserved, Nat.sub_self, Memory.load_zero, List.append_nil,
        m.load_split (b := size - actual) (by omega) (by omega), hunsent, hnew]

/-- What was appended since the upload took its size becomes the contents. -/
theorem Inv.closeUpload (hs : s.Inv) {size : Nat} (hu : s.uploading = .closing size) :
    (s.closeUpload size).Inv := by
  have htail := hs.tail_le
  have hconserved := hs.conserved
  rw [hu] at htail hconserved
  change size ≤ s.writeIndex at htail
  simp only [remaining, front, tailFrom, List.nil_append] at hconserved
  unfold LogUploader.closeUpload
  split
  · rename_i hall
    refine ⟨hs.noCommErr, hs.saves, fun i hi => ?_, Nat.le_refl _, Nat.le_refl _, trivial, ?_⟩
    · change Memory.fill _ _ _ _ i ≠ formFeed
      rw [Memory.fill, Memory.store_of_lt _ _ hi]
      exact hs.plain i hi
    · rw [hall, Nat.sub_self, Memory.load_zero] at hconserved
      simpa [remaining, front, tailFrom, resetLogBuffer] using hconserved
  · let w := s.writeIndex - size + logBufFixedHeaderSize
    let m := (s.logBuffer.move logBufFixedHeaderSize size (s.writeIndex - size)).fill w 0
      (logUploadBufferSize - w)
    refine ⟨hs.noCommErr, hs.saves, fun i hi => ?_, Nat.le_add_left _ _, Nat.le_add_left _ _,
      trivial, ?_⟩
    · have hcell : m i = s.logBuffer i := Memory.pull_of_lt _ _ hi (by omega)
      change m i ≠ formFeed
      rw [hcell]
      exact hs.plain i hi
    · change s.accepted.flatten = s.gone.flatMap _ ++ ([] ++ m.load logBufFixedHeaderSize
        (w - logBufFixedHeaderSize))
      rw [hconserved, List.nil_append,
        show w - logBufFixedHeaderSize = s.writeIndex - size by omega]
      exact congrArg _ (Memory.load_pull _ _ (by omega)).symm

/-- A small buffer is posted at once, a large one cut first. -/
theorem Inv.postOrCut (hs : s.Inv) (env : UploadEnv) {size : Nat} (hu : s.uploading = .posting size) :
    (s.doLogUpload env).Inv := by
  have htail := hs.tail_le
  have hsound := hs.sound
  rw [hu] at htail hsound
  unfold LogUploader.doLogUpload
  rw [hu]
  simp only
  split
  · refine @Inv.post _ hs size _ _ hsound hsound htail ⟨hsound, fun hrc => ?_⟩ ?_
    · rw [if_neg hrc]
      exact hsound
    · rw [hu]
      simp only [remaining, front, tailFrom]
      by_cases hok : env.post = .retSuccess
      · simp only [if_pos hok, List.nil_append]
      · simp only [if_neg hok, List.nil_append, Nat.sub_zero]
  · rename_i hlarge
    refine hs.goto htail ⟨⟨hsound, rfl, fun _ => Nat.le_of_not_lt hlarge, fun h => ?_⟩,
      fun _ => .inl rfl, .inl rfl⟩ (by rw [hu]; rfl)
    exact absurd h (Nat.lt_irrefl _)

/-- Every step of an upload keeps the invariant. -/
theorem Inv.doLogUpload (hs : s.Inv) (env : UploadEnv) : (s.doLogUpload env).Inv := by
  have htail := hs.tail_le
  cases hu : s.uploading with
  | idle =>
    unfold LogUploader.doLogUpload
    rw [hu]
    simp only
    split
    · exact hs.goto hs.header_le trivial (by rw [hu]; rfl)
    · unfold checkForceUploadBuffer
      rw [if_neg (by simp [hs.noCommErr])]
      exact hs
  | started =>
    unfold LogUploader.doLogUpload
    rw [hu]
    simp only
    split
    · exact hs.goto hs.header_le trivial (by rw [hu]; rfl)
    · exact hs.goto hs.header_le trivial (by rw [hu]; rfl)
  | sizing =>
    unfold LogUploader.doLogUpload
    rw [hu]
    refine hs.goto (Nat.le_refl _) hs.header_le ?_
    rw [hu]
    simp [remaining, front, tailFrom]
  | posting size => exact hs.postOrCut env hu
  | locating p possible upload =>
    unfold LogUploader.doLogUpload
    rw [hu]
    exact hs.locate hu
  | sending p upload => exact hs.send env hu
  | moving p upload =>
    unfold LogUploader.doLogUpload
    rw [hu]
    exact hs.moveLeft hu
  | posted size rc actual =>
    rw [hu] at htail
    unfold LogUploader.doLogUpload
    rw [hu]
    simp only
    split
    · rename_i hfail
      exact hs.makeRoom hfail.1 hu
    · rename_i hok
      have hrc : rc = .retSuccess := by
        by_contra hne
        exact hok ⟨hne, hs.saves⟩
      refine hs.goto htail trivial ?_
      rw [hu, hrc]
      rfl
  | saving size =>
    rw [hu] at htail
    have hconserved := hs.conserved
    rw [hu] at hconserved
    unfold LogUploader.doLogUpload
    rw [hu]
    refine ⟨hs.noCommErr, hs.saves, hs.plain, hs.header_le, htail, trivial, ?_⟩
    rw [hconserved]
    simp [remaining, front, tailFrom, Gone.logBytes]
  | closing size =>
    unfold LogUploader.doLogUpload
    rw [hu]
    exact hs.closeUpload hu

/-! ## Runs -/

/-- What the threads may do: append entries of two bytes or more, the last two of which are taken
for a line end, and upload. -/
def Act.Allowed : Act → Prop
  | .append logContent _ => 2 ≤ logContent.length
  | .upload _ => True
  | .clear => False

theorem Inv.step (hs : s.Inv) {a : Act} (ha : a.Allowed) : (s.step a).Inv := by
  cases a with
  | append logContent locked => exact hs.append locked ha
  | upload env => exact hs.doLogUpload env
  | clear => exact absurd ha id

/-- The accepted bytes are those that have left the buffer, in order, and then its contents. -/
def Conserved (s : LogUploader) : Prop :=
  s.accepted.flatten = s.gone.flatMap Gone.logBytes ++ s.contents

/-- Two entries; the post of the first fails while the second is on its way. -/
def failedPost : List Act :=
  let stamp : Stamp := ⟨.replicate 10 48, .replicate 40 97, by decide, by decide, by decide⟩
  let upload : Act := .upload ⟨true, false, stamp, .errHttp⟩
  [.append [97, 98, 13, 10] true, upload, upload, upload, .append [99, 13, 10] true, upload, upload,
    upload, .append [100, 13, 10] true, upload]

end LogUploader

end QcloudIot.Log
