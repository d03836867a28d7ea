import QcloudIot.Log.Conservation

/-!
# Cutting a large log into posts

`_post_log_to_server` of `log_upload.c` as a function of the buffer it is given, for the two buffers
it is called with: `sg_log_buffer`, and the one `_handle_saved_log` reads the saved log into. A log
of `MAX_HTTP_LOG_POST_SIZE` bytes or more is cut at the last delimiter before that limit, posted,
and the rest moved to the front, until nothing is left or a post fails.

* `locateCut` terminates because every search ends past the one before; `postFragments` takes fuel.
* `Post` records each call of `_post_one_http_to_server`: the body and the answer.

## Results

* `locateCut_finds`: the cut is a delimiter's end within the limit;
* `text_cut`: what is behind a delimiter's end is entries again;
* **`postLogToServer_splits`**: every post is short and ends at a delimiter, and the payload is what
  was posted, of the length reported, and then what is still in the buffer;
* `doLogUpload_postLogToServer`: the steps of `doLogUpload` compute it on `sg_log_buffer`.
-/

namespace QcloudIot.Log

open Lib

/-! ## The entries of a log -/

/-- `LOG_DELIMITER`. -/
def logDelimiter : Bytes := [newline, formFeed]

/-- An entry, without its delimiter. It holds no zero byte, and fits into a post. -/
structure Entry where
  content : Bytes
  noNul : ∀ b ∈ content, b ≠ 0
  fits : logBufFixedHeaderSize + (content.length + 2) < maxHttpLogPostSize

namespace Entry

def bytes (e : Entry) : Bytes := e.content ++ logDelimiter

/-- The entry's own delimiter is the only one in it. -/
def Single (e : Entry) : Prop := ∀ a b, e.bytes = a ++ logDelimiter ++ b → b = []

end Entry

/-- The payload of these entries. -/
def text (es : List Entry) : Bytes := es.flatMap Entry.bytes

/-- A byte as the header has them: neither zero nor one of the delimiter's. -/
def Clean (b : UInt8) : Prop := b ≠ 0 ∧ b ≠ newline ∧ b ≠ formFeed

/-- A clean header, and behind it these entries. -/
structure Holds (m : Memory UInt8) (es : List Entry) : Prop where
  header : ∀ i < logBufFixedHeaderSize, Clean (m i)
  payload : m.load logBufFixedHeaderSize (text es).length = text es

/-! ## The function -/

/-- What one post meets: the digits stamped on the header, and the answer. -/
structure PostEnv where
  stamp : Stamp
  clean : ∀ b ∈ stamp.timestamp ++ stamp.signature, Clean b
  post : ReturnCode

/-- A call of `_post_one_http_to_server`. -/
structure Post where
  body : Bytes
  rc : ReturnCode

/-- The log bytes of a post. -/
def Post.logBytes (p : Post) : Bytes := p.body.drop logBufFixedHeaderSize

/-- What the successful posts delivered. -/
def delivered (posts : List Post) : Bytes :=
  (posts.filter fun p => p.rc = .retSuccess).flatMap Post.logBytes

/-- What `_post_log_to_server` leaves behind. -/
structure Outcome where
  rc : ReturnCode
  actualPostPayload : Nat
  postBuf : Memory UInt8
  posts : List Post

/-- `_update_time_and_signature` on a buffer. -/
def stamped (m : Memory UInt8) (stamp : Stamp) : Memory UInt8 :=
  (m.store (logBufFixedHeaderSize - 10) stamp.timestamp).store 0 stamp.signature

/-- The loop that locates the delimiters, in a buffer of `bufSize` bytes; `none` where there is
none. -/
def locateCut (m : Memory UInt8) (bufSize possible upload : Nat) : Option Nat :=
  if possible < maxHttpLogPostSize then
    -- remember last valid position
    match _h : LogUploader.strstrDelimiter m (bufSize - possible) possible with
    | none => none
    | some next =>
      -- end of log
      if m (next + 2) = 0 ∧ next + 2 < maxHttpLogPostSize then some (next + 2)
      else locateCut m bufSize (next + 2) possible
  else some upload
termination_by maxHttpLogPostSize - possible
decreasing_by
  have := (strstrDelimiter_some _h).1
  omega

/-- The round that finds no delimiter. -/
theorem locateCut_none {m : Memory UInt8} {bufSize possible upload : Nat}
    (hlt : possible < maxHttpLogPostSize)
    (hfound : LogUploader.strstrDelimiter m (bufSize - possible) possible = none) :
    locateCut m bufSize possible upload = none := by
  rw [locateCut.eq_def, if_pos hlt]
  split
  · rfl
  · rename_i next hsome
    rw [hfound] at hsome
    cases hsome

/-- The round that finds one. -/
theorem locateCut_some {m : Memory UInt8} {bufSize possible upload next : Nat}
    (hlt : possible < maxHttpLogPostSize)
    (hfound : LogUploader.strstrDelimiter m (bufSize - possible) possible = some next) :
    locateCut m bufSize possible upload =
      if m (next + 2) = 0 ∧ next + 2 < maxHttpLogPostSize then some (next + 2)
      else locateCut m bufSize (next + 2) possible := by
  rw [locateCut.eq_def, if_pos hlt]
  split
  · rename_i hnone
    rw [hfound] at hnone
    cases hnone
  · rename_i next' hsome
    rw [hfound] at hsome
    cases hsome
    rfl

/-- The last round. -/
theorem locateCut_beyond {m : Memory UInt8} {bufSize possible upload : Nat}
    (hge : ¬possible < maxHttpLogPostSize) : locateCut m bufSize possible upload = some upload := by
  rw [locateCut.eq_def, if_neg hge]

/-- The left log moves forward behind the header, and what it leaves is cleared. -/
def movedLeft (m : Memory UInt8) (p : Posting) (upload : Nat) : Memory UInt8 :=
  let postSize := p.postSize - (upload - logBufFixedHeaderSize)
  (m.move logBufFixedHeaderSize upload (p.postSize - upload)).fill postSize 0
    (p.origPostSize - postSize)

/-- The variables after a fragment of `upload` bytes. -/
def Posting.advance (p : Posting) (upload : Nat) : Posting where
  origPostSize := p.origPostSize
  postSize := p.postSize - (upload - logBufFixedHeaderSize)
  actualPostPayload := p.actualPostPayload + (upload - logBufFixedHeaderSize)

/-- The loop over the fragments; the `k`-th post meets `env k`. -/
def postFragments (bufSize : Nat) (env : Nat → PostEnv) :
    (fuel : Nat) → Posting → Memory UInt8 → List Post → Option Outcome
  | 0, _, _, _ => none
  | fuel + 1, p, m, posts =>
    match locateCut m bufSize 0 0 with
    | none => some ⟨.errInval, p.actualPostPayload, m, posts⟩
    | some 0 => some ⟨.errFailure, p.actualPostPayload, m, posts⟩
    | some upload =>
      let e := env posts.length
      let m := stamped m e.stamp
      let posts := posts ++ [⟨m.load 0 upload, e.post⟩]
      if e.post ≠ .retSuccess then some ⟨.errFailure, p.actualPostPayload, m, posts⟩
      else
        -- move the left log forward and do next upload
        let m := movedLeft m p upload
        let p := p.advance upload
        if p.postSize > logBufFixedHeaderSize then postFragments bufSize env fuel p m posts
        else some ⟨.retSuccess, p.actualPostPayload, m, posts⟩

/-- `_post_log_to_server` of the first `postSize` bytes of a buffer of `bufSize`. -/
def postLogToServer (bufSize : Nat) (env : Nat → PostEnv) (fuel : Nat) (postBuf : Memory UInt8)
    (postSize : Nat) : Option Outcome :=
  if postSize < maxHttpLogPostSize then
    -- one shot upload
    let m := stamped postBuf (env 0).stamp
    some ⟨(env 0).post, if (env 0).post = .retSuccess then postSize - logBufFixedHeaderSize else 0,
      m, [⟨m.load 0 postSize, (env 0).post⟩]⟩
  else postFragments bufSize env fuel ⟨postSize, postSize, 0⟩ postBuf []

/-! ## Where a payload may be cut -/

theorem newline_ne_zero : newline ≠ 0 := by decide

theorem formFeed_ne_zero : formFeed ≠ 0 := by decide

theorem formFeed_ne_newline : formFeed ≠ newline := by decide

@[simp] theorem text_nil : text [] = [] := rfl

@[simp] theorem text_cons (e : Entry) (es : List Entry) : text (e :: es) = e.bytes ++ text es := rfl

@[simp] theorem text_append (es es' : List Entry) : text (es ++ es') = text es ++ text es' :=
  List.flatMap_append

/-- A payload ends with a delimiter. -/
theorem text_ends : ∀ {es : List Entry}, es ≠ [] → ∃ t, text es = t ++ logDelimiter
  | [], h => absurd rfl h
  | [e], _ => ⟨e.content, by simp [Entry.bytes]⟩
  | e :: e' :: es, _ => by
    obtain ⟨t, ht⟩ := text_ends (List.cons_ne_nil e' es)
    exact ⟨e.bytes ++ t, by rw [text_cons, ht, List.append_assoc]⟩

theorem ne_zero_of_mem_text {es : List Entry} {b : UInt8} (h : b ∈ text es) : b ≠ 0 := by
  obtain ⟨e, -, hb⟩ := List.mem_flatMap.mp h
  rcases List.mem_append.mp hb with hb | hb
  · exact e.noNul b hb
  · simp only [logDelimiter, List.mem_cons, List.not_mem_nil, or_false] at hb
    rcases hb with rfl | rfl
    · exact newline_ne_zero
    · exact formFeed_ne_zero

/-- What is left behind a form feed, of a text that ends with a delimiter, ends with one. -/
theorem delimited_of_append {x c t : Bytes} (h : x ++ logDelimiter ++ c = t ++ logDelimiter)
    (hc : c ≠ []) : ∃ c', c = c' ++ logDelimiter := by
  obtain ⟨d, y, rfl⟩ : ∃ d y, c = d ++ [y] := ⟨_, _, (List.dropLast_append_getLast hc).symm⟩
  have hcut : (x ++ logDelimiter ++ d) ++ [y] = (t ++ [newline]) ++ [formFeed] := by
    simpa [logDelimiter] using h
  obtain ⟨hfront, hy⟩ := List.append_inj' hcut rfl
  rcases List.eq_nil_or_concat d with rfl | ⟨d', z, rfl⟩
  · -- one byte alone cannot end a delimiter: a form feed stands before it
    have hend : (x ++ [newline]) ++ [formFeed] = t ++ [newline] := by
      simpa [logDelimiter] using hfront
    have hbyte := (List.append_inj' hend rfl).2
    exact absurd (List.head_eq_of_cons_eq hbyte) formFeed_ne_newline
  · have hend : (x ++ logDelimiter ++ d') ++ [z] = t ++ [newline] := by
      simpa [List.append_assoc] using hfront
    obtain ⟨-, hz⟩ := List.append_inj' hend rfl
    refine ⟨d', ?_⟩
    rw [List.concat_eq_append, hz, hy, List.append_assoc]
    rfl

section

variable {e : Entry} {a c : Bytes} (h : e.bytes = a ++ (c ++ logDelimiter))
include h

theorem Entry.rest_noNul : ∀ b ∈ c, b ≠ 0 := by
  intro b hb
  have hmem : b ∈ text [e] := by
    rw [text_cons, text_nil, List.append_nil, h]
    exact List.mem_append_right _ (List.mem_append_left _ hb)
  exact ne_zero_of_mem_text hmem

theorem Entry.rest_fits : logBufFixedHeaderSize + (c.length + 2) < maxHttpLogPostSize := by
  have hlen := congrArg List.length h
  have hfits := e.fits
  simp only [Entry.bytes, List.length_append] at hlen
  omega

end

/-- The rest of an entry behind a delimiter in it. -/
def Entry.rest (e : Entry) {a c : Bytes} (h : e.bytes = a ++ (c ++ logDelimiter)) : Entry :=
  ⟨c, Entry.rest_noNul h, Entry.rest_fits h⟩

/-- **Behind a delimiter's end are entries again**, those behind the entry that ends there where
entries hold no delimiter but their own. -/
theorem text_cut : ∀ (es : List Entry) {a b : Bytes}, text es = a ++ logDelimiter ++ b →
    ∃ es', b = text es' ∧ ((∀ e ∈ es, e.Single) →
      ∃ run, es = run ++ es' ∧ a ++ logDelimiter = text run)
  | [], a, b, h => by simp [logDelimiter] at h
  | e :: es, a, b, h => by
    rw [text_cons] at h
    rcases List.append_eq_append_iff.mp h with ⟨c, hac, hes⟩ | ⟨c, hbytes, hb⟩
    · -- the cut is behind this entry
      by_cases hc : c = []
      · rw [hc, List.append_nil] at hac
        rw [hc, List.nil_append] at hes
        exact ⟨es, hes.symm, fun _ => ⟨[e], rfl, by simpa using hac⟩⟩
      obtain ⟨c', rfl⟩ := delimited_of_append hac.symm hc
      obtain ⟨es', hb, hruns⟩ := text_cut es hes
      refine ⟨es', hb, fun hsingle => ?_⟩
      obtain ⟨run, hrun, hc'⟩ := hruns fun x hx => hsingle x (List.mem_cons_of_mem _ hx)
      refine ⟨e :: run, by rw [hrun, List.cons_append], ?_⟩
      rw [hac, hc', text_cons]
    · -- it is in this entry, or at its end
      by_cases hc : c = []
      · rw [hc, List.append_nil] at hbytes
        rw [hc, List.nil_append] at hb
        exact ⟨es, hb, fun _ => ⟨[e], rfl, by simpa using hbytes.symm⟩⟩
      obtain ⟨c', rfl⟩ := delimited_of_append hbytes.symm hc
      refine ⟨e.rest hbytes :: es, by rw [hb]; rfl, fun hsingle => ?_⟩
      exact absurd (hsingle e (List.mem_cons_self ..) _ _ hbytes) hc

/-! ## One cut -/

/-- A delimiter at `pos`. -/
def DelimiterAt (m : Memory UInt8) (pos : Nat) : Prop := m pos = newline ∧ m (pos + 1) = formFeed

/-- What the loop that locates the delimiters needs of the buffer. -/
structure Cuttable (m : Memory UInt8) (bufSize postSize : Nat) : Prop where
  clean : ∀ i < logBufFixedHeaderSize, Clean (m i)
  noNul : ∀ i < postSize, m i ≠ 0
  room : postSize ≤ bufSize
  /-- The first entry fits into a post. -/
  first : ∃ q, q + 2 ≤ postSize ∧ q + 2 < maxHttpLogPostSize ∧ DelimiterAt m q
  last : ∃ q, q + 2 = postSize ∧ DelimiterAt m q
  ended : postSize < maxHttpLogPostSize → m postSize = 0

/-- The end of a delimiter in the payload, within the limit. -/
def CutAt (m : Memory UInt8) (postSize n : Nat) : Prop :=
  ∃ pos, n = pos + 2 ∧ logBufFixedHeaderSize ≤ pos ∧ n ≤ postSize ∧ n < maxHttpLogPostSize ∧
    DelimiterAt m pos

/-- The search finds the first delimiter, if zero bytes come later. -/
theorem strstrDelimiter_finds {m : Memory UInt8} : ∀ {left p q : Nat}, p ≤ q → q < p + left →
    (∀ i, p ≤ i → i ≤ q → m i ≠ 0) → DelimiterAt m q →
      ∃ pos, LogUploader.strstrDelimiter m left p = some pos ∧ pos ≤ q
  | 0, _, _, hle, hlt, _, _ => absurd hlt (by omega)
  | left + 1, p, q, hle, hlt, hmid, hq => by
    rw [LogUploader.strstrDelimiter, if_neg (hmid p (Nat.le_refl _) hle)]
    split
    · exact ⟨p, rfl, hle⟩
    · rename_i hno
      have hne : p ≠ q := fun h => hno (h ▸ hq)
      exact strstrDelimiter_finds (by omega) (by omega) (fun i hi => hmid i (by omega)) hq

section

variable {m : Memory UInt8} {bufSize postSize : Nat}

/-- A delimiter lies past a clean header. -/
theorem Cuttable.header_le (hm : Cuttable m bufSize postSize) {pos : Nat}
    (hpos : DelimiterAt m pos) : logBufFixedHeaderSize ≤ pos := by
  by_contra hlt
  exact (hm.clean pos (by omega)).2.1 hpos.1

/-- The search from `p` on finds a delimiter if one lies there. -/
theorem Cuttable.search (hm : Cuttable m bufSize postSize) {p q : Nat} (hpq : p ≤ q)
    (hq : q + 2 ≤ postSize) (hdelim : DelimiterAt m q) :
    ∃ pos, LogUploader.strstrDelimiter m (bufSize - p) p = some pos ∧ pos ≤ q ∧
      DelimiterAt m pos := by
  have hroom := hm.room
  have hlt : q < p + (bufSize - p) := by omega
  obtain ⟨pos, hfound, hle⟩ := strstrDelimiter_finds hpq hlt
    (fun i _ hi => hm.noNul i (by omega)) hdelim
  obtain ⟨-, hline, hfeed, -⟩ := strstrDelimiter_some hfound
  exact ⟨pos, hfound, hle, hline, hfeed⟩

/-- A cut before the end leaves a whole delimiter behind it. -/
theorem Cuttable.last_after (hm : Cuttable m bufSize postSize) {n : Nat}
    (hcut : CutAt m postSize n) (hlt : n < postSize) :
    ∃ q, n ≤ q ∧ q + 2 ≤ postSize ∧ DelimiterAt m q := by
  obtain ⟨q, hq, hdelim⟩ := hm.last
  obtain ⟨pos, hn, -, -, -, hpos⟩ := hcut
  refine ⟨q, ?_, by omega, hdelim⟩
  by_contra hbefore
  -- else the form feed that ends the cut is the line end of the last delimiter
  have hq1 : q = pos + 1 := by omega
  rw [hq1] at hdelim
  exact formFeed_ne_newline (hpos.2.symm.trans hdelim.1)

/-- **The cut is the end of a delimiter, within the limit.** In the loop `possible_size` is unset, or
a cut before the end, or beyond the limit with a cut remembered. -/
theorem locateCut_finds (hm : Cuttable m bufSize postSize) : ∀ {possible upload : Nat},
    possible = 0 ∨ (CutAt m postSize possible ∧ possible < postSize) ∨
      (maxHttpLogPostSize ≤ possible ∧ CutAt m postSize upload) →
    ∃ n, locateCut m bufSize possible upload = some n ∧ CutAt m postSize n := by
  intro possible upload hstate
  induction hk : maxHttpLogPostSize - possible using Nat.strongRecOn
    generalizing possible upload with
  | ind k ih =>
    by_cases hmax : possible < maxHttpLogPostSize
    · -- a delimiter lies ahead; the first time within the limit
      have hahead : ∃ q, possible ≤ q ∧ q + 2 ≤ postSize ∧ DelimiterAt m q ∧
          (q + 2 < maxHttpLogPostSize ∨ CutAt m postSize possible) := by
        rcases hstate with rfl | ⟨hcut, hlt⟩ | ⟨hge, -⟩
        · obtain ⟨q, hq, hqmax, hdelim⟩ := hm.first
          exact ⟨q, Nat.zero_le _, hq, hdelim, .inl hqmax⟩
        · obtain ⟨q, hle, hq, hdelim⟩ := hm.last_after hcut hlt
          exact ⟨q, hle, hq, hdelim, .inr hcut⟩
        · omega
      obtain ⟨q, hle, hq, hdelim, hcut⟩ := hahead
      obtain ⟨pos, hfound, hposq, hpos⟩ := hm.search hle hq hdelim
      have hge := (strstrDelimiter_some hfound).1
      have hnext : pos + 2 < maxHttpLogPostSize → CutAt m postSize (pos + 2) := fun hlt =>
        ⟨pos, rfl, hm.header_le hpos, by omega, hlt, hpos⟩
      rw [locateCut_some hmax hfound]
      by_cases hend : m (pos + 2) = 0 ∧ pos + 2 < maxHttpLogPostSize
      · rw [if_pos hend]
        exact ⟨pos + 2, rfl, hnext hend.2⟩
      · rw [if_neg hend]
        refine ih _ (by omega) ?_ rfl
        by_cases hlt : pos + 2 < maxHttpLogPostSize
        · refine .inr (.inl ⟨hnext hlt, ?_⟩)
          by_contra hno
          have hall : pos + 2 = postSize := by omega
          exact hend ⟨hall ▸ hm.ended (by omega), hlt⟩
        · refine .inr (.inr ⟨by omega, ?_⟩)
          rcases hcut with hqmax | hcut
          · omega
          · exact hcut
    · rw [locateCut_beyond hmax]
      refine ⟨upload, rfl, ?_⟩
      rcases hstate with rfl | ⟨⟨_, _, _, _, hlt, _⟩, _⟩ | ⟨-, hcut⟩
      · exact absurd (by decide) hmax
      · exact absurd hlt hmax
      · exact hcut

end

/-! ## One round -/

section

variable {m : Memory UInt8} {es : List Entry}

/-- A byte of the payload, in the buffer. -/
theorem Holds.cell (hm : Holds m es) {i : Nat} (hi : i < (text es).length) :
    m (logBufFixedHeaderSize + i) = (text es)[i] := by
  have h := List.getElem_of_eq hm.payload.symm hi
  rw [h]
  simp [Memory.load]

/-- A delimiter of the payload, in the buffer. -/
theorem Holds.delimiterAt (hm : Holds m es) {a b : Bytes} (h : text es = a ++ logDelimiter ++ b) :
    DelimiterAt m (logBufFixedHeaderSize + a.length) := by
  have hlen : (text es).length = a.length + 2 + b.length := by
    simp only [h, List.length_append, logDelimiter, List.length_cons, List.length_nil]
  have h0 := hm.cell (i := a.length) (by omega)
  have h1 := hm.cell (i := a.length + 1) (by omega)
  refine ⟨h0.trans ?_, h1.trans ?_⟩
  · simp [h, logDelimiter]
  · simp [h, logDelimiter]

/-- The entries in the buffer can be cut. -/
theorem Holds.cuttable (hm : Holds m es) (hes : es ≠ []) (bufSize : Nat)
    (hroom : logBufFixedHeaderSize + (text es).length ≤ bufSize)
    (hended : logBufFixedHeaderSize + (text es).length < maxHttpLogPostSize →
      m (logBufFixedHeaderSize + (text es).length) = 0) :
    Cuttable m bufSize (logBufFixedHeaderSize + (text es).length) where
  clean := hm.header
  noNul := fun i hi => by
    by_cases hlt : i < logBufFixedHeaderSize
    · exact (hm.header i hlt).1
    · have hcell := hm.cell (i := i - logBufFixedHeaderSize) (by omega)
      rw [Nat.add_sub_cancel' (by omega)] at hcell
      rw [hcell]
      exact ne_zero_of_mem_text (List.getElem_mem _)
  room := hroom
  first := by
    obtain ⟨e, es', rfl⟩ := List.exists_cons_of_ne_nil hes
    have hfits := e.fits
    refine ⟨_, ?_, ?_, hm.delimiterAt (a := e.content) (b := text es') rfl⟩
    · simp only [text_cons, Entry.bytes, List.length_append, logDelimiter, List.length_cons,
        List.length_nil]
      omega
    · omega
  last := by
    obtain ⟨t, ht⟩ := text_ends hes
    refine ⟨_, ?_, hm.delimiterAt (a := t) (b := []) (by rw [ht, List.append_nil])⟩
    rw [ht, List.length_append]
    rfl
  ended := hended

/-- The stamp leaves the payload, and the header clean. -/
theorem Holds.stamp (hm : Holds m es) (e : PostEnv) : Holds (stamped m e.stamp) es where
  header := LogUploader.stamp_header hm.header e.clean
  payload := (Memory.load_congr fun _ hi _ => LogUploader.stamp_after m e.stamp hi).trans hm.payload

/-- What a cut posts and what it leaves. -/
theorem Holds.split (hm : Holds m es) {n : Nat}
    (hcut : CutAt m (logBufFixedHeaderSize + (text es).length) n) :
    ∃ a es', m.load logBufFixedHeaderSize (n - logBufFixedHeaderSize) = a ++ logDelimiter ∧
      m.load n (logBufFixedHeaderSize + (text es).length - n) = text es' ∧
      text es = a ++ logDelimiter ++ text es' ∧ ((∀ e ∈ es, e.Single) →
        ∃ run, es = run ++ es' ∧ a ++ logDelimiter = text run) := by
  obtain ⟨pos, hn, hle, hpost, -, hdelim⟩ := hcut
  have hposted : m.load logBufFixedHeaderSize (n - logBufFixedHeaderSize) =
      m.load logBufFixedHeaderSize (pos - logBufFixedHeaderSize) ++ logDelimiter := by
    rw [m.load_split (b := pos) hle (by omega), hn, Nat.add_sub_cancel_left]
    refine congrArg _ ?_
    change [m (pos + 0), m (pos + 1)] = _
    rw [Nat.add_zero, hdelim.1, hdelim.2]
    rfl
  have htext := m.load_split (a := logBufFixedHeaderSize) (by omega : _ ≤ n) hpost
  rw [Nat.add_sub_cancel_left, hm.payload, hposted] at htext
  obtain ⟨es', hrest, hruns⟩ := text_cut es htext
  exact ⟨_, es', hposted, hrest, by rw [htext, hrest], hruns⟩

/-- The log left behind a post moves up to the header. -/
theorem Holds.moveLeft (hm : Holds m es) {p : Posting} {n : Nat} {es' : List Entry}
    (hn : logBufFixedHeaderSize ≤ n) (hle : n ≤ p.postSize)
    (hrest : m.load n (p.postSize - n) = text es') : Holds (movedLeft m p n) es' := by
  have hlen := congrArg List.length hrest
  rw [Memory.length_load] at hlen
  refine ⟨fun i hi => ?_, ?_⟩
  · have hcell : movedLeft m p n i = m i := Memory.pull_of_lt _ _ hi (by omega)
    rw [hcell]
    exact hm.header i hi
  · rw [← hlen]
    exact (Memory.load_pull _ _ (by omega)).trans hrest

end

/-! ## All rounds -/

/-- What the posts have delivered and what is left, of these entries. -/
structure SoFar (entries : List Entry) (posts : List Post) (actual : Nat) (left : Bytes) : Prop where
  short : ∀ p ∈ posts, p.body.length < maxHttpLogPostSize
  ends : entries ≠ [] → ∀ p ∈ posts, ∃ t, p.logBytes = t ++ logDelimiter
  whole : (∀ e ∈ entries, e.Single) → ∀ p ∈ posts, ∃ run, run <:+: entries ∧ p.logBytes = text run
  conserved : delivered posts ++ left = text entries
  count : (delivered posts).length = actual

/-- The outcome of `_post_log_to_server` on a payload of these entries: of each post, that it is
short and ends at the end of an entry; the payload is what was posted, of the length reported, and
then what is still in the buffer. -/
def Outcome.Splits (r : Outcome) (entries : List Entry) : Prop :=
  SoFar entries r.posts r.actualPostPayload (r.postBuf.load logBufFixedHeaderSize
    ((text entries).length - r.actualPostPayload))

theorem delivered_append (posts posts' : List Post) :
    delivered (posts ++ posts') = delivered posts ++ delivered posts' := by
  simp [delivered]

/-- One more post, that delivers or does not. -/
theorem SoFar.post {entries es es' : List Entry} {posts : List Post} {actual : Nat} {a : Bytes}
    (hs : SoFar entries posts actual (text es)) {p : Post}
    (hsuffix : (∀ e ∈ entries, e.Single) → es <:+ entries)
    (hshort : p.body.length < maxHttpLogPostSize) (hbody : p.logBytes = a ++ logDelimiter)
    (hsplit : text es = a ++ logDelimiter ++ text es')
    (hrun : (∀ e ∈ es, e.Single) → ∃ run, es = run ++ es' ∧ a ++ logDelimiter = text run) :
    if p.rc = .retSuccess then
      SoFar entries (posts ++ [p]) (actual + p.logBytes.length) (text es')
    else SoFar entries (posts ++ [p]) actual (text es) := by
  have hmem : ∀ {Q : Post → Prop}, (∀ x ∈ posts, Q x) → Q p → ∀ x ∈ posts ++ [p], Q x := by
    intro Q hposts hp x hx
    rcases List.mem_append.mp hx with hx | hx
    · exact hposts x hx
    · rwa [List.mem_singleton.mp hx]
  have hwhole : (∀ e ∈ entries, e.Single) → ∃ run, run <:+: entries ∧ p.logBytes = text run := by
    intro hsingle
    obtain ⟨front, hfront⟩ := hsuffix hsingle
    obtain ⟨run, hes, htext⟩ := hrun fun e he =>
      hsingle e (hfront ▸ List.mem_append_right _ he)
    exact ⟨run, ⟨front, es', by rw [List.append_assoc, ← hes, hfront]⟩, hbody.trans htext⟩
  have hone : delivered (posts ++ [p]) =
      delivered posts ++ if p.rc = .retSuccess then p.logBytes else [] := by
    rw [delivered_append]
    split
    · rename_i hok
      simp [delivered, hok]
    · rename_i hfail
      simp [delivered, hfail]
  split
  · rename_i hok
    rw [if_pos hok] at hone
    refine ⟨hmem hs.short hshort, fun h => hmem (hs.ends h) ⟨a, hbody⟩,
      fun h => hmem (hs.whole h) (hwhole h), ?_, ?_⟩
    · rw [hone, hbody, List.append_assoc, ← hsplit, hs.conserved]
    · rw [hone, List.length_append, hs.count]
  · rename_i hfail
    rw [if_neg hfail, List.append_nil] at hone
    exact ⟨hmem hs.short hshort, fun h => hmem (hs.ends h) ⟨a, hbody⟩,
      fun h => hmem (hs.whole h) (hwhole h), by rw [hone, hs.conserved], by rw [hone, hs.count]⟩

/-- With what is left in the buffer, this is an outcome. -/
theorem SoFar.splits {entries es : List Entry} {posts : List Post} {actual : Nat}
    (hs : SoFar entries posts actual (text es)) {m : Memory UInt8} (hm : Holds m es)
    (rc : ReturnCode) : Outcome.Splits ⟨rc, actual, m, posts⟩ entries := by
  have hlen := congrArg List.length hs.conserved
  rw [List.length_append, hs.count] at hlen
  unfold Outcome.Splits
  rw [← hlen, Nat.add_sub_cancel_left, hm.payload]
  exact hs

/-- The log bytes of a post from the buffer. -/
theorem logBytes_load (m : Memory UInt8) {n : Nat} (h : logBufFixedHeaderSize ≤ n)
    (rc : ReturnCode) : Post.logBytes ⟨m.load 0 n, rc⟩ =
      m.load logBufFixedHeaderSize (n - logBufFixedHeaderSize) :=
  LogUploader.logBytes_posted m h

theorem CutAt.stamp {m : Memory UInt8} {postSize n : Nat} (hcut : CutAt m postSize n)
    (stamp : Stamp) : CutAt (stamped m stamp) postSize n := by
  obtain ⟨pos, hn, hle, hpost, hmax, hline, hfeed⟩ := hcut
  refine ⟨pos, hn, hle, hpost, hmax, ?_, ?_⟩
  · exact (LogUploader.stamp_after m stamp hle).trans hline
  · exact (LogUploader.stamp_after m stamp (by omega)).trans hfeed

/-- The loop's invariant: the entries `es` are left of `entries`. -/
structure Looping (bufSize : Nat) (entries : List Entry) (p : Posting) (m : Memory UInt8)
    (posts : List Post) (es : List Entry) : Prop where
  nonempty : es ≠ []
  holds : Holds m es
  size : p.postSize = logBufFixedHeaderSize + (text es).length
  le_orig : p.postSize ≤ p.origPostSize
  room : p.origPostSize ≤ bufSize
  ended : p.postSize < maxHttpLogPostSize → m p.postSize = 0
  suffix : (∀ e ∈ entries, e.Single) → es <:+ entries
  soFar : SoFar entries posts p.actualPostPayload (text es)

/-- One round: a cut is found; after the post the loop stops with an outcome, or goes on with fewer
entries. -/
theorem Looping.round {bufSize : Nat} {entries : List Entry} {p : Posting} {m : Memory UInt8}
    {posts : List Post} {es : List Entry} (h : Looping bufSize entries p m posts es)
    (e : PostEnv) :
    ∃ n, locateCut m bufSize 0 0 = some (n + 2) ∧
      let m' := stamped m e.stamp
      let posts' := posts ++ [⟨m'.load 0 (n + 2), e.post⟩]
      let moved := movedLeft m' p (n + 2)
      (e.post ≠ .retSuccess →
        Outcome.Splits ⟨.errFailure, p.actualPostPayload, m', posts'⟩ entries) ∧
      (e.post = .retSuccess → ∃ es', (text es').length < (text es).length ∧
        (p.advance (n + 2)).postSize = logBufFixedHeaderSize + (text es').length ∧
        Outcome.Splits ⟨.retSuccess, (p.advance (n + 2)).actualPostPayload, moved, posts'⟩ entries ∧
        (es' ≠ [] → Looping bufSize entries (p.advance (n + 2)) moved posts' es')) := by
  have hsize := h.size
  have horig := h.le_orig
  have hroom := h.room
  have hcuttable := h.holds.cuttable h.nonempty bufSize (by omega)
    (by rw [← hsize]; exact h.ended)
  obtain ⟨k, hlocate, hcut⟩ : ∃ k, locateCut m bufSize 0 0 = some k ∧ CutAt m _ k :=
    locateCut_finds hcuttable (.inl rfl)
  have hholds := h.holds.stamp e
  have hcut' := hcut.stamp e.stamp
  obtain ⟨a, es', hposted, hrest, htext, hruns⟩ := hholds.split hcut'
  obtain ⟨n, rfl, hle, hpost, hmax, -⟩ := hcut'
  rw [← hsize] at hpost hrest
  have hbody : Post.logBytes ⟨(stamped m e.stamp).load 0 (n + 2), e.post⟩ = a ++ logDelimiter :=
    (logBytes_load _ (by omega) e.post).trans hposted
  have hstep := h.soFar.post (p := ⟨(stamped m e.stamp).load 0 (n + 2), e.post⟩) h.suffix
    (by rwa [Memory.length_load]) hbody htext hruns
  refine ⟨n, hlocate, fun hfail => ?_, fun hok => ?_⟩
  · rw [if_neg hfail] at hstep
    exact hstep.splits hholds _
  · rw [if_pos hok, hbody, ← hposted, Memory.length_load] at hstep
    have hmoved := hholds.moveLeft (p := p) (by omega : _ ≤ n + 2) hpost hrest
    have hlenRest := congrArg List.length hrest
    rw [Memory.length_load] at hlenRest
    have hsize' : (p.advance (n + 2)).postSize = logBufFixedHeaderSize + (text es').length := by
      change p.postSize - (n + 2 - logBufFixedHeaderSize) = _
      omega
    refine ⟨es', by omega, hsize', hstep.splits hmoved _, fun hes' => ?_⟩
    refine ⟨hes', hmoved, hsize', Nat.le_trans (Nat.sub_le _ _) horig, hroom, fun _ => ?_, ?_, hstep⟩
    · refine Memory.fill_inside _ _ (Nat.le_refl _) ?_
      change p.postSize - (n + 2 - logBufFixedHeaderSize) <
        p.postSize - (n + 2 - logBufFixedHeaderSize) +
          (p.origPostSize - (p.postSize - (n + 2 - logBufFixedHeaderSize)))
      omega
    · intro hsingle
      obtain ⟨front, hfront⟩ := h.suffix hsingle
      obtain ⟨run, hrun, -⟩ := hruns fun x hx => hsingle x (hfront ▸ List.mem_append_right _ hx)
      exact ⟨front ++ run, by rw [List.append_assoc, ← hrun, hfront]⟩

/-- **The loop ends, and splits the payload.** The induction is on the bytes left: every round
posts a delimiter at least. -/
theorem postFragments_splits {bufSize : Nat} (env : Nat → PostEnv) {entries : List Entry} (n : Nat) :
    ∀ {es : List Entry} {p : Posting} {m : Memory UInt8} {posts : List Post},
      (text es).length ≤ n → Looping bufSize entries p m posts es →
      ∃ r, (∀ fuel, n ≤ fuel → postFragments bufSize env fuel p m posts = some r) ∧
        r.Splits entries := by
  induction n with
  | zero =>
    intro es p m posts hn h
    obtain ⟨t, ht⟩ := text_ends h.nonempty
    rw [ht, List.length_append] at hn
    exact absurd hn (by simp [logDelimiter])
  | succ n ih =>
    intro es p m posts hn h
    obtain ⟨k, hlocate, hfailed, hposted⟩ := h.round (env posts.length)
    by_cases hok : (env posts.length).post = .retSuccess
    · obtain ⟨es', hless, hsize', hsplits, hloop⟩ := hposted hok
      by_cases hdone : es' = []
      · refine ⟨_, fun fuel hfuel => ?_, hsplits⟩
        obtain ⟨fuel, rfl⟩ : ∃ f, fuel = f + 1 := ⟨fuel - 1, by omega⟩
        rw [postFragments, hlocate]
        simp only
        rw [if_neg (fun hne => hne hok), if_neg (by rw [hsize', hdone]; simp)]
      · have hgt : (p.advance (k + 2)).postSize > logBufFixedHeaderSize := by
          obtain ⟨t, ht⟩ := text_ends hdone
          rw [hsize', ht, List.length_append]
          simp [logDelimiter]
        obtain ⟨r, hr, hr'⟩ := ih (by omega) (hloop hdone)
        refine ⟨r, fun fuel hfuel => ?_, hr'⟩
        obtain ⟨fuel, rfl⟩ : ∃ f, fuel = f + 1 := ⟨fuel - 1, by omega⟩
        rw [postFragments, hlocate]
        simp only
        rw [if_neg (fun hne => hne hok), if_pos hgt]
        exact hr fuel (by omega)
    · refine ⟨_, fun fuel hfuel => ?_, hfailed hok⟩
      obtain ⟨fuel, rfl⟩ : ∃ f, fuel = f + 1 := ⟨fuel - 1, by omega⟩
      rw [postFragments, hlocate]
      simp only
      rw [if_pos hok]

/-- Nothing is posted, and everything is left. -/
theorem soFar_nil (entries : List Entry) : SoFar entries [] 0 (text entries) where
  short := fun _ h => absurd h List.not_mem_nil
  ends := fun _ _ h => absurd h List.not_mem_nil
  whole := fun _ _ h => absurd h List.not_mem_nil
  conserved := rfl
  count := rfl

/-- All in one post. -/
theorem soFar_one {entries : List Entry} {p : Post} (hshort : p.body.length < maxHttpLogPostSize)
    (hbody : p.logBytes = text entries) :
    SoFar entries [p] (if p.rc = .retSuccess then (text entries).length else 0)
      (if p.rc = .retSuccess then [] else text entries) where
  short := fun x hx => by rwa [List.mem_singleton.mp hx]
  ends := fun hne x hx => by
    rw [List.mem_singleton.mp hx, hbody]
    exact text_ends hne
  whole := fun _ x hx => ⟨entries, List.infix_rfl, by rwa [List.mem_singleton.mp hx]⟩
  conserved := by
    by_cases hok : p.rc = .retSuccess
    · simp [delivered, hok, hbody]
    · simp [delivered, hok]
  count := by
    by_cases hok : p.rc = .retSuccess
    · simp [delivered, hok, hbody]
    · simp [delivered, hok]

/-- **`_post_log_to_server`.** On a buffer that holds these entries it returns, whatever the posts
answer; every fragment it posts is shorter than the limit and ends at the end of an entry; what the
successful posts delivered has the length reported and is a prefix of the payload, and the rest is
in the buffer behind the header. -/
theorem postLogToServer_splits {bufSize : Nat} {m : Memory UInt8} {entries : List Entry}
    (env : Nat → PostEnv) (hm : Holds m entries)
    (hroom : logBufFixedHeaderSize + (text entries).length ≤ bufSize) :
    ∃ r, (∀ fuel, (text entries).length ≤ fuel → postLogToServer bufSize env fuel m
      (logBufFixedHeaderSize + (text entries).length) = some r) ∧ r.Splits entries := by
  by_cases hmax : logBufFixedHeaderSize + (text entries).length < maxHttpLogPostSize
  · refine ⟨_, fun fuel _ => by rw [postLogToServer, if_pos hmax], ?_⟩
    have hholds := hm.stamp (env 0)
    have hbody : Post.logBytes ⟨(stamped m (env 0).stamp).load 0
        (logBufFixedHeaderSize + (text entries).length), (env 0).post⟩ = text entries := by
      rw [logBytes_load _ (Nat.le_add_right _ _), Nat.add_sub_cancel_left, hholds.payload]
    have hone := soFar_one (by rwa [Memory.length_load]) hbody
    unfold Outcome.Splits
    rw [Nat.add_sub_cancel_left]
    by_cases hok : (env 0).post = .retSuccess
    · simp only [hok, if_true, Nat.sub_self, Memory.load_zero] at hone ⊢
      exact hone
    · simp only [hok, if_false, Nat.sub_zero, hholds.payload] at hone ⊢
      exact hone
  · have hloop : Looping bufSize entries ⟨logBufFixedHeaderSize + (text entries).length,
        logBufFixedHeaderSize + (text entries).length, 0⟩ m [] entries :=
      ⟨fun hnil => hmax (by rw [hnil]; decide), hm, rfl, Nat.le_refl _, hroom,
        fun hlt => absurd hlt hmax, fun _ => List.suffix_refl _, soFar_nil entries⟩
    obtain ⟨r, hr, hsplits⟩ := postFragments_splits env _ (Nat.le_refl _) hloop
    refine ⟨r, fun fuel hfuel => ?_, hsplits⟩
    rw [postLogToServer, if_neg hmax]
    exact hr fuel hfuel

/-- A buffer written from the start holds what was written. -/
theorem holds_store {header : Bytes} (hlen : header.length = logBufFixedHeaderSize)
    (hclean : ∀ b ∈ header, Clean b) (es : List Entry) :
    Holds (Memory.store (fun _ => 0) 0 (header ++ text es)) es := by
  have hload := Memory.load_store (fun _ => (0 : UInt8)) 0 (header ++ text es)
  refine ⟨fun i hi => ?_, ?_⟩
  · have hcell := Memory.store_inside (fun _ => (0 : UInt8)) (p := 0) (header ++ text es) (i := i)
      (by rw [List.length_append, hlen]; omega)
    rw [Nat.zero_add] at hcell
    rw [hcell, List.getElem_append_left (hlen ▸ hi)]
    exact hclean _ (List.getElem_mem _)
  · rw [List.length_append, Memory.load_add, Nat.zero_add] at hload
    rw [← hlen]
    exact List.append_inj_right hload (Memory.length_load ..)

theorem noNul_letters : ∀ b ∈ List.replicate 1200 (97 : UInt8), b ≠ 0 := by
  intro b hb
  rw [List.eq_of_mem_replicate hb]
  decide

/-- An entry of 1202 bytes. -/
def longEntry : Entry := ⟨List.replicate 1200 97, noNul_letters, by
  rw [List.length_replicate]
  decide⟩

theorem longEntry_length : longEntry.bytes.length = 1202 := by
  rw [Entry.bytes, List.length_append, longEntry, List.length_replicate]
  rfl

theorem length_text_replicate (n : Nat) (e : Entry) :
    (text (.replicate n e)).length = n * e.bytes.length := by
  induction n with
  | zero => rw [Nat.zero_mul]; rfl
  | succ n ih => rw [List.replicate_succ, text_cons, List.length_append, ih, Nat.succ_mul, Nat.add_comm]

theorem clean_digit : Clean 48 := by
  refine ⟨?_, ?_, ?_⟩ <;> decide

theorem clean_digits {n : Nat} : ∀ b ∈ List.replicate n (48 : UInt8), Clean b := fun _ hb =>
  List.eq_of_mem_replicate hb ▸ clean_digit

theorem zeroStamp_plain :
    ∀ b ∈ List.replicate 10 (48 : UInt8) ++ List.replicate 40 48, b ≠ formFeed := fun b hb =>
  (clean_digits (n := 50) b (by rwa [List.replicate_append_replicate] at hb)).2.2

theorem length_zeroTime : (List.replicate 10 (48 : UInt8)).length = 10 := List.length_replicate

theorem length_zeroSignature : (List.replicate 40 (48 : UInt8)).length = 40 := List.length_replicate

/-- Zeros everywhere. -/
def zeroStamp : Stamp :=
  ⟨.replicate 10 48, .replicate 40 48, length_zeroTime, length_zeroSignature, zeroStamp_plain⟩

theorem zeroStamp_clean : ∀ b ∈ zeroStamp.timestamp ++ zeroStamp.signature, Clean b := fun b hb =>
  clean_digits (n := 50) b (by
    rw [zeroStamp, List.replicate_append_replicate] at hb
    exact hb)

/-- Only the first post succeeds. -/
def firstOnly (k : Nat) : PostEnv :=
  ⟨zeroStamp, zeroStamp_clean, if k = 0 then .retSuccess else .errHttp⟩

/-- Three entries, of which two fit into a post. -/
theorem postLogToServer_splits_three :
    ∃ r, (∀ fuel, (text (.replicate 3 longEntry)).length ≤ fuel →
      postLogToServer logUploadBufferSize firstOnly fuel
        (Memory.store (fun _ => 0) 0 (.replicate 112 48 ++ text (.replicate 3 longEntry)))
        (logBufFixedHeaderSize + (text (.replicate 3 longEntry)).length) = some r) ∧
      r.Splits (.replicate 3 longEntry) :=
  postLogToServer_splits firstOnly (holds_store List.length_replicate clean_digits _) (by
    rw [length_text_replicate, longEntry_length]
    decide)

/-! ## The steps of the uploader compute it -/

/-- The same news, for a step of `doLogUpload`. -/
def PostEnv.toUploadEnv (e : PostEnv) : UploadEnv := ⟨false, false, e.stamp, e.post⟩

/-- The posts that succeeded, as they leave the buffer. -/
def Post.gone (posts : List Post) : List Gone :=
  (posts.filter fun p => p.rc = .retSuccess).map fun p => .posted p.body

namespace LogUploader

/-- The steps that locate the delimiters. -/
theorem leads_locateCut (s : LogUploader) (env : UploadEnv) (p : Posting) (possible upload : Nat) :
    Leads doLogUpload { s with uploading := .locating p possible upload }
      { s with
        uploading := match locateCut s.logBuffer logUploadBufferSize possible upload with
          | none => .posted p.origPostSize .errInval p.actualPostPayload
          | some n => .sending p n } := by
  induction hk : maxHttpLogPostSize - possible using Nat.strongRecOn
    generalizing possible upload with
  | ind k ih =>
    refine (Leads.one env).trans ?_
    simp only [doLogUpload, locate]
    by_cases hlt : possible < maxHttpLogPostSize
    · rw [if_pos hlt]
      cases hfound : strstrDelimiter s.logBuffer (logUploadBufferSize - possible) possible with
      | none =>
        rw [locateCut_none hlt hfound]
        exact Leads.refl _
      | some next =>
        have hge := (strstrDelimiter_some hfound).1
        rw [locateCut_some hlt hfound]
        simp only
        split
        · exact Leads.refl _
        · exact ih _ (by omega) (next + 2) possible rfl
    · rw [if_neg hlt, locateCut_beyond hlt]
      exact Leads.refl _

/-- The post of the first `size` bytes. -/
theorem postOneHttp_eq (s : LogUploader) (size : Nat) (e : PostEnv) :
    s.postOneHttp size e.toUploadEnv =
      { s with
        logBuffer := stamped s.logBuffer e.stamp
        gone := s.gone ++ Post.gone [⟨(stamped s.logBuffer e.stamp).load 0 size, e.post⟩] } := by
  change (if e.post = .retSuccess then _ else _) = _
  by_cases hok : e.post = .retSuccess
  · rw [if_pos hok]
    simp only [Post.gone, hok, decide_true, List.filter_cons_of_pos, List.filter_nil, List.map_cons,
      List.map_nil]
    rfl
  · rw [if_neg hok]
    simp only [Post.gone, hok, decide_false, List.filter_cons, List.filter_nil, List.map_nil,
      List.append_nil, Bool.false_eq_true, if_false]
    rfl

theorem moveLeft_eq (s : LogUploader) (p : Posting) (upload : Nat) :
    s.moveLeft p upload =
      { s with
        logBuffer := movedLeft s.logBuffer p upload
        uploading := if (p.advance upload).postSize > logBufFixedHeaderSize
          then .locating (p.advance upload) 0 0
          else .posted p.origPostSize .retSuccess (p.advance upload).actualPostPayload } := rfl

theorem gone_append (posts posts' : List Post) :
    Post.gone (posts ++ posts') = Post.gone posts ++ Post.gone posts' := by
  rw [Post.gone, List.filter_append, List.map_append]
  rfl

/-- The steps of the loop over the fragments. -/
theorem leads_postFragments (s : LogUploader) (g : List Gone) (env : Nat → PostEnv) (fuel : Nat) :
    ∀ {p : Posting} {m : Memory UInt8} {posts : List Post} {r : Outcome},
      postFragments logUploadBufferSize env fuel p m posts = some r →
      Leads doLogUpload
        { s with logBuffer := m, gone := g ++ Post.gone posts, uploading := .locating p 0 0 }
        { s with
          logBuffer := r.postBuf
          gone := g ++ Post.gone r.posts
          uploading := .posted p.origPostSize r.rc r.actualPostPayload } := by
  induction fuel with
  | zero =>
    intro p m posts r h
    cases h
  | succ fuel ih =>
    intro p m posts r h
    let e := env posts.length
    refine (leads_locateCut { s with logBuffer := m, gone := g ++ Post.gone posts } e.toUploadEnv p
      0 0).trans ?_
    rw [postFragments] at h
    simp only
    cases hlocate : locateCut m logUploadBufferSize 0 0 with
    | none =>
      rw [hlocate] at h
      cases h
      exact Leads.refl _
    | some n =>
      rw [hlocate] at h
      refine (Leads.one e.toUploadEnv).trans ?_
      cases n with
      | zero =>
        cases h
        exact Leads.refl _
      | succ n =>
        simp only [doLogUpload] at h ⊢
        rw [if_neg (Nat.succ_ne_zero n), postOneHttp_eq]
        simp only [List.append_assoc, ← gone_append]
        change Leads _ ({ s with
          logBuffer := stamped m e.stamp
          gone := g ++ Post.gone (posts ++ [⟨(stamped m e.stamp).load 0 (n + 1), e.post⟩])
          uploading := if e.post = ReturnCode.retSuccess then .moving p (n + 1)
            else .posted p.origPostSize .errFailure p.actualPostPayload } : LogUploader) _
        by_cases hok : e.post = .retSuccess
        · rw [if_neg (fun hne => hne hok)] at h
          rw [if_pos hok]
          -- the move, and then the next round or the end
          refine (Leads.one e.toUploadEnv).trans ?_
          simp only [doLogUpload, moveLeft_eq]
          by_cases hleft : (p.advance (n + 1)).postSize > logBufFixedHeaderSize
          · rw [if_pos hleft] at h
            rw [if_pos hleft]
            exact ih h
          · rw [if_neg hleft] at h
            rw [if_neg hleft]
            cases h
            exact Leads.refl _
        · rw [if_pos hok] at h
          rw [if_neg hok]
          cases h
          exact Leads.refl _

/-- **The steps of `doLogUpload` compute `postLogToServer`**, when no other thread gets in. -/
theorem leads_postLogToServer (s : LogUploader) (env : Nat → PostEnv) {fuel size : Nat} {r : Outcome}
    (hu : s.uploading = .posting size)
    (h : postLogToServer logUploadBufferSize env fuel s.logBuffer size = some r) :
    Leads doLogUpload s
      { s with
        logBuffer := r.postBuf
        gone := s.gone ++ Post.gone r.posts
        uploading := .posted size r.rc r.actualPostPayload } := by
  refine (Leads.one (env 0).toUploadEnv).trans ?_
  unfold doLogUpload
  rw [hu]
  unfold postLogToServer at h
  simp only
  by_cases hmax : size < maxHttpLogPostSize
  · rw [if_pos hmax] at h
    rw [if_pos hmax, postOneHttp_eq]
    cases h
    exact Leads.refl _
  · rw [if_neg hmax] at h
    rw [if_neg hmax]
    have hloop := leads_postFragments s s.gone env fuel h
    rw [show Post.gone [] = [] from rfl, List.append_nil] at hloop
    exact hloop

end LogUploader

end QcloudIot.Log
