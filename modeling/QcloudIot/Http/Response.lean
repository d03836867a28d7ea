import QcloudIot.Http.Client

/-!
# The head of a response

A head as a server sends it, a status line and header lines, and what the parser makes of it where it
arrives in pieces.

* `Head.strstr_crlf`, `Head.strstr_end`: the status line and the header lines end where they should,
  in everything that arrives and in each beginning of it (`strstr_take`);
* `responseParse_head`: what the parser does once the head is there;
* `responseParse_cut`: it gives up on a status line that is not complete after one read.
-/

namespace QcloudIot.Http

open Lib Utils

/-- A line: no line break in it, and no NUL. -/
def Plain (line : Bytes) : Prop := ∀ c ∈ line, c ≠ 13 ∧ c ≠ 10 ∧ c ≠ 0

instance (line : Bytes) : Decidable (Plain line) := inferInstanceAs (Decidable (∀ c ∈ _, _))

/-- A head. A client that takes it for a refusal does not look any further. -/
structure Head where
  statusLine : Bytes
  lines : List Bytes
  status_plain : Plain statusLine
  status_length : 9 ≤ statusLine.length
  status_code : atoi (statusLine.drop 9) ≠ 403 ∧ atoi (statusLine.drop 9) ≠ 404
  lines_ne_nil : lines ≠ []
  lines_plain : ∀ line ∈ lines, line ≠ [] ∧ Plain line

namespace Head

/-- The header lines with the empty line behind them. -/
def fields (h : Head) : Bytes := h.lines.flatMap (· ++ crlf) ++ crlf

def bytes (h : Head) : Bytes := h.statusLine ++ crlf ++ h.fields

/-- The head of an answer without error. -/
def ok (lines : List Bytes) (hne : lines ≠ []) (hplain : ∀ line ∈ lines, line ≠ [] ∧ Plain line) :
    Head where
  statusLine := text "HTTP/1.1 200 OK"
  lines := lines
  status_plain := by decide
  status_length := by decide
  status_code := by decide
  lines_ne_nil := hne
  lines_plain := hplain

end Head

/-! ## Searching a string that arrives in pieces -/

variable {s x y pat : Bytes} {k m : Nat}

theorem strstr_take (s : Bytes) (m : Nat) :
    strstr (s.take m) pat = (strstr s pat).filter fun k => k + pat.length ≤ m := by
  unfold strstr
  rw [← List.take_takeWhile, find_take]

/-- A search goes through a part without NUL. -/
theorem strstr_append (hx : ∀ c ∈ x, c ≠ 0) :
    strstr (x ++ y) pat = find pat (x ++ y.takeWhile (· ≠ 0)) := by
  unfold strstr
  rw [List.takeWhile_append_of_pos fun c hc => decide_eq_true (hx c hc)]

theorem flatMap_crlf_plain {lines : List Bytes} (h : ∀ line ∈ lines, Plain line) :
    ∀ c ∈ lines.flatMap (· ++ crlf), c ≠ 0 := by
  intro c hc
  obtain ⟨line, hline, hc⟩ := List.mem_flatMap.mp hc
  rcases List.mem_append.mp hc with hc | hc
  · exact (h line hline c hc).2.2
  · unfold crlf at hc
    rcases List.mem_cons.mp hc with rfl | hc
    · decide
    · rw [List.mem_singleton.mp hc]
      decide

theorem not_mem_of_plain {line : Bytes} (h : Plain line) : (13 : UInt8) ∉ line :=
  fun hmem => (h 13 hmem).1 rfl

theorem find_emptyLine_skip (h : Plain x) :
    find (crlf ++ crlf) (x ++ y) = (find (crlf ++ crlf) y).map (· + x.length) :=
  find_skip (not_mem_of_plain h)

/-- A line break with more of a line behind it is no empty line. -/
theorem find_emptyLine_next {c : UInt8} (hc : c ≠ 13) :
    find (crlf ++ crlf) (crlf ++ c :: y) = (find (crlf ++ crlf) (c :: y)).map (· + 2) := by
  have hfirst : ¬ crlf ++ crlf <+: (13 : UInt8) :: 10 :: c :: y := by
    intro hpre
    have htail := (List.cons_prefix_cons.mp (List.cons_prefix_cons.mp hpre).2).2
    exact hc (List.cons_prefix_cons.mp htail).1.symm
  have hsecond : ¬ crlf ++ crlf <+: (10 : UInt8) :: c :: y := by
    intro hpre
    exact absurd (List.cons_prefix_cons.mp hpre).1 (by decide)
  have hunfold : crlf ++ c :: y = 13 :: 10 :: c :: y := rfl
  rw [hunfold, find_cons hfirst, find_cons hsecond, Option.map_map]
  rfl

/-- The empty line behind the lines is the first one. -/
theorem find_emptyLine (y : Bytes) : ∀ {lines : List Bytes}, lines ≠ [] →
    (∀ line ∈ lines, line ≠ [] ∧ Plain line) →
      ∃ k, find (crlf ++ crlf) (lines.flatMap (· ++ crlf) ++ (crlf ++ y)) = some k ∧
        k + 4 = (lines.flatMap (· ++ crlf) ++ crlf).length
  | [], h, _ => absurd rfl h
  | [line], _, hlines => by
    obtain ⟨-, hplain⟩ := hlines line List.mem_cons_self
    refine ⟨line.length, ?_, ?_⟩
    · have hpre : crlf ++ crlf <+: crlf ++ (crlf ++ y) := by
        rw [← List.append_assoc]
        exact List.prefix_append _ _
      rw [List.flatMap_singleton, List.append_assoc, find_emptyLine_skip hplain,
        find_of_isPrefix hpre, Option.map_some, Nat.zero_add]
    · rw [List.flatMap_singleton, List.length_append, List.length_append]
      rfl
  | line :: (c :: cs) :: lines, _, hlines => by
    obtain ⟨k, hk, hlen⟩ := find_emptyLine y (List.cons_ne_nil (c :: cs) lines)
      fun l hl => hlines l (List.mem_cons_of_mem _ hl)
    obtain ⟨-, hplain⟩ := hlines line List.mem_cons_self
    obtain ⟨-, hplain'⟩ := hlines (c :: cs) (List.mem_cons_of_mem _ List.mem_cons_self)
    refine ⟨k + 2 + line.length, ?_, ?_⟩
    · have hc : c ≠ 13 := (hplain' c List.mem_cons_self).1
      rw [List.flatMap_cons] at hk
      rw [List.flatMap_cons, List.flatMap_cons, List.append_assoc, List.append_assoc,
        find_emptyLine_skip hplain, List.append_assoc]
      simp only [List.cons_append, List.append_assoc] at hk ⊢
      rw [find_emptyLine_next hc, hk]
      rfl
    · rw [List.flatMap_cons, List.append_assoc, List.length_append, ← hlen, List.length_append]
      have htwo : crlf.length = 2 := rfl
      omega
  | line :: [] :: lines, _, hlines =>
    absurd rfl (hlines [] (List.mem_cons_of_mem _ List.mem_cons_self)).1

namespace Head

variable (h : Head) (content : Bytes)

theorem bytes_ne_nil : h.bytes ≠ [] := by
  intro hnil
  have hlen := congrArg List.length hnil
  rw [bytes, List.length_append, List.length_append, List.length_nil] at hlen
  exact absurd hlen (Nat.ne_of_gt (by have := h.status_length; omega))

theorem fields_ne_zero : ∀ c ∈ h.fields, c ≠ 0 := by
  intro c hc
  rcases List.mem_append.mp hc with hc | hc
  · exact flatMap_crlf_plain (fun line hline => (h.lines_plain line hline).2) c hc
  · rcases List.mem_cons.mp hc with rfl | hc
    · decide
    · rw [List.mem_singleton.mp hc]
      decide

/-- The status line ends at the first line break. -/
theorem strstr_crlf : strstr (h.bytes ++ content) crlf = some h.statusLine.length := by
  have hstatus : ∀ c ∈ h.statusLine, c ≠ 0 := fun c hc => (h.status_plain c hc).2.2
  have hskip : ∀ z : Bytes, find crlf (h.statusLine ++ z) =
      (find crlf z).map (· + h.statusLine.length) :=
    fun z => find_skip (not_mem_of_plain h.status_plain)
  unfold bytes
  rw [List.append_assoc, List.append_assoc, strstr_append hstatus, hskip]
  have hpre : crlf <+: (crlf ++ (h.fields ++ content)).takeWhile (· ≠ 0) := by
    rw [List.takeWhile_append_of_pos (by decide)]
    exact List.prefix_append _ _
  rw [find_of_isPrefix hpre, Option.map_some, Nat.zero_add]

/-- The header lines end at the first empty line. -/
theorem strstr_end : ∃ k, strstr (h.fields ++ content) (crlf ++ crlf) = some k ∧
    k + 4 = h.fields.length := by
  rw [strstr_append h.fields_ne_zero]
  unfold fields
  rw [List.append_assoc]
  exact find_emptyLine _ h.lines_ne_nil h.lines_plain

end Head

/-- A pattern without line breaks is not found in lines that do not hold it. -/
theorem find_lines (hpat : pat ≠ []) (hcr : (13 : UInt8) ∉ pat) (hlf : (10 : UInt8) ∉ pat) (y : Bytes) :
    ∀ {lines : List Bytes}, (∀ line ∈ lines, ¬ pat <:+: line) →
      find pat (lines.flatMap (· ++ crlf) ++ y) =
        (find pat y).map (· + (lines.flatMap (· ++ crlf)).length) := by
  intro lines
  induction lines with
  | nil => exact fun _ => Option.map_id'.symm
  | cons line lines ih =>
    intro hfree
    have hnil : ¬ pat <:+: [] := fun h => hpat (List.infix_nil.mp h)
    have hbreak : ∀ z : Bytes, find pat (crlf ++ z) = (find pat z).map (· + 2) := by
      intro z
      have hfirst := find_past (x := []) (y := 10 :: z) hpat hcr hnil
      have hsecond := find_past (x := []) (y := z) hpat hlf hnil
      rw [List.nil_append] at hfirst hsecond
      have hunfold : crlf ++ z = 13 :: 10 :: z := rfl
      rw [hunfold, hfirst, hsecond, Option.map_map]
      rfl
    have ih := ih fun l hl => hfree l (List.mem_cons_of_mem _ hl)
    have hline : ∀ z : Bytes, find pat (line ++ (crlf ++ z)) =
        (find pat (crlf ++ z)).map (· + line.length) := by
      intro z
      have hpast := find_past (y := 10 :: z) hpat hcr (hfree line List.mem_cons_self)
      have hten : find pat (10 :: z) = (find pat z).map (· + 1) :=
        find_past (x := []) (y := z) hpat hlf hnil
      have hunfold : crlf ++ z = 13 :: 10 :: z := rfl
      rw [hbreak z, hunfold, hpast, hten, Option.map_map, Option.map_map]
      congr 1
      funext n
      exact (by omega : n + 1 + (line.length + 1) = n + 2 + line.length)
    rw [List.flatMap_cons, List.append_assoc, List.append_assoc, hline, hbreak, ih, Option.map_map,
      Option.map_map]
    congr 1
    funext n
    have htwo : crlf.length = 2 := rfl
    simp only [Function.comp_apply, List.length_append, htwo]
    omega

/-! ## The first two reads -/

/-- The bytes of a read, and what is left. -/
def Network.next (net : Network) (maxLen : Nat) : Bytes × Network :=
  match net.recv maxLen with
  | (.bytes bs, net) => (bs, net)
  | (_, net) => ([], net)

namespace Network

variable (net : Network)

def firstRead : Bytes × Network := net.next (httpClientChunkSize - 1)

/-- The second read, into the room behind what the first one has left of the header lines. -/
def secondRead (h : Head) : Bytes × Network :=
  net.firstRead.2.next
    (httpClientChunkSize - (net.firstRead.1.length - (h.statusLine.length + 2)) - 1)

variable {net} {m : Nat}

theorem recv_of_next (hne : (net.next m).1 ≠ []) :
    net.recv m = (.bytes (net.next m).1, (net.next m).2) := by
  unfold next at hne ⊢
  split at hne
  · rename_i bs net' hrecv
    rw [hrecv]
  · exact absurd rfl hne

theorem next_stream (net : Network) (m : Nat) :
    (net.next m).1 ++ (net.next m).2.stream = net.stream ∧
      (net.next m).2.connected = net.connected ∧ (net.Flows → (net.next m).2.Flows) := by
  unfold next
  split
  · rename_i bs net' hrecv
    obtain ⟨-, hstream, hconnected, hflows⟩ := recv_bytes hrecv
    exact ⟨hstream, hconnected, fun h => (hflows h).2⟩
  · rename_i r net' hnot hrecv
    have hsame : net' = net := by
      unfold recv at hrecv
      split at hrecv
      · exact (Prod.mk.inj hrecv).2.symm
      · split_ifs at hrecv
        · exact (Prod.mk.inj hrecv).2.symm
        · exact absurd (Prod.mk.inj hrecv).1.symm (hnot _)
        · exact absurd (Prod.mk.inj hrecv).1.symm (hnot _)
    rw [hsame]
    exact ⟨rfl, rfl, id⟩

theorem segments_eq_nil (hflows : net.Flows) (hstream : net.stream = []) : net.segments = [] := by
  unfold stream at hstream
  cases hsegments : net.segments with
  | nil => rfl
  | cons s segments =>
    rw [hsegments, List.flatten_cons, List.append_eq_nil_iff] at hstream
    exact absurd hstream.1 (hflows s (hsegments ▸ List.mem_cons_self))

/-- A read of something gets something where there is something. -/
theorem next_ne_nil (hflows : net.Flows) (hne : net.stream ≠ []) (hm : m ≠ 0) :
    (net.next m).1 ≠ [] := by
  cases hsegments : net.segments with
  | nil =>
    unfold stream at hne
    rw [hsegments] at hne
    exact absurd rfl hne
  | cons s segments =>
    have hs : s ≠ [] := hflows s (hsegments ▸ List.mem_cons_self)
    unfold next recv
    simp only [hsegments, if_neg hm]
    split_ifs
    · exact hs
    · intro hnil
      rcases List.take_eq_nil_iff.mp hnil with hzero | hs'
      · exact hm hzero
      · exact hs hs'

theorem firstRead_stream (net : Network) : net.firstRead.1 ++ net.firstRead.2.stream = net.stream :=
  (next_stream net _).1

end Network

namespace Head

variable (h : Head) (net : Network)

/-- The first two reads get the head. -/
def Arrives : Prop := h.bytes.length ≤ net.firstRead.1.length + (net.secondRead h).1.length

instance : Decidable (h.Arrives net) := inferInstanceAs (Decidable (_ ≤ _))

/-- How much the reads that get the head get of what is behind it. -/
def onHand : Nat :=
  if h.bytes.length ≤ net.firstRead.1.length then net.firstRead.1.length - h.bytes.length
  else net.firstRead.1.length + (net.secondRead h).1.length - h.bytes.length

end Head

variable {h : Head} {net : Network} {t : Transfer} {content : Bytes} {size : Nat}

theorem take_of_append {a b s : Bytes} (hs : a ++ b = s) : a = s.take a.length ∧ b = s.drop a.length := by
  rw [← hs, List.take_left, List.drop_left]
  exact ⟨rfl, rfl⟩

/-- A cut behind the first part. -/
theorem cut_behind {a b : Bytes} {n : Nat} (hs : a ++ b = x ++ y) (hlen : a.length = x.length + n) :
    a = x ++ y.take n ∧ b = y.drop n := by
  obtain ⟨ha, hb⟩ := take_of_append hs
  rw [hlen] at ha hb
  rw [List.take_length_add_append] at ha
  rw [List.drop_length_add_append] at hb
  exact ⟨ha, hb⟩

/-- The header lines end on hand. -/
theorem headerEnd_here (hs : t.data ++ t.net.stream = s)
    (hend : strstr s (crlf ++ crlf) = some k) (hle : k + 4 ≤ t.data.length) :
    headerEnd t = .ok (k, t) := by
  have hfind : strstr t.data (crlf ++ crlf) = some k := by
    rw [(take_of_append hs).1, strstr_take, hend, Option.filter_some]
    exact if_pos (decide_eq_true hle)
  unfold headerEnd
  rw [hfind]

/-- They end in the next read. -/
theorem headerEnd_next {next : Bytes × Network} (hs : t.data ++ t.net.stream = s)
    (hend : strstr s (crlf ++ crlf) = some k) (hlt : t.data.length < k + 4)
    (hnext : t.net.next (httpClientChunkSize - t.data.length - 1) = next)
    (hle : k + 4 ≤ t.data.length + next.1.length) :
    headerEnd t = .ok (k, { t with net := next.2, data := t.data ++ next.1 }) := by
  have hnone : strstr t.data (crlf ++ crlf) = none := by
    rw [(take_of_append hs).1, strstr_take, hend, Option.filter_some]
    have hfour : (crlf ++ crlf).length = 4 := rfl
    exact if_neg (by simpa [hfour] using hlt)
  have hrecv : t.net.recv (httpClientChunkSize - t.data.length - 1) = (.bytes next.1, next.2) := by
    have hne : next.1 ≠ [] := by
      intro hnil
      rw [hnil, List.length_nil] at hle
      omega
    rw [← hnext] at hne ⊢
    exact Network.recv_of_next hne
  have hs' : t.data ++ next.1 ++ next.2.stream = s := by
    rw [List.append_assoc, ← hnext, (Network.next_stream _ _).1, hs]
  have hfind : strstr (t.data ++ next.1) (crlf ++ crlf) = some k := by
    have hlen : (t.data ++ next.1).length = t.data.length + next.1.length := List.length_append
    rw [(take_of_append hs').1, strstr_take, hend, Option.filter_some, hlen]
    exact if_pos (decide_eq_true hle)
  unfold headerEnd
  rw [hnone, hrecv]
  simp only [hfind]

/-! ## The parser -/

/-- The first call goes to the parser. -/
theorem recvResponse_start (size : Nat) (http : HttpClientData) (hmore : http.isMore = false)
    (hconnected : net.connected = true) (hflows : net.Flows) (hne : net.stream ≠ []) :
    recvResponse size ⟨net, http⟩ =
      responseParse size ⟨net.firstRead.2, { http with isMore := true }, net.firstRead.1, []⟩ := by
  have hfirst : net.firstRead.1 ≠ [] := Network.next_ne_nil hflows hne (by decide)
  have hrecv : net.recv (httpClientChunkSize - 1) = (.bytes net.firstRead.1, net.firstRead.2) :=
    Network.recv_of_next hfirst
  unfold recvResponse
  simp only [hconnected, hmore, hrecv, if_neg hfirst, Bool.true_eq_false, Bool.false_eq_true, if_false]

/-- A status line that is cut off by the first read ends it. -/
theorem responseParse_cut (hstream : net.stream = h.bytes ++ content)
    (hcut : net.firstRead.1.length < h.statusLine.length + 2) (http : HttpClientData) :
    responseParse size ⟨net.firstRead.2, http, net.firstRead.1, []⟩ =
      (qcloudErrHttpUnresolvedDns,
        ⟨net.firstRead.2, { http with responseContentLen := -1 }, net.firstRead.1, []⟩) := by
  have hnone : strstr net.firstRead.1 crlf = none := by
    rw [(take_of_append (net.firstRead_stream.trans hstream)).1, strstr_take,
      h.strstr_crlf, Option.filter_some]
    have htwo : crlf.length = 2 := rfl
    refine if_neg ?_
    rw [htwo, decide_eq_true_iff]
    exact Nat.not_le.mpr hcut
  unfold responseParse
  simp only [hnone]

/-- What the status line leaves of the first read, and all that is behind it. -/
theorem drop_statusLine (hstream : net.stream = h.bytes ++ content)
    (hstatus : h.statusLine.length + 2 ≤ net.firstRead.1.length) :
    net.firstRead.1.drop (h.statusLine.length + 2) ++ net.firstRead.2.stream =
      h.fields ++ content := by
  have hlen : (h.statusLine ++ crlf).length = h.statusLine.length + 2 := List.length_append
  rw [← List.drop_append_of_le_length hstatus, net.firstRead_stream, hstream, Head.bytes,
    List.append_assoc, ← hlen, List.drop_left]

/-- The code is read from the status line. -/
theorem responseCode_eq (hstream : net.stream = h.bytes ++ content)
    (hstatus : h.statusLine.length + 2 ≤ net.firstRead.1.length) :
    atoi ((net.firstRead.1.set h.statusLine.length 0).drop 9) = atoi (h.statusLine.drop 9) := by
  have hall := net.firstRead_stream.trans hstream
  have hpre : h.statusLine ++ crlf <+: net.firstRead.1 := by
    have hhead : h.statusLine ++ crlf <+: h.bytes ++ content := by
      rw [Head.bytes, List.append_assoc]
      exact List.prefix_append _ _
    have hread : net.firstRead.1 <+: h.bytes ++ content := by
      rw [← hall]
      exact List.prefix_append _ _
    refine List.prefix_of_prefix_length_le hhead hread ?_
    rw [List.length_append]
    exact hstatus
  obtain ⟨z, hz⟩ := hpre
  have hset : net.firstRead.1.set h.statusLine.length 0 = h.statusLine ++ 0 :: 10 :: z := by
    rw [← hz, List.append_assoc, List.set_append_right _ _ (Nat.le_refl _), Nat.sub_self]
    rfl
  rw [hset, List.drop_append_of_le_length h.status_length, atoi_nul]

/-- **A head that arrives is parsed.** What is behind it is handed on: the bytes on hand, and those
still to come. -/
theorem responseParse_head (size : Nat) (hstream : net.stream = h.bytes ++ content)
    (hflows : net.Flows) (hstatus : h.statusLine.length + 2 ≤ net.firstRead.1.length)
    (harrives : h.Arrives net) (http : HttpClientData) :
    ∃ net' : Network, net'.stream = content.drop (h.onHand net) ∧ net'.Flows ∧
      net'.connected = net.connected ∧
      responseParse size ⟨net.firstRead.2, http, net.firstRead.1, []⟩ =
        let data := h.fields ++ content.take (h.onHand net)
        let parsed := { http with responseContentLen := -1, isChunked := false }
        match contentInfo data parsed with
        | none => (qcloudErrHttp, ⟨net', parsed, data, []⟩)
        | some http => retrieveContent size ⟨net', http, content.take (h.onHand net), []⟩ := by
  obtain ⟨k, hend, hk⟩ := h.strstr_end content
  have hrest := drop_statusLine hstream hstatus
  have hbytes : h.bytes.length = h.statusLine.length + 2 + h.fields.length := by
    rw [Head.bytes, List.length_append, List.length_append]
    rfl
  have hcrlf : strstr net.firstRead.1 crlf = some h.statusLine.length := by
    rw [(take_of_append (net.firstRead_stream.trans hstream)).1, strstr_take, h.strstr_crlf,
      Option.filter_some]
    exact if_pos (decide_eq_true hstatus)
  obtain ⟨-, hconnected₁, hflows₁⟩ := Network.next_stream net (httpClientChunkSize - 1)
  have hlen : (net.firstRead.1.drop (h.statusLine.length + 2)).length =
      net.firstRead.1.length - (h.statusLine.length + 2) := List.length_drop
  -- what is on hand when the end of the header lines has been found
  have hparsed : ∃ net' : Network, net'.stream = content.drop (h.onHand net) ∧ net'.Flows ∧
      net'.connected = net.connected ∧ ∀ http : HttpClientData,
        headerEnd ⟨net.firstRead.2, http, net.firstRead.1.drop (h.statusLine.length + 2), []⟩ =
          .ok (k, ⟨net', http, h.fields ++ content.take (h.onHand net), []⟩) := by
    by_cases hone : h.bytes.length ≤ net.firstRead.1.length
    · have honHand : h.onHand net = net.firstRead.1.length - h.bytes.length := if_pos hone
      obtain ⟨hdata, hstream₁⟩ := cut_behind hrest (n := h.onHand net) (by omega)
      refine ⟨net.firstRead.2, hstream₁, hflows₁ hflows, hconnected₁, fun http => ?_⟩
      rw [headerEnd_here hrest hend (by dsimp only; omega), hdata]
    · have honHand : h.onHand net =
          net.firstRead.1.length + (net.secondRead h).1.length - h.bytes.length := if_neg hone
      unfold Head.Arrives at harrives
      obtain ⟨hsecond, hconnected₂, hflows₂⟩ := Network.next_stream net.firstRead.2
        (httpClientChunkSize - (net.firstRead.1.length - (h.statusLine.length + 2)) - 1)
      have hrest₂ : net.firstRead.1.drop (h.statusLine.length + 2) ++ (net.secondRead h).1 ++
          (net.secondRead h).2.stream = h.fields ++ content := by
        rw [List.append_assoc, ← hrest]
        exact congrArg _ hsecond
      obtain ⟨hdata, hstream₂⟩ := cut_behind hrest₂ (n := h.onHand net)
        (by rw [List.length_append]; omega)
      refine ⟨(net.secondRead h).2, hstream₂, hflows₂ (hflows₁ hflows),
        hconnected₂.trans hconnected₁, fun http => ?_⟩
      have hnext : net.firstRead.2.next (httpClientChunkSize -
          (net.firstRead.1.drop (h.statusLine.length + 2)).length - 1) = net.secondRead h := by
        rw [hlen]
        rfl
      have hhead := headerEnd_next
        (t := ⟨net.firstRead.2, http, net.firstRead.1.drop (h.statusLine.length + 2), []⟩)
        hrest hend (by dsimp only; omega) hnext (by dsimp only; omega)
      rw [hhead, hdata]
  obtain ⟨net', hstream', hflows', hconnected', hhead⟩ := hparsed
  refine ⟨net', hstream', hflows', hconnected', ?_⟩
  obtain ⟨h403, h404⟩ := h.status_code
  unfold responseParse
  cases hinfo : contentInfo (h.fields ++ content.take (h.onHand net))
    ⟨http.isMore, false, http.retrieveLen, -1⟩ with
  | none =>
    simp only [hcrlf, responseCode_eq hstream hstatus, if_neg h403, if_neg h404, hhead, hinfo]
  | some http =>
    simp only [hcrlf, responseCode_eq hstream hstatus, if_neg h403, if_neg h404, hhead, hk,
      List.drop_left, hinfo]

end QcloudIot.Http
