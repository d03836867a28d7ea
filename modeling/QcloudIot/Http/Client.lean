import QcloudIot.Lib.Substring
import QcloudIot.Utils.Scan

/-!
# Receiving an HTTP response

`qcloud_http_recv_data` (`utils_httpc.c`) down to `_http_client_retrieve_content`.

* The network is what it still delivers, in the pieces it delivers it in; a read gets as much of the
  next piece as it asks for, and its time is up where no piece is left. Of the errors of the network
  only that of a read that asks for nothing is modelled.
* The data on hand, `data[0 .. len)`, is a list; a comparison that runs behind it fails.
* Lengths and buffer sizes fit an `int`. A number that its type does not hold is handed out as it is by
  `atoi`, and modulo 2^32 by `strtoul`.
-/

namespace QcloudIot.Http

open Lib Utils

abbrev Bytes := List UInt8

/-! ## Return codes and texts -/

def qcloudRetSuccess : Int := 0
def httpRetrieveMoreData : Int := 1
def qcloudErrHttp : Int := -4
def qcloudErrHttpUnresolvedDns : Int := -6
def qcloudErrHttpConn : Int := -8
def qcloudErrHttpAuth : Int := -9
def qcloudErrHttpNotFound : Int := -10
def qcloudErrHttpTimeout : Int := -11
def qcloudErrTcpPeerShutdown : Int := -608
def qcloudErrFailure : Int := -1001

/-- `HTTP_CLIENT_CHUNK_SIZE`. -/
def httpClientChunkSize : Nat := 1025

/-- A string literal. -/
def text (s : String) : Bytes := s.toList.map fun c => c.toNat.toUInt8

def crlf : Bytes := [13, 10]
def contentLength : Bytes := text "Content-Length"
def transferEncoding : Bytes := text "Transfer-Encoding"

/-- `strstr`. -/
def strstr (s pat : Bytes) : Option Nat := find pat (s.takeWhile (· ≠ 0))

/-- What `strtoul` skips of a number in base 16. -/
def skipHexPrefix : Bytes → Bytes
  | c :: x :: d :: s =>
    if c = 48 ∧ (x = 120 ∨ x = 88) ∧ (digitOf 16 d).isSome then d :: s else c :: x :: d :: s
  | s => s

/-- `strtoul` in base 16, assigned to an `uint32_t`. -/
def strtoul16 (s : Bytes) : Nat :=
  let (negative, s) := signOf (s.dropWhile isSpace)
  let n := digitsValue 16 0 (skipHexPrefix s) % 2 ^ 32
  if negative then (2 ^ 32 - n) % 2 ^ 32 else n

/-- An `uint32_t` assigned to an `int`. -/
def toInt32 (n : Nat) : Int := if n < 2 ^ 31 then n else n - 2 ^ 32

/-- An `int` assigned to an `uint32_t`. -/
def toUint32 (n : Int) : Nat := if 0 ≤ n then n.toNat else (n + 2 ^ 32).toNat

/-! ## The network -/

/-- The connection, and what is still to arrive on it. -/
structure Network where
  connected : Bool
  segments : List Bytes
  deriving DecidableEq, Repr

/-- What a read ends with. -/
inductive Recv where
  | bytes (bs : Bytes)
  | timeUp
  | peerShutdown
  deriving DecidableEq, Repr

namespace Network

/-- `_http_client_recv`. -/
def recv (net : Network) (maxLen : Nat) : Recv × Network :=
  match net.segments with
  | [] => (.timeUp, net)
  | segment :: rest =>
    -- nothing asked for is nothing received, as from a peer that has shut down
    if maxLen = 0 then (.peerShutdown, net)
    else if segment.length ≤ maxLen then (.bytes segment, { net with segments := rest })
    else (.bytes (segment.take maxLen), { net with segments := segment.drop maxLen :: rest })

/-- All bytes still to arrive. -/
def stream (net : Network) : Bytes := net.segments.flatten

/-- How much the network has left, in bytes and pieces. -/
def pending (net : Network) : Nat := (net.segments.map fun s => s.length + 1).sum

/-- No piece is empty. -/
def Flows (net : Network) : Prop := ∀ s ∈ net.segments, s ≠ []

instance (net : Network) : Decidable net.Flows := inferInstanceAs (Decidable (∀ s ∈ _, _))

end Network

variable {net net' : Network} {bs : Bytes} {m : Nat}

/-- What a read that gets bytes does. -/
theorem Network.recv_bytes (h : net.recv m = (.bytes bs, net')) :
    bs.length ≤ m ∧ bs ++ net'.stream = net.stream ∧ net'.connected = net.connected ∧
      (net.Flows → bs ≠ [] ∧ net'.Flows) := by
  unfold recv at h
  split at h
  · cases h
  · rename_i segment rest hsegments
    unfold stream Flows
    rw [hsegments]
    split_ifs at h with hzero hle
    · cases h
    · cases h
      exact ⟨hle, rfl, rfl, fun hflows => ⟨hflows _ List.mem_cons_self,
        fun s hs => hflows s (List.mem_cons_of_mem _ hs)⟩⟩
    · cases h
      refine ⟨List.length_take_le m segment, ?_, rfl, fun hflows => ⟨?_, ?_⟩⟩
      · rw [List.flatten_cons, List.flatten_cons, ← List.append_assoc, List.take_append_drop]
      · intro hnil
        rcases List.take_eq_nil_iff.mp hnil with hm | hs
        · exact hzero hm
        · exact hflows _ List.mem_cons_self hs
      · intro s hs
        rcases List.mem_cons.mp hs with rfl | hs
        · intro hnil
          exact hle (List.drop_eq_nil_iff.mp hnil)
        · exact hflows s (List.mem_cons_of_mem _ hs)

/-- Every read takes something off the network. -/
theorem Network.recv_pending (h : net.recv m = (.bytes bs, net')) :
    net'.pending + bs.length ≤ net.pending ∧ net'.pending < net.pending := by
  unfold recv at h
  split at h
  · cases h
  · rename_i segment rest hsegments
    unfold pending
    rw [hsegments, List.map_cons, List.sum_cons]
    split_ifs at h with hzero hle
    · cases h
    · cases h
      dsimp only
      omega
    · cases h
      rw [List.map_cons, List.sum_cons, List.length_drop, List.length_take]
      omega

/-! ## The content -/

/-- The counters of `HTTPClientData`. -/
structure HttpClientData where
  isMore : Bool
  isChunked : Bool
  retrieveLen : Int
  responseContentLen : Int
  deriving DecidableEq, Repr

/-- The variables of a call: `data` is on hand, and `buf` stands in `response_buf`. -/
structure Transfer where
  net : Network
  http : HttpClientData
  data : Bytes
  buf : Bytes
  deriving DecidableEq, Repr

namespace Transfer

/-- Copy `k` bytes to the buffer, and count them off. -/
def put (t : Transfer) (k : Nat) : Transfer :=
  { t with
    buf := t.buf ++ t.data.take k
    http := { t.http with retrieveLen := t.http.retrieveLen - k } }

/-- What the network and the data on hand leave to do. -/
def weight (t : Transfer) : Nat := t.net.pending + t.data.length

end Transfer

/-- The loop for a response without a length: everything up to a read that gets nothing. -/
def rawLoop (size : Nat) (t : Transfer) : Int × Transfer :=
  if t.buf.length + t.data.length < size - 1 then
    let buf := t.buf ++ t.data
    match _h : t.net.recv (min (httpClientChunkSize - 1) (size - 1 - buf.length)) with
    | (.bytes bs, net) =>
      if bs = [] then
        (qcloudRetSuccess, ⟨net, { t.http with isMore := false }, bs, buf⟩)
      else rawLoop size ⟨net, t.http, bs, buf⟩
    | (.timeUp, net) => (qcloudErrHttpTimeout, ⟨net, t.http, [], buf⟩)
    | (.peerShutdown, net) => (qcloudErrTcpPeerShutdown, ⟨net, t.http, [], buf⟩)
  else
    (httpRetrieveMoreData, { t with buf := t.buf ++ t.data.take (size - 1 - t.buf.length) })
termination_by t.net.pending
decreasing_by exact (Network.recv_pending _h).2

/-- A read that adds to the data on hand; time that is up is no error. -/
def recvMore (t : Transfer) : Except (Int × Transfer) Transfer :=
  match t.net.recv (httpClientChunkSize - t.data.length - 1) with
  | (.bytes bs, net) => .ok { t with net := net, data := t.data ++ bs }
  | (.timeUp, net) => .error (qcloudRetSuccess, { t with net := net })
  | (.peerShutdown, net) => .error (qcloudErrTcpPeerShutdown, { t with net := net })

variable {t t' : Transfer} {e : Int × Transfer}

theorem recvMore_ok (h : recvMore t = .ok t') :
    t'.net.pending < t.net.pending ∧ t'.weight ≤ t.weight ∧ t'.http = t.http := by
  unfold recvMore at h
  split at h
  · rename_i bs net hrecv
    cases h
    have hpending := Network.recv_pending hrecv
    unfold Transfer.weight
    dsimp only
    rw [List.length_append]
    exact ⟨hpending.2, by omega, rfl⟩
  · cases h
  · cases h

theorem recvMore_error (h : recvMore t = .error e) : e.2.http = t.http := by
  unfold recvMore at h
  split at h
  · cases h
  · cases h
    rfl
  · cases h
    rfl

/-- The loop for the line of a chunk: where it ends. The last byte on hand is not looked at. -/
def chunkLine (t : Transfer) : Except (Int × Transfer) (Nat × Transfer) :=
  match (find crlf t.data).filter (· < t.data.length - 2) with
  | some crlfPos => .ok (crlfPos, t)
  | none =>
    if t.data.length < httpClientChunkSize then
      match _h : recvMore t with
      | .error e => .error e
      | .ok t' => chunkLine t'
    else .error (qcloudErrHttp, t)
termination_by t.net.pending
decreasing_by exact (recvMore_ok _h).1

theorem chunkLine_ok {crlfPos : Nat} (h : chunkLine t = .ok (crlfPos, t')) :
    t'.weight ≤ t.weight ∧ t'.http = t.http := by
  fun_induction chunkLine t with
  | case1 t crlfPos' hfind =>
    cases h
    exact ⟨Nat.le_refl _, rfl⟩
  | case2 t hfind hlen e hmore => cases h
  | case3 t hfind hlen t₁ hmore ih =>
    obtain ⟨-, hweight, hhttp⟩ := recvMore_ok hmore
    obtain ⟨hweight', hhttp'⟩ := ih h
    exact ⟨Nat.le_trans hweight' hweight, hhttp'.trans hhttp⟩
  | case4 t hfind hlen => cases h

theorem chunkLine_error (h : chunkLine t = .error e) : e.2.http = t.http := by
  fun_induction chunkLine t with
  | case1 t crlfPos' hfind => cases h
  | case2 t hfind hlen e' hmore =>
    cases h
    exact recvMore_error hmore
  | case3 t hfind hlen t₁ hmore ih => exact (ih h).trans (recvMore_ok hmore).2.2
  | case4 t hfind hlen =>
    cases h
    rfl

/-- The line of a chunk: the length of the chunk. -/
def chunkHeader (t : Transfer) : Except (Int × Transfer) (Nat × Transfer) :=
  match chunkLine t with
  | .error e => .error e
  | .ok (crlfPos, t) =>
    let readLen := strtoul16 (t.data.take crlfPos)
    let retrieveLen := toInt32 readLen
    let http := { t.http with
      retrieveLen := retrieveLen
      responseContentLen := t.http.responseContentLen + retrieveLen }
    if readLen = 0 then
      -- the last chunk, and then an error in any case
      .error (qcloudErrHttpUnresolvedDns, { t with http := { http with isMore := false } })
    else .ok (readLen, { t with http := http, data := t.data.drop (crlfPos + 2) })

/-- The start of the outer loop: `readLen`. -/
def contentHead (t : Transfer) : Except (Int × Transfer) (Nat × Transfer) :=
  if t.http.isChunked ∧ t.http.retrieveLen ≤ 0 then chunkHeader t
  else .ok (toUint32 t.http.retrieveLen, t)

theorem chunkHeader_ok {readLen : Nat} (h : chunkHeader t = .ok (readLen, t')) :
    t'.weight ≤ t.weight ∧ t'.http.isMore = t.http.isMore ∧ t'.http.isChunked = t.http.isChunked := by
  unfold chunkHeader at h
  split at h
  · cases h
  · rename_i crlfPos t₁ hline
    obtain ⟨hweight, hhttp⟩ := chunkLine_ok hline
    dsimp only at h
    split_ifs at h with hzero
    obtain ⟨-, rfl⟩ := Prod.mk.inj (Except.ok.inj h)
    rw [← hhttp]
    refine ⟨Nat.le_trans ?_ hweight, rfl, rfl⟩
    unfold Transfer.weight
    rw [List.length_drop]
    exact Nat.add_le_add_left (Nat.sub_le _ _) _

theorem contentHead_ok {readLen : Nat} (h : contentHead t = .ok (readLen, t')) :
    t'.weight ≤ t.weight ∧ t'.http.isMore = t.http.isMore ∧ t'.http.isChunked = t.http.isChunked := by
  unfold contentHead at h
  split_ifs at h
  · exact chunkHeader_ok h
  · obtain ⟨-, rfl⟩ := Prod.mk.inj (Except.ok.inj h)
    exact ⟨Nat.le_refl _, rfl, rfl⟩

/-- The inner loop: `readLen` bytes, or as many as fit. -/
def bodyLoop (size readLen : Nat) (t : Transfer) : Except (Int × Transfer) Transfer :=
  let templen := min t.data.length readLen
  if t.buf.length + templen < size - 1 then
    let put := t.put templen
    if readLen < t.data.length then
      .ok { put with
        http := { put.http with retrieveLen := 0 }
        data := t.data.drop readLen }
    else
      let rest := readLen - t.data.length
      -- the data on hand is not taken away where it ends with the chunk
      if rest = 0 then .ok put
      else
        let maxLen := min (httpClientChunkSize - 1) (size - 1 - put.buf.length)
        match _h : t.net.recv (min maxLen rest) with
        | (.bytes bs, net) => bodyLoop size rest { put with net := net, data := bs }
        | (.timeUp, net) => .error (qcloudErrHttpTimeout, { put with net := net, data := [] })
        | (.peerShutdown, net) =>
          .error (qcloudErrTcpPeerShutdown, { put with net := net, data := [] })
  else .error (httpRetrieveMoreData, t.put (size - 1 - t.buf.length))
termination_by t.net.pending
decreasing_by exact (Network.recv_pending _h).2

theorem bodyLoop_ok {size readLen : Nat} (h : bodyLoop size readLen t = .ok t') :
    t'.weight ≤ t.weight ∧ t'.http.isMore = t.http.isMore ∧ t'.http.isChunked = t.http.isChunked := by
  fun_induction bodyLoop size readLen t with
  | case1 readLen t templen hroom put hlt =>
    cases h
    unfold Transfer.weight
    rw [List.length_drop]
    exact ⟨by dsimp only [put, Transfer.put]; omega, rfl, rfl⟩
  | case2 readLen t templen hroom put hle rest hrest =>
    rw [← Except.ok.inj h]
    exact ⟨Nat.le_refl _, rfl, rfl⟩
  | case3 readLen t templen hroom put hle rest hrest maxLen bs net hrecv ih =>
    obtain ⟨hweight, hmore, hchunked⟩ := ih h
    have hpending := Network.recv_pending hrecv
    refine ⟨?_, hmore, hchunked⟩
    unfold Transfer.weight at hweight ⊢
    dsimp only at hweight
    omega
  | case4 => cases h
  | case5 => cases h
  | case6 => cases h

/-- The CR LF behind a chunk. -/
def chunkEnd (t : Transfer) : Except (Int × Transfer) Transfer :=
  match if t.data.length < 2 then recvMore t else .ok t with
  | .error e => .error e
  | .ok t =>
    if t.data.take 2 = crlf then .ok { t with data := t.data.drop 2 }
    else .error (qcloudErrHttpUnresolvedDns, t)

theorem chunkEnd_ok (h : chunkEnd t = .ok t') : t'.weight < t.weight ∧ t'.http = t.http := by
  unfold chunkEnd at h
  split at h
  · cases h
  · rename_i t₁ hmore
    have hmore : t₁.weight ≤ t.weight ∧ t₁.http = t.http := by
      split_ifs at hmore
      · exact (recvMore_ok hmore).2
      · cases hmore
        exact ⟨Nat.le_refl _, rfl⟩
    split_ifs at h with hcrlf
    cases h
    have hlen := congrArg List.length hcrlf
    rw [List.length_take] at hlen
    refine ⟨Nat.lt_of_lt_of_le ?_ hmore.1, hmore.2⟩
    unfold Transfer.weight
    rw [List.length_drop]
    dsimp only [crlf, List.length_cons, List.length_nil] at hlen ⊢
    omega

/-- The outer loop. -/
def contentLoop (size : Nat) (t : Transfer) : Int × Transfer :=
  match _h₁ : contentHead t with
  | .error e => e
  | .ok (readLen, t₁) =>
    match _h₂ : bodyLoop size readLen t₁ with
    | .error e => e
    | .ok t₂ =>
      if t₂.http.isChunked then
        match _h₃ : chunkEnd t₂ with
        | .error e => e
        | .ok t₃ => contentLoop size t₃
      else (qcloudRetSuccess, { t₂ with http := { t₂.http with isMore := false } })
termination_by t.weight
decreasing_by
  have hhead := (contentHead_ok _h₁).1
  have hbody := (bodyLoop_ok _h₂).1
  have hend := (chunkEnd_ok _h₃).1
  omega

/-- `_http_client_retrieve_content`. -/
def retrieveContent (size : Nat) (t : Transfer) : Int × Transfer :=
  let t := { t with http := { t.http with isMore := true } }
  if t.http.responseContentLen = -1 ∧ t.http.isChunked = false then rawLoop size t
  else contentLoop size t

/-! ## The head -/

/-- The end of the header lines, with one more read where it is not on hand. -/
def headerEnd (t : Transfer) : Except (Int × Transfer) (Nat × Transfer) :=
  match strstr t.data (crlf ++ crlf) with
  | some bodyEnd => .ok (bodyEnd, t)
  | none =>
    match t.net.recv (httpClientChunkSize - t.data.length - 1) with
    | (.bytes bs, net) =>
      let t := { t with net := net, data := t.data ++ bs }
      match strstr t.data (crlf ++ crlf) with
      | some bodyEnd => .ok (bodyEnd, t)
      | none => .error (qcloudErrFailure, t)
    | (.timeUp, net) => .error (qcloudErrFailure, { t with net := net })
    | (.peerShutdown, net) => .error (qcloudErrTcpPeerShutdown, { t with net := net })

/-- The length of the content, or that it is chunked, looked for in all the data on hand. -/
def contentInfo (data : Bytes) (http : HttpClientData) : Option HttpClientData :=
  match strstr data contentLength with
  | some pos =>
    let len := atoi (data.drop (pos + (text "Content-Length: ").length))
    some { http with responseContentLen := len, retrieveLen := len }
  | none =>
    match strstr data transferEncoding with
    | some _ =>
      -- the value is taken from the first header line
      let chunkValue := (data.drop (text "Transfer-Encoding: ").length).take 7
      if chunkValue = text "Chunked" ∨ chunkValue = text "chunked" then
        some { http with isChunked := true, responseContentLen := 0, retrieveLen := 0 }
      else some http
    | none => none

/-- `_http_client_response_parse`. -/
def responseParse (size : Nat) (t : Transfer) : Int × Transfer :=
  let t := { t with http := { t.http with responseContentLen := -1 } }
  match strstr t.data crlf with
  | none => (qcloudErrHttpUnresolvedDns, t)
  | some crlfPos =>
    let responseCode := atoi ((t.data.set crlfPos 0).drop 9)
    if responseCode = 403 then (qcloudErrHttpAuth, t)
    else if responseCode = 404 then (qcloudErrHttpNotFound, t)
    else
      match headerEnd { t with
          data := t.data.drop (crlfPos + 2)
          http := { t.http with isChunked := false } } with
      | .error e => e
      | .ok (bodyEnd, t) =>
        match contentInfo t.data t.http with
        | none => (qcloudErrHttp, t)
        | some http => retrieveContent size { t with http := http, data := t.data.drop (bodyEnd + 4) }

/-! ## Calls -/

/-- The connection and the counters, between two calls. -/
structure HttpClient where
  net : Network
  http : HttpClientData
  deriving DecidableEq, Repr

/-- `_http_client_recv_response`. -/
def recvResponse (size : Nat) (c : HttpClient) : Int × Transfer :=
  if c.net.connected = false then (qcloudErrHttpConn, ⟨c.net, c.http, [], []⟩)
  else if c.http.isMore then retrieveContent size ⟨c.net, c.http, [], []⟩
  else
    let http := { c.http with isMore := true }
    match c.net.recv (httpClientChunkSize - 1) with
    | (.bytes bs, net) =>
      if bs = [] then (qcloudRetSuccess, ⟨net, http, [], []⟩)
      else responseParse size ⟨net, http, bs, []⟩
    | (.timeUp, net) => (qcloudRetSuccess, ⟨net, http, [], []⟩)
    | (.peerShutdown, net) => (qcloudErrTcpPeerShutdown, ⟨net, http, [], []⟩)

/-- `qcloud_http_recv_data`: what it returns, and what stands in the buffer. -/
def recvData (size : Nat) (c : HttpClient) : Int × Bytes × HttpClient :=
  if size = 0 then (qcloudRetSuccess, [], c)
  else
    let (rc, t) := recvResponse size c
    if rc < 0 then (rc, t.buf, ⟨{ t.net with connected := false }, t.http⟩)
    else (qcloudRetSuccess, t.buf, ⟨t.net, t.http⟩)

variable {c : HttpClient} {size : Nat} {rc : Int}

theorem recvData_error (hsize : size ≠ 0) (h : recvResponse size c = (rc, t)) (hrc : rc < 0) :
    recvData size c = (rc, t.buf, ⟨{ t.net with connected := false }, t.http⟩) := by
  unfold recvData
  rw [if_neg hsize, h]
  exact if_pos hrc

theorem recvData_ok (hsize : size ≠ 0) (h : recvResponse size c = (rc, t)) (hrc : 0 ≤ rc) :
    recvData size c = (qcloudRetSuccess, t.buf, ⟨t.net, t.http⟩) := by
  unfold recvData
  rw [if_neg hsize, h]
  exact if_neg (Int.not_lt.mpr hrc)

end QcloudIot.Http
