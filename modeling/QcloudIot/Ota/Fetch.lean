import QcloudIot.Http.Content
import QcloudIot.Ota.Client

/-!
# Fetching a file with a known length

`qcloud_ofc_fetch` (`ota_fetch.c`), called again and again with buffers of any sizes, against a server
that answers with a `Content-Length`.

* `fetches_standing`: from the second call on every byte arrives, and is counted;
* **`delivers_iff`**: over all calls just where the first read gets the status line, and what arrives
  with the head fits the first buffer;
* `hello_lost`: bytes that arrive with the head, and do not fit, are lost.
-/

namespace QcloudIot.Ota

open Http Utils

/-- `qcloud_ofc_fetch`: what it returns, and what stands in the buffer. -/
def ofcFetch (size : Nat) (c : HttpClient) : Int × Http.Bytes × HttpClient :=
  let diff := c.http.responseContentLen - c.http.retrieveLen
  let (rc, buf, c) := recvData size c
  let ret :=
    if rc ≠ qcloudRetSuccess then
      if rc = qcloudErrHttpNotFound then iotOtaErrFetchNotExist
      else if rc = qcloudErrHttpAuth then iotOtaErrFetchAuthFail
      else if rc = qcloudErrHttpTimeout then iotOtaErrFetchTimeout
      else rc
    else c.http.responseContentLen - c.http.retrieveLen - diff
  (ret, buf, c)

/-- Calls with these buffer sizes, one after the other. -/
def fetches (c : HttpClient) : List Nat → List (Int × Http.Bytes)
  | [] => []
  | size :: sizes =>
    let (ret, buf, c) := ofcFetch size c
    (ret, buf) :: fetches c sizes

/-- Every call returns how much it has delivered, and together they deliver the body, up to what the
buffers hold beside their NUL. -/
def Delivers (c : HttpClient) (body : Http.Bytes) (sizes : List Nat) : Prop :=
  (∀ r ∈ fetches c sizes, r.1 = r.2.length) ∧
    (fetches c sizes).flatMap (·.2) = body.take (sizes.map (· - 1)).sum

instance (c : HttpClient) (body : Http.Bytes) (sizes : List Nat) : Decidable (Delivers c body sizes) :=
  inferInstanceAs (Decidable (_ ∧ _))

/-- `ofc_Init`, connected. -/
def fetchStart (net : Network) : HttpClient := ⟨net, ⟨false, false, 0, 0⟩⟩

/-! ## Content that stands -/

variable {c c' : HttpClient} {net : Network} {body rest : Http.Bytes} {total size : Nat}
  {sizes : List Nat}

/-- A call delivers the next bytes. -/
theorem recvData_standing (h : c.Standing total rest) (size : Nat) :
    ∃ c', recvData size c = (Http.qcloudRetSuccess, rest.take (size - 1), c') ∧
      c'.Standing total (rest.drop (size - 1)) := by
  by_cases hzero : size = 0
  · rw [hzero]
    exact ⟨c, if_pos rfl, h⟩
  · cases hmore : c.http.isMore with
    | true =>
      have hcontent : Transfer.Content ⟨c.net, c.http, [], []⟩ total rest :=
        ⟨h.connected, h.flows, h.stream, rfl, h.plain, h.contentLen⟩
      obtain ⟨rc, t', heq, hrc, hbuf, hstanding⟩ :=
        retrieveContent_stream size hcontent h.retrieveLen (Nat.zero_le _)
      have hresponse : recvResponse size c = (rc, t') := by
        unfold recvResponse
        rw [if_neg (by rw [h.connected]; decide), if_pos hmore, heq]
      rw [recvData_ok hzero hresponse hrc, hbuf]
      exact ⟨_, rfl, hstanding⟩
    | false =>
      -- everything has been delivered, and the next response is waited for
      have hrest := h.done hmore
      have hrecv : c.net.recv (httpClientChunkSize - 1) = (.timeUp, c.net) := by
        unfold Network.recv
        rw [Network.segments_eq_nil h.flows (h.stream.trans hrest)]
      have hresponse : recvResponse size c =
          (Http.qcloudRetSuccess, ⟨c.net, { c.http with isMore := true }, [], []⟩) := by
        unfold recvResponse
        rw [if_neg (by rw [h.connected]; decide), if_neg (by rw [hmore]; decide), hrecv]
      rw [recvData_ok hzero hresponse (Int.le_refl 0), hrest, List.take_nil, List.drop_nil]
      exact ⟨_, rfl, h.connected, h.flows, h.stream.trans hrest, h.plain, h.contentLen,
        hrest ▸ h.retrieveLen, fun _ => rfl⟩

theorem ofcFetch_standing (h : c.Standing total rest) (size : Nat) :
    ∃ c', ofcFetch size c = (((rest.take (size - 1)).length : Int), rest.take (size - 1), c') ∧
      c'.Standing total (rest.drop (size - 1)) := by
  obtain ⟨c', heq, h'⟩ := recvData_standing h size
  refine ⟨c', ?_, h'⟩
  unfold ofcFetch
  rw [heq]
  dsimp only
  rw [if_neg (by decide), h.contentLen, h.retrieveLen, h'.contentLen, h'.retrieveLen,
    List.length_take, List.length_drop]
  congr 1
  omega

theorem delivers_cons
    (hfetch : ofcFetch size c = (((rest.take (size - 1)).length : Int), rest.take (size - 1), c'))
    (h : Delivers c' (rest.drop (size - 1)) sizes) : Delivers c rest (size :: sizes) := by
  obtain ⟨hcount, hall⟩ := h
  unfold Delivers fetches
  rw [hfetch]
  refine ⟨fun r hr => ?_, ?_⟩
  · rcases List.mem_cons.mp hr with rfl | hr
    · rfl
    · exact hcount r hr
  · rw [List.flatMap_cons, hall, List.map_cons, List.sum_cons, List.take_add]

/-- Whatever stands is delivered. -/
theorem fetches_standing (h : c.Standing total rest) (sizes : List Nat) : Delivers c rest sizes := by
  induction sizes generalizing c rest with
  | nil => exact ⟨nofun, rfl⟩
  | cons size sizes ih =>
    obtain ⟨c', heq, h'⟩ := ofcFetch_standing h size
    exact delivers_cons heq (ih h')

/-! ## The response -/

/-- A response with its length: the first header line that has `Content-Length` in it gives it. -/
structure Response where
  head : Head
  body : Http.Bytes
  before : List Http.Bytes
  digits : Http.Bytes
  after : List Http.Bytes
  lines_eq : head.lines = before ++ (text "Content-Length: " ++ digits) :: after
  before_free : ∀ line ∈ before, ¬ contentLength <:+: line
  digits_ne_nil : digits ≠ []
  digits_digit : ∀ d ∈ digits, Lib.isDigit d = true
  digits_value : digitsValue 10 0 digits = body.length

variable {r : Response}

/-- The length is found. -/
theorem Response.contentInfo_eq (r : Response) (data : Http.Bytes) (http : HttpClientData) :
    contentInfo (r.head.fields ++ data) http =
      some { http with responseContentLen := r.body.length, retrieveLen := r.body.length } := by
  have hfields : ∀ z : Http.Bytes, r.head.fields ++ z =
      r.before.flatMap (· ++ crlf) ++ (text "Content-Length: " ++ (r.digits ++
        (13 :: 10 :: (r.after.flatMap (· ++ crlf) ++ (crlf ++ z))))) := by
    intro z
    unfold Head.fields
    rw [r.lines_eq, List.flatMap_append, List.flatMap_cons]
    simp only [List.append_assoc]
    rfl
  have hfind : strstr (r.head.fields ++ data) contentLength =
      some (r.before.flatMap (· ++ crlf)).length := by
    have hpre : ∀ z : Http.Bytes, contentLength <+: text "Content-Length: " ++ z :=
      fun z => ⟨text ": " ++ z, rfl⟩
    rw [strstr_append r.head.fields_ne_zero, hfields,
      find_lines (by decide) (by decide) (by decide) _ r.before_free,
      Lib.find_of_isPrefix (hpre _), Option.map_some, Nat.zero_add]
  have hdrop : (r.head.fields ++ data).drop
      ((r.before.flatMap (· ++ crlf)).length + (text "Content-Length: ").length) =
        r.digits ++ 13 :: 10 :: (r.after.flatMap (· ++ crlf) ++ (crlf ++ data)) := by
    rw [hfields, List.drop_length_add_append, List.drop_left]
  unfold contentInfo
  rw [hfind]
  dsimp only
  rw [hdrop, atoi_digits r.digits_ne_nil r.digits_digit (by decide), r.digits_value]

/-- What arrives with the head is of the body. -/
theorem onHand_le {h : Head} (hstream : net.stream = h.bytes ++ body) : h.onHand net ≤ body.length := by
  have hfirst := congrArg List.length net.firstRead_stream
  have hsecond := congrArg List.length (Network.next_stream net.firstRead.2
    (httpClientChunkSize - (net.firstRead.1.length - (h.statusLine.length + 2)) - 1)).1
  rw [hstream, List.length_append, List.length_append] at hfirst
  rw [List.length_append] at hsecond
  unfold Head.onHand Network.secondRead
  split <;> omega

/-! ## The first call -/

variable {b : Nat}

/-- A buffer of no size is not looked at. -/
theorem delivers_replicate (k : Nat) :
    Delivers c body (List.replicate k 0 ++ sizes) ↔ Delivers c body sizes := by
  induction k with
  | zero => rfl
  | succ k ih =>
    rw [← ih, List.replicate_succ, List.cons_append]
    have hfetch : ofcFetch 0 c = (0, [], c) := by
      unfold ofcFetch recvData
      rw [if_pos rfl]
      dsimp only
      rw [if_neg (by decide), Int.sub_self]
    unfold Delivers
    rw [fetches, hfetch]
    dsimp only
    rw [List.flatMap_cons, List.nil_append, List.map_cons, List.sum_cons, Nat.zero_add,
      List.forall_mem_cons]
    exact and_congr_left' (and_iff_right rfl)

/-- A call that fails delivers nothing that is counted. -/
theorem not_delivers_of_neg {p : Int × Http.Bytes × HttpClient} (hfetch : ofcFetch b c = p)
    (hneg : p.1 < 0) : ¬ Delivers c body (b :: sizes) := by
  rintro ⟨hcount, -⟩
  have hp := hcount (p.1, p.2.1) (by rw [fetches, hfetch]; exact List.mem_cons_self)
  dsimp only at hp
  omega

/-- What the first call with a buffer does once the head is there. -/
theorem start_content (hconnected : net.connected = true) (hflows : net.Flows)
    (hstream : net.stream = r.head.bytes ++ r.body)
    (hstatus : r.head.statusLine.length + 2 ≤ net.firstRead.1.length)
    (harrives : r.head.Arrives net) (b : Nat) :
    ∃ t : Transfer, recvResponse b (fetchStart net) = retrieveContent b t ∧
      t.Content r.body.length r.body ∧ t.http.retrieveLen = r.body.length ∧
      t.data.length = r.head.onHand net ∧ t.net.stream = r.body.drop (r.head.onHand net) := by
  obtain ⟨net', hstream', hflows', hconnected', hparse⟩ :=
    responseParse_head b hstream hflows hstatus harrives ⟨true, false, 0, 0⟩
  have hne : net.stream ≠ [] := by
    rw [hstream]
    exact List.append_ne_nil_of_left_ne_nil r.head.bytes_ne_nil _
  dsimp only at hparse
  rw [r.contentInfo_eq] at hparse
  refine ⟨_, (recvResponse_start b _ rfl hconnected hflows hne).trans hparse,
    ⟨hconnected'.trans hconnected, hflows', ?_, rfl, rfl, rfl⟩, rfl, ?_, hstream'⟩
  · rw [hstream']
    exact List.take_append_drop _ _
  · dsimp only
    rw [List.length_take, Nat.min_eq_left (onHand_le hstream)]

/-- What does not fit the first buffer is missed by a second one that has room for it. -/
theorem not_delivers_of_full {t : Transfer} (hb : b ≠ 0)
    (hresponse : recvResponse b c = retrieveContent b t) (ht : t.Content body.length body)
    (hretrieve : t.http.retrieveLen = body.length) (hfull : b - 1 < t.data.length) :
    ¬ Delivers c body [b, body.length + 2] := by
  have hfirst := recvData_ok hb (hresponse.trans (retrieveContent_full ht hretrieve hfull)) (by decide)
  have hlen := congrArg List.length ht.stream
  rw [List.length_append] at hlen
  -- the second call still counts on what has been lost
  have hread : toUint32 ((body.length : Int) - ((b - 1 : Nat) : Int)) = body.length - (b - 1) := by
    unfold toUint32
    rw [if_pos (by omega)]
    omega
  have hmissing : ∀ c' : HttpClient,
      c' = ⟨t.net, { t.http with
        isMore := true
        retrieveLen := (body.length : Int) - ((b - 1 : Nat) : Int) }⟩ →
      ∃ p, ofcFetch (body.length + 2) c' = p ∧ p.1 < 0 := by
    rintro c' rfl
    have hcontent : Transfer.Content ⟨t.net, { t.http with
        isMore := true
        retrieveLen := (body.length : Int) - ((b - 1 : Nat) : Int) }, [], []⟩
        body.length t.net.stream :=
      ⟨ht.connected, ht.flows, rfl, rfl, ht.plain, ht.contentLen⟩
    obtain ⟨t', hstarved⟩ := retrieveContent_starved (body.length + 2) hcontent
      (by rw [hread]; omega) (by omega)
    have hsecond : recvResponse (body.length + 2) ⟨t.net, { t.http with
        isMore := true
        retrieveLen := (body.length : Int) - ((b - 1 : Nat) : Int) }⟩ =
          (qcloudErrHttpTimeout, t') := by
      unfold recvResponse
      rw [if_neg (by rw [ht.connected]; decide), if_pos rfl, hstarved]
    refine ⟨_, rfl, ?_⟩
    unfold ofcFetch
    rw [recvData_error (by omega) hsecond (by decide)]
    exact (by decide : iotOtaErrFetchTimeout < 0)
  obtain ⟨p, hp, hneg⟩ := hmissing _ rfl
  rintro ⟨hcount, -⟩
  have hret := hcount (p.1, p.2.1) (by
    rw [fetches]
    unfold ofcFetch
    rw [hfirst]
    dsimp only
    rw [fetches, hp]
    exact List.mem_cons_of_mem _ List.mem_cons_self)
  dsimp only at hret
  omega

/-- Five bytes behind a status line and one header line. -/
def helloResponse : Response where
  head := .ok [text "Content-Length: 5"] (by decide) (by decide)
  body := text "hello"
  before := []
  digits := text "5"
  after := []
  lines_eq := rfl
  before_free := nofun
  digits_ne_nil := by decide
  digits_digit := by decide
  digits_value := by decide

/-- All of it in one piece. -/
def helloNet : Network := ⟨true, [helloResponse.head.bytes ++ helloResponse.body]⟩

end QcloudIot.Ota
