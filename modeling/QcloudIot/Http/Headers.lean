import QcloudIot.Http.Url

/-!
# The header of an HTTP request

`_http_client_send_header` and `_http_client_get_info` (`utils_httpc.c`). The parts of the header are
copied to a buffer, which is written when it is full.

* The network answers each write with the bytes it takes and a code; `Sender` is what it has taken so
  far and the buffer up to the index. A result `none` does not return.
* The credentials are the string that `_http_client_send_auth` has encoded.
* `infoLoop_index_le`: the index stays in the buffer, whatever the network does;
* `infoLoop_fits`: a part that leaves room is copied; `infoLoop_dead`: a network that takes nothing;
* **`assembled_iff`**: the parts are assembled on every network iff they leave room in the buffer;
* `sendHeader_eq`: the parts a request is made of.
-/

namespace QcloudIot.Http

open Lib Utils

def qcloudErrHttpClosed : Int := -3

/-- `HTTP_CLIENT_SEND_BUF_SIZE`. -/
def httpClientSendBufSize : Nat := 1024

/-! ## The buffer -/

/-- What `network_stack.write` answers. -/
structure WriteAnswer where
  written : Nat
  rc : Int
  deriving DecidableEq, Repr

/-- The answers, write by write. -/
abbrev Uplink := Nat → WriteAnswer

/-- What the network has taken, the buffer up to `send_idx`, and the number of writes. -/
structure Sender where
  sent : Bytes
  buf : Bytes
  writes : Nat
  deriving DecidableEq, Repr

namespace Sender

/-- An empty buffer. -/
def start : Sender := ⟨[], [], 0⟩

/-- The whole buffer is written; the network takes so much of it. -/
def write (s : Sender) (net : Uplink) : Nat × Sender :=
  let taken := min (net s.writes).written s.buf.length
  (taken, ⟨s.sent ++ s.buf.take taken, s.buf, s.writes + 1⟩)

end Sender

/-- The copy at the head of the loop: so much of the part as fits. -/
def Sender.fill (s : Sender) (part : Bytes) : Sender × Bytes :=
  let cpLen := if httpClientSendBufSize - s.buf.length ≥ part.length then part.length
    else httpClientSendBufSize - s.buf.length
  ({ s with buf := s.buf ++ part.take cpLen }, part.drop cpLen)

/-- The loop of `_http_client_get_info`. The index is stored behind the loop: where the network has taken
something, the buffer is left as it was before the part. -/
def infoLoop (net : Uplink) (before : Bytes) : (fuel : Nat) → Int → Sender → Bytes → Option (Int × Sender)
  | 0, _, _, _ => none
  | fuel + 1, rc, s, part =>
    let filled := s.fill part
    if filled.1.buf.length = httpClientSendBufSize then
      let rc := (net filled.1.writes).rc
      let written := filled.1.write net
      if written.1 ≠ 0 then some (written.1, { written.2 with buf := before })
      else if filled.2 ≠ [] then infoLoop net before fuel rc written.2 filled.2
      else some (rc, written.2)
    else if filled.2 ≠ [] then infoLoop net before fuel rc filled.1 filled.2
    else some (rc, filled.1)

/-- `_http_client_get_info`. -/
def httpClientGetInfo (net : Uplink) (fuel : Nat) (s : Sender) (buf : Bytes) (len : UInt32) :
    Option (Int × Sender) :=
  let len := if len = 0 then UInt32.ofNat buf.length else len
  infoLoop net s.buf fuel qcloudRetSuccess s (buf.take len.toNat)

/-- Parts appended one after the other, each with its `strlen`. -/
def appendParts (net : Uplink) (fuel : Nat) : Sender → List Bytes → Option Sender
  | s, [] => some s
  | s, part :: parts =>
    (httpClientGetInfo net fuel s part (UInt32.ofNat part.length)).bind fun r =>
      appendParts net fuel r.2 parts

/-! ## A request -/

/-- `HttpMethod`. -/
inductive HttpMethod where
  | get | post | put | delete | head
  deriving DecidableEq, Repr

/-- `meth`. -/
def HttpMethod.text : HttpMethod → Bytes
  | .get => Http.text "GET"
  | .post => Http.text "POST"
  | .put => Http.text "PUT"
  | .delete => Http.text "DELETE"
  | .head => Http.text "HEAD"

/-- `post_buf_len` and `post_content_type`, where there is a `post_buf`. -/
structure PostData where
  bufLen : Int
  contentType : Option Bytes
  deriving DecidableEq, Repr

/-- What a request is made of: the encoded credentials where there is an `auth_user`, `header`, and the
data to post. -/
structure HttpRequest where
  method : HttpMethod
  auth : Option Bytes
  header : Option Bytes
  post : Option PostData
  deriving DecidableEq, Repr

/-- `HAL_Snprintf` to `buf`. -/
def snprintf (s : Bytes) : Bytes := s.take (httpClientSendBufSize - 1)

/-- An `int` in a text. -/
def decimalText (n : Int) : Bytes := Http.text (toString n)

namespace HttpRequest

variable (r : HttpRequest)

/-- The request line and the host. -/
def requestLine (p : UrlParts) : Bytes :=
  snprintf (r.method.text ++ Http.text " " ++ p.path ++ Http.text " HTTP/1.1\r\nHost: " ++ p.host ++ crlf)

/-- The parts behind it. -/
def fieldParts : List Bytes :=
  (match r.auth with
    | some auth => [Http.text "Authorization: Basic ", auth]
    | none => []) ++
  (match r.header with
    | some header => [header]
    | none => []) ++
  (match r.post with
    | some post => snprintf (Http.text "Content-Length: " ++ decimalText post.bufLen ++ crlf) ::
        match post.contentType with
        | some contentType => [snprintf (Http.text "Content-Type: " ++ contentType ++ crlf)]
        | none => []
    | none => []) ++
  [crlf]

end HttpRequest

/-- `_http_client_send_header`: the code it returns, and the parts of a URL in buffers of its sizes. -/
def httpClientSendHeader (net : Uplink) (fuel : Nat) (url : Bytes) (r : HttpRequest) :
    Option (Int × Sender) :=
  match (httpClientParseUrl url 8 64 1024).2 with
  | .error code => some (code, .start)
  | .overrun => none
  | .ok p =>
    let line := r.requestLine p
    (httpClientGetInfo net fuel .start line (UInt32.ofNat line.length)).bind fun first =>
      if first.1 ≠ 0 then some (qcloudErrHttpConn, first.2)
      else
        (appendParts net fuel first.2 r.fieldParts).map fun s =>
          let (taken, s) := s.write net
          if taken > 0 then (qcloudRetSuccess, s) else (qcloudErrHttpClosed, s)

/-! ## One part -/

variable {net : Uplink} {s : Sender}

theorem fill_fits {part : Bytes} (h : s.buf.length + part.length ≤ httpClientSendBufSize) :
    s.fill part = ({ s with buf := s.buf ++ part }, []) := by
  rw [Sender.fill, if_pos (by omega), List.take_length, List.drop_length]

theorem fill_exceeds {part : Bytes} (hbuf : s.buf.length ≤ httpClientSendBufSize)
    (h : httpClientSendBufSize < s.buf.length + part.length) :
    s.fill part = ({ s with buf := s.buf ++ part.take (httpClientSendBufSize - s.buf.length) },
      part.drop (httpClientSendBufSize - s.buf.length)) := by
  rw [Sender.fill, if_neg (by omega)]

/-- The index stays in the buffer. -/
theorem fill_index_le (part : Bytes) (h : s.buf.length ≤ httpClientSendBufSize) :
    (s.fill part).1.buf.length ≤ httpClientSendBufSize := by
  by_cases hfits : s.buf.length + part.length ≤ httpClientSendBufSize
  · rw [fill_fits hfits, List.length_append]
    exact hfits
  · rw [fill_exceeds h (Nat.lt_of_not_le hfits), List.length_append, List.length_take]
    omega

theorem infoLoop_index_le {before part : Bytes} {fuel : Nat} {rc : Int} {r : Int × Sender}
    (hbefore : before.length ≤ httpClientSendBufSize) (hbuf : s.buf.length ≤ httpClientSendBufSize)
    (h : infoLoop net before fuel rc s part = some r) : r.2.buf.length ≤ httpClientSendBufSize := by
  induction fuel generalizing rc s part with
  | zero => cases h
  | succ fuel ih =>
    have hfilled := fill_index_le part hbuf
    rw [infoLoop] at h
    simp only at h
    split at h
    · split at h
      · cases h
        exact hbefore
      split at h
      · exact ih (s := ((s.fill part).1.write net).2) hfilled h
      · cases h
        exact hfilled
    · split at h
      · exact ih hfilled h
      · cases h
        exact hfilled

/-- **A part that leaves room** is copied and nothing is written. -/
theorem infoLoop_fits (before : Bytes) (fuel : Nat) (rc : Int) {part : Bytes}
    (h : s.buf.length + part.length < httpClientSendBufSize) :
    infoLoop net before (fuel + 1) rc s part = some (rc, { s with buf := s.buf ++ part }) := by
  rw [infoLoop, fill_fits (Nat.le_of_lt h)]
  simp only
  rw [if_neg (by rw [List.length_append]; omega), if_neg (not_not.mpr rfl)]

/-- A part that fills the buffer. -/
theorem infoLoop_full (before : Bytes) (fuel : Nat) (rc : Int) {part : Bytes} {taken : Nat} {s' : Sender}
    (h : s.buf.length + part.length = httpClientSendBufSize)
    (hwrite : Sender.write { s with buf := s.buf ++ part } net = (taken, s')) :
    infoLoop net before (fuel + 1) rc s part =
      if taken ≠ 0 then some ((taken : Int), { s' with buf := before }) else some ((net s.writes).rc, s') := by
  rw [infoLoop, fill_fits (Nat.le_of_eq h)]
  simp only
  rw [if_pos (by rw [List.length_append]; omega), hwrite]
  simp only
  rw [if_neg (not_not.mpr rfl)]

/-- The bytes of a part that its `uint32_t` length counts. -/
def counted (part : Bytes) : Bytes := part.take (UInt32.ofNat part.length).toNat

theorem getInfo_eq (fuel : Nat) (part : Bytes) :
    httpClientGetInfo net fuel s part (UInt32.ofNat part.length) =
      infoLoop net s.buf fuel qcloudRetSuccess s (counted part) := by
  unfold httpClientGetInfo
  simp only
  rw [show (if UInt32.ofNat part.length = 0 then UInt32.ofNat part.length
    else UInt32.ofNat part.length) = UInt32.ofNat part.length by split <;> rfl]
  rfl

theorem length_counted (part : Bytes) : (counted part).length = part.length % 2 ^ 32 := by
  rw [counted, UInt32.toNat_ofNat', List.length_take, Nat.min_eq_left (Nat.mod_le _ _)]

theorem counted_eq_self {part : Bytes} (h : part.length < 2 ^ 32) : counted part = part := by
  rw [counted, UInt32.toNat_ofNat', Nat.mod_eq_of_lt h, List.take_length]

/-! ## A network that takes nothing -/

/-- No write takes anything. -/
def dead : Uplink := fun _ => ⟨0, 0⟩

theorem write_dead (s : Sender) : s.write dead = (0, { s with writes := s.writes + 1 }) := by
  simp [Sender.write, dead]

/-- **A part that does not fit** is never got rid of. -/
theorem infoLoop_dead (before : Bytes) (fuel : Nat) (rc : Int) {part : Bytes}
    (hbuf : s.buf.length ≤ httpClientSendBufSize)
    (h : httpClientSendBufSize < s.buf.length + part.length) :
    infoLoop dead before fuel rc s part = none := by
  induction fuel generalizing rc s part with
  | zero => rfl
  | succ fuel ih =>
    have hfull : (s.buf ++ part.take (httpClientSendBufSize - s.buf.length)).length =
        httpClientSendBufSize := by
      rw [List.length_append, List.length_take]
      omega
    have hrest : part.drop (httpClientSendBufSize - s.buf.length) ≠ [] := by
      intro hnil
      have hlen := congrArg List.length hnil
      rw [List.length_drop, List.length_nil] at hlen
      omega
    rw [infoLoop, fill_exceeds hbuf h]
    simp only
    rw [if_pos hfull, write_dead]
    simp only
    rw [if_neg (not_not.mpr rfl), if_pos hrest]
    exact ih _ hfull.le (by
      have hpos := List.length_pos_iff.mpr hrest
      simp only [hfull]
      omega)

theorem infoLoop_dead_eq {before : Bytes} {fuel : Nat} {rc : Int} {part : Bytes} {r : Int × Sender}
    (hbuf : s.buf.length ≤ httpClientSendBufSize) (h : infoLoop dead before fuel rc s part = some r) :
    r.2.sent = s.sent ∧ r.2.buf = s.buf ++ part ∧
      s.buf.length + part.length ≤ httpClientSendBufSize := by
  have hfits : s.buf.length + part.length ≤ httpClientSendBufSize := by
    by_contra hexceeds
    rw [infoLoop_dead before fuel rc hbuf (Nat.lt_of_not_le hexceeds)] at h
    cases h
  cases fuel with
  | zero => cases h
  | succ fuel =>
    rcases Nat.lt_or_eq_of_le hfits with hlt | heq
    · rw [infoLoop_fits before fuel rc hlt] at h
      cases h
      exact ⟨rfl, rfl, hfits⟩
    · rw [infoLoop_full before fuel rc heq (write_dead _), if_neg (not_not.mpr rfl)] at h
      cases h
      exact ⟨rfl, rfl, hfits⟩

/-- **Parts appended without a network** all stand in the buffer. -/
theorem appendParts_dead {parts : List Bytes} {fuel : Nat} {s' : Sender}
    (hbuf : s.buf.length ≤ httpClientSendBufSize) (h : appendParts dead fuel s parts = some s') :
    s'.sent = s.sent ∧ s'.buf = s.buf ++ (parts.map counted).flatten ∧
      s'.buf.length ≤ httpClientSendBufSize := by
  induction parts generalizing s with
  | nil =>
    cases h
    exact ⟨rfl, (List.append_nil _).symm, hbuf⟩
  | cons part parts ih =>
    obtain ⟨r, hinfo, hrest⟩ := Option.bind_eq_some_iff.mp h
    rw [getInfo_eq] at hinfo
    obtain ⟨hsent, hr, hle⟩ := infoLoop_dead_eq hbuf hinfo
    obtain ⟨hsent', hbuf', hle'⟩ := ih (by rw [hr, List.length_append]; exact hle) hrest
    refine ⟨hsent'.trans hsent, ?_, hle'⟩
    rw [hbuf', hr, List.map_cons, List.flatten_cons, List.append_assoc]

/-! ## All parts -/

/-- **Parts that leave room** are appended on every network. -/
theorem appendParts_fits {parts : List Bytes} (fuel : Nat)
    (h : s.buf.length + parts.flatten.length < httpClientSendBufSize) :
    appendParts net (fuel + 1) s parts = some { s with buf := s.buf ++ parts.flatten } := by
  induction parts generalizing s with
  | nil =>
    rw [List.flatten_nil, List.append_nil]
    rfl
  | cons part parts ih =>
    rw [List.flatten_cons, List.length_append] at h
    have hpart : part.length < 2 ^ 32 := by
      have : httpClientSendBufSize < 2 ^ 32 := by decide
      omega
    rw [appendParts, getInfo_eq, counted_eq_self hpart, infoLoop_fits _ _ _ (by omega), Option.bind_some]
    simp only
    rw [ih (by rw [List.length_append]; omega), List.flatten_cons, List.append_assoc]

/-- The parts are appended, in order: what the network has taken and what is left in the buffer. -/
def Assembled (net : Uplink) (parts : List Bytes) : Prop :=
  ∃ fuel s, appendParts net fuel .start parts = some s ∧ s.buf.length ≤ httpClientSendBufSize ∧
    s.sent ++ s.buf = parts.flatten

/-- The last part that is not empty. -/
theorem exists_last_part {parts : List Bytes} (h : parts.flatten ≠ []) :
    ∃ front last behind, parts = front ++ last :: behind ∧ last ≠ [] ∧ behind.flatten = [] := by
  induction parts with
  | nil => exact absurd rfl h
  | cons part parts ih =>
    by_cases hrest : parts.flatten = []
    · rw [List.flatten_cons, hrest, List.append_nil] at h
      exact ⟨[], part, parts, rfl, h, hrest⟩
    · obtain ⟨front, last, behind, rfl, hlast, hbehind⟩ := ih hrest
      exact ⟨part :: front, last, behind, rfl, hlast, hbehind⟩

theorem appendParts_append (net : Uplink) (fuel : Nat) (s : Sender) (front behind : List Bytes) :
    appendParts net fuel s (front ++ behind) =
      (appendParts net fuel s front).bind fun s' => appendParts net fuel s' behind := by
  induction front generalizing s with
  | nil => rfl
  | cons part front ih =>
    rw [List.cons_append, appendParts, appendParts, Option.bind_assoc]
    simp only [ih]

/-- A network that takes `k` bytes of each write. -/
def takes (k : Nat) : Uplink := fun _ => ⟨k, 0⟩

/-- A network that takes a beginning of the buffer loses the part that has filled it. -/
theorem appendParts_full {front behind : List Bytes} {last : Bytes} {k fuel : Nat} (hlast : last ≠ [])
    (hbehind : behind.flatten = [])
    (hfull : front.flatten.length + last.length = httpClientSendBufSize)
    (hk : 0 < k) (hle : k ≤ httpClientSendBufSize) :
    appendParts (takes k) (fuel + 1) .start (front ++ last :: behind) =
      some ⟨(front.flatten ++ last).take k, front.flatten, 1⟩ := by
  have hpos := List.length_pos_iff.mpr hlast
  have hpart : last.length < 2 ^ 32 := by
    have : httpClientSendBufSize < 2 ^ 32 := by decide
    omega
  have hwrite : Sender.write ⟨[], front.flatten ++ last, 0⟩ (takes k) =
      (k, ⟨(front.flatten ++ last).take k, front.flatten ++ last, 1⟩) := by
    have hmin : min k (front.flatten ++ last).length = k := by
      rw [List.length_append]
      omega
    simp only [Sender.write, takes, hmin, List.nil_append, Nat.zero_add]
  have hfront : appendParts (takes k) (fuel + 1) .start front = some ⟨[], front.flatten, 0⟩ :=
    appendParts_fits fuel (by rw [Sender.start, List.length_nil]; omega)
  have hinfo : infoLoop (takes k) front.flatten (fuel + 1) qcloudRetSuccess ⟨[], front.flatten, 0⟩ last =
      some ((k : Int), ⟨(front.flatten ++ last).take k, front.flatten, 1⟩) := by
    rw [infoLoop_full _ fuel _ hfull hwrite, if_pos (Nat.ne_of_gt hk)]
  rw [appendParts_append, hfront, Option.bind_some, appendParts, getInfo_eq, counted_eq_self hpart, hinfo,
    Option.bind_some, appendParts_fits fuel (by rw [hbehind, List.length_nil]; simp only; omega),
    hbehind, List.append_nil]

/-- **Parts that fill the buffer** to its end are not assembled on all networks. -/
theorem not_assembled_full {parts : List Bytes} (h : parts.flatten.length = httpClientSendBufSize) :
    ∃ net, ¬ Assembled net parts := by
  have hne : parts.flatten ≠ [] := List.ne_nil_of_length_pos (by rw [h]; decide)
  obtain ⟨front, last, behind, rfl, hlast, hbehind⟩ := exists_last_part hne
  rw [List.flatten_append, List.flatten_cons, hbehind, List.append_nil, List.length_append] at h
  -- the bytes taken are not so many as those lost
  obtain ⟨k, hk, hle, hother⟩ : ∃ k, 0 < k ∧ k ≤ httpClientSendBufSize ∧ k ≠ last.length := by
    by_cases hone : last.length = 1
    · exact ⟨2, by decide, by decide, by omega⟩
    · exact ⟨1, by decide, by decide, Ne.symm hone⟩
  refine ⟨takes k, ?_⟩
  rintro ⟨fuel, s, happend, -, hbytes⟩
  cases fuel with
  | zero =>
    rw [appendParts_append] at happend
    obtain ⟨s', -, hnone⟩ := Option.bind_eq_some_iff.mp happend
    cases hnone
  | succ fuel =>
    rw [appendParts_full hlast hbehind h hk hle] at happend
    cases happend
    have hlen := congrArg List.length hbytes
    rw [List.flatten_append, List.flatten_cons, hbehind, List.append_nil, List.length_append,
      List.length_append, List.length_take, List.length_append] at hlen
    simp only at hlen
    omega

/-- **The parts that are assembled on every network.** -/
theorem assembled_iff (parts : List Bytes) :
    (∀ net, Assembled net parts) ↔ parts.flatten.length < httpClientSendBufSize := by
  constructor
  · intro hall
    obtain ⟨fuel, s, happend, hindex, hbytes⟩ := hall dead
    obtain ⟨hsent, hbuf, -⟩ := appendParts_dead (Nat.zero_le _) happend
    rw [hsent] at hbytes
    have hbuf' : s.buf = parts.flatten := hbytes
    refine Nat.lt_of_le_of_ne (hbuf' ▸ hindex) fun heq => ?_
    obtain ⟨net, hnot⟩ := not_assembled_full heq
    exact hnot (hall net)
  · intro h net
    exact ⟨1, _, appendParts_fits 0 (by rw [Sender.start, List.length_nil]; omega),
      h.le, rfl⟩

/-- A header that fills the buffer is sent with its beginning twice, by a network that takes all of it; one
that is longer is never done with, on a network that takes nothing. -/
theorem headers_not_assembled :
    ¬ Assembled (takes 1024) [List.replicate 60 97, List.replicate 964 98] ∧
      ¬ Assembled dead [List.replicate 1025 97] := by
  constructor
  · have hline : (List.replicate 60 (97 : UInt8)).length = 60 := List.length_replicate
    have hheader : (List.replicate 964 (98 : UInt8)).length = 964 := List.length_replicate
    generalize List.replicate 60 (97 : UInt8) = line, List.replicate 964 (98 : UInt8) = header at *
    rintro ⟨fuel, s, happend, -, hbytes⟩
    cases fuel with
    | zero => cases happend
    | succ fuel =>
      have hne : header ≠ [] := List.ne_nil_of_length_pos (by omega)
      have hfull : appendParts (takes 1024) (fuel + 1) .start ([line] ++ header :: []) = _ :=
        appendParts_full hne rfl (by rw [List.flatten_singleton, hline, hheader]; rfl) (by decide)
          (by decide)
      cases hfull.symm.trans happend
      have hlen := congrArg List.length hbytes
      simp only [List.flatten_cons, List.flatten_nil, List.append_nil, List.length_append,
        List.length_take, hline, hheader] at hlen
      exact absurd hlen (by decide)
  · rintro ⟨fuel, s, happend, hindex, -⟩
    obtain ⟨-, hbuf, -⟩ := appendParts_dead (Nat.zero_le _) happend
    rw [hbuf, Sender.start, List.map_singleton, List.flatten_singleton, List.nil_append, length_counted,
      List.length_replicate] at hindex
    exact absurd hindex (by decide)

/-! ## The header of a request -/

/-- The parts of the header of a request, in order. -/
def HttpRequest.headerParts (r : HttpRequest) (p : UrlParts) : List Bytes :=
  r.requestLine p :: r.fieldParts

/-- What `_http_client_send_header` makes of its parts: the request line leaves room, and behind the parts
the buffer is written once more. -/
theorem sendHeader_eq {url : Bytes} {p : UrlParts} (hurl : (httpClientParseUrl url 8 64 1024).2 = .ok p)
    (r : HttpRequest) (net : Uplink) (fuel : Nat) :
    httpClientSendHeader net (fuel + 1) url r =
      (appendParts net (fuel + 1) .start (r.headerParts p)).map fun s =>
        if (s.write net).1 > 0 then (qcloudRetSuccess, (s.write net).2)
        else (qcloudErrHttpClosed, (s.write net).2) := by
  have hline : (r.requestLine p).length < httpClientSendBufSize :=
    Nat.lt_of_le_of_lt (List.length_take_le _ _) (by decide)
  have hsmall : (r.requestLine p).length < 2 ^ 32 := by
    have : httpClientSendBufSize < 2 ^ 32 := by decide
    omega
  have hfirst : httpClientGetInfo net (fuel + 1) .start (r.requestLine p)
      (UInt32.ofNat (r.requestLine p).length) = some (qcloudRetSuccess, ⟨[], r.requestLine p, 0⟩) := by
    rw [getInfo_eq, counted_eq_self hsmall, infoLoop_fits _ _ _ ((Nat.zero_add _).symm ▸ hline)]
    rfl
  rw [httpClientSendHeader, hurl, HttpRequest.headerParts, appendParts]
  simp only
  rw [hfirst, Option.bind_some, Option.bind_some]
  exact if_neg (not_not.mpr rfl)

/-- **A header that leaves room** goes out in one write. -/
theorem sendHeader_writes {url : Bytes} {p : UrlParts} (hurl : (httpClientParseUrl url 8 64 1024).2 = .ok p)
    (r : HttpRequest) (net : Uplink) (fuel : Nat)
    (h : (r.headerParts p).flatten.length < httpClientSendBufSize) :
    ∃ rc, httpClientSendHeader net (fuel + 1) url r =
      some (rc, ⟨(r.headerParts p).flatten.take (net 0).written, (r.headerParts p).flatten, 1⟩) := by
  have happend : appendParts net (fuel + 1) .start (r.headerParts p) = _ :=
    appendParts_fits fuel (by rw [Sender.start, List.length_nil, Nat.zero_add]; exact h)
  have hsent : (Sender.write ⟨[], (r.headerParts p).flatten, 0⟩ net).2 =
      ⟨(r.headerParts p).flatten.take (net 0).written, (r.headerParts p).flatten, 1⟩ := by
    rw [Sender.write, ← List.take_eq_take_min]
    rfl
  rw [sendHeader_eq hurl, happend, Option.map_some]
  change ∃ rc, some (if (Sender.write ⟨[], (r.headerParts p).flatten, 0⟩ net).1 > 0 then _ else _) = _
  rw [← hsent]
  split
  · exact ⟨_, rfl⟩
  · exact ⟨_, rfl⟩

end QcloudIot.Http
