import QcloudIot.Http.Content

/-!
# Chunked content

What is received of a response with `Transfer-Encoding: chunked`. The line of the last chunk sets
`is_more` to false, and is then taken for a length that cannot be read.

* `contentLoop_unended`: no call ends chunked content with success;
* `framing_of_isPrefix`: a body that its own encoding begins with has nothing in it but what can stand
  around chunks, and so no `Content-Length`;
* **`chunked_never`**: no chunked response is received, in whatever pieces it arrives;
* `helloChunked_fails`: one chunk, all of it in one piece.
-/

namespace QcloudIot.Http

open Lib Utils

/-! ## The encoding -/

/-- A chunk with its line. -/
structure Chunk where
  digits : Bytes
  data : Bytes
  data_ne_nil : data ≠ []
  digits_hex : ∀ d ∈ digits, (digitOf 16 d).isSome
  digits_value : digitsValue 16 0 digits = data.length

/-- The chunks, and the last one. -/
def encode : List Chunk → Bytes
  | [] => text "0" ++ crlf ++ crlf
  | chunk :: chunks => chunk.digits ++ crlf ++ chunk.data ++ crlf ++ encode chunks

/-- What stands around chunks. -/
def Framing (c : UInt8) : Prop := (digitOf 16 c).isSome ∨ c ∈ crlf

instance (c : UInt8) : Decidable (Framing c) := inferInstanceAs (Decidable (_ ∨ _))

variable {chunks : List Chunk} {i : Nat} {c : UInt8}

theorem getElem?_append_cases {x y : Bytes} (h : (x ++ y)[i]? = some c) :
    x[i]? = some c ∨ x.length ≤ i ∧ y[i - x.length]? = some c := by
  rcases Nat.lt_or_ge i x.length with hlt | hge
  · rw [List.getElem?_append_left hlt] at h
    exact .inl h
  · rw [List.getElem?_append_right hge] at h
    exact .inr ⟨hge, h⟩

/-- What stands somewhere in the encoding stands around chunks, or earlier in the content. -/
theorem encode_getElem? {chunks : List Chunk} {i : Nat} (h : (encode chunks)[i]? = some c) :
    Framing c ∨ ∃ j, j < i ∧ (chunks.flatMap (·.data))[j]? = some c := by
  induction chunks generalizing i with
  | nil =>
    have hmem : c ∈ text "0" ++ crlf ++ crlf := List.mem_of_getElem? h
    have hall : ∀ c ∈ text "0" ++ crlf ++ crlf, Framing c := by decide
    exact .inl (hall c hmem)
  | cons chunk chunks ih =>
    have hcrlf : crlf.length = 2 := rfl
    rw [encode, List.append_assoc, List.append_assoc, List.append_assoc] at h
    rw [List.flatMap_cons]
    rcases getElem?_append_cases h with h | ⟨hdigits, h⟩
    · exact .inl (.inl (chunk.digits_hex c (List.mem_of_getElem? h)))
    rcases getElem?_append_cases h with h | ⟨hline, h⟩
    · exact .inl (.inr (List.mem_of_getElem? h))
    rcases getElem?_append_cases h with h | ⟨hdata, h⟩
    · refine .inr ⟨i - chunk.digits.length - crlf.length, by omega, ?_⟩
      rw [List.getElem?_append_left (List.getElem?_eq_some_iff.mp h).1, h]
    rcases getElem?_append_cases h with h | ⟨hend, h⟩
    · exact .inl (.inr (List.mem_of_getElem? h))
    rcases ih h with hframing | ⟨j, hj, hc⟩
    · exact .inl hframing
    · refine .inr ⟨chunk.data.length + j, by omega, ?_⟩
      rw [List.getElem?_append_right (Nat.le_add_right _ _), Nat.add_sub_cancel_left, hc]

/-- A body that the encoding begins with. -/
theorem framing_of_isPrefix (h : chunks.flatMap (·.data) <+: encode chunks) (i : Nat) :
    ∀ {c}, (chunks.flatMap (·.data))[i]? = some c → Framing c := by
  induction i using Nat.strongRecOn with
  | ind i ih =>
    intro c hc
    have henc : (encode chunks)[i]? = some c := by
      rw [List.prefix_iff_getElem?.mp h i (List.getElem?_eq_some_iff.mp hc).1]
      exact (List.getElem?_eq_getElem _).symm.trans hc
    rcases encode_getElem? henc with hframing | ⟨j, hj, hc'⟩
    · exact hframing
    · exact ih j hj hc'

/-! ## Calls -/

variable {t t' : Transfer} {e : Int × Transfer} {size readLen : Nat}

/-- The call does not end the response with success. -/
def Unended (r : Int × Transfer) : Prop := r.1 < 0 ∨ r.2.http.isMore = true

theorem bodyLoop_error (h : bodyLoop size readLen t = .error e) :
    e.2.http.isMore = t.http.isMore := by
  fun_induction bodyLoop size readLen t with
  | case1 => cases h
  | case2 => cases h
  | case3 readLen t templen hroom put hle rest hrest maxLen bs net hrecv ih => exact ih h
  | case4 =>
    cases h
    rfl
  | case5 =>
    cases h
    rfl
  | case6 =>
    cases h
    rfl

theorem rawLoop_unended (hflows : t.net.Flows) (hmore : t.http.isMore = true) :
    Unended (rawLoop size t) := by
  fun_induction rawLoop size t with
  | case1 t hroom buf net hrecv => exact absurd rfl ((Network.recv_bytes hrecv).2.2.2 hflows).1
  | case2 t hroom buf bs net hrecv hne ih => exact ih ((Network.recv_bytes hrecv).2.2.2 hflows).2 hmore
  | case3 => exact .inl (by decide : qcloudErrHttpTimeout < 0)
  | case4 => exact .inl (by decide : qcloudErrTcpPeerShutdown < 0)
  | case5 => exact .inr hmore

theorem contentHead_error (h : contentHead t = .error e) (hmore : t.http.isMore = true) :
    Unended e := by
  unfold contentHead at h
  split_ifs at h
  unfold chunkHeader at h
  split at h
  · rename_i e' hline
    cases h
    exact .inr ((congrArg HttpClientData.isMore (chunkLine_error hline)).trans hmore)
  · rename_i crlfPos t₁ hline
    dsimp only at h
    split_ifs at h
    -- the last chunk
    rw [← Except.error.inj h]
    exact .inl (by decide : qcloudErrHttpUnresolvedDns < 0)

theorem chunkEnd_error (h : chunkEnd t = .error e) (hmore : t.http.isMore = true) : Unended e := by
  unfold chunkEnd at h
  split at h
  · rename_i e' hrecv
    cases h
    split_ifs at hrecv
    exact .inr ((congrArg HttpClientData.isMore (recvMore_error hrecv)).trans hmore)
  · split_ifs at h
    cases h
    exact .inl (by decide : qcloudErrHttpUnresolvedDns < 0)

/-- **Chunked content does not end.** -/
theorem contentLoop_unended (hchunked : t.http.isChunked = true) (hmore : t.http.isMore = true) :
    Unended (contentLoop size t) := by
  fun_induction contentLoop size t with
  | case1 t e hhead => exact contentHead_error hhead hmore
  | case2 t readLen t₁ hhead e hbody =>
    exact .inr ((bodyLoop_error hbody).trans ((contentHead_ok hhead).2.1.trans hmore))
  | case3 t readLen t₁ hhead t₂ hbody hchunked₂ e hend =>
    exact chunkEnd_error hend
      ((bodyLoop_ok hbody).2.1.trans ((contentHead_ok hhead).2.1.trans hmore))
  | case4 t readLen t₁ hhead t₂ hbody hchunked₂ t₃ hend ih =>
    have hhttp := (chunkEnd_ok hend).2
    refine ih ((congrArg HttpClientData.isChunked hhttp).trans hchunked₂) ?_
    rw [hhttp]
    exact (bodyLoop_ok hbody).2.1.trans ((contentHead_ok hhead).2.1.trans hmore)
  | case5 t readLen t₁ hhead t₂ hbody hplain =>
    exact absurd ((bodyLoop_ok hbody).2.2.trans ((contentHead_ok hhead).2.2.trans hchunked)) hplain

/-- A call that ends a response with success has read content that is not chunked, and has put a
beginning of it in the buffer. -/
theorem retrieveContent_cases (size : Nat) (hflows : t.net.Flows) :
    Unended (retrieveContent size t) ∨
      (t.http.isChunked = false ∧ t.http.responseContentLen ≠ -1 ∧
        (retrieveContent size t).2.buf <+: t.buf ++ (t.data ++ t.net.stream)) := by
  unfold retrieveContent
  dsimp only
  split_ifs with hraw
  · exact .inl (rawLoop_unended hflows rfl)
  rcases Bool.eq_false_or_eq_true t.http.isChunked with hchunked | hplain
  · exact .inl (contentLoop_unended hchunked rfl)
  · rw [contentLoop_plain (by exact hplain)]
    dsimp only
    split
    · rename_i e hbody
      exact .inl (.inr (bodyLoop_error hbody))
    · rename_i t' hbody
      refine .inr ⟨hplain, fun hlen => hraw ⟨hlen, hplain⟩, ?_⟩
      dsimp only
      rw [bodyLoop_buf hbody]
      exact (List.prefix_append_right_inj _).mpr (List.take_prefix _ _)

theorem contentInfo_cases {data : Bytes} {http http' : HttpClientData}
    (h : contentInfo data http = some http') :
    (∃ pos, strstr data contentLength = some pos) ∨ http'.isChunked = true ∨ http' = http := by
  unfold contentInfo at h
  split at h
  · rename_i pos hpos
    exact .inl ⟨pos, hpos⟩
  · split at h
    · dsimp only at h
      split_ifs at h
      · cases h
        exact .inr (.inl rfl)
      · exact .inr (.inr (Option.some.inj h).symm)
    · cases h

/-! ## The response -/

/-- A response in chunks. The line that says so may stand anywhere in the head. -/
structure ChunkedResponse where
  head : Head
  chunks : List Chunk
  encoding_mem : text "Transfer-Encoding: chunked" ∈ head.lines
  length_free : ∀ line ∈ head.lines, ¬ contentLength <:+: line

namespace ChunkedResponse

variable {r : ChunkedResponse}

def body (r : ChunkedResponse) : Bytes := r.chunks.flatMap (·.data)

def bytes (r : ChunkedResponse) : Bytes := r.head.bytes ++ encode r.chunks

/-- A call that receives the response: it returns success, with the body in the buffer and nothing
more to come. -/
def Received (r : ChunkedResponse) (net : Network) (size : Nat) : Prop :=
  let call := recvData size ⟨net, ⟨false, false, 0, 0⟩⟩
  call.1 = qcloudRetSuccess ∧ call.2.1 = r.body ∧ call.2.2.http.isMore = false

instance (r : ChunkedResponse) (net : Network) (size : Nat) : Decidable (r.Received net size) :=
  inferInstanceAs (Decidable (_ ∧ _ ∧ _))

/-- Where a length is found, it is in the content. -/
theorem mem_of_contentLength {data : Bytes} {pos : Nat}
    (h : strstr (r.head.fields ++ data) contentLength = some pos) : (111 : UInt8) ∈ data := by
  have hlines : ∀ line ∈ r.head.lines ++ [[]], ¬ contentLength <:+: line := by
    intro line hline
    rcases List.mem_append.mp hline with hline | hline
    · exact r.length_free line hline
    · rw [List.mem_singleton.mp hline]
      decide
  have hfields : r.head.fields = (r.head.lines ++ [[]]).flatMap (· ++ crlf) := by
    rw [List.flatMap_append, List.flatMap_singleton]
    rfl
  rw [strstr_append r.head.fields_ne_zero, hfields,
    find_lines (by decide) (by decide) (by decide) _ hlines] at h
  obtain ⟨k, hk, -⟩ := Option.map_eq_some_iff.mp h
  have hmem : (111 : UInt8) ∈ data.takeWhile (· ≠ 0) := mem_of_find hk (by decide)
  exact (List.takeWhile_sublist _).subset hmem

/-- What is known of the response where a call receives it. -/
theorem Received.response {net : Network} (h : r.Received net size) (hsize : size ≠ 0) :
    ¬ Unended (recvResponse size ⟨net, ⟨false, false, 0, 0⟩⟩) ∧
      (recvResponse size ⟨net, ⟨false, false, 0, 0⟩⟩).2.buf = r.body := by
  obtain ⟨hrc, hbuf, hmore⟩ := h
  by_cases hneg : (recvResponse size ⟨net, ⟨false, false, 0, 0⟩⟩).1 < 0
  · rw [recvData_error hsize rfl hneg] at hrc
    exact absurd hrc (Int.ne_of_lt hneg)
  · rw [recvData_ok hsize rfl (Int.not_lt.mp hneg)] at hbuf hmore
    refine ⟨?_, hbuf⟩
    rintro (hneg' | hmore')
    · exact hneg hneg'
    · exact absurd (hmore'.symm.trans hmore) (by decide)

/-- A body with a letter in it that is no digit is not what its encoding begins with. -/
theorem not_prefix_of_mem (hmem : (111 : UInt8) ∈ encode r.chunks) :
    ¬ r.body <+: encode r.chunks := by
  intro hpre
  obtain ⟨i, hi⟩ := List.mem_iff_getElem?.mp hmem
  rcases encode_getElem? hi with hframing | ⟨j, -, hj⟩
  · exact absurd hframing (by decide)
  · exact absurd (framing_of_isPrefix hpre j hj) (by decide)

/-- **A chunked response is never received.** -/
theorem chunked_never (r : ChunkedResponse) {net : Network} (hconnected : net.connected = true)
    (hflows : net.Flows) (hstream : net.stream = r.bytes) (harrives : r.head.Arrives net)
    (hsize : r.body.length < size) : ¬ r.Received net size := by
  intro hreceived
  obtain ⟨hended, hbuf⟩ := hreceived.response (by omega)
  have hne : net.stream ≠ [] := by
    rw [hstream]
    exact List.append_ne_nil_of_left_ne_nil r.head.bytes_ne_nil _
  have hstart := recvResponse_start size ⟨false, false, 0, 0⟩ rfl hconnected hflows hne
  rw [hstart] at hended hbuf
  by_cases hstatus : r.head.statusLine.length + 2 ≤ net.firstRead.1.length
  · obtain ⟨net', hstream', hflows', -, hparse⟩ :=
      responseParse_head size hstream hflows hstatus harrives ⟨true, false, 0, 0⟩
    rw [hparse] at hended hbuf
    dsimp only at hended hbuf
    split at hended
    · exact hended (.inl (by decide : qcloudErrHttp < 0))
    · rename_i http' hinfo
      rcases retrieveContent_cases (t := ⟨net', http', (encode r.chunks).take (r.head.onHand net), []⟩)
        size hflows' with hunended | ⟨hplain, hlen, hpre⟩
      · exact hended hunended
      · -- the length of the content is one that has been found in the content
        have hmem : (111 : UInt8) ∈ encode r.chunks := by
          rcases contentInfo_cases hinfo with ⟨pos, hfound⟩ | hchunked | hsame
          · exact (List.take_sublist _ _).subset (mem_of_contentLength hfound)
          · exact absurd (hchunked.symm.trans hplain) (by decide)
          · exact absurd (by rw [hsame]) hlen
        simp only [hinfo] at hbuf
        dsimp only at hpre
        rw [hbuf, List.nil_append, hstream', List.take_append_drop] at hpre
        exact not_prefix_of_mem hmem hpre
  · rw [responseParse_cut hstream (Nat.not_le.mp hstatus)] at hended
    exact hended (.inl (by decide : qcloudErrHttpUnresolvedDns < 0))

end ChunkedResponse

/-! ## One chunk -/

/-- The chunk `hello`. -/
def helloChunk : Chunk where
  digits := text "5"
  data := text "hello"
  data_ne_nil := by decide
  digits_hex := by decide
  digits_value := by decide

def helloChunked : ChunkedResponse where
  head := .ok [text "Transfer-Encoding: chunked"] (by decide) (by decide)
  chunks := [helloChunk]
  encoding_mem := by decide
  length_free := by
    intro line hline hinner
    rw [List.mem_singleton.mp hline] at hinner
    exact absurd (hinner.subset (by decide : (76 : UInt8) ∈ contentLength)) (by decide)

/-- All of it in one piece. -/
def helloChunkedNet : Network := ⟨true, [helloChunked.bytes]⟩

theorem helloChunked_never : ¬ helloChunked.Received helloChunkedNet 100 :=
  helloChunked.chunked_never rfl (by decide) (by decide) (by decide) (by decide)

/-- The five bytes stand in the buffer, and the call fails. -/
theorem helloChunked_fails : helloChunkedNet.connected = true ∧ helloChunkedNet.Flows ∧
    helloChunkedNet.stream = helloChunked.bytes ∧ helloChunked.head.Arrives helloChunkedNet ∧
    helloChunked.body.length < 100 ∧ ¬ helloChunked.Received helloChunkedNet 100 ∧
    (recvData 100 ⟨helloChunkedNet, ⟨false, false, 0, 0⟩⟩).1 = qcloudErrHttpUnresolvedDns := by
  decide +kernel

end QcloudIot.Http
