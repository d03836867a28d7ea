import QcloudIot.Http.Response

/-!
# Content of a known length

What the loops put in the buffer, of the data on hand and of what is still to arrive.

* `bodyLoop_stream`: with as much to come as is asked for, the buffer is filled with it, and what does
  not fit is left to the network;
* `bodyLoop_starved`: with less, the time runs out;
* `bodyLoop_full`: bytes on hand that do not fit are lost;
* `retrieveContent_stream`, `retrieveContent_starved`, `retrieveContent_full`: the same of a call.
-/

namespace QcloudIot.Http

variable {net net' : Network} {t t' : Transfer} {bs rest : Bytes} {size readLen m : Nat}

theorem Network.recv_timeUp (h : net.recv m = (.timeUp, net')) : net.stream = [] ∧ net' = net := by
  unfold recv at h
  split at h
  · rename_i hsegments
    cases h
    unfold stream
    rw [hsegments]
    exact ⟨rfl, rfl⟩
  · split_ifs at h <;> cases h

theorem Network.recv_peerShutdown (h : net.recv m = (.peerShutdown, net')) : m = 0 := by
  unfold recv at h
  split at h
  · cases h
  · split_ifs at h with hzero hle
    · exact hzero
    · cases h
    · cases h

theorem put_buf_length_le {k : Nat} : (t.put k).buf.length ≤ t.buf.length + k := by
  dsimp only [Transfer.put]
  rw [List.length_append, List.length_take]
  omega

theorem put_buf_all : (t.put t.data.length).buf = t.buf ++ t.data := by
  dsimp only [Transfer.put]
  rw [List.take_length]

/-- A call has put `bs` in the buffer, and counted it off; the network is left with `rest`. -/
structure Transfer.Gets (t t' : Transfer) (bs rest : Bytes) : Prop where
  buf : t'.buf = t.buf ++ bs
  stream : t'.net.stream = rest
  flows : t'.net.Flows
  connected : t'.net.connected = t.net.connected
  http : t'.http = { t.http with retrieveLen := t.http.retrieveLen - bs.length }

/-- A turn that puts all of its data, and what the call gets from there on. -/
theorem Transfer.Gets.turn {net₁ : Network} {bs₁ bs rest : Bytes} {t' : Transfer}
    (hconnected : net₁.connected = t.net.connected)
    (h : (Transfer.mk net₁ (t.put t.data.length).http bs₁ (t.put t.data.length).buf).Gets t' bs rest) :
    t.Gets t' (t.data ++ bs) rest := by
  refine ⟨?_, h.stream, h.flows, h.connected.trans hconnected, ?_⟩
  · rw [h.buf, put_buf_all, List.append_assoc]
  · rw [h.http, List.length_append]
    dsimp only [Transfer.put]
    congr 1
    omega

/-- **What there is fills the buffer.** -/
theorem bodyLoop_stream (size : Nat) (hflows : t.net.Flows) (hall : t.data ++ t.net.stream = bs)
    (hlen : bs.length = readLen) (hfit : t.buf.length + t.data.length ≤ size - 1) :
    (t.buf.length + bs.length < size - 1 →
      ∃ t', bodyLoop size readLen t = .ok t' ∧ t.Gets t' bs []) ∧
    (size - 1 ≤ t.buf.length + bs.length →
      ∃ t', bodyLoop size readLen t = .error (httpRetrieveMoreData, t') ∧
        t.Gets t' (bs.take (size - 1 - t.buf.length)) (bs.drop (size - 1 - t.buf.length))) := by
  have hsum : bs.length = t.data.length + t.net.stream.length := by
    rw [← hall, List.length_append]
  fun_induction bodyLoop size readLen t generalizing bs with
  | case1 readLen t templen hroom put => omega
  | case2 readLen t templen hroom put hle rest =>
    have hput : put = t.put t.data.length := congrArg t.put (by omega)
    have hnil : t.net.stream = [] := List.eq_nil_of_length_eq_zero (by omega)
    rw [hnil, List.append_nil] at hall
    subst hall
    refine ⟨fun _ => ⟨put, rfl, ?_, hnil, hflows, rfl, ?_⟩, fun h => by omega⟩
    · rw [hput, put_buf_all]
    · rw [hput]
      rfl
  | case3 readLen t templen hroom put hle rest hrest maxLen bs₁ net₁ hrecv =>
    rename_i ih
    have hput : put = t.put t.data.length := congrArg t.put (by omega)
    have hbufLen : put.buf.length = t.buf.length + t.data.length := by
      rw [hput, put_buf_all, List.length_append]
    obtain ⟨hmax, hstream, hconnected, hflows₁⟩ := Network.recv_bytes hrecv
    have hlen₁ := congrArg List.length hstream
    rw [List.length_append] at hlen₁
    obtain ⟨hok, hfull⟩ := ih (hflows₁ hflows).2 hstream (by omega) (by dsimp only; omega) hlen₁.symm
    dsimp only at hok hfull
    have hgets : ∀ {t' bs rest}, (Transfer.mk net₁ put.http bs₁ put.buf).Gets t' bs rest →
        t.Gets t' (t.data ++ bs) rest := by
      intro t' bs rest h
      rw [hput] at h
      exact h.turn hconnected
    subst hall
    refine ⟨fun h => ?_, fun h => ?_⟩
    · obtain ⟨t', heq, hgot⟩ := hok (by omega)
      exact ⟨t', heq, hgets hgot⟩
    · obtain ⟨t', heq, hgot⟩ := hfull (by omega)
      refine ⟨t', heq, ?_⟩
      have hroom' : size - 1 - t.buf.length = t.data.length + (size - 1 - put.buf.length) := by omega
      rw [hroom', List.take_length_add_append, List.drop_length_add_append]
      exact hgets hgot
  | case4 readLen t templen hroom put hle rest hrest maxLen net₁ =>
    rename_i hrecv
    have hnil := (Network.recv_timeUp hrecv).1
    rw [hnil, List.length_nil] at hsum
    omega
  | case5 readLen t templen hroom put hle rest hrest maxLen net₁ =>
    rename_i hrecv
    have hzero := Network.recv_peerShutdown hrecv
    have hbuf : put.buf.length ≤ t.buf.length + templen := put_buf_length_le
    have hchunk : httpClientChunkSize - 1 = 1024 := rfl
    omega
  | case6 readLen t templen =>
    rename_i hroom
    have hdata : size - 1 - t.buf.length = t.data.length := by omega
    subst hall
    refine ⟨fun h => by omega, fun _ => ⟨_, rfl, ?_, ?_, hflows, rfl, ?_⟩⟩
    · rw [hdata, List.take_left]
      exact put_buf_all
    · rw [hdata, List.drop_left]
      rfl
    · rw [hdata, List.take_left]
      rfl

/-- With less to come than is asked for, and room for it, the time runs out. -/
theorem bodyLoop_starved (size readLen : Nat) (hless : t.data.length + t.net.stream.length < readLen)
    (hfit : t.buf.length + t.data.length + t.net.stream.length < size - 1) :
    ∃ t', bodyLoop size readLen t = .error (qcloudErrHttpTimeout, t') := by
  fun_induction bodyLoop size readLen t with
  | case1 readLen t templen hroom put hlt => omega
  | case2 readLen t templen hroom put hle rest hrest => omega
  | case3 readLen t templen hroom put hle rest hrest maxLen bs₁ net₁ hrecv ih =>
    have hbuf : put.buf.length ≤ t.buf.length + templen := put_buf_length_le
    have hlen := congrArg List.length (Network.recv_bytes hrecv).2.1
    rw [List.length_append] at hlen
    exact ih (by dsimp only; omega) (by dsimp only; omega)
  | case4 readLen t templen hroom put hle rest hrest maxLen net₁ hrecv => exact ⟨_, rfl⟩
  | case5 readLen t templen hroom put hle rest hrest maxLen net₁ hrecv =>
    have hzero := Network.recv_peerShutdown hrecv
    have hbuf : put.buf.length ≤ t.buf.length + templen := put_buf_length_le
    have hchunk : httpClientChunkSize - 1 = 1024 := rfl
    omega
  | case6 readLen t templen hroom => omega

/-- What is on hand and does not fit is not kept. -/
theorem bodyLoop_full (size readLen : Nat) (hfull : size - 1 ≤ t.buf.length + min t.data.length readLen) :
    bodyLoop size readLen t = .error (httpRetrieveMoreData, t.put (size - 1 - t.buf.length)) := by
  unfold bodyLoop
  exact if_neg (Nat.not_lt.mpr hfull)

/-- A loop that ends has put all that was asked for in the buffer. -/
theorem bodyLoop_buf (h : bodyLoop size readLen t = .ok t') :
    t'.buf = t.buf ++ (t.data ++ t.net.stream).take readLen := by
  fun_induction bodyLoop size readLen t with
  | case1 readLen t templen hroom put hlt =>
    have htemp : templen = readLen := by omega
    rw [← Except.ok.inj h, List.take_append_of_le_length (Nat.le_of_lt hlt)]
    dsimp only [put, Transfer.put]
    rw [htemp]
  | case2 readLen t templen hroom put hle rest hrest =>
    have htemp : templen = readLen := by omega
    rw [← Except.ok.inj h, List.take_append_of_le_length (by omega)]
    dsimp only [put, Transfer.put]
    rw [htemp]
  | case3 readLen t templen hroom put hle rest hrest maxLen bs₁ net₁ hrecv ih =>
    have htemp : templen = t.data.length := by omega
    have hlen : readLen = t.data.length + rest := by omega
    rw [ih h, (Network.recv_bytes hrecv).2.1, hlen, List.take_length_add_append]
    dsimp only [put, Transfer.put]
    rw [htemp, List.take_length, List.append_assoc]
  | case4 => cases h
  | case5 => cases h
  | case6 => cases h

/-! ## A call -/

/-- Without chunks the outer loop is passed once. -/
theorem contentLoop_plain (hplain : t.http.isChunked = false) :
    contentLoop size t =
      match bodyLoop size (toUint32 t.http.retrieveLen) t with
      | .error e => e
      | .ok t' => (qcloudRetSuccess, { t' with http := { t'.http with isMore := false } }) := by
  have hhead : contentHead t = .ok (toUint32 t.http.retrieveLen, t) := by
    unfold contentHead
    rw [hplain]
    rfl
  unfold contentLoop
  split
  · rename_i e hhead'
    rw [hhead] at hhead'
    cases hhead'
  · rename_i readLen t₁ hhead'
    rw [hhead] at hhead'
    obtain ⟨rfl, rfl⟩ := Prod.mk.inj (Except.ok.inj hhead')
    split
    · rename_i e hbody
      simp only [hbody]
    · rename_i t₂ hbody
      have hchunked : ¬ t₂.http.isChunked = true := by
        rw [(bodyLoop_ok hbody).2.2, hplain]
        decide
      rw [if_neg hchunked]
      simp only [hbody]

/-- Content of `total` bytes: `bs` is what is on hand and still to arrive of it. -/
structure Transfer.Content (t : Transfer) (total : Nat) (bs : Bytes) : Prop where
  connected : t.net.connected = true
  flows : t.net.Flows
  stream : t.data ++ t.net.stream = bs
  buf : t.buf = []
  plain : t.http.isChunked = false
  contentLen : t.http.responseContentLen = total

/-- Between two calls, with `rest` still to arrive of `total` bytes. -/
structure HttpClient.Standing (c : HttpClient) (total : Nat) (rest : Bytes) : Prop where
  connected : c.net.connected = true
  flows : c.net.Flows
  stream : c.net.stream = rest
  plain : c.http.isChunked = false
  contentLen : c.http.responseContentLen = total
  retrieveLen : c.http.retrieveLen = rest.length
  done : c.http.isMore = false → rest = []

theorem retrieveContent_plain {total : Nat} {bs : Bytes} (ht : t.Content total bs) :
    retrieveContent size t =
      match bodyLoop size (toUint32 t.http.retrieveLen)
        { t with http := { t.http with isMore := true } } with
      | .error e => e
      | .ok t' => (qcloudRetSuccess, { t' with http := { t'.http with isMore := false } }) := by
  unfold retrieveContent
  have hlen : ¬ (t.http.responseContentLen = -1 ∧ t.http.isChunked = false) := by
    rw [ht.contentLen]
    rintro ⟨h, -⟩
    omega
  dsimp only
  rw [if_neg hlen]
  exact contentLoop_plain ht.plain

/-- **A call hands out what fits, and the rest stands.** -/
theorem retrieveContent_stream (size : Nat) {total : Nat} {bs : Bytes} (ht : t.Content total bs)
    (hretrieve : t.http.retrieveLen = bs.length) (hfit : t.data.length ≤ size - 1) :
    ∃ rc t', retrieveContent size t = (rc, t') ∧ 0 ≤ rc ∧ t'.buf = bs.take (size - 1) ∧
      HttpClient.Standing ⟨t'.net, t'.http⟩ total (bs.drop (size - 1)) := by
  have hread : toUint32 t.http.retrieveLen = bs.length := by
    unfold toUint32
    rw [hretrieve, if_pos (Int.natCast_nonneg _)]
    rfl
  have hlen : t.buf.length = 0 := by rw [ht.buf, List.length_nil]
  obtain ⟨hok, hfull⟩ := bodyLoop_stream size
    (t := { t with http := { t.http with isMore := true } }) ht.flows ht.stream hread.symm
    (by rw [hlen]; dsimp only; omega)
  dsimp only at hok hfull
  rw [hlen, Nat.zero_add] at hok hfull
  rw [retrieveContent_plain ht]
  by_cases hshort : bs.length < size - 1
  · obtain ⟨t', heq, hgot⟩ := hok hshort
    have hall : bs.take (size - 1) = bs ∧ bs.drop (size - 1) = [] :=
      ⟨List.take_of_length_le (Nat.le_of_lt hshort), List.drop_eq_nil_of_le (Nat.le_of_lt hshort)⟩
    rw [heq, hall.1, hall.2]
    refine ⟨_, _, rfl, Int.le_refl 0, ?_, hgot.connected.trans ht.connected, hgot.flows, hgot.stream,
      ?_, ?_, ?_, fun _ => rfl⟩
    · rw [hgot.buf, ht.buf, List.nil_append]
    · rw [hgot.http]
      exact ht.plain
    · rw [hgot.http]
      exact ht.contentLen
    · rw [hgot.http]
      dsimp only
      rw [hretrieve, Int.sub_self]
      rfl
  · obtain ⟨t', heq, hgot⟩ := hfull (Nat.not_lt.mp hshort)
    rw [Nat.sub_zero] at hgot
    rw [heq]
    refine ⟨_, _, rfl, by decide, ?_, hgot.connected.trans ht.connected, hgot.flows, hgot.stream,
      ?_, ?_, ?_, ?_⟩
    · rw [hgot.buf, ht.buf, List.nil_append]
    · rw [hgot.http]
      exact ht.plain
    · rw [hgot.http]
      exact ht.contentLen
    · rw [hgot.http]
      dsimp only
      rw [hretrieve, List.length_take, List.length_drop]
      omega
    · rw [hgot.http]
      exact nofun

theorem retrieveContent_starved (size : Nat) {total : Nat} {bs : Bytes} (ht : t.Content total bs)
    (hless : bs.length < toUint32 t.http.retrieveLen) (hfit : bs.length < size - 1) :
    ∃ t', retrieveContent size t = (qcloudErrHttpTimeout, t') := by
  have hlen : bs.length = t.data.length + t.net.stream.length := by
    rw [← ht.stream, List.length_append]
  obtain ⟨t', heq⟩ := bodyLoop_starved size (toUint32 t.http.retrieveLen)
    (t := { t with http := { t.http with isMore := true } }) (by dsimp only; omega)
    (by rw [ht.buf]; dsimp only [List.length_nil]; omega)
  rw [retrieveContent_plain ht, heq]
  exact ⟨t', rfl⟩

theorem retrieveContent_full {total : Nat} {bs : Bytes} (ht : t.Content total bs)
    (hretrieve : t.http.retrieveLen = bs.length) (hfull : size - 1 < t.data.length) :
    retrieveContent size t =
      (httpRetrieveMoreData,
        { t with
          buf := t.data.take (size - 1)
          http := { t.http with
            isMore := true
            retrieveLen := bs.length - ((size - 1 : Nat) : Int) } }) := by
  have hread : toUint32 t.http.retrieveLen = bs.length := by
    unfold toUint32
    rw [hretrieve, if_pos (Int.natCast_nonneg _)]
    rfl
  have hlen : bs.length = t.data.length + t.net.stream.length := by
    rw [← ht.stream, List.length_append]
  have heq := bodyLoop_full size (toUint32 t.http.retrieveLen)
    (t := { t with http := { t.http with isMore := true } })
    (by rw [ht.buf, hread]; dsimp only [List.length_nil]; omega)
  rw [retrieveContent_plain ht, heq]
  dsimp only [Transfer.put]
  rw [ht.buf, hretrieve]
  rfl

end QcloudIot.Http
