import QcloudIot.Mqtt.RemLen
import QcloudIot.Mqtt.Transport

/-!
# Packets out of a byte stream

`_read_mqtt_packet` over any network (`Network`), with every part of `read_buf` on record that it
writes to or hands out to be written. Over the network stack of `Transport.lean` it is the
function modelled there (`readMqttPacket_eq`). Over a stream of bytes, read by `HAL_TCP_Read`, it
cuts the stream into packets.

* `decodeRemLen_stream`, `discard_stream`: what the two loops take off the stream;
* `read_packet`: one call at a packet boundary;
* **`framing`**: on a stream of packets the calls return one packet after the other, those that do
  not fit `read_buf` as `QCLOUD_ERR_BUF_TOO_SHORT`; every call ends at a packet boundary and stays
  inside `read_buf`.
-/

namespace QcloudIot.Mqtt

open Lib

/-- A network as `network_stack.read` shows it: a read of `n` bytes returns a code and the bytes
placed in the buffer. -/
structure Network (σ : Type) where
  read : σ → (n : Nat) → ReturnCode × Bytes × σ

/-- `read_buf` during a call: its bytes, and the parts of it the call has written to or has handed
to the network, as offset and length. -/
structure ReadBuf where
  mem : Mem
  areas : List (Nat × Nat)

/-- `bytes` placed in the part of length `n` at `p`. -/
def ReadBuf.place (buf : ReadBuf) (p n : Nat) (bytes : Bytes) : ReadBuf :=
  ⟨buf.mem.store p bytes, buf.areas ++ [(p, n)]⟩

/-- What `_read_mqtt_packet` leaves: its code, `*packet_type`, `read_buf` and the network. -/
structure PacketRead (σ : Type) where
  rc : ReturnCode
  packetType : UInt8
  buf : ReadBuf
  net : σ

namespace Network

variable {σ : Type} (net : Network σ)

/-- The loop of `_decode_packet_rem_len_with_net_read`, `left` bytes still allowed. -/
def decodeRemLen : (left multiplier value : Nat) → σ → Except ReturnCode Nat × σ
  | 0, _, _, s => (.error .errMqttPacketRead, s)
  | left + 1, multiplier, value, s =>
    let (rc, bytes, s) := net.read s 1
    if rc ≠ .retSuccess then (.error .errFailure, s)
    else
      let i := bytes.headD 0
      let value := value + (i &&& (127 : UInt8)).toNat * multiplier
      if i &&& (128 : UInt8) ≠ 0 then decodeRemLen left (multiplier * 128) value s
      else (.ok value, s)

/-- The loop that reads an oversized packet away, chunk by chunk into the start of `read_buf`;
`none` when it has not ended after so many rounds. -/
def discard (remLen size : Nat) :
    (rounds total toRead : Nat) → ReadBuf → σ → Option (ReadBuf × σ)
  | 0, _, _, _, _ => none
  | rounds + 1, total, toRead, buf, s =>
    let (rc, bytes, s) := net.read s toRead
    let buf := buf.place 0 toRead bytes
    if rc ≠ .retSuccess then some (buf, s)
    else
      let total := total + bytes.length
      let toRead := if remLen - total ≥ size then size else remLen - total
      if total < remLen then discard remLen size rounds total toRead buf s else some (buf, s)

/-- The last step of `_read_mqtt_packet`: the payload into `read_buf + len`. -/
def readPayload (size len remLen : Nat) (packetType : UInt8) (buf : ReadBuf) (s : σ) :
    PacketRead σ :=
  if remLen > 0 ∧ len + remLen > size then
    let (_, bytes, s) := net.read s remLen
    ⟨.errBufTooShort, packetType, buf.place 0 remLen bytes, s⟩
  else if remLen > 0 then
    let (rc, bytes, s) := net.read s remLen
    let buf := buf.place len remLen bytes
    if rc ≠ .retSuccess then ⟨rc, packetType, buf, s⟩
    else ⟨.retSuccess, headerType (buf.mem 0), buf, s⟩
  else ⟨.retSuccess, headerType (buf.mem 0), buf, s⟩

/-- `_read_mqtt_packet` into a `read_buf` of `size` bytes; `packetType` is the value
`*packet_type` had. -/
def readMqttPacket (rounds size : Nat) (packetType : UInt8) (mem : Mem) (s : σ) :
    Option (PacketRead σ) :=
  -- 1. read 1st byte in fixed header and check if valid
  let (rc, bytes, s) := net.read s 1
  let buf := (ReadBuf.mk mem []).place 0 1 bytes
  if rc = .errSslNothingToRead ∨ rc = .errTcpNothingToRead then
    some ⟨.errMqttNothingToRead, packetType, buf, s⟩
  else if rc ≠ .retSuccess then some ⟨rc, packetType, buf, s⟩
  else
    -- 2. read the remaining length
    match net.decodeRemLen maxNoOfRemainingLengthBytes 1 0 s with
    | (.error rc, s) => some ⟨rc, packetType, buf, s⟩
    | (.ok remLen, s) =>
      if remLen ≥ size then
        (net.discard remLen size rounds 0 size buf s).map fun (buf, s) =>
          ⟨.errBufTooShort, packetType, buf, s⟩
      else
        -- 3. read payload according to remaining length
        let encoded := mqttWritePacketRemLen (UInt32.ofNat remLen)
        some (net.readPayload size (1 + encoded.length) remLen packetType
          (buf.place 1 encoded.length encoded) s)

end Network

/-! ## Over the network stack of the client -/

/-- The results of successive reads, as a network. -/
def resultsNetwork : Network NetReads := ⟨fun reads n => netRead n reads⟩

theorem Mem.store_nil (m : Mem) (p : Nat) : m.store p [] = m := by
  funext i
  simp [Mem.store]

theorem resultsNetwork_read (reads : NetReads) (n : Nat) :
    resultsNetwork.read reads n = netRead n reads := rfl

theorem decodeRemLen_eq : ∀ (left m v : Nat) (reads : NetReads),
    resultsNetwork.decodeRemLen left m v reads = decodeRemLenNet left m v reads := by
  intro left
  induction left with
  | zero => intro m v reads; rfl
  | succ left ih =>
    intro m v reads
    simp only [Network.decodeRemLen, decodeRemLenNet, resultsNetwork_read, ih]

theorem discard_eq (remLen size : Nat) : ∀ {rounds : Nat} {reads : NetReads} (total toRead : Nat)
    (buf : ReadBuf), reads.length < rounds →
      (resultsNetwork.discard remLen size rounds total toRead buf reads).map
        (fun r => (r.1.mem, r.2)) = some (discardLoop remLen size total toRead reads buf.mem)
  | rounds + 1, [], total, toRead, buf, _ => by
    simp [Network.discard, resultsNetwork_read, netRead, discardLoop, ReadBuf.place, Mem.store_nil]
  | rounds + 1, (rc, bytes) :: reads, total, toRead, buf, h => by
    unfold Network.discard discardLoop
    dsimp only [resultsNetwork, netRead]
    split_ifs
    · rfl
    · exact discard_eq remLen size _ _ (buf.place 0 toRead (bytes.take toRead)) (by simpa using h)
    · exact discard_eq remLen size _ _ (buf.place 0 toRead (bytes.take toRead)) (by simpa using h)
    · rfl

theorem netRead_length (n : Nat) (reads : NetReads) : (netRead n reads).2.2.length ≤ reads.length := by
  cases reads <;> simp [netRead]

theorem decodeRemLenNet_length : ∀ (left m v : Nat) (reads : NetReads),
    (decodeRemLenNet left m v reads).2.length ≤ reads.length := by
  intro left
  induction left with
  | zero => intro m v reads; exact Nat.le_refl _
  | succ left ih =>
    intro m v reads
    have hread := netRead_length 1 reads
    simp only [decodeRemLenNet]
    split_ifs
    · exact hread
    · exact (ih _ _ _).trans hread
    · exact hread

/-- A packet read, without the record of the areas. -/
def PacketRead.plain {σ : Type} (r : PacketRead σ) : ReturnCode × UInt8 × Mem × σ :=
  (r.rc, r.packetType, r.buf.mem, r.net)

theorem readPayload_eq (c : Client) (packetType : UInt8) (len remLen : Nat) (areas : List (Nat × Nat))
    (reads : NetReads) :
    (resultsNetwork.readPayload c.readBufSize len remLen packetType ⟨c.readBuf, areas⟩ reads).plain =
      ((readPayload c packetType len remLen reads).rc,
        (readPayload c packetType len remLen reads).packetType,
        (readPayload c packetType len remLen reads).client.readBuf,
        (readPayload c packetType len remLen reads).reads) := by
  unfold Network.readPayload readPayload
  dsimp only [resultsNetwork]
  split_ifs with hbig hpos hrc hrc
  · rfl
  · rfl
  · rfl
  · exact absurd rfl hrc
  · simp [PacketRead.plain, Client.fill, Mem.store_nil]

/-- **Over these results the function is the one of the client.** -/
theorem readMqttPacket_eq (c : Client) (packetType : UInt8) {reads : NetReads} {rounds : Nat}
    (h : reads.length < rounds) :
    (resultsNetwork.readMqttPacket rounds c.readBufSize packetType c.readBuf reads).map
        PacketRead.plain =
      some ((readMqttPacket c packetType reads).rc, (readMqttPacket c packetType reads).packetType,
        (readMqttPacket c packetType reads).client.readBuf,
        (readMqttPacket c packetType reads).reads) := by
  have hfirst := netRead_length 1 reads
  have hdec := decodeRemLenNet_length maxNoOfRemainingLengthBytes 1 0 (netRead 1 reads).2.2
  unfold Network.readMqttPacket readMqttPacket
  simp only [resultsNetwork_read, decodeRemLen_eq]
  generalize decodeRemLenNet maxNoOfRemainingLengthBytes 1 0 (netRead 1 reads).2.2 = d at hdec
  obtain ⟨rc | remLen, reads'⟩ := d
  · split_ifs <;> rfl
  · simp only at hdec
    have hfill : (c.fill 0 (netRead 1 reads).2.1).readBufSize = c.readBufSize := rfl
    simp only [hfill]
    split_ifs with hnone herr hbig
    · rfl
    · rfl
    · have heq := discard_eq remLen c.readBufSize 0 c.readBufSize
        ((ReadBuf.mk c.readBuf []).place 0 1 (netRead 1 reads).2.1)
        (by omega : reads'.length < rounds)
      rw [Option.map_map]
      obtain ⟨⟨buf, s⟩, hr, hplain⟩ := Option.map_eq_some_iff.mp heq
      rw [hr]
      have hloop : (buf.mem, s) = discardLoop remLen c.readBufSize 0 c.readBufSize reads'
          (c.fill 0 (netRead 1 reads).2.1).readBuf := hplain
      rw [← hloop]
      rfl
    · exact congrArg some (readPayload_eq
        ((c.fill 0 (netRead 1 reads).2.1).fill 1 (mqttWritePacketRemLen (UInt32.ofNat remLen)))
        packetType _ remLen _ reads')

/-! ## Over a stream -/

/-- The reads of the network are those of a stream, `pending` what is still to come: a read
succeeds iff so many bytes are still to come, and then takes exactly these. -/
structure Network.Streams {σ : Type} (net : Network σ) (pending : σ → Bytes) : Prop where
  success_iff : ∀ s n, (net.read s n).1 = .retSuccess ↔ n ≤ (pending s).length
  success : ∀ s n, (net.read s n).1 = .retSuccess →
    (net.read s n).2.1 = (pending s).take n ∧ pending (net.read s n).2.2 = (pending s).drop n
  failure : ∀ s n, (net.read s n).1 ≠ .retSuccess →
    (net.read s n).2.1.length ≤ n ∧ pending (net.read s n).2.2 = []

/-- `HAL_TCP_Read` of `n` bytes where the bytes `s` arrive in time and then no more. -/
def halTcpRead (s : Bytes) (n : Nat) : ReturnCode × Bytes × Bytes :=
  if n ≤ s.length then (.retSuccess, s.take n, s.drop n)
  else if s = [] then (.errTcpNothingToRead, [], [])
  else (.errTcpReadTimeout, s, [])

/-- A stream of bytes as a network. -/
def streamNetwork : Network Bytes := ⟨halTcpRead⟩

theorem streamNetwork_streams : streamNetwork.Streams id where
  success_iff s n := by
    simp only [streamNetwork, halTcpRead, id]
    split_ifs with hle hnil
    · simp [hle]
    · subst hnil
      simpa using hle
    · simp [hle]
  success s n := by
    simp only [streamNetwork, halTcpRead, id]
    split_ifs <;> simp
  failure s n := by
    simp only [streamNetwork, halTcpRead, id]
    split_ifs
    · simp
    · simp
    · exact fun _ => ⟨by dsimp only; omega, rfl⟩

/-- Everything the call has touched lies inside a buffer of `size` bytes. -/
def ReadBuf.Inside (size : Nat) (buf : ReadBuf) : Prop := ∀ a ∈ buf.areas, a.1 + a.2 ≤ size

theorem ReadBuf.Inside.nil (size : Nat) (mem : Mem) : (ReadBuf.mk mem []).Inside size :=
  fun _ h => absurd h (by simp)

theorem ReadBuf.Inside.place {size p n : Nat} {buf : ReadBuf} (h : buf.Inside size)
    (hp : p + n ≤ size) (bytes : Bytes) : (buf.place p n bytes).Inside size := by
  intro a ha
  simp only [ReadBuf.place, List.mem_append, List.mem_singleton] at ha
  rcases ha with ha | rfl
  · exact h a ha
  · exact hp

section Stream

variable {σ : Type} {net : Network σ} {pending : σ → Bytes} (hnet : net.Streams pending)
include hnet

/-- A read takes the next bytes off the stream. -/
theorem stream_read {s : σ} {n : Nat} {bytes rest : Bytes} (hs : pending s = bytes ++ rest)
    (hn : bytes.length = n) :
    ∃ s', net.read s n = (.retSuccess, bytes, s') ∧ pending s' = rest := by
  subst hn
  have hok : (net.read s bytes.length).1 = .retSuccess := by
    rw [hnet.success_iff, hs, List.length_append]
    omega
  obtain ⟨hbytes, hrest⟩ := hnet.success s _ hok
  rw [hs, List.take_left] at hbytes
  rw [hs, List.drop_left] at hrest
  exact ⟨_, Prod.ext hok (Prod.ext hbytes rfl), hrest⟩

omit hnet in
/-- One byte of a remaining length. -/
theorem decodeRemLen_byte {s s' : σ} {b : UInt8} (h : net.read s 1 = (.retSuccess, [b], s'))
    {left m v : Nat} :
    net.decodeRemLen (left + 1) m v s =
      if 128 ≤ b.toNat then net.decodeRemLen left (m * 128) (v + b.toNat % 128 * m) s'
      else (.ok (v + b.toNat % 128 * m), s') := by
  have hstep : net.decodeRemLen (left + 1) m v s =
      if b &&& (128 : UInt8) ≠ 0 then
        net.decodeRemLen left (m * 128) (v + (b &&& (127 : UInt8)).toNat * m) s'
      else (.ok (v + (b &&& (127 : UInt8)).toNat * m), s') := by
    rw [Network.decodeRemLen, h]
    rfl
  rw [hstep, and_127_eq]
  by_cases hb : 128 ≤ b.toNat
  · rw [if_pos ((and_128_ne_zero b).mpr hb), if_pos hb]
  · rw [if_neg (mt (and_128_ne_zero b).mp hb), if_neg hb]

/-- The remaining length is read off the stream, and nothing more. -/
theorem decodeRemLen_stream {bs : Bytes} {n : Nat} (h : Varint bs n) {rest : Bytes} :
    ∀ {left m v : Nat} {s : σ}, pending s = bs ++ rest → bs.length ≤ left →
      ∃ s', net.decodeRemLen left m v s = (.ok (v + n * m), s') ∧ pending s' = rest := by
  induction h with
  | @last b n hb hn =>
    intro left m v s hs hleft
    obtain ⟨left, rfl⟩ : ∃ k, left = k + 1 := ⟨left - 1, by simp at hleft; omega⟩
    obtain ⟨s', hread, hs'⟩ := stream_read hnet hs rfl
    refine ⟨s', ?_, hs'⟩
    rw [decodeRemLen_byte hread, if_neg (by omega), Nat.mod_eq_of_lt hb, ← hn]
  | @more b bs k n hb h hk hn ih =>
    intro left m v s hs hleft
    obtain ⟨left, rfl⟩ : ∃ k, left = k + 1 := ⟨left - 1, by simp at hleft; omega⟩
    have hlt := b.toNat_lt
    have hdigit : b.toNat % 128 = b.toNat - 128 := by omega
    obtain ⟨s', hread, hs'⟩ := stream_read hnet (show pending s = [b] ++ (bs ++ rest) from hs) rfl
    obtain ⟨s'', hdec, hs''⟩ := @ih left (m * 128) (v + (b.toNat - 128) * m) s' hs'
      (by simpa using hleft)
    refine ⟨s'', ?_, hs''⟩
    rw [decodeRemLen_byte hread, if_pos hb, hdigit, hdec, hn]
    simp only [Prod.mk.injEq, Except.ok.injEq, and_true]
    ring

/-- An oversized packet is read away, exactly, in pieces that fit the buffer. -/
theorem discard_stream {remLen size : Nat} (hsize : 0 < size) {rest : Bytes} :
    ∀ {rounds total : Nat} {body : Bytes} {buf : ReadBuf} {s : σ}, pending s = body ++ rest →
      0 < body.length → total + body.length = remLen → body.length ≤ rounds → buf.Inside size →
      ∃ buf' s', net.discard remLen size rounds total (min size body.length) buf s =
        some (buf', s') ∧ pending s' = rest ∧ buf'.Inside size := by
  intro rounds
  induction rounds with
  | zero =>
    intro total body buf s hs hpos htotal hrounds hin
    exact absurd hrounds (by omega)
  | succ rounds ih =>
    intro total body buf s hs hpos htotal hrounds hin
    obtain ⟨piece, body', rfl, hpiece⟩ : ∃ piece body', body = piece ++ body' ∧
        piece.length = min size body.length :=
      ⟨body.take (min size body.length), body.drop (min size body.length),
        (List.take_append_drop _ _).symm, by simp⟩
    have hlen : (piece ++ body').length = piece.length + body'.length := List.length_append
    have hplace := hin.place (p := 0) (n := min size (piece ++ body').length) (by omega) piece
    rw [List.append_assoc] at hs
    obtain ⟨s', hread, hs'⟩ := stream_read hnet hs hpiece
    unfold Network.discard
    rw [hread]
    dsimp only
    rw [if_neg (by simp)]
    by_cases hmore : total + piece.length < remLen
    · rw [if_pos hmore]
      have hnext : (if remLen - (total + piece.length) ≥ size then size
          else remLen - (total + piece.length)) = min size body'.length := by
        split <;> omega
      rw [hnext]
      exact ih hs' (by omega) (by omega) (by omega) hplace
    · rw [if_neg hmore]
      obtain rfl : body' = [] := List.length_eq_zero_iff.mp (by omega)
      exact ⟨_, s', rfl, hs', hplace⟩

end Stream

/-! ## One packet -/

/-- A well-formed packet: a header byte, its remaining length in the shortest encoding, and so many
bytes. -/
structure MqttPacket where
  header : UInt8
  remLen : Bytes
  body : Bytes
  encoded : Varint remLen body.length
  bounded : body.length < 2 ^ 28

/-- The bytes of the packet. -/
def MqttPacket.bytes (p : MqttPacket) : Bytes := p.header :: p.remLen ++ p.body

/-- Packets one after the other. -/
def stream (ps : List MqttPacket) : Bytes := ps.flatMap MqttPacket.bytes

theorem MqttPacket.length_bytes (p : MqttPacket) :
    p.bytes.length = 1 + p.remLen.length + p.body.length := by
  simp only [MqttPacket.bytes, List.length_cons, List.length_append, List.cons_append]
  omega

/-- What a call has to leave that meets the packet `p` with `rest` behind it: the packet in
`read_buf` if it fits, the error if it does not, and in either case the stream behind the packet. -/
structure ReadOf {σ : Type} (pending : σ → Bytes) (size : Nat) (p : MqttPacket) (rest : Bytes)
    (r : PacketRead σ) : Prop where
  returned : p.bytes.length ≤ size → r.rc = .retSuccess ∧ r.packetType = headerType p.header ∧
    r.buf.mem.load 0 p.bytes.length = p.bytes
  tooShort : size < p.bytes.length → r.rc = .errBufTooShort
  boundary : pending r.net = rest
  inside : r.buf.Inside size

/-- What stands before a store is still there. -/
theorem Mem.load_store_before (m : Mem) {p n q : Nat} (h : p + n ≤ q) (bs : Bytes) :
    (m.store q bs).load p n = m.load p n := by
  refine List.map_congr_left fun i hi => ?_
  rw [List.mem_range] at hi
  rw [Mem.store, if_neg (by omega)]

/-- Two stores in a row. -/
theorem Mem.load_store_append {m : Mem} {n : Nat} {bs : Bytes} (h : m.load 0 n = bs)
    (bs' : Bytes) : (m.store n bs').load 0 (n + bs'.length) = bs ++ bs' := by
  rw [Mem.load_add, Mem.load_store_before _ (by omega), h, Nat.zero_add, Mem.load_store]

section OnePacket

variable {σ : Type} {net : Network σ} {pending : σ → Bytes} (hnet : net.Streams pending)
include hnet

/-- The payload, with the header and the length already in the buffer. -/
theorem readPayload_stream {size : Nat} {p : MqttPacket} {rest : Bytes} {s : σ} {buf : ReadBuf}
    (hs : pending s = p.body ++ rest) (hsmall : p.body.length < size)
    (hhead : 1 + p.remLen.length ≤ size) (hin : buf.Inside size)
    (hmem : buf.mem.load 0 (1 + p.remLen.length) = p.header :: p.remLen) (packetType : UInt8) :
    ReadOf pending size p rest
      (net.readPayload size (1 + p.remLen.length) p.body.length packetType buf s) := by
  have hlen := p.length_bytes
  obtain ⟨s', hread, hs'⟩ := stream_read hnet hs rfl
  have hload : (buf.mem.store (1 + p.remLen.length) p.body).load 0 p.bytes.length = p.bytes := by
    rw [hlen]
    exact Mem.load_store_append hmem p.body
  have hheader : ∀ {m : Mem}, m.load 0 p.bytes.length = p.bytes → m 0 = p.header := by
    intro m hm
    rw [hlen, Nat.add_assoc, Nat.add_comm 1, Mem.load_succ] at hm
    exact (List.cons.inj hm).1
  unfold Network.readPayload
  rw [hread]
  dsimp only
  split_ifs with hbig hpos hrc
  · exact ⟨fun h => by omega, fun _ => rfl, hs', hin.place (by omega) _⟩
  · exact absurd rfl hrc
  · exact ⟨fun _ => ⟨rfl, congrArg headerType (hheader hload), hload⟩, fun h => by omega, hs',
      hin.place (by omega) _⟩
  · have hnil : p.body = [] := List.length_eq_zero_iff.mp (by omega)
    rw [hnil, List.nil_append] at hs
    rw [hnil, Mem.store_nil] at hload
    exact ⟨fun _ => ⟨rfl, congrArg headerType (hheader hload), hload⟩, fun h => by omega, hs, hin⟩

/-- **One call at the start of a packet.** -/
theorem read_packet {size rounds : Nat} (hsize : 5 ≤ size) {p : MqttPacket} {rest : Bytes} {s : σ}
    (hs : pending s = p.bytes ++ rest) (hrounds : p.body.length ≤ rounds) (packetType : UInt8)
    (mem : Mem) : ∃ r, net.readMqttPacket rounds size packetType mem s = some r ∧
      ReadOf pending size p rest r := by
  have hlen := p.length_bytes
  have hcode := remLen_length p.encoded p.bounded
  have hhead : 1 + p.remLen.length ≤ size := by
    simp only [maxNoOfRemainingLengthBytes] at hcode
    omega
  have hin : ((ReadBuf.mk mem []).place 0 1 [p.header]).Inside size :=
    (ReadBuf.Inside.nil size mem).place (by omega) _
  obtain ⟨s₁, hfirst, hs₁⟩ := stream_read hnet (n := 1)
    (show pending s = [p.header] ++ (p.remLen ++ (p.body ++ rest)) by
      simpa [MqttPacket.bytes] using hs) rfl
  obtain ⟨s₂, hdec, hs₂⟩ := decodeRemLen_stream hnet p.encoded (m := 1) (v := 0) hs₁ hcode.2
  rw [Nat.zero_add, Nat.mul_one] at hdec
  unfold Network.readMqttPacket
  rw [hfirst]
  dsimp only
  rw [hdec, if_neg (by simp), if_neg (by simp)]
  dsimp only
  by_cases hbig : p.body.length ≥ size
  · obtain ⟨buf, s₃, hdisc, hs₃, hin₃⟩ := discard_stream hnet (by omega) hs₂ (by omega)
      (Nat.zero_add _) hrounds hin
    rw [Nat.min_eq_left hbig] at hdisc
    rw [if_pos hbig, hdisc]
    exact ⟨_, rfl, fun h => by omega, fun _ => rfl, hs₃, hin₃⟩
  · have hwritten := varint_eq_written p.encoded (p.bounded.trans (by norm_num))
    rw [if_neg hbig, ← hwritten]
    refine ⟨_, rfl, readPayload_stream hnet hs₂ (by omega) hhead (hin.place hhead _) ?_ packetType⟩
    exact Mem.load_store_append (Mem.load_store mem 0 [p.header]) p.remLen

end OnePacket

/-! ## Successive calls -/

/-- Successive calls, as many as `types` has values: those `*packet_type` has at their starts. -/
def Network.readCalls {σ : Type} (net : Network σ) (rounds size : Nat) :
    List UInt8 → Mem → σ → Option (List (PacketRead σ))
  | [], _, _ => some []
  | packetType :: types, mem, s => do
    let r ← net.readMqttPacket rounds size packetType mem s
    let rs ← net.readCalls rounds size types r.buf.mem r.net
    return r :: rs

/-- The calls cut the stream into these packets: each takes the next one, and after the last there
is nothing to take. -/
inductive Framed {σ : Type} (pending : σ → Bytes) (size : Nat) :
    List MqttPacket → List (PacketRead σ) → Prop where
  | stop (ps : List MqttPacket) : Framed pending size ps []
  | packet {p : MqttPacket} {ps : List MqttPacket} {r : PacketRead σ} {rs : List (PacketRead σ)}
      (hr : ReadOf pending size p (stream ps) r) (hrs : Framed pending size ps rs) :
      Framed pending size (p :: ps) (r :: rs)
  | drained {r : PacketRead σ} {rs : List (PacketRead σ)} (hrc : r.rc ≠ .retSuccess)
      (hnet : pending r.net = []) (hin : r.buf.Inside size) (hrs : Framed pending size [] rs) :
      Framed pending size [] (r :: rs)

section Calls

variable {σ : Type} {net : Network σ} {pending : σ → Bytes} (hnet : net.Streams pending)
include hnet

/-- One call at the end of the stream. -/
theorem read_drained {size : Nat} (hsize : 0 < size) (rounds : Nat) {s : σ} (hs : pending s = [])
    (packetType : UInt8) (mem : Mem) :
    ∃ r, net.readMqttPacket rounds size packetType mem s = some r ∧ r.rc ≠ .retSuccess ∧
      pending r.net = [] ∧ r.buf.Inside size := by
  have hfail : (net.read s 1).1 ≠ .retSuccess := by
    rw [Ne, hnet.success_iff, hs]
    simp
  have hempty := (hnet.failure s 1 hfail).2
  have hin : ((ReadBuf.mk mem []).place 0 1 (net.read s 1).2.1).Inside size :=
    (ReadBuf.Inside.nil size mem).place (by omega) _
  unfold Network.readMqttPacket
  generalize net.read s 1 = first at hfail hempty hin
  obtain ⟨rc, bytes, s'⟩ := first
  dsimp only at hfail hempty hin ⊢
  by_cases hnone : rc = .errSslNothingToRead ∨ rc = .errTcpNothingToRead
  · rw [if_pos hnone]
    exact ⟨_, rfl, by simp, hempty, hin⟩
  · rw [if_neg hnone, if_pos hfail]
    exact ⟨_, rfl, hfail, hempty, hin⟩

/-- **The calls cut a stream of packets into the packets**, whatever the size of `read_buf`. -/
theorem framing {size rounds : Nat} (hsize : 5 ≤ size) : ∀ {ps : List MqttPacket}
    (types : List UInt8) {s : σ} (mem : Mem), pending s = stream ps →
      (stream ps).length ≤ rounds →
      ∃ rs, net.readCalls rounds size types mem s = some rs ∧ rs.length = types.length ∧
        Framed pending size ps rs
  | ps, [], _, _, _, _ => ⟨[], rfl, rfl, .stop ps⟩
  | [], packetType :: types, s, mem, hs, hrounds => by
    have hpos : 0 < size := by omega
    obtain ⟨r, hr, hrc, hend, hin⟩ := read_drained hnet hpos rounds hs packetType mem
    obtain ⟨rs, hrs, hlen, hframed⟩ := framing hsize types r.buf.mem hend hrounds
    refine ⟨r :: rs, ?_, congrArg (· + 1) hlen, .drained hrc hend hin hframed⟩
    simp [Network.readCalls, hr, hrs]
  | p :: ps, packetType :: types, s, mem, hs, hrounds => by
    have hcons : stream (p :: ps) = p.bytes ++ stream ps := List.flatMap_cons
    have hlen := p.length_bytes
    rw [hcons, List.length_append] at hrounds
    have hbody : p.body.length ≤ rounds := by omega
    have hrest : (stream ps).length ≤ rounds := by omega
    obtain ⟨r, hr, hread⟩ := read_packet hnet hsize (hs.trans hcons) hbody packetType mem
    obtain ⟨rs, hrs, hlen, hframed⟩ := framing hsize types r.buf.mem hread.boundary hrest
    refine ⟨r :: rs, ?_, congrArg (· + 1) hlen, .packet hread hframed⟩
    simp [Network.readCalls, hr, hrs]

end Calls

/-- An acknowledgement and a publish of ten bytes, read into a buffer of eight. -/
theorem framing_ack_publish :
    let ps : List MqttPacket :=
      [⟨64, [2], [0, 1], .last (by decide) rfl, by decide⟩,
        ⟨48, [8], [0, 2, 97, 98, 1, 2, 3, 4], .last (by decide) rfl, by decide⟩]
    ∃ rs, streamNetwork.readCalls 14 8 [0, 0, 0] (Mem.ofBytes []) (stream ps) = some rs ∧
      rs.length = 3 ∧ Framed id 8 ps rs :=
  framing streamNetwork_streams (by decide) [0, 0, 0] (Mem.ofBytes []) rfl (by decide)

end QcloudIot.Mqtt
