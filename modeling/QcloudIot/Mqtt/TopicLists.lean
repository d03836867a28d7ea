import Mathlib.Algebra.Order.BigOperators.Group.List
import Mathlib.Data.List.GetD
import QcloudIot.Mqtt.RoundTrip

/-!
# Packets with several topic filters

`_serialize_subscribe_packet` and `_serialize_unsubscribe_packet` take an array of strings, and
read the `i`-th one at `*topicFilters + i`: in the first string, `i` characters behind its start
(`CStrings.filterAt`). Where that stays inside the first string, they are the functions of
`Packets.lean` (`serializeSubscribePacket_eq`).

* `readEntries_written`, `readTopicPacket_written`: what is written is read back, with a remaining
  length that counts the bytes behind it;
* **`topicPackets_read_iff`**: it is the list of the filters iff each of them stands where the
  functions read it.
-/

namespace QcloudIot.Mqtt

open Lib

/-! ## Strings in memory -/

/-- Memory as C strings: what stands at an address up to the terminating NUL. No string is longer
than the two bytes of its length can say. -/
structure CStrings where
  read : Nat → Bytes
  next : ∀ {p : Nat} {c : UInt8} {s : Bytes}, read p = c :: s → read (p + 1) = s
  length_lt : ∀ p, (read p).length < 65536

/-- A string from its `i`-th character on. -/
theorem CStrings.read_add (m : CStrings) {p : Nat} : ∀ {i : Nat}, i ≤ (m.read p).length →
    m.read (p + i) = (m.read p).drop i := by
  intro i
  induction i with
  | zero => intro h; rw [Nat.add_zero, List.drop_zero]
  | succ i ih =>
    intro h
    have hi := ih (by omega)
    rw [List.drop_eq_getElem_cons (by omega)] at hi
    rw [← Nat.add_assoc, m.next hi]

/-- The strings in these bytes. -/
def CStrings.ofBytes (bs : Bytes) (h : bs.length < 65536) : CStrings where
  read p := (bs.drop p).takeWhile (· ≠ 0)
  next {p c s} hs := by
    have hlt : p < bs.length := by
      by_contra hle
      rw [List.drop_eq_nil_of_le (by omega)] at hs
      exact absurd hs (by simp)
    rw [List.drop_eq_getElem_cons hlt, List.takeWhile_cons] at hs
    split at hs
    · exact (List.cons.inj hs).2
    · exact absurd hs (by simp)
  length_lt p := by
    have htake := (List.takeWhile_prefix (· ≠ (0 : UInt8)) (l := bs.drop p)).length_le
    rw [List.length_drop] at htake
    omega

/-! ## Writing -/

/-- The length of a packet id and `count` strings with `extra` bytes behind each. -/
def filtersRemLen (extra strings : Nat → Bytes) (count : Nat) : Nat :=
  2 + ((List.range count).map fun i => 2 + (strings i).length + (extra i).length).sum

/-- A packet id and `count` strings with `extra` bytes behind each, behind a fixed header with
their length. -/
def serializeFilters (type : MessageTypes) (extra strings : Nat → Bytes) (bufLen : Nat)
    (dup : UInt8) (packetId : UInt16) (count : Nat) : Except ReturnCode Bytes :=
  let remLen := UInt32.ofNat (filtersRemLen extra strings count)
  if getMqttPacketLen remLen.toNat > bufLen then .error .errBufTooShort
  else
    match mqttInitPacketHeader type .qos1 dup 0 with
    | .error rc => .error rc
    | .ok header =>
      .ok (header :: mqttWritePacketRemLen remLen ++ mqttWriteUint16 packetId ++
        (List.range count).flatMap fun i => mqttWriteUtf8String (strings i) ++ extra i)

/-- What stands behind the `i`-th filter of a SUBSCRIBE. -/
def qosByte (requestedQoSs : Nat → QoS) (i : Nat) : Bytes := [UInt8.ofNat (requestedQoSs i).toNat]

namespace CStrings

variable (m : CStrings) (bufLen : Nat) (dup : UInt8) (packetId : UInt16) (count : Nat)
  (topicFilters : Nat → Nat)

/-- What stands at `*topicFilters + i`. -/
def filterAt (i : Nat) : Bytes := m.read (topicFilters 0 + i)

/-- `_serialize_subscribe_packet`. -/
def serializeSubscribePacket (requestedQoSs : Nat → QoS) : Except ReturnCode Bytes :=
  serializeFilters .subscribe (qosByte requestedQoSs) (m.filterAt topicFilters) bufLen dup packetId
    count

/-- `_serialize_unsubscribe_packet`. -/
def serializeUnsubscribePacket : Except ReturnCode Bytes :=
  serializeFilters .unsubscribe (fun _ => []) (m.filterAt topicFilters) bufLen dup packetId count

end CStrings

/-- Inside the first string this is the writer of `Packets.lean`. -/
theorem serializeSubscribePacket_eq {m : CStrings} {count : Nat} {topicFilters : Nat → Nat}
    {filters : List Bytes} (hfirst : filters.headD [] = m.read (topicFilters 0))
    (hcount : count ≤ (m.read (topicFilters 0)).length + 1) (bufLen : Nat) (dup : UInt8)
    (packetId : UInt16) (requestedQoSs : List QoS) :
    serializeSubscribePacket bufLen dup packetId count filters requestedQoSs =
      m.serializeSubscribePacket bufLen dup packetId count topicFilters
        (fun i => requestedQoSs.getD i .qos0) := by
  have hat : ∀ i ∈ List.range count, QcloudIot.Mqtt.filterAt filters i = m.filterAt topicFilters i := by
    intro i hi
    have hlt := List.mem_range.mp hi
    unfold QcloudIot.Mqtt.filterAt CStrings.filterAt
    rw [hfirst, m.read_add (by omega)]
  have hlen : getSubscribePacketRemLen count filters = UInt32.ofNat
      (filtersRemLen (qosByte fun i => requestedQoSs.getD i .qos0) (m.filterAt topicFilters) count) := by
    unfold getSubscribePacketRemLen filtersRemLen
    rw [List.map_congr_left fun i hi => by rw [hat i hi]]
    rfl
  have hpayload : ((List.range count).flatMap fun i =>
      mqttWriteUtf8String (QcloudIot.Mqtt.filterAt filters i) ++
        [UInt8.ofNat (requestedQoSs.getD i .qos0).toNat]) =
      (List.range count).flatMap fun i =>
        mqttWriteUtf8String (m.filterAt topicFilters i) ++
          qosByte (fun i => requestedQoSs.getD i .qos0) i := by
    refine List.flatMap_congr fun i hi => ?_
    rw [hat i hi]
    rfl
  unfold serializeSubscribePacket CStrings.serializeSubscribePacket serializeFilters
  cases mqttInitPacketHeader .subscribe .qos1 dup 0 with
  | error rc => simp only [hlen]
  | ok header => simp only [hlen, hpayload]

/-! ## Reading -/

/-- The entries of a payload: strings with `extra` bytes behind each. -/
def readEntries (extra : Nat) : Bytes → Option (List (Bytes × Bytes))
  | [] => some []
  | [_] => none
  | hi :: lo :: rest =>
    let n := 256 * hi.toNat + lo.toNat
    if n + extra ≤ rest.length then
      (readEntries extra (rest.drop (n + extra))).map
        ((rest.take n, (rest.drop n).take extra) :: ·)
    else none
termination_by bs => bs.length
decreasing_by
  rw [List.length_drop, List.length_cons, List.length_cons]
  omega

/-- The packet id and the entries of a packet whose remaining length is the number of bytes behind
it. -/
def readTopicPacket (extra : Nat) (packet : Bytes) : Option (UInt16 × List (Bytes × Bytes)) :=
  match mqttReadPacketRemLenFormBuf (Mem.ofBytes packet) 1 with
  | .error _ => none
  | .ok (remLen, readBytesLen) =>
    let rest := packet.drop (1 + readBytesLen)
    if rest.length = remLen ∧ 2 ≤ remLen then
      (readEntries extra (rest.drop 2)).map fun entries =>
        (mqttReadUint16 (Mem.ofBytes rest) 0, entries)
    else none

/-- Entries as they are written. -/
def writeEntries (entries : List (Bytes × Bytes)) : Bytes :=
  entries.flatMap fun e => mqttWriteUtf8String e.1 ++ e.2

variable {extra : Nat} {entries : List (Bytes × Bytes)}

theorem readEntries_written (h : ∀ e ∈ entries, e.1.length < 65536 ∧ e.2.length = extra) :
    readEntries extra (writeEntries entries) = some entries := by
  induction entries with
  | nil => 
    unfold writeEntries
    rw [List.flatMap_nil, readEntries]
  | cons e entries ih =>
    obtain ⟨⟨hlt, hextra⟩, htail⟩ := List.forall_mem_cons.mp h
    obtain ⟨s, x⟩ := e
    dsimp only at hlt hextra
    have hsplit : writeEntries ((s, x) :: entries) =
        (UInt16.ofNat s.length / 256).toUInt8 :: (UInt16.ofNat s.length % 256).toUInt8 ::
          (s ++ (x ++ writeEntries entries)) := by
      simp [writeEntries, mqttWriteUtf8String, mqttWriteUint16]
    have hlen : 256 * (UInt16.ofNat s.length / 256).toUInt8.toNat +
        (UInt16.ofNat s.length % 256).toUInt8.toNat = s.length := by
      simp
      omega
    rw [hsplit, readEntries, hlen, if_pos (by simp [hextra]), List.take_left, List.drop_left, ← hextra, List.take_left,
      ← List.drop_drop, List.drop_left, List.drop_left, hextra, ih htail]
    rfl

/-- The bytes of a list in the middle. -/
theorem Mem.load_ofBytes (as bs cs : Bytes) :
    (Mem.ofBytes (as ++ (bs ++ cs))).load as.length bs.length = bs := by
  apply List.ext_getElem
  · simp [Mem.load]
  · intro i h1 h2
    have hget : (as ++ (bs ++ cs))[as.length + i]? = some bs[i] := by
      rw [List.getElem?_append_right (by omega), Nat.add_sub_cancel_left,
        List.getElem?_append_left h2, List.getElem?_eq_getElem h2]
    simp [Mem.load, Mem.ofBytes, hget]

/-- A remaining length of more than four bytes is refused. -/
theorem readRemLen_long (header : UInt8) {bs : Bytes} (rest : Bytes) {n : Nat} (h : Varint bs n)
    (hn : 2 ^ 28 ≤ n) :
    ∃ rc, mqttReadPacketRemLenFormBuf (Mem.ofBytes (header :: (bs ++ rest))) 1 = .error rc := by
  rw [readRemLen_error_iff]
  intro i hi
  have hpow : 128 ^ (i + 1) ≤ 128 ^ 4 := Nat.pow_le_pow_right (by decide) hi
  have hbyte := h.continues (hpow.trans (by omega))
  have hlt : i < bs.length := by
    by_contra hle
    rw [List.getD_eq_default _ _ (by omega)] at hbyte
    exact absurd hbyte (by decide)
  have hget : Mem.ofBytes (header :: (bs ++ rest)) (1 + i) = bs.getD i 0 := by
    unfold Mem.ofBytes
    rw [Nat.add_comm, List.getD_cons_succ, List.getD_append _ _ _ _ hlt]
  rwa [hget]

/-- **What is written is read back**, as long as its length can be said in four bytes. -/
theorem readTopicPacket_written (header : UInt8) (packetId : UInt16) {remLen : Nat}
    (hentries : ∀ e ∈ entries, e.1.length < 65536 ∧ e.2.length = extra)
    (hlen : remLen = 2 + (writeEntries entries).length) :
    readTopicPacket extra (header :: mqttWritePacketRemLen (UInt32.ofNat remLen) ++
        mqttWriteUint16 packetId ++ writeEntries entries) =
      if remLen < 2 ^ 28 then some (packetId, entries) else none := by
  have hvarint := mqttWritePacketRemLen_varint (UInt32.ofNat remLen)
  have hmod : (UInt32.ofNat remLen).toNat = remLen % 2 ^ 32 := UInt32.toNat_ofNat'
  generalize mqttWritePacketRemLen (UInt32.ofNat remLen) = bs at hvarint
  rw [List.cons_append, List.cons_append, List.append_assoc]
  unfold readTopicPacket
  by_cases hbig : 2 ^ 28 ≤ (UInt32.ofNat remLen).toNat
  · obtain ⟨rc, hrc⟩ := readRemLen_long header (mqttWriteUint16 packetId ++ writeEntries entries)
      hvarint hbig
    rw [hrc, if_neg (by omega)]
  · have hload := Mem.load_ofBytes [header] bs (mqttWriteUint16 packetId ++ writeEntries entries)
    have hread := readRemLen_varint hvarint (Nat.not_le.mp hbig) hload
    rw [List.singleton_append, List.length_singleton] at hread
    rw [hread]
    have hdrop : (header :: (bs ++ (mqttWriteUint16 packetId ++ writeEntries entries))).drop
        (1 + bs.length) = mqttWriteUint16 packetId ++ writeEntries entries := by
      rw [Nat.add_comm, List.drop_succ_cons, List.drop_left]
    have hrest : (mqttWriteUint16 packetId ++ writeEntries entries).length = remLen := by
      rw [List.length_append, hlen]
      rfl
    dsimp only
    rw [hdrop, hrest]
    by_cases hlt : remLen < 2 ^ 28
    · have hid : mqttReadUint16 (Mem.ofBytes (mqttWriteUint16 packetId ++ writeEntries entries)) 0 =
          packetId := readUint16_written (Mem.load_ofBytes [] (mqttWriteUint16 packetId) _)
      have hpayload : (mqttWriteUint16 packetId ++ writeEntries entries).drop 2 =
          writeEntries entries := rfl
      rw [if_pos ⟨by omega, by omega⟩, if_pos hlt, hid, hpayload, readEntries_written hentries]
      rfl
    · rw [if_neg (by omega), if_neg hlt]

/-! ## The filters of the array -/

theorem getMqttPacketLen_mono {a b : Nat} (h : a ≤ b) : getMqttPacketLen a ≤ getMqttPacketLen b := by
  unfold getMqttPacketLen
  dsimp only
  split_ifs <;> omega

variable {type : MessageTypes} {extras strings : Nat → Bytes} {bufLen count : Nat}

/-- The strings with what stands behind them. -/
def entriesOf (extras strings : Nat → Bytes) (count : Nat) : List (Bytes × Bytes) :=
  (List.range count).map fun i => (strings i, extras i)

theorem filtersRemLen_eq : filtersRemLen extras strings count =
    2 + (writeEntries (entriesOf extras strings count)).length := by
  unfold filtersRemLen writeEntries entriesOf
  rw [List.length_flatMap, List.map_map]
  congr 3
  funext i
  simp [mqttWriteUtf8String, mqttWriteUint16]
  omega

/-- In a sufficient buffer the packet is written, and read back as the strings it was made of. -/
theorem serializeFilters_reads (htype : type ≠ .reserved) (dup : UInt8) (packetId : UInt16)
    (hfits : getMqttPacketLen (filtersRemLen extras strings count) ≤ bufLen)
    (hstrings : ∀ i, (strings i).length < 65536) (hextras : ∀ i, (extras i).length = extra) :
    ∃ packet, serializeFilters type extras strings bufLen dup packetId count = .ok packet ∧
      readTopicPacket extra packet =
        if filtersRemLen extras strings count < 2 ^ 28 then
          some (packetId, entriesOf extras strings count) else none := by
  have hmod : (UInt32.ofNat (filtersRemLen extras strings count)).toNat ≤
      filtersRemLen extras strings count := by
    rw [UInt32.toNat_ofNat']
    exact Nat.mod_le _ _
  obtain ⟨header, hheader⟩ := header_ok htype .qos1 dup 0
  have hwritten : ((List.range count).flatMap fun i => mqttWriteUtf8String (strings i) ++ extras i) =
      writeEntries (entriesOf extras strings count) := by
    unfold writeEntries entriesOf
    rw [List.flatMap_map]
  have hentries : ∀ e ∈ entriesOf extras strings count, e.1.length < 65536 ∧ e.2.length = extra := by
    intro e he
    obtain ⟨i, -, rfl⟩ := List.mem_map.mp he
    exact ⟨hstrings i, hextras i⟩
  unfold serializeFilters
  dsimp only
  rw [if_neg (Nat.not_lt.mpr ((getMqttPacketLen_mono hmod).trans hfits)), hheader, hwritten]
  exact ⟨_, rfl, readTopicPacket_written header packetId hentries filtersRemLen_eq⟩

/-- It is read as other strings iff they are the same. -/
theorem reads_entries_iff {packetId : UInt16} {filters : Nat → Bytes} {remLen : Nat}
    {read : Option (UInt16 × List (Bytes × Bytes))}
    (hread : read = if remLen < 2 ^ 28 then some (packetId, entriesOf extras strings count) else none) :
    read = some (packetId, entriesOf extras filters count) ↔
      remLen < 2 ^ 28 ∧ ∀ i < count, strings i = filters i := by
  rw [hread]
  split
  · rename_i hlt
    rw [and_iff_right hlt]
    simp [entriesOf]
  · rename_i hlt
    exact iff_of_false (by simp) fun h => hlt h.1

/-- **A SUBSCRIBE and an UNSUBSCRIBE that fit the buffer are read back with the filters of the
array** iff their remaining length can be said in four bytes and the `i`-th filter is the string
that stands `i` characters behind the start of the first one. -/
theorem topicPackets_read_iff (m : CStrings) (bufLen : Nat) (dup : UInt8) (packetId : UInt16)
    (count : Nat) (topicFilters : Nat → Nat) (requestedQoSs : Nat → QoS)
    (hfits : getMqttPacketLen
      (filtersRemLen (qosByte requestedQoSs) (m.filterAt topicFilters) count) ≤ bufLen) :
    (∃ packet,
      m.serializeSubscribePacket bufLen dup packetId count topicFilters requestedQoSs = .ok packet ∧
      (readTopicPacket 1 packet =
          some (packetId, entriesOf (qosByte requestedQoSs) (fun i => m.read (topicFilters i)) count) ↔
        filtersRemLen (qosByte requestedQoSs) (m.filterAt topicFilters) count < 2 ^ 28 ∧
          ∀ i < count, m.read (topicFilters 0 + i) = m.read (topicFilters i))) ∧
    ∃ packet,
      m.serializeUnsubscribePacket bufLen dup packetId count topicFilters = .ok packet ∧
      (readTopicPacket 0 packet =
          some (packetId, entriesOf (fun _ => []) (fun i => m.read (topicFilters i)) count) ↔
        filtersRemLen (fun _ => []) (m.filterAt topicFilters) count < 2 ^ 28 ∧
          ∀ i < count, m.read (topicFilters 0 + i) = m.read (topicFilters i)) := by
  have hstrings : ∀ i, (m.filterAt topicFilters i).length < 65536 := fun i => m.length_lt _
  have hless : filtersRemLen (fun _ => []) (m.filterAt topicFilters) count ≤
      filtersRemLen (qosByte requestedQoSs) (m.filterAt topicFilters) count := by
    unfold filtersRemLen
    refine Nat.add_le_add_left (List.sum_le_sum fun i _ => ?_) 2
    exact Nat.add_le_add_left (Nat.zero_le _) _
  obtain ⟨packet, hok, hread⟩ := serializeFilters_reads (by decide : MessageTypes.subscribe ≠ .reserved) dup packetId
    hfits hstrings fun _ => rfl
  obtain ⟨packet', hok', hread'⟩ := serializeFilters_reads (by decide : MessageTypes.unsubscribe ≠ .reserved) dup
    packetId ((getMqttPacketLen_mono hless).trans hfits) hstrings fun _ => rfl
  exact ⟨⟨packet, hok, reads_entries_iff hread⟩, packet', hok', reads_entries_iff hread'⟩

/-- `ab` and `c` one after the other. -/
def twoFilters : CStrings := .ofBytes [97, 98, 0, 99, 0] (by decide)

theorem topicPackets_read_one :
    (∃ packet,
      twoFilters.serializeSubscribePacket 2048 0 7 1 (fun _ => 3) (fun _ => .qos1) = .ok packet ∧
        readTopicPacket 1 packet = some (7, [([99], [1])])) ∧
    ∃ packet,
      twoFilters.serializeUnsubscribePacket 2048 0 7 1 (fun _ => 3) = .ok packet ∧
        readTopicPacket 0 packet = some (7, [([99], [])]) := by
  obtain ⟨⟨packet, hok, hiff⟩, packet', hok', hiff'⟩ :=
    topicPackets_read_iff twoFilters 2048 0 7 1 (fun _ => 3) (fun _ => .qos1) (by decide)
  exact ⟨⟨packet, hok, hiff.mpr ⟨by decide, by decide⟩⟩, packet', hok',
    hiff'.mpr ⟨by decide, by decide⟩⟩

/-- Of the two filters `ab` and `c` the packet carries `ab` and `b`. -/
theorem topicPackets_two_lost :
    twoFilters.serializeSubscribePacket 2048 0 7 2 (fun i => 3 * i) (fun _ => .qos1) =
        .ok [0x82, 11, 0, 7, 0, 2, 97, 98, 1, 0, 1, 98, 1] ∧
      readTopicPacket 1 [0x82, 11, 0, 7, 0, 2, 97, 98, 1, 0, 1, 98, 1] ≠
        some (7, entriesOf (qosByte fun _ => .qos1) (fun i => twoFilters.read (3 * i)) 2) ∧
    twoFilters.serializeUnsubscribePacket 2048 0 7 2 (fun i => 3 * i) =
        .ok [0xa2, 9, 0, 7, 0, 2, 97, 98, 0, 1, 98] ∧
      readTopicPacket 0 [0xa2, 9, 0, 7, 0, 2, 97, 98, 0, 1, 98] ≠
        some (7, entriesOf (fun _ => []) (fun i => twoFilters.read (3 * i)) 2) := by
  refine ⟨by rfl, by decide +kernel, by rfl, by decide +kernel⟩

end QcloudIot.Mqtt
