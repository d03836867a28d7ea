import QcloudIot.Mqtt.RemLen

/-!
# What reading a SUBACK touches

`deserialize_suback_packet` with the offsets of the buffer it reads and the entries of
`grantedQoSs` it sets. Its result is that of the function in `Packets.lean`
(`deserializeSubackRun_result`).

* `grantedLoop_eq`: what the payload loop reads and sets;
* **`subackSafe_iff`**: it stays inside both arrays, and reports every return code, iff it stops
  before the payload or there are no more than `max_count` return codes, inside the buffer.
-/

namespace QcloudIot.Mqtt

/-- What a call of `deserialize_suback_packet` does: its result, the offsets it reads, and the
stores to `grantedQoSs`, index and value. -/
structure SubackRun where
  result : Except ReturnCode (UInt16 × List UInt8)
  reads : List Nat
  stores : List (Nat × UInt8)

/-- The payload loop: whether it comes to the end, what it reads and what it sets. -/
def grantedLoop (buf : Mem) (maxCount : Nat) :
    (left curdata count : Nat) → Bool × List Nat × List (Nat × UInt8)
  | 0, _, _ => (true, [], [])
  | left + 1, curdata, count =>
    if count > maxCount then (false, [], [])
    else
      let (done, reads, stores) := grantedLoop buf maxCount left (curdata + 1) (count + 1)
      (done, curdata :: reads, (count, buf curdata) :: stores)

/-- `deserialize_suback_packet`. -/
def deserializeSubackRun (maxCount : Nat) (buf : Mem) (bufLen : Nat) : SubackRun :=
  if 5 > bufLen then ⟨.error .errBufTooShort, [], []⟩
  else if headerType (buf 0) ≠ MessageTypes.suback.code then ⟨.error .errFailure, [0], []⟩
  else
    match mqttReadPacketRemLenFormBuf buf 1 with
    | .error rc => ⟨.error rc, List.range (1 + maxNoOfRemainingLengthBytes), []⟩
    | .ok (decodedLen, readBytesLen) =>
      let curdata := 1 + readBytesLen
      let enddata := curdata + decodedLen
      if enddata - curdata < 2 then ⟨.error .errFailure, List.range curdata, []⟩
      else
        let packetId := mqttReadUint16 buf curdata
        let curdata := curdata + 2
        let (done, reads, stores) := grantedLoop buf maxCount (enddata - curdata) curdata 0
        ⟨if done then .ok (packetId, stores.map (·.2)) else .error .errFailure,
          List.range curdata ++ reads, stores⟩

variable {buf : Mem} {maxCount bufLen left curdata count : Nat}

/-! ## The payload loop -/

/-- The loop goes on for one entry more than `max_count`. -/
theorem grantedLoop_eq : grantedLoop buf maxCount left curdata count =
    (decide (left ≤ maxCount + 1 - count),
      (List.range (min left (maxCount + 1 - count))).map (curdata + ·),
      (List.range (min left (maxCount + 1 - count))).map fun i => (count + i, buf (curdata + i))) := by
  induction left generalizing curdata count with
  | zero => simp [grantedLoop]
  | succ left ih =>
    unfold grantedLoop
    split
    · rename_i hfull
      have hzero : maxCount + 1 - count = 0 := by omega
      simp [hzero]
    · rename_i hroom
      have hmin : min (left + 1) (maxCount + 1 - count) =
          min left (maxCount + 1 - (count + 1)) + 1 := by omega
      have hle : left ≤ maxCount + 1 - (count + 1) ↔ left + 1 ≤ maxCount + 1 - count := by omega
      rw [ih, hmin, List.range_succ_eq_map]
      simp only [hle, List.map_cons, List.map_map, Nat.add_zero, Prod.mk.injEq, List.cons.injEq,
        true_and]
      constructor <;> refine List.map_congr_left fun i _ => ?_
      · simp only [Function.comp_apply]
        omega
      · simp only [Function.comp_apply, Nat.succ_eq_add_one, Nat.add_right_comm, Nat.add_assoc]

/-- Its codes are those of the loop in `Packets.lean`. -/
theorem readGrantedQoSs_eq : readGrantedQoSs buf maxCount left curdata count =
    if (grantedLoop buf maxCount left curdata count).1 then
      .ok ((grantedLoop buf maxCount left curdata count).2.2.map (·.2))
    else .error .errFailure := by
  induction left generalizing curdata count with
  | zero => rfl
  | succ left ih =>
    unfold readGrantedQoSs grantedLoop
    split
    · rfl
    · rw [ih]
      rcases grantedLoop buf maxCount left (curdata + 1) (count + 1) with ⟨done, reads, stores⟩
      cases done <;> rfl

theorem deserializeSubackRun_result :
    (deserializeSubackRun maxCount buf bufLen).result = deserializeSubackPacket maxCount buf bufLen := by
  unfold deserializeSubackRun deserializeSubackPacket
  split
  · rfl
  split
  · rfl
  rcases mqttReadPacketRemLenFormBuf buf 1 with rc | ⟨decodedLen, readBytesLen⟩
  · rfl
  · dsimp only
    split
    · rfl
    · rw [readGrantedQoSs_eq]
      rcases grantedLoop buf maxCount (1 + readBytesLen + decodedLen - (1 + readBytesLen + 2))
        (1 + readBytesLen + 2) 0 with ⟨done, reads, stores⟩
      cases done <;> rfl

/-! ## Inside the two arrays -/

/-- The call reads inside the buffer and sets entries below `max_count`; when it succeeds, the
entries from the first on are the return codes of the packet, all of them; a packet with more than
`max_count` of them is refused. -/
structure SubackSafe (maxCount : Nat) (buf : Mem) (bufLen : Nat) : Prop where
  reads : ∀ p ∈ (deserializeSubackRun maxCount buf bufLen).reads, p < bufLen
  stores : ∀ s ∈ (deserializeSubackRun maxCount buf bufLen).stores, s.1 < maxCount
  codes : ∀ id codes, (deserializeSubackRun maxCount buf bufLen).result = .ok (id, codes) →
    codes.length ≤ maxCount ∧
    (deserializeSubackRun maxCount buf bufLen).stores = codes.zipIdx.map Prod.swap ∧
    ∃ decodedLen readBytesLen, mqttReadPacketRemLenFormBuf buf 1 = .ok (decodedLen, readBytesLen) ∧
      codes = buf.load (1 + readBytesLen + 2) (decodedLen - 2)

/-- The packet is refused before its payload, or it announces at most `max_count` return codes and
ends inside the buffer. -/
def SubackFits (maxCount : Nat) (buf : Mem) (bufLen : Nat) : Prop :=
  bufLen < 5 ∨ headerType (buf 0) ≠ MessageTypes.suback.code ∨
    match mqttReadPacketRemLenFormBuf buf 1 with
    | .error _ => True
    | .ok (decodedLen, readBytesLen) =>
      decodedLen < 2 ∨ (decodedLen - 2 ≤ maxCount ∧ 1 + readBytesLen + decodedLen ≤ bufLen)

/-- A call that comes to the payload. -/
theorem deserializeSubackRun_payload (maxCount : Nat) {decodedLen readBytesLen : Nat}
    (hlen : 5 ≤ bufLen)
    (htype : headerType (buf 0) = MessageTypes.suback.code)
    (hdec : mqttReadPacketRemLenFormBuf buf 1 = .ok (decodedLen, readBytesLen))
    (htwo : 2 ≤ decodedLen) : deserializeSubackRun maxCount buf bufLen =
      ⟨if decodedLen - 2 ≤ maxCount + 1 then
          .ok (mqttReadUint16 buf (1 + readBytesLen),
            buf.load (1 + readBytesLen + 2) (min (decodedLen - 2) (maxCount + 1)))
        else .error .errFailure,
        List.range (1 + readBytesLen + 2 + min (decodedLen - 2) (maxCount + 1)),
        (List.range (min (decodedLen - 2) (maxCount + 1))).map fun i =>
          (i, buf (1 + readBytesLen + 2 + i))⟩ := by
  have hleft : 1 + readBytesLen + decodedLen - (1 + readBytesLen + 2) = decodedLen - 2 := by omega
  unfold deserializeSubackRun
  rw [if_neg (by omega), if_neg (by rw [htype]; exact fun h => h rfl), hdec]
  dsimp only
  rw [if_neg (by omega), hleft, grantedLoop_eq]
  simp only [Nat.sub_zero, decide_eq_true_eq, Nat.zero_add, List.map_map, ← List.range_add]
  rfl

/-- A packet that is refused before its payload. -/
theorem SubackSafe.of_refused (rc : ReturnCode) (reads : List Nat)
    (h : deserializeSubackRun maxCount buf bufLen = ⟨.error rc, reads, []⟩)
    (hreads : ∀ p ∈ reads, p < bufLen) : SubackSafe maxCount buf bufLen := by
  refine ⟨?_, ?_, ?_⟩
  · rw [h]
    exact hreads
  · rw [h]
    exact fun s hs => absurd hs (List.not_mem_nil)
  · intro id codes hok
    rw [h] at hok
    exact absurd hok (by simp)

theorem range_zipIdx (n : Nat) (f : Nat → UInt8) :
    ((List.range n).map fun i => (i, f i)) = ((List.range n).map f).zipIdx.map Prod.swap := by
  apply List.ext_getElem
  · simp
  · intro i h1 h2
    simp

theorem subackSafe_payload {decodedLen readBytesLen : Nat} (hlen : 5 ≤ bufLen)
    (htype : headerType (buf 0) = MessageTypes.suback.code)
    (hdec : mqttReadPacketRemLenFormBuf buf 1 = .ok (decodedLen, readBytesLen))
    (htwo : 2 ≤ decodedLen) : SubackSafe maxCount buf bufLen ↔
      decodedLen - 2 ≤ maxCount ∧ 1 + readBytesLen + decodedLen ≤ bufLen := by
  have hrun := deserializeSubackRun_payload maxCount hlen htype hdec htwo
  constructor
  · intro h
    -- an entry at index `max_count` has been set, unless there are no more codes
    have hcount : decodedLen - 2 ≤ maxCount := by
      by_contra hmore
      have hstore := h.stores (maxCount, buf (1 + readBytesLen + 2 + maxCount)) (by
        rw [hrun]
        exact List.mem_map.mpr ⟨maxCount, List.mem_range.mpr (by omega), rfl⟩)
      exact absurd hstore (Nat.lt_irrefl _)
    refine ⟨hcount, ?_⟩
    have hlast := h.reads (readBytesLen + decodedLen) (by
      rw [hrun]
      exact List.mem_range.mpr (by omega))
    omega
  · rintro ⟨hcount, hinside⟩
    rw [Nat.min_eq_left (by omega), if_pos (by omega)] at hrun
    refine ⟨?_, ?_, ?_⟩
    · intro p hp
      rw [hrun] at hp
      have hlt := List.mem_range.mp hp
      omega
    · intro s hs
      rw [hrun] at hs
      obtain ⟨i, hi, rfl⟩ := List.mem_map.mp hs
      have hlt := List.mem_range.mp hi
      dsimp only
      omega
    · intro id codes hok
      rw [hrun] at hok
      obtain ⟨-, rfl⟩ := Prod.mk.inj (Except.ok.inj hok)
      refine ⟨?_, ?_, decodedLen, readBytesLen, hdec, rfl⟩
      · simpa [Mem.load] using hcount
      · rw [hrun]
        exact range_zipIdx _ _

/-- **When reading a SUBACK is safe.** -/
theorem subackSafe_iff (maxCount : Nat) (buf : Mem) (bufLen : Nat) :
    SubackSafe maxCount buf bufLen ↔ SubackFits maxCount buf bufLen := by
  unfold SubackFits
  by_cases hlen : bufLen < 5
  · refine iff_of_true (.of_refused .errBufTooShort [] ?_ (by simp)) (.inl hlen)
    exact if_pos hlen
  rw [or_iff_right hlen]
  by_cases htype : headerType (buf 0) ≠ MessageTypes.suback.code
  · refine iff_of_true (.of_refused .errFailure [0] ?_ (by simp; omega)) (.inl htype)
    unfold deserializeSubackRun
    rw [if_neg hlen, if_pos htype]
  rw [or_iff_right htype]
  rcases hdec : mqttReadPacketRemLenFormBuf buf 1 with rc | ⟨decodedLen, readBytesLen⟩
  · refine iff_of_true (.of_refused rc (List.range 5) ?_ ?_) trivial
    · unfold deserializeSubackRun
      rw [if_neg hlen, if_neg htype, hdec]
      rfl
    · intro p hp
      have hlt := List.mem_range.mp hp
      omega
  dsimp only
  obtain ⟨-, -, hk⟩ := decodeRemLen_lt hdec
  by_cases htwo : decodedLen < 2
  · refine iff_of_true (.of_refused .errFailure (List.range (1 + readBytesLen)) ?_ ?_)
      (.inl htwo)
    · unfold deserializeSubackRun
      rw [if_neg hlen, if_neg htype, hdec]
      dsimp only
      rw [if_pos (by omega)]
    · intro p hp
      have hlt := List.mem_range.mp hp
      omega
  · rw [or_iff_right htwo]
    exact subackSafe_payload (by omega) (not_not.mp htype) hdec (by omega)

/-- Two return codes for one: both are stored, and the packet is accepted. -/
theorem subackSafe_two :
    ¬ SubackSafe 1 (Mem.ofBytes [0x90, 4, 0, 7, 0, 1]) 2048 ∧
      (deserializeSubackRun 1 (Mem.ofBytes [0x90, 4, 0, 7, 0, 1]) 2048).stores = [(0, 0), (1, 1)] ∧
      (deserializeSubackRun 1 (Mem.ofBytes [0x90, 4, 0, 7, 0, 1]) 2048).result = .ok (7, [0, 1]) := by
  refine ⟨fun h => ?_, by rfl, by rfl⟩
  exact absurd (h.stores (1, 1) (by decide)) (by decide)

end QcloudIot.Mqtt
