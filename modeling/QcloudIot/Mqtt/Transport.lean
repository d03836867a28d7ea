import QcloudIot.Mqtt.Client

/-!
# Packets to and from the network

`send_mqtt_packet` and `_read_mqtt_packet` with `_decode_packet_rem_len_with_net_read`
(`mqtt_client_common.c`). What the network answers is an argument: the results of the successive
`network_stack.write` or `network_stack.read` calls.

Results: both are `Frame` steps (`sendMqttPacket_frame`, `readMqttPacket_frame`);
`sendMqttPacket_ok_iff` and
`sendMqttPacket_logged` say when a packet is sent.
-/

namespace QcloudIot.Mqtt

/-! ## Sending -/

/-- What `send_mqtt_packet` meets: whether the timer has expired at the start, the result and the
sent length of each `network_stack.write` made before the timer expires, and whether it has
expired when the loop ends with everything sent. -/
structure SendEnv where
  expiredAtStart : Bool := false
  writes : List (ReturnCode × Nat) := []
  expiredAfter : Bool := false
  deriving DecidableEq, Repr

/-- The loop of `send_mqtt_packet`: the code of the last write and the value of `sent`. -/
def sendLoop (length : Nat) : (sent : Nat) → List (ReturnCode × Nat) → ReturnCode × Nat
  | sent, [] => (.retSuccess, sent)
  | sent, (rc, sentLen) :: writes =>
    if sent < length then
      if rc ≠ .retSuccess then (rc, sent) else sendLoop length (sent + min sentLen length) writes
    else (.retSuccess, sent)

/-- The bytes the network accepts in the loop. Every write is offered `length` bytes from
`write_buf[sent]` on. -/
def sendWire (buf : Mem) (length : Nat) : (sent : Nat) → List (ReturnCode × Nat) → Bytes
  | _, [] => []
  | sent, (rc, sentLen) :: writes =>
    if sent < length then
      let accepted := buf.load sent (min sentLen length)
      if rc ≠ .retSuccess then accepted
      else accepted ++ sendWire buf length (sent + min sentLen length) writes
    else []

/-- What `send_mqtt_packet` returns after its loop. -/
def sendEnd (length : Nat) (env : SendEnv) : ReturnCode × Nat → ReturnCode
  | (rc, sent) =>
    if sent = length then .retSuccess
    -- with a part sent and no error, it is the timer that has ended the loop
    else if rc = .retSuccess ∧ (sent < length ∨ env.expiredAfter) then .errMqttRequestTimeout
    else rc

/-- `send_mqtt_packet`, with its timer. -/
def sendMqttPacket (c : Client) (length : Nat) (env : SendEnv) : ReturnCode × Client :=
  if length ≥ c.writeBufSize then (.errBufTooShort, c)
  else if env.expiredAtStart then (.errMqttRequestTimeout, c)
  else
    let rc := sendEnd length env (sendLoop length 0 env.writes)
    let c := c.emit (.wire (sendWire c.writeBuf length 0 env.writes))
    (rc, if rc = .retSuccess then c.emit (.sent (c.writeBuf.load 0 length)) else c)

/-- A packet of this length leaves a write buffer of this size: it is shorter than the buffer and
the network takes it in time. -/
def SendEnv.Delivers (env : SendEnv) (writeBufSize length : Nat) : Prop :=
  length < writeBufSize ∧ env.expiredAtStart = false ∧
    sendEnd length env (sendLoop length 0 env.writes) = .retSuccess

instance (env : SendEnv) (size length : Nat) : Decidable (env.Delivers size length) :=
  inferInstanceAs (Decidable (_ ∧ _ ∧ _))

/-- **When a packet is sent.** -/
theorem sendMqttPacket_ok_iff (c : Client) (length : Nat) (env : SendEnv) :
    (sendMqttPacket c length env).1 = .retSuccess ↔ env.Delivers c.writeBufSize length := by
  unfold sendMqttPacket SendEnv.Delivers
  split
  · rename_i h
    simp only [reduceCtorEq, false_iff]
    omega
  rename_i h
  split
  · rename_i he
    simp [he]
  · rename_i he
    simp [he]
    omega

/-- Sending changes the log and nothing else. -/
theorem sendMqttPacket_client (c : Client) (length : Nat) (env : SendEnv) :
    (sendMqttPacket c length env).2 = { c with log := (sendMqttPacket c length env).2.log } := by
  unfold sendMqttPacket
  split
  · rfl
  split
  · rfl
  · simp only
    split <;> rfl

/-- What a sending logs: the packet iff it is sent. -/
theorem sendMqttPacket_logged (c : Client) (length : Nat) (env : SendEnv) :
    Logged c.log (sendMqttPacket c length env).2.log []
      (if env.Delivers c.writeBufSize length then [c.writeBuf.load 0 length] else []) := by
  by_cases hd : env.Delivers c.writeBufSize length
  · obtain ⟨hlt, he, hend⟩ := hd
    rw [if_pos ⟨hlt, he, hend⟩]
    unfold sendMqttPacket
    rw [if_neg (by omega), if_neg (by simp [he]), hend]
    constructor <;> simp
  · have hrc := (sendMqttPacket_ok_iff c length env).not.mpr hd
    rw [if_neg hd]
    revert hrc
    unfold sendMqttPacket
    split
    · exact fun _ => Logged.refl c.log
    split
    · exact fun _ => Logged.refl c.log
    · intro hrc
      simp only at hrc ⊢
      rw [if_neg hrc]
      constructor <;> simp

/-- **One sending**: the packet is logged, or there is a failure and nothing of it. -/
theorem sendMqttPacket_cases (c : Client) (length : Nat) (env : SendEnv) :
    (env.Delivers c.writeBufSize length ∧ ∃ log,
      sendMqttPacket c length env = (.retSuccess, { c with log := log }) ∧
      Logged c.log log [] [c.writeBuf.load 0 length]) ∨
    ¬ env.Delivers c.writeBufSize length ∧ ∃ rc log, rc ≠ .retSuccess ∧
      sendMqttPacket c length env = (rc, { c with log := log }) ∧ Logged c.log log [] [] := by
  have hok := sendMqttPacket_ok_iff c length env
  have hclient := sendMqttPacket_client c length env
  have hlog := sendMqttPacket_logged c length env
  by_cases hd : env.Delivers c.writeBufSize length
  · rw [if_pos hd] at hlog
    exact .inl ⟨hd, _, Prod.ext (hok.mpr hd) hclient, hlog⟩
  · rw [if_neg hd] at hlog
    exact .inr ⟨hd, _, _, hok.not.mpr hd, Prod.ext rfl hclient, hlog⟩

theorem sendMqttPacket_frame (c : Client) (length : Nat) (env : SendEnv) :
    Frame c (sendMqttPacket c length env).2 := by
  have hc := sendMqttPacket_client c length env
  have hl := sendMqttPacket_logged c length env
  exact ⟨by rw [hc], by rw [hc], by rw [hc], by rw [hc], by rw [hc], by rw [hc], by rw [hc],
    by rw [hl.freed, List.append_nil], hl.fates, hl.delivered, hl.locked⟩

/-! ## Reading -/

/-- The results of the successive `network_stack.read` calls: the code and the bytes placed in the
buffer. After the last there is nothing more to read. -/
abbrev NetReads := List (ReturnCode × Bytes)

/-- `network_stack.read` of `n` bytes. -/
def netRead (n : Nat) : NetReads → ReturnCode × Bytes × NetReads
  | [] => (.errTcpNothingToRead, [], [])
  | (rc, bytes) :: reads => (rc, bytes.take n, reads)

/-- The loop of `_decode_packet_rem_len_with_net_read`, `left` bytes still allowed. -/
def decodeRemLenNet :
    (left multiplier value : Nat) → NetReads → Except ReturnCode Nat × NetReads
  | 0, _, _, reads => (.error .errMqttPacketRead, reads)
  | left + 1, multiplier, value, reads =>
    let (rc, bytes, reads) := netRead 1 reads
    if rc ≠ .retSuccess then (.error .errFailure, reads)
    else
      let i := bytes.headD 0
      let value := value + (i &&& (127 : UInt8)).toNat * multiplier
      if i &&& (128 : UInt8) ≠ 0 then decodeRemLenNet left (multiplier * 128) value reads
      else (.ok value, reads)

/-- The loop that reads an oversized packet away, chunk by chunk into the start of `read_buf`. -/
def discardLoop (remLen size : Nat) :
    (total toRead : Nat) → NetReads → Mem → Mem × NetReads
  | _, _, [], buf => (buf, [])
  | total, toRead, (rc, bytes) :: reads, buf =>
    let bytes := bytes.take toRead
    let buf := buf.store 0 bytes
    if rc ≠ .retSuccess then (buf, reads)
    else
      let total := total + bytes.length
      let toRead := if remLen - total ≥ size then size else remLen - total
      if total < remLen then discardLoop remLen size total toRead reads buf else (buf, reads)

/-- What `_read_mqtt_packet` leaves: its code, `*packet_type`, what the network still has, and the
client. -/
structure ReadResult where
  rc : ReturnCode
  packetType : UInt8
  reads : NetReads
  client : Client

/-- The last step of `_read_mqtt_packet`: the payload into `read_buf + len`. -/
def readPayload (c : Client) (packetType : UInt8) (len remLen : Nat) (reads : NetReads) :
    ReadResult :=
  -- an oversized packet is read into the start of the buffer
  if remLen > 0 ∧ len + remLen > c.readBufSize then
    let r := netRead remLen reads
    ⟨.errBufTooShort, packetType, r.2.2, c.fill 0 r.2.1⟩
  else
    let r := if remLen > 0 then netRead remLen reads else (.retSuccess, [], reads)
    let c := c.fill len r.2.1
    if r.1 ≠ .retSuccess then ⟨r.1, packetType, r.2.2, c⟩
    else ⟨.retSuccess, headerType (c.readBuf 0), r.2.2, c⟩

/-- `_read_mqtt_packet`; `packetType` is the value `*packet_type` had. -/
def readMqttPacket (c : Client) (packetType : UInt8) (reads : NetReads) : ReadResult :=
  -- 1. read 1st byte in fixed header and check if valid
  let first := netRead 1 reads
  let c := c.fill 0 first.2.1
  if first.1 = .errSslNothingToRead ∨ first.1 = .errTcpNothingToRead then
    ⟨.errMqttNothingToRead, packetType, first.2.2, c⟩
  else if first.1 ≠ .retSuccess then ⟨first.1, packetType, first.2.2, c⟩
  else
    -- 2. read the remaining length
    match decodeRemLenNet maxNoOfRemainingLengthBytes 1 0 first.2.2 with
    | (.error rc, reads) => ⟨rc, packetType, reads, c⟩
    | (.ok remLen, reads) =>
      if remLen ≥ c.readBufSize then
        let r := discardLoop remLen c.readBufSize 0 c.readBufSize reads c.readBuf
        ⟨.errBufTooShort, packetType, r.2, { c with readBuf := r.1 }⟩
      else
        -- 3. read payload according to remaining length
        let encoded := mqttWritePacketRemLen (UInt32.ofNat remLen)
        readPayload (c.fill 1 encoded) packetType (1 + encoded.length) remLen reads

theorem readPayload_client (c : Client) (packetType : UInt8) (len remLen : Nat)
    (reads : NetReads) :
    ∃ buf, (readPayload c packetType len remLen reads).client = { c with readBuf := buf } := by
  unfold readPayload
  split
  · exact ⟨_, rfl⟩
  · simp only
    split <;> split <;> exact ⟨_, rfl⟩

/-- Reading changes the read buffer and nothing else. -/
theorem readMqttPacket_client (c : Client) (packetType : UInt8) (reads : NetReads) :
    ∃ buf, (readMqttPacket c packetType reads).client = { c with readBuf := buf } := by
  unfold readMqttPacket
  simp only
  split
  · exact ⟨_, rfl⟩
  split
  · exact ⟨_, rfl⟩
  split
  · exact ⟨_, rfl⟩
  split
  · exact ⟨_, rfl⟩
  · obtain ⟨buf, h⟩ := readPayload_client
      ((c.fill 0 (netRead 1 reads).2.1).fill 1 (mqttWritePacketRemLen (UInt32.ofNat _))) packetType
      _ _ _
    exact ⟨buf, h⟩

theorem readMqttPacket_frame (c : Client) (packetType : UInt8) (reads : NetReads) :
    Frame c (readMqttPacket c packetType reads).client := by
  obtain ⟨buf, h⟩ := readMqttPacket_client c packetType reads
  rw [h]
  exact ⟨rfl, rfl, rfl, rfl, rfl, rfl, rfl, rfl, rfl, rfl, rfl⟩

end QcloudIot.Mqtt
