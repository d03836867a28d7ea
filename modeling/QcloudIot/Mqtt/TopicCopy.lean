import QcloudIot.Mqtt.Messages
import QcloudIot.Mqtt.Runs

/-!
# The copy of an inbound topic

The topic of a PUBLISH stands in the read buffer without a NUL behind it. `_handle_publish_packet`
copies it to `fix_topic`, an array of `MAX_SIZE_OF_CLOUD_TOPIC` zeros, and `_deliver_message` passes
the array on: as a string to `_is_topic_equals` and to the handler, with a length to
`_is_topic_matched`. A topic longer than the array is cut to one byte less than it holds. One that
fills it exactly is not.

Results:
* `fixTopic_ended`, `fixTopic_full`: the array ends the string unless the topic fills it;
* **`topicCopied`**: what the callback of a PUBLISH gets of a topic that does not fill the array;
* `topicCopy_truncates`: a longer topic is delivered under the name it is cut to.
-/

namespace QcloudIot.Mqtt

/-- The topic in a PUBLISH packet. -/
def PublishPacket.topic (p : PublishPacket) (buf : Mem) : Bytes :=
  buf.load p.topicName p.topicNameLen.toNat

/-- The array at `passed` holds the whole topic as a string. -/
structure TopicIntact (topic passed : Bytes) : Prop where
  ended : 0 ∈ passed.take maxSizeOfCloudTopic
  whole : 0 ∉ topic → cString passed = topic
  notCut : maxSizeOfCloudTopic ≤ topic.length → ¬ (cString passed <+: topic ∧ cString passed ≠ topic)

/-- What of a topic is passed on with a message: the string in the array ends there; it is the
topic, or its first bytes where the topic is longer than the array. -/
structure TopicCopied (topic passed : Bytes) (msg : MqttMessage) : Prop where
  ended : 0 ∈ passed.take maxSizeOfCloudTopic
  whole : topic.length < maxSizeOfCloudTopic → 0 ∉ topic → cString passed = topic
  cut : maxSizeOfCloudTopic < topic.length → 0 ∉ topic →
    cString passed = topic.take (maxSizeOfCloudTopic - 1)
  message : msg.topic = topic.take (maxSizeOfCloudTopic - 1)
  length : msg.topicLen.toNat = msg.topic.length

section Copy

variable {buf : Mem} {start : Nat} {len : UInt16} {beyond : Bytes}

theorem Mem.load_take (m : Mem) (p : Nat) {n k : Nat} (h : k ≤ n) :
    (m.load p n).take k = m.load p k := by
  rw [Mem.load, Mem.load, ← List.map_take, List.take_range, Nat.min_eq_left h]

theorem Mem.length_load (m : Mem) (p n : Nat) : (m.load p n).length = n := by
  rw [Mem.load, List.length_map, List.length_range]

/-- The length after the check, in which the length that fills the array stays. -/
theorem fixTopicLen_toNat : (fixTopicLen len).toNat =
    if len.toNat > maxSizeOfCloudTopic then maxSizeOfCloudTopic - 1 else len.toNat := by
  unfold fixTopicLen
  split <;> rfl

/-- What the array holds. -/
theorem take_fixTopic (h : len.toNat ≤ maxSizeOfCloudTopic) :
    (fixTopic buf start len beyond).take maxSizeOfCloudTopic =
      buf.load start len.toNat ++ List.replicate (maxSizeOfCloudTopic - len.toNat) 0 := by
  have hlen : (buf.load start len.toNat ++ List.replicate (maxSizeOfCloudTopic - len.toNat) 0).length =
      maxSizeOfCloudTopic := by
    rw [List.length_append, Mem.length_load, List.length_replicate]
    omega
  rw [fixTopic]
  exact List.take_left' hlen

/-- A topic shorter than the array ends there. -/
theorem fixTopic_ended (h : len.toNat < maxSizeOfCloudTopic) :
    0 ∈ (fixTopic buf start len beyond).take maxSizeOfCloudTopic := by
  rw [take_fixTopic (Nat.le_of_lt h)]
  refine List.mem_append_right _ ?_
  rw [List.mem_replicate]
  exact ⟨by omega, rfl⟩

/-- One that fills it does not. -/
theorem fixTopic_full (h : len.toNat = maxSizeOfCloudTopic) (hnul : 0 ∉ buf.load start len.toNat) :
    0 ∉ (fixTopic buf start len beyond).take maxSizeOfCloudTopic := by
  rw [take_fixTopic (Nat.le_of_eq h), h, Nat.sub_self, List.replicate_zero, List.append_nil, ← h]
  exact hnul

theorem cString_fixTopic (h : len.toNat < maxSizeOfCloudTopic)
    (hnul : 0 ∉ buf.load start len.toNat) :
    cString (fixTopic buf start len beyond) = buf.load start len.toNat := by
  rw [fixTopic, List.append_assoc]
  exact cString_behind hnul (by omega)

end Copy

/-- **What is passed on of a topic** that does not fill the array, by an accepted PUBLISH: its
callback is chosen by the string in the array and gets what the array holds of the topic. -/
theorem topicCopied {c : Client} {env : CycleEnv} {p : PublishPacket}
    (h : deserializePublishPacket env.wordSize c.readBuf c.readBufSize = .ok p)
    (hlen : p.topicNameLen.toNat ≠ maxSizeOfCloudTopic) :
    messagesIn (handlePublishPacket c env).2.log = messagesIn c.log ++ callsFor c env p ∧
      TopicCopied (p.topic c.readBuf) (passedTopic c env p) (publishMessage c.readBuf p) := by
  refine ⟨messagesIn_handlePublishPacket h, ?_⟩
  have hmax : maxSizeOfCloudTopic = 128 := rfl
  have hcopied : (fixTopicLen p.topicNameLen).toNat =
      min p.topicNameLen.toNat (maxSizeOfCloudTopic - 1) := by
    rw [fixTopicLen_toNat]
    split <;> omega
  have htopic : (p.topic c.readBuf).length = p.topicNameLen.toNat := Mem.length_load _ _ _
  have htake : c.readBuf.load p.topicName (fixTopicLen p.topicNameLen).toNat =
      (p.topic c.readBuf).take (maxSizeOfCloudTopic - 1) := by
    rw [hcopied, PublishPacket.topic, ← Mem.load_take _ _ (Nat.min_le_left _ _)]
    rcases Nat.le_total p.topicNameLen.toNat (maxSizeOfCloudTopic - 1) with hle | hle
    · have hload := Mem.length_load c.readBuf p.topicName p.topicNameLen.toNat
      rw [Nat.min_eq_left hle, List.take_of_length_le (by omega), List.take_of_length_le (by omega)]
    · rw [Nat.min_eq_right hle]
  have hshort : (fixTopicLen p.topicNameLen).toNat < maxSizeOfCloudTopic := by omega
  have hstring : 0 ∉ p.topic c.readBuf →
      cString (passedTopic c env p) = (p.topic c.readBuf).take (maxSizeOfCloudTopic - 1) :=
    fun hnul => by
      rw [passedTopic, cString_fixTopic hshort, htake]
      rw [htake]
      exact fun hin => hnul (List.mem_of_mem_take hin)
  refine ⟨fixTopic_ended hshort, fun hfits hnul => ?_, fun _ hnul => hstring hnul, htake, ?_⟩
  · rw [hstring hnul, List.take_of_length_le (by omega)]
  · exact (Mem.length_load _ _ _).symm

/-- A client that has read a PUBLISH of QoS 0 with this topic, subscribed to the filter. -/
def readTopic (filter topic : Bytes) : Client := { freshClient with
  readBuf := freshClient.readBuf.store 0
    (0x30 :: mqttWritePacketRemLen (UInt32.ofNat (2 + topic.length)) ++
      mqttWriteUint16 (UInt16.ofNat topic.length) ++ topic)
  subHandles := freshClient.subHandles.set 0
    { topicFilter := some ⟨0, filter⟩, messageHandler := some 7 } }

/-- That packet, with the topic from `start` on. -/
def topicPacket (start : Nat) (len : UInt16) : PublishPacket where
  dup := 0
  qos := .qos0
  retained := 0
  packetId := none
  topicName := start
  topicNameLen := len
  payload := start + len.toNat
  payloadLen := 0

/-- A topic that fits. -/
theorem topicCopied_short :
    let c := readTopic [116] [116]
    let p := topicPacket 4 1
    messagesIn (handlePublishPacket c {}).2.log = messagesIn c.log ++ callsFor c {} p ∧
      TopicCopied (p.topic c.readBuf) (passedTopic c {} p) (publishMessage c.readBuf p) :=
  topicCopied (by decide) (by decide)

/-- **A topic is cut**: the message to a topic of 129 bytes is delivered to the subscriber of a
filter of 127. -/
theorem topicCopy_truncates :
    let c := readTopic (List.replicate 127 97) (List.replicate 129 97)
    let p := topicPacket 5 129
    deserializePublishPacket .w32 c.readBuf c.readBufSize = .ok p ∧
      p.topic c.readBuf = List.replicate 129 97 ∧
      messagesIn (handlePublishPacket c {}).2.log = [(7, publishMessage c.readBuf p)] ∧
      ¬ TopicIntact (p.topic c.readBuf) (passedTopic c {} p) := by
  have htopic : (topicPacket 5 129).topic
      (readTopic (List.replicate 127 97) (List.replicate 129 97)).readBuf = List.replicate 129 97 := by
    decide +kernel
  refine ⟨by decide +kernel, htopic, by decide +kernel, fun h => ?_⟩
  have hwhole := congrArg List.length (h.whole (by rw [htopic]; decide))
  rw [htopic] at hwhole
  revert hwhole
  decide +kernel

end QcloudIot.Mqtt
