import QcloudIot.Lib.Ring
import QcloudIot.Mqtt.Runs

/-!
# Duplicate suppression

`_handle_publish_packet` delivers a PUBLISH above QoS 0 unless its packet id stands in the ring of
the last ids recorded, whatever its DUP flag says and whatever session it belongs to, and
acknowledges it in either case. The ring refines a bounded history of messages: it holds the ids of
the last ten messages that were new.

Results:
* `ActStep.messages`: a step touches ring and deliveries only by a PUBLISH above QoS 0;
* `run_read_client`: a client whose messages are counted runs as any other;
* **`deliveredOnce_of_run`**: where no new message comes with the id of one of the last ten, and
  no message comes again when ten new ones have followed, every message is delivered once;
* `reusedId_lost`: a new message with the id of the one before it is acknowledged and not
  delivered.
-/

namespace QcloudIot.Mqtt

open Lib

/-! ## The ring -/

/-- The ids in the ring, newest first. -/
def RepeatBuf.recent (b : RepeatBuf) : List UInt16 := newestFirst b.ids b.cnt

theorem get_eq_none_iff {b : RepeatBuf} {packetId : UInt16} :
    getPacketIdInRepeatBuf b packetId = none ↔ packetId ∉ b.recent := by
  rw [RepeatBuf.recent, mem_newestFirst, getPacketIdInRepeatBuf]
  by_cases h : packetId ∈ b.ids <;> simp [h]

theorem recent_empty : RepeatBuf.empty.recent = List.replicate mqttMaxRepeatBufLen 0 := by decide

/-- An id not yet recorded becomes the newest one. -/
theorem recent_add {b : RepeatBuf} {packetId : UInt16} (h : packetId ∉ b.recent) :
    (addPacketIdToRepeatBuf b packetId).recent =
      (packetId :: b.recent).take mqttMaxRepeatBufLen := by
  have hnone := get_eq_none_iff.mpr h
  have hmod : (if b.cnt + 1 ≥ mqttMaxRepeatBufLen then (b.cnt + 1) % mqttMaxRepeatBufLen
      else b.cnt + 1) = (b.cnt + 1) % b.ids.length := by
    rw [b.length_eq]
    split
    · rfl
    · rename_i hlt
      exact (Nat.mod_eq_of_lt (by omega)).symm
  unfold addPacketIdToRepeatBuf
  rw [if_neg (by simp [hnone])]
  simp only [RepeatBuf.recent]
  rw [hmod, newestFirst_write (by rw [b.length_eq]; exact b.cnt_lt), b.length_eq]

/-- A recorded id stays where it is. -/
theorem add_recorded {b : RepeatBuf} {packetId : UInt16} (h : packetId ∈ b.recent)
    (hpos : packetId ≠ 0) : addPacketIdToRepeatBuf b packetId = b := by
  have hmem : packetId ∈ b.ids := mem_newestFirst.mp h
  have hsome : getPacketIdInRepeatBuf b packetId = some packetId := by
    simp [getPacketIdInRepeatBuf, hmem]
  unfold addPacketIdToRepeatBuf
  rw [if_pos ⟨packetId, hsome, UInt16.pos_iff_ne_zero.mpr hpos⟩]

/-! ## The messages a step delivers -/

/-- The PUBLISH above QoS 0 that a step handles, with its packet id. -/
def publishOf (c : Client) : Act → Option (UInt16 × MqttMessage)
  | .cycle packetType env =>
    match inboundOf c packetType env with
    | some (.publish packetId msg) => some (packetId, msg)
    | _ => none
  | _ => none

/-- Ring and deliveries stay. -/
structure SameMessages (c c' : Client) : Prop where
  repeatBuf : c'.repeatBuf = c.repeatBuf
  delivered : deliveredIn c'.log = deliveredIn c.log

theorem SameMessages.trans {c c' c'' : Client} (h : SameMessages c c') (h' : SameMessages c' c'') :
    SameMessages c c'' :=
  ⟨h'.repeatBuf.trans h.repeatBuf, h'.delivered.trans h.delivered⟩

theorem Frame.sameMessages {c c' : Client} (h : Frame c c') : SameMessages c c' :=
  ⟨h.repeatBuf, h.delivered⟩

theorem SubRefused.sameMessages {c c' : Client} (h : SubRefused c c') : SameMessages c c' := by
  have hkept : c' = _ := h.kept
  obtain ⟨_, hlog⟩ := h.logged
  exact ⟨by rw [hkept], hlog.delivered⟩

theorem SubAccepted.sameMessages {node : SubInfo} {packet : Bytes} {c c' : Client}
    (h : SubAccepted node packet c c') : SameMessages c c' :=
  ⟨by rw [h.kept], h.log.delivered⟩

theorem PubAccepted.sameMessages {nodes : List PubInfo} {packet : Bytes} {c c' : Client}
    (h : PubAccepted nodes packet c c') : SameMessages c c' :=
  ⟨by rw [h.kept], h.log.delivered⟩

theorem removeHandlers_sameMessages (c : Client) (topic : Bytes) :
    SameMessages c (removeHandlers c topic) := by
  have hclear := (clear_views topic (.generic :: c.held) c.subHandles.slots).2.2
  rw [removeHandlers_eq]
  exact ⟨rfl, by simp [hclear]⟩

/-- A PUBLISH above QoS 0 has been handled: its id is recorded, and it is delivered if the id was
not there before. -/
structure Received (packetId : UInt16) (msg : MqttMessage) (c c' : Client) : Prop where
  repeatBuf : c'.repeatBuf = addPacketIdToRepeatBuf c.repeatBuf packetId
  delivered : deliveredIn c'.log = deliveredIn c.log ++
    if packetId ∈ c.repeatBuf.recent then [] else [msg]

/-- What handling a packet does to ring and deliveries. -/
theorem InboundStep.messages {env : CycleEnv} {c c' : Client} {pkt : Inbound}
    (h : InboundStep env c pkt c') :
    match pkt with
    | .publish packetId msg => Received packetId msg c c'
    | _ => SameMessages c c' := by
  cases h with
  | puback packetId => exact ⟨rfl, by simp⟩
  | suback h =>
    have hkept := h.kept
    exact ⟨by rw [hkept], h.delivered⟩
  | unsuback packetId => exact ⟨rfl, by simp⟩
  | publish hqos h =>
    refine ⟨h.repeatBuf, ?_⟩
    rw [h.delivered]
    simp only [receivePublish, get_eq_none_iff, ite_not]
    split <;> simp [hqos]

/-- **What a step does to the ring and the deliveries**: a PUBLISH above QoS 0 is received, and
nothing else touches them. -/
theorem ActStep.messages {c c' : Client} {a : Act} (h : ActStep c a c') :
    match publishOf c a with
    | none => SameMessages c c'
    | some (packetId, msg) => Received packetId msg c c' := by
  cases h with
  | @quiet a _ hquiet h =>
    have hnone : publishOf c a = none := by cases a <;> trivial
    rw [hnone]
    exact h.sameMessages
  | subscribed _ h => exact h.sameMessages
  | subscribeRefused h => exact h.sameMessages
  | unsubscribeInvalid => exact ⟨rfl, rfl⟩
  | unsubscribed _ h => exact (removeHandlers_sameMessages c _).trans h.sameMessages
  | unsubscribeRefused _ h => exact (removeHandlers_sameMessages c _).trans h.sameMessages
  | published _ h =>
    have hsame := h.sameMessages
    simp only [publishOf]
    split
    · exact ⟨hsame.repeatBuf, by simp [hsame.delivered]⟩
    · exact hsame
  | publishRefused h =>
    have hkept := h.kept
    exact ⟨by rw [hkept], h.log.delivered⟩
  | @inbound _ _ pkt c1 c2 _ hpkt h1 hstep h2 =>
    have hmessages := hstep.messages
    simp only [publishOf, hpkt]
    cases pkt with
    | publish packetId msg =>
      refine ⟨?_, ?_⟩
      · rw [h2.repeatBuf, hmessages.repeatBuf, h1.repeatBuf]
      · rw [h2.delivered, hmessages.delivered, h1.delivered, h1.repeatBuf]
    | _ => exact (h1.sameMessages.trans hmessages).trans h2.sameMessages
  | noInbound hnone h =>
    simp only [publishOf, hnone]
    exact h.sameMessages
  | pubSwept env => exact ⟨rfl, by simp [deliveredIn_pubTimeout]⟩
  | subSwept env => exact ⟨rfl, by simp [deliveredIn_subTimeout]⟩

/-! ## The messages of the broker -/

/-- A message the broker has sent, by a number of its own, with its packet id and its first
PUBLISH. -/
structure SentMessage where
  name : Nat
  packetId : UInt16
  msg : MqttMessage

/-- The client, and the messages it has read a PUBLISH of, newest first. -/
structure Reader where
  client : Client
  seen : List SentMessage

/-- The messages read have this one among them. -/
def Reader.knows (s : Reader) (name : Nat) : Prop := name ∈ s.seen.map SentMessage.name

instance (s : Reader) (name : Nat) : Decidable (s.knows name) :=
  inferInstanceAs (Decidable (_ ∈ _))

/-- A step of the client, where `a.2` is the message that a PUBLISH carries. -/
def read (s : Reader) (a : Act × Nat) : Reader where
  client := act s.client a.1
  seen :=
    match publishOf s.client a.1 with
    | none => s.seen
    | some (packetId, msg) => if s.knows a.2 then s.seen else ⟨a.2, packetId, msg⟩ :: s.seen

/-- The last messages, as many as the ring holds ids. -/
def Reader.window (s : Reader) : List SentMessage := s.seen.take mqttMaxRepeatBufLen

/-- A step's condition: a new message comes with an id that none of the last ten messages has (and
never with 0, which no PUBLISH has), and a message that comes again, with its id, is one of the
last ten. -/
def InWindow (s : Reader) (a : Act × Nat) : Prop :=
  ∀ p ∈ publishOf s.client a.1, p.1 ≠ 0 ∧
    if s.knows a.2 then ∃ m ∈ s.window, m.name = a.2 ∧ m.packetId = p.1
    else p.1 ∉ s.window.map SentMessage.packetId

instance (s : Reader) (a : Act × Nat) : Decidable (InWindow s a) :=
  inferInstanceAs (Decidable (∀ p ∈ _, _))

/-- What the ring holds is the history of the last messages, and what has been delivered is every
message once. -/
structure ReaderInv (s : Reader) : Prop where
  held : s.client.held = []
  recent : s.client.repeatBuf.recent =
    (s.seen.map SentMessage.packetId ++ List.replicate mqttMaxRepeatBufLen 0).take mqttMaxRepeatBufLen
  delivered : deliveredIn s.client.log = s.seen.reverse.map SentMessage.msg
  nodup : (s.seen.map SentMessage.name).Nodup

theorem ReaderInv.mem_recent {s : Reader} (h : ReaderInv s) {packetId : UInt16}
    (hpos : packetId ≠ 0) :
    packetId ∈ s.client.repeatBuf.recent ↔ packetId ∈ s.window.map SentMessage.packetId := by
  rw [h.recent, List.take_append, List.mem_append, Reader.window, List.map_take]
  constructor
  · rintro (hmem | hzero)
    · exact hmem
    · exact absurd (List.eq_of_mem_replicate (List.mem_of_mem_take hzero)) hpos
  · exact Or.inl

/-- One step within the window. -/
theorem ReaderInv.read {s : Reader} {a : Act × Nat} (h : ReaderInv s) (hwin : InWindow s a) :
    ReaderInv (read s a) := by
  have hheld := (act_sameThread a.1 h.held).held.trans h.held
  have hmsg := (act_step a.1 h.held).messages
  cases hpub : publishOf s.client a.1 with
  | none =>
    have hseen : (Mqtt.read s a).seen = s.seen := by simp [Mqtt.read, hpub]
    rw [hpub] at hmsg
    exact ⟨hheld, by rw [hseen, ← h.recent]; exact congrArg RepeatBuf.recent hmsg.repeatBuf,
      by rw [hseen, ← h.delivered]; exact hmsg.delivered, by rw [hseen]; exact h.nodup⟩
  | some pm =>
    obtain ⟨packetId, msg⟩ := pm
    rw [hpub] at hmsg
    obtain ⟨hpos, hwin⟩ := hwin _ hpub
    simp only at hmsg hpos hwin
    by_cases hknown : s.knows a.2
    · rw [if_pos hknown] at hwin
      obtain ⟨m, hm, -, hid⟩ := hwin
      have hrec : packetId ∈ s.client.repeatBuf.recent :=
        (h.mem_recent hpos).mpr (List.mem_map.mpr ⟨m, hm, hid⟩)
      have hseen : (Mqtt.read s a).seen = s.seen := by simp [Mqtt.read, hpub, hknown]
      have hbuf := hmsg.repeatBuf
      have hdelivered := hmsg.delivered
      rw [add_recorded hrec hpos] at hbuf
      rw [if_pos hrec, List.append_nil] at hdelivered
      exact ⟨hheld, by rw [hseen, ← h.recent]; exact congrArg RepeatBuf.recent hbuf,
        by rw [hseen, ← h.delivered]; exact hdelivered, by rw [hseen]; exact h.nodup⟩
    · rw [if_neg hknown] at hwin
      have hrec : packetId ∉ s.client.repeatBuf.recent := fun hin =>
        hwin ((h.mem_recent hpos).mp hin)
      have hseen : (Mqtt.read s a).seen = ⟨a.2, packetId, msg⟩ :: s.seen := by
        simp [Mqtt.read, hpub, hknown]
      have hdelivered := hmsg.delivered
      rw [if_neg hrec] at hdelivered
      refine ⟨hheld, ?_, ?_, ?_⟩
      · rw [hseen]
        refine (congrArg RepeatBuf.recent hmsg.repeatBuf).trans ?_
        rw [recent_add hrec, h.recent, take_cons_take, List.map_cons, List.cons_append]
      · rw [hseen, List.reverse_cons, List.map_append, ← h.delivered]
        exact hdelivered
      · rw [hseen, List.map_cons, List.nodup_cons]
        exact ⟨hknown, h.nodup⟩

/-- The client of a reader runs as a client does. -/
theorem run_read_client : ∀ (as : List (Act × Nat)) (s : Reader),
    (run read s as).client = run act s.client (as.map (·.1)) := by
  intro as
  induction as with
  | nil => intro s; rfl
  | cons a as ih => intro s; exact ih (read s a)

/-- The messages delivered are those read, each once and in the order in which they are first
read. -/
structure DeliveredOnce (s : Reader) : Prop where
  delivered : deliveredIn s.client.log = s.seen.reverse.map SentMessage.msg
  nodup : (s.seen.map SentMessage.name).Nodup

/-- **Every message is delivered once**, across any number of sessions, as long as a new message
comes with an id that none of the last ten messages has, and a message that comes again is one of
the last ten. -/
theorem deliveredOnce_of_run (eventHandle : Option FnPtr) (nextPacketId : UInt16)
    (commandTimeoutMs : Nat) (options : MqttConnectParams) (as : List (Act × Nat))
    (h : Meets read InWindow
      ⟨Client.init eventHandle nextPacketId commandTimeoutMs options, []⟩ as) :
    DeliveredOnce
      (run read ⟨Client.init eventHandle nextPacketId commandTimeoutMs options, []⟩ as) := by
  have hinit : ReaderInv
      ⟨Client.init eventHandle nextPacketId commandTimeoutMs options, []⟩ :=
    ⟨rfl, recent_empty, rfl, List.nodup_nil⟩
  have hend := run_invariant ReaderInv (fun s a hs ha => hs.read ha) as hinit h
  exact ⟨hend.delivered, hend.nodup⟩

/-- A QoS 1 PUBLISH to topic "t" with this header byte, packet id and payload is read and
acknowledged. -/
def readPublish (header packetId : UInt8) (payload : Bytes) : Act :=
  .cycle 0 { reads := packetReads header ([0, 1, 116, 0, packetId] ++ payload)
             send := { writes := [(.retSuccess, 4)] } }

/-- The steps that open the session. -/
def sessionReads : List (Act × Nat) := sessionActs.map (·, 0)

/-- A message, its retransmission and a second message with another id. -/
theorem deliveredOnce_retransmitted : DeliveredOnce (run read ⟨freshClient, []⟩
    (sessionReads ++ [(readPublish 0x32 1 [], 0), (readPublish 0x3A 1 [], 0),
      (readPublish 0x32 2 [65], 1)])) := by
  refine deliveredOnce_of_run (some 1) 0 5000 ⟨60, true⟩ _ ?_
  decide

/-- **A new message is lost**: two messages come with the packet id 1, neither with the DUP flag and
the second after the first is acknowledged. The second is acknowledged too, and not delivered. -/
theorem reusedId_lost :
    let s := run read ⟨freshClient, []⟩ (sessionReads ++ [(readPublish 0x32 1 [], 0)])
    let s' := run read s [(readPublish 0x32 1 [65], 1)]
    sentIn s.client.log = [[0x40, 2, 0, 1]] ∧
      sentIn s'.client.log = [[0x40, 2, 0, 1], [0x40, 2, 0, 1]] ∧
      s'.seen.map (fun m => (m.name, m.packetId, m.msg.dup)) = [(1, 1, 0), (0, 1, 0)] ∧
      ¬ DeliveredOnce s' := by
  refine ⟨by decide, by decide, by decide, fun h => ?_⟩
  have hlost := congrArg List.length h.delivered
  revert hlost
  decide

end QcloudIot.Mqtt
