import QcloudIot.Mqtt.Runs

/-!
# Requests that fail

A request that returns an error has to leave the tables and wait lists as they were. Subscribe and
publish do: whatever fails, the node goes again and the stored filter with it. Unsubscribe clears
the slots it finds before it asks for the connection, allocates, serialises or sends, and no path
back restores them.

Results:
* `SubRefused.intact`, `PubRefused.intact`: what a refused request leaves;
* `map_clear_eq_iff`: when clearing leaves the table as it is;
* **`failedRequest_intact_iff`**: a request that fails leaves the books intact iff it is no
  unsubscribe that finds an occupied slot;
* `failedUnsubscribe_clears`: an unsubscribe whose packet is not sent empties its slot.
-/

namespace QcloudIot.Mqtt

open Lib

/-- A request of the application with what it meets. -/
inductive Request where
  | subscribe (topicFilter : Option Bytes) (pParams : Option SubscribeParams) (env : CallEnv)
  | unsubscribe (topicFilter : Option Bytes) (env : CallEnv)
  | publish (topicName : Option Bytes) (pParams : Option PublishParams) (env : CallEnv)

/-- The call. -/
def perform (c : Client) : Request → Except ReturnCode UInt16 × Client
  | .subscribe topicFilter pParams env => qcloudIotMqttSubscribe c topicFilter pParams env
  | .unsubscribe topicFilter env => qcloudIotMqttUnsubscribe c topicFilter env
  | .publish topicName pParams env => qcloudIotMqttPublish c topicName pParams env

/-- The valid nodes of the subscribe and unsubscribe requests. -/
def validSubs (c : Client) : List SubInfo := c.listSubWaitAck.filter (·.nodeState == .normal)

/-- The valid nodes of the publishes. -/
def validPubs (c : Client) : List PubInfo := c.listPubWaitAck.filter (·.nodeState == .normal)

/-- The books are as before: the slots, the wait lists up to the nodes marked invalid, and every
field but the packet id and the write buffer. -/
structure Intact (c c' : Client) : Prop where
  subHandles : c'.subHandles = c.subHandles
  listSub : validSubs c' = validSubs c
  listPub : validPubs c' = validPubs c
  rest : c' = { c with
    nextPacketId := c'.nextPacketId, writeBuf := c'.writeBuf
    listSubWaitAck := c'.listSubWaitAck, listPubWaitAck := c'.listPubWaitAck
    log := c'.log, nextAddr := c'.nextAddr }

theorem Kept.intact {c c' : Client} (h : Kept c c') : Intact c c' := by
  have hkept : c' = _ := h
  refine ⟨by rw [hkept], by rw [hkept]; rfl, by rw [hkept]; rfl, ?_⟩
  rw [hkept]

theorem SubRefused.intact {c c' : Client} (h : SubRefused c c') : Intact c c' := h.kept.intact

theorem PubRefused.intact {c c' : Client} (h : PubRefused c c') : Intact c c' := by
  refine Kept.intact ?_
  have hkept := h.kept
  unfold Kept
  rw [hkept]

/-- Clearing leaves a slot as it is iff the slot is not found or free. -/
theorem clearSlot_eq_iff {f : Bytes} {s : SubTopicHandle} :
    clearSlot f s = s ↔ (slotMatches f s = true → s.topicFilter = none) := by
  unfold clearSlot
  by_cases h : slotMatches f s = true
  · rw [if_pos h]
    constructor
    · exact fun heq _ => (congrArg SubTopicHandle.topicFilter heq).symm
    · intro hnone
      rw [← hnone h]
  · simp [h]

theorem map_clear_eq_iff {f : Bytes} {t : SubHandles} :
    t.map (clearSlot f) = t ↔
      ∀ s ∈ t.slots, slotMatches f s = true → s.topicFilter = none := by
  have hmap : t.map (clearSlot f) = t ↔ t.slots.map (clearSlot f) = t.slots.map id := by
    rw [List.map_id]
    exact ⟨congrArg SubHandles.slots, fun h => SubHandles.ext h⟩
  rw [hmap, List.map_inj_left]
  exact forall₂_congr fun _ _ => clearSlot_eq_iff

/-- A request's condition: an unsubscribe with a filter of allowed length gets its packet sent, or
finds no occupied slot. -/
def RollsBack (c : Client) : Request → Prop
  | .unsubscribe topicFilter env => ∀ topic, checkTopic topicFilter = .ok topic →
    (∃ packet, UnsubscribeGranted c env topic packet) ∨
      ∀ s ∈ c.subHandles.slots, slotMatches topic s = true → s.topicFilter = none
  | _ => True

/-- An unsubscribe that is refused after its slots are cleared. -/
theorem refusedUnsubscribe_intact_iff {c c' : Client} {topic : Bytes}
    (h : SubRefused (removeHandlers c topic) c') :
    Intact c c' ↔ ∀ s ∈ c.subHandles.slots, slotMatches topic s = true → s.topicFilter = none := by
  have hslots : c'.subHandles = c.subHandles.map (clearSlot topic) := by
    rw [h.intact.subHandles, removeHandlers_eq]
  rw [← map_clear_eq_iff, ← hslots]
  refine ⟨Intact.subHandles, fun hsame => ?_⟩
  have hkept := h.kept
  rw [removeHandlers_eq] at hkept
  refine Kept.intact ?_
  unfold Kept
  rw [hkept]
  simp [← hslots, hsame]

/-- **A request that fails leaves the books intact** exactly where it is no unsubscribe that has
found an occupied slot. -/
theorem failedRequest_intact_iff (c : Client) (r : Request) :
    (∀ rc, (perform c r).1 = .error rc → Intact c (perform c r).2) ↔ RollsBack c r := by
  cases r with
  | subscribe topicFilter pParams env =>
    refine iff_of_true (fun rc herr => ?_) trivial
    rcases subscribe_cases c topicFilter pParams env with ⟨_, _, _, -, hok, -⟩ | ⟨-, -, href⟩
    · exact absurd (hok.symm.trans herr) (by simp)
    · exact href.intact
  | publish topicName pParams env =>
    refine iff_of_true (fun rc herr => ?_) trivial
    rcases publish_cases c topicName pParams env with ⟨_, _, _, -, hok, -⟩ | ⟨-, -, href⟩
    · exact absurd (hok.symm.trans herr) (by simp)
    · exact href.intact
  | unsubscribe topicFilter env =>
    simp only [perform, RollsBack]
    rcases unsubscribe_cases c topicFilter env with ⟨rc, ht, heq⟩ |
      ⟨topic, ht, ⟨packet, hg, hok, -⟩ | ⟨hno, ⟨rc, herr⟩, href⟩⟩
    · refine iff_of_true (fun _ _ => ?_) fun _ h => absurd (ht.symm.trans h) (by simp)
      rw [heq]
      exact Kept.intact rfl
    · refine iff_of_true (fun _ herr => absurd (hok.symm.trans herr) (by simp)) fun topic' ht' => ?_
      obtain rfl := Except.ok.inj (ht.symm.trans ht')
      exact Or.inl ⟨packet, hg⟩
    · have hiff := refusedUnsubscribe_intact_iff href
      constructor
      · intro hintact topic' ht'
        obtain rfl := Except.ok.inj (ht.symm.trans ht')
        exact Or.inr (hiff.mp (hintact rc herr))
      · intro hrolls _ _
        rcases hrolls topic ht with ⟨packet, hg⟩ | hfree
        · exact absurd hg (hno packet)
        · exact hiff.mpr hfree

/-- An unsubscribe whose packet the network does not take fails, and its slot is empty. -/
theorem failedUnsubscribe_clears :
    let c := run act freshClient (sessionActs ++ [subscribeOnce, subackOnce])
    let r := perform c (.unsubscribe (some [116]) {})
    r.1 = .error .errMqttRequestTimeout ∧ ¬ Intact c r.2 := by
  refine ⟨by decide, fun h => ?_⟩
  have hslots := congrArg SubHandles.slots h.subHandles
  revert hslots
  decide

end QcloudIot.Mqtt
