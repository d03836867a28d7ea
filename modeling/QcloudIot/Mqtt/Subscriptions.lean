import QcloudIot.Mqtt.Runs

/-!
# The subscription table

`qcloud_iot_mqtt_unsubscribe` and `qcloud_iot_mqtt_is_sub_ready` look for the slots that hold their
argument, by string comparison. Both also take any slot, occupied or not, when the argument itself
contains `/#` or `/+`: no filter of the table is matched against it.

Results:
* `unsubscribe_subHandles`, `isSubReady_iff`: what the two functions do and answer;
* `clearSlot_eq_clearHolder_iff`, `any_slotMatches_iff`: the loops against their purpose;
* **`exactUnsubscribe_iff`**: unsubscribing `f` is exact iff `f` is no such filter, or all the
  occupied slots hold it;
* `wildcardUnsubscribe_empties`: unsubscribing `x/#` empties the slot of "t".
-/

namespace QcloudIot.Mqtt

open Lib

/-- The slot is occupied by the filter `f`. -/
def SubTopicHandle.holds (f : Bytes) (slot : SubTopicHandle) : Bool :=
  slot.topicFilter.any (·.str == f)

/-- The slot without its filter, if this is `f`. -/
def clearHolder (f : Bytes) (slot : SubTopicHandle) : SubTopicHandle :=
  if slot.holds f then { slot with topicFilter := none } else slot

/-- Unsubscribing `f` empties the slots that hold `f` and no others, `f` is reported ready iff a slot
holds it, and the report for any other filter is as before. -/
structure ExactUnsubscribe (c : Client) (f : Bytes) (env : CallEnv) : Prop where
  slots : (qcloudIotMqttUnsubscribe c (some f) env).2.subHandles.slots =
    c.subHandles.slots.map (clearHolder f)
  ready : (qcloudIotMqttIsSubReady c (some f)).1 = true ↔ ∃ s ∈ c.subHandles.slots, s.holds f = true
  others : ∀ g ≠ f, (qcloudIotMqttIsSubReady (qcloudIotMqttUnsubscribe c (some f) env).2 (some g)).1 =
    (qcloudIotMqttIsSubReady c (some g)).1

/-! ## What the two functions do -/

theorem slotMatches_eq (f : Bytes) (slot : SubTopicHandle) :
    slotMatches f slot = (slot.holds f || hasWildcard f) := by
  unfold slotMatches SubTopicHandle.holds
  cases slot.topicFilter <;> rfl

/-- **The slots after an unsubscribe**, whatever it returns. -/
theorem unsubscribe_subHandles (c : Client) (f : Bytes) (env : CallEnv) :
    (qcloudIotMqttUnsubscribe c (some f) env).2.subHandles =
      match checkTopic (some f) with
      | .error _ => c.subHandles
      | .ok _ => c.subHandles.map (clearSlot f) := by
  rcases unsubscribe_cases c (some f) env with ⟨rc, ht, heq⟩ |
    ⟨topic, ht, ⟨_, -, -, hacc⟩ | ⟨-, -, href⟩⟩
  · rw [ht, heq]
  · obtain rfl := checkTopic_ok ht
    rw [ht, hacc.kept, removeHandlers_eq]
  · obtain rfl := checkTopic_ok ht
    have hkept := href.kept
    rw [removeHandlers_eq] at hkept
    rw [ht, hkept]

/-- **What `is_sub_ready` answers.** -/
theorem isSubReady_iff (c : Client) (g : Bytes) :
    (qcloudIotMqttIsSubReady c (some g)).1 = true ↔
      (∃ topic, checkTopic (some g) = .ok topic) ∧ c.subHandles.slots.any (slotMatches g) = true := by
  unfold qcloudIotMqttIsSubReady
  cases ht : checkTopic (some g) with
  | error rc => simp
  | ok topic =>
    obtain rfl := checkTopic_ok ht
    simp

/-- There is always a slot. -/
theorem slots_ne_nil (t : SubHandles) : t.slots ≠ [] := by
  intro h
  have hlen := t.length_eq
  rw [h] at hlen
  exact absurd hlen (by decide)

/-- A slot is found iff one holds the filter, or the filter has a wildcard. -/
theorem any_slotMatches_iff (t : SubHandles) (f : Bytes) :
    t.slots.any (slotMatches f) = true ↔
      (∃ s ∈ t.slots, s.holds f = true) ∨ hasWildcard f = true := by
  simp only [List.any_eq_true, slotMatches_eq, Bool.or_eq_true]
  constructor
  · rintro ⟨s, hs, hholds | hwild⟩
    · exact Or.inl ⟨s, hs, hholds⟩
    · exact Or.inr hwild
  · rintro (⟨s, hs, hholds⟩ | hwild)
    · exact ⟨s, hs, Or.inl hholds⟩
    · obtain ⟨s, hs⟩ := List.exists_mem_of_ne_nil _ (slots_ne_nil t)
      exact ⟨s, hs, Or.inr hwild⟩

/-- The loop clears what it should of a slot iff the filter has no wildcard, or the slot is free or
holds it. -/
theorem clearSlot_eq_clearHolder_iff {f : Bytes} {s : SubTopicHandle} :
    clearSlot f s = clearHolder f s ↔
      (hasWildcard f = true → s.topicFilter.isSome = true → s.holds f = true) := by
  unfold clearSlot clearHolder
  rw [slotMatches_eq]
  cases hholds : s.holds f with
  | true => simp
  | false =>
    cases hwild : hasWildcard f with
    | false => simp
    | true =>
      simp only [Bool.or_true, if_true, Bool.false_eq_true, if_false, imp_false, true_implies,
        Bool.not_eq_true, Option.isSome_eq_false_iff, Option.isNone_iff_eq_none]
      constructor
      · exact fun heq => (congrArg SubTopicHandle.topicFilter heq).symm
      · intro hnone
        rw [← hnone]

/-- A slot that holds `g` still does when another filter has been cleared. -/
theorem holds_clearHolder {f g : Bytes} (hne : g ≠ f) (s : SubTopicHandle) :
    (clearHolder f s).holds g = s.holds g := by
  unfold clearHolder
  by_cases h : s.holds f = true
  · rw [if_pos h]
    unfold SubTopicHandle.holds at h ⊢
    cases hf : s.topicFilter with
    | none => rfl
    | some filter =>
      rw [hf] at h
      have hstr : filter.str = f := by simpa using h
      have hne' : ¬ f = g := fun heq => hne heq.symm
      simp [hstr, hne']
  · rw [if_neg h]

/-- Exact clearing leaves the report for every other filter as it is. -/
theorem isSubReady_clearHolder {c c' : Client} {f g : Bytes} (hne : g ≠ f)
    (hslots : c'.subHandles.slots = c.subHandles.slots.map (clearHolder f)) :
    (qcloudIotMqttIsSubReady c' (some g)).1 = (qcloudIotMqttIsSubReady c (some g)).1 := by
  rw [Bool.eq_iff_iff, isSubReady_iff, isSubReady_iff, any_slotMatches_iff, any_slotMatches_iff, hslots]
  simp only [List.mem_map, exists_exists_and_eq_and, holds_clearHolder hne]

/-! ## When unsubscribing is exact -/

/-- The condition: with `/#` or `/+` in it the filter is the one that all the occupied slots hold,
of which there is one; and no slot holds a filter that the argument check rejects. -/
def UnsubscribesExactly (c : Client) (f : Bytes) : Prop :=
  match checkTopic (some f) with
  | .error _ => ∀ s ∈ c.subHandles.slots, s.holds f = false
  | .ok _ => hasWildcard f = true →
    (∀ s ∈ c.subHandles.slots, s.topicFilter.isSome = true → s.holds f = true) ∧
      ∃ s ∈ c.subHandles.slots, s.holds f = true

/-- **When unsubscribing is exact**: for every table and every filter, it is iff the filter is not
one that clears slots that do not hold it. -/
theorem exactUnsubscribe_iff (c : Client) (f : Bytes) (env : CallEnv) :
    ExactUnsubscribe c f env ↔ UnsubscribesExactly c f := by
  have hslots := unsubscribe_subHandles c f env
  unfold UnsubscribesExactly
  cases ht : checkTopic (some f) with
  | error rc =>
    rw [ht] at hslots
    have hnot : ¬ (qcloudIotMqttIsSubReady c (some f)).1 = true := by
      rw [isSubReady_iff, ht]
      simp
    constructor
    · intro h s hs
      by_contra hholds
      exact hnot (h.ready.mpr ⟨s, hs, by simpa using hholds⟩)
    · intro hnone
      have hclear : c.subHandles.slots.map (clearHolder f) = c.subHandles.slots := by
        refine (List.map_congr_left fun s hs => ?_).trans (List.map_id _)
        rw [clearHolder, hnone s hs]
        rfl
      have hexact : (qcloudIotMqttUnsubscribe c (some f) env).2.subHandles.slots =
          c.subHandles.slots.map (clearHolder f) := by rw [hslots, hclear]
      refine ⟨hexact, iff_of_false hnot ?_, fun g hne => isSubReady_clearHolder hne hexact⟩
      rintro ⟨s, hs, hholds⟩
      exact absurd ((hnone s hs).symm.trans hholds) (by simp)
  | ok topic =>
    rw [ht] at hslots
    have hexact : (qcloudIotMqttUnsubscribe c (some f) env).2.subHandles.slots =
        c.subHandles.slots.map (clearHolder f) ↔ ∀ s ∈ c.subHandles.slots, hasWildcard f = true →
          s.topicFilter.isSome = true → s.holds f = true := by
      rw [hslots, SubHandles.map, List.map_inj_left]
      exact forall₂_congr fun _ _ => clearSlot_eq_clearHolder_iff
    have hready : ((qcloudIotMqttIsSubReady c (some f)).1 = true ↔
        ∃ s ∈ c.subHandles.slots, s.holds f = true) ↔
          (hasWildcard f = true → ∃ s ∈ c.subHandles.slots, s.holds f = true) := by
      rw [isSubReady_iff, any_slotMatches_iff, ht]
      simp only [Except.ok.injEq, exists_eq', true_and, or_iff_left_iff_imp]
    constructor
    · intro h hwild
      exact ⟨fun s hs => hexact.mp h.slots s hs hwild, hready.mp h.ready hwild⟩
    · intro h
      have hall := hexact.mpr fun s hs hwild => (h hwild).1 s hs
      exact ⟨hall, hready.mpr fun hwild => (h hwild).2, fun g hne => isSubReady_clearHolder hne hall⟩

/-- Unsubscribing "x/#", which nobody has subscribed to, empties the slot of "t". -/
theorem wildcardUnsubscribe_empties :
    let c := run act freshClient (sessionActs ++ [subscribeOnce, subackOnce])
    (qcloudIotMqttIsSubReady c (some [116])).1 = true ∧
      (qcloudIotMqttIsSubReady (qcloudIotMqttUnsubscribe c (some [120, 47, 35]) {}).2
        (some [116])).1 = false ∧
      ¬ ExactUnsubscribe c [120, 47, 35] {} := by
  refine ⟨by decide, by decide, fun h => ?_⟩
  have hothers := h.others [116] (by decide)
  revert hothers
  decide

end QcloudIot.Mqtt
