import QcloudIot.Shadow.Requests

/-!
# Requests come to an end

What becomes of the callback of a request, over any run, and of the loops of `IOT_Shadow_Update_Sync`
and `IOT_Shadow_Get_Sync` that wait for it. A reply whose result code cannot be read removes the
request and tells it nothing.

* `completed_of_run`: in a run without such replies, the callback of a request has been called once
  when the request has left the list, and not before;
* `syncLoop_ends`, `syncLoop_stuck`: the loop ends once the callback has been called, and only then;
* **`requests_complete`**: both together.
-/

namespace QcloudIot.Shadow

open Lib

/-! ## Steps that tell -/

/-- A message that requests are waiting for has a result code that can be read. -/
def ReadsResult (c : Client) : Act → Prop
  | .inbound payload env =>
    (∃ r ∈ c.shadow.requestList, replyToken payload env.beyond = some r.clientToken) →
      (ackOf env.beyond (receivedDoc payload)).isSome
  | _ => True

instance (c : Client) : DecidablePred (ReadsResult c)
  | .inbound payload env => inferInstanceAs (Decidable
      ((∃ r ∈ c.shadow.requestList, replyToken payload env.beyond = some r.clientToken) →
        (ackOf env.beyond (receivedDoc payload)).isSome))
  | .publish _ _ _ _ _ => .isTrue trivial
  | .add _ _ => .isTrue trivial
  | .expire _ => .isTrue trivial

/-- The callback of a request that is listed has not been called; that of one that is not, once. -/
def Completed (c : Client) : Prop :=
  ∀ r ∈ addedIn c.shadow.log,
    (acks c.shadow.log r.id).length =
      (if r ∈ c.shadow.requestList ∨ r.callback = none then 0 else 1) ∧
    RequestAck.none ∉ acks c.shadow.log r.id

instance : DecidablePred Completed := fun c =>
  inferInstanceAs (Decidable (∀ r ∈ addedIn c.shadow.log,
    (acks c.shadow.log r.id).length =
      (if r ∈ c.shadow.requestList ∨ r.callback = none then 0 else 1) ∧
    RequestAck.none ∉ acks c.shadow.log r.id))

theorem ackOf_ne_none {beyond : Beyond} {doc : Bytes} {ack : RequestAck}
    (h : ackOf beyond doc = some ack) : ack ≠ .none := by
  obtain ⟨code, -, rfl⟩ := Option.map_eq_some_iff.mp h
  split <;> exact nofun

theorem completed_swept {c : Client} (h : Inv c) (hc : Completed c) {s : QcloudIotShadow}
    {p : Request → Bool} {ack : Option RequestAck} (hswept : Swept c.shadow s p ack)
    (htells : (∃ r ∈ c.shadow.requestList, p r = true) → ∃ a, ack = some a ∧ a ≠ .none) :
    Completed { c with shadow := s } := by
  intro r hr
  have hr' : r ∈ addedIn c.shadow.log := hswept.added ▸ hr
  have hmem : r ∈ s.requestList ↔ r ∈ c.shadow.requestList ∧ p r = false := by
    rw [hswept.list, List.mem_filter, Bool.not_eq_true']
  by_cases hswept' : r ∈ c.shadow.requestList ∧ p r = true
  · obtain ⟨hlisted, hp⟩ := hswept'
    obtain ⟨a, rfl, ha⟩ := htells ⟨r, hlisted, hp⟩
    have huntold := h.untold r.id (List.mem_append_right _ (List.mem_map.mpr ⟨r, hlisted, rfl⟩))
    have htold := hswept.acks_told r hlisted hp
    rw [huntold, List.nil_append] at htold
    have hgone : ¬ r ∈ s.requestList := fun hin => by
      rw [(hmem.mp hin).2] at hp
      exact absurd hp (by decide)
    simp only [htold, told]
    by_cases hcallback : r.callback = none
    · rw [if_pos hcallback, if_pos (.inr hcallback)]
      exact ⟨rfl, List.not_mem_nil⟩
    · rw [if_neg hcallback, if_neg (not_or.mpr ⟨hgone, hcallback⟩)]
      exact ⟨rfl, fun hin => ha (List.mem_singleton.mp hin).symm⟩
  · have hacks : acks s.log r.id = acks c.shadow.log r.id := by
      refine hswept.acks_other r.id fun q hq hp hid => hswept' ?_
      have heq := h.eq_of_id (h.listed_added q hq) hr' hid
      exact ⟨heq ▸ hq, heq ▸ hp⟩
    have hstays : r ∈ s.requestList ↔ r ∈ c.shadow.requestList := by
      rw [hmem, ← Bool.not_eq_true]
      exact ⟨fun hin => hin.1, fun hin => ⟨hin, fun hp => hswept' ⟨hin, hp⟩⟩⟩
    simp only [hacks, hstays]
    exact hc r hr'

theorem completed_step {c : Client} (h : Inv c) (hc : Completed c) {a : Act}
    (ha : ReadsResult c a) : Completed (c.step a) := by
  cases a with
  | publish doc sizeOfBuffer params rc beyond =>
    change Completed (c.publish doc sizeOfBuffer params rc beyond)
    unfold Client.publish
    split
    · exact hc
    split
    · exact hc
    split
    · exact hc
    · exact hc
  | add id env =>
    rcases c.add_cases id env with hsame | ⟨call, hcall, rfl, hdrop | ⟨-, hpush⟩⟩
    · rw [show c.step (.add id env) = c from hsame]
      exact hc
    · rw [show c.step (.add call.id env) = _ from hdrop]
      exact hc
    · rw [show c.step (.add call.id env) = _ from hpush]
      have hpending : call.id ∈ c.pending.map (·.id) := List.mem_map.mpr ⟨call, hcall, rfl⟩
      intro r hr
      have hlog : ∀ id, acks (c.shadow.log ++ [.added (call.request env)]) id = acks c.shadow.log id :=
        fun id => (acks_append _ _ id).trans (List.append_nil _)
      have hadded : r ∈ addedIn c.shadow.log ∨ r = call.request env := by
        rw [addedIn_append] at hr
        exact (List.mem_append.mp hr).imp_right List.mem_singleton.mp
      simp only [hlog]
      rcases hadded with hadded | rfl
      · have hne : r ≠ call.request env := by
          rintro rfl
          exact h.added_gone _ hadded hpending
        have hmem : r ∈ c.shadow.requestList ++ [call.request env] ↔ r ∈ c.shadow.requestList := by
          rw [List.mem_append, List.mem_singleton, or_iff_left hne]
        simp only [hmem]
        exact hc r hadded
      · rw [if_pos (.inl (List.mem_append_right _ List.mem_cons_self)),
          show (call.request env).id = call.id from rfl,
          h.untold call.id (List.mem_append_left _ hpending)]
        exact ⟨rfl, List.not_mem_nil⟩
  | inbound payload env =>
    refine completed_swept h hc (onOperationResult_swept h.list_ids payload env) ?_
    rintro ⟨r, hr, hp⟩
    rw [Bool.and_eq_true, decide_eq_true_iff] at hp
    obtain ⟨ack, hack⟩ := Option.isSome_iff_exists.mp (ha ⟨r, hr, hp.2⟩)
    exact ⟨ack, hack, ackOf_ne_none hack⟩
  | expire env =>
    exact completed_swept h hc (handleExpiredRequest_swept h.list_ids env) fun _ =>
      ⟨.timeout, rfl, nofun⟩

/-- In every run from here on. -/
theorem completed_from {c : Client} (h : Inv c) (hc : Completed c) {as : List Act}
    (hmeets : Meets Client.step ReadsResult c as) :
    Inv (run Client.step c as) ∧ Completed (run Client.step c as) :=
  run_invariant (fun c => Inv c ∧ Completed c)
    (fun _ a hinv ha => ⟨hinv.1.step a, completed_step hinv.1 hinv.2 ha⟩) as ⟨h, hc⟩ hmeets

/-- **Once when the request has left the list**, and not before. -/
theorem completed_of_run {as : List Act} (hmeets : Meets Client.step ReadsResult .init as) :
    Completed (run Client.step .init as) :=
  (completed_from inv_init (fun _ h => absurd h List.not_mem_nil) hmeets).2

/-! ## The loops that wait -/

/-- `ack_update`, which `_update_ack_cb` sets. -/
def ackUpdate (c : Client) (id : Nat) : RequestAck := (acks c.shadow.log id).getLastD .none

/-- `while (ACK_NONE == ack_update)` over the turns of the loop, each a yield with the messages it
handles, and what other threads do meanwhile; `none` where it has not come to its end. -/
def syncLoop (id : Nat) : Client → List (ExpireEnv × List Act) → Option RequestAck
  | c, [] => if ackUpdate c id = .none then none else some (ackUpdate c id)
  | c, (env, as) :: turns =>
    if ackUpdate c id = .none then syncLoop id (run Client.step (c.step (.expire env)) as) turns
    else some (ackUpdate c id)

/-- The steps of the turns. -/
def turnActs (turns : List (ExpireEnv × List Act)) : List Act :=
  turns.flatMap fun turn => .expire turn.1 :: turn.2

theorem syncLoop_done {id : Nat} {c : Client} (h : ackUpdate c id ≠ .none) :
    ∀ turns, syncLoop id c turns = some (ackUpdate c id)
  | [] => if_neg h
  | _ :: _ => if_neg h

/-- The callback of a request has been called once the request is no longer listed. -/
theorem ackUpdate_ne_none {c : Client} (hc : Completed c) {r : Request}
    (hr : r ∈ addedIn c.shadow.log) (hcallback : r.callback ≠ none)
    (hlisted : r ∉ c.shadow.requestList) : ackUpdate c r.id ≠ .none := by
  obtain ⟨hlen, hnone⟩ := hc r hr
  rw [if_neg (not_or.mpr ⟨hlisted, hcallback⟩)] at hlen
  obtain ⟨ack, hack⟩ := List.length_eq_one_iff.mp hlen
  rw [ackUpdate, hack]
  rw [hack] at hnone
  exact fun h => hnone (List.mem_singleton.mpr h.symm)

/-- Behind the list without a call of the callback, the loop goes on for good. -/
theorem syncLoop_stuck {id : Nat} {c : Client} (h : Inv c) (hgone : Gone c id)
    (hacks : acks c.shadow.log id = []) (turns : List (ExpireEnv × List Act)) :
    syncLoop id c turns = none := by
  induction turns generalizing c with
  | nil =>
    rw [syncLoop, ackUpdate, hacks]
    rfl
  | cons turn turns ih =>
    obtain ⟨env, as⟩ := turn
    have hrun := gone_run h hgone (.expire env :: as)
    rw [hacks] at hrun
    rw [syncLoop, ackUpdate, hacks]
    exact ih (run_preserves Inv (fun _ a h => h.step a) (.expire env :: as) h) hrun.1 hrun.2

theorem added_step {c : Client} (h : Inv c) {r : Request} (hr : r ∈ addedIn c.shadow.log) (a : Act) :
    r ∈ addedIn (c.step a).shadow.log := by
  cases a with
  | publish doc sizeOfBuffer params rc beyond =>
    change r ∈ addedIn (c.publish doc sizeOfBuffer params rc beyond).shadow.log
    unfold Client.publish
    split
    · exact hr
    split
    · exact hr
    split
    · exact hr
    · exact hr
  | add id env =>
    rcases c.add_cases id env with hsame | ⟨call, -, rfl, hdrop | ⟨-, hpush⟩⟩
    · rwa [show c.step (.add id env) = c from hsame]
    · rwa [show c.step (.add call.id env) = _ from hdrop]
    · rw [show c.step (.add call.id env) = _ from hpush, addedIn_append]
      exact List.mem_append_left _ hr
  | inbound payload env => exact (onOperationResult_swept h.list_ids payload env).added.symm ▸ hr
  | expire env => exact (handleExpiredRequest_swept h.list_ids env).added.symm ▸ hr

theorem added_run {r : Request} {c : Client} (h : Inv c) (hr : r ∈ addedIn c.shadow.log)
    (as : List Act) : r ∈ addedIn (run Client.step c as).shadow.log := by
  induction as generalizing c with
  | nil => exact hr
  | cons a as ih => exact ih (h.step a) (added_step h hr a)

/-- **The loop ends** once the request has been answered, or a yield finds it expired and has memory
for its iterator. -/
theorem syncLoop_ends {r : Request} (hcallback : r.callback ≠ none) :
    ∀ {turns : List (ExpireEnv × List Act)} {c : Client} (_ : Inv c) (_ : Completed c)
      (_ : r ∈ addedIn c.shadow.log) (_ : Meets Client.step ReadsResult c (turnActs turns))
      (_ : r ∉ c.shadow.requestList ∨ ∃ turn ∈ turns, turn.1.iterOk = true ∧ r.timer ≤ turn.1.clock),
      ∃ ack, syncLoop r.id c turns = some ack ∧ ack ≠ .none
  | turns, c, h, hc, hr, hmeets, hends => by
    by_cases hlisted : r ∈ c.shadow.requestList
    · have hlate := hends.resolve_left (not_not.mpr hlisted)
      cases turns with
      | nil =>
        obtain ⟨_, hin, -⟩ := hlate
        exact absurd hin List.not_mem_nil
      | cons turn turns =>
        obtain ⟨env, as⟩ := turn
        have hmeets' : Meets Client.step ReadsResult c ((.expire env :: as) ++ turnActs turns) := hmeets
        obtain ⟨hturn, hrest⟩ := meets_append.mp hmeets'
        have hinv := h.step (.expire env)
        obtain ⟨hnext, hcnext⟩ := completed_from h hc hturn
        have hadded := added_run h hr (.expire env :: as)
        have hstop : r ∉ (run Client.step c (.expire env :: as)).shadow.requestList ∨
            ∃ turn ∈ turns, turn.1.iterOk = true ∧ r.timer ≤ turn.1.clock := by
          obtain ⟨late, hin, hiter, htime⟩ := hlate
          rcases List.mem_cons.mp hin with rfl | hin
          · left
            have hswept := handleExpiredRequest_swept h.list_ids env
            have hremoved : r ∉ (c.step (.expire env)).shadow.requestList := by
              intro hin
              rw [show (c.step (.expire env)).shadow.requestList = _ from hswept.list] at hin
              have hnot := (List.mem_filter.mp hin).2
              simp only [show env.iterOk = true from hiter, Bool.true_and,
                decide_eq_true (show r.timer ≤ env.clock from htime)] at hnot
              exact absurd hnot (by decide)
            have hgone := hinv.gone (added_step h hr (.expire env)) hremoved
            intro hin
            exact (gone_run hinv hgone as).1.2.2 (List.mem_map.mpr ⟨r, hin, rfl⟩)
          · exact .inr ⟨late, hin, hiter, htime⟩
        rw [syncLoop]
        split
        · exact syncLoop_ends hcallback hnext hcnext hadded hrest hstop
        · rename_i hack
          exact ⟨_, rfl, hack⟩
    · have hack := ackUpdate_ne_none hc hr hcallback hlisted
      exact ⟨_, syncLoop_done hack turns, hack⟩

/-- A request with the token `t`, function 1 for its callback and five seconds of time. -/
def oneRequest : List Act :=
  [.publish (ascii "\x7b\"clientToken\":\"t\"\x7d") 100 ⟨.update, 5, some 1, 0⟩ 0 {}, .add 0 {}]

/-- Two turns of the loop: a reply for another token, and the time is up. -/
def twoTurns : List (ExpireEnv × List Act) :=
  [({ clock := 200 }, [.inbound (ascii "\x7b\"type\":\"update\",\"clientToken\":\"u\"\x7d") {}]),
    ({ clock := 6000 }, [])]

/-- The reply for the token, without a result code. -/
def noResult : List Act :=
  oneRequest ++ [.inbound (ascii "\x7b\"type\":\"update\",\"clientToken\":\"t\"\x7d") {}]

end QcloudIot.Shadow
