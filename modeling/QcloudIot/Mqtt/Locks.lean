import QcloudIot.Mqtt.Runs

/-!
# Callbacks and mutexes

The mutexes of a client are not recursive, so a callback made while one of them is held must not
call the client. Three places make such calls: `qcloud_iot_mqtt_unsubscribe` tells a slot's
`sub_event_handler` under `lock_generic`, `_handle_unsuback_packet` tells the application under
it, and both sweeps report timeouts under the mutex of their list. Everything else calls back with
no mutex held.

Results:
* `ActStep.locks`: a step makes no callback under a mutex iff it is `LockFree`;
* **`run_locked_iff`**: a run makes none iff every step is;
* `publishTimeout_locked`: a publish that times out makes one.
-/

namespace QcloudIot.Mqtt

open Lib

/-- The step is none that calls back under a mutex: an unsubscribe finds no slot with a
`sub_event_handler`; and, where the application can be told, no UNSUBACK is handled and no sweep
times anything out. -/
def LockFree (c : Client) : Act → Prop
  | .unsubscribe topicFilter _ => ∀ topic, checkTopic topicFilter = .ok topic →
    ∀ s ∈ c.subHandles.slots, slotMatches topic s = true → s.subEventHandler = none
  | .cycle packetType env =>
    c.eventHandle = none ∨ ∀ id, inboundOf c packetType env ≠ some (.unsuback id)
  | .pubInfoProc env => c.eventHandle = none ∨ expiredPubs c env = []
  | .subInfoProc env => c.eventHandle = none ∨ expiredSubs c env = []
  | _ => True

theorem lockFree_of_quiet {c : Client} {a : Act} (hquiet : a.quiet = true) : LockFree c a := by
  cases a <;> trivial

/-- From `c` to `c'` callbacks are made under a mutex unless `p`. -/
def LocksUnless (p : Prop) (c c' : Client) : Prop :=
  ∃ new, lockedIn c'.log = lockedIn c.log ++ new ∧ (new = [] ↔ p)

theorem LocksUnless.of_eq {p : Prop} {c c' : Client} (hp : p) (h : lockedIn c'.log = lockedIn c.log) :
    LocksUnless p c c' :=
  ⟨[], by rw [h, List.append_nil], iff_of_true rfl hp⟩

/-- An UNSUBACK is the acknowledgement that calls back under a mutex. -/
theorem InboundStep.locks {env : CycleEnv} {c c' : Client} {pkt : Inbound} (h : InboundStep env c pkt c')
    (hheld : c.held = []) :
    LocksUnless (c.eventHandle = none ∨ ∀ id, pkt ≠ .unsuback id) c c' := by
  cases h with
  | puback p => exact .of_eq (Or.inr fun _ => by simp) (by simp [hheld])
  | suback h => exact .of_eq (Or.inr fun _ => by simp) (h.locked hheld)
  | unsuback p =>
    refine ⟨c.eventHandle.toList.map fun f => .event f .unsubcribeSuccess p, by simp, ?_⟩
    cases c.eventHandle <;> simp
  | @publish packetId msg _ _ h =>
    refine .of_eq (Or.inr fun _ => by simp) (h.locked.trans ?_)
    simp only [receivePublish]
    split <;> simp

/-- What follows without a callback under a mutex. -/
theorem LocksUnless.then {p : Prop} {c c' c'' : Client} (h : LocksUnless p c c')
    (hsame : lockedIn c''.log = lockedIn c'.log) : LocksUnless p c c'' := by
  obtain ⟨new, hnew, hiff⟩ := h
  exact ⟨new, hsame.trans hnew, hiff⟩

/-- An unsubscribe calls the handlers of the slots it clears under `lock_generic`. -/
theorem removeHandlers_locks {c : Client} {topicFilter : Option Bytes} {topic : Bytes}
    {env : CallEnv} (hheld : c.held = []) (ht : checkTopic topicFilter = .ok topic) :
    LocksUnless (LockFree c (.unsubscribe topicFilter env)) c (removeHandlers c topic) := by
  refine ⟨lockedIn (c.subHandles.slots.flatMap (clearEvents topic [.generic])), ?_, ?_⟩
  · simp [removeHandlers_eq, hheld]
  · rw [lockedIn_clear topic [.generic] c.subHandles.slots (by simp)]
    simp only [LockFree]
    constructor
    · intro h topic' ht'
      obtain rfl := Except.ok.inj (ht.symm.trans ht')
      exact h
    · exact fun h => h topic ht

/-- **A step** makes no callback under a mutex iff it is lock-free. -/
theorem ActStep.locks {c c' : Client} {a : Act} (h : ActStep c a c') (hheld : c.held = []) :
    LocksUnless (LockFree c a) c c' := by
  cases h with
  | quiet hquiet h => exact .of_eq (lockFree_of_quiet hquiet) h.locked
  | subscribed _ h => exact .of_eq trivial h.log.locked
  | subscribeRefused h =>
    obtain ⟨_, hlog⟩ := h.logged
    exact .of_eq trivial hlog.locked
  | unsubscribeInvalid herr => exact .of_eq (fun _ ht => absurd (herr.symm.trans ht) (by simp)) rfl
  | unsubscribed ht h => exact (removeHandlers_locks hheld ht).then h.log.locked
  | unsubscribeRefused ht h =>
    obtain ⟨_, hlog⟩ := h.logged
    exact (removeHandlers_locks hheld ht).then hlog.locked
  | published _ h =>
    split
    · exact .of_eq trivial (by simp [h.log.locked])
    · exact .of_eq trivial h.log.locked
  | publishRefused h => exact .of_eq trivial h.log.locked
  | inbound hpkt h1 hstep h2 =>
    obtain ⟨new, hnew, hiff⟩ := hstep.locks (h1.held.trans hheld)
    refine ⟨new, by rw [h2.locked, hnew, h1.locked], hiff.trans ?_⟩
    simp only [LockFree, h1.eventHandle, hpkt, ne_eq, Option.some.injEq]
  | noInbound hnone h => exact .of_eq (Or.inr fun id => by simp [hnone]) h.locked
  | pubSwept env =>
    refine ⟨lockedIn ((expiredPubs c env).reverse.flatMap (pubTimeoutEvents (c.lock .listPub))),
      by simp, ?_⟩
    rw [lockedIn_pubTimeout (by simp)]
    simp [LockFree]
  | subSwept env =>
    refine ⟨lockedIn ((expiredSubs c env).reverse.flatMap (subTimeoutEvents (c.lock .listSub))),
      by simp, ?_⟩
    rw [lockedIn_subTimeout (by simp)]
    simp [LockFree]

/-- **When callbacks may use the client**: a run makes no callback under a mutex iff every step of
it is lock-free. -/
theorem run_locked_iff (eventHandle : Option FnPtr) (nextPacketId : UInt16) (commandTimeoutMs : Nat)
    (options : MqttConnectParams) (as : List Act) :
    lockedIn (run act (Client.init eventHandle nextPacketId commandTimeoutMs options) as).log = [] ↔
      Meets act LockFree (Client.init eventHandle nextPacketId commandTimeoutMs options) as := by
  obtain ⟨new, hview, hiff⟩ := run_view (fun c : Client => lockedIn c.log)
    (fun c => c.held = []) (fun c a h => (act_sameThread a h).held.trans h)
    (fun _ a h => (act_step a h).locks h)
    (s := Client.init eventHandle nextPacketId commandTimeoutMs options) as rfl
  rw [← hiff, hview]
  exact Iff.rfl

/-- A publish that times out is reported to the application, which may want to publish again, under
`lock_list_pub`. -/
theorem publishTimeout_locked : lockedIn (run act freshClient
    (sessionActs ++ [publishOnce, .pubInfoProc { clock := fun _ => 6000 }])).log ≠ [] := by
  decide

end QcloudIot.Mqtt
