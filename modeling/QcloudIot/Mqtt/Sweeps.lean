import QcloudIot.Lib.LinkedList
import QcloudIot.Mqtt.Session

/-!
# The sweeps over the linked wait lists

`qcloud_iot_mqtt_pub_info_proc` and `qcloud_iot_mqtt_sub_info_proc` on the doubly linked lists of
`utils_list.c`: a node is put aside when it is visited and removed after the iterator has moved on.
A node is only made around a value, so its value is never NULL.

* `pubInfoProc_list`, `subInfoProc_list`: a call ends without touching a node that is freed, and the
  links then spell what stays;
* `pubInfoProc_refines`, `subInfoProc_refines`: it does what `qcloudIotMqttPubInfoProc` and
  `qcloudIotMqttSubInfoProc` do to the values;
* **`waitLists_swept`**: what one call removes, keeps and reports.

A call whose iterator cannot be allocated leaves the list as it is and reports nothing
(`pubInfoProc_noIterator`).
-/

namespace QcloudIot.Mqtt

open Lib

/-! ## The calls on the linked lists -/

/-- One round of the loop of `qcloud_iot_mqtt_pub_info_proc`: whether the node is put aside. The state
is the client and the number of nodes visited. -/
def pubVisit (clock : Nat → Nat) (s : Client × Nat) (n : PubInfo) : Bool × Client × Nat :=
  let (c, k) := s
  if n.nodeState = .invalid then (true, c, k + 1)
  else if ¬ c.isConnected then (false, c, k + 1)
  else if n.pubStartTime > clock k then (false, c, k + 1)
  else
    let c := (c.unlock .listPub).lock .listPub
    (true, c.notify .publishTimeout n.msgId, k + 1)

/-- One round of the loop of `qcloud_iot_mqtt_sub_info_proc`. -/
def subVisit (clock : Nat → Nat) (s : Client × Nat) (n : SubInfo) : Bool × Client × Nat :=
  let (c, k) := s
  if n.nodeState = .invalid then (true, c, k + 1)
  else if ¬ c.isConnected then (false, c, k + 1)
  else if n.subStartTime > clock k then (false, c, k + 1)
  else (true, (notifySubTimeout c n).free n.handler.topicFilter, k + 1)

/-- What both sweeps are: the mutex of the list, the two reasons to leave at once, and the loop from
the tail. -/
def infoProc {α : Type*} (listLock : Lock) (visit : Client × Nat → α → Bool × Client × Nat)
    (l : LinkedList α) (c : Client) (env : SweepEnv) : Option (LinkedList α × Client) :=
  let c := c.lock listLock
  if l.len = 0 ∨ ¬ env.iterOk then some (l, c.unlock listLock)
  else (l.sweepLoop visit (l.len + 1) l.tail none (c, 0)).map fun r => (r.1, r.2.1.unlock listLock)

/-- `qcloud_iot_mqtt_pub_info_proc` on `list_pub_wait_ack`. -/
def pubInfoProc (l : LinkedList PubInfo) (c : Client) (env : SweepEnv) :
    Option (LinkedList PubInfo × Client) :=
  infoProc .listPub (pubVisit env.clock) l c env

/-- `qcloud_iot_mqtt_sub_info_proc` on `list_sub_wait_ack`. -/
def subInfoProc (l : LinkedList SubInfo) (c : Client) (env : SweepEnv) :
    Option (LinkedList SubInfo × Client) :=
  infoProc .listSub (subVisit env.clock) l c env

/-- The nodes of a wait list that pass a test, which also sees the number of nodes visited before. -/
def selected {α : Type*} (p : Nat → α → Bool) (as : List (Nat × α)) : List (Nat × α) :=
  tailFilter (fun k a => p k a.2) as

theorem selected_values {α : Type*} (p : Nat → α → Bool) (as : List (Nat × α)) :
    (selected p as).map Prod.snd = tailFilter p (as.map Prod.snd) := by
  induction as with
  | nil => rfl
  | cons a as ih =>
    rw [selected, tailFilter, List.map_cons, tailFilter, List.length_map, ← ih]
    split <;> rfl

/-! ## What a call does -/

/-- The nodes that stay. -/
def keptNodes {α : Type*} (stays : Nat → α → Bool) (env : SweepEnv) (as : List (Nat × α)) :
    List (Nat × α) :=
  if env.iterOk then selected stays as else as

/-- The nodes that are reported, in the order of the reports. -/
def reportedNodes {α : Type*} (expires : Nat → α → Bool) (env : SweepEnv) (as : List (Nat × α)) :
    List (Nat × α) :=
  if env.iterOk then (selected expires as).reverse else []

section InfoProc

variable {α : Type*} {visit : Client × Nat → α → Bool × Client × Nat} {stays expires : Nat → α → Bool}
variable {report : α → List Ev} {c : Client}

/-- A sweep whose rounds keep what passes `stays` and report what passes `expires`. -/
theorem sweep_selected
    (hvisit : ∀ log k x, visit ({ c with log := log }, k) x = (!stays k x,
      { c with log := log ++ if expires k x then report x else [] }, k + 1)) (as : List (Nat × α)) :
    sweep visit (c, 0) as = (selected stays as,
      { c with log := c.log ++ (selected expires as).reverse.flatMap fun a => report a.2 },
        as.length) := by
  induction as with
  | nil => simp [sweep, selected, tailFilter]
  | cons a as ih =>
    rw [sweep, ih]
    simp only [hvisit, selected, tailFilter]
    by_cases hs : stays as.length a.2 = true <;> by_cases he : expires as.length a.2 = true <;>
      simp [hs, he]

theorem infoProc_list {listLock : Lock} {env : SweepEnv} {l : LinkedList α} {as : List (Nat × α)}
    (h : Spells l as) (hvisit : ∀ log k x, visit ({ c.lock listLock with log := log }, k) x =
      (!stays k x, { c.lock listLock with log := log ++ if expires k x then report x else [] }, k + 1)) :
    ∃ l', infoProc listLock visit l c env = some (l', { c with log := c.log ++ ([.lock listLock] ++
        (reportedNodes expires env as).flatMap (fun a => report a.2) ++ [.unlock listLock]) }) ∧
      Spells l' (keptNodes stays env as) := by
  unfold infoProc keptNodes reportedNodes
  by_cases hiter : env.iterOk = true
  swap
  · exact ⟨l, by simp [hiter, Client.lock, Client.unlock], by simpa [hiter] using h⟩
  by_cases hlen : l.len = 0
  · obtain rfl := List.eq_nil_of_length_eq_zero (h.len.symm.trans hlen)
    exact ⟨l, by simp [hiter, hlen, Client.lock, Client.unlock, selected, tailFilter],
      by simpa [selected, tailFilter] using h⟩
  obtain ⟨l', hloop, h'⟩ : ∃ l', l.sweepLoop visit (l.len + 1) (lastAddr as)
        ((none : Option (Nat × α)).map Prod.fst) (c.lock listLock, 0) =
          some (l', (sweep visit (c.lock listLock, 0) as).2) ∧
      Spells l' ((sweep visit (c.lock listLock, 0) as).1 ++ []) :=
    sweepLoop_eq none (by simpa using h) (by rw [h.len]; omega)
  rw [sweep_selected hvisit] at hloop h'
  rw [Option.map_none] at hloop
  refine ⟨l', ?_, by simpa [hiter] using h'⟩
  rw [h.tail]
  simp [hiter, hlen, hloop, Client.unlock]

end InfoProc

theorem pubVisit_eq (clock : Nat → Nat) (c : Client) (log : List Ev) (k : Nat) (n : PubInfo)
    {held : List Lock} (hheld : c.held = .listPub :: held) :
    pubVisit clock ({ c with log := log }, k) n = (!pubStays c.isConnected clock k n,
      { c with log := log ++ if pubExpires c.isConnected clock k n then pubTimeoutEvents c n else [] },
      k + 1) := by
  unfold pubVisit pubStays pubExpires
  cases hstate : n.nodeState with
  | invalid => simp [nodeStays, nodeExpires]
  | normal =>
    cases hconn : c.isConnected with
    | false => simp [nodeStays, nodeExpires]
    | true =>
      by_cases ht : n.pubStartTime > clock k
      · simp [nodeStays, nodeExpires, ht, Nat.not_le.mpr ht]
      · simp [nodeStays, nodeExpires, ht, Nat.le_of_not_lt ht, pubTimeoutEvents, Client.notify_eq,
          Client.lock, Client.unlock, hheld]

theorem subVisit_eq (clock : Nat → Nat) (c : Client) (log : List Ev) (k : Nat) (n : SubInfo) :
    subVisit clock ({ c with log := log }, k) n = (!subStays c.isConnected clock k n,
      { c with log := log ++ if subExpires c.isConnected clock k n then subTimeoutEvents c n else [] },
      k + 1) := by
  unfold subVisit subStays subExpires
  cases hstate : n.nodeState with
  | invalid => simp [nodeStays, nodeExpires]
  | normal =>
    cases hconn : c.isConnected with
    | false => simp [nodeStays, nodeExpires]
    | true =>
      by_cases ht : n.subStartTime > clock k
      · simp [nodeStays, nodeExpires, ht, Nat.not_le.mpr ht]
      · simp only [nodeStays, nodeExpires, ht, notifySubTimeout_free_eq]
        simp [Nat.le_of_not_lt ht, subTimeoutEvents]

/-- **`qcloud_iot_mqtt_pub_info_proc`** on a list whose links spell `as`. -/
theorem pubInfoProc_list {l : LinkedList PubInfo} {as : List (Nat × PubInfo)} (h : Spells l as)
    (c : Client) (env : SweepEnv) :
    ∃ l', pubInfoProc l c env = some (l', { c with log := c.log ++ ([.lock .listPub] ++
        (reportedNodes (pubExpires c.isConnected env.clock) env as).flatMap
          (fun a => pubTimeoutEvents (c.lock .listPub) a.2) ++ [.unlock .listPub]) }) ∧
      Spells l' (keptNodes (pubStays c.isConnected env.clock) env as) :=
  infoProc_list h fun log k n => pubVisit_eq env.clock (c.lock .listPub) log k n rfl

/-- **`qcloud_iot_mqtt_sub_info_proc`.** -/
theorem subInfoProc_list {l : LinkedList SubInfo} {as : List (Nat × SubInfo)} (h : Spells l as)
    (c : Client) (env : SweepEnv) :
    ∃ l', subInfoProc l c env = some (l', { c with log := c.log ++ ([.lock .listSub] ++
        (reportedNodes (subExpires c.isConnected env.clock) env as).flatMap
          (fun a => subTimeoutEvents (c.lock .listSub) a.2) ++ [.unlock .listSub]) }) ∧
      Spells l' (keptNodes (subStays c.isConnected env.clock) env as) :=
  infoProc_list h fun log k n => subVisit_eq env.clock (c.lock .listSub) log k n

/-! ## The calls on the values -/

theorem keptNodes_values {α : Type*} (stays : Nat → α → Bool) (env : SweepEnv) (as : List (Nat × α)) :
    (keptNodes stays env as).map Prod.snd =
      if env.iterOk then tailFilter stays (as.map Prod.snd) else as.map Prod.snd := by
  unfold keptNodes
  split
  · exact selected_values stays as
  · rfl

theorem reportedNodes_values {α β : Type*} (expires : Nat → α → Bool) (env : SweepEnv)
    (as : List (Nat × α)) (f : α → List β) :
    (reportedNodes expires env as).flatMap (fun a => f a.2) =
      (if env.iterOk then tailFilter expires (as.map Prod.snd) else []).reverse.flatMap f := by
  unfold reportedNodes
  split
  · rw [← selected_values, ← List.map_reverse, List.flatMap_map]
  · rfl

/-- The call on the linked list does what `qcloudIotMqttPubInfoProc` does to the values. -/
theorem pubInfoProc_refines {l : LinkedList PubInfo} {as : List (Nat × PubInfo)} {c : Client}
    (h : Spells l as) (hc : c.listPubWaitAck = as.map Prod.snd) (env : SweepEnv) :
    ∃ l' c' as', pubInfoProc l c env = some (l', c') ∧ Spells l' as' ∧
      qcloudIotMqttPubInfoProc c env = { c' with listPubWaitAck := as'.map Prod.snd } := by
  obtain ⟨l', hcall, h'⟩ := pubInfoProc_list h c env
  refine ⟨l', _, _, hcall, h', ?_⟩
  rw [pubInfoProc_eq, keptNodes_values, reportedNodes_values, keptPubs, expiredPubs, hc]

theorem subInfoProc_refines {l : LinkedList SubInfo} {as : List (Nat × SubInfo)} {c : Client}
    (h : Spells l as) (hc : c.listSubWaitAck = as.map Prod.snd) (env : SweepEnv) :
    ∃ l' c' as', subInfoProc l c env = some (l', c') ∧ Spells l' as' ∧
      qcloudIotMqttSubInfoProc c env = { c' with listSubWaitAck := as'.map Prod.snd } := by
  obtain ⟨l', hcall, h'⟩ := subInfoProc_list h c env
  refine ⟨l', _, _, hcall, h', ?_⟩
  rw [subInfoProc_eq, keptNodes_values, reportedNodes_values, keptSubs, expiredSubs, hc]

/-! ## What the application is told -/

/-- A call of the event handler. -/
def Ev.event? : Ev → Option (MqttEventType × UInt16)
  | .callback (.event _ type id) _ => some (type, id)
  | _ => none

/-- The calls of the event handler, in order. -/
def eventsIn (log : List Ev) : List (MqttEventType × UInt16) := log.filterMap Ev.event?

theorem eventsIn_append (a b : List Ev) : eventsIn (a ++ b) = eventsIn a ++ eventsIn b :=
  List.filterMap_append

/-- The event of a publish that has timed out. -/
def pubTimeout (n : PubInfo) : MqttEventType × UInt16 := (.publishTimeout, n.msgId)

/-- The event of a subscribe or an unsubscribe that has timed out. -/
def subTimeout (n : SubInfo) : MqttEventType × UInt16 :=
  (if n.type = .subscribe then .subcribeTimeout else .unsubcribeTimeout, n.msgId)

theorem eventsIn_pubTimeout {c : Client} {f : FnPtr} (hf : c.eventHandle = some f) (n : PubInfo) :
    eventsIn (pubTimeoutEvents c n) = [pubTimeout n] := by
  rw [pubTimeoutEvents, Client.eventCall, hf]
  rfl

theorem eventsIn_subTimeout {c : Client} {f : FnPtr} (hf : c.eventHandle = some f) (n : SubInfo) :
    eventsIn (subTimeoutEvents c n) = [subTimeout n] := by
  unfold subTimeoutEvents subTimeout
  rw [hf]
  cases hfilter : n.handler.topicFilter <;> cases hsub : n.handler.subEventHandler <;>
    by_cases ht : n.type = .subscribe <;>
      simp [eventsIn, ht, Client.subEventCall, Ev.event?, hsub, List.filterMap_cons]

theorem eventsIn_reports {α : Type*} {events : α → List Ev} {event : α → MqttEventType × UInt16}
    (hevents : ∀ x, eventsIn (events x) = [event x]) (log : List Ev) (l : Lock) (as : List (Nat × α)) :
    eventsIn (log ++ ([.lock l] ++ as.flatMap (fun a => events a.2) ++ [.unlock l])) =
      eventsIn log ++ as.map fun a => event a.2 := by
  have hflat : eventsIn (as.flatMap fun a => events a.2) = as.map fun a => event a.2 := by
    induction as with
    | nil => rfl
    | cons a as ih =>
      rw [List.flatMap_cons, eventsIn_append, hevents, ih]
      rfl
  have hlock : eventsIn [.lock l] = [] := rfl
  have hunlock : eventsIn [.unlock l] = [] := rfl
  rw [eventsIn_append, eventsIn_append, eventsIn_append, hlock, hflat, hunlock, List.nil_append,
    List.append_nil]

/-- **The wait lists after a sweep**: for every list, connection status and clock, with an event handler
registered, a call ends without a fault; where its iterator is allocated it removes the invalid nodes
and, when connected, those whose timer has expired, keeps the others in their order with the links and
the length right, and reports each expired valid node once and no other; else the list and the
application see nothing of it. -/
theorem waitLists_swept {c : Client} {f : FnPtr} (hf : c.eventHandle = some f) (env : SweepEnv) :
    (∀ (l : LinkedList PubInfo) (as : List (Nat × PubInfo)), Spells l as →
      ∃ l' c', pubInfoProc l c env = some (l', c') ∧
        Spells l' (keptNodes (pubStays c.isConnected env.clock) env as) ∧
        eventsIn c'.log = eventsIn c.log ++
          (reportedNodes (pubExpires c.isConnected env.clock) env as).map fun a => pubTimeout a.2) ∧
    ∀ (l : LinkedList SubInfo) (as : List (Nat × SubInfo)), Spells l as →
      ∃ l' c', subInfoProc l c env = some (l', c') ∧
        Spells l' (keptNodes (subStays c.isConnected env.clock) env as) ∧
        eventsIn c'.log = eventsIn c.log ++
          (reportedNodes (subExpires c.isConnected env.clock) env as).map fun a => subTimeout a.2 := by
  refine ⟨fun l as h => ?_, fun l as h => ?_⟩
  · obtain ⟨l', hcall, h'⟩ := pubInfoProc_list h c env
    exact ⟨l', _, hcall, h', eventsIn_reports (eventsIn_pubTimeout (c := c.lock .listPub) hf) _ _ _⟩
  · obtain ⟨l', hcall, h'⟩ := subInfoProc_list h c env
    exact ⟨l', _, hcall, h', eventsIn_reports (eventsIn_subTimeout (c := c.lock .listSub) hf) _ _ _⟩

/-- A connected client of an application with an event handler. -/
def sweepingClient : Client := { Client.init (some 1) 0 5000 ⟨60, true⟩ with isConnected := true }

/-- An invalid node, one whose timer runs out at 0 and one whose timer runs out at 9. -/
def mixedNodes : List (Nat × PubInfo) :=
  [(10, ⟨0, .invalid, 1⟩), (20, ⟨0, .normal, 2⟩), (30, ⟨9, .normal, 3⟩)]

theorem spells_mixedNodes : ∃ l, Spells l mixedNodes := by
  obtain ⟨l1, -, h1⟩ := (Spells.empty (α := PubInfo)).rpush (a := 10) (by decide) ⟨0, .invalid, 1⟩
  obtain ⟨l2, -, h2⟩ := h1.rpush (a := 20) (by decide) ⟨0, .normal, 2⟩
  obtain ⟨l3, -, h3⟩ := h2.rpush (a := 30) (by decide) ⟨9, .normal, 3⟩
  exact ⟨l3, h3⟩

theorem waitLists_swept_mixed : ∃ l l' c', Spells l mixedNodes ∧
    pubInfoProc l sweepingClient { clock := fun _ => 5 } = some (l', c') ∧
    Spells l' [(30, ⟨9, .normal, 3⟩)] ∧ eventsIn c'.log = [(.publishTimeout, 2)] := by
  obtain ⟨l, h⟩ := spells_mixedNodes
  obtain ⟨l', c', hcall, h', hevents⟩ :=
    (waitLists_swept (c := sweepingClient) (f := 1) rfl { clock := fun _ => 5 }).1 l mixedNodes h
  exact ⟨l, l', c', h, hcall, h', hevents⟩

/-- Without memory for the iterator the invalid node and the expired one stay, and there is no event. -/
theorem pubInfoProc_noIterator : ∃ l c', Spells l mixedNodes ∧
    pubInfoProc l sweepingClient { iterOk := false, clock := fun _ => 5 } = some (l, c') ∧
    eventsIn c'.log = [] := by
  obtain ⟨l, h⟩ := spells_mixedNodes
  exact ⟨l, _, h, if_pos (Or.inr Bool.false_ne_true), rfl⟩

end QcloudIot.Mqtt
