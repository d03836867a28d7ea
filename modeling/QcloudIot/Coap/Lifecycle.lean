import QcloudIot.Coap.Exchange
import QcloudIot.Lib.Run
import Mathlib.Data.List.Nodup

/-!
# The life of a confirmable request

A request that enters the wait list has one callback and `max_retry_count` retransmissions to come.
`normalsIn` counts the first, `budgetIn` the second, and what a visit to a node uses up of them it
logs.

* `Visit.fired`, `Visit.resends`: what a visit uses up;
* `cycle_tally`, `act_settled`: what a step uses up;
* **`lifecycle_of_run`**: every request is transmitted at most `1 + max_retry_count` times, and its
  callback is called once by the time its node is gone, in every run in which no response finds a
  node that is already invalid;
* `noStale_of_sweeps`: it does not where every sweep has its iterator;
* `lifecycle_fails`: a response received twice that calls the callback twice.
-/

namespace QcloudIot.Coap

open Lib

/-! ## Counting -/

/-- The retransmissions of request `p`. -/
def Entry.resends (p : UInt16) : Entry → Bool
  | .resend q _ => q == p
  | _ => false

/-- Request `p` as `coap_message_send` gives it to the network. -/
def Entry.requests (p : UInt16) : Entry → Bool
  | .send m _ => decide (m.IsRequest ∧ m.msgId = p)
  | _ => false

/-- How often request `p` was retransmitted. -/
def resendsIn (p : UInt16) (log : List Entry) : Nat := log.countP (Entry.resends p)

/-- How often request `p` was sent. -/
def requestsIn (p : UInt16) (log : List Entry) : Nat := log.countP (Entry.requests p)

/-- The callbacks to come for request `p`: its nodes that are valid. -/
def normalsIn (p : UInt16) (nodes : List CoapMsgSendInfo) : Nat :=
  nodes.countP fun x => x.msgId == p && x.nodeState == .normal

/-- The retransmissions to come for request `p`. -/
def budgetIn (maxRetry : UInt8) (p : UInt16) (nodes : List CoapMsgSendInfo) : Nat :=
  (nodes.map fun x => if x.msgId = p then maxRetry.toNat - x.retransCount.toNat else 0).sum

theorem transmissionsIn_eq (p : UInt16) (log : List Entry) :
    transmissionsIn p log = requestsIn p log + resendsIn p log := by
  induction log with
  | nil => rfl
  | cons e log ih =>
    unfold transmissionsIn requestsIn resendsIn at *
    rw [List.countP_cons, List.countP_cons, List.countP_cons, ih]
    cases e with
    | send m packet =>
      simp only [Entry.transmits, Entry.requests, Entry.resends, Bool.false_eq_true, if_false]
      exact Nat.add_right_comm _ _ _
    | resend q packet =>
      simp only [Entry.transmits, Entry.requests, Entry.resends, Bool.false_eq_true, if_false]
      exact Nat.add_assoc _ _ _
    | listed q => rfl
    | response q f m => rfl
    | event q f e => rfl

section

variable {p q : UInt16} {es : List Entry}

/-- Callbacks count for their request and as nothing else. -/
theorem CallbacksOf.counts (h : CallbacksOf q es) :
    firedIn p es = (if q = p then es.length else 0) ∧ listedIn p es = 0 ∧ resendsIn p es = 0 ∧
      requestsIn p es = 0 := by
  induction es with
  | nil => exact ⟨by simp [firedIn], rfl, rfl, rfl⟩
  | cons e es ih =>
    obtain ⟨hf, hl, hr, hq⟩ := ih fun e' he' => h e' (List.mem_cons_of_mem e he')
    unfold firedIn listedIn resendsIn requestsIn at *
    simp only [List.countP_cons, hf, hl, hr, hq, List.length_cons]
    rcases h e List.mem_cons_self with ⟨f, m, rfl⟩ | ⟨f, t, rfl⟩
    · simp only [Entry.fires, Entry.lists, Entry.resends, Entry.requests]
      by_cases hqp : q = p <;> simp [hqp]
    · simp only [Entry.fires, Entry.lists, Entry.resends, Entry.requests]
      by_cases hqp : q = p <;> simp [hqp]

end

/-! ## A visit -/

section

variable {cmd : ProcessCmd} {c c' : CoapClient} {m m' : CoapMessage} {x : CoapMsgSendInfo}
  {x' : Option CoapMsgSendInfo}

/-- What a visit logs. -/
theorem Visit.log (h : Visit cmd c m x c' m' x') :
    ∃ es, c'.log = c.log ++ es ∧
      (CallbacksOf x.msgId es ∨ ∃ packet, es = [.resend x.msgId packet]) := by
  cases h with
  | kept => exact ⟨[], (List.append_nil _).symm, .inl (callbacksOf_nil _)⟩
  | responded =>
    obtain ⟨es, hlog, hes, -⟩ := (notifyResponse_notified cmd c m x).log
    exact ⟨es, hlog, .inl hes⟩
  | removed => exact ⟨[], (List.append_nil _).symm, .inl (callbacksOf_nil _)⟩
  | resent packet => exact ⟨_, rfl, .inr ⟨packet, rfl⟩⟩
  | timedOut =>
    obtain ⟨es, hlog, hes, -⟩ := (notifyTimeout_notified c m x).log
    exact ⟨es, hlog, .inl hes⟩

/-- A visit calls the callback of a valid node that it makes invalid or removes. -/
theorem Visit.fired (h : Visit cmd c m x c' m' x') (hcallback : HasCallback c x)
    (hstale : cmd.Matches m x → x.nodeState = .normal) (p : UInt16) :
    firedIn p c'.log + normalsIn p x'.toList = firedIn p c.log + normalsIn p [x] := by
  have hcalled : ∀ es, CallbacksOf x.msgId es → es.length = 1 →
      firedIn p (c.log ++ es) = firedIn p c.log + if x.msgId = p then 1 else 0 := by
    intro es hes hlen
    rw [firedIn, List.countP_append]
    have hcount := (hes.counts (p := p)).1
    rw [hlen] at hcount
    exact congrArg _ hcount
  have hnormals : x.nodeState = .normal → normalsIn p [x] = if x.msgId = p then 1 else 0 := by
    intro hnormal
    simp [normalsIn, List.countP_cons, hnormal]
  cases h with
  | kept => rfl
  | responded acked hmatch =>
    obtain ⟨es, hlog, hes, hlen⟩ := (notifyResponse_notified cmd c m x).log
    rw [hlog, hcalled es hes (hlen hcallback), hnormals (hstale hmatch)]
    simp [normalsIn]
  | removed hinvalid => simp [normalsIn, hinvalid, CoapClient.listRemove]
  | resent packet hlt hnormal =>
    have hlog : firedIn p (c.emit (.resend x.msgId packet)).log = firedIn p c.log := by
      simp [firedIn, CoapClient.emit, Entry.fires]
    rw [hlog]
    rfl
  | timedOut hwait hnormal =>
    obtain ⟨es, hlog, hes, hlen⟩ := (notifyTimeout_notified c m x).log
    have hlog' : ((notifyTimeout c m x).1.listRemove x).log = c.log ++ es := hlog
    rw [hlog', hcalled es hes (hlen hcallback), hnormals hnormal]
    rfl

/-- A visit retransmits within the budget. -/
theorem Visit.resends (h : Visit cmd c m x c' m' x') (p : UInt16) :
    resendsIn p c'.log + budgetIn c.maxRetryCount p x'.toList ≤
      resendsIn p c.log + budgetIn c.maxRetryCount p [x] := by
  have hcalled : ∀ es, CallbacksOf x.msgId es → resendsIn p (c.log ++ es) = resendsIn p c.log := by
    intro es hes
    rw [resendsIn, List.countP_append]
    exact congrArg _ (hes.counts (p := p)).2.2.1
  cases h with
  | kept => exact le_refl _
  | responded acked hmatch =>
    obtain ⟨es, hlog, hes, -⟩ := (notifyResponse_notified cmd c m x).log
    rw [hlog, hcalled es hes]
    exact le_refl _
  | removed => exact Nat.add_le_add_left (Nat.zero_le _) _
  | resent packet hlt =>
    have hlt' : x.retransCount.toNat < c.maxRetryCount.toNat := UInt8.lt_iff_toNat_lt.mp hlt
    have hmax := c.maxRetryCount.toNat_lt
    have hsucc : (x.retransCount + 1).toNat = x.retransCount.toNat + 1 := by
      rw [UInt8.toNat_add]
      exact Nat.mod_eq_of_lt (by simp; omega)
    have hlog : resendsIn p (c.emit (.resend x.msgId packet)).log =
        resendsIn p c.log + if x.msgId = p then 1 else 0 := by
      simp [resendsIn, CoapClient.emit, Entry.resends, List.countP_append, List.countP_cons]
    rw [hlog]
    simp only [budgetIn, Option.toList_some, List.map_cons, List.map_nil, List.sum_cons,
      List.sum_nil, hsucc]
    split <;> omega
  | timedOut =>
    obtain ⟨es, hlog, hes, -⟩ := (notifyTimeout_notified c m x).log
    have hlog' : ((notifyTimeout c m x).1.listRemove x).log = c.log ++ es := hlog
    rw [hlog', hcalled es hes]
    exact Nat.add_le_add_left (Nat.zero_le _) _

/-- A visit neither sends a request nor lists one. -/
theorem Visit.others (h : Visit cmd c m x c' m' x') (p : UInt16) :
    listedIn p c'.log = listedIn p c.log ∧ requestsIn p c'.log = requestsIn p c.log := by
  obtain ⟨es, hlog, hes⟩ := h.log
  rw [hlog, listedIn, requestsIn, List.countP_append, List.countP_append]
  rcases hes with hes | ⟨packet, rfl⟩
  · obtain ⟨-, hl, -, hr⟩ := hes.counts (p := p)
    exact ⟨congrArg _ hl, congrArg _ hr⟩
  · exact ⟨rfl, rfl⟩

end

/-! ## The wait list -/

/-- What happens to request `p` where neither a request is sent nor one listed: the nodes `xs`
become `xs'` while the client goes from `c` to `c'`. -/
structure Tally (p : UInt16) (c c' : CoapClient) (xs xs' : List CoapMsgSendInfo) : Prop where
  listed : listedIn p c'.log = listedIn p c.log
  requests : requestsIn p c'.log = requestsIn p c.log
  resends : resendsIn p c'.log + budgetIn c.maxRetryCount p xs' ≤
    resendsIn p c.log + budgetIn c.maxRetryCount p xs
  fired : firedIn p c'.log + normalsIn p xs' = firedIn p c.log + normalsIn p xs

namespace Tally

variable {p : UInt16} {c c₁ c₂ : CoapClient} {xs xs₁ xs₂ : List CoapMsgSendInfo}

theorem of_eq (hlog : c₁.log = c.log) (xs : List CoapMsgSendInfo) : Tally p c c₁ xs xs := by
  refine ⟨?_, ?_, ?_, ?_⟩ <;> rw [hlog]

theorem trans (hframe : Frame c c₁) (h : Tally p c c₁ xs xs₁) (h' : Tally p c₁ c₂ xs₁ xs₂) :
    Tally p c c₂ xs xs₂ := by
  have hresends := h'.resends
  rw [hframe.maxRetryCount] at hresends
  exact ⟨h'.listed.trans h.listed, h'.requests.trans h.requests, le_trans hresends h.resends,
    h'.fired.trans h.fired⟩

end Tally

theorem normalsIn_append (p : UInt16) (xs ys : List CoapMsgSendInfo) :
    normalsIn p (xs ++ ys) = normalsIn p xs + normalsIn p ys := List.countP_append

theorem budgetIn_append (maxRetry : UInt8) (p : UInt16) (xs ys : List CoapMsgSendInfo) :
    budgetIn maxRetry p (xs ++ ys) = budgetIn maxRetry p xs + budgetIn maxRetry p ys := by
  simp [budgetIn]

/-- The message is looked for by the same id and token. -/
def SameKey (cmd : ProcessCmd) (m m' : CoapMessage) : Prop :=
  (cmd = .resp → m'.token = m.token) ∧ (cmd = .piggy → m'.msgId = m.msgId)

section

variable {cmd : ProcessCmd} {c c' : CoapClient} {m m' : CoapMessage}

theorem SameKey.matches (h : SameKey cmd m m') (x : CoapMsgSendInfo) :
    cmd.Matches m' x ↔ cmd.Matches m x := by
  cases cmd with
  | resp =>
    simp only [ProcessCmd.Matches, CoapMsgSendInfo.HasToken, h.1 rfl]
  | piggy => simp only [ProcessCmd.Matches, h.2 rfl]
  | ack => exact Iff.rfl
  | wait => exact Iff.rfl

/-- What a message is looked for by stays. -/
theorem Visit.sameKey {x : CoapMsgSendInfo} {x' : Option CoapMsgSendInfo}
    (h : Visit cmd c m x c' m' x') : SameKey cmd m m' := by
  cases h with
  | kept => exact ⟨fun _ => rfl, fun _ => rfl⟩
  | responded =>
    obtain ⟨htoken, hid⟩ := notifyResponse_key cmd c m x
    refine ⟨fun _ => htoken, fun hcmd => hid ?_⟩
    rw [hcmd]
    decide
  | removed => exact ⟨fun _ => rfl, fun _ => rfl⟩
  | resent => exact ⟨fun _ => rfl, fun _ => rfl⟩
  | timedOut hwait =>
    refine ⟨fun hcmd => ?_, fun hcmd => ?_⟩
    · exact nomatch hwait.symm.trans hcmd
    · exact nomatch hwait.symm.trans hcmd

/-- **The loop settles each request**, where every node has a callback and every node matched is
valid. -/
theorem listProc_tally {iter : Bool} {expired : Nat → Bool} (p : UInt16)
    (hcallback : ∀ x ∈ c.messageList, HasCallback c x)
    (hstale : iter = true → ∀ x ∈ c.messageList, cmd.Matches m x → x.nodeState = .normal) :
    Tally p c (coapMessageListProc cmd iter expired c m).2 c.messageList
      (coapMessageListProc cmd iter expired c m).2.messageList := by
  rcases listProc_visits cmd iter expired c m
      (I := fun c₁ m₁ xs xs' => Frame c c₁ ∧ SameKey cmd m m₁ ∧
        ((∀ x ∈ xs, HasCallback c x) → (∀ x ∈ xs, cmd.Matches m x → x.nodeState = .normal) →
          Tally p c c₁ xs xs'))
      (fun heap => ⟨⟨rfl, rfl, rfl, rfl⟩, ⟨fun _ => rfl, fun _ => rfl⟩,
        fun _ _ => .of_eq (by rfl) []⟩)
      (by
        intro c₁ m₁ x xs xs' c₂ m₂ x' ⟨hframe, hkey, ih⟩ hvisit
        have hkey₂ := hvisit.sameKey
        refine ⟨hframe.trans hvisit.frame, ⟨fun h => (hkey₂.1 h).trans (hkey.1 h),
          fun h => (hkey₂.2 h).trans (hkey.2 h)⟩, fun hcallback hstale => ?_⟩
        have hrest := ih (fun y hy => hcallback y (List.mem_cons_of_mem x hy))
          (fun y hy => hstale y (List.mem_cons_of_mem x hy))
        have hx : HasCallback c₁ x := by
          unfold HasCallback
          rw [hframe.eventHandle]
          exact hcallback x List.mem_cons_self
        have hfired := hvisit.fired hx
          (fun h => hstale x List.mem_cons_self ((hkey.matches x).mp h)) p
        have hresends := hvisit.resends p
        rw [hframe.maxRetryCount] at hresends
        obtain ⟨hlisted, hrequests⟩ := hvisit.others p
        refine ⟨hlisted.trans hrest.listed, hrequests.trans hrest.requests, ?_, ?_⟩
        · have := hrest.resends
          rw [← List.singleton_append, budgetIn_append, budgetIn_append]
          omega
        · have := hrest.fired
          rw [← List.singleton_append, normalsIn_append, normalsIn_append]
          omega) with ⟨-, hsame⟩ | ⟨hiter, c₁, m₁, nodes, heap, hI, hproc⟩
  · rw [hsame]
    exact .of_eq rfl _
  · rw [hproc]
    have h := hI.2.2 hcallback (hstale hiter)
    exact ⟨h.listed, h.requests, h.resends, h.fired⟩

end

/-! ## Steps -/

/-- A message is sent, or a cycle runs. -/
inductive Act where
  | send (m : CoapMessage) (env : SendEnv)
  | cycle (env : CycleEnv)

/-- A step of the client. -/
def act (t : Target) (c : CoapClient) : Act → CoapClient
  | .send m env => (coapMessageSend t c m env).2
  | .cycle env => (coapMessageCycle t c env).2

/-- A message that is sent has a response handler, or the client an event callback. -/
def CalledBack (c : CoapClient) : Act → Prop
  | .send m _ => m.handler ≠ none ∨ c.eventHandle ≠ none
  | .cycle _ => True

/-- No response that a cycle handles is one to a node that is already invalid. -/
def NoStale (t : Target) (c : CoapClient) : Act → Prop
  | .send _ _ => True
  | .cycle env => env.rc = .retSuccess → env.iter = true → ∀ cmd, (decoded t c env).cmd? = some cmd →
      ∀ x ∈ c.messageList, cmd.Matches (decoded t c env) x → x.nodeState = .normal

/-- Every node has a callback. -/
def Callbacks (c : CoapClient) : Prop := ∀ x ∈ c.messageList, HasCallback c x

/-- Where request `p` is: its callback has been called once for each time it was listed and is no
longer valid, its retransmissions are within the budget, and it was listed when it was sent. -/
structure Counts (p : UInt16) (c : CoapClient) : Prop where
  fired : firedIn p c.log + normalsIn p c.messageList = listedIn p c.log
  resends : resendsIn p c.log + budgetIn c.maxRetryCount p c.messageList ≤
    c.maxRetryCount.toNat * listedIn p c.log
  listed_le : listedIn p c.log ≤ requestsIn p c.log

section

variable {t : Target} {c c' : CoapClient}

theorem listProc_callbacks (cmd : ProcessCmd) (iter : Bool) (expired : Nat → Bool)
    (m : CoapMessage) (h : Callbacks c) :
    Callbacks (coapMessageListProc cmd iter expired c m).2 := by
  have hframe := listProc_frame cmd iter expired c m
  intro y hy
  obtain ⟨x, hx, heq⟩ := listProc_handlers cmd iter expired c m y hy
  unfold HasCallback
  rw [heq, hframe.eventHandle]
  exact h x hx

/-- **A cycle settles every request.** -/
theorem cycle_tally {env : CycleEnv} (hcallbacks : Callbacks c) (hstale : NoStale t c (.cycle env)) :
    Callbacks (coapMessageCycle t c env).2 ∧ Frame c (coapMessageCycle t c env).2 ∧
      ∀ p, Tally p c (coapMessageCycle t c env).2 c.messageList
        (coapMessageCycle t c env).2.messageList := by
  refine cycle_rule (R := fun c c' => Callbacks c → Callbacks c' ∧ Frame c c' ∧
    ∀ p, Tally p c c' c.messageList c'.messageList) ?_ ?_ ?_ ?_ ?_ hcallbacks
  · intro c₁ c₂ c₃ h h' hc
    obtain ⟨hc₂, hf₂, ht₂⟩ := h hc
    obtain ⟨hc₃, hf₃, ht₃⟩ := h' hc₂
    exact ⟨hc₃, hf₂.trans hf₃, fun p => (ht₂ p).trans hf₂ (ht₃ p)⟩
  · exact fun c heap hc => ⟨hc, ⟨rfl, rfl, rfl, rfl⟩, fun p => .of_eq (by rfl) _⟩
  · intro c msgId packet hc
    refine ⟨hc, ⟨rfl, rfl, rfl, rfl⟩, fun p => ?_⟩
    have hack : ¬ CoapMessage.IsRequest { type := .ack, msgId := msgId } := fun h => by
      simp [CoapMessage.IsRequest] at h
    refine ⟨?_, ?_, ?_, ?_⟩
    all_goals
      simp [CoapClient.emit, listedIn, requestsIn, resendsIn, firedIn, Entry.lists, Entry.requests,
        Entry.resends, Entry.fires, hack]
  · intro hrc cmd hcmd c₁ hframe hlist hc
    refine ⟨listProc_callbacks cmd _ _ _ hc, listProc_frame cmd _ _ c₁ _, fun p => ?_⟩
    refine listProc_tally p hc fun hiter x hx => ?_
    rw [hlist] at hx
    exact hstale hrc hiter cmd hcmd x hx
  · intro c₁ _ hc
    exact ⟨listProc_callbacks .wait _ _ _ hc, listProc_frame .wait _ _ c₁ _,
      fun p => listProc_tally p hc fun _ _ _ hmatch => hmatch.elim⟩

theorem requestsIn_send (p : UInt16) (log : List Entry) (m : CoapMessage) (packet : Bytes) :
    requestsIn p (log ++ [.send m packet]) =
      requestsIn p log + if m.IsRequest ∧ m.msgId = p then 1 else 0 := by
  simp [requestsIn, Entry.requests, List.countP_append, List.countP_cons]

theorem counts_send (p : UInt16) (h : Counts p c) (m : CoapMessage) (packet : Bytes) (heap : Heap) :
    Counts p { c with heap := heap, log := c.log ++ [.send m packet] } := by
  have hfired : firedIn p (c.log ++ [.send m packet]) = firedIn p c.log := by
    simp [firedIn, Entry.fires]
  have hlisted : listedIn p (c.log ++ [.send m packet]) = listedIn p c.log := by
    simp [listedIn, Entry.lists]
  have hresends : resendsIn p (c.log ++ [.send m packet]) = resendsIn p c.log := by
    simp [resendsIn, Entry.resends]
  refine ⟨?_, ?_, ?_⟩
  · rw [hfired, hlisted]
    exact h.fired
  · rw [hresends, hlisted]
    exact h.resends
  · rw [hlisted, requestsIn_send]
    exact le_trans h.listed_le (Nat.le_add_right _ _)

/-- A request that enters the wait list has its callback and its retransmissions to come. -/
theorem counts_listed {p : UInt16} {m : CoapMessage} {packet : Bytes} {heap : Heap}
    {x : CoapMsgSendInfo} (h : Counts p c) (hreq : m.IsRequest) (hx : NodeOf m x) :
    Counts p
      { c with
        heap := heap
        log := c.log ++ [.send m packet] ++ [.listed m.msgId]
        messageList := c.messageList ++ [x] } := by
  have hsent := counts_send p h m packet heap
  have hfired : ∀ log, firedIn p (log ++ [.listed m.msgId]) = firedIn p log := fun log => by
    simp [firedIn, Entry.fires]
  have hlisted : ∀ log, listedIn p (log ++ [.listed m.msgId]) =
      listedIn p log + if m.msgId = p then 1 else 0 := fun log => by
    simp [listedIn, Entry.lists, List.countP_append, List.countP_cons]
  have hresends : ∀ log, resendsIn p (log ++ [.listed m.msgId]) = resendsIn p log := fun log => by
    simp [resendsIn, Entry.resends]
  have hrequests : ∀ log, requestsIn p (log ++ [.listed m.msgId]) = requestsIn p log := fun log => by
    simp [requestsIn, Entry.requests]
  have hnormals : normalsIn p [x] = if m.msgId = p then 1 else 0 := by
    simp [normalsIn, List.countP_cons, hx.nodeState, hx.msgId]
  have hbudget : budgetIn c.maxRetryCount p [x] =
      if m.msgId = p then c.maxRetryCount.toNat else 0 := by
    simp [budgetIn, hx.retransCount, hx.msgId]
  refine ⟨?_, ?_, ?_⟩
  · have := hsent.fired
    dsimp only at this ⊢
    rw [hfired, hlisted, normalsIn_append, hnormals]
    omega
  · have := hsent.resends
    dsimp only at this ⊢
    rw [hresends, hlisted, budgetIn_append, hbudget, Nat.mul_add]
    split
    · omega
    · omega
  · have hle := h.listed_le
    have hlog : listedIn p (c.log ++ [.send m packet]) = listedIn p c.log := by
      simp [listedIn, Entry.lists]
    dsimp only
    rw [hlisted, hrequests, requestsIn_send, hlog]
    simp only [hreq, true_and]
    exact Nat.add_le_add_right hle _

/-- What holds of a client whose requests can all be called back. -/
def Settled (c : CoapClient) : Prop := Callbacks c ∧ ∀ p, Counts p c

theorem act_settled (h : Settled c) (a : Act) (hcalled : CalledBack c a) (hstale : NoStale t c a) :
    Settled (act t c a) := by
  obtain ⟨hcallbacks, hcounts⟩ := h
  cases a with
  | send m env =>
    rcases send_cases t c m env with
      ⟨heap, es, hsent, hes, -⟩ | ⟨hreq, -, heap, packet, x, hsent, hx⟩
    · change Settled (coapMessageSend t c m env).2
      rw [hsent]
      refine ⟨hcallbacks, fun p => ?_⟩
      rcases hes with rfl | ⟨packet, rfl⟩
      · rw [List.append_nil]
        exact ⟨(hcounts p).fired, (hcounts p).resends, (hcounts p).listed_le⟩
      · exact counts_send p (hcounts p) m packet heap
    · change Settled (coapMessageSend t c m env).2
      rw [hsent]
      refine ⟨fun y hy => ?_, fun p => counts_listed (hcounts p) hreq hx⟩
      rcases List.mem_append.mp hy with hy | hy
      · exact hcallbacks y hy
      · obtain rfl := List.mem_singleton.mp hy
        unfold HasCallback
        rw [hx.handler]
        exact hcalled
  | cycle env =>
    obtain ⟨hcallbacks', hframe, htally⟩ := cycle_tally hcallbacks hstale
    change Settled (coapMessageCycle t c env).2
    refine ⟨hcallbacks', fun p => ?_⟩
    have h := htally p
    have hc := hcounts p
    refine ⟨?_, ?_, ?_⟩
    · exact h.fired.trans (hc.fired.trans h.listed.symm)
    · rw [hframe.maxRetryCount, h.listed]
      exact le_trans h.resends hc.resends
    · exact (le_of_eq h.listed).trans (hc.listed_le.trans (le_of_eq h.requests.symm))

end

/-! ## Runs -/

/-- A client that has not sent anything yet. -/
structure Fresh (c : CoapClient) : Prop where
  messageList : c.messageList = []
  log : c.log = []

/-- The message ids of the confirmable requests sent, one for each. -/
def requestIds (log : List Entry) : List UInt16 := log.filterMap Entry.request?

/-- What request `p` has come to: it has been transmitted at most `1 + max_retry_count` times, and
its callback has been called at most once, not as long as a node of it is valid, and once when it has
been listed and none is. -/
structure Lifecycle (p : UInt16) (c : CoapClient) : Prop where
  transmitted : transmissionsIn p c.log ≤ 1 + c.maxRetryCount.toNat
  fired_le : firedIn p c.log ≤ 1
  waiting : ∀ x ∈ c.messageList, x.msgId = p → x.nodeState = .normal → firedIn p c.log = 0
  gone : 0 < listedIn p c.log →
    (∀ x ∈ c.messageList, x.msgId = p → x.nodeState = .invalid) → firedIn p c.log = 1

theorem requestsIn_eq_count (p : UInt16) (log : List Entry) :
    requestsIn p log = (requestIds log).count p := by
  induction log with
  | nil => rfl
  | cons e log ih =>
    unfold requestsIn requestIds at *
    rw [List.countP_cons, ih]
    cases e with
    | send m packet =>
      by_cases hreq : m.IsRequest
      · rw [List.filterMap_cons_some (b := m.msgId) (by simp [Entry.request?, hreq]),
          List.count_cons]
        simp [Entry.requests, hreq]
      · rw [List.filterMap_cons_none (by simp [Entry.request?, hreq])]
        simp [Entry.requests, hreq]
    | listed q => rfl
    | resend q packet => rfl
    | response q f m => rfl
    | event q f e => rfl

/-- The counts of a request that was sent once. -/
theorem Counts.lifecycle {p : UInt16} {c : CoapClient} (h : Counts p c)
    (hsent : requestsIn p c.log ≤ 1) : Lifecycle p c := by
  have hlisted : listedIn p c.log ≤ 1 := le_trans h.listed_le hsent
  have hfired := h.fired
  refine ⟨?_, by omega, fun x hx hid hnormal => ?_, fun hpos hinvalid => ?_⟩
  · have hbudget := h.resends
    have hmul : c.maxRetryCount.toNat * listedIn p c.log ≤ c.maxRetryCount.toNat * 1 :=
      Nat.mul_le_mul_left _ hlisted
    rw [transmissionsIn_eq]
    omega
  · have hpos : 0 < normalsIn p c.messageList := by
      rw [normalsIn, List.countP_pos_iff]
      exact ⟨x, hx, by simp [hid, hnormal]⟩
    omega
  · have hzero : normalsIn p c.messageList = 0 := by
      rw [normalsIn, List.countP_eq_zero]
      intro x hx
      by_cases hid : x.msgId = p
      · simp [hinvalid x hx hid]
      · simp [hid]
    omega

/-- **The life of a request**: in every run of sends and cycles over requests with distinct ids, each
with a callback, in which no response handled is one to a node that is already invalid, every request
is transmitted at most `1 + max_retry_count` times and its callback is called exactly once by the
time its node is gone, and never again. -/
theorem lifecycle_of_run (t : Target) {c₀ : CoapClient} (hfresh : Fresh c₀) (as : List Act)
    (hcalled : Meets (act t) CalledBack c₀ as)
    (hdistinct : (requestIds (run (act t) c₀ as).log).Nodup)
    (hstale : Meets (act t) (NoStale t) c₀ as) (p : UInt16) :
    Lifecycle p (run (act t) c₀ as) := by
  have hstart : Settled c₀ := by
    refine ⟨fun x hx => ?_, fun p => ⟨?_, ?_, ?_⟩⟩
    · rw [hfresh.messageList] at hx
      exact absurd hx (by simp)
    · rw [hfresh.log, hfresh.messageList]
      rfl
    · rw [hfresh.log, hfresh.messageList]
      exact Nat.zero_le _
    · rw [hfresh.log]
      exact le_refl 0
  have hend : Settled (run (act t) c₀ as) :=
    run_invariant Settled (fun c a hs hok => act_settled hs a hok.1 hok.2) as hstart
      (meets_and hcalled hstale)
  refine (hend.2 p).lifecycle ?_
  rw [requestsIn_eq_count]
  exact List.nodup_iff_count_le_one.mp hdistinct p

/-- The iterator of the sweep can be allocated. -/
def Swept : Act → Prop
  | .send _ _ => True
  | .cycle env => env.sweepIter = true

/-- Every node is valid. -/
def AllNormal (c : CoapClient) : Prop := ∀ x ∈ c.messageList, x.nodeState = .normal

section

variable {t : Target} {c : CoapClient}

/-- A sweep leaves valid nodes only. -/
theorem sweep_normal (expired : Nat → Bool) (c : CoapClient) (m : CoapMessage) :
    AllNormal (coapMessageListProc .wait true expired c m).2 := by
  rcases listProc_visits .wait true expired c m
      (I := fun _ _ _ xs' => ∀ y ∈ xs', y.nodeState = .normal) (fun _ => nofun)
      (by
        intro c₁ m₁ x xs xs' c₂ m₂ x' ih hvisit y hy
        obtain hy | hy := List.mem_append.mp hy
        · cases hvisit with
          | kept acked hnormal =>
            obtain rfl := List.mem_singleton.mp hy
            exact hnormal rfl
          | responded acked hmatch => exact hmatch.elim
          | removed => exact absurd hy (by simp)
          | resent packet hlt hnormal =>
            obtain rfl := List.mem_singleton.mp hy
            exact hnormal
          | timedOut => exact absurd hy (by simp)
        · exact ih y hy) with ⟨hidle, hsame⟩ | ⟨-, c₁, m₁, nodes, heap, hI, hproc⟩
  · rw [hsame]
    intro x hx
    rw [hidle.resolve_right (by simp)] at hx
    exact absurd hx (by simp)
  · rw [hproc]
    exact hI

theorem act_normal (h : AllNormal c) (a : Act) (hswept : Swept a) : AllNormal (act t c a) := by
  cases a with
  | send m env =>
    change AllNormal (coapMessageSend t c m env).2
    rcases send_cases t c m env with ⟨heap, es, hsent, -, -⟩ | ⟨-, -, heap, packet, x, hsent, hx⟩
    · rw [hsent]
      exact h
    · rw [hsent]
      intro y hy
      rcases List.mem_append.mp hy with hy | hy
      · exact h y hy
      · obtain rfl := List.mem_singleton.mp hy
        exact hx.nodeState
  | cycle env =>
    change AllNormal (coapMessageCycle t c env).2
    have hsweep : env.sweepIter = true := hswept
    unfold coapMessageCycle coapMessageRecv
    by_cases hrc : env.rc = .retSuccess
    · rw [if_pos hrc, hsweep]
      dsimp only
      rw [if_neg fun hne => hne.1 hrc]
      exact sweep_normal _ _ _
    · rw [if_neg hrc, hsweep]
      dsimp only
      split
      · exact h
      · exact sweep_normal _ _ _

end

/-- **Where every sweep has its iterator, no response finds an invalid node.** -/
theorem noStale_of_sweeps (t : Target) {c₀ : CoapClient} (hfresh : Fresh c₀) {as : List Act}
    (hswept : ∀ a ∈ as, Swept a) : Meets (act t) (NoStale t) c₀ as := by
  refine meets_of_invariant AllNormal (fun c a hc ha => ⟨act_normal hc a ha, ?_⟩) ?_ hswept
  · cases a with
    | send m env => trivial
    | cycle env => exact fun _ _ _ _ x hx _ => hc x hx
  · intro x hx
    rw [hfresh.messageList] at hx
    exact absurd hx (by simp)

/-- A request with message id 1 and a handler. -/
def handledRequest : Act :=
  .send { msgId := 1, token := [4, 3, 2, 1], handler := some (.user 7) } {}

/-- A piggybacked response to it, of class 2.05 with one byte of payload. -/
def piggyResponse : Bytes := [0x60, 0x45, 0, 1, 0xff, 33]

/-- A client that has been initialised, with one retransmission and no event callback. -/
def idleClient : CoapClient := .init deviceD 0 1 none

/-- The request is sent and answered. -/
def answeredRun : List Act := [handledRequest, .cycle { recvBuf := piggyResponse }]

theorem lifecycle_answered : Lifecycle 1 (run (act ⟨.w32, .signed⟩) idleClient answeredRun) :=
  lifecycle_of_run ⟨.w32, .signed⟩ ⟨rfl, rfl⟩ answeredRun
    (show Meets _ CalledBack idleClient [_, _] from ⟨.inl nofun, trivial, trivial⟩)
    (by decide)
    (noStale_of_sweeps _ ⟨rfl, rfl⟩ (by simp [answeredRun, handledRequest, Swept])) 1

/-- The iterator of the sweep cannot be allocated: the node stays, and the response received again
calls the handler again. -/
theorem lifecycle_fails :
    requestIds (run (act ⟨.w32, .signed⟩) idleClient
        [handledRequest, .cycle { recvBuf := piggyResponse, sweepIter := false },
          .cycle { recvBuf := piggyResponse }]).log = [1] ∧
      ¬ Lifecycle 1 (run (act ⟨.w32, .signed⟩) idleClient
        [handledRequest, .cycle { recvBuf := piggyResponse, sweepIter := false },
          .cycle { recvBuf := piggyResponse }]) :=
  ⟨by decide, fun h => absurd h.fired_le (by decide)⟩

end QcloudIot.Coap
