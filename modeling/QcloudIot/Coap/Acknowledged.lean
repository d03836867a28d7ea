import QcloudIot.Coap.Accounting
import QcloudIot.Coap.Datagram
import QcloudIot.Coap.Lifecycle

/-!
# Acknowledged requests

A request is known by the address of its `CoAPMsgSendInfo`. The sweep retransmits those in
`resentNodes`, which leave an entry each in the log; one that has been acknowledged or answered, or
has no retransmission left, is `Settled` and not among them.

* `resentBy_log`: the entries are those of the retransmitted requests;
* `cycle_ages`, `send_nodes`: what becomes of the nodes of the wait list, by their addresses;
* `done_resent`: a settled request is not retransmitted in any run from there on;
* **`acknowledged_iff`**: an acknowledgement settles its request iff its code is not 0.00 and the
  iterator of the list is there, unless the request was settled before;
* `acknowledged_fails`: an empty acknowledgement that is not taken for one.
-/

namespace QcloudIot.Coap

open Lib

/-! ## Retransmissions -/

/-- The request has been answered or acknowledged, or has no retransmission left. -/
def CoapMsgSendInfo.Settled (maxRetryCount : UInt8) (x : CoapMsgSendInfo) : Prop :=
  x.nodeState = .invalid ∨ x.acked = true ∨ maxRetryCount ≤ x.retransCount

instance (maxRetryCount : UInt8) (x : CoapMsgSendInfo) : Decidable (x.Settled maxRetryCount) :=
  inferInstanceAs (Decidable (_ ∨ _))

/-- The requests that a sweep of these nodes retransmits, from the tail on. -/
def resentNodes (maxRetryCount : UInt8) (expired : Nat → Bool) :
    List CoapMsgSendInfo → List CoapMsgSendInfo
  | [] => []
  | x :: xs =>
    resentNodes maxRetryCount expired xs ++
      if expired xs.length = true ∧ ¬ x.Settled maxRetryCount then [x] else []

/-- The requests that a step retransmits. -/
def resentBy (t : Target) (c : CoapClient) : Act → List CoapMsgSendInfo
  | .send _ _ => []
  | .cycle env =>
    let (rc, c) := coapMessageRecv t c env
    if rc ≠ .retSuccess ∧ rc ≠ .errSslReadTimeout then []
    else if env.sweepIter = true then resentNodes c.maxRetryCount env.expired c.messageList
    else []

/-- The addresses of the requests that a run retransmits. -/
def resentDuring (t : Target) : CoapClient → List Act → List Nat
  | _, [] => []
  | c, a :: as => (resentBy t c a).map (·.infoAddr) ++ resentDuring t (act t c a) as

/-- A retransmission, with its packet. -/
def Entry.resent? : Entry → Option (UInt16 × Bytes)
  | .resend p packet => some (p, packet)
  | _ => none

/-- The retransmissions logged. -/
def resentIn (log : List Entry) : List (UInt16 × Bytes) := log.filterMap Entry.resent?

/-- What a retransmission of the request logs. -/
def CoapMsgSendInfo.resent (x : CoapMsgSendInfo) : UInt16 × Bytes :=
  (x.msgId, (x.message.map Prod.snd).getD [])

/-! ## What they leave in the log -/

theorem resentIn_append (log log' : List Entry) :
    resentIn (log ++ log') = resentIn log ++ resentIn log' := List.filterMap_append

theorem Notified.resentIn {c c' : CoapClient} {x : CoapMsgSendInfo} (h : Notified c x c') :
    resentIn c'.log = resentIn c.log := h.filterMap_log (fun _ _ _ => rfl) fun _ _ _ => rfl

section

variable {expired : Bool} {c : CoapClient} {m : CoapMessage} {x : CoapMsgSendInfo}

/-- A visit of the sweep logs the retransmission of its request. -/
theorem visit_wait_resent : resentIn (visitNode .wait expired c m x).1.log =
    resentIn c.log ++
      (if expired = true ∧ ¬ x.Settled c.maxRetryCount then [x] else []).map (·.resent) := by
  unfold visitNode CoapMsgSendInfo.Settled
  dsimp only
  by_cases hinvalid : x.nodeState = .invalid
  · rw [if_pos hinvalid, if_neg fun h => h.2 (.inl hinvalid)]
    exact (List.append_nil _).symm
  · rw [if_neg hinvalid]
    cases expired with
    | false =>
      rw [if_pos rfl, if_neg fun h => nomatch h.1]
      exact (List.append_nil _).symm
    | true =>
      rw [if_neg (show ¬ true = false by decide)]
      by_cases hretry : x.retransCount < c.maxRetryCount ∧ x.acked = false
      · have hunsettled : ¬ (x.nodeState = .invalid ∨ x.acked = true ∨
            c.maxRetryCount ≤ x.retransCount) := by
          rintro (h | h | h)
          · exact hinvalid h
          · rw [hretry.2] at h
            exact nomatch h
          · exact absurd hretry.1 (UInt8.not_lt.mpr h)
        rw [if_pos hretry, if_pos ⟨rfl, hunsettled⟩]
        exact resentIn_append _ _
      · have hsettled : x.nodeState = .invalid ∨ x.acked = true ∨
            c.maxRetryCount ≤ x.retransCount := by
          by_contra h
          refine hretry ⟨UInt8.not_le.mp fun hle => h (.inr (.inr hle)), ?_⟩
          exact Bool.eq_false_iff.mpr fun hacked => h (.inr (.inl hacked))
        have hlog : resentIn ((notifyTimeout c m x).1.listRemove x).log = resentIn c.log :=
          (notifyTimeout_notified c m x).resentIn
        rw [if_neg hretry, if_neg fun h => h.2 hsettled]
        exact hlog.trans (List.append_nil _).symm

/-- A message retransmits nothing. -/
theorem visit_touch_resent {cmd : ProcessCmd} (hcmd : cmd ≠ .wait) :
    resentIn (visitNode cmd expired c m x).1.log = resentIn c.log := by
  cases cmd with
  | ack => rfl
  | resp =>
    simp only [visitNode]
    split
    · exact (notifyResponse_notified .resp c m x).resentIn
    · rfl
  | piggy =>
    simp only [visitNode]
    split
    · exact (notifyResponse_notified .piggy c m x).resentIn
    · rfl
  | wait => exact absurd rfl hcmd

end

section

variable {t : Target} {c : CoapClient}

theorem sweep_resent (expired : Nat → Bool) (m : CoapMessage) :
    resentIn (coapMessageListProc .wait true expired c m).2.log =
      resentIn c.log ++ (resentNodes c.maxRetryCount expired c.messageList).map (·.resent) := by
  rcases listProc_cases .wait true expired c m with ⟨hidle, hsame⟩ | ⟨-, -, hproc⟩
  · rw [hsame, hidle.resolve_right (by decide)]
    exact (List.append_nil _).symm
  · rw [hproc]
    refine (procNodes_rule (c := { c with heap := c.heap.alloc.2 })
      (I := fun c₁ _ xs _ => Frame c c₁ ∧ resentIn c₁.log =
        resentIn c.log ++ (resentNodes c.maxRetryCount expired xs).map (·.resent))
      ⟨⟨rfl, rfl, rfl, rfl⟩, (List.append_nil _).symm⟩ ?_ c.messageList).2
    rintro c₁ m₁ x xs _ ⟨hframe, hlog⟩
    refine ⟨hframe.trans (visitNode_visit .wait _ c₁ m₁ x).frame, ?_⟩
    rw [visit_wait_resent, hlog, hframe.maxRetryCount, resentNodes, List.map_append,
      List.append_assoc]

theorem listProc_resent {cmd : ProcessCmd} (hcmd : cmd ≠ .wait) (iter : Bool)
    (expired : Nat → Bool) (m : CoapMessage) :
    resentIn (coapMessageListProc cmd iter expired c m).2.log = resentIn c.log := by
  rcases listProc_cases cmd iter expired c m with ⟨-, hsame⟩ | ⟨-, -, hproc⟩
  · rw [hsame]
  · rw [hproc]
    refine procNodes_rule (c := { c with heap := c.heap.alloc.2 })
      (I := fun c₁ _ _ _ => resentIn c₁.log = resentIn c.log) rfl ?_ c.messageList
    intro c₁ m₁ x xs _ hlog
    exact (visit_touch_resent hcmd).trans hlog

theorem recv_resent (env : CycleEnv) :
    resentIn (coapMessageRecv t c env).2.log = resentIn c.log := by
  unfold coapMessageRecv
  split
  · dsimp only
    rw [handle_eq]
    refine dispatch_rule (R := fun c c' => resentIn c'.log = resentIn c.log)
      (c := decodedClient t c env) (fun _ => rfl) (fun h h' => h'.trans h) ?_ ?_
    · intro c msgId packet
      exact (resentIn_append _ _).trans (List.append_nil _)
    · intro cmd hcmd c₁ _ _
      exact listProc_resent (cmd_ne_wait hcmd) _ _ _
  · rfl

/-- **The log has the retransmissions of a step.** -/
theorem resentBy_log (t : Target) (c : CoapClient) (a : Act) :
    resentIn (act t c a).log = resentIn c.log ++ (resentBy t c a).map (·.resent) := by
  cases a with
  | send m env =>
    change resentIn (coapMessageSend t c m env).2.log = _
    rcases send_cases t c m env with ⟨heap, es, hsent, hes, -⟩ | ⟨-, -, heap, packet, x, hsent, -⟩
    · rw [hsent]
      rcases hes with rfl | ⟨packet, rfl⟩
      · exact resentIn_append _ _
      · exact resentIn_append _ _
    · rw [hsent]
      dsimp only
      rw [resentIn_append, resentIn_append]
      exact List.append_assoc _ _ _
  | cycle env =>
    change resentIn (coapMessageCycle t c env).2.log = _
    have hrecv := recv_resent (t := t) (c := c) env
    unfold coapMessageCycle resentBy
    dsimp only
    split
    · rw [hrecv]
      exact (List.append_nil _).symm
    · cases hiter : env.sweepIter with
      | false =>
        rcases listProc_cases .wait false env.expired (coapMessageRecv t c env).2 {} with
          ⟨-, hsame⟩ | ⟨-, hiter, -⟩
        · rw [hsame, hrecv]
          exact (List.append_nil _).symm
        · exact nomatch hiter
      | true =>
        rw [sweep_resent, hrecv]
        rfl

end

/-! ## The heap grows -/

section

variable {t : Target}

theorem malloc_next (h : Heap) (ok : Bool) : h.next ≤ (h.malloc ok).2.next := by
  unfold Heap.malloc
  split
  · exact Nat.le_succ _
  · exact le_refl _

theorem optionInit_next (h : Heap) (okOption okVal : Bool) (num : UInt32) (val : Bytes) :
    h.next ≤ (qcloudIotCoapOptionInit h okOption okVal num val).2.next := by
  unfold qcloudIotCoapOptionInit Heap.malloc
  cases okOption with
  | false => exact le_refl _
  | true =>
    cases okVal with
    | false => exact Nat.le_succ _
    | true => exact Nat.le_add_right _ 2

theorem addLast_next (d : Decoder) (num : UInt32) (val : Bytes) :
    d.heap.next ≤ (coapMsgOpListAddLast d num val).2.heap.next := by
  have h := optionInit_next d.heap (d.oks.headD true) (d.oks.tail.headD true) num val
  unfold coapMsgOpListAddLast
  split
  · rename_i heap hinit
    rw [hinit] at h
    exact h
  · rename_i op heap hinit
    rw [hinit] at h
    exact h

theorem option_next (d : Decoder) (p : Bytes) :
    d.heap.next ≤ (coapMessageDeserializeOption t d p).2.heap.next := by
  unfold coapMessageDeserializeOption
  split
  · exact le_refl _
  · rename_i delta val rest hread
    dsimp only
    rw [opNum_eq]
    have h := addLast_next d (d.message.lastNum.toUInt32 + delta) val
    split
    · rename_i d₁ hadd
      rw [hadd] at h
      exact h
    · rename_i d₁ _ hadd
      rw [hadd] at h
      exact h

theorem options_next (n : Nat) (d : Decoder) (p : Bytes) :
    d.heap.next ≤ (coapMessageDeserializeOptions t n d p).2.heap.next := by
  induction n generalizing d p with
  | zero => exact le_refl _
  | succ n ih =>
    have hopt := option_next (t := t) d p
    rw [coapMessageDeserializeOptions]
    split
    · exact le_refl _
    · split
      · rename_i rc d₁ h
        rw [h] at hopt
        exact hopt
      · rename_i p₁ d₁ h
        rw [h] at hopt
        exact le_trans hopt (ih d₁ p₁)

theorem payload_next (d : Decoder) (p : Bytes) :
    d.heap.next ≤ (coapMessageDeserializePayload d p).2.heap.next := by
  have h := malloc_next d.heap (d.oks.headD true)
  cases p with
  | nil => exact le_refl _
  | cons b p =>
    rw [coapMessageDeserializePayload]
    split
    · exact le_refl _
    · split
      · exact le_refl _
      · split
        · rename_i heap hmalloc
          rw [hmalloc] at h
          exact h
        · rename_i addr heap hmalloc
          rw [hmalloc] at h
          exact h

theorem body_next (d : Decoder) (p : Bytes) :
    d.heap.next ≤ (coapMessageDeserializeBody t d p).2.heap.next := by
  have hops := options_next (t := t) p.length d p
  unfold coapMessageDeserializeBody
  split
  · rename_i rc d₁ h
    rw [h] at hops
    exact hops
  · rename_i p₁ d₁ h
    rw [h] at hops
    exact le_trans hops (payload_next d₁ p₁)

theorem deserialize_next (d : Decoder) (buf : Bytes) :
    d.heap.next ≤ (deserializeCoapMessage t d buf).2.heap.next := by
  unfold deserializeCoapMessage
  split
  · exact le_refl _
  · split
    · exact le_refl _
    · rename_i m p _
      have hbody := body_next (t := t) { d with message := m } p
      split
      · rename_i rc d₁ h
        rw [h] at hbody
        exact hbody
      · rename_i rest d₁ h
        rw [h] at hbody
        exact hbody

variable {c c' : CoapClient}

theorem call_next (c : CoapClient) (f : OnRespCallback) (p : UInt16) (m : CoapMessage)
    (userContext : Nat) : c.heap.next ≤ (c.call f p m userContext).heap.next := by
  unfold CoapClient.call
  cases f with
  | user f => exact le_refl _
  | auth =>
    dsimp only
    unfold coapClientAuthCallback
    split
    · exact le_refl _
    · split
      · split
        · exact le_refl _
        · exact Nat.le_succ _
      · exact le_refl _

theorem Notified.next {x : CoapMsgSendInfo} (h : Notified c x c') :
    c.heap.next ≤ c'.heap.next := by
  cases h with
  | called f m hf => exact call_next c f x.msgId m x.userContext
  | event f e hnone => exact le_refl _
  | nobody hnone hevent => exact le_refl _

theorem Visit.next {cmd : ProcessCmd} {m m' : CoapMessage} {x : CoapMsgSendInfo}
    {x' : Option CoapMsgSendInfo} (h : Visit cmd c m x c' m' x') : c.heap.next ≤ c'.heap.next := by
  cases h with
  | kept => exact le_refl _
  | responded => exact (notifyResponse_notified cmd c m x).next
  | removed => exact le_refl _
  | resent => exact le_refl _
  | timedOut => exact (notifyTimeout_notified c m x).next

theorem listProc_next (cmd : ProcessCmd) (iter : Bool) (expired : Nat → Bool) (c : CoapClient)
    (m : CoapMessage) : c.heap.next ≤ (coapMessageListProc cmd iter expired c m).2.heap.next := by
  rcases listProc_cases cmd iter expired c m with ⟨-, hsame⟩ | ⟨-, -, hproc⟩
  · rw [hsame]
  · rw [hproc]
    have hloop := @procNodes_visits cmd expired { c with heap := c.heap.alloc.2 } m
      (fun c₁ _ _ _ => c.heap.next + 1 ≤ c₁.heap.next) (le_refl _)
      (fun h hvisit => le_trans h hvisit.next) c.messageList
    exact le_trans (Nat.le_succ _) hloop

theorem recv_next (t : Target) (c : CoapClient) (env : CycleEnv) :
    c.heap.next ≤ (coapMessageRecv t c env).2.heap.next := by
  unfold coapMessageRecv
  split
  · dsimp only
    rw [handle_eq]
    have hdispatch : (decodedClient t c env).heap.next ≤
        (dispatchMessage t (decodedClient t c env) (decoded t c env) env).heap.next :=
      dispatch_rule (R := fun c c' => c.heap.next ≤ c'.heap.next) (fun _ => le_refl _) le_trans
        (fun _ _ _ => le_refl _) (fun cmd _ c₁ _ _ => listProc_next cmd _ _ c₁ _)
    exact le_trans (deserialize_next ⟨.zero, c.heap, env.oks⟩ env.recvBuf) hdispatch
  · exact le_refl _

theorem cycle_next (t : Target) (c : CoapClient) (env : CycleEnv) :
    c.heap.next ≤ (coapMessageCycle t c env).2.heap.next := by
  have hrecv := recv_next t c env
  unfold coapMessageCycle
  dsimp only
  split
  · exact hrecv
  · exact le_trans hrecv (listProc_next .wait _ _ _ _)

/-- A request that is listed has an address that was not there before. -/
theorem send_nodes (t : Target) (c : CoapClient) (m : CoapMessage) (env : SendEnv) :
    c.heap.next ≤ (coapMessageSend t c m env).2.heap.next ∧
      (coapMessageSend t c m env).2.maxRetryCount = c.maxRetryCount ∧
      ((coapMessageSend t c m env).2.messageList = c.messageList ∨
        ∃ x, (coapMessageSend t c m env).2.messageList = c.messageList ++ [x] ∧
          x.infoAddr = c.heap.next ∧ x.infoAddr < (coapMessageSend t c m env).2.heap.next) := by
  unfold coapMessageSend
  dsimp only
  split
  · exact ⟨le_refl _, rfl, .inl rfl⟩
  · split
    · split
      · unfold coapMessageListAdd Heap.malloc
        cases env.info with
        | false => exact ⟨le_refl _, rfl, .inl rfl⟩
        | true =>
          cases env.saved with
          | false =>
            cases env.node with
            | false => exact ⟨Nat.le_succ _, rfl, .inl rfl⟩
            | true => exact ⟨Nat.le_add_right _ 2, rfl,
                .inr ⟨_, rfl, rfl, Nat.lt_add_of_pos_right Nat.two_pos⟩⟩
          | true =>
            cases env.node with
            | false => exact ⟨Nat.le_add_right _ 2, rfl, .inl rfl⟩
            | true => exact ⟨Nat.le_add_right _ 3, rfl,
                .inr ⟨_, rfl, rfl, Nat.lt_add_of_pos_right (Nat.succ_pos 2)⟩⟩
      · exact ⟨le_refl _, rfl, .inl rfl⟩
    · exact ⟨le_refl _, rfl, .inl rfl⟩

end

/-! ## The nodes, by their addresses -/

/-- What becomes of a wait list in a cycle: no address is new, and what is settled stays so. -/
structure Ages (c c' : CoapClient) : Prop where
  maxRetryCount : c'.maxRetryCount = c.maxRetryCount
  addrs : (c'.messageList.map (·.infoAddr)).Sublist (c.messageList.map (·.infoAddr))
  settled : ∀ y ∈ c'.messageList, ∃ x ∈ c.messageList, y.infoAddr = x.infoAddr ∧
    (x.Settled c.maxRetryCount → y.Settled c.maxRetryCount)

namespace Ages

variable {c c₁ c₂ : CoapClient}

theorem of_eq (hmax : c₁.maxRetryCount = c.maxRetryCount)
    (hlist : c₁.messageList = c.messageList) : Ages c c₁ := by
  refine ⟨hmax, by rw [hlist], fun y hy => ⟨y, hlist ▸ hy, rfl, id⟩⟩

theorem trans (h : Ages c c₁) (h' : Ages c₁ c₂) : Ages c c₂ := by
  refine ⟨h'.maxRetryCount.trans h.maxRetryCount, h'.addrs.trans h.addrs, fun y hy => ?_⟩
  obtain ⟨x₁, hx₁, haddr₁, hsettled₁⟩ := h'.settled y hy
  obtain ⟨x, hx, haddr, hsettled⟩ := h.settled x₁ hx₁
  rw [h.maxRetryCount] at hsettled₁
  exact ⟨x, hx, haddr₁.trans haddr, fun hs => hsettled₁ (hsettled hs)⟩

end Ages

section

variable {t : Target} {c : CoapClient} {env : CycleEnv}

/-- A visit keeps the address of its node, and what settles it. -/
theorem visitNode_ages (cmd : ProcessCmd) (expired : Bool) (c : CoapClient) (m : CoapMessage)
    (x : CoapMsgSendInfo) : ∀ y ∈ (visitNode cmd expired c m x).2.2, y.infoAddr = x.infoAddr ∧
      (x.Settled c.maxRetryCount → y.Settled c.maxRetryCount) := by
  cases cmd with
  | ack =>
    simp only [visitNode]
    split
    · rintro y ⟨⟩
      exact ⟨rfl, fun _ => .inr (.inl rfl)⟩
    · rintro y ⟨⟩
      exact ⟨rfl, id⟩
  | resp =>
    simp only [visitNode]
    split
    · rintro y ⟨⟩
      exact ⟨rfl, fun _ => .inl rfl⟩
    · rintro y ⟨⟩
      exact ⟨rfl, id⟩
  | piggy =>
    simp only [visitNode]
    split
    · rintro y ⟨⟩
      exact ⟨rfl, fun _ => .inl rfl⟩
    · rintro y ⟨⟩
      exact ⟨rfl, id⟩
  | wait =>
    simp only [visitNode]
    split
    · rintro y ⟨⟩
    · rename_i hvalid
      split
      · rintro y ⟨⟩
        exact ⟨rfl, id⟩
      · split
        · -- a node that is retransmitted is not settled
          rename_i hretry
          rintro y ⟨⟩
          refine ⟨rfl, ?_⟩
          rintro (hinvalid | hacked | hle)
          · exact absurd hinvalid hvalid
          · rw [hretry.2] at hacked
            exact absurd hacked Bool.false_ne_true
          · exact absurd hretry.1 (UInt8.not_lt.mpr hle)
        · rintro y ⟨⟩

theorem listProc_ages (cmd : ProcessCmd) (iter : Bool) (expired : Nat → Bool) (c : CoapClient)
    (m : CoapMessage) : Ages c (coapMessageListProc cmd iter expired c m).2 := by
  have hframe := listProc_frame cmd iter expired c m
  rcases listProc_cases cmd iter expired c m with ⟨-, hsame⟩ | ⟨-, -, hproc⟩
  · rw [hsame]
    exact .of_eq rfl rfl
  · have hloop := @procNodes_rule cmd expired { c with heap := c.heap.alloc.2 } m
      (fun c₁ _ xs ys => c₁.maxRetryCount = c.maxRetryCount ∧
        (ys.map (·.infoAddr)).Sublist (xs.map (·.infoAddr)) ∧
        ∀ y ∈ ys, ∃ x ∈ xs, y.infoAddr = x.infoAddr ∧
          (x.Settled c.maxRetryCount → y.Settled c.maxRetryCount)) ⟨rfl, .slnil, nofun⟩
      (by
        rintro c₁ m₁ x xs ys ⟨hmax, haddrs, hsettled⟩
        have hvisit := visitNode_ages cmd (expired xs.length) c₁ m₁ x
        have hframe := (visitNode_visit cmd (expired xs.length) c₁ m₁ x).frame
        rw [hmax] at hvisit
        refine ⟨hframe.maxRetryCount.trans hmax, ?_, fun y hy => ?_⟩
        · cases hx' : (visitNode cmd (expired xs.length) c₁ m₁ x).2.2 with
          | none => exact haddrs.cons _
          | some y =>
            rw [hx'] at hvisit
            rw [Option.toList_some, List.singleton_append, List.map_cons, List.map_cons,
              (hvisit y rfl).1]
            exact haddrs.cons_cons _
        · rcases List.mem_append.mp hy with hy | hy
          · exact ⟨x, List.mem_cons_self, hvisit y (Option.mem_toList.mp hy)⟩
          · obtain ⟨z, hz, h⟩ := hsettled y hy
            exact ⟨z, List.mem_cons_of_mem x hz, h⟩) c.messageList
    rw [hproc] at hframe ⊢
    exact ⟨hframe.maxRetryCount, hloop.2.1, hloop.2.2⟩

theorem recv_ages (t : Target) (c : CoapClient) (env : CycleEnv) :
    Ages c (coapMessageRecv t c env).2 := by
  unfold coapMessageRecv
  split
  · dsimp only
    rw [handle_eq]
    have hdispatch : Ages (decodedClient t c env)
        (dispatchMessage t (decodedClient t c env) (decoded t c env) env) :=
      dispatch_rule (R := Ages) (fun _ => .of_eq rfl rfl) .trans
        (fun _ _ _ => .of_eq rfl rfl) (fun cmd _ c₁ _ _ => listProc_ages cmd _ _ c₁ _)
    exact ⟨hdispatch.maxRetryCount, hdispatch.addrs, hdispatch.settled⟩
  · exact .of_eq rfl rfl

theorem cycle_ages (t : Target) (c : CoapClient) (env : CycleEnv) :
    Ages c (coapMessageCycle t c env).2 := by
  have hrecv := recv_ages t c env
  unfold coapMessageCycle
  dsimp only
  split
  · exact hrecv
  · exact hrecv.trans (listProc_ages .wait _ _ _ _)

/-- Every address in the wait list was allocated, and is there once. -/
structure Addressed (c : CoapClient) : Prop where
  nodup : (c.messageList.map (·.infoAddr)).Nodup
  lt : ∀ x ∈ c.messageList, x.infoAddr < c.heap.next

theorem Addressed.ages {c c' : CoapClient} (h : Addressed c) (hages : Ages c c')
    (hnext : c.heap.next ≤ c'.heap.next) : Addressed c' := by
  refine ⟨h.nodup.sublist hages.addrs, fun y hy => ?_⟩
  obtain ⟨x, hx, haddr, -⟩ := hages.settled y hy
  rw [haddr]
  exact lt_of_lt_of_le (h.lt x hx) hnext

theorem act_addressed (h : Addressed c) (a : Act) : Addressed (act t c a) := by
  cases a with
  | cycle env => exact h.ages (cycle_ages t c env) (cycle_next t c env)
  | send m env =>
    change Addressed (coapMessageSend t c m env).2
    obtain ⟨hnext, -, hsame | ⟨x, hlist, haddr, hlt⟩⟩ := send_nodes t c m env
    · refine ⟨by rw [hsame]; exact h.nodup, fun y hy => ?_⟩
      rw [hsame] at hy
      exact lt_of_lt_of_le (h.lt y hy) hnext
    · constructor
      · rw [hlist, List.map_append, List.nodup_append]
        refine ⟨h.nodup, List.nodup_singleton _, fun a ha b hb => ?_⟩
        obtain ⟨y, hy, rfl⟩ := List.mem_map.mp ha
        obtain rfl := List.mem_singleton.mp hb
        have hlt : y.infoAddr < x.infoAddr := haddr ▸ h.lt y hy
        exact Nat.ne_of_lt hlt
      · intro y hy
        rw [hlist] at hy
        rcases List.mem_append.mp hy with hy | hy
        · exact lt_of_lt_of_le (h.lt y hy) hnext
        · rw [List.mem_singleton.mp hy]
          exact hlt

/-- Whatever request has this address is settled, and none will get it. -/
structure Done (a : Nat) (c : CoapClient) : Prop where
  settled : ∀ x ∈ c.messageList, x.infoAddr = a → x.Settled c.maxRetryCount
  lt : a < c.heap.next

theorem Done.ages {a : Nat} {c c' : CoapClient} (h : Done a c) (hages : Ages c c')
    (hnext : c.heap.next ≤ c'.heap.next) : Done a c' := by
  refine ⟨fun y hy haddr => ?_, lt_of_lt_of_le h.lt hnext⟩
  obtain ⟨x, hx, heq, hsettled⟩ := hages.settled y hy
  rw [hages.maxRetryCount]
  exact hsettled (h.settled x hx (heq.symm.trans haddr))

theorem act_done {a : Nat} (h : Done a c) (b : Act) : Done a (act t c b) := by
  cases b with
  | cycle env => exact h.ages (cycle_ages t c env) (cycle_next t c env)
  | send m env =>
    change Done a (coapMessageSend t c m env).2
    obtain ⟨hnext, hmax, hsame | ⟨x, hlist, haddr, -⟩⟩ := send_nodes t c m env
    · refine ⟨fun y hy => ?_, lt_of_lt_of_le h.lt hnext⟩
      rw [hsame] at hy
      rw [hmax]
      exact h.settled y hy
    · refine ⟨fun y hy hya => ?_, lt_of_lt_of_le h.lt hnext⟩
      rw [hlist] at hy
      rw [hmax]
      rcases List.mem_append.mp hy with hy | hy
      · exact h.settled y hy hya
      · have hlt := h.lt
        rw [List.mem_singleton.mp hy] at hya
        omega

theorem mem_resentNodes {maxRetryCount : UInt8} {expired : Nat → Bool} {x : CoapMsgSendInfo}
    {xs : List CoapMsgSendInfo} (h : x ∈ resentNodes maxRetryCount expired xs) :
    x ∈ xs ∧ ¬ x.Settled maxRetryCount := by
  induction xs with
  | nil => exact absurd h List.not_mem_nil
  | cons y ys ih =>
    rw [resentNodes] at h
    rcases List.mem_append.mp h with h | h
    · obtain ⟨hmem, hsettled⟩ := ih h
      exact ⟨List.mem_cons_of_mem y hmem, hsettled⟩
    · split at h
      · rename_i hy
        rw [List.mem_singleton.mp h]
        exact ⟨List.mem_cons_self, hy.2⟩
      · exact absurd h List.not_mem_nil

theorem done_resentNodes {a : Nat} (h : Done a c) (expired : Nat → Bool) :
    a ∉ (resentNodes c.maxRetryCount expired c.messageList).map (·.infoAddr) := by
  intro ha
  obtain ⟨x, hx, rfl⟩ := List.mem_map.mp ha
  obtain ⟨hmem, hsettled⟩ := mem_resentNodes hx
  exact hsettled (h.settled x hmem rfl)

/-- A request that is settled when the datagram has been handled is not retransmitted by the step. -/
theorem resentBy_done {a : Nat} (h : Done a (coapMessageRecv t c env).2) :
    a ∉ (resentBy t c (.cycle env)).map (·.infoAddr) := by
  unfold resentBy
  dsimp only
  split
  · exact List.not_mem_nil
  · split
    · exact done_resentNodes h _
    · exact List.not_mem_nil

/-- **A settled request is not retransmitted** in any run. -/
theorem done_resent {a : Nat} {c : CoapClient} (as : List Act) (h : Done a c) :
    a ∉ resentDuring t c as := by
  induction as generalizing c with
  | nil => exact List.not_mem_nil
  | cons b as ih =>
    rw [resentDuring, List.mem_append, not_or]
    refine ⟨?_, ih (act_done h b)⟩
    cases b with
    | send m env => exact List.not_mem_nil
    | cycle env => exact resentBy_done (h.ages (recv_ages t c env) (recv_next t c env))

end

/-! ## The acknowledgement -/

/-- What an acknowledgement is handled as: nothing, when its code is 0.00. -/
theorem cmd_of_ack {m : CoapMessage} (htype : m.type = .ack) :
    (m.IsEmpty ∧ m.cmd? = none) ∨
      (¬ m.IsEmpty ∧ (m.cmd? = some .ack ∨ m.cmd? = some .piggy)) := by
  unfold CoapMessage.cmd?
  by_cases hempty : m.IsEmpty
  · have hack : ¬ m.IsEmptyAck := fun h => absurd (hempty.1.symm.trans h.1) (by decide)
    refine .inl ⟨hempty, ?_⟩
    rw [if_neg fun h => hack h.2, if_neg fun h => h.2 hempty, if_neg]
    rintro ⟨h | h, -⟩
    · exact nomatch htype.symm.trans h
    · exact nomatch htype.symm.trans h
  · refine .inr ⟨hempty, ?_⟩
    by_cases hack : m.IsEmptyAck
    · exact .inl (if_pos ⟨htype, hack⟩)
    · rw [if_neg fun h => hack h.2, if_pos ⟨htype, hempty⟩]
      exact .inr rfl

section

variable {t : Target} {c : CoapClient} {env : CycleEnv} {x : CoapMsgSendInfo}

theorem recv_eq (hrc : env.rc = .retSuccess) :
    (coapMessageRecv t c env).2.messageList =
      (dispatchMessage t (decodedClient t c env) (decoded t c env) env).messageList := by
  unfold coapMessageRecv
  rw [if_pos hrc]
  dsimp only
  rw [handle_eq]

/-- An acknowledgement with another code than 0.00 settles the requests with its id. -/
theorem recv_settles (hrc : env.rc = .retSuccess) (htype : (decoded t c env).type = .ack)
    (hcode : ¬ (decoded t c env).IsEmpty) (hiter : env.iter = true) :
    ∀ y ∈ (coapMessageRecv t c env).2.messageList, ∃ z ∈ c.messageList, y.infoAddr = z.infoAddr ∧
      (z.msgId = (decoded t c env).msgId → y.Settled c.maxRetryCount) := by
  have hcmd : ∃ cmd, (cmd = .ack ∨ cmd = .piggy) ∧ (decoded t c env).cmd? = some cmd := by
    rcases cmd_of_ack htype with ⟨hempty, -⟩ | ⟨-, h | h⟩
    · exact absurd hempty hcode
    · exact ⟨_, .inl rfl, h⟩
    · exact ⟨_, .inr rfl, h⟩
  obtain ⟨cmd, hkind, hcmd⟩ := hcmd
  have hlist : (coapMessageRecv t c env).2.messageList =
      c.messageList.map (CoapMsgSendInfo.touch cmd (decoded t c env)) := by
    rw [recv_eq hrc, dispatch_eq, hcmd, hiter]
    rcases hkind with rfl | rfl
    · exact listProc_touch (by decide) env.expired (decodedClient t c env) (decoded t c env)
    · exact listProc_touch (by decide) env.expired (decodedClient t c env) (decoded t c env)
  intro y hy
  rw [hlist] at hy
  obtain ⟨z, hz, rfl⟩ := List.mem_map.mp hy
  refine ⟨z, hz, ?_⟩
  unfold CoapMsgSendInfo.touch
  rcases hkind with rfl | rfl
  · by_cases hid : z.msgId = (decoded t c env).msgId
    · simp only [if_pos hid]
      exact ⟨trivial, fun _ => .inr (.inl rfl)⟩
    · simp only [if_neg hid]
      exact ⟨trivial, fun h => absurd h hid⟩
  · by_cases hid : z.msgId = (decoded t c env).msgId
    · simp only [if_pos hid]
      exact ⟨trivial, fun _ => .inl rfl⟩
    · simp only [if_neg hid]
      exact ⟨trivial, fun h => absurd h hid⟩

/-- One with code 0.00, or whose iterator is not there, does nothing. -/
theorem recv_ignores (hrc : env.rc = .retSuccess) (htype : (decoded t c env).type = .ack)
    (hignored : (decoded t c env).IsEmpty ∨ env.iter = false) :
    (coapMessageRecv t c env).2.messageList = c.messageList := by
  rw [recv_eq hrc, dispatch_eq]
  rcases cmd_of_ack htype with ⟨-, hcmd⟩ | ⟨hcode, hcmd⟩
  · rw [hcmd]
    rfl
  · have hiter := hignored.resolve_left hcode
    have hsame : ∀ cmd, (coapMessageListProc cmd env.iter env.expired (decodedClient t c env)
        (decoded t c env)).2 = decodedClient t c env := by
      intro cmd
      rcases listProc_cases cmd env.iter env.expired (decodedClient t c env) (decoded t c env) with
        ⟨-, h⟩ | ⟨-, h, -⟩
      · exact h
      · exact nomatch hiter.symm.trans h
    rcases hcmd with hcmd | hcmd
    · rw [hcmd]
      dsimp only
      rw [hsame]
      rfl
    · rw [hcmd]
      dsimp only
      rw [hsame]
      rfl

theorem mem_resentNodes_of_expired {maxRetryCount : UInt8} (hx : ¬ x.Settled maxRetryCount)
    {xs : List CoapMsgSendInfo} (h : x ∈ xs) :
    x ∈ resentNodes maxRetryCount (fun _ => true) xs := by
  induction xs with
  | nil => exact absurd h List.not_mem_nil
  | cons y ys ih =>
    rw [resentNodes, List.mem_append]
    rcases List.mem_cons.mp h with rfl | h
    · rw [if_pos ⟨rfl, hx⟩]
      exact .inr List.mem_cons_self
    · exact .inl (ih h)

/-- A sweep retransmits a request that is not settled, or leaves it as it is. -/
theorem sweep_unsettled (iter : Bool) (expired : Nat → Bool) (m : CoapMessage)
    (hx : x ∈ c.messageList) (hunsettled : ¬ x.Settled c.maxRetryCount) :
    (iter = true ∧ x ∈ resentNodes c.maxRetryCount expired c.messageList) ∨
      x ∈ (coapMessageListProc .wait iter expired c m).2.messageList := by
  rcases listProc_cases .wait iter expired c m with ⟨-, hsame⟩ | ⟨-, hiter, hproc⟩
  · rw [hsame]
    exact .inr hx
  · have hloop := @procNodes_rule .wait expired { c with heap := c.heap.alloc.2 } m
      (fun c₁ _ xs ys => c₁.maxRetryCount = c.maxRetryCount ∧
        (x ∈ xs → x ∈ resentNodes c.maxRetryCount expired xs ∨ x ∈ ys)) ⟨rfl, nofun⟩
      (by
        rintro c₁ m₁ y xs ys ⟨hmax, ih⟩
        have hframe := (visitNode_visit .wait (expired xs.length) c₁ m₁ y).frame
        refine ⟨hframe.maxRetryCount.trans hmax, fun hmem => ?_⟩
        rw [resentNodes, List.mem_append, List.mem_append]
        rcases List.mem_cons.mp hmem with rfl | hmem
        · by_cases hexpired : expired xs.length = true
          · rw [if_pos ⟨hexpired, hunsettled⟩]
            exact .inl (.inr List.mem_cons_self)
          · have hvalid : x.nodeState ≠ .invalid := fun h => hunsettled (.inl h)
            have hkept : (visitNode .wait (expired xs.length) c₁ m₁ x).2.2 = some x := by
              simp only [visitNode]
              rw [if_neg hvalid, if_pos (Bool.eq_false_iff.mpr hexpired)]
            rw [hkept]
            exact .inr (.inl List.mem_cons_self)
        · rcases ih hmem with h | h
          · exact .inl (.inl h)
          · exact .inr (.inr h)) c.messageList
    rw [hproc]
    exact (hloop.2 hx).imp (fun h => ⟨hiter, h⟩) id

/-- A request that stays unsettled is retransmitted by then, or in a cycle later in which its timer
has expired. -/
theorem unsettled_resent (hrc : env.rc = .retSuccess)
    (hsame : (coapMessageRecv t c env).2.messageList = c.messageList) (hx : x ∈ c.messageList)
    (hunsettled : ¬ x.Settled c.maxRetryCount) :
    x.infoAddr ∈ resentDuring t c
      [.cycle env, .cycle { rc := .errSslReadTimeout, expired := fun _ => true }] := by
  have hmax := (recv_ages t c env).maxRetryCount
  have hgoes : ¬ ((coapMessageRecv t c env).1 ≠ .retSuccess ∧
      (coapMessageRecv t c env).1 ≠ .errSslReadTimeout) := by
    unfold coapMessageRecv
    rw [if_pos hrc]
    exact fun h => h.1 hrc
  have hsweep := sweep_unsettled (c := (coapMessageRecv t c env).2) env.sweepIter env.expired {}
    (hsame ▸ hx) (hmax ▸ hunsettled)
  have hcycle : act t c (.cycle env) =
      (coapMessageListProc .wait env.sweepIter env.expired (coapMessageRecv t c env).2 {}).2 := by
    change (coapMessageCycle t c env).2 = _
    unfold coapMessageCycle
    dsimp only
    rw [if_neg hgoes]
  rw [resentDuring, resentDuring, List.mem_append, List.mem_append]
  rcases hsweep with ⟨hiter, hnow⟩ | hlater
  · left
    unfold resentBy
    dsimp only
    rw [if_neg hgoes, if_pos hiter]
    exact List.mem_map_of_mem hnow
  · right
    left
    rw [← hcycle] at hlater
    have hmax' : (act t c (.cycle env)).maxRetryCount = c.maxRetryCount :=
      (cycle_ages t c env).maxRetryCount
    exact List.mem_map_of_mem (mem_resentNodes_of_expired (hmax' ▸ hunsettled) hlater)

end

/-- **An acknowledgement settles its request** iff its code is not 0.00 and the iterator of the list
is there, unless the request is settled already: then, and only then, no later run retransmits it. -/
theorem acknowledged_iff (t : Target) {c₀ : CoapClient} (hfresh : Fresh c₀) (as₀ : List Act)
    {x : CoapMsgSendInfo} (hx : x ∈ (run (act t) c₀ as₀).messageList) {env : CycleEnv}
    (hrc : env.rc = .retSuccess)
    (haccepted : (deserializeCoapMessage t ⟨.zero, (run (act t) c₀ as₀).heap, env.oks⟩
      env.recvBuf).1 = .retSuccess)
    (htype : (decoded t (run (act t) c₀ as₀) env).type = .ack)
    (hid : (decoded t (run (act t) c₀ as₀) env).msgId = x.msgId) :
    (∀ as, x.infoAddr ∉ resentDuring t (run (act t) c₀ as₀) (.cycle env :: as)) ↔
      (env.recvBuf[1]? ≠ some 0 ∧ env.iter = true) ∨
        x.Settled (run (act t) c₀ as₀).maxRetryCount := by
  have haddressed : Addressed (run (act t) c₀ as₀) := by
    have hstart : Addressed c₀ := by
      refine ⟨?_, fun y hy => ?_⟩
      · rw [hfresh.messageList]
        exact List.nodup_nil
      · rw [hfresh.messageList] at hy
        exact absurd hy List.not_mem_nil
    exact run_preserves Addressed (fun c a h => act_addressed h a) as₀ hstart
  generalize run (act t) c₀ as₀ = c at *
  have hcode : ¬ (decoded t c env).IsEmpty ↔ env.recvBuf[1]? ≠ some 0 :=
    not_congr (empty_of_accepted haccepted)
  have hdone : ∀ y ∈ c.messageList, y.infoAddr = x.infoAddr → y = x := fun y hy heq =>
    List.inj_on_of_nodup_map haddressed.nodup hy hx heq
  constructor
  · intro h
    by_contra hneither
    obtain ⟨hignored, hunsettled⟩ := not_or.mp hneither
    refine h _ (unsettled_resent hrc (recv_ignores hrc htype ?_) hx hunsettled)
    rw [← hcode, not_and_or, not_not] at hignored
    exact hignored.imp id Bool.eq_false_iff.mpr
  · rintro hgood as
    rw [resentDuring, List.mem_append, not_or]
    have hnext := recv_next t c env
    have hages := recv_ages t c env
    have hafter : Done x.infoAddr (coapMessageRecv t c env).2 := by
      rcases hgood with ⟨hnonzero, hiter⟩ | hsettled
      · refine ⟨fun y hy heq => ?_, lt_of_lt_of_le (haddressed.lt x hx) hnext⟩
        obtain ⟨z, hz, haddr, hsettled⟩ := recv_settles hrc htype (hcode.mpr hnonzero) hiter y hy
        rw [hages.maxRetryCount]
        refine hsettled ?_
        rw [hdone z hz (haddr.symm.trans heq), hid]
      · refine Done.ages ⟨fun y hy heq => ?_, haddressed.lt x hx⟩ hages hnext
        rw [hdone y hy heq]
        exact hsettled
    refine ⟨resentBy_done hafter, done_resent as ?_⟩
    change Done x.infoAddr (coapMessageCycle t c env).2
    unfold coapMessageCycle
    dsimp only
    split
    · exact hafter
    · exact hafter.ages (listProc_ages .wait _ _ _ _) (listProc_next .wait _ _ _ _)

/-- A client whose request 1 waits for its acknowledgement. -/
def listedClient : CoapClient := run (act ⟨.w32, .signed⟩) idleClient [handledRequest]

theorem listedClient_ne : listedClient.messageList ≠ [] := by decide

/-- An acknowledgement of code 2.03, and a cycle in which the timer has expired. -/
theorem acknowledged_valid :
    0 ∉ resentDuring ⟨.w32, .signed⟩ listedClient
      [.cycle { recvBuf := [0x60, 0x43, 0, 1] },
        .cycle { rc := .errSslReadTimeout, expired := fun _ => true }] :=
  (acknowledged_iff ⟨.w32, .signed⟩ ⟨rfl, rfl⟩ [handledRequest]
    (List.head_mem listedClient_ne) rfl (by decide) (by decide)
    (by decide)).mpr (.inl ⟨by decide, rfl⟩) _

/-- An empty acknowledgement is accepted and has the id of the request, which is retransmitted when
its timer expires. -/
theorem acknowledged_fails :
    (deserializeCoapMessage ⟨.w32, .signed⟩ ⟨.zero, listedClient.heap, []⟩ [0x60, 0, 0, 1]).1 =
        .retSuccess ∧
      (decoded ⟨.w32, .signed⟩ listedClient { recvBuf := [0x60, 0, 0, 1] }).type = .ack ∧
      (∃ x ∈ listedClient.messageList, x.infoAddr = 0 ∧ x.nodeState = .normal ∧
        (decoded ⟨.w32, .signed⟩ listedClient { recvBuf := [0x60, 0, 0, 1] }).msgId = x.msgId) ∧
      0 ∈ resentDuring ⟨.w32, .signed⟩ listedClient
        [.cycle { recvBuf := [0x60, 0, 0, 1] },
          .cycle { rc := .errSslReadTimeout, expired := fun _ => true }] := by
  decide

end QcloudIot.Coap
