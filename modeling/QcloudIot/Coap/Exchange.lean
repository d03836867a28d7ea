import QcloudIot.Coap.Client

/-!
# What the wait list is used for

* `procNodes_rule`: what every visit preserves, the loop preserves;
* `Visit`, `listProc_visits`: the same for `_coap_message_list_proc`, by what a visit can do;
* `dispatch_eq`: a message is an acknowledgement, a piggybacked response, a response, or nothing;
* `dispatch_rule`, `cycle_rule`: what the acknowledgement sent, the processing of the message and the
  sweep preserve, a cycle preserves;
* **`rejected_inert`**: a datagram that the decoder rejects changes nothing but the heap.
-/

namespace QcloudIot.Coap

/-! ## The loop -/

/-- What nothing here changes. -/
structure Frame (c c' : CoapClient) : Prop where
  nextMsgId : c'.nextMsgId = c.nextMsgId
  messageToken : c'.messageToken = c.messageToken
  maxRetryCount : c'.maxRetryCount = c.maxRetryCount
  eventHandle : c'.eventHandle = c.eventHandle

namespace Frame

variable {c c' c'' : CoapClient}

theorem refl (c : CoapClient) : Frame c c := ⟨rfl, rfl, rfl, rfl⟩

theorem trans (h : Frame c c') (h' : Frame c' c'') : Frame c c'' :=
  ⟨h'.nextMsgId.trans h.nextMsgId, h'.messageToken.trans h.messageToken,
    h'.maxRetryCount.trans h.maxRetryCount, h'.eventHandle.trans h.eventHandle⟩

end Frame

section

variable {cmd : ProcessCmd} {expired : Nat → Bool} {c : CoapClient} {m : CoapMessage}

/-- **The loop**: `I` relates what has been visited to what is left of it. -/
theorem procNodes_rule {I : CoapClient → CoapMessage → List CoapMsgSendInfo →
      List CoapMsgSendInfo → Prop} (hnil : I c m [] [])
    (hcons : ∀ c₁ m₁ x xs xs', I c₁ m₁ xs xs' →
      I (visitNode cmd (expired xs.length) c₁ m₁ x).1
        (visitNode cmd (expired xs.length) c₁ m₁ x).2.1 (x :: xs)
        ((visitNode cmd (expired xs.length) c₁ m₁ x).2.2.toList ++ xs')) :
    ∀ nodes, I (procNodes cmd expired c m nodes).1 (procNodes cmd expired c m nodes).2.1 nodes
      (procNodes cmd expired c m nodes).2.2 := by
  intro nodes
  induction nodes with
  | nil => exact hnil
  | cons x xs ih => exact hcons _ _ x xs _ ih

theorem authCallback_frame (c : CoapClient) (m : CoapMessage) (userContext : Nat) :
    Frame c (coapClientAuthCallback c m userContext) ∧
      (coapClientAuthCallback c m userContext).messageList = c.messageList ∧
      (coapClientAuthCallback c m userContext).log = c.log := by
  unfold coapClientAuthCallback
  split
  · exact ⟨.refl c, rfl, rfl⟩
  · split
    · split
      · exact ⟨⟨rfl, rfl, rfl, rfl⟩, rfl, rfl⟩
      · exact ⟨⟨rfl, rfl, rfl, rfl⟩, rfl, rfl⟩
    · exact ⟨⟨rfl, rfl, rfl, rfl⟩, rfl, rfl⟩

/-- A callback is logged and leaves the wait list alone. -/
theorem call_frame (c : CoapClient) (f : OnRespCallback) (request : UInt16) (m : CoapMessage)
    (userContext : Nat) :
    Frame c (c.call f request m userContext) ∧
      (c.call f request m userContext).messageList = c.messageList ∧
      (c.call f request m userContext).log = c.log ++ [.response request f m] := by
  unfold CoapClient.call
  cases f with
  | auth =>
    obtain ⟨hframe, hlist, hlog⟩ :=
      authCallback_frame (c.emit (.response request .auth m)) m userContext
    exact ⟨⟨hframe.nextMsgId, hframe.messageToken, hframe.maxRetryCount, hframe.eventHandle⟩,
      hlist, hlog⟩
  | user f => exact ⟨⟨rfl, rfl, rfl, rfl⟩, rfl, rfl⟩

/-- What a callback for request `x` can be: a call of its handler, of the client's event callback, or
none. -/
inductive Notified (c : CoapClient) (x : CoapMsgSendInfo) : CoapClient → Prop where
  | called (f : OnRespCallback) (m : CoapMessage) (hf : x.handler = some f) :
    Notified c x (c.call f x.msgId m x.userContext)
  | event (f : FnPtr) (e : CoapEventType) (hnone : x.handler = none) :
    Notified c x (c.emit (.event x.msgId f e))
  | nobody (hnone : x.handler = none) (hevent : c.eventHandle = none) : Notified c x c

theorem notifyResponse_notified (cmd : ProcessCmd) (c : CoapClient) (m : CoapMessage)
    (x : CoapMsgSendInfo) : Notified c x (notifyResponse cmd c m x).1 := by
  unfold notifyResponse
  cases hf : x.handler with
  | some f => exact .called f _ hf
  | none =>
    dsimp only
    cases hevent : c.eventHandle with
    | some f => exact .event f _ hf
    | none => exact .nobody hf hevent

theorem notifyTimeout_notified (c : CoapClient) (m : CoapMessage) (x : CoapMsgSendInfo) :
    Notified c x (notifyTimeout c m x).1 := by
  unfold notifyTimeout
  cases hf : x.handler with
  | some f => exact .called f _ hf
  | none =>
    dsimp only
    cases hevent : c.eventHandle with
    | some f => exact .event f _ hf
    | none => exact .nobody hf hevent

theorem Notified.frame {c c' : CoapClient} {x : CoapMsgSendInfo} (h : Notified c x c') :
    Frame c c' := by
  cases h with
  | called f m hf => exact (call_frame c f x.msgId m x.userContext).1
  | event f e hnone => exact ⟨rfl, rfl, rfl, rfl⟩
  | nobody hnone hevent => exact .refl c

/-- A callback is given the message with the context and, for an event of a response, the id of the
request in it. -/
theorem notifyResponse_key (cmd : ProcessCmd) (c : CoapClient) (m : CoapMessage)
    (x : CoapMsgSendInfo) : (notifyResponse cmd c m x).2.token = m.token ∧
      (cmd ≠ .resp → (notifyResponse cmd c m x).2.msgId = m.msgId) := by
  unfold notifyResponse
  cases x.handler with
  | some f => exact ⟨rfl, fun _ => rfl⟩
  | none =>
    dsimp only
    cases c.eventHandle with
    | some f =>
      dsimp only
      split
      · exact ⟨rfl, fun hne => absurd ‹cmd = .resp› hne⟩
      · exact ⟨rfl, fun _ => rfl⟩
    | none => exact ⟨rfl, fun _ => rfl⟩

end

/-! ## A visit -/

/-- The message is a response to the request, as the command looks for it. -/
def ProcessCmd.Matches (cmd : ProcessCmd) (m : CoapMessage) (x : CoapMsgSendInfo) : Prop :=
  match cmd with
  | .resp => x.HasToken m
  | .piggy => x.msgId = m.msgId
  | _ => False

/-- What a visit can do to the client, the message and the node. -/
inductive Visit (cmd : ProcessCmd) (c : CoapClient) (m : CoapMessage) (x : CoapMsgSendInfo) :
    CoapClient → CoapMessage → Option CoapMsgSendInfo → Prop where
  | kept (acked : Bool) (hnormal : cmd = .wait → x.nodeState = .normal) :
    Visit cmd c m x c m (some { x with acked := acked })
  | responded (acked : Bool) (hmatch : cmd.Matches m x) :
    Visit cmd c m x (notifyResponse cmd c m x).1 (notifyResponse cmd c m x).2
      (some { x with acked := acked, nodeState := .invalid })
  | removed (hinvalid : x.nodeState = .invalid) : Visit cmd c m x (c.listRemove x) m none
  | resent (packet : Bytes) (hlt : x.retransCount < c.maxRetryCount)
      (hnormal : x.nodeState = .normal) :
    Visit cmd c m x (c.emit (.resend x.msgId packet)) m
      (some { x with retransCount := x.retransCount + 1 })
  | timedOut (hwait : cmd = .wait) (hnormal : x.nodeState = .normal) :
    Visit cmd c m x ((notifyTimeout c m x).1.listRemove x) (notifyTimeout c m x).2 none

theorem visitNode_visit (cmd : ProcessCmd) (expired : Bool) (c : CoapClient) (m : CoapMessage)
    (x : CoapMsgSendInfo) :
    Visit cmd c m x (visitNode cmd expired c m x).1 (visitNode cmd expired c m x).2.1
      (visitNode cmd expired c m x).2.2 := by
  cases cmd with
  | ack =>
    simp only [visitNode]
    split
    · exact .kept true nofun
    · exact .kept x.acked nofun
  | resp =>
    simp only [visitNode]
    split
    · exact .responded x.acked ‹x.HasToken m›
    · exact .kept x.acked nofun
  | piggy =>
    simp only [visitNode]
    split
    · exact .responded true ‹x.msgId = m.msgId›
    · exact .kept x.acked nofun
  | wait =>
    simp only [visitNode]
    split
    · exact .removed ‹_›
    · rename_i hvalid
      have hnormal : x.nodeState = .normal := by
        cases hs : x.nodeState with
        | normal => rfl
        | invalid => exact absurd hs hvalid
      split
      · exact .kept x.acked fun _ => hnormal
      · split
        · rename_i hretry
          exact .resent _ hretry.1 hnormal
        · exact .timedOut rfl hnormal

theorem Visit.frame {cmd : ProcessCmd} {c c' : CoapClient} {m m' : CoapMessage}
    {x : CoapMsgSendInfo} {x' : Option CoapMsgSendInfo} (h : Visit cmd c m x c' m' x') :
    Frame c c' := by
  cases h with
  | kept => exact .refl c
  | responded => exact (notifyResponse_notified cmd c m x).frame
  | removed => exact ⟨rfl, rfl, rfl, rfl⟩
  | resent => exact ⟨rfl, rfl, rfl, rfl⟩
  | timedOut =>
    have h := (notifyTimeout_notified c m x).frame
    exact ⟨h.nextMsgId, h.messageToken, h.maxRetryCount, h.eventHandle⟩

/-- A node that stays keeps its callback. -/
theorem Visit.handler {cmd : ProcessCmd} {c c' : CoapClient} {m m' : CoapMessage}
    {x : CoapMsgSendInfo} {x' : Option CoapMsgSendInfo} (h : Visit cmd c m x c' m' x') :
    ∀ y ∈ x', y.handler = x.handler := by
  cases h with
  | kept => rintro y ⟨⟩; rfl
  | responded => rintro y ⟨⟩; rfl
  | removed => nofun
  | resent => rintro y ⟨⟩; rfl
  | timedOut => nofun

/-- **The loop, visit by visit.** -/
theorem procNodes_visits {cmd : ProcessCmd} {expired : Nat → Bool} {c : CoapClient}
    {m : CoapMessage} {I : CoapClient → CoapMessage → List CoapMsgSendInfo →
      List CoapMsgSendInfo → Prop} (hnil : I c m [] [])
    (hcons : ∀ {c₁ m₁ x xs xs' c₂ m₂ x'}, I c₁ m₁ xs xs' → Visit cmd c₁ m₁ x c₂ m₂ x' →
      I c₂ m₂ (x :: xs) (x'.toList ++ xs')) (nodes : List CoapMsgSendInfo) :
    I (procNodes cmd expired c m nodes).1 (procNodes cmd expired c m nodes).2.1 nodes
      (procNodes cmd expired c m nodes).2.2 :=
  procNodes_rule hnil (fun c₁ m₁ x xs _ h =>
    hcons h (visitNode_visit cmd (expired xs.length) c₁ m₁ x)) nodes

/-- Nothing happens to an empty wait list. -/
theorem listProc_nil (cmd : ProcessCmd) (iter : Bool) (expired : Nat → Bool) {c : CoapClient}
    (m : CoapMessage) (hnil : c.messageList = []) :
    (coapMessageListProc cmd iter expired c m).2 = c := by
  unfold coapMessageListProc
  rw [if_pos hnil]

/-- **`_coap_message_list_proc`** does nothing, or runs the loop over the wait list. -/
theorem listProc_cases (cmd : ProcessCmd) (iter : Bool) (expired : Nat → Bool) (c : CoapClient)
    (m : CoapMessage) :
    ((c.messageList = [] ∨ iter = false) ∧ (coapMessageListProc cmd iter expired c m).2 = c) ∨
      (c.messageList ≠ [] ∧ iter = true ∧ (coapMessageListProc cmd iter expired c m).2 =
        { (procNodes cmd expired { c with heap := c.heap.alloc.2 } m c.messageList).1 with
          messageList :=
            (procNodes cmd expired { c with heap := c.heap.alloc.2 } m c.messageList).2.2
          heap := (procNodes cmd expired { c with heap := c.heap.alloc.2 } m
            c.messageList).1.heap.free c.heap.next }) := by
  unfold coapMessageListProc
  split
  · exact .inl ⟨.inl ‹_›, rfl⟩
  · cases iter with
    | false => exact .inl ⟨.inr rfl, rfl⟩
    | true => exact .inr ⟨‹_›, rfl, rfl⟩

/-- **`_coap_message_list_proc`, visit by visit.** -/
theorem listProc_visits (cmd : ProcessCmd) (iter : Bool) (expired : Nat → Bool) (c : CoapClient)
    (m : CoapMessage) {I : CoapClient → CoapMessage → List CoapMsgSendInfo →
      List CoapMsgSendInfo → Prop} (hnil : ∀ heap, I { c with heap := heap } m [] [])
    (hcons : ∀ {c₁ m₁ x xs xs' c₂ m₂ x'}, I c₁ m₁ xs xs' → Visit cmd c₁ m₁ x c₂ m₂ x' →
      I c₂ m₂ (x :: xs) (x'.toList ++ xs')) :
    ((c.messageList = [] ∨ iter = false) ∧ (coapMessageListProc cmd iter expired c m).2 = c) ∨
      (iter = true ∧ ∃ c₁ m₁ nodes heap, I c₁ m₁ c.messageList nodes ∧
        (coapMessageListProc cmd iter expired c m).2 =
          { c₁ with messageList := nodes, heap := heap }) := by
  rcases listProc_cases cmd iter expired c m with hidle | ⟨-, hiter, h⟩
  · exact .inl hidle
  · exact .inr ⟨hiter, _, _, _, _, procNodes_visits (hnil _) hcons c.messageList, h⟩

theorem listProc_frame (cmd : ProcessCmd) (iter : Bool) (expired : Nat → Bool) (c : CoapClient)
    (m : CoapMessage) : Frame c (coapMessageListProc cmd iter expired c m).2 := by
  rcases listProc_visits cmd iter expired c m
      (I := fun c₁ _ _ _ => Frame c c₁) (fun _ => ⟨rfl, rfl, rfl, rfl⟩)
      (fun h hvisit => h.trans hvisit.frame) with ⟨-, hsame⟩ | ⟨-, c₁, m₁, nodes, heap, hI, hproc⟩
  · rw [hsame]
    exact .refl c
  · rw [hproc]
    exact ⟨hI.nextMsgId, hI.messageToken, hI.maxRetryCount, hI.eventHandle⟩

/-- No node gets another callback. -/
theorem listProc_handlers (cmd : ProcessCmd) (iter : Bool) (expired : Nat → Bool) (c : CoapClient)
    (m : CoapMessage) : ∀ y ∈ (coapMessageListProc cmd iter expired c m).2.messageList,
      ∃ x ∈ c.messageList, y.handler = x.handler := by
  rcases listProc_visits cmd iter expired c m
      (I := fun _ _ xs xs' => ∀ y ∈ xs', ∃ x ∈ xs, y.handler = x.handler) (fun _ => nofun)
      (by
        intro c₁ m₁ x xs xs' c₂ m₂ x' ih hvisit y hy
        obtain hy | hy := List.mem_append.mp hy
        · exact ⟨x, List.mem_cons_self, hvisit.handler y (Option.mem_toList.mp hy)⟩
        · obtain ⟨z, hz, heq⟩ := ih y hy
          exact ⟨z, List.mem_cons_of_mem x hz, heq⟩) with
    ⟨-, hsame⟩ | ⟨-, c₁, m₁, nodes, heap, hI, hproc⟩
  · rw [hsame]
    exact fun y hy => ⟨y, hy, rfl⟩
  · rw [hproc]
    exact hI

/-! ## Callbacks -/

/-- The entries are callbacks or events for request `p`. -/
def CallbacksOf (p : UInt16) (es : List Entry) : Prop :=
  ∀ e ∈ es, (∃ f m, e = .response p f m) ∨ ∃ f t, e = .event p f t

/-- The request has a callback of its own or the client's. -/
def HasCallback (c : CoapClient) (x : CoapMsgSendInfo) : Prop :=
  x.handler ≠ none ∨ c.eventHandle ≠ none

theorem callbacksOf_nil (p : UInt16) : CallbacksOf p [] := fun _ he => absurd he (by simp)

theorem callbacksOf_response (p : UInt16) (f : OnRespCallback) (m : CoapMessage) :
    CallbacksOf p [.response p f m] := fun _ he => .inl ⟨f, m, List.mem_singleton.mp he⟩

theorem callbacksOf_event (p : UInt16) (f : FnPtr) (t : CoapEventType) :
    CallbacksOf p [.event p f t] := fun _ he => .inr ⟨f, t, List.mem_singleton.mp he⟩

/-- The callback is logged, once where there is one. -/
theorem Notified.log {c c' : CoapClient} {x : CoapMsgSendInfo} (h : Notified c x c') :
    ∃ es, c'.log = c.log ++ es ∧ CallbacksOf x.msgId es ∧ (HasCallback c x → es.length = 1) := by
  cases h with
  | called f m hf =>
    exact ⟨_, (call_frame c f x.msgId m x.userContext).2.2, callbacksOf_response _ _ _, fun _ => rfl⟩
  | event f e hnone => exact ⟨_, rfl, callbacksOf_event _ _ _, fun _ => rfl⟩
  | nobody hnone hevent =>
    refine ⟨[], (List.append_nil _).symm, callbacksOf_nil _, ?_⟩
    rintro (hhandler | hclient)
    · exact absurd hnone hhandler
    · exact absurd hevent hclient

/-- What sees no callback in the log sees nothing new after one. -/
theorem Notified.filterMap_log {β : Type*} {view : Entry → Option β}
    (hresponse : ∀ p f m, view (.response p f m) = none)
    (hevent : ∀ p f t, view (.event p f t) = none) {c c' : CoapClient} {x : CoapMsgSendInfo}
    (h : Notified c x c') : c'.log.filterMap view = c.log.filterMap view := by
  obtain ⟨es, hlog, hes, -⟩ := h.log
  have hnone : es.filterMap view = [] := by
    rw [List.filterMap_eq_nil_iff]
    intro e he
    rcases hes e he with ⟨f, m, rfl⟩ | ⟨f, t, rfl⟩
    · exact hresponse _ f m
    · exact hevent _ f t
  rw [hlog, List.filterMap_append, hnone, List.append_nil]

/-! ## What a message is for -/

/-- The command that `_coap_message_handle` runs for a message. -/
def CoapMessage.cmd? (m : CoapMessage) : Option ProcessCmd :=
  if m.type = .ack ∧ m.IsEmptyAck then some .ack
  else if m.type = .ack ∧ ¬ m.IsEmpty then some .piggy
  else if (m.type = .con ∨ m.type = .non) ∧ m.IsEmptyRsp then some .resp
  else none

theorem dispatch_eq (t : Target) (c : CoapClient) (m : CoapMessage) (env : CycleEnv) :
    dispatchMessage t c m env =
      match m.cmd? with
      | none => c
      | some .resp => coapRespMessageHandle t c m env
      | some cmd => (coapMessageListProc cmd env.iter env.expired c m).2 := by
  unfold dispatchMessage CoapMessage.cmd?
  by_cases h₁ : m.type = .ack ∧ m.IsEmptyAck
  · rw [if_pos h₁, if_pos h₁]
  · rw [if_neg h₁, if_neg h₁]
    by_cases h₂ : m.type = .ack ∧ ¬ m.IsEmpty
    · rw [if_pos h₂, if_pos h₂]
    · rw [if_neg h₂, if_neg h₂]
      by_cases h₃ : m.type = .con ∧ m.IsEmptyRsp
      · rw [if_pos h₃, if_pos ⟨.inl h₃.1, h₃.2⟩]
      · rw [if_neg h₃]
        by_cases h₄ : m.type = .non ∧ m.IsEmptyRsp
        · rw [if_pos h₄, if_pos ⟨.inr h₄.1, h₄.2⟩]
        · rw [if_neg h₄, if_neg]
          rintro ⟨hcon | hnon, hrsp⟩
          · exact h₃ ⟨hcon, hrsp⟩
          · exact h₄ ⟨hnon, hrsp⟩

/-- A message that its check rejects is for nothing. -/
theorem cmd_of_rejected {m : CoapMessage} (h : coapMsgCheck m ≠ .retSuccess) : m.cmd? = none := by
  unfold coapMsgCheck at h
  unfold CoapMessage.cmd?
  by_cases hempty : m.IsEmpty
  · have hcode : m.codeClass = 0 := hempty.1
    have hack : ¬ m.IsEmptyAck := fun ha => absurd (hcode.symm.trans ha.1) (by decide)
    have hrsp : ¬ m.IsEmptyRsp := fun hr => absurd (hcode.symm.trans hr.1) (by decide)
    rw [if_neg fun hc => hack hc.2, if_neg fun hc => hc.2 hempty, if_neg fun hc => hrsp hc.2]
  · rw [if_neg hempty] at h
    have hrst : m.type = .rst := by
      by_contra hne
      rw [if_neg hne] at h
      exact h rfl
    rw [hrst, if_neg (by simp), if_neg (by simp), if_neg (by simp)]

/-! ## A cycle -/

/-- What the decoder makes of the datagram of a cycle. -/
def decoded (t : Target) (c : CoapClient) (env : CycleEnv) : CoapMessage :=
  (deserializeCoapMessage t ⟨.zero, c.heap, env.oks⟩ env.recvBuf).2.message

/-- **A rejected datagram is inert**: whatever the state of the client, it changes nothing but the
heap, so neither the wait list nor any node in it, and no packet is sent and no callback called. -/
theorem rejected_inert (t : Target) (c : CoapClient) (buf : Bytes) (env : CycleEnv)
    (hrejected : (deserializeCoapMessage t ⟨.zero, c.heap, env.oks⟩ buf).1 ≠ .retSuccess) :
    ∃ heap, coapMessageHandle t c buf env = { c with heap := heap } := by
  have hnone : (deserializeCoapMessage t ⟨.zero, c.heap, env.oks⟩ buf).2.message.cmd? = none := by
    rcases deserialize_cases t ⟨.zero, c.heap, env.oks⟩ buf with ⟨-, hzero⟩ | hcheck
    · rw [hzero]
      rfl
    · rw [hcheck] at hrejected
      exact cmd_of_rejected hrejected
  unfold coapMessageHandle
  dsimp only
  rw [dispatch_eq, hnone]
  dsimp only
  split
  · exact ⟨_, rfl⟩
  · exact ⟨_, rfl⟩

/-- A datagram whose second option claims more bytes than there are. -/
theorem rejected_inert_cutOff :
    ∃ heap, coapMessageHandle ⟨.w32, .signed⟩
        (.init ⟨[80], [68], by decide, by decide⟩ 0 5 (some 7)) [0x40, 1, 0, 1, 0xb1, 116, 4, 116] {} =
      { CoapClient.init ⟨[80], [68], by decide, by decide⟩ 0 5 (some 7) with heap := heap } :=
  rejected_inert ⟨.w32, .signed⟩ _ [0x40, 1, 0, 1, 0xb1, 116, 4, 116] {} (by decide)

/-- An acknowledgement is sent or is not. -/
theorem sendAck_cases (t : Target) (c : CoapClient) (msgId : UInt16) (env : SendEnv) :
    (coapClientSendAck t c msgId env).2 = c ∨
      ∃ packet, (coapClientSendAck t c msgId env).2 =
        c.emit (.send { type := .ack, msgId := msgId } packet) := by
  have hheap : ∀ (c : CoapClient) (ack : CoapMessage), ack.opList = [] → ack.payLoadAt = none →
      { c with heap := (coapMessageDestroy c.heap ack).2 } = c := by
    intro c ack hops hpay
    simp [coapMessageDestroy, hops, hpay, optionBlocks, Heap.freeAll]
  have hsend : (coapMessageSend t c { type := .ack, msgId := msgId } env).2 = c ∨
      ∃ packet, (coapMessageSend t c { type := .ack, msgId := msgId } env).2 =
        c.emit (.send { type := .ack, msgId := msgId } packet) := by
    unfold coapMessageSend
    dsimp only
    split
    · exact .inl rfl
    · split
      · rw [if_neg (by simp)]
        exact .inr ⟨_, rfl⟩
      · exact .inr ⟨_, rfl⟩
  unfold coapClientSendAck
  dsimp only
  rw [hheap _ _ rfl rfl]
  exact hsend

/-- The client when the datagram has been decoded. -/
def decodedClient (t : Target) (c : CoapClient) (env : CycleEnv) : CoapClient :=
  { c with heap := (deserializeCoapMessage t ⟨.zero, c.heap, env.oks⟩ env.recvBuf).2.heap }

theorem handle_eq (t : Target) (c : CoapClient) (env : CycleEnv) :
    coapMessageHandle t c env.recvBuf env =
      { dispatchMessage t (decodedClient t c env) (decoded t c env) env with
        heap := (dispatchMessage t (decodedClient t c env) (decoded t c env) env).heap.freeAll
          (decoded t c env).payLoadAt.toList } := by
  unfold coapMessageHandle
  dsimp only
  split
  · rename_i p hp
    rw [show (decoded t c env).payLoadAt = some p from hp]
    rfl
  · rename_i hp
    rw [show (decoded t c env).payLoadAt = none from hp]
    simp [Heap.freeAll, decoded, decodedClient]

section

variable {R : CoapClient → CoapClient → Prop} {t : Target} {c : CoapClient} {env : CycleEnv}

/-- **The dispatch**: what is kept by acknowledgements and by the processing of the message. -/
theorem dispatch_rule {m : CoapMessage} (hrefl : ∀ c, R c c)
    (htrans : ∀ {c₁ c₂ c₃}, R c₁ c₂ → R c₂ c₃ → R c₁ c₃)
    (hack : ∀ c msgId packet, R c (c.emit (.send { type := .ack, msgId := msgId } packet)))
    (hproc : ∀ cmd, m.cmd? = some cmd → ∀ c₁, Frame c c₁ → c₁.messageList = c.messageList →
      R c₁ (coapMessageListProc cmd env.iter env.expired c₁ m).2) :
    R c (dispatchMessage t c m env) := by
  rw [dispatch_eq]
  split
  · exact hrefl c
  · rename_i hcmd
    unfold coapRespMessageHandle
    split
    · rcases sendAck_cases t c m.msgId env.ack with hsame | ⟨packet, hsent⟩
      · rw [hsame]
        exact hproc .resp hcmd c (.refl c) rfl
      · rw [hsent]
        exact htrans (hack c _ packet) (hproc .resp hcmd _ ⟨rfl, rfl, rfl, rfl⟩ rfl)
    · exact hproc .resp hcmd c (.refl c) rfl
  · rename_i cmd _ hcmd
    exact hproc cmd hcmd c (.refl c) rfl

/-- **A cycle**: what is kept by changes of the heap, by acknowledgements, by the processing of the
message and by the sweep. -/
theorem cycle_rule (htrans : ∀ {c₁ c₂ c₃}, R c₁ c₂ → R c₂ c₃ → R c₁ c₃)
    (hheap : ∀ c heap, R c { c with heap := heap })
    (hack : ∀ c msgId packet, R c (c.emit (.send { type := .ack, msgId := msgId } packet)))
    (hproc : env.rc = .retSuccess → ∀ cmd, (decoded t c env).cmd? = some cmd → ∀ c₁, Frame c c₁ →
      c₁.messageList = c.messageList →
      R c₁ (coapMessageListProc cmd env.iter env.expired c₁ (decoded t c env)).2)
    (hsweep : ∀ c₁, R c c₁ → R c₁ (coapMessageListProc .wait env.sweepIter env.expired c₁ {}).2) :
    R c (coapMessageCycle t c env).2 := by
  have hrecv : R c (coapMessageRecv t c env).2 := by
    unfold coapMessageRecv
    split
    · rename_i hrc
      have hdecoded : Frame c (decodedClient t c env) := ⟨rfl, rfl, rfl, rfl⟩
      have hdispatch : R (decodedClient t c env)
          (dispatchMessage t (decodedClient t c env) (decoded t c env) env) :=
        dispatch_rule (fun c => hheap c c.heap) htrans hack fun cmd hcmd c₁ hframe hlist =>
          hproc hrc cmd hcmd c₁ (hdecoded.trans hframe) hlist
      dsimp only
      rw [handle_eq]
      exact htrans (htrans (hheap c _) hdispatch) (hheap _ _)
    · exact hheap c c.heap
  unfold coapMessageCycle
  dsimp only
  split
  · exact hrecv
  · exact htrans hrecv (hsweep _ hrecv)

end

/-! ## A request -/

/-- The request enters the wait list: it is written, the network takes it, and the blocks of its
entry are there (that of the copy apart). -/
def SendEnv.Lists (env : SendEnv) : Prop :=
  env.rc = .retSuccess ∧ env.info = true ∧ env.node = true

/-- A node as `_coap_message_list_add` fills it for a message. -/
structure NodeOf (m : CoapMessage) (x : CoapMsgSendInfo) : Prop where
  nodeState : x.nodeState = .normal
  retransCount : x.retransCount = 0
  msgId : x.msgId = m.msgId
  token : x.token = m.token
  handler : x.handler = m.handler
  userContext : x.userContext = m.userContext

/-- **`coap_message_send`** writes the message or not, and puts a request into the wait list when
all goes well. -/
theorem send_cases (t : Target) (c : CoapClient) (m : CoapMessage) (env : SendEnv) :
    (∃ heap es, (coapMessageSend t c m env).2 = { c with heap := heap, log := c.log ++ es } ∧
        (es = [] ∨ ∃ packet, es = [.send m packet]) ∧
        (m.IsRequest → (∃ n, (serializeCoapMessage t.size m coapSendmsgMaxBuflen).rc = .ok n) →
          ¬ env.Lists)) ∨
      (m.IsRequest ∧ env.Lists ∧ ∃ heap packet x,
        (coapMessageSend t c m env).2 =
          { c with
            heap := heap
            log := c.log ++ [.send m packet] ++ [.listed m.msgId]
            messageList := c.messageList ++ [x] } ∧ NodeOf m x) := by
  unfold coapMessageSend
  dsimp only
  cases hrc : (serializeCoapMessage t.size m coapSendmsgMaxBuflen).rc with
  | error rc =>
    refine .inl ⟨c.heap, [], by simp, .inl rfl, fun _ ⟨n, hn⟩ => nomatch hn⟩
  | ok n =>
    dsimp only
    by_cases hok : env.rc = .retSuccess
    · rw [if_pos hok]
      by_cases hreq : m.type = .con ∧ m.codeClass = 0
      · rw [if_pos hreq]
        unfold coapMessageListAdd Heap.malloc
        cases hinfo : env.info with
        | false =>
          refine .inl ⟨c.heap, _, rfl, .inr ⟨_, rfl⟩, fun _ _ h => ?_⟩
          exact absurd (hinfo.symm.trans h.2.1) (by simp)
        | true =>
          cases hnode : env.node with
          | false =>
            refine .inl ⟨_, _, rfl, .inr ⟨_, rfl⟩, fun _ _ h => ?_⟩
            exact absurd (hnode.symm.trans h.2.2) (by simp)
          | true =>
            refine .inr ⟨hreq, ⟨hok, hinfo, hnode⟩, ?_⟩
            cases env.saved with
            | false => exact ⟨_, _, _, rfl, ⟨rfl, rfl, rfl, rfl, rfl, rfl⟩⟩
            | true => exact ⟨_, _, _, rfl, ⟨rfl, rfl, rfl, rfl, rfl, rfl⟩⟩
      · rw [if_neg hreq]
        exact .inl ⟨c.heap, _, rfl, .inr ⟨_, rfl⟩, fun h => absurd h hreq⟩
    · rw [if_neg hok]
      exact .inl ⟨c.heap, _, rfl, .inr ⟨_, rfl⟩, fun _ _ h => hok h.1⟩

end QcloudIot.Coap
