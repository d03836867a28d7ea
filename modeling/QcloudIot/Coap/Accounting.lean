import QcloudIot.Coap.Requests
import QcloudIot.Lib.Ledger
import QcloudIot.Lib.Run

/-!
# What becomes of the blocks

The account of a client is a ledger of allocations: the blocks of the requests in the wait list are
owned, and what nothing refers to any more is lost. `coap_message_send` does not destroy the options
of its message, `_coap_message_handle` frees the payload of a datagram and not its options, and
`list_remove` frees a node and not what it holds.

* `deserialize_turns`: the decoder loses nothing;
* `procNodes_turns`, `listProc_loses`: the loop loses what the nodes that it removes leave;
* `procNodes_touch`, `procNodes_wait`: what a message does to the nodes, and which ones the sweep
  removes;
* `handle_handles`, `cycle_loses`, `sendMessage_loses`: what a call loses;
* **`accounted_iff`**: nothing is freed twice, and the blocks that live are those of the wait list iff
  no call loses any;
* `accounted_fails`: a message that is sent loses its options.
-/

namespace QcloudIot.Coap

open Lib

/-! ## Options and messages -/

/-- The ledger of a heap on which these blocks are owned. -/
def Heap.holding (h : Heap) (owned : List Nat) : Ledger := ⟨owned, h.freed, h.next⟩

section

variable (h : Heap) (owned : List Nat)

theorem holding_perm {owned owned' : List Nat} (hperm : owned.Perm owned') :
    (h.holding owned).Turns (h.holding owned') := Ledger.turns_perm hperm

theorem alloc_turns : (h.holding owned).Turns (h.alloc.2.holding (h.next :: owned)) :=
  Ledger.turns_alloc owned h.freed h.next

theorem free_turns (p : Nat) : (h.holding (p :: owned)).Turns ((h.free p).holding owned) :=
  Ledger.turns_free p owned h.freed h.next

theorem freeAll_turns (ps : List Nat) :
    (h.holding (ps ++ owned)).Turns ((h.freeAll ps).holding owned) :=
  Ledger.turns_freeAll ps owned h.freed h.next

/-- An option owns its two blocks. -/
theorem optionInit_turns (okOption okVal : Bool) (num : UInt32) (val : Bytes) :
    (h.holding owned).Turns ((qcloudIotCoapOptionInit h okOption okVal num val).2.holding
      (optionBlocks (qcloudIotCoapOptionInit h okOption okVal num val).1.toList ++ owned)) := by
  unfold qcloudIotCoapOptionInit Heap.malloc
  cases okOption with
  | false => exact .refl _
  | true =>
    have hoption := alloc_turns h owned
    cases okVal with
    | false => exact hoption.trans (free_turns _ owned h.next)
    | true => exact hoption.trans (alloc_turns _ _)

theorem optionBlocks_append (ops ops' : List CoapMsgOption) :
    optionBlocks (ops ++ ops') = optionBlocks ops ++ optionBlocks ops' := List.flatMap_append

/-- The option added to a message is the message's. -/
theorem optionAdd_turns (okOption okVal : Bool) (m : CoapMessage) (num : UInt32) (val : Bytes) :
    (h.holding (optionBlocks m.opList ++ owned)).Turns
      ((coapMessageOptionAdd h okOption okVal m num val).2.2.holding
        (optionBlocks (coapMessageOptionAdd h okOption okVal m num val).2.1.opList ++ owned)) := by
  have hinit := optionInit_turns h (optionBlocks m.opList ++ owned) okOption okVal num val
  rcases optionAdd_cases h okOption okVal m num val with
    ⟨heq, hsame⟩ | ⟨op, ops, heq, hadded, hperm⟩
  · rw [heq] at hinit
    rw [hsame]
    exact hinit
  · rw [heq] at hinit
    rw [hadded]
    refine hinit.trans (holding_perm _ ?_)
    have hblocks : (optionBlocks ops).Perm (optionBlocks [op] ++ optionBlocks m.opList) :=
      hperm.flatMap_right _
    dsimp only [Option.toList_some]
    rw [← List.append_assoc]
    exact hblocks.symm.append_right owned

/-- What the message owns. -/
def CoapMessage.blocks (m : CoapMessage) : List Nat := optionBlocks m.opList ++ m.payLoadAt.toList

/-- A message that is destroyed owns nothing. -/
theorem destroy_turns (m : CoapMessage) :
    (h.holding (m.blocks ++ owned)).Turns ((coapMessageDestroy h m).2.holding owned) := by
  unfold CoapMessage.blocks coapMessageDestroy
  rw [List.append_assoc]
  exact (freeAll_turns h _ _).trans (freeAll_turns _ _ _)

end

/-! ## The decoder -/

section

variable (t : Target) (owned : List Nat)

/-- The account of a decoder. -/
def Decoder.ledger (d : Decoder) : Ledger := d.heap.holding (d.message.blocks ++ owned)

theorem addLast_turns (d : Decoder) (num : UInt32) (val : Bytes) :
    (d.ledger owned).Turns ((coapMsgOpListAddLast d num val).2.ledger owned) := by
  have hinit := optionInit_turns d.heap (d.message.blocks ++ owned) (d.oks.headD true)
    (d.oks.tail.headD true) num val
  unfold coapMsgOpListAddLast
  cases heq : qcloudIotCoapOptionInit d.heap (d.oks.headD true) (d.oks.tail.headD true) num val with
  | mk op? heap =>
    rw [heq] at hinit
    cases op? with
    | none => exact hinit
    | some op =>
      refine hinit.trans (holding_perm _ ?_)
      rw [List.perm_iff_count]
      intro a
      simp only [CoapMessage.blocks, optionBlocks_append, Option.toList_some, List.count_append]
      omega

theorem deserializeOption_turns (d : Decoder) (p : Bytes) :
    (d.ledger owned).Turns ((coapMessageDeserializeOption t d p).2.ledger owned) := by
  unfold coapMessageDeserializeOption
  split
  · exact .refl _
  · rename_i delta val rest _
    dsimp only
    split
    · rename_i d' heq
      have hd : (coapMsgOpListAddLast d _ val).2 = d' := congrArg Prod.snd heq
      rw [← hd]
      exact addLast_turns owned d _ val
    · rename_i rc d' _ heq
      have hd : (coapMsgOpListAddLast d _ val).2 = d' := congrArg Prod.snd heq
      rw [← hd]
      exact addLast_turns owned d _ val

theorem deserializeOptions_turns (n : Nat) (d : Decoder) (p : Bytes) :
    (d.ledger owned).Turns ((coapMessageDeserializeOptions t n d p).2.ledger owned) := by
  induction n generalizing d p with
  | zero => exact .refl _
  | succ n ih =>
    have hoption := deserializeOption_turns t owned d p
    rw [coapMessageDeserializeOptions]
    split
    · exact .refl _
    · split
      · rename_i rc d' heq
        rw [heq] at hoption
        exact hoption
      · rename_i p' d' heq
        rw [heq] at hoption
        exact hoption.trans (ih d' p')

/-- The payload's block, where the message has none yet. -/
theorem deserializePayload_turns (d : Decoder) (hnone : d.message.payLoadAt = none) (p : Bytes) :
    (d.ledger owned).Turns ((coapMessageDeserializePayload d p).2.ledger owned) := by
  cases p with
  | nil => exact .refl _
  | cons b p =>
    rw [coapMessageDeserializePayload]
    split
    · exact .refl _
    · split
      · exact .refl _
      · unfold Heap.malloc
        cases d.oks.headD true with
        | false => exact .refl _
        | true =>
          refine (alloc_turns d.heap (d.message.blocks ++ owned)).trans (holding_perm _ ?_)
          change (d.heap.next :: (d.message.blocks ++ owned)).Perm
            ((optionBlocks d.message.opList ++ [d.heap.next]) ++ owned)
          rw [CoapMessage.blocks, hnone, Option.toList_none, List.append_nil, List.append_assoc]
          exact List.perm_middle.symm

theorem deserializeBody_turns (d : Decoder) (hnone : d.message.payLoadAt = none) (p : Bytes) :
    (d.ledger owned).Turns ((coapMessageDeserializeBody t d p).2.ledger owned) := by
  have hoptions := deserializeOptions_turns t owned p.length d p
  unfold coapMessageDeserializeBody
  split
  · rename_i rc d' heq
    rw [heq] at hoptions
    exact hoptions
  · rename_i p' d' heq
    rw [heq] at hoptions
    obtain ⟨new, hnew⟩ := options_ok heq
    refine hoptions.trans (deserializePayload_turns owned d' ?_ p')
    rw [hnew]
    exact hnone

theorem destroyDecoder_turns (d : Decoder) :
    (d.ledger owned).Turns (d.destroy.ledger owned) := destroy_turns d.heap owned d.message

/-- Header and token have no blocks. -/
theorem header_blocks {m m' : CoapMessage} {buf p : Bytes} {n : Nat}
    (h : coapMessageDeserializeHeader m buf = .ok (m', n, p)) :
    m'.opList = m.opList ∧ m'.payLoadAt = m.payLoadAt := by
  unfold coapMessageDeserializeHeader at h
  split at h
  · dsimp only at h
    split at h
    · exact nomatch h
    · split at h
      · exact nomatch h
      · split at h
        · exact nomatch h
        · cases h
          exact ⟨rfl, rfl⟩
  · exact nomatch h

theorem token_blocks {m m' : CoapMessage} {p p' : Bytes} {n : Nat}
    (h : coapMessageDeserializeToken m n p = .ok (m', p')) :
    m'.opList = m.opList ∧ m'.payLoadAt = m.payLoadAt := by
  unfold coapMessageDeserializeToken at h
  split at h
  · exact nomatch h
  · cases h
    exact ⟨rfl, rfl⟩

/-- **The decoder** loses no block: what it has allocated is the message's, and nothing is when the
message is refused. -/
theorem deserialize_turns (h : Heap) (oks : List Bool) (buf : Bytes) :
    (h.holding owned).Turns ((deserializeCoapMessage t ⟨.zero, h, oks⟩ buf).2.ledger owned) := by
  have hstart : ∀ m : CoapMessage, m.opList = [] → m.payLoadAt = none →
      Decoder.ledger owned ⟨m, h, oks⟩ = h.holding owned := by
    intro m hops hpay
    simp [Decoder.ledger, CoapMessage.blocks, hops, hpay, optionBlocks]
  have hzero := destroyDecoder_turns owned ⟨.zero, h, oks⟩
  rw [hstart .zero rfl rfl] at hzero
  unfold deserializeCoapMessage
  split
  · exact hzero
  · rename_i m n p hheader
    split
    · exact hzero
    · rename_i m' p' htoken
      obtain ⟨hops, hpay⟩ := header_blocks hheader
      obtain ⟨hops', hpay'⟩ := token_blocks htoken
      have hbody := deserializeBody_turns t owned ⟨m', h, oks⟩ (hpay'.trans hpay) p'
      rw [hstart m' (hops'.trans hops) (hpay'.trans hpay)] at hbody
      dsimp only
      split
      · rename_i rc d heq
        rw [heq] at hbody
        exact hbody.trans (destroyDecoder_turns owned d)
      · rename_i rest d heq
        rw [heq] at hbody
        exact hbody

end

/-! ## The wait list -/

/-- The blocks of the requests in a list. -/
def listBlocks (nodes : List CoapMsgSendInfo) : List Nat := nodes.flatMap CoapMsgSendInfo.blocks

/-- What `list_remove` does not free of a node. -/
def CoapMsgSendInfo.leftBlocks (x : CoapMsgSendInfo) : List Nat :=
  x.infoAddr :: (x.message.map Prod.fst).toList

/-- The authentication is over. -/
def NoAuth (nodes : List CoapMsgSendInfo) : Prop := ∀ x ∈ nodes, x.handler ≠ some .auth

theorem listBlocks_append (xs ys : List CoapMsgSendInfo) :
    listBlocks (xs ++ ys) = listBlocks xs ++ listBlocks ys := List.flatMap_append

section

variable {cmd : ProcessCmd} {c c' : CoapClient} {m m' : CoapMessage} {x : CoapMsgSendInfo}
  {x' : Option CoapMsgSendInfo}

/-- No callback but that of the authentication allocates. -/
theorem call_heap (c : CoapClient) {f : OnRespCallback} (p : UInt16) (m : CoapMessage)
    (userContext : Nat) (hf : f ≠ .auth) : (c.call f p m userContext).heap = c.heap := by
  cases f with
  | auth => exact absurd rfl hf
  | user f => rfl

theorem Notified.heap (h : Notified c x c') (hx : x.handler ≠ some .auth) : c'.heap = c.heap := by
  cases h with
  | called f m hf =>
    refine call_heap c x.msgId m x.userContext fun hauth => hx ?_
    rw [hf, hauth]
  | event f e hnone => rfl
  | nobody hnone hevent => rfl

/-- **A visit** loses what a node that is removed leaves. -/
theorem Visit.turns (h : Visit cmd c m x c' m' x') (hx : x.handler ≠ some .auth) :
    (c.heap.holding x.blocks).Turns (c'.heap.holding
      (listBlocks x'.toList ++ if x' = none then x.leftBlocks else [])) := by
  have hkept : ∀ (heap : Heap) (y : CoapMsgSendInfo), heap = c.heap → y.blocks = x.blocks →
      (c.heap.holding x.blocks).Turns (heap.holding
        (listBlocks (some y).toList ++ if some y = none then x.leftBlocks else [])) := by
    rintro _ y rfl hy
    have hblocks : listBlocks (some y).toList ++ (if some y = none then x.leftBlocks else []) =
        x.blocks := by
      simp [listBlocks, hy]
    rw [hblocks]
    exact .refl _
  cases h with
  | kept => exact hkept _ _ rfl rfl
  | responded => exact hkept _ _ ((notifyResponse_notified cmd c m x).heap hx) rfl
  | removed => exact free_turns c.heap x.leftBlocks x.nodeAddr
  | resent => exact hkept _ _ rfl rfl
  | timedOut =>
    change (c.heap.holding x.blocks).Turns
      (((notifyTimeout c m x).1.heap.free x.nodeAddr).holding x.leftBlocks)
    rw [(notifyTimeout_notified c m x).heap hx]
    exact free_turns c.heap x.leftBlocks x.nodeAddr

/-- What a client that becomes another has lost: what is neither freed nor of a request in the wait
list. -/
def Loses (c : CoapClient) (lost : List Nat) (c' : CoapClient) : Prop :=
  (c.heap.holding (listBlocks c.messageList)).Turns
    (c'.heap.holding (listBlocks c'.messageList ++ lost))

theorem Loses.refl (c : CoapClient) : Loses c [] c := by
  unfold Loses
  rw [List.append_nil]
  exact .refl _

theorem Loses.trans {c₁ c₂ c₃ : CoapClient} {lost lost' : List Nat} (h : Loses c₁ lost c₂)
    (h' : Loses c₂ lost' c₃) : Loses c₁ (lost ++ lost') c₃ := by
  refine Ledger.Turns.trans h ((Ledger.Turns.frame h' lost).trans (holding_perm _ ?_))
  rw [List.perm_iff_count]
  intro a
  simp only [List.count_append]
  omega

/-- **The loop** loses what the nodes that it removes leave. -/
theorem procNodes_turns (cmd : ProcessCmd) (expired : Nat → Bool) (c : CoapClient) (m : CoapMessage)
    {nodes : List CoapMsgSendInfo} (hauth : NoAuth nodes) :
    ∃ lost, (c.heap.holding (listBlocks nodes)).Turns
        ((procNodes cmd expired c m nodes).1.heap.holding
          (listBlocks (procNodes cmd expired c m nodes).2.2 ++ lost)) ∧
      (lost = [] ↔ (procNodes cmd expired c m nodes).2.2.length = nodes.length) ∧
      (procNodes cmd expired c m nodes).2.2.length ≤ nodes.length := by
  refine procNodes_visits (I := fun c₁ _ xs ys => NoAuth xs → ∃ lost,
    (c.heap.holding (listBlocks xs)).Turns (c₁.heap.holding (listBlocks ys ++ lost)) ∧
      (lost = [] ↔ ys.length = xs.length) ∧ ys.length ≤ xs.length) ?_ ?_ nodes hauth
  · exact fun _ => ⟨[], .refl _, by simp, le_refl _⟩
  · intro c₁ m₁ x xs ys c₂ m₂ x' ih hvisit hxs
    obtain ⟨lost, hturns, hlost, hle⟩ := ih fun y hy => hxs y (List.mem_cons_of_mem x hy)
    have hvisited := hvisit.turns (hxs x List.mem_cons_self)
    refine ⟨(if x' = none then x.leftBlocks else []) ++ lost, ?_, ?_, ?_⟩
    · refine Ledger.Turns.trans (Ledger.Turns.both hturns hvisited) (holding_perm _ ?_)
      rw [List.perm_iff_count]
      intro a
      simp only [listBlocks_append, List.count_append]
      omega
    · cases x' with
      | none =>
        simp only [if_true, CoapMsgSendInfo.leftBlocks, Option.toList_none, List.nil_append,
          List.length_cons]
        refine iff_of_false (by simp) (by omega)
      | some y => simp [hlost]
    · cases x' with
      | none => exact Nat.le_succ_of_le hle
      | some y => simpa using hle

/-- What a message does to a node. -/
def CoapMsgSendInfo.touch (cmd : ProcessCmd) (m : CoapMessage) (x : CoapMsgSendInfo) :
    CoapMsgSendInfo :=
  match cmd with
  | .ack => if x.msgId = m.msgId then { x with acked := true } else x
  | .resp => if x.HasToken m then { x with nodeState := .invalid } else x
  | .piggy => if x.msgId = m.msgId then { x with acked := true, nodeState := .invalid } else x
  | .wait => x

/-- The sweep removes the node: it is invalid, or it has expired and is not retransmitted. -/
def CoapMsgSendInfo.Leaves (maxRetryCount : UInt8) (expired : Bool) (x : CoapMsgSendInfo) : Prop :=
  x.nodeState = .invalid ∨
    (expired = true ∧ ¬ (x.retransCount < maxRetryCount ∧ x.acked = false))

/-- The sweep removes no node. -/
def NoneLeaves (maxRetryCount : UInt8) (expired : Nat → Bool) : List CoapMsgSendInfo → Prop
  | [] => True
  | x :: xs => ¬ x.Leaves maxRetryCount (expired xs.length) ∧ NoneLeaves maxRetryCount expired xs

/-- A message touches every node and removes none. -/
theorem procNodes_touch (hcmd : cmd ≠ .wait) (expired : Nat → Bool) (c : CoapClient)
    (m : CoapMessage) (nodes : List CoapMsgSendInfo) :
    (procNodes cmd expired c m nodes).2.2 = nodes.map (CoapMsgSendInfo.touch cmd m) := by
  refine (procNodes_rule (I := fun _ m₁ xs ys => ys = xs.map (CoapMsgSendInfo.touch cmd m) ∧
    m₁.token = m.token ∧ (cmd ≠ .resp → m₁.msgId = m.msgId)) ⟨rfl, rfl, fun _ => rfl⟩ ?_ nodes).1
  rintro c₁ m₁ x xs _ ⟨rfl, htoken, hid⟩
  cases cmd with
  | ack =>
    rw [visitNode, hid (by decide)]
    exact ⟨rfl, htoken, fun _ => rfl⟩
  | resp =>
    have hsame : x.HasToken m₁ ↔ x.HasToken m := by
      unfold CoapMsgSendInfo.HasToken
      rw [htoken]
    unfold visitNode
    dsimp only
    by_cases hmatch : x.HasToken m
    · rw [if_pos (hsame.mpr hmatch), List.map_cons, CoapMsgSendInfo.touch, if_pos hmatch]
      exact ⟨rfl, (notifyResponse_key .resp c₁ m₁ x).1.trans htoken, fun h => absurd rfl h⟩
    · rw [if_neg (mt hsame.mp hmatch), List.map_cons, CoapMsgSendInfo.touch, if_neg hmatch]
      exact ⟨rfl, htoken, hid⟩
  | piggy =>
    have hsame := hid (by decide)
    unfold visitNode
    dsimp only
    rw [hsame]
    by_cases hmatch : x.msgId = m.msgId
    · obtain ⟨htoken', hid'⟩ := notifyResponse_key .piggy c₁ m₁ x
      rw [if_pos hmatch, List.map_cons, CoapMsgSendInfo.touch, if_pos hmatch]
      exact ⟨rfl, htoken'.trans htoken, fun h => (hid' h).trans (hid h)⟩
    · rw [if_neg hmatch, List.map_cons, CoapMsgSendInfo.touch, if_neg hmatch]
      exact ⟨rfl, htoken, hid⟩
  | wait => exact absurd rfl hcmd

theorem visitNode_none (expired : Bool) (c : CoapClient) (m : CoapMessage) (x : CoapMsgSendInfo) :
    (visitNode .wait expired c m x).2.2 = none ↔ x.Leaves c.maxRetryCount expired := by
  unfold visitNode CoapMsgSendInfo.Leaves
  dsimp only
  by_cases hinvalid : x.nodeState = .invalid
  · rw [if_pos hinvalid]
    exact iff_of_true rfl (.inl hinvalid)
  · rw [if_neg hinvalid]
    cases expired with
    | false => simp [hinvalid]
    | true =>
      rw [if_neg (by simp)]
      by_cases hretry : x.retransCount < c.maxRetryCount ∧ x.acked = false
      · rw [if_pos hretry]
        simp [hinvalid, hretry]
      · rw [if_neg hretry]
        exact iff_of_true rfl (.inr ⟨rfl, hretry⟩)

/-- The sweep removes no node iff none leaves. -/
theorem procNodes_wait (expired : Nat → Bool) (c : CoapClient) (m : CoapMessage)
    (nodes : List CoapMsgSendInfo) :
    (procNodes .wait expired c m nodes).2.2.length = nodes.length ↔
      NoneLeaves c.maxRetryCount expired nodes := by
  refine (procNodes_rule (I := fun c₁ _ xs ys => Frame c c₁ ∧ ys.length ≤ xs.length ∧
    (ys.length = xs.length ↔ NoneLeaves c.maxRetryCount expired xs))
    ⟨.refl c, le_refl _, iff_of_true rfl trivial⟩ ?_ nodes).2.2
  rintro c₁ m₁ x xs ys ⟨hframe, hle, hiff⟩
  have hnone := visitNode_none (expired xs.length) c₁ m₁ x
  rw [hframe.maxRetryCount] at hnone
  refine ⟨hframe.trans (visitNode_visit .wait _ c₁ m₁ x).frame, ?_, ?_⟩
  · cases hx' : (visitNode .wait (expired xs.length) c₁ m₁ x).2.2 with
    | none => exact Nat.le_succ_of_le hle
    | some y => exact Nat.succ_le_succ hle
  · rw [NoneLeaves, ← hnone, ← hiff]
    cases hx' : (visitNode .wait (expired xs.length) c₁ m₁ x).2.2 with
    | none =>
      simp only [Option.toList_none, List.nil_append, List.length_cons]
      exact iff_of_false (by omega) (by simp)
    | some y => simp

/-- **`_coap_message_list_proc`** frees its iterator and loses what the nodes that it removes
leave. -/
theorem listProc_loses (cmd : ProcessCmd) (iter : Bool) (expired : Nat → Bool) {c : CoapClient}
    (m : CoapMessage) (hauth : NoAuth c.messageList) :
    ∃ lost, Loses c lost (coapMessageListProc cmd iter expired c m).2 ∧
      (lost = [] ↔
        (coapMessageListProc cmd iter expired c m).2.messageList.length = c.messageList.length) := by
  rcases listProc_cases cmd iter expired c m with ⟨-, hsame⟩ | ⟨-, -, hproc⟩
  · rw [hsame]
    exact ⟨[], .refl c, iff_of_true rfl rfl⟩
  · obtain ⟨lost, hturns, hlost, -⟩ :=
      procNodes_turns cmd expired { c with heap := c.heap.alloc.2 } m hauth
    rw [hproc]
    refine ⟨lost, ?_, hlost⟩
    have hiter := alloc_turns c.heap []
    have hloop := Ledger.Turns.both hiter hturns
    unfold Loses
    rw [← List.append_nil (listBlocks c.messageList)]
    refine Ledger.Turns.trans hloop
      (Ledger.Turns.trans (holding_perm _ ?_) (free_turns _ _ c.heap.next))
    exact List.perm_append_comm

/-- What is in the wait list when a message has been handled. -/
theorem listProc_touch (hcmd : cmd ≠ .wait) (expired : Nat → Bool) (c : CoapClient)
    (m : CoapMessage) :
    (coapMessageListProc cmd true expired c m).2.messageList =
      c.messageList.map (CoapMsgSendInfo.touch cmd m) := by
  rcases listProc_cases cmd true expired c m with ⟨hidle, hsame⟩ | ⟨-, -, hproc⟩
  · rw [hsame, hidle.resolve_right (by simp)]
    rfl
  · rw [hproc]
    exact procNodes_touch hcmd expired _ m c.messageList

end

/-! ## A cycle -/

/-- What a message does to a node, by what it is for. -/
def CoapMsgSendInfo.touchedBy (m : CoapMessage) (x : CoapMsgSendInfo) : CoapMsgSendInfo :=
  match m.cmd? with
  | none => x
  | some cmd => x.touch cmd m

theorem touch_handler (cmd : ProcessCmd) (m : CoapMessage) (x : CoapMsgSendInfo) :
    (x.touch cmd m).handler = x.handler := by
  unfold CoapMsgSendInfo.touch
  cases cmd with
  | ack =>
    dsimp only
    split <;> rfl
  | resp =>
    dsimp only
    split <;> rfl
  | piggy =>
    dsimp only
    split <;> rfl
  | wait => rfl

theorem cmd_ne_wait {m : CoapMessage} {cmd : ProcessCmd} (h : m.cmd? = some cmd) : cmd ≠ .wait := by
  unfold CoapMessage.cmd? at h
  rintro rfl
  split at h
  · exact nomatch h
  · split at h
    · exact nomatch h
    · split at h
      · exact nomatch h
      · exact nomatch h

/-- What a client that becomes another has done with a message. -/
structure Handles (c : CoapClient) (m : CoapMessage) (lost : List Nat) (c' : CoapClient) : Prop where
  loses : Loses c lost c'
  messageList : c'.messageList = c.messageList.map (CoapMsgSendInfo.touchedBy m)
  frame : Frame c c'

section

variable {t : Target} {c : CoapClient} {env : CycleEnv}

theorem listProc_handles {m : CoapMessage} {cmd : ProcessCmd} (hcmd : m.cmd? = some cmd)
    (expired : Nat → Bool) (hauth : NoAuth c.messageList) :
    Handles c m [] (coapMessageListProc cmd true expired c m).2 := by
  have htouch := listProc_touch (cmd_ne_wait hcmd) expired c m
  obtain ⟨lost, hloses, hlost⟩ := listProc_loses cmd true expired m hauth
  refine ⟨?_, ?_, listProc_frame cmd true expired c m⟩
  · rw [← hlost.mpr (by rw [htouch, List.length_map])]
    exact hloses
  · rw [htouch]
    refine List.map_congr_left fun x _ => ?_
    rw [CoapMsgSendInfo.touchedBy, hcmd]

/-- The dispatch loses nothing. -/
theorem dispatch_handles (m : CoapMessage) (hiter : env.iter = true)
    (hauth : NoAuth c.messageList) : Handles c m [] (dispatchMessage t c m env) := by
  rw [dispatch_eq]
  split
  · rename_i hcmd
    refine ⟨.refl c, ?_, .refl c⟩
    have hid : CoapMsgSendInfo.touchedBy m = id := by
      funext x
      rw [CoapMsgSendInfo.touchedBy, hcmd]
      rfl
    rw [hid, List.map_id]
  · rename_i hcmd
    unfold coapRespMessageHandle
    rw [hiter]
    split
    · rcases sendAck_cases t c m.msgId env.ack with hsame | ⟨packet, hsent⟩
      · rw [hsame]
        exact listProc_handles hcmd env.expired hauth
      · rw [hsent]
        have hproc := listProc_handles hcmd env.expired
          (c := c.emit (.send { type := .ack, msgId := m.msgId } packet)) hauth
        have hemit : Frame c (c.emit (.send { type := .ack, msgId := m.msgId } packet)) :=
          ⟨rfl, rfl, rfl, rfl⟩
        exact ⟨hproc.loses, hproc.messageList, hemit.trans hproc.frame⟩
    · exact listProc_handles hcmd env.expired hauth
  · rename_i cmd _ hcmd
    rw [hiter]
    exact listProc_handles hcmd env.expired hauth

/-- **`_coap_message_handle`** frees the payload and loses the options. -/
theorem handle_handles (hiter : env.iter = true) (hauth : NoAuth c.messageList) :
    Handles c (decoded t c env) (optionBlocks (decoded t c env).opList)
      (coapMessageHandle t c env.recvBuf env) := by
  have hdecode := deserialize_turns t [] c.heap env.oks env.recvBuf
  obtain ⟨hloses, hlist, hframe⟩ := dispatch_handles (t := t)
    (c := decodedClient t c env) (decoded t c env) hiter hauth
  have hdecoded : Frame c (decodedClient t c env) := ⟨rfl, rfl, rfl, rfl⟩
  have hframe' := hdecoded.trans hframe
  rw [handle_eq]
  refine ⟨?_, hlist,
    ⟨hframe'.nextMsgId, hframe'.messageToken, hframe'.maxRetryCount, hframe'.eventHandle⟩⟩
  have hboth := Ledger.Turns.both hdecode hloses
  unfold Loses
  rw [← List.append_nil (listBlocks c.messageList)]
  refine Ledger.Turns.trans hboth (Ledger.Turns.trans (holding_perm _ ?_) (freeAll_turns _ _ _))
  rw [List.perm_iff_count]
  intro a
  change List.count a (_ ++ [] ++ ((decoded t c env).blocks ++ [])) = _
  simp only [CoapMessage.blocks, List.count_append, List.count_nil]
  omega

theorem Handles.noAuth {m : CoapMessage} {lost : List Nat} {c' : CoapClient}
    (h : Handles c m lost c') (hauth : NoAuth c.messageList) : NoAuth c'.messageList := by
  intro y hy
  rw [h.messageList] at hy
  obtain ⟨x, hx, rfl⟩ := List.mem_map.mp hy
  have hsame : (x.touchedBy m).handler = x.handler := by
    unfold CoapMsgSendInfo.touchedBy
    split
    · rfl
    · exact touch_handler _ m x
  rw [hsame]
  exact hauth x hx

theorem listProc_noAuth (cmd : ProcessCmd) (iter : Bool) (expired : Nat → Bool) (m : CoapMessage)
    (hauth : NoAuth c.messageList) :
    NoAuth (coapMessageListProc cmd iter expired c m).2.messageList := by
  intro y hy
  obtain ⟨x, hx, heq⟩ := listProc_handlers cmd iter expired c m y hy
  rw [heq]
  exact hauth x hx

/-- **The sweep** loses nothing iff no node leaves. -/
theorem sweep_loses (expired : Nat → Bool) (m : CoapMessage) (hauth : NoAuth c.messageList) :
    ∃ lost, Loses c lost (coapMessageListProc .wait true expired c m).2 ∧
      (lost = [] ↔ NoneLeaves c.maxRetryCount expired c.messageList) := by
  obtain ⟨lost, hloses, hlost⟩ := listProc_loses .wait true expired m hauth
  refine ⟨lost, hloses, hlost.trans ?_⟩
  rcases listProc_cases .wait true expired c m with ⟨hidle, hsame⟩ | ⟨-, -, hproc⟩
  · rw [hsame, hidle.resolve_right (by simp)]
    exact iff_of_true rfl trivial
  · rw [hproc]
    exact procNodes_wait expired { c with heap := c.heap.alloc.2 } m c.messageList

theorem optionBlocks_eq_nil {ops : List CoapMsgOption} : optionBlocks ops = [] ↔ ops = [] := by
  cases ops with
  | nil => exact iff_of_true rfl rfl
  | cons op ops => simp [optionBlocks]

/-- No option is received, and no request leaves the wait list: none is answered, and none expires
that has used up its retransmissions or is acknowledged. -/
structure CycleKeeps (t : Target) (c : CoapClient) (env : CycleEnv) : Prop where
  received : env.rc = .retSuccess → (decoded t c env).opList = [] ∧
    NoneLeaves c.maxRetryCount env.expired
      (c.messageList.map (CoapMsgSendInfo.touchedBy (decoded t c env)))
  nothing : env.rc = .errSslReadTimeout → NoneLeaves c.maxRetryCount env.expired c.messageList

/-- **A cycle.** -/
theorem cycle_loses (hiter : env.iter = true) (hsweep : env.sweepIter = true)
    (hauth : NoAuth c.messageList) :
    NoAuth (coapMessageCycle t c env).2.messageList ∧
      ∃ lost, Loses c lost (coapMessageCycle t c env).2 ∧ (lost = [] ↔ CycleKeeps t c env) := by
  unfold coapMessageCycle coapMessageRecv
  rw [hsweep]
  by_cases hrc : env.rc = .retSuccess
  · have hhandles := handle_handles (t := t) hiter hauth
    have hauth' := hhandles.noAuth hauth
    obtain ⟨lost, hloses, hlost⟩ := sweep_loses env.expired {} hauth'
    rw [if_pos hrc]
    dsimp only
    rw [if_neg fun hne => hne.1 hrc]
    refine ⟨listProc_noAuth _ _ _ _ hauth', _, hhandles.loses.trans hloses, ?_⟩
    rw [List.append_eq_nil_iff, optionBlocks_eq_nil, hlost, hhandles.frame.maxRetryCount,
      hhandles.messageList]
    exact ⟨fun h => ⟨fun _ => h, fun hread => nomatch hrc.symm.trans hread⟩, fun h => h.received hrc⟩
  · rw [if_neg hrc]
    dsimp only
    by_cases hread : env.rc = .errSslReadTimeout
    · obtain ⟨lost, hloses, hlost⟩ := sweep_loses env.expired {} hauth
      rw [if_neg fun hne => hne.2 hread]
      refine ⟨listProc_noAuth _ _ _ _ hauth, lost, hloses, hlost.trans ?_⟩
      exact ⟨fun h => ⟨fun hrc' => absurd hrc' hrc, fun _ => h⟩, fun h => h.nothing hread⟩
    · rw [if_pos ⟨hrc, hread⟩]
      exact ⟨hauth, [], .refl c, iff_of_true rfl ⟨fun h => absurd h hrc, fun h => absurd h hread⟩⟩

end

/-! ## A request -/

section

variable {t : Target} {c : CoapClient}

/-- **`coap_message_send`**, where the blocks of the list entry are there: they are the entry's. -/
theorem send_turns (m : CoapMessage) {env : SendEnv} (hinfo : env.info = true)
    (hnode : env.node = true) :
    ∃ new, (coapMessageSend t c m env).2.messageList = c.messageList ++ new ∧
      (∀ x ∈ new, x.handler = m.handler) ∧
      (c.heap.holding []).Turns ((coapMessageSend t c m env).2.heap.holding (listBlocks new)) := by
  unfold coapMessageSend
  dsimp only
  split
  · exact ⟨[], (List.append_nil _).symm, nofun, .refl _⟩
  · split
    · split
      · unfold coapMessageListAdd Heap.malloc
        rw [hinfo, hnode]
        have hinfo' := alloc_turns c.heap []
        cases env.saved with
        | false =>
          refine ⟨[_], rfl, fun x hx => by rw [List.mem_singleton.mp hx], ?_⟩
          exact hinfo'.trans (alloc_turns _ _)
        | true =>
          refine ⟨[_], rfl, fun x hx => by rw [List.mem_singleton.mp hx], ?_⟩
          refine hinfo'.trans ((alloc_turns _ _).trans ((alloc_turns _ _).trans (holding_perm _ ?_)))
          exact (List.Perm.swap _ _ _).cons _
      · exact ⟨[], (List.append_nil _).symm, nofun, .refl _⟩
    · exact ⟨[], (List.append_nil _).symm, nofun, .refl _⟩

/-- An option that can be allocated is added. -/
theorem optionAdd_ne_nil (h : Heap) (m : CoapMessage) (num : UInt32) (val : Bytes) :
    (coapMessageOptionAdd h true true m num val).2.1.opList ≠ [] := by
  rcases optionAdd_cases h true true m num val with ⟨hnone, -⟩ | ⟨op, ops, -, hadded, hperm⟩
  · exact nomatch (Prod.ext_iff.mp hnone).1
  · rw [hadded]
    intro hnil
    dsimp only at hnil
    rw [hnil] at hperm
    exact absurd hperm.length_eq (by simp)

/-- The message of the application has options, whose blocks are the message's, and no callback of
the authentication. -/
theorem sendMessageOptions_turns (heap : Heap) {m : CoapMessage} (hm : m.opList = [])
    (topicName authToken : Bytes) (sendParams : SendMsgParams) :
    (heap.holding []).Turns
        ((sendMessageOptions heap m topicName authToken sendParams []).2.holding
          (optionBlocks (sendMessageOptions heap m topicName authToken sendParams []).1.opList)) ∧
      (sendMessageOptions heap m topicName authToken sendParams []).1.opList ≠ [] ∧
      (sendMessageOptions heap m topicName authToken sendParams []).1.handler ≠ some .auth := by
  refine ⟨?_, optionAdd_ne_nil _ _ _ _, ?_⟩
  · have hpath := optionAdd_turns heap [] true true m coapMsgUriPath topicName
    have hoptions := hpath.trans ((optionAdd_turns _ [] true true _ coapMsgAuthToken authToken).trans
      (optionAdd_turns _ [] true true _ coapMsgNeedResp [if sendParams.needResp then 49 else 48]))
    rw [hm, List.append_nil, List.append_nil] at hoptions
    exact hoptions
  · change (if sendParams.needResp then sendParams.respCallback.map OnRespCallback.user else none) ≠
      some OnRespCallback.auth
    split
    · cases sendParams.respCallback with
      | none => simp
      | some f => simp
    · simp

theorem payloadSet_opList (m : CoapMessage) (buf : Bytes) :
    (coapMessagePayloadSet m buf).2.opList = m.opList := by
  unfold coapMessagePayloadSet
  split
  · split
    · rfl
    · rfl
  · rfl

/-- The message that `IOT_COAP_SendMessage` sends where all blocks are there, and the heap then. -/
def sentMessage (c : CoapClient) (topicName : Bytes) (sendParams : SendMsgParams) :
    CoapMessage × Heap :=
  sendMessageOptions c.heap.alloc.2
    (coapMessagePayloadSet { (newRequest c).1 with payLoadAt := some c.heap.next }
      sendParams.payLoad).2 topicName c.authToken sendParams []

/-- Its options own their blocks, and there are some. -/
theorem sentMessage_turns (c : CoapClient) (topicName : Bytes) (sendParams : SendMsgParams) :
    (c.heap.alloc.2.holding []).Turns ((sentMessage c topicName sendParams).2.holding
        (optionBlocks (sentMessage c topicName sendParams).1.opList)) ∧
      (sentMessage c topicName sendParams).1.opList ≠ [] ∧
      (sentMessage c topicName sendParams).1.handler ≠ some .auth :=
  sendMessageOptions_turns c.heap.alloc.2 (payloadSet_opList _ _) topicName c.authToken sendParams

theorem sendMessage_eq {topicName : Bytes} (hshort : ¬ topicName.length > uriPathMaxLen)
    (sendParams : SendMsgParams) (send : SendEnv) :
    (iotCoapSendMessage t c topicName sendParams { send := send }).2 =
      { (coapMessageSend t
          { (newRequest c).2 with heap := (sentMessage c topicName sendParams).2 }
          (sentMessage c topicName sendParams).1 send).2 with
        heap := (coapMessageSend t
          { (newRequest c).2 with heap := (sentMessage c topicName sendParams).2 }
          (sentMessage c topicName sendParams).1 send).2.heap.free c.heap.next } := by
  unfold iotCoapSendMessage
  rw [if_neg hshort]
  simp only [Heap.malloc, if_true]
  rfl

/-- **`IOT_COAP_SendMessage`** loses the options of its message. -/
theorem sendMessage_loses (topicName : Bytes) (sendParams : SendMsgParams) {send : SendEnv}
    (hinfo : send.info = true) (hnode : send.node = true) (hauth : NoAuth c.messageList) :
    NoAuth (iotCoapSendMessage t c topicName sendParams { send := send }).2.messageList ∧
      ∃ lost, Loses c lost (iotCoapSendMessage t c topicName sendParams { send := send }).2 ∧
        (lost = [] ↔ uriPathMaxLen < topicName.length) := by
  by_cases hlong : topicName.length > uriPathMaxLen
  · unfold iotCoapSendMessage
    rw [if_pos hlong]
    exact ⟨hauth, [], .refl c, iff_of_true rfl hlong⟩
  · have hpayLoad := alloc_turns c.heap []
    obtain ⟨hoptions, hsome, hhandler⟩ := sentMessage_turns c topicName sendParams
    obtain ⟨new, hlist, hnew, hsend⟩ := send_turns (t := t)
      (c := { (newRequest c).2 with heap := (sentMessage c topicName sendParams).2 })
      (sentMessage c topicName sendParams).1 hinfo hnode
    rw [sendMessage_eq hlong]
    refine ⟨fun x hx => ?_, optionBlocks (sentMessage c topicName sendParams).1.opList, ?_, ?_⟩
    · change x ∈ (coapMessageSend t _ _ send).2.messageList at hx
      rw [hlist] at hx
      rcases List.mem_append.mp hx with hx | hx
      · exact hauth x hx
      · rw [hnew x hx]
        exact hhandler
    · have hsent := Ledger.Turns.both (Ledger.Turns.both hpayLoad hoptions) hsend
      have hframed := Ledger.Turns.frame hsent (listBlocks c.messageList)
      unfold Loses
      refine Ledger.Turns.trans hframed
        (Ledger.Turns.trans (holding_perm _ ?_) (free_turns _ _ c.heap.next))
      change List.Perm _ (c.heap.next :: (listBlocks (coapMessageSend t _ _ send).2.messageList ++ _))
      rw [hlist, listBlocks_append, List.perm_iff_count]
      intro a
      change _ = List.count a (_ :: (listBlocks c.messageList ++ _ ++ _))
      simp only [List.count_append, List.count_cons, List.count_nil]
      omega
    · exact iff_of_false (mt optionBlocks_eq_nil.mp hsome) hlong

end

/-! ## Runs -/

/-- A call of `IOT_COAP_SendMessage` or of `coap_message_cycle`, with the answers of the network and
of the timers. Every allocation succeeds. -/
inductive ApiCall where
  | sendMessage (topicName : Bytes) (sendParams : SendMsgParams) (rc : ReturnCode)
    (writtenLen : Nat → Nat)
  | cycle (rc : ReturnCode) (recvBuf : Bytes) (ack : ReturnCode) (expired : Nat → Bool)

/-- The client after a call. -/
def apiCall (t : Target) (c : CoapClient) : ApiCall → CoapClient
  | .sendMessage topicName sendParams rc writtenLen =>
    (iotCoapSendMessage t c topicName sendParams { send := { rc, writtenLen } }).2
  | .cycle rc recvBuf ack expired =>
    (coapMessageCycle t c { rc, recvBuf, ack := { rc := ack }, expired }).2

/-- The call loses nothing: the message is refused for its topic, or the cycle keeps what there is. -/
def Keeps (t : Target) (c : CoapClient) : ApiCall → Prop
  | .sendMessage topicName _ _ _ => uriPathMaxLen < topicName.length
  | .cycle rc recvBuf ack expired => CycleKeeps t c { rc, recvBuf, ack := { rc := ack }, expired }

/-- No block has been freed twice, and those that have not been freed are the blocks of the requests
in the wait list: node, `CoAPMsgSendInfo` and copy of the packet. -/
structure Accounted (c : CoapClient) : Prop where
  once : c.heap.freed.Nodup
  live : ∀ a, (a < c.heap.next ∧ a ∉ c.heap.freed) ↔ a ∈ listBlocks c.messageList

/-- A client with no other block, whose authentication is over. -/
structure Clean (c : CoapClient) : Prop where
  balanced : (c.heap.holding (listBlocks c.messageList)).Balanced
  noAuth : NoAuth c.messageList

/-- A call, by what it loses. -/
theorem apiCall_loses (t : Target) (c : CoapClient) (a : ApiCall) (hauth : NoAuth c.messageList) :
    NoAuth (apiCall t c a).messageList ∧
      ∃ lost, Loses c lost (apiCall t c a) ∧ (lost = [] ↔ Keeps t c a) := by
  cases a with
  | sendMessage topicName sendParams rc writtenLen =>
    exact sendMessage_loses topicName sendParams rfl rfl hauth
  | cycle rc recvBuf ack expired => exact cycle_loses rfl rfl hauth

/-- **The account of a run**: no block is freed twice, and those that have not been freed are the
blocks of the requests in the wait list iff no message was sent, no option was received and no request
has left the list. -/
theorem accounted_iff (t : Target) {c₀ : CoapClient} (hclean : Clean c₀) (calls : List ApiCall) :
    (run (apiCall t) c₀ calls).heap.freed.Nodup ∧
      (Accounted (run (apiCall t) c₀ calls) ↔ Meets (apiCall t) (Keeps t) c₀ calls) := by
  have hrun : ∃ lost, Loses c₀ lost (run (apiCall t) c₀ calls) ∧
      (lost = [] ↔ Meets (apiCall t) (Keeps t) c₀ calls) :=
    run_record Loses (fun c => NoAuth c.messageList) Loses.refl Loses.trans (apiCall_loses t) calls
      hclean.noAuth
  obtain ⟨lost, hloses, hlost⟩ := hrun
  have hbalanced : Ledger.Balanced ⟨_, _, _⟩ := Ledger.Turns.balanced hloses hclean.balanced
  refine ⟨hbalanced.nodup_freed, ?_⟩
  rw [← hlost, ← hbalanced.live_iff_mine]
  exact ⟨fun h => h.live, fun h => ⟨hbalanced.nodup_freed, h⟩⟩

/-- A client that waits for the response to its request 1. -/
def waitingClient : CoapClient :=
  { CoapClient.init deviceD 1 5 (some 7) with
    messageList :=
      [{ userContext := 0
         msgId := 1
         token := [4, 3, 2, 1]
         message := some (1, [33])
         handler := some (.user 7)
         infoAddr := 0
         nodeAddr := 2 }]
    heap := { next := 3 } }

theorem waitingClient_clean : Clean waitingClient := by
  refine ⟨?_, fun x hx => ?_⟩
  · have hallocs : Ledger.Turns ⟨[], [], 0⟩ ⟨[2, 1, 0], [], 3⟩ :=
      (Ledger.turns_alloc [] [] 0).trans
        ((Ledger.turns_alloc [0] [] 1).trans (Ledger.turns_alloc [1, 0] [] 2))
    refine Ledger.Turns.balanced (Ledger.Turns.trans hallocs (Ledger.turns_perm ?_))
      Ledger.balanced_empty
    exact (List.Perm.swap 0 1 []).cons 2
  · rw [List.mem_singleton.mp hx]
    simp

/-- The request is acknowledged: its blocks stay the only ones. -/
theorem accounted_acknowledged :
    Accounted (run (apiCall ⟨.w32, .signed⟩) waitingClient
      [.cycle .retSuccess [0x60, 0x43, 0, 1] .retSuccess fun _ => false]) := by
  refine (accounted_iff ⟨.w32, .signed⟩ waitingClient_clean _).2.mpr ⟨⟨fun _ => ?_, nofun⟩, trivial⟩
  refine ⟨by decide, ?_, trivial⟩
  rintro (hinvalid | ⟨hexpired, -⟩)
  · exact absurd hinvalid (by decide)
  · exact nomatch hexpired

/-- A message that is sent and listed: the blocks of its three options stay. -/
theorem accounted_fails :
    ¬ Accounted (run (apiCall ⟨.w32, .signed⟩)
      (.init ⟨[80], [68], by decide, by decide⟩ 0 5 (some 7))
      [.sendMessage [116] ⟨false, [33], 0, none⟩ .retSuccess id]) := by
  intro h
  exact absurd ((h.live 1).mp (by decide)) (by decide)

end QcloudIot.Coap
