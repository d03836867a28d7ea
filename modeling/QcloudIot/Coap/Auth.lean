import QcloudIot.Coap.Requests
import QcloudIot.Lib.Run
import Mathlib.Data.List.Induction

/-!
# Waiting for the authentication

`IOT_COAP_Construct` sends the authentication request and yields as long as `is_authed` is -1. The
result of `coap_client_auth` is ignored.

* `Visit.decides`: a visit leaves `is_authed` and a valid node alone, or calls the callback;
* `step_waits`: what a round of the loop keeps;
* `auth_sent`, `auth_not_sent`: what `coap_client_auth` leaves behind;
* **`authSound_iff`**: the loop always waits for a request that is in the wait list, and ends with
  success only by a response to it, iff the request could be sent;
* `waits_forever`: where it could not, no number of rounds ends the loop.
-/

namespace QcloudIot.Coap

open Mqtt (WordSize)
open Lib

/-! ## The code -/

/-- A round of the loop of `IOT_COAP_Construct`. -/
def constructStep (t : Target) (c : CoapClient) (env : CycleEnv) : CoapClient :=
  if c.isAuthed = -1 then (coapMessageCycle t c env).2 else c

/-- `IOT_COAP_Construct` from `coap_client_auth` on, after the rounds `envs`. -/
def iotCoapConstruct (t : Target) (c : CoapClient) (env : AuthEnv) (envs : List CycleEnv) :
    CoapClient :=
  run (constructStep t) (coapClientAuth t c env).2 envs

/-! ## A visit -/

/-- The node is one of the authentication request, and its callback gets the client. -/
structure AuthNode (request : CoapMessage) (x : CoapMsgSendInfo) : Prop where
  msgId : x.msgId = request.msgId
  token : x.token = request.token
  handler : x.handler = some .auth
  userContext : x.userContext ≠ 0

/-- The message is of class 2.05 and has a payload that is not empty, as a string either. -/
structure CoapMessage.CarriesAuthToken (m : CoapMessage) : Prop where
  rsp : m.IsEmptyRsp
  payLoad : m.payLoad ≠ []
  str : m.payLoad.head? ≠ some 0

section

variable {request : CoapMessage} {cmd : ProcessCmd} {c c' : CoapClient} {m m' : CoapMessage}
  {x : CoapMsgSendInfo} {x' : Option CoapMsgSendInfo}

/-- The callback decides. -/
theorem call_decides (c : CoapClient) (p : UInt16) (m : CoapMessage) {userContext : Nat}
    (hcontext : userContext ≠ 0) :
    (c.call .auth p m userContext).isAuthed = 0 ∨
      ((c.call .auth p m userContext).isAuthed = 1 ∧ m.CarriesAuthToken) := by
  change (coapClientAuthCallback _ m userContext).isAuthed = 0 ∨
    ((coapClientAuthCallback _ m userContext).isAuthed = 1 ∧ m.CarriesAuthToken)
  unfold coapClientAuthCallback
  rw [if_neg hcontext]
  split
  · rename_i hrsp
    split
    · exact .inl rfl
    · rename_i hfull
      simp only [not_or, List.length_eq_zero_iff] at hfull
      exact .inr ⟨rfl, hrsp, hfull.1, hfull.2.2⟩
  · exact .inl rfl

/-- **A visit to a node of the authentication** leaves `is_authed` alone and a valid node valid, or
calls the callback. -/
theorem Visit.decides (h : Visit cmd c m x c' m' x') (hx : AuthNode request x) :
    (c'.isAuthed = c.isAuthed ∧
        (x.nodeState = .normal → ∃ y ∈ x', y.nodeState = .normal)) ∨
      c'.isAuthed = 0 ∨ (c'.isAuthed = 1 ∧ cmd.Matches m x ∧ m.CarriesAuthToken) := by
  cases h with
  | kept acked => exact .inl ⟨rfl, fun hnormal => ⟨_, rfl, hnormal⟩⟩
  | responded acked hmatch =>
    have hcalled := call_decides c x.msgId { m with userContext := x.userContext } hx.userContext
    unfold notifyResponse
    rw [hx.handler]
    rcases hcalled with hzero | ⟨hone, htoken⟩
    · exact .inr (.inl hzero)
    · exact .inr (.inr ⟨hone, hmatch, htoken.rsp, htoken.payLoad, htoken.str⟩)
  | removed hinvalid =>
    refine .inl ⟨rfl, fun hnormal => ?_⟩
    exact absurd (hnormal.symm.trans hinvalid) (by simp)
  | resent packet hlt hnormal => exact .inl ⟨rfl, fun _ => ⟨_, rfl, hnormal⟩⟩
  | timedOut =>
    refine .inr (.inl ?_)
    unfold notifyTimeout
    rw [hx.handler]
    rcases call_decides c x.msgId
      { m with
        type := .ack
        userContext := x.userContext
        codeClass := 6
        codeDetail := 0
        msgId := x.msgId } hx.userContext with hzero | ⟨-, htoken⟩
    · exact hzero
    · exact absurd htoken.rsp.1 (by simp)

/-- A node stays one of the authentication. -/
theorem Visit.authNode (h : Visit cmd c m x c' m' x') (hx : AuthNode request x) :
    ∀ y ∈ x', AuthNode request y := by
  intro y hy
  cases h with
  | kept => cases hy; exact ⟨hx.msgId, hx.token, hx.handler, hx.userContext⟩
  | responded => cases hy; exact ⟨hx.msgId, hx.token, hx.handler, hx.userContext⟩
  | removed => cases hy
  | resent => cases hy; exact ⟨hx.msgId, hx.token, hx.handler, hx.userContext⟩
  | timedOut => cases hy

/-- A visit to such a node changes nothing of the message received but its context. -/
theorem Visit.message (h : Visit cmd c m x c' m' x') (hx : AuthNode request x)
    (hcmd : cmd ≠ .wait) : m' = m ∨ m' = { m with userContext := x.userContext } := by
  cases h with
  | kept => exact .inl rfl
  | responded =>
    unfold notifyResponse
    rw [hx.handler]
    exact .inr rfl
  | removed => exact .inl rfl
  | resent => exact .inl rfl
  | timedOut hwait => exact absurd hwait hcmd

/-! ## A round -/

/-- The message is a response to the request, piggybacked with its id or separate with its token, and
carries the authentication token. -/
structure Grants (request m : CoapMessage) : Prop where
  responds : (m.type = .ack ∧ m.msgId = request.msgId) ∨ (m.type ≠ .ack ∧ m.token = request.token)
  token : m.CarriesAuthToken

/-- What the loop keeps: all nodes are of the authentication, and one of them is valid as long as
`is_authed` is -1. -/
structure Waits (request : CoapMessage) (c : CoapClient) : Prop where
  nodes : ∀ x ∈ c.messageList, AuthNode request x
  normal : c.isAuthed = -1 → ∃ x ∈ c.messageList, x.nodeState = .normal

theorem responds_of_matches (hcmd : m.cmd? = some cmd) (hx : AuthNode request x)
    (hmatch : cmd.Matches m x) :
    (m.type = .ack ∧ m.msgId = request.msgId) ∨ (m.type ≠ .ack ∧ m.token = request.token) := by
  unfold CoapMessage.cmd? at hcmd
  split at hcmd
  · cases hcmd
    exact hmatch.elim
  · split at hcmd
    · rename_i hpiggy
      cases hcmd
      exact .inl ⟨hpiggy.1, hmatch.symm.trans hx.msgId⟩
    · split at hcmd
      · rename_i hresp
        cases hcmd
        refine .inr ⟨?_, hmatch.2.symm.trans hx.token⟩
        rintro hack
        rw [hack] at hresp
        simp at hresp
      · exact nomatch hcmd

/-- What the loop of `_coap_message_list_proc` has done when it has visited `xs`, which are `ys` now. -/
structure Walked (request : CoapMessage) (cmd : ProcessCmd) (c : CoapClient) (m : CoapMessage)
    (c' : CoapClient) (m' : CoapMessage) (xs ys : List CoapMsgSendInfo) : Prop where
  nodes : ∀ y ∈ ys, AuthNode request y
  waits : c'.isAuthed = -1 →
    c.isAuthed = -1 ∧ ((∃ x ∈ xs, x.nodeState = .normal) → ∃ y ∈ ys, y.nodeState = .normal)
  granted : c'.isAuthed = 1 → c.isAuthed = 1 ∨ (m.cmd? = some cmd ∧ Grants request m)
  message : cmd ≠ .wait → ∃ u, m' = { m with userContext := u }

/-- A visit to one more node. -/
theorem Walked.visit {c₁ c₂ : CoapClient} {m₁ m₂ : CoapMessage} {xs ys : List CoapMsgSendInfo}
    (h : Walked request cmd c m c₁ m₁ xs ys) (hvisit : Visit cmd c₁ m₁ x c₂ m₂ x')
    (hx : AuthNode request x) (hcmd : cmd = .wait ∨ m.cmd? = some cmd) :
    Walked request cmd c m c₂ m₂ (x :: xs) (x'.toList ++ ys) := by
  have hdecides := hvisit.decides hx
  refine ⟨fun y hy => ?_, fun hauth => ?_, fun hauth => ?_, fun hne => ?_⟩
  · rcases List.mem_append.mp hy with hy | hy
    · exact hvisit.authNode hx y (Option.mem_toList.mp hy)
    · exact h.nodes y hy
  · rcases hdecides with ⟨hsame, hkept⟩ | hzero | ⟨hone, -⟩
    · obtain ⟨hbefore, hrest⟩ := h.waits (hsame ▸ hauth)
      refine ⟨hbefore, ?_⟩
      rintro ⟨y, hy, hnormal⟩
      rcases List.mem_cons.mp hy with rfl | hy
      · obtain ⟨z, hz, hznormal⟩ := hkept hnormal
        exact ⟨z, List.mem_append_left _ (Option.mem_toList.mpr hz), hznormal⟩
      · obtain ⟨z, hz, hznormal⟩ := hrest ⟨y, hy, hnormal⟩
        exact ⟨z, List.mem_append_right _ hz, hznormal⟩
    · exact absurd (hzero.symm.trans hauth) (by simp)
    · exact absurd (hone.symm.trans hauth) (by simp)
  · rcases hdecides with ⟨hsame, -⟩ | hzero | ⟨-, hmatch, htoken⟩
    · exact h.granted (hsame ▸ hauth)
    · exact absurd (hzero.symm.trans hauth) (by simp)
    · rcases hcmd with rfl | hfor
      · exact hmatch.elim
      · obtain ⟨u, rfl⟩ := h.message fun hwait => by rw [hwait] at hmatch; exact hmatch
        exact .inr ⟨hfor, responds_of_matches hfor hx (by cases cmd <;> exact hmatch),
          htoken.rsp, htoken.payLoad, htoken.str⟩
  · obtain ⟨u, rfl⟩ := h.message hne
    rcases hvisit.message hx hne with rfl | rfl
    · exact ⟨u, rfl⟩
    · exact ⟨x.userContext, rfl⟩

/-- **`_coap_message_list_proc` over nodes of the authentication.** -/
theorem listProc_waits (iter : Bool) (expired : Nat → Bool) (h : Waits request c)
    (hcmd : cmd = .wait ∨ m.cmd? = some cmd) :
    Waits request (coapMessageListProc cmd iter expired c m).2 ∧
      ((coapMessageListProc cmd iter expired c m).2.isAuthed = 1 →
        c.isAuthed = 1 ∨ (m.cmd? = some cmd ∧ Grants request m)) := by
  rcases listProc_visits cmd iter expired c m
      (I := fun c₁ m₁ xs ys => (∀ x ∈ xs, AuthNode request x) →
        Walked request cmd c m c₁ m₁ xs ys)
      (by
        intro heap _
        exact ⟨nofun, fun hauth => ⟨hauth, fun ⟨x, hx, _⟩ => nomatch hx⟩, .inl,
          fun _ => ⟨m.userContext, rfl⟩⟩)
      (by
        intro c₁ m₁ x xs ys c₂ m₂ x' ih hvisit hxs
        have hrest := ih fun y hy => hxs y (List.mem_cons_of_mem x hy)
        exact hrest.visit hvisit (hxs x List.mem_cons_self) hcmd) with
    ⟨-, hsame⟩ | ⟨-, c₁, m₁, nodes, heap, hI, hproc⟩
  · rw [hsame]
    exact ⟨h, .inl⟩
  · rw [hproc]
    have hwalked := hI h.nodes
    refine ⟨⟨hwalked.nodes, fun hauth => ?_⟩, hwalked.granted⟩
    obtain ⟨hbefore, hnormal⟩ := hwalked.waits hauth
    exact hnormal (h.normal hbefore)

/-- **A round of the loop.** -/
theorem step_waits {t : Target} (env : CycleEnv) (h : Waits request c) :
    Waits request (constructStep t c env) ∧
      ((constructStep t c env).isAuthed = 1 →
        c.isAuthed = 1 ∨ (env.rc = .retSuccess ∧ Grants request (decoded t c env))) := by
  unfold constructStep
  split
  · refine cycle_rule (R := fun c₁ c₂ => Waits request c₁ → Waits request c₂ ∧
      (c₂.isAuthed = 1 →
        c₁.isAuthed = 1 ∨ (env.rc = .retSuccess ∧ Grants request (decoded t c env))))
      ?_ ?_ ?_ ?_ ?_ h
    · intro c₁ c₂ c₃ h₁ h₂ hwaits
      obtain ⟨hwaits₂, hgranted₂⟩ := h₁ hwaits
      obtain ⟨hwaits₃, hgranted₃⟩ := h₂ hwaits₂
      exact ⟨hwaits₃, fun hauth => (hgranted₃ hauth).elim hgranted₂ .inr⟩
    · exact fun c heap hwaits => ⟨⟨hwaits.nodes, hwaits.normal⟩, .inl⟩
    · exact fun c msgId packet hwaits => ⟨⟨hwaits.nodes, hwaits.normal⟩, .inl⟩
    · intro hrc cmd hcmd c₁ _ _ hwaits
      obtain ⟨hwaits', hgranted⟩ := listProc_waits env.iter env.expired hwaits (.inr hcmd)
      exact ⟨hwaits', fun hauth => (hgranted hauth).imp_right fun hg => ⟨hrc, hg.2⟩⟩
    · intro c₁ _ hwaits
      obtain ⟨hwaits', hgranted⟩ :=
        listProc_waits (m := {}) env.sweepIter env.expired hwaits (.inl rfl)
      refine ⟨hwaits', fun hauth => (hgranted hauth).imp_right fun hg => ?_⟩
      exact absurd hg.1 (by decide)
  · exact ⟨h, .inl⟩

/-- What the loop has waited for. -/
theorem run_waits {t : Target} (h : Waits request c) (hauth : c.isAuthed ≠ 1) :
    ∀ envs : List CycleEnv, Waits request (run (constructStep t) c envs) ∧
      ((run (constructStep t) c envs).isAuthed = 1 →
        ∃ before env behind, envs = before ++ env :: behind ∧ env.rc = .retSuccess ∧
          Grants request (decoded t (run (constructStep t) c before) env)) := by
  intro envs
  induction envs using List.reverseRecOn with
  | nil => exact ⟨h, fun hone => absurd hone hauth⟩
  | append_singleton envs env ih =>
    obtain ⟨hwaits, hgranted⟩ := ih
    rw [run_append]
    obtain ⟨hwaits', hstep⟩ := step_waits env hwaits
    refine ⟨hwaits', fun hone => ?_⟩
    rcases hstep hone with hbefore | hnow
    · obtain ⟨before, e, behind, rfl, he⟩ := hgranted hbefore
      exact ⟨before, e, behind ++ [env], by simp, he⟩
    · exact ⟨envs, env, [], rfl, hnow⟩

end

/-! ## Sending the request -/

/-- The message is the authentication request that was begun as `request`, and there is room for it. -/
structure IsAuthRequest (sz : WordSize) (request m : CoapMessage) : Prop where
  isRequest : m.IsRequest
  msgId : m.msgId = request.msgId
  token : m.token = request.token
  handler : m.handler = some .auth
  userContext : m.userContext = 1
  fits : ∃ n, (serializeCoapMessage sz m coapSendmsgMaxBuflen).rc = .ok n

/-- The message has the options of the request, and room for its payload. -/
theorem authMessage_eq (c : CoapClient) (env : AuthEnv) :
    ∃ ops, (authMessage c env).1 =
        { (newRequest c).1 with opList := ops, handler := some .auth, userContext := 1 } ∧
      optionsRoom ops ≤ 88 := by
  obtain ⟨ops₁, hadd₁, hroom₁⟩ := optionAdd_message (newRequest c).2.heap.alloc.2
    (env.oks.getD 0 true) (env.oks.getD 1 true) (newRequest c).1 coapMsgUriPath
    (authPath (newRequest c).2.deviceInfo)
  obtain ⟨ops₂, hadd₂, hroom₂⟩ := optionAdd_message
    ((coapMessageOptionAdd (newRequest c).2.heap.alloc.2 (env.oks.getD 0 true)
      (env.oks.getD 1 true) (newRequest c).1 coapMsgUriPath
      (authPath (newRequest c).2.deviceInfo)).2.2.free (newRequest c).2.heap.alloc.1)
    (env.oks.getD 2 true) (env.oks.getD 3 true) { (newRequest c).1 with opList := ops₁ }
    coapMsgNeedResp [48]
  have hpath := length_authPath (newRequest c).2.deviceInfo
  have hnil : optionsRoom (newRequest c).1.opList = 0 := rfl
  refine ⟨ops₂, ?_, ?_⟩
  · unfold authMessage
    dsimp only
    rw [hadd₁, hadd₂]
  · simp only [List.length_singleton] at hroom₂
    omega

/-- The request with its payload can be sent. -/
theorem isAuthRequest (sz : WordSize) (c : CoapClient) (env : AuthEnv) (addr : Nat) {text : Bytes}
    (htext : text.length = 16) :
    IsAuthRequest sz (newRequest c).1
      (coapMessagePayloadSet { (authMessage c env).1 with payLoadAt := some addr } text).2 := by
  obtain ⟨ops, heq, hroom⟩ := authMessage_eq c env
  rw [heq]
  unfold coapMessagePayloadSet
  rw [if_pos (by omega), if_neg (by simp)]
  refine ⟨⟨rfl, rfl⟩, rfl, rfl, rfl, rfl, _, serialize_fits ⟨fun op hop => ?_, ?_⟩ ?_ ?_⟩
  · exact lt_of_le_of_lt ((val_le_optionsRoom hop).trans hroom) (by decide)
  · dsimp only
    rw [htext]
    cases sz <;> decide
  · cases sz <;> decide
  · change 4 + 4 + optionsRoom ops + (text.length + 1) ≤ 512
    omega

/-- **`coap_client_auth`** sends the request, or has no block for its payload. -/
theorem clientAuth_cases (t : Target) (c : CoapClient) (env : AuthEnv) :
    (¬ (env.payLoad = true ∧ env.temp = true) ∧
        ∃ heap, (coapClientAuth t c env).2 = { (authMessage c env).2 with heap := heap }) ∨
      ((env.payLoad = true ∧ env.temp = true) ∧ ∃ m heap heap',
        IsAuthRequest t.size (newRequest c).1 m ∧
          (coapClientAuth t c env).2 =
            { (coapMessageSend t { (authMessage c env).2 with heap := heap } m env.send).2 with
              heap := heap' }) := by
  unfold coapClientAuth Heap.malloc
  dsimp only
  cases env.payLoad with
  | false => exact .inl ⟨by simp, _, rfl⟩
  | true =>
    cases env.temp with
    | false => exact .inl ⟨by simp, _, rfl⟩
    | true =>
      refine .inr ⟨⟨rfl, rfl⟩, _, _, _, ?_, rfl⟩
      exact isAuthRequest t.size c env _ (length_snprintf (by decide) _ _)

/-- The request is sent and put into the wait list. -/
def AuthEnv.Sends (env : AuthEnv) : Prop :=
  (env.payLoad = true ∧ env.temp = true) ∧ env.send.Lists

section

variable {t : Target} {c : CoapClient} {env : AuthEnv}

/-- A request that is sent is waited for. -/
theorem auth_sent (hlist : c.messageList = []) (hsends : env.Sends) :
    Waits (newRequest c).1 (coapClientAuth t c env).2 ∧
      (coapClientAuth t c env).2.isAuthed = c.isAuthed := by
  rcases clientAuth_cases t c env with ⟨hno, -⟩ | ⟨-, m, heap, heap', hm, hauth⟩
  · exact absurd hsends.1 hno
  · rw [hauth]
    rcases send_cases t { (authMessage c env).2 with heap := heap } m env.send with
      ⟨heap₁, es, -, -, hlists⟩ | ⟨-, -, heap₁, packet, x, hsent, hx⟩
    · exact absurd hsends.2 (hlists hm.isRequest hm.fits)
    · have hnode : AuthNode (newRequest c).1 x :=
        ⟨hx.msgId.trans hm.msgId, hx.token.trans hm.token, hx.handler.trans hm.handler, by
          rw [hx.userContext, hm.userContext]
          decide⟩
      have hnodes : (coapMessageSend t { (authMessage c env).2 with heap := heap } m
          env.send).2.messageList = [x] := by
        rw [hsent]
        change c.messageList ++ [x] = [x]
        rw [hlist, List.nil_append]
      refine ⟨⟨fun y hy => ?_, fun _ => ?_⟩, by rw [hsent]; rfl⟩
      · rw [hnodes] at hy
        rw [List.mem_singleton.mp hy]
        exact hnode
      · rw [hnodes]
        exact ⟨x, List.mem_cons_self, hx.nodeState⟩

/-- A request that is not sent leaves nothing behind. -/
theorem auth_not_sent (hlist : c.messageList = []) (hsends : ¬ env.Sends) :
    (coapClientAuth t c env).2.messageList = [] ∧
      (coapClientAuth t c env).2.isAuthed = c.isAuthed := by
  rcases clientAuth_cases t c env with ⟨-, heap, hauth⟩ | ⟨hblocks, m, heap, heap', hm, hauth⟩
  · rw [hauth]
    exact ⟨hlist, rfl⟩
  · rw [hauth]
    rcases send_cases t { (authMessage c env).2 with heap := heap } m env.send with
      ⟨heap₁, es, hsent, -, -⟩ | ⟨-, hlists, -⟩
    · rw [hsent]
      exact ⟨hlist, rfl⟩
    · exact absurd ⟨hblocks, hlists⟩ hsends

/-! ## Runs -/

/-- A cycle without a request in the wait list changes nothing of it. -/
theorem step_idle (cycle : CycleEnv) (hlist : c.messageList = []) :
    (constructStep t c cycle).messageList = [] ∧
      (constructStep t c cycle).isAuthed = c.isAuthed := by
  unfold constructStep
  split
  · refine cycle_rule (R := fun c₁ c₂ => c₁.messageList = [] →
      c₂.messageList = [] ∧ c₂.isAuthed = c₁.isAuthed) ?_ ?_ ?_ ?_ ?_ hlist
    · intro c₁ c₂ c₃ h₁ h₂ hnil
      obtain ⟨hnil₂, hsame₂⟩ := h₁ hnil
      obtain ⟨hnil₃, hsame₃⟩ := h₂ hnil₂
      exact ⟨hnil₃, hsame₃.trans hsame₂⟩
    · exact fun c heap hnil => ⟨hnil, rfl⟩
    · exact fun c msgId packet hnil => ⟨hnil, rfl⟩
    · intro _ cmd _ c₁ _ _ hnil
      rw [listProc_nil cmd _ _ _ hnil]
      exact ⟨hnil, rfl⟩
    · intro c₁ _ hnil
      rw [listProc_nil .wait _ _ _ hnil]
      exact ⟨hnil, rfl⟩
  · exact ⟨hlist, rfl⟩

/-- **A request that is not sent is waited for all the same**, and no number of rounds ends that. -/
theorem waits_forever (t : Target) (hlist : c.messageList = []) (hauth : c.isAuthed = -1)
    (hsends : ¬ env.Sends) (envs : List CycleEnv) :
    (iotCoapConstruct t c env envs).messageList = [] ∧
      (iotCoapConstruct t c env envs).isAuthed = -1 := by
  refine run_preserves (fun c : CoapClient => c.messageList = [] ∧ c.isAuthed = -1) ?_ envs ?_
  · rintro c cycle ⟨hnil, hwaits⟩
    obtain ⟨hnil', hsame⟩ := step_idle (t := t) cycle hnil
    exact ⟨hnil', hsame.trans hwaits⟩
  · obtain ⟨hnil, hsame⟩ := auth_not_sent (t := t) hlist hsends
    exact ⟨hnil, hsame.trans hauth⟩

end

/-- What `IOT_COAP_Construct` promises after the rounds `envs`: while it waits, the authentication
request is in the wait list and its callback is still to come; and a response to that request with the
token has been handled when it ends with success. -/
structure AuthSound (t : Target) (c : CoapClient) (env : AuthEnv) (envs : List CycleEnv) : Prop where
  waiting : (iotCoapConstruct t c env envs).isAuthed = -1 →
    ∃ x ∈ (iotCoapConstruct t c env envs).messageList,
      AuthNode (newRequest c).1 x ∧ x.nodeState = .normal
  granted : (iotCoapConstruct t c env envs).isAuthed = 1 →
    ∃ before cycle behind, envs = before ++ cycle :: behind ∧ cycle.rc = .retSuccess ∧
      Grants (newRequest c).1 (decoded t (iotCoapConstruct t c env before) cycle)

/-- **Authentication never waits for nothing**, whatever is received and whichever timers expire, iff
the blocks of the request's payload and of its entry in the wait list were there and the network took
the packet. -/
theorem authSound_iff (t : Target) (deviceInfo : DeviceInfo) (nextMsgId : UInt16)
    (maxRetryCount : UInt8) (eventHandle : Option FnPtr) (env : AuthEnv) :
    (∀ envs, AuthSound t (.init deviceInfo nextMsgId maxRetryCount eventHandle) env envs) ↔
      env.Sends := by
  constructor
  · intro hsound
    by_contra hsends
    obtain ⟨hnil, hauth⟩ := waits_forever t (c := .init deviceInfo nextMsgId maxRetryCount
      eventHandle) rfl rfl hsends []
    obtain ⟨x, hx, -⟩ := (hsound []).waiting hauth
    rw [hnil] at hx
    exact absurd hx List.not_mem_nil
  · intro hsends envs
    obtain ⟨hwaits, hauth⟩ := auth_sent (t := t) (c := .init deviceInfo nextMsgId maxRetryCount
      eventHandle) rfl hsends
    obtain ⟨hwaits', hgranted⟩ := run_waits (t := t) hwaits
      (by rw [hauth]; exact (by decide : (-1 : Int) ≠ 1)) envs
    refine ⟨fun hstill => ?_, hgranted⟩
    obtain ⟨x, hx, hnormal⟩ := hwaits'.normal hstill
    exact ⟨x, hx, hwaits'.nodes x hx, hnormal⟩

/-- The network does not take the request: there is nothing to wait for after three rounds. -/
theorem authSound_fails :
    ¬ AuthSound ⟨.w32, .signed⟩ (.init ⟨[80], [68], by decide, by decide⟩ 0 5 none)
      { send := { rc := .errSslWrite } } [{}, {}, {}] := by
  intro hsound
  have hsends : ¬ AuthEnv.Sends { send := { rc := .errSslWrite } } := fun h => nomatch h.2.1
  obtain ⟨hnil, hauth⟩ := waits_forever ⟨.w32, .signed⟩
    (c := .init ⟨[80], [68], by decide, by decide⟩ 0 5 none) rfl rfl hsends [{}, {}, {}]
  obtain ⟨x, hx, -⟩ := hsound.waiting hauth
  rw [hnil] at hx
  exact absurd hx List.not_mem_nil

end QcloudIot.Coap
