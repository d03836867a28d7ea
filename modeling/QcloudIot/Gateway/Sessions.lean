import QcloudIot.Gateway.Client
import QcloudIot.Lib.Run

/-!
# The session list as a map

What the session list is for: a map from pairs of a product id and a device name to the status of
the subdevice (`SessionMap`), of which an operation reads and changes the entry of its own pair
(`call_frame`).

The searches of the list stop at the first session whose names *start with* those of the call. As
long as that is a session of the very pair (`ExactFor`), the list is that map.

* `onlineRequest_refines`, `offlineRequest_refines`, `call_refines`: one call;
* **`sessions_refine`**: every run of calls that finds no session of a longer pair.
-/

namespace QcloudIot.Gateway

open Lib

/-! ## The map -/

/-- The status of the subdevices that have a session. -/
abbrev SessionMap := Bytes × Bytes → Option SubdevSessionStatus

/-- The texts of a request fit their buffers. -/
def RequestFits (type : Bytes) (param : GatewayParam) : Prop :=
  (operationTopic param).length ≤ maxSizeOfCloudTopic ∧
    (statusPayload type param).length ≤ gatewayPayloadBufferLen ∧
    (clientIdText param.subdevProductId param.subdevDeviceName).length ≤ maxSizeOfClientId

instance (type : Bytes) (param : GatewayParam) : Decidable (RequestFits type param) :=
  inferInstanceAs (Decidable (_ ∧ _ ∧ _))

namespace SessionMap

/-- A subdevice with a session asks to go online. -/
def onlineRequest (m : SessionMap) (param : GatewayParam) (outcome : PublishOutcome) :
    Int × SessionMap :=
  if RequestFits (chars "online") param then
    let (rc, result) := gatewayPublishSync (-1001) outcome
    if rc ≠ qcloudRetSuccess then (result, Function.update m param.pair none)
    else (qcloudRetSuccess, Function.update m param.pair (some .online))
  else (qcloudErrFailure, m)

/-- Going online. -/
def online (m : SessionMap) (param : GatewayParam) (env : CallEnv) : Int × SessionMap :=
  if param.anyEmpty then (qcloudErrInval, m)
  else
    match m param.pair with
    | none =>
      if env.mallocOk then
        onlineRequest (Function.update m param.pair (some .init)) param env.outcome
      else (qcloudErrGatewayCreateSessionFail, m)
    | some status =>
      if status = .online then (qcloudErrGatewaySubdevOnline, m)
      else onlineRequest m param env.outcome

/-- A subdevice with a session asks to go offline. -/
def offlineRequest (m : SessionMap) (param : GatewayParam) (outcome : PublishOutcome) :
    Int × SessionMap :=
  if RequestFits (chars "offline") param then
    let (rc, result) := gatewayPublishSync (-1001) outcome
    if rc ≠ qcloudRetSuccess then (result, m)
    else (qcloudRetSuccess, Function.update m param.pair none)
  else (qcloudErrFailure, m)

/-- Going offline. -/
def offline (m : SessionMap) (param : GatewayParam) (outcome : PublishOutcome) : Int × SessionMap :=
  if param.anyEmpty then (qcloudErrInval, m)
  else
    match m param.pair with
    | none => (qcloudErrGatewaySessionNoExist, m)
    | some status =>
      if status = .offline then
        (qcloudErrGatewaySubdevOffline, Function.update m param.pair none)
      else offlineRequest m param outcome

end SessionMap

/-! ## Calls -/

/-- A call of the application. -/
inductive Call where
  | online (param : GatewayParam) (env : CallEnv)
  | offline (param : GatewayParam) (outcome : PublishOutcome)

/-- The parameters of a call. -/
def Call.param : Call → GatewayParam
  | .online param _ => param
  | .offline param _ => param

/-- What the gateway does: the code and the context. -/
def GatewayContext.call (g : GatewayContext) : Call → Int × GatewayContext
  | .online param env => iotGatewaySubdevOnline g param env
  | .offline param outcome => iotGatewaySubdevOffline g param outcome

/-- What the map does. -/
def SessionMap.call (m : SessionMap) : Call → Int × SessionMap
  | .online param env => m.online param env
  | .offline param outcome => m.offline param outcome

/-- A call of the gateway, with the codes returned so far. -/
def callStep (s : GatewayContext × List Int) (c : Call) : GatewayContext × List Int :=
  ((s.1.call c).2, s.2 ++ [(s.1.call c).1])

/-- The same of the map. -/
def mapStep (s : SessionMap × List Int) (c : Call) : SessionMap × List Int :=
  ((s.1.call c).2, s.2 ++ [(s.1.call c).1])

namespace SessionMap

variable (m : SessionMap) (param : GatewayParam) {k : Bytes × Bytes}

theorem onlineRequest_frame (outcome : PublishOutcome) (hk : k ≠ param.pair) :
    (m.onlineRequest param outcome).2 k = m k := by
  unfold onlineRequest
  dsimp only
  split_ifs
  · exact Function.update_of_ne hk _ _
  · exact Function.update_of_ne hk _ _
  · rfl

theorem offlineRequest_frame (outcome : PublishOutcome) (hk : k ≠ param.pair) :
    (m.offlineRequest param outcome).2 k = m k := by
  unfold offlineRequest
  dsimp only
  split_ifs
  · rfl
  · exact Function.update_of_ne hk _ _
  · rfl

/-- An operation leaves the other pairs alone. -/
theorem call_frame (c : Call) (hk : k ≠ c.param.pair) : (m.call c).2 k = m k := by
  cases c with
  | online param env =>
    unfold call online
    dsimp only
    split
    · rfl
    split
    · split
      · exact (onlineRequest_frame _ param _ hk).trans (Function.update_of_ne hk _ _)
      · rfl
    · split
      · rfl
      · exact onlineRequest_frame _ _ _ hk
  | offline param outcome =>
    unfold call offline
    dsimp only
    split
    · rfl
    split
    · rfl
    · split
      · exact Function.update_of_ne hk _ _
      · exact offlineRequest_frame _ _ _ hk

end SessionMap

/-! ## The list -/

/-- Who the searches for the pair find is a session of the pair. -/
def ExactFor (sessions : List SubdevSession) (productId deviceName : Bytes) : Prop :=
  ∀ s ∈ sessions, s.isFor productId deviceName = true → s.pair = (productId, deviceName)

instance (sessions : List SubdevSession) (productId deviceName : Bytes) :
    Decidable (ExactFor sessions productId deviceName) :=
  inferInstanceAs (Decidable (∀ s ∈ sessions, _))

variable {sessions : List SubdevSession} {m : SessionMap} {param : GatewayParam}
  {productId deviceName : Bytes}

/-- Then the searches are those for the pair. -/
theorem ExactFor.isFor_eq (h : ExactFor sessions productId deviceName) : ∀ s ∈ sessions,
    (fun s : SubdevSession => s.isFor productId deviceName) s =
      decide (s.pair = (productId, deviceName)) := by
  intro s hs
  rw [Bool.eq_iff_iff, decide_eq_true_eq]
  refine ⟨h s hs, fun hpair => ?_⟩
  obtain ⟨rfl, rfl⟩ := Prod.mk.inj hpair
  exact isFor_iff.mpr ⟨List.prefix_refl _, List.prefix_refl _⟩

theorem ExactFor.cons (h : ExactFor sessions productId deviceName) (status : SubdevSessionStatus) :
    ExactFor (⟨productId, deviceName, status⟩ :: sessions) productId deviceName :=
  List.forall_mem_cons.mpr ⟨fun _ => rfl, h⟩

theorem ExactFor.setSessionStatus (h : ExactFor sessions productId deviceName)
    (status : SubdevSessionStatus) :
    ExactFor (setSessionStatus status sessions productId deviceName) productId deviceName := by
  unfold QcloudIot.Gateway.setSessionStatus
  induction sessions with
  | nil => exact h
  | cons s sessions ih =>
    obtain ⟨hs, hrest⟩ := List.forall_mem_cons.mp h
    rw [modifyFirst]
    split
    · rename_i hfound
      exact List.forall_mem_cons.mpr ⟨fun _ => hs hfound, hrest⟩
    · exact List.forall_mem_cons.mpr ⟨hs, ih hrest⟩

theorem subdevAddSession_eq (hne : ¬ param.anyEmpty) (mallocOk : Bool) :
    subdevAddSession mallocOk sessions param.subdevProductId param.subdevDeviceName =
      if mallocOk = true then
        some (⟨param.subdevProductId, param.subdevDeviceName, .init⟩ :: sessions)
      else none := by
  unfold GatewayParam.anyEmpty at hne
  unfold subdevAddSession
  rw [if_neg (by tauto)]

section Exact

variable (h : Represents SubdevSession.pair SubdevSession.sessionStatus sessions m)
  (hexact : ExactFor sessions param.subdevProductId param.subdevDeviceName) (hne : ¬ param.anyEmpty)
include h hexact hne

theorem subdevFindSession_map : (subdevFindSession sessions param.subdevProductId
    param.subdevDeviceName).map (·.sessionStatus) = m param.pair := by
  unfold GatewayParam.anyEmpty at hne
  unfold subdevFindSession
  rw [if_neg (by tauto), find?_congr_mem hexact.isFor_eq]
  exact h.find param.pair

theorem pair_of_find {session : SubdevSession} (hfind : subdevFindSession sessions
    param.subdevProductId param.subdevDeviceName = some session) : m param.pair ≠ none := by
  rw [← subdevFindSession_map h hexact hne, hfind]
  exact Option.some_ne_none _

theorem subdevRemoveSession_represents : Represents SubdevSession.pair SubdevSession.sessionStatus
    (subdevRemoveSession sessions param.subdevProductId param.subdevDeviceName).2
    (Function.update m param.pair none) := by
  have herase : (subdevRemoveSession sessions param.subdevProductId param.subdevDeviceName).2 =
      sessions.eraseP (·.isFor param.subdevProductId param.subdevDeviceName) := by
    unfold GatewayParam.anyEmpty at hne
    unfold subdevRemoveSession
    rw [if_neg (by tauto)]
    split
    · rename_i hnil
      rw [hnil]
      rfl
    split
    · rfl
    · rename_i hnone
      rw [List.eraseP_of_forall_not]
      simpa using hnone
  rw [herase, eraseP_congr hexact.isFor_eq]
  exact h.eraseP param.pair

omit hne in
theorem setSessionStatus_represents (hsome : m param.pair ≠ none) (status : SubdevSessionStatus) :
    Represents SubdevSession.pair SubdevSession.sessionStatus
      (setSessionStatus status sessions param.subdevProductId param.subdevDeviceName)
      (Function.update m param.pair (some status)) := by
  unfold setSessionStatus
  rw [modifyFirst_congr _ hexact.isFor_eq]
  exact h.modifyFirst hsome (fun _ => rfl) fun _ => rfl

end Exact

/-! ## One call -/

/-- What a call returns is what the map returns, and the list stands for the map again. -/
def Refines (r : Int × GatewayContext) (r' : Int × SessionMap) : Prop :=
  r.1 = r'.1 ∧ Represents SubdevSession.pair SubdevSession.sessionStatus r.2.sessionList r'.2

variable {g : GatewayContext}

/-- Both requests check the lengths first. -/
theorem requestFits_refines {type : Bytes} {x y r : Int × GatewayContext} {r' : Int × SessionMap}
    (hx : Refines x (qcloudErrFailure, m)) (hy : Refines y (qcloudErrFailure, m)) (hr : Refines r r') :
    Refines
      (if (operationTopic param).length > maxSizeOfCloudTopic then x
        else if (statusPayload type param).length > gatewayPayloadBufferLen then x
        else if (clientIdText param.subdevProductId param.subdevDeviceName).length > maxSizeOfClientId
          then y
        else r)
      (if RequestFits type param then r' else (qcloudErrFailure, m)) := by
  by_cases hfits : RequestFits type param
  · obtain ⟨htopic, hpayload, hclient⟩ := id hfits
    rw [if_neg (by omega), if_neg (by omega), if_neg (by omega), if_pos hfits]
    exact hr
  · rw [if_neg hfits]
    unfold RequestFits at hfits
    split_ifs
    · exact hx
    · exact hx
    · exact hy
    · exact absurd ⟨by omega, by omega, by omega⟩ hfits

section Request

variable (h : Represents SubdevSession.pair SubdevSession.sessionStatus g.sessionList m)
  (hexact : ExactFor g.sessionList param.subdevProductId param.subdevDeviceName)
  (hne : ¬ param.anyEmpty) (hsome : m param.pair ≠ none)
include h hexact hne hsome

theorem onlineRequest_refines (outcome : PublishOutcome) :
    Refines (onlineRequest g param outcome) (m.onlineRequest param outcome) := by
  refine requestFits_refines ⟨rfl, h⟩ ⟨rfl, h⟩ ?_
  dsimp only
  split
  · exact ⟨rfl, subdevRemoveSession_represents h hexact hne⟩
  · exact ⟨rfl, setSessionStatus_represents h hexact hsome .online⟩

theorem offlineRequest_refines (outcome : PublishOutcome) :
    Refines (offlineRequest g param outcome) (m.offlineRequest param outcome) := by
  refine requestFits_refines ⟨rfl, h⟩ ⟨rfl, h⟩ ?_
  dsimp only
  split
  · exact ⟨rfl, h⟩
  · have hset := setSessionStatus_represents h hexact hsome .offline
    have hremoved := subdevRemoveSession_represents hset (hexact.setSessionStatus .offline) hne
    rw [Function.update_idem] at hremoved
    exact ⟨rfl, hremoved⟩

end Request

/-- **One call**, as long as the searches find the pair of the call or nothing. -/
theorem call_refines
    (h : Represents SubdevSession.pair SubdevSession.sessionStatus g.sessionList m) (c : Call)
    (hexact : ExactFor g.sessionList c.param.subdevProductId c.param.subdevDeviceName) :
    Refines (g.call c) (m.call c) := by
  cases c with
  | online param env =>
    unfold GatewayContext.call SessionMap.call iotGatewaySubdevOnline SessionMap.online
    dsimp only [Call.param] at hexact ⊢
    by_cases hne : param.anyEmpty
    · rw [if_pos hne, if_pos hne]
      exact ⟨rfl, h⟩
    rw [if_neg hne, if_neg hne, ← subdevFindSession_map h hexact hne]
    rcases hfind : subdevFindSession g.sessionList param.subdevProductId param.subdevDeviceName
      with - | session
    · have hnone : m param.pair = none := by
        rw [← subdevFindSession_map h hexact hne, hfind]
        rfl
      rw [subdevAddSession_eq hne env.mallocOk]
      dsimp only [Option.map_none]
      by_cases hmalloc : env.mallocOk = true
      · rw [if_pos hmalloc, if_pos hmalloc]
        exact onlineRequest_refines (h.cons (a := ⟨_, _, .init⟩) hnone) (hexact.cons .init) hne
          (by rw [Function.update_self]; exact Option.some_ne_none _) env.outcome
      · rw [if_neg hmalloc, if_neg hmalloc]
        exact ⟨rfl, h⟩
    · dsimp only [Option.map_some]
      have hsome := pair_of_find h hexact hne hfind
      split
      · exact ⟨rfl, h⟩
      · exact onlineRequest_refines h hexact hne hsome env.outcome
  | offline param outcome =>
    unfold GatewayContext.call SessionMap.call iotGatewaySubdevOffline SessionMap.offline
    dsimp only [Call.param] at hexact ⊢
    by_cases hne : param.anyEmpty
    · rw [if_pos hne, if_pos hne]
      exact ⟨rfl, h⟩
    rw [if_neg hne, if_neg hne, ← subdevFindSession_map h hexact hne]
    rcases hfind : subdevFindSession g.sessionList param.subdevProductId param.subdevDeviceName
      with - | session
    · exact ⟨rfl, h⟩
    · dsimp only [Option.map_some]
      have hsome := pair_of_find h hexact hne hfind
      split
      · exact ⟨rfl, subdevRemoveSession_represents h hexact hne⟩
      · exact offlineRequest_refines h hexact hne hsome outcome

/-! ## Runs -/

/-- The gateway and the map have returned the same codes, and the list stands for the map. -/
def RefinesRun (s : GatewayContext × List Int) (s' : SessionMap × List Int) : Prop :=
  s.2 = s'.2 ∧
    Represents SubdevSession.pair SubdevSession.sessionStatus s.1.sessionList s'.1

/-- The call finds no session of another pair. -/
def CallExact (s : GatewayContext × List Int) (c : Call) : Prop :=
  ExactFor s.1.sessionList c.param.subdevProductId c.param.subdevDeviceName

instance (s : GatewayContext × List Int) (c : Call) : Decidable (CallExact s c) :=
  inferInstanceAs (Decidable (ExactFor _ _ _))

theorem run_refines : ∀ {s : GatewayContext × List Int} {s' : SessionMap × List Int}
    (calls : List Call), RefinesRun s s' → Meets callStep CallExact s calls →
      RefinesRun (run callStep s calls) (run mapStep s' calls)
  | _, _, [], h, _ => h
  | s, s', c :: calls, ⟨hcodes, hlist⟩, ⟨hexact, hmeets⟩ => by
    obtain ⟨hcode, hnext⟩ := call_refines hlist c hexact
    refine run_refines calls ⟨?_, hnext⟩ hmeets
    unfold callStep mapStep
    rw [hcodes, hcode]

/-- **The session list is a map keyed by the exact pair**, in every run whose calls each find a
session of their own pair or none: every call returns what the map returns, in the end the list has
one session for each pair of the map, and a pair that is looked up is found iff it is in the map. -/
theorem sessions_refine (calls : List Call) (h : Meets callStep CallExact ({}, []) calls) :
    (run callStep ({}, []) calls).2 = (run mapStep (fun _ => none, []) calls).2 ∧
    Represents SubdevSession.pair SubdevSession.sessionStatus
      (run callStep ({}, []) calls).1.sessionList (run mapStep (fun _ => none, []) calls).1 ∧
    ∀ param : GatewayParam, ¬ param.anyEmpty →
      ExactFor (run callStep ({}, []) calls).1.sessionList param.subdevProductId
        param.subdevDeviceName →
      (subdevFindSession (run callStep ({}, []) calls).1.sessionList param.subdevProductId
          param.subdevDeviceName).map (·.sessionStatus) =
        (run mapStep (fun _ => none, []) calls).1 param.pair := by
  have hrun : RefinesRun (run callStep ({}, []) calls) (run mapStep (fun _ => none, []) calls) :=
    run_refines calls ⟨rfl, .nil⟩ h
  obtain ⟨hcodes, hlist⟩ := hrun
  exact ⟨hcodes, hlist, fun param hne hexact => subdevFindSession_map hlist hexact hne⟩

/-- A subdevice of product `P` with this name. -/
def subdevice (name : Bytes) (h : name.length ≤ maxSizeOfDeviceName) : GatewayParam :=
  ⟨chars "GW", chars "gw", chars "P", name, by decide, h⟩

/-- `dev1` goes online, then `cam`. -/
def twoOnline : List Call :=
  [.online (subdevice (chars "dev1") (by decide)) ⟨true, .reply 0⟩,
    .online (subdevice (chars "cam") (by decide)) ⟨true, .reply 0⟩]

theorem sessions_refine_two : (run callStep ({}, []) twoOnline).2 = [0, 0] :=
  (sessions_refine twoOnline (by decide)).1.trans (by decide)

/-- `dev1` goes online, then `dev`: it is said to be online already. -/
def prefixOnline : List Call :=
  [.online (subdevice (chars "dev1") (by decide)) ⟨true, .reply 0⟩,
    .online (subdevice (chars "dev") (by decide)) ⟨true, .reply 0⟩]

theorem sessions_confused : (run callStep ({}, []) prefixOnline).2 = [0, -224] ∧
    (run mapStep (fun _ => none, []) prefixOnline).2 = [0, 0] := by
  decide

end QcloudIot.Gateway
