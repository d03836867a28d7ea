import QcloudIot.Lib.Bytes
import QcloudIot.Lib.KeyedList

/-!
# The gateway

`Gateway` (`GatewayContext` here) with its session list and the requests it waits for (`gateway_common.h`), the functions
on the session list and `gateway_publish_sync` (`gateway_common.c`), and
`IOT_Gateway_Subdev_Online` and `IOT_Gateway_Subdev_Offline` (`gateway_api.c`).

A string is the list of its characters before the NUL. What comes of a publish is an argument.

* `strncmpEq_iff`: the comparisons of names are tests for a prefix.
-/

namespace QcloudIot.Gateway

open Lib

/-- The characters of a string. -/
abbrev Bytes := List UInt8

/-! ## Constants -/

/-- `QCLOUD_RET_SUCCESS`. -/
def qcloudRetSuccess : Int := 0

/-- `QCLOUD_ERR_FAILURE`. -/
def qcloudErrFailure : Int := -1001

/-- `QCLOUD_ERR_INVAL`. -/
def qcloudErrInval : Int := -1002

/-- `QCLOUD_ERR_GATEWAY_CREATE_SESSION_FAIL`. -/
def qcloudErrGatewayCreateSessionFail : Int := -221

/-- `QCLOUD_ERR_GATEWAY_SESSION_NO_EXIST`. -/
def qcloudErrGatewaySessionNoExist : Int := -222

/-- `QCLOUD_ERR_GATEWAY_SESSION_TIMEOUT`. -/
def qcloudErrGatewaySessionTimeout : Int := -223

/-- `QCLOUD_ERR_GATEWAY_SUBDEV_ONLINE`. -/
def qcloudErrGatewaySubdevOnline : Int := -224

/-- `QCLOUD_ERR_GATEWAY_SUBDEV_OFFLINE`. -/
def qcloudErrGatewaySubdevOffline : Int := -225

/-- `MAX_SIZE_OF_PRODUCT_ID`. -/
def maxSizeOfProductId : Nat := 10

/-- `MAX_SIZE_OF_DEVICE_NAME`. -/
def maxSizeOfDeviceName : Nat := 48

/-- `MAX_SIZE_OF_CLIENT_ID`. -/
def maxSizeOfClientId : Nat := 80

/-- `MAX_SIZE_OF_CLOUD_TOPIC`. -/
def maxSizeOfCloudTopic : Nat := maxSizeOfDeviceName + maxSizeOfProductId + 64 + 6

/-- `GATEWAY_PAYLOAD_BUFFER_LEN`. -/
def gatewayPayloadBufferLen : Nat := 1024

/-! ## Strings -/

/-- `strncmp(s, t, n) == 0`. -/
def strncmpEq : (s t : Bytes) → (n : Nat) → Bool
  | _, _, 0 => true
  | [], [], _ + 1 => true
  | a :: s, b :: t, n + 1 => a == b && strncmpEq s t n
  | [], _ :: _, _ + 1 => false
  | _ :: _, [], _ + 1 => false

/-- Up to the end of its second argument it is a test for a prefix. -/
theorem strncmpEq_iff : ∀ {s t : Bytes}, strncmpEq s t t.length = true ↔ t <+: s
  | s, [] => by simp [strncmpEq]
  | [], b :: t => by simp [strncmpEq]
  | a :: s, b :: t => by
    rw [List.length_cons, strncmpEq, Bool.and_eq_true, strncmpEq_iff, List.cons_prefix_cons,
      beq_iff_eq, eq_comm]

theorem strncmpEq_comm : ∀ (s t : Bytes) (n : Nat), strncmpEq s t n = strncmpEq t s n
  | _, _, 0 => by rw [strncmpEq, strncmpEq]
  | [], [], _ + 1 => rfl
  | a :: s, b :: t, n + 1 => by
    rw [strncmpEq, strncmpEq, strncmpEq_comm s t n, Bool.beq_comm]
  | [], _ :: _, _ + 1 => rfl
  | _ :: _, [], _ + 1 => rfl

/-- `GATEWAY_CLIENT_ID_FMT`. -/
def clientIdText (productId deviceName : Bytes) : Bytes := productId ++ chars "/" ++ deviceName

/-! ## The structure -/

/-- `SubdevSessionStatus`. -/
inductive SubdevSessionStatus where
  | init | online | offline
  deriving DecidableEq, Repr

/-- `SubdevSession`, without the pointer to the next one. -/
structure SubdevSession where
  productId : Bytes
  deviceName : Bytes
  sessionStatus : SubdevSessionStatus
  deriving DecidableEq, Repr

/-- The pair the session is for. -/
def SubdevSession.pair (s : SubdevSession) : Bytes × Bytes := (s.productId, s.deviceName)

/-- `ReplyData`. -/
structure ReplyData where
  result : Int := 0
  clientId : Bytes := []
  deriving DecidableEq, Repr

/-- `Gateway`, the gateway context: `session_list` from its head, and the parts of `gateway_data`
that operations on subdevices wait on. -/
structure GatewayContext where
  sessionList : List SubdevSession := []
  online : ReplyData := {}
  offline : ReplyData := {}
  bind : ReplyData := {}
  unbind : ReplyData := {}
  deriving DecidableEq, Repr

/-- `GatewayParam`. The names of the subdevice fit their fields. -/
structure GatewayParam where
  productId : Bytes
  deviceName : Bytes
  subdevProductId : Bytes
  subdevDeviceName : Bytes
  productId_le : subdevProductId.length ≤ maxSizeOfProductId
  deviceName_le : subdevDeviceName.length ≤ maxSizeOfDeviceName

/-- The pair a call is for. -/
def GatewayParam.pair (p : GatewayParam) : Bytes × Bytes := (p.subdevProductId, p.subdevDeviceName)

/-! ## The session list -/

/-- The test of the loops over the list. -/
def SubdevSession.isFor (productId deviceName : Bytes) (s : SubdevSession) : Bool :=
  strncmpEq s.productId productId productId.length &&
    strncmpEq s.deviceName deviceName deviceName.length

theorem isFor_iff {productId deviceName : Bytes} {s : SubdevSession} :
    s.isFor productId deviceName = true ↔ productId <+: s.productId ∧ deviceName <+: s.deviceName := by
  unfold SubdevSession.isFor
  rw [Bool.and_eq_true, strncmpEq_iff, strncmpEq_iff]

/-- `subdev_find_session`. -/
def subdevFindSession (sessions : List SubdevSession) (productId deviceName : Bytes) :
    Option SubdevSession :=
  if productId = [] ∨ deviceName = [] then none
  else sessions.find? (·.isFor productId deviceName)

/-- `subdev_add_session`, where `HAL_Malloc` succeeds or not. -/
def subdevAddSession (mallocOk : Bool) (sessions : List SubdevSession)
    (productId deviceName : Bytes) : Option (List SubdevSession) :=
  if productId = [] ∨ deviceName = [] then none
  else if mallocOk then some (⟨productId, deviceName, .init⟩ :: sessions)
  else none

/-- `subdev_remove_session`. -/
def subdevRemoveSession (sessions : List SubdevSession) (productId deviceName : Bytes) :
    Int × List SubdevSession :=
  if productId = [] ∨ deviceName = [] then (qcloudErrFailure, sessions)
  else if sessions = [] then (qcloudRetSuccess, sessions)
  else if sessions.any (·.isFor productId deviceName) then
    (qcloudRetSuccess, sessions.eraseP (·.isFor productId deviceName))
  else (qcloudErrFailure, sessions)

/-- `session->session_status = status` on the session that was found. -/
def setSessionStatus (status : SubdevSessionStatus) (sessions : List SubdevSession)
    (productId deviceName : Bytes) : List SubdevSession :=
  modifyFirst (·.isFor productId deviceName) (fun s => { s with sessionStatus := status }) sessions

/-! ## Requests -/

/-- What comes of a request: it is not published, no reply comes in time, or a reply does. -/
inductive PublishOutcome where
  | failed
  | timeout
  | reply (result : Int)
  deriving DecidableEq, Repr

/-- `gateway_publish_sync`: its code and `*result`. -/
def gatewayPublishSync (res : Int) : PublishOutcome → Int × Int
  | .failed => (qcloudErrFailure, res)
  | .timeout => (qcloudErrGatewaySessionTimeout, res)
  | .reply result =>
    -- the wait is for a change of the result
    if result = res then (qcloudErrGatewaySessionTimeout, result)
    else if result ≠ 0 then (qcloudErrFailure, result)
    else (qcloudRetSuccess, result)

/-- `GATEWAY_TOPIC_OPERATION_FMT`. -/
def operationTopic (param : GatewayParam) : Bytes :=
  chars "$gateway/operation/" ++ param.productId ++ chars "/" ++ param.deviceName

/-- `GATEWAY_PAYLOAD_STATUS_FMT`. -/
def statusPayload (type : Bytes) (param : GatewayParam) : Bytes :=
  chars "\x7b\"type\":\"" ++ type ++ chars "\",\"payload\":\x7b\"devices\":[\x7b\"product_id\":\"" ++
    param.subdevProductId ++ chars "\",\"device_name\":\"" ++ param.subdevDeviceName ++
    chars "\"\x7d]\x7d\x7d"

/-- What a call meets: whether `HAL_Malloc` succeeds, and what comes of the request. -/
structure CallEnv where
  mallocOk : Bool
  outcome : PublishOutcome
  deriving DecidableEq, Repr

/-- The strings a call checks with `STRING_PTR_SANITY_CHECK`. -/
def GatewayParam.anyEmpty (p : GatewayParam) : Prop :=
  p.productId = [] ∨ p.deviceName = [] ∨ p.subdevProductId = [] ∨ p.subdevDeviceName = []

instance (p : GatewayParam) : Decidable p.anyEmpty :=
  inferInstanceAs (Decidable (_ ∨ _ ∨ _ ∨ _))

/-- `IOT_Gateway_Subdev_Online` once it has a session. -/
def onlineRequest (g : GatewayContext) (param : GatewayParam) (outcome : PublishOutcome) :
    Int × GatewayContext :=
  let clientId := clientIdText param.subdevProductId param.subdevDeviceName
  if (operationTopic param).length > maxSizeOfCloudTopic then (qcloudErrFailure, g)
  else if (statusPayload (chars "online") param).length > gatewayPayloadBufferLen then
    (qcloudErrFailure, g)
  else
    let g := { g with online := { g.online with clientId := clientId.take (maxSizeOfClientId - 1) } }
    if clientId.length > maxSizeOfClientId then (qcloudErrFailure, g)
    else
      let (rc, result) := gatewayPublishSync (-1001) outcome
      let g := { g with online := { g.online with result := result } }
      if rc ≠ qcloudRetSuccess then
        let removed :=
          subdevRemoveSession g.sessionList param.subdevProductId param.subdevDeviceName
        (result, { g with sessionList := removed.2 })
      else
        let sessions :=
          setSessionStatus .online g.sessionList param.subdevProductId param.subdevDeviceName
        (qcloudRetSuccess, { g with sessionList := sessions })

/-- `IOT_Gateway_Subdev_Online`. -/
def iotGatewaySubdevOnline (g : GatewayContext) (param : GatewayParam) (env : CallEnv) :
    Int × GatewayContext :=
  if param.anyEmpty then (qcloudErrInval, g)
  else
    match subdevFindSession g.sessionList param.subdevProductId param.subdevDeviceName with
    | none =>
      match subdevAddSession env.mallocOk g.sessionList param.subdevProductId
        param.subdevDeviceName with
      | none => (qcloudErrGatewayCreateSessionFail, g)
      | some sessions => onlineRequest { g with sessionList := sessions } param env.outcome
    | some session =>
      if session.sessionStatus = .online then (qcloudErrGatewaySubdevOnline, g)
      else onlineRequest g param env.outcome

/-- `IOT_Gateway_Subdev_Offline` once it has found a session. -/
def offlineRequest (g : GatewayContext) (param : GatewayParam) (outcome : PublishOutcome) :
    Int × GatewayContext :=
  let clientId := clientIdText param.subdevProductId param.subdevDeviceName
  if (operationTopic param).length > maxSizeOfCloudTopic then (qcloudErrFailure, g)
  else if (statusPayload (chars "offline") param).length > gatewayPayloadBufferLen then
    (qcloudErrFailure, g)
  else
    let g := { g with
      offline := { g.offline with clientId := clientId.take (maxSizeOfClientId - 1) } }
    if clientId.length > maxSizeOfClientId then (qcloudErrFailure, g)
    else
      let (rc, result) := gatewayPublishSync (-1001) outcome
      let g := { g with offline := { g.offline with result := result } }
      if rc ≠ qcloudRetSuccess then (result, g)
      else
        let sessions :=
          setSessionStatus .offline g.sessionList param.subdevProductId param.subdevDeviceName
        let removed := subdevRemoveSession sessions param.subdevProductId param.subdevDeviceName
        (qcloudRetSuccess, { g with sessionList := removed.2 })

/-- `IOT_Gateway_Subdev_Offline`. -/
def iotGatewaySubdevOffline (g : GatewayContext) (param : GatewayParam) (outcome : PublishOutcome) :
    Int × GatewayContext :=
  if param.anyEmpty then (qcloudErrInval, g)
  else
    match subdevFindSession g.sessionList param.subdevProductId param.subdevDeviceName with
    | none => (qcloudErrGatewaySessionNoExist, g)
    | some session =>
      if session.sessionStatus = .offline then
        let removed :=
          subdevRemoveSession g.sessionList param.subdevProductId param.subdevDeviceName
        (qcloudErrGatewaySubdevOffline, { g with sessionList := removed.2 })
      else offlineRequest g param outcome

end QcloudIot.Gateway
