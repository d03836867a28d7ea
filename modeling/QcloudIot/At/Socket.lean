import Mathlib.Data.List.FinRange
import Mathlib.Logic.Function.Basic

/-!
# AT sockets

The table of sockets of `at_socket_inf.c`, `at_socket_connect`, `at_socket_close` and
`at_socket_recv`, and the callbacks of the device driver (`DeviceEvent`). The driver's functions
wait for the device, and in that time other events come in: those are an argument (`during`).

The driver numbers its links from 0. A pointer that is `NULL` where it is used ends the program,
which is then `none`.
-/

namespace QcloudIot.At

/-- Bytes received. -/
abbrev Bytes := List UInt8

/-! ## Constants -/

/-- `QCLOUD_RET_SUCCESS`. -/
def qcloudRetSuccess : Int := 0

/-- `QCLOUD_ERR_FAILURE`. -/
def qcloudErrFailure : Int := -1001

/-- `QCLOUD_ERR_INVAL`. -/
def qcloudErrInval : Int := -1002

/-- `QCLOUD_ERR_TCP_PEER_SHUTDOWN`. -/
def qcloudErrTcpPeerShutdown : Int := -608

/-- `QCLOUD_ERR_TCP_READ_FAIL`. -/
def qcloudErrTcpReadFail : Int := -606

/-- `UNUSED_SOCKET`. -/
def unusedSocket : Int := -1

/-- `MAX_AT_SOCKET_NUM`. -/
def maxAtSocketNum : Nat := 5

/-- `AT_SOCKET_SEND_TIMEOUT_MS`. -/
def atSocketSendTimeoutMs : Nat := 1000

/-- `AT_SOCKET_RECV_TIMEOUT_MS`. -/
def atSocketRecvTimeoutMs : Nat := 1000

/-- `MAX_RECV_PKT_PER_CHAIN`. -/
def maxRecvPktPerChain : Nat := 10

/-! ## The structures -/

/-- `eNetProto`. -/
inductive ENetProto where
  | tcp | udp | netDefault
  deriving DecidableEq, Repr

/-- `eSocketState`. -/
inductive ESocketState where
  | alloced | connected | closed
  deriving DecidableEq, Repr

/-- `at_recv_pkt`; `bfsz_totle` is the length of `buff`. -/
structure AtRecvPkt where
  bfszIndex : Nat
  buff : Bytes
  deriving DecidableEq, Repr

/-- `at_device_op_t`: which of the functions that are called here are not `NULL`. -/
structure AtDeviceOp where
  connect : Bool
  recvTimeout : Bool
  close : Bool
  deriving DecidableEq, Repr

/-- `at_socket_ctx_t`. `recvLock` says whether there is a lock. -/
structure AtSocketCtx where
  fd : Int := unusedSocket
  recvpktList : Option (List AtRecvPkt) := none
  sendTimeoutMs : Nat := 0
  recvTimeoutMs : Nat := 0
  recvLock : Bool := false
  devOp : Option AtDeviceOp := none
  netType : ENetProto := .netDefault
  state : ESocketState := .closed
  deriving DecidableEq, Repr

/-- `at_socket_ctxs` and `sg_at_device_ops`. The table starts as `at_socket_init` leaves it. -/
structure AtSockets where
  ctxs : Fin maxAtSocketNum → AtSocketCtx := fun _ => {}
  deviceOps : Option AtDeviceOp := none

/-- One entry replaced. -/
def AtSockets.set (s : AtSockets) (i : Fin maxAtSocketNum) (ctx : AtSocketCtx) : AtSockets :=
  { s with ctxs := Function.update s.ctxs i ctx }

/-! ## The table -/

/-- `_at_socket_ctx_free`. -/
def atSocketCtxFree (ctx : AtSocketCtx) : AtSocketCtx :=
  { ctx with fd := unusedSocket, netType := .netDefault, recvpktList := none, recvLock := false }

/-- What `HAL_MutexCreate` and `list_new` come to. -/
structure AllocEnv where
  mutexOk : Bool := true
  listOk : Bool := true
  deriving DecidableEq, Repr

/-- The first entry of the loops over the table. -/
def AtSockets.find (s : AtSockets) (p : AtSocketCtx → Bool) : Option (Fin maxAtSocketNum) :=
  (List.finRange maxAtSocketNum).find? fun i => p (s.ctxs i)

/-- `_at_socket_ctx_alloc`. -/
def atSocketCtxAlloc (s : AtSockets) (env : AllocEnv) : Option (Fin maxAtSocketNum) × AtSockets :=
  match s.find fun ctx => ctx.state = .closed with
  | none => (none, s)
  | some i =>
    let ctx := { s.ctxs i with
      netType := .netDefault
      sendTimeoutMs := atSocketSendTimeoutMs
      recvTimeoutMs := atSocketRecvTimeoutMs
      devOp := s.deviceOps
      recvLock := env.mutexOk }
    if ¬ env.mutexOk then (none, s.set i (atSocketCtxFree ctx))
    else if ¬ env.listOk then
      (none, s.set i (atSocketCtxFree { ctx with recvpktList := none }))
    else (some i, s.set i { ctx with recvpktList := some [], state := .alloced })

/-- `_at_socket_find`. -/
def atSocketFind (s : AtSockets) (fd : Int) : Option (Fin maxAtSocketNum) :=
  s.find fun ctx => ctx.fd = fd

/-! ## Received data -/

/-- `_at_recvpkt_put`: what it returns, and the list. -/
def atRecvpktPut (rlist : List AtRecvPkt) (buff : Bytes) (pktOk nodeOk : Bool) :
    Int × List AtRecvPkt :=
  if rlist.length > maxRecvPktPerChain then (qcloudErrFailure, rlist)
  else if ¬ pktOk then (qcloudErrFailure, rlist)
  else if ¬ nodeOk then (qcloudErrFailure, rlist)
  else (buff.length, rlist ++ [⟨0, buff⟩])

/-- The loop of `_at_recvpkt_get`: the bytes read, of `want` at most, and the list. -/
def atRecvpktLoop : (pktList : List AtRecvPkt) → (want : Nat) → Bytes × List AtRecvPkt
  | [], _ => ([], [])
  | pkt :: rest, want =>
    let page := pkt.buff.drop pkt.bfszIndex
    if page.length ≥ want then
      (page.take want, { pkt with bfszIndex := pkt.bfszIndex + want } :: rest)
    else
      let (bytes, rest) := atRecvpktLoop rest (want - page.length)
      (page ++ bytes, rest)

/-- `_at_recvpkt_get` into a buffer: what it returns, the bytes and the list. -/
def atRecvpktGet (pktList : List AtRecvPkt) (len : Nat) (iterOk : Bool) :
    Int × Bytes × List AtRecvPkt :=
  if pktList.length = 0 then (0, [], pktList)
  else if ¬ iterOk then (qcloudErrTcpReadFail, [], pktList)
  else
    let (bytes, rest) := atRecvpktLoop pktList len
    (bytes.length, bytes, rest)

/-! ## The callbacks -/

/-- `_at_socket_recv_cb` with `AT_SOCKET_EVT_RECV`. -/
def atSocketRecvCb (s : AtSockets) (fd : Nat) (buff : Option Bytes) (pktOk nodeOk : Bool) :
    Option AtSockets :=
  match buff with
  | none => some s
  | some buff =>
    match atSocketFind s (fd + maxAtSocketNum) with
    | none => none
    | some i =>
      match (s.ctxs i).recvpktList with
      | none => none
      | some rlist =>
        some (s.set i { s.ctxs i with recvpktList := some (atRecvpktPut rlist buff pktOk nodeOk).2 })

/-- `_at_socket_closed_cb` with `AT_SOCKET_EVT_CLOSED`. -/
def atSocketClosedCb (s : AtSockets) (fd : Nat) : AtSockets :=
  match atSocketFind s (fd + maxAtSocketNum) with
  | none => s
  | some i => s.set i (atSocketCtxFree { s.ctxs i with state := .closed })

/-- What the driver reports of one of its links. -/
inductive DeviceEvent where
  | recv (fd : Nat) (buff : Option Bytes) (pktOk nodeOk : Bool)
  | closed (fd : Nat)
  deriving DecidableEq, Repr

def AtSockets.event (s : AtSockets) : DeviceEvent → Option AtSockets
  | .recv fd buff pktOk nodeOk => atSocketRecvCb s fd buff pktOk nodeOk
  | .closed fd => some (atSocketClosedCb s fd)

/-- The events that come in while a function of the driver runs. -/
def AtSockets.events (s : AtSockets) : List DeviceEvent → Option AtSockets
  | [] => some s
  | e :: es => (s.event e).bind fun s => s.events es

/-! ## The calls -/

/-- `at_socket_connect`; `fd` is what the driver's `connect` returns. -/
def atSocketConnect (s : AtSockets) (env : AllocEnv) (during : List DeviceEvent) (fd : Int) :
    Option (Int × AtSockets) :=
  match atSocketCtxAlloc s env with
  | (none, s) => some (qcloudErrFailure, s)
  | (some i, s) =>
    match (s.ctxs i).devOp with
    | none => some (qcloudErrFailure, s)
    | some op =>
      if ¬ op.connect then some (qcloudErrFailure, s)
      else (s.events during).map fun s =>
        let ctx := if fd < 0 then atSocketCtxFree (s.ctxs i)
          else { s.ctxs i with fd := fd + maxAtSocketNum, state := .connected }
        (ctx.fd, s.set i ctx)

/-- `at_socket_close`; `rc` is what the driver's `close` returns. -/
def atSocketClose (s : AtSockets) (fd : Int) (during : List DeviceEvent) (rc : Int) :
    Option (Int × AtSockets) :=
  match atSocketFind s fd with
  | none => some (qcloudErrTcpPeerShutdown, s)
  | some i =>
    match (s.ctxs i).devOp with
    | none => some (qcloudErrFailure, s)
    | some op =>
      if (s.ctxs i).state = .connected ∧ op.close then (s.events during).map fun s => (rc, s)
      else some (qcloudErrFailure, s)

/-- `at_socket_recv` of `len` bytes: what it returns, the bytes and the table. -/
def atSocketRecv (s : AtSockets) (fd : Int) (len : Nat) (during : List DeviceEvent)
    (iterOk : Bool) : Option (Int × Bytes × AtSockets) :=
  match atSocketFind s fd with
  | none => some (qcloudErrInval, [], s)
  | some i =>
    match (s.ctxs i).devOp with
    | none => some (qcloudErrInval, [], s)
    | some op =>
      if ¬ op.recvTimeout then some (qcloudErrInval, [], s)
      else if (s.ctxs i).state ≠ .connected then some (qcloudErrTcpReadFail, [], s)
      else
        match (s.ctxs i).recvpktList with
        | none => none
        | some pktList =>
          (if pktList.length = 0 then s.events during else some s).bind fun s =>
            match (s.ctxs i).recvpktList with
            | none => none
            | some pktList =>
              let (rc, bytes, rest) := atRecvpktGet pktList len iterOk
              some (rc, bytes, s.set i { s.ctxs i with recvpktList := some rest })

end QcloudIot.At
