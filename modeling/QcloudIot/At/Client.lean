import QcloudIot.At.Socket
import QcloudIot.Lib.Bytes
import QcloudIot.Lib.Packed
import QcloudIot.Lib.Substring

/-!
# The AT client

The parser thread of `at_client.c` on one line (`parseLine`), `at_obj_exec_cmd` cut where it waits
(`execSend`, `execWoken`, `execTimedOut`), and `at_resp_get_line`, in the build with an operating
system. A line is what `at_recv_readline` leaves in `recv_buffer`; what the functions of the URC
table do with theirs is not followed.

* `atRespGetLine_pack`: a line of a buffer of lines packed behind one another.
-/

namespace QcloudIot.At

open Lib

/-! ## The structures -/

/-- `enum at_resp_status`. -/
inductive AtRespStatus where
  | respOk | respError | respTimeout | respBuffFull
  deriving DecidableEq, Repr

/-- `at_response`; `buf_size` is the length of `buf`. -/
structure AtResponse where
  buf : Bytes
  lineNum : Nat
  lineCounts : Nat := 0
  deriving DecidableEq, Repr

def AtResponse.bufSize (r : AtResponse) : Nat := r.buf.length

/-- `at_urc`, without its function. -/
structure AtUrc where
  cmdPrefix : Bytes
  cmdSuffix : Bytes
  deriving DecidableEq, Repr

/-- `at_client`: `resp` is the address of a response object, `respSem` the count of the
semaphore. -/
structure AtClient where
  endSign : UInt8 := 0
  resp : Option Nat := none
  respStatus : AtRespStatus := .respOk
  urcTable : List AtUrc := []
  respSem : Nat := 0
  deriving DecidableEq, Repr

/-- The locals of `client_parser` that live from line to line. -/
structure Parser where
  respBufLen : Nat := 0
  lineCounts : Nat := 0
  deriving DecidableEq, Repr

/-- The client, its parser, and the response objects by address. -/
structure AtSystem where
  client : AtClient := {}
  parser : Parser := {}
  resps : Nat → AtResponse

/-! ## The response object -/

/-- The loop of `at_resp_get_line`, with `left` of the lines left. A pointer is the bytes from it
on. -/
def atRespGetLineLoop (respLine : Nat) : (left lineNum : Nat) → (respBuf : Bytes) → Option Bytes
  | 0, _, _ => none
  | left + 1, lineNum, respBuf =>
    if respLine = lineNum then some respBuf
    else atRespGetLineLoop respLine left (lineNum + 1) (respBuf.drop ((upTo 0 respBuf).length + 1))

/-- `at_resp_get_line`. -/
def atRespGetLine (resp : AtResponse) (respLine : Nat) : Option Bytes :=
  if respLine > resp.lineCounts ∨ respLine = 0 then none
  else atRespGetLineLoop respLine resp.lineCounts 1 resp.buf

/-- `memcpy` into a buffer. -/
def writeAt (buf : Bytes) (p : Nat) (bytes : Bytes) : Bytes :=
  buf.take p ++ bytes ++ buf.drop (p + bytes.length)

/-! ## The parser -/

/-- `get_urc_obj`. -/
def getUrcObj (c : AtClient) (line : Bytes) : Option AtUrc :=
  c.urcTable.find? fun urc =>
    decide (urc.cmdPrefix.length + urc.cmdSuffix.length ≤ line.length) &&
      (urc.cmdPrefix.isPrefixOf line && urc.cmdSuffix.isSuffixOf line)

/-- A line with its last character replaced by a NUL. -/
def nulled (line : Bytes) : Bytes := line.dropLast ++ [0]

/-- `AT_RESP_END_OK` stands in front. -/
def isEndOk (line : Bytes) : Bool := (chars "OK").isPrefixOf (nulled line)

/-- `AT_RESP_END_ERROR` is in the line, or `AT_RESP_END_FAIL` in front. -/
def isEndError (line : Bytes) : Bool :=
  (find (chars "ERROR") (upTo 0 (nulled line))).isSome || (chars "FAIL").isPrefixOf (nulled line)

/-- A response object replaced. -/
def AtSystem.setResp (s : AtSystem) (r : Nat) (resp : AtResponse) : AtSystem :=
  { s with resps := Function.update s.resps r resp }

/-- The line copied behind the others, if there is room. -/
def AtSystem.storeLine (s : AtSystem) (r : Nat) (line : Bytes) : AtSystem :=
  if s.parser.respBufLen + line.length < (s.resps r).bufSize then
    { s.setResp r { s.resps r with buf := writeAt (s.resps r).buf s.parser.respBufLen line } with
      parser := ⟨s.parser.respBufLen + line.length, s.parser.lineCounts + 1⟩ }
  else { s with client.respStatus := .respBuffFull }

/-- The label `exit` of `client_parser`. -/
def AtSystem.finish (s : AtSystem) (r : Nat) : AtSystem :=
  { s.setResp r { s.resps r with lineCounts := s.parser.lineCounts } with
    parser := {}
    client := { s.client with resp := none, respSem := s.client.respSem + 1 } }

/-- What `client_parser` does with a line. -/
def parseLine (s : AtSystem) (line : Bytes) : AtSystem :=
  if line = [] then s
  else if (getUrcObj s.client line).isSome then s
  else match s.client.resp with
    | none => s
    | some r =>
      if s.client.endSign ≠ 0 then
        if line.getLastD 0 ≠ s.client.endSign then s else s.finish r
      else
        let s := s.storeLine r (nulled line)
        if isEndOk line ∧ (s.resps r).lineNum = 0 then
          { s with client.respStatus := .respOk }.finish r
        else if isEndError line then { s with client.respStatus := .respError }.finish r
        else if s.parser.lineCounts = (s.resps r).lineNum ∧ (s.resps r).lineNum ≠ 0 then
          { s with client.respStatus := .respOk }.finish r
        else s

/-! ## Commands -/

/-- `at_obj_exec_cmd` up to the wait. -/
def execSend (s : AtSystem) (r : Nat) : AtSystem :=
  { s.setResp r { s.resps r with lineCounts := 0 } with
    client := { s.client with respStatus := .respOk, resp := some r } }

/-- `at_obj_exec_cmd` from where the semaphore has been taken. -/
def execWoken (s : AtSystem) : Int × AtSystem :=
  (if s.client.respStatus ≠ .respOk then qcloudErrFailure else qcloudRetSuccess,
    { s with client := { s.client with resp := none, respSem := s.client.respSem - 1 } })

/-- `at_obj_exec_cmd` from where the wait has failed. -/
def execTimedOut (s : AtSystem) : Int × AtSystem :=
  (qcloudErrFailure, { s with client.resp := none })

/-! ## Reading a response -/

variable {respLine left lineNum : Nat} {buf : Bytes}

theorem atRespGetLineLoop_eq : ∀ {left lineNum : Nat} {buf : Bytes}, lineNum ≤ respLine →
    respLine < lineNum + left →
    atRespGetLineLoop respLine left lineNum buf = some (skip 0 (respLine - lineNum) buf) := by
  intro left
  induction left with
  | zero => intro lineNum buf hle hlt; exact absurd hlt (by omega)
  | succ left ih =>
    intro lineNum buf hle hlt
    rw [atRespGetLineLoop]
    by_cases heq : respLine = lineNum
    · rw [if_pos heq, heq, Nat.sub_self, skip]
    · obtain ⟨k, hk⟩ : ∃ k, respLine - lineNum = k + 1 := ⟨respLine - lineNum - 1, by omega⟩
      rw [if_neg heq, ih (by omega) (by omega), hk, skip]
      congr 2
      omega

/-- **A line of the response**, by its number from 1 on. -/
theorem atRespGetLine_pack {resp : AtResponse} {lines : List Bytes} {rest : Bytes}
    (hbuf : resp.buf = pack 0 lines ++ rest) (hcount : resp.lineCounts = lines.length)
    (hnul : ∀ l ∈ lines, 0 ∉ l) {k : Nat} (hk : k < lines.length) :
    (atRespGetLine resp (k + 1)).map (upTo 0) = some lines[k] := by
  unfold atRespGetLine
  rw [if_neg (by omega), atRespGetLineLoop_eq (by omega) (by omega), Nat.add_sub_cancel, hbuf,
    Option.map_some, upTo_skip_pack hnul hk]

end QcloudIot.At
