import QcloudIot.At.Client
import QcloudIot.Lib.Run

/-!
# Sending through the ESP8266

`esp8266_send` of `at_device_esp8266.c` with `at_exec_cmd`, `at_setFlag`, `at_clearFlag` and
`at_waitFlag` of `at_client.c`, in the build with an operating system. Data go out in chunks; for each
the prompt is awaited, the data are written, and the flags that `SEND OK` and `SEND FAIL` set are
polled.

* The lines that the parser thread reads while the call waits come in as `ChunkEnv`, cut where the
  call looks; so does what the UART takes. A wait on the semaphore fails if it has not been posted.
* `ChunkRun` records each chunk that was begun and how it ended; it is no variable of the source.

## Results

* `atWaitFlag_both`: the wait for both flags succeeds iff both have been set;
* `sendChunk_end`: how a chunk ends, by what came in;
* **`esp8266Send_iff`**: the end sign is cleared and the returned size is that of the confirmed chunks
  exactly when the first command gets its prompt and each chunk that was written its `SEND OK`.
-/

namespace QcloudIot.At

open Lib

/-! ## Flags -/

/-- `SEND_OK_FLAG`. -/
def sendOkFlag : BitVec 32 := 1 <<< 1

/-- `SEND_FAIL_FLAG`. -/
def sendFailFlag : BitVec 32 := 1 <<< 2

/-- `at_setFlag`. -/
def atSetFlag (flags flag : BitVec 32) : BitVec 32 := flags ||| (flag &&& 0xffffffff)

/-- `at_clearFlag`. -/
def atClearFlag (flags flag : BitVec 32) : BitVec 32 := flags &&& (~~~flag &&& 0xffffffff)

/-- The driver: the AT client with its parser, and `sg_flags`. -/
structure Esp8266 where
  sys : AtSystem
  flags : BitVec 32 := 0

/-! ## The parser thread -/

/-- The entries of `urc_table` with the function `urc_send_func`. -/
def sendUrcs : List AtUrc :=
  [⟨chars "SEND OK", chars "\r\n"⟩, ⟨chars "SEND FAIL", chars "\r\n"⟩]

/-- `strstr`. -/
def strstr (word data : Bytes) : Bool := (find word (upTo 0 data)).isSome

/-- `urc_send_func`. -/
def urcSendFunc (flags : BitVec 32) (data : Bytes) : BitVec 32 :=
  if strstr (chars "SEND OK") data then atSetFlag flags sendOkFlag
  else if strstr (chars "SEND FAIL") data then atSetFlag flags sendFailFlag
  else flags

/-- The line goes to `urc_send_func`. -/
def isSendUrc (c : AtClient) (line : Bytes) : Bool :=
  line ≠ [] && match getUrcObj c line with
    | some urc => decide (urc ∈ sendUrcs)
    | none => false

namespace Esp8266

/-- What `client_parser` does with a line, and the function of its URC. -/
def handleLine (s : Esp8266) (line : Bytes) : Esp8266 where
  sys := parseLine s.sys line
  flags := if isSendUrc s.sys.client line then urcSendFunc s.flags line else s.flags

/-- One line after the other. -/
def handleLines (s : Esp8266) (lines : List Bytes) : Esp8266 := run handleLine s lines

/-- `at_set_end_sign`. -/
def atSetEndSign (s : Esp8266) (ch : UInt8) : Esp8266 :=
  { s with sys.client.endSign := ch }

/-- `at_exec_cmd`: `lines` come in while it waits, `late` ones after the wait has failed. -/
def atExecCmd (s : Esp8266) (r : Nat) (lines late : List Bytes) : Int × Esp8266 :=
  let s := { s with sys := execSend s.sys r }.handleLines lines
  if 0 < s.sys.client.respSem then ((execWoken s.sys).1, { s with sys := (execWoken s.sys).2 })
  else
    let s := s.handleLines late
    ((execTimedOut s.sys).1, { s with sys := (execTimedOut s.sys).2 })

/-- `at_waitFlag`; each list holds the lines that come in before one more look at the flags. -/
def atWaitFlag (flag : BitVec 32) : (looks : List (List Bytes)) → Esp8266 → Bool × Esp8266
  | [], s => (false, s)
  | lines :: looks, s =>
    let s := s.handleLines lines
    if flag = s.flags &&& flag then (true, s) else atWaitFlag flag looks s

end Esp8266

/-! ## A chunk -/

/-- What a chunk meets: the lines during the command, what the UART takes, and the lines before each
look at the flags, of which there is one at least. -/
structure ChunkEnv where
  cmdLines : List Bytes := []
  lateLines : List Bytes := []
  uartSent : Nat := 0
  firstLook : List Bytes := []
  looks : List (List Bytes) := []
  failLook : List Bytes := []
  failLooks : List (List Bytes) := []

/-- How a chunk ends. -/
inductive ChunkEnd where
  /-- The command has failed: an error, or no prompt in time. -/
  | cmdError
  /-- The data are not written. -/
  | dataError
  | sendFail
  /-- Its size is added to what is sent. -/
  | counted
  deriving DecidableEq, Repr

/-- Both flags cleared, as a chunk begins. -/
def cleared (s : Esp8266) : Esp8266 :=
  { s with flags := atClearFlag (atClearFlag s.flags sendOkFlag) sendFailFlag }

/-- The body of the loop of `esp8266_send`. -/
def sendChunk (s : Esp8266) (r size : Nat) (e : ChunkEnv) : ChunkEnd × Esp8266 :=
  let cmd := (cleared s).atExecCmd r e.cmdLines e.lateLines
  if cmd.1 ≠ qcloudRetSuccess then (.cmdError, cmd.2)
  else
    let s := cmd.2.atSetEndSign 0
    if size ≠ e.uartSent then (.dataError, s)
    else
      let both := Esp8266.atWaitFlag (sendOkFlag ||| sendFailFlag) (e.firstLook :: e.looks) s
      if both.1 then
        let failed := Esp8266.atWaitFlag sendFailFlag (e.failLook :: e.failLooks) both.2
        if failed.1 then (.sendFail, failed.2) else (.counted, failed.2)
      else (.counted, both.2)

/-! ## The call -/

/-- `ESP8266_SEND_MAX_LEN_ONCE`. -/
def esp8266SendMaxLenOnce : Nat := 2048

/-- `cur_pkt_size`. -/
def curPktSize (len sent : Nat) : Nat :=
  if len - sent < esp8266SendMaxLenOnce then len - sent else esp8266SendMaxLenOnce

theorem curPktSize_pos {len sent : Nat} (h : sent < len) :
    0 < curPktSize len sent ∧ curPktSize len sent ≤ len - sent := by
  have hmax : 0 < esp8266SendMaxLenOnce := by decide
  unfold curPktSize
  split <;> omega

/-- A chunk that was begun. -/
structure ChunkRun where
  size : Nat
  env : ChunkEnv
  ended : ChunkEnd

/-- What the loop leaves: the driver, `sent_size`, and the chunks that were begun. -/
structure SendRun where
  driver : Esp8266
  sentSize : Nat
  chunks : List ChunkRun

/-- The loop of `esp8266_send`; the `k`-th chunk meets `env k`. -/
def sendLoop (r len : Nat) (env : Nat → ChunkEnv) (k sent : Nat) (s : Esp8266) : SendRun :=
  if _h : sent < len then
    let size := curPktSize len sent
    let chunk := sendChunk s r size (env k)
    if chunk.1 = .counted then
      let rest := sendLoop r len env (k + 1) (sent + size) chunk.2
      { rest with chunks := ⟨size, env k, chunk.1⟩ :: rest.chunks }
    else ⟨chunk.2, sent, [⟨size, env k, chunk.1⟩]⟩
  else ⟨s, sent, []⟩
termination_by len - sent
decreasing_by
  have := curPktSize_pos _h
  omega

/-- A size as the `int` that is returned. -/
def toInt (n : Nat) : Int :=
  if n % 2 ^ 32 < 2 ^ 31 then (n % 2 ^ 32 : Nat) else (n % 2 ^ 32 : Nat) - 2 ^ 32

/-- The arguments: whether there is a buffer, where the response object is, if there is memory for
one, and the size of the data. -/
structure SendCall where
  buff : Bool
  resp : Option Nat
  len : Nat
  env : Nat → ChunkEnv

/-- `at_create_resp`. -/
def Esp8266.atCreateResp (s : Esp8266) (r bufSize lineNum : Nat) : Esp8266 :=
  { s with sys := s.sys.setResp r { buf := List.replicate bufSize 0, lineNum := lineNum } }

/-- `esp8266_send`: what it returns, and what it leaves. -/
def esp8266Send (s : Esp8266) (call : SendCall) : Int × SendRun :=
  if call.buff = false then (qcloudErrInval, ⟨s, 0, []⟩)
  else
    match call.resp with
    | none => (qcloudErrFailure, ⟨s, 0, []⟩)
    | some r =>
      -- set AT client end sign to deal with '>' sign
      let run := sendLoop r call.len call.env 0 0 ((s.atCreateResp r 512 2).atSetEndSign 62)
      (toInt run.sentSize, run)

/-! ## What the module says -/

/-- The line sets `SEND_OK_FLAG`, with this table of URCs. -/
def saidOk (table : List AtUrc) (line : Bytes) : Bool :=
  isSendUrc { urcTable := table } line && strstr (chars "SEND OK") line

/-- The line sets `SEND_FAIL_FLAG`. -/
def saidFail (table : List AtUrc) (line : Bytes) : Bool :=
  isSendUrc { urcTable := table } line &&
    (!strstr (chars "SEND OK") line && strstr (chars "SEND FAIL") line)

namespace Esp8266

def endSign (s : Esp8266) : UInt8 := s.sys.client.endSign

def urcTable (s : Esp8266) : List AtUrc := s.sys.client.urcTable

/-- The two flags. -/
def sentOk (s : Esp8266) : Bool := s.flags.getLsbD 1

def sentFail (s : Esp8266) : Bool := s.flags.getLsbD 2

end Esp8266

/-- The flags are those bits. -/
theorem flag_bits (i : Nat) : sendOkFlag.getLsbD i = decide (i = 1) ∧
    sendFailFlag.getLsbD i = decide (i = 2) := by
  by_cases hi : i < 32
  · have hall : ∀ j : Fin 32, sendOkFlag.getLsbD j = decide (j.val = 1) ∧
        sendFailFlag.getLsbD j = decide (j.val = 2) := by decide
    exact hall ⟨i, hi⟩
  · rw [BitVec.getLsbD_of_ge _ _ (by omega), BitVec.getLsbD_of_ge _ _ (by omega),
      decide_eq_false (by omega), decide_eq_false (by omega)]
    exact ⟨rfl, rfl⟩

theorem atSetFlag_bit (flags flag : BitVec 32) (i : Nat) :
    (atSetFlag flags flag).getLsbD i = (flags.getLsbD i || flag.getLsbD i) := by
  have hall : (0xffffffff : BitVec 32) = BitVec.allOnes 32 := rfl
  rw [atSetFlag, hall, BitVec.and_allOnes, BitVec.getLsbD_or]

theorem atClearFlag_bit (flags flag : BitVec 32) (i : Nat) :
    (atClearFlag flags flag).getLsbD i = (flags.getLsbD i && !flag.getLsbD i) := by
  have hall : (0xffffffff : BitVec 32) = BitVec.allOnes 32 := rfl
  rw [atClearFlag, hall, BitVec.and_allOnes, BitVec.getLsbD_and, BitVec.getLsbD_not]
  by_cases hi : i < 32
  · rw [decide_eq_true hi, Bool.true_and]
  · rw [BitVec.getLsbD_of_ge _ _ (by omega), Bool.false_and, Bool.false_and]

/-- A mask is found in the flags iff all its bits are. -/
theorem mask_iff (flags flag : BitVec 32) :
    flag = flags &&& flag ↔ ∀ i, flag.getLsbD i = true → flags.getLsbD i = true := by
  constructor
  · intro h i hi
    rw [h, BitVec.getLsbD_and, Bool.and_eq_true] at hi
    exact hi.1
  · intro h
    refine BitVec.eq_of_getLsbD_eq fun i _ => ?_
    rw [BitVec.getLsbD_and]
    cases hi : flag.getLsbD i with
    | false => rw [Bool.and_false]
    | true => rw [h i hi]; rfl

/-- The mask of both flags. -/
theorem both_iff (s : Esp8266) :
    sendOkFlag ||| sendFailFlag = s.flags &&& (sendOkFlag ||| sendFailFlag) ↔
      s.sentOk = true ∧ s.sentFail = true := by
  rw [mask_iff]
  constructor
  · intro h
    exact ⟨h 1 rfl, h 2 rfl⟩
  · rintro ⟨hok, hfail⟩ i hi
    rw [BitVec.getLsbD_or, (flag_bits i).1, (flag_bits i).2, Bool.or_eq_true, decide_eq_true_iff,
      decide_eq_true_iff] at hi
    rcases hi with rfl | rfl
    · exact hok
    · exact hfail

theorem fail_iff (s : Esp8266) : sendFailFlag = s.flags &&& sendFailFlag ↔ s.sentFail = true := by
  rw [mask_iff]
  constructor
  · exact fun h => h 2 rfl
  · rintro hfail i hi
    rw [(flag_bits i).2, decide_eq_true_iff] at hi
    rw [hi]
    exact hfail

/-! ## Lines -/

/-- The parser changes neither the end sign nor the table. -/
theorem parseLine_keeps (s : AtSystem) (line : Bytes) :
    (parseLine s line).client.endSign = s.client.endSign ∧
      (parseLine s line).client.urcTable = s.client.urcTable := by
  have hstore : ∀ (s : AtSystem) (r : Nat) (l : Bytes),
      (s.storeLine r l).client.endSign = s.client.endSign ∧
        (s.storeLine r l).client.urcTable = s.client.urcTable := by
    intro s r l
    unfold AtSystem.storeLine
    split <;> exact ⟨rfl, rfl⟩
  unfold parseLine
  split
  · exact ⟨rfl, rfl⟩
  split
  · exact ⟨rfl, rfl⟩
  split
  · exact ⟨rfl, rfl⟩
  rename_i r _
  split
  · split <;> exact ⟨rfl, rfl⟩
  · have hstored := hstore s r (nulled line)
    simp only
    split
    · exact hstored
    split
    · exact hstored
    split
    · exact hstored
    · exact hstored

namespace Esp8266

/-- What changes with lines: the flags, by what they say. -/
structure Hears (s s' : Esp8266) (lines : List Bytes) : Prop where
  endSign : s'.endSign = s.endSign
  urcTable : s'.urcTable = s.urcTable
  sentOk : s'.sentOk = (s.sentOk || lines.any (saidOk s.urcTable))
  sentFail : s'.sentFail = (s.sentFail || lines.any (saidFail s.urcTable))

theorem Hears.refl (s : Esp8266) : Hears s s [] := by
  constructor <;> simp

theorem Hears.trans {s s' s'' : Esp8266} {lines lines' : List Bytes} (h : Hears s s' lines)
    (h' : Hears s' s'' lines') : Hears s s'' (lines ++ lines') where
  endSign := h'.endSign.trans h.endSign
  urcTable := h'.urcTable.trans h.urcTable
  sentOk := by rw [h'.sentOk, h.sentOk, h.urcTable, List.any_append, Bool.or_assoc]
  sentFail := by rw [h'.sentFail, h.sentFail, h.urcTable, List.any_append, Bool.or_assoc]

theorem hears_line (s : Esp8266) (line : Bytes) : Hears s (s.handleLine line) [line] := by
  obtain ⟨hend, htable⟩ := parseLine_keeps s.sys line
  have hurc : isSendUrc { urcTable := s.urcTable } line = isSendUrc s.sys.client line := rfl
  refine ⟨hend, htable, ?_, ?_⟩
  · rw [List.any_cons, List.any_nil, Bool.or_false, saidOk, hurc]
    change (if isSendUrc s.sys.client line then _ else _ : BitVec 32).getLsbD 1 = _
    unfold urcSendFunc
    split
    · rename_i h
      rw [h, Bool.true_and]
      split
      · rename_i hok
        rw [atSetFlag_bit, hok]
        rfl
      · rename_i hok
        rw [Bool.eq_false_of_not_eq_true hok, Bool.or_false]
        split
        · rw [atSetFlag_bit, (flag_bits 1).2]
          exact Bool.or_false _
        · rfl
    · rename_i h
      rw [Bool.eq_false_of_not_eq_true h, Bool.false_and, Bool.or_false]
      rfl
  · rw [List.any_cons, List.any_nil, Bool.or_false, saidFail, hurc]
    change (if isSendUrc s.sys.client line then _ else _ : BitVec 32).getLsbD 2 = _
    unfold urcSendFunc
    split
    · rename_i h
      rw [h, Bool.true_and]
      split
      · rename_i hok
        rw [atSetFlag_bit, hok, (flag_bits 2).1, Bool.not_true, Bool.false_and, Bool.or_false]
        exact Bool.or_false _
      · rename_i hok
        rw [Bool.eq_false_of_not_eq_true hok]
        split
        · rename_i hfail
          rw [atSetFlag_bit, hfail]
          rfl
        · rename_i hfail
          rw [Bool.eq_false_of_not_eq_true hfail]
          exact (Bool.or_false _).symm
    · rename_i h
      rw [Bool.eq_false_of_not_eq_true h, Bool.false_and, Bool.or_false]
      rfl

theorem hears_lines (s : Esp8266) (lines : List Bytes) : Hears s (s.handleLines lines) lines := by
  induction lines generalizing s with
  | nil => exact Hears.refl s
  | cons line lines ih => exact (hears_line s line).trans (ih (s.handleLine line))

/-! ## Waits -/

/-- What a command has heard when it returns; with success, all lines of its wait and no others. -/
theorem hears_exec (s : Esp8266) (r : Nat) (lines late : List Bytes) :
    ∃ heard, Hears s (s.atExecCmd r lines late).2 heard ∧
      ((s.atExecCmd r lines late).1 = qcloudRetSuccess → heard = lines) := by
  have hsend : Hears s { s with sys := execSend s.sys r } [] := by
    refine ⟨rfl, rfl, ?_, ?_⟩ <;> rw [List.any_nil, Bool.or_false] <;> rfl
  have hsame : ∀ {s s' : Esp8266} {heard : List Bytes} {sys : AtSystem}, Hears s s' heard →
      sys.client.endSign = s'.sys.client.endSign → sys.client.urcTable = s'.sys.client.urcTable →
      Hears s { s' with sys := sys } heard := fun h hend htable =>
    ⟨hend.trans h.endSign, htable.trans h.urcTable, h.sentOk, h.sentFail⟩
  have hwait := hsend.trans (hears_lines _ lines)
  unfold atExecCmd
  simp only
  split
  · exact ⟨lines, hsame hwait rfl rfl, fun _ => rfl⟩
  · refine ⟨_, hsame (hwait.trans (hears_lines _ late)) rfl rfl, fun h => ?_⟩
    exact absurd h (by decide : qcloudErrFailure ≠ qcloudRetSuccess)

theorem hears_wait (flag : BitVec 32) (looks : List (List Bytes)) :
    ∀ s : Esp8266, ∃ heard, Hears s (atWaitFlag flag looks s).2 heard := by
  induction looks with
  | nil => exact fun s => ⟨[], Hears.refl s⟩
  | cons lines looks ih =>
    intro s
    have hlines := hears_lines s lines
    rw [atWaitFlag]
    split
    · exact ⟨lines, hlines⟩
    · obtain ⟨heard, hheard⟩ := ih (s.handleLines lines)
      exact ⟨lines ++ heard, hlines.trans hheard⟩

/-- Flags once set stay set while lines come in. -/
theorem Hears.mono {s s' : Esp8266} {lines : List Bytes} (h : Hears s s' lines) :
    (s.sentOk = true → s'.sentOk = true) ∧ (s.sentFail = true → s'.sentFail = true) :=
  ⟨fun hok => by rw [h.sentOk, hok]; rfl, fun hfail => by rw [h.sentFail, hfail]; rfl⟩

/-- **The wait for both flags** succeeds iff both have been set by the last look, and then they are. -/
theorem atWaitFlag_both : ∀ (lines : List Bytes) (looks : List (List Bytes)) (s : Esp8266),
    ((atWaitFlag (sendOkFlag ||| sendFailFlag) (lines :: looks) s).1 = true ↔
      (s.sentOk || (lines :: looks).flatten.any (saidOk s.urcTable)) = true ∧
        (s.sentFail || (lines :: looks).flatten.any (saidFail s.urcTable)) = true) ∧
    ((atWaitFlag (sendOkFlag ||| sendFailFlag) (lines :: looks) s).1 = true →
      (atWaitFlag (sendOkFlag ||| sendFailFlag) (lines :: looks) s).2.sentFail = true)
  | lines, [], s => by
    have h := hears_lines s lines
    rw [atWaitFlag, List.flatten_cons, List.flatten_nil, List.append_nil, ← h.sentOk, ← h.sentFail,
      ← both_iff]
    split
    · rename_i hboth
      exact ⟨iff_of_true rfl hboth, fun _ => ((both_iff _).mp hboth).2⟩
    · rename_i hboth
      exact ⟨iff_of_false Bool.false_ne_true hboth, fun h => absurd h Bool.false_ne_true⟩
  | lines, next :: looks, s => by
    have h := hears_lines s lines
    obtain ⟨hiff, hset⟩ := atWaitFlag_both next looks (s.handleLines lines)
    rw [atWaitFlag, List.flatten_cons, List.any_append, List.any_append, ← Bool.or_assoc,
      ← Bool.or_assoc, ← h.sentOk, ← h.sentFail]
    split
    · rename_i hboth
      obtain ⟨hok, hfail⟩ := (both_iff _).mp hboth
      rw [hok, hfail, Bool.true_or, Bool.true_or]
      exact ⟨iff_of_true rfl ⟨rfl, rfl⟩, fun _ => rfl⟩
    · rw [h.urcTable] at hiff
      exact ⟨hiff, hset⟩

/-- The wait for the second flag, when it is set. -/
theorem atWaitFlag_fail {s : Esp8266} (h : s.sentFail = true) (lines : List Bytes)
    (looks : List (List Bytes)) : (atWaitFlag sendFailFlag (lines :: looks) s).1 = true := by
  rw [atWaitFlag]
  rw [if_pos ((fail_iff _).mpr ((hears_lines s lines).mono.2 h))]

end Esp8266

/-! ## One chunk -/

/-- The lines up to the end of the wait for the flags. -/
def ChunkEnv.lines (e : ChunkEnv) : List Bytes := e.cmdLines ++ (e.firstLook :: e.looks).flatten

/-- `SEND OK` has come. -/
def ChunkEnv.saysOk (table : List AtUrc) (e : ChunkEnv) : Bool := e.lines.any (saidOk table)

/-- `SEND FAIL` has come. -/
def ChunkEnv.saysFail (table : List AtUrc) (e : ChunkEnv) : Bool := e.lines.any (saidFail table)

theorem cleared_flags (s : Esp8266) : (cleared s).sentOk = false ∧ (cleared s).sentFail = false := by
  refine ⟨?_, ?_⟩
  · rw [Esp8266.sentOk, cleared, atClearFlag_bit, atClearFlag_bit, (flag_bits 1).1]
    simp
  · rw [Esp8266.sentFail, cleared, atClearFlag_bit, (flag_bits 2).2]
    simp

/-- **How a chunk ends**: whether the command fails, the UART takes the data, and both flags are set. -/
theorem sendChunk_end (s : Esp8266) (r size : Nat) (e : ChunkEnv) :
    (sendChunk s r size e).1 =
      if ((cleared s).atExecCmd r e.cmdLines e.lateLines).1 ≠ qcloudRetSuccess then .cmdError
      else if size ≠ e.uartSent then .dataError
      else if e.saysOk s.urcTable = true ∧ e.saysFail s.urcTable = true then .sendFail
      else .counted := by
  obtain ⟨heard, hheard, hall⟩ := Esp8266.hears_exec (cleared s) r e.cmdLines e.lateLines
  obtain ⟨hok, hfail⟩ := cleared_flags s
  unfold sendChunk
  simp only
  by_cases hcmd : ((cleared s).atExecCmd r e.cmdLines e.lateLines).1 ≠ qcloudRetSuccess
  · rw [if_pos hcmd, if_pos hcmd]
  rw [if_neg hcmd, if_neg hcmd]
  by_cases hsize : size ≠ e.uartSent
  · rw [if_pos hsize, if_pos hsize]
  rw [if_neg hsize, if_neg hsize]
  obtain ⟨hiff, hset⟩ := Esp8266.atWaitFlag_both e.firstLook e.looks
    (((cleared s).atExecCmd r e.cmdLines e.lateLines).2.atSetEndSign 0)
  have hcmdOk : Esp8266.sentOk (((cleared s).atExecCmd r e.cmdLines e.lateLines).2.atSetEndSign 0) =
      e.cmdLines.any (saidOk s.urcTable) := by
    have h := hheard.sentOk
    rw [hall (not_not.mp hcmd), hok, Bool.false_or] at h
    exact h
  have hcmdFail : Esp8266.sentFail
      (((cleared s).atExecCmd r e.cmdLines e.lateLines).2.atSetEndSign 0) =
        e.cmdLines.any (saidFail s.urcTable) := by
    have h := hheard.sentFail
    rw [hall (not_not.mp hcmd), hfail, Bool.false_or] at h
    exact h
  have htable : Esp8266.urcTable
      (((cleared s).atExecCmd r e.cmdLines e.lateLines).2.atSetEndSign 0) = s.urcTable :=
    hheard.urcTable
  rw [hcmdOk, hcmdFail, htable, ← List.any_append, ← List.any_append] at hiff
  change _ ↔ e.saysOk s.urcTable = true ∧ e.saysFail s.urcTable = true at hiff
  by_cases hboth : e.saysOk s.urcTable = true ∧ e.saysFail s.urcTable = true
  · have hwait := hiff.mpr hboth
    rw [if_pos hwait, if_pos hboth, if_pos (Esp8266.atWaitFlag_fail (hset hwait) _ _)]
  · rw [if_neg (mt hiff.mp hboth), if_neg hboth]

/-- A chunk clears the end sign, unless its command fails. -/
theorem sendChunk_keeps (s : Esp8266) (r size : Nat) (e : ChunkEnv) :
    (sendChunk s r size e).2.endSign =
      (if (sendChunk s r size e).1 = .cmdError then s.endSign else 0) ∧
    (sendChunk s r size e).2.urcTable = s.urcTable := by
  obtain ⟨heard, hheard, -⟩ := Esp8266.hears_exec (cleared s) r e.cmdLines e.lateLines
  have hcleared : (((cleared s).atExecCmd r e.cmdLines e.lateLines).2.atSetEndSign 0).endSign = 0 ∧
      (((cleared s).atExecCmd r e.cmdLines e.lateLines).2.atSetEndSign 0).urcTable = s.urcTable :=
    ⟨rfl, hheard.urcTable⟩
  have hwait : ∀ (flag : BitVec 32) (looks : List (List Bytes)) (s' : Esp8266),
      s'.endSign = 0 ∧ s'.urcTable = s.urcTable →
      (Esp8266.atWaitFlag flag looks s').2.endSign = 0 ∧
        (Esp8266.atWaitFlag flag looks s').2.urcTable = s.urcTable := fun flag looks s' h => by
    obtain ⟨heard, hheard⟩ := Esp8266.hears_wait flag looks s'
    exact ⟨hheard.endSign.trans h.1, hheard.urcTable.trans h.2⟩
  unfold sendChunk
  simp only
  split
  · exact ⟨hheard.endSign, hheard.urcTable⟩
  split
  · exact hcleared
  split
  · split
    · exact hwait _ _ _ (hwait _ _ _ hcleared)
    · exact hwait _ _ _ (hwait _ _ _ hcleared)
  · exact hwait _ _ _ hcleared

/-! ## All chunks -/

/-- The data were written, and the flags waited for. -/
def ChunkRun.written (c : ChunkRun) : Bool := c.ended = .sendFail || c.ended = .counted

/-- The module has confirmed the chunk: `SEND OK` has come, and no `SEND FAIL`. -/
def ChunkRun.confirmed (table : List AtUrc) (c : ChunkRun) : Bool :=
  c.written && (c.env.saysOk table && !c.env.saysFail table)

/-- The bytes of the chunks of one kind. -/
def bytesOf (kind : ChunkRun → Bool) (chunks : List ChunkRun) : Nat :=
  ((chunks.filter kind).map ChunkRun.size).sum

/-- The chunk counted although no `SEND OK` has come. -/
def ChunkRun.unheard (table : List AtUrc) (c : ChunkRun) : Bool :=
  c.ended = .counted && !c.env.saysOk table

/-- How a written chunk ends, by what was said. -/
structure ChunkRun.Fits (table : List AtUrc) (c : ChunkRun) : Prop where
  pos : 0 < c.size
  sendFail : c.ended = .sendFail → c.env.saysOk table = true ∧ c.env.saysFail table = true
  counted : c.ended = .counted → ¬ (c.env.saysOk table = true ∧ c.env.saysFail table = true)

theorem bytesOfcons (kind : ChunkRun → Bool) (c : ChunkRun) (cs : List ChunkRun) :
    bytesOf kind (c :: cs) = (if kind c then c.size else 0) + bytesOf kind cs := by
  rw [bytesOf, List.filter_cons]
  split
  · rfl
  · exact (Nat.zero_add _).symm

/-- A chunk is counted if it is confirmed or was not heard of. -/
theorem counted_split {table : List AtUrc} {cs : List ChunkRun} (h : ∀ c ∈ cs, c.Fits table) :
    bytesOf (fun c => c.ended = .counted) cs =
      bytesOf (ChunkRun.confirmed table) cs + bytesOf (ChunkRun.unheard table) cs := by
  induction cs with
  | nil => rfl
  | cons c cs ih =>
    obtain ⟨hc, hcs⟩ := List.forall_mem_cons.mp h
    have hone : (if decide (c.ended = .counted) then c.size else 0) =
        (if c.confirmed table then c.size else 0) + if c.unheard table then c.size else 0 := by
      have hsendFail := hc.sendFail
      have hcounted := hc.counted
      unfold ChunkRun.confirmed ChunkRun.unheard ChunkRun.written
      cases hend : c.ended with
      | cmdError => rfl
      | dataError => rfl
      | sendFail =>
        rw [(hsendFail hend).1, (hsendFail hend).2]
        rfl
      | counted =>
        cases hok : c.env.saysOk table with
        | false => simp
        | true =>
          have hfail : c.env.saysFail table = false :=
            Bool.eq_false_of_not_eq_true fun hfail => hcounted hend ⟨hok, hfail⟩
          simp [hfail]
    rw [bytesOfcons, bytesOfcons, bytesOfcons, ih hcs, hone]
    omega

/-- Every counted chunk was heard of iff they have no bytes. -/
theorem unheard_eq_zero {table : List AtUrc} {cs : List ChunkRun} (h : ∀ c ∈ cs, c.Fits table) :
    bytesOf (ChunkRun.unheard table) cs = 0 ↔
      ∀ c ∈ cs, c.written = true → c.env.saysOk table = true := by
  induction cs with
  | nil => exact iff_of_true rfl fun c hc => absurd hc List.not_mem_nil
  | cons c cs ih =>
    obtain ⟨hc, hcs⟩ := List.forall_mem_cons.mp h
    have hpos := hc.pos
    have hone : (if c.unheard table then c.size else 0) = 0 ↔
        (c.written = true → c.env.saysOk table = true) := by
      have hsendFail := hc.sendFail
      unfold ChunkRun.unheard ChunkRun.written
      cases hend : c.ended with
      | cmdError => exact iff_of_true rfl fun h => absurd h (by decide)
      | dataError => exact iff_of_true rfl fun h => absurd h (by decide)
      | sendFail => exact iff_of_true rfl fun _ => (hsendFail hend).1
      | counted =>
        cases hok : c.env.saysOk table with
        | false =>
          refine iff_of_false ?_ (by decide)
          change c.size ≠ 0
          omega
        | true => exact iff_of_true rfl fun _ => rfl
    rw [bytesOfcons, Nat.add_eq_zero_iff, ih hcs, hone, List.forall_mem_cons]

/-- What the loop does from `sent` on. -/
structure LoopSpec (s : Esp8266) (len sent : Nat) (run : SendRun) : Prop where
  sentSize : run.sentSize = sent + bytesOf (fun c => c.ended = .counted) run.chunks
  le : run.sentSize ≤ max len sent
  fits : ∀ c ∈ run.chunks, c.Fits s.urcTable
  prompted : (∃ c ∈ run.chunks, c.ended ≠ .cmdError) → run.driver.endSign = 0
  unprompted : (¬ ∃ c ∈ run.chunks, c.ended ≠ .cmdError) → run.driver.endSign = s.endSign

theorem sendChunk_fits (s : Esp8266) (r : Nat) {size : Nat} (hsize : 0 < size) (e : ChunkEnv) :
    ChunkRun.Fits s.urcTable ⟨size, e, (sendChunk s r size e).1⟩ := by
  refine ⟨hsize, ?_, ?_⟩
  · simp only [sendChunk_end]
    split
    · exact fun h => ChunkEnd.noConfusion h
    split
    · exact fun h => ChunkEnd.noConfusion h
    split
    · exact fun _ => by assumption
    · exact fun h => ChunkEnd.noConfusion h
  · simp only [sendChunk_end]
    split
    · exact fun h => ChunkEnd.noConfusion h
    split
    · exact fun h => ChunkEnd.noConfusion h
    split
    · exact fun h => ChunkEnd.noConfusion h
    · exact fun _ => by assumption

/-- **The loop**: what is sent is what the counted chunks hold, and the end sign is cleared by the first
chunk whose command succeeds. -/
theorem sendLoop_spec (r len : Nat) (env : Nat → ChunkEnv) (k sent : Nat) (s : Esp8266) :
    LoopSpec s len sent (sendLoop r len env k sent s) := by
  induction hn : len - sent using Nat.strongRecOn generalizing k sent s with
  | ind n ih =>
    rw [sendLoop.eq_def]
    split
    · rename_i hlt
      obtain ⟨hpos, hle⟩ := curPktSize_pos hlt
      obtain ⟨hend, htable⟩ := sendChunk_keeps s r (curPktSize len sent) (env k)
      have hfits := sendChunk_fits s r hpos (env k)
      simp only
      split
      · rename_i hcounted
        have hrest := ih _ (by omega) (k + 1) (sent + curPktSize len sent)
          (sendChunk s r (curPktSize len sent) (env k)).2 rfl
        rw [hcounted] at hend hfits ⊢
        rw [if_neg (by decide)] at hend
        have hsent := hrest.sentSize
        have hbound := hrest.le
        have hall := hrest.fits
        rw [htable] at hall
        refine ⟨?_, ?_, List.forall_mem_cons.mpr ⟨hfits, hall⟩, fun _ => ?_, fun hno => ?_⟩
        · rw [bytesOfcons]
          simp only [decide_true, if_true]
          omega
        · change (sendLoop r len env (k + 1) _ _).sentSize ≤ _
          omega
        · by_cases hprompted : ∃ c ∈ (sendLoop r len env (k + 1) (sent + curPktSize len sent)
              (sendChunk s r (curPktSize len sent) (env k)).2).chunks, c.ended ≠ .cmdError
          · exact hrest.prompted hprompted
          · exact (hrest.unprompted hprompted).trans hend
        · exact absurd ⟨_, List.mem_cons_self, fun h => ChunkEnd.noConfusion h⟩ hno
      · rename_i hstop
        have hkind : bytesOf (fun c => c.ended = .counted) [⟨curPktSize len sent, env k,
            (sendChunk s r (curPktSize len sent) (env k)).1⟩] = 0 := by
          rw [bytesOfcons, if_neg (by simpa using hstop)]
          rfl
        refine ⟨by rw [hkind]; rfl, le_max_right _ _, fun c hc => ?_, fun hprompted => ?_,
          fun hno => ?_⟩
        · rw [List.mem_singleton.mp hc]
          exact hfits
        · obtain ⟨c, hc, hne⟩ := hprompted
          rw [List.mem_singleton.mp hc] at hne
          rw [if_neg hne] at hend
          exact hend
        · have hcmd : (sendChunk s r (curPktSize len sent) (env k)).1 = .cmdError := by
            by_contra hne
            exact hno ⟨_, List.mem_cons_self, hne⟩
          rw [if_pos hcmd] at hend
          exact hend
    · refine ⟨rfl, le_max_right _ _, fun c hc => absurd hc List.not_mem_nil, ?_, fun _ => rfl⟩
      rintro ⟨c, hc, -⟩
      exact absurd hc List.not_mem_nil

/-! ## What is returned -/

theorem toInt_neg (n : Nat) : toInt n < 0 ↔ 2 ^ 31 ≤ n % 2 ^ 32 := by
  have hlt : n % 2 ^ 32 < 2 ^ 32 := Nat.mod_lt _ (by decide)
  unfold toInt
  split <;> omega

theorem toInt_eq {n : Nat} (h : n % 2 ^ 32 < 2 ^ 31) (m : Nat) : toInt n = m ↔ n % 2 ^ 32 = m := by
  rw [toInt, if_pos h]
  exact Int.ofNat_inj

/-- The returned size of two parts is negative or the first, by the parts. -/
theorem toInt_add (confirmed unheard : Nat) :
    (toInt (confirmed + unheard) < 0 ∨ toInt (confirmed + unheard) = confirmed) ↔
      2 ^ 31 ≤ (confirmed + unheard) % 2 ^ 32 ∨ confirmed < 2 ^ 31 ∧ 2 ^ 32 ∣ unheard := by
  rw [toInt_neg]
  by_cases hneg : 2 ^ 31 ≤ (confirmed + unheard) % 2 ^ 32
  · exact iff_of_true (.inl hneg) (.inl hneg)
  rw [toInt_eq (by omega)]
  constructor
  · rintro (h | h)
    · exact absurd h hneg
    · exact .inr ⟨by omega, by omega⟩
  · rintro (h | ⟨hlt, k, rfl⟩)
    · exact absurd h hneg
    · refine .inr ?_
      rw [Nat.add_mul_mod_self_left, Nat.mod_eq_of_lt (by omega)]

/-- What the call begins its first chunk with. -/
def prepared (s : Esp8266) (r : Nat) : Esp8266 := (s.atCreateResp r 512 2).atSetEndSign 62

/-- The response object of a call that has a buffer. -/
def SendCall.object (call : SendCall) : Option Nat := if call.buff then call.resp else none

/-- The first command gets its prompt. -/
def SendCall.Prompted (s : Esp8266) (call : SendCall) (r : Nat) : Prop :=
  0 < call.len ∧ ((cleared (prepared s r)).atExecCmd r (call.env 0).cmdLines
    (call.env 0).lateLines).1 = qcloudRetSuccess

/-- The chunks that the call has begun. -/
def SendCall.chunks (s : Esp8266) (call : SendCall) : List ChunkRun := (esp8266Send s call).2.chunks

/-- The bytes of the confirmed chunks. -/
def SendCall.confirmed (s : Esp8266) (call : SendCall) : Nat :=
  bytesOf (ChunkRun.confirmed s.urcTable) (call.chunks s)

/-- The bytes of the chunks that waited for a `SEND OK` in vain. -/
def SendCall.unheard (s : Esp8266) (call : SendCall) : Nat :=
  bytesOf (ChunkRun.unheard s.urcTable) (call.chunks s)

/-- On return the end sign is cleared, and what is returned is the size of the confirmed chunks or an
error. -/
def SendCall.Accounted (s : Esp8266) (call : SendCall) : Prop :=
  (esp8266Send s call).2.driver.endSign = 0 ∧
    ((esp8266Send s call).1 < 0 ∨ (esp8266Send s call).1 = call.confirmed s)

/-- The condition: nothing is begun and the end sign was clear; or the first command gets its prompt,
and the sizes are right. -/
def SendCall.Served (s : Esp8266) (call : SendCall) (sizes : Prop) : Prop :=
  match call.object with
  | none => s.endSign = 0
  | some r => call.Prompted s r ∧ sizes

theorem esp8266Send_none {s : Esp8266} {call : SendCall} (h : call.object = none) :
    (esp8266Send s call).1 < 0 ∧ (esp8266Send s call).2 = ⟨s, 0, []⟩ := by
  unfold SendCall.object at h
  unfold esp8266Send
  have herr : qcloudErrInval < 0 ∧ qcloudErrFailure < 0 := by decide
  cases hbuff : call.buff with
  | false => exact ⟨herr.1, rfl⟩
  | true =>
    rw [hbuff, if_pos rfl] at h
    rw [h]
    exact ⟨herr.2, rfl⟩

theorem esp8266Send_some {s : Esp8266} {call : SendCall} {r : Nat} (h : call.object = some r) :
    esp8266Send s call = (toInt (sendLoop r call.len call.env 0 0 (prepared s r)).sentSize,
      sendLoop r call.len call.env 0 0 (prepared s r)) := by
  unfold SendCall.object at h
  split at h
  · rename_i hbuff
    unfold esp8266Send
    rw [hbuff, h]
    rfl
  · exact absurd h (Option.some_ne_none r).symm

/-- The end sign is cleared iff the first command gets its prompt. -/
theorem sendLoop_prompted (r len : Nat) (env : Nat → ChunkEnv) (s : Esp8266) :
    (∃ c ∈ (sendLoop r len env 0 0 s).chunks, c.ended ≠ .cmdError) ↔
      0 < len ∧ ((cleared s).atExecCmd r (env 0).cmdLines (env 0).lateLines).1 = qcloudRetSuccess := by
  have hcmd : (sendChunk s r (curPktSize len 0) (env 0)).1 ≠ .cmdError ↔
      ((cleared s).atExecCmd r (env 0).cmdLines (env 0).lateLines).1 = qcloudRetSuccess := by
    rw [sendChunk_end]
    by_cases h : ((cleared s).atExecCmd r (env 0).cmdLines (env 0).lateLines).1 ≠ qcloudRetSuccess
    · rw [if_pos h]
      exact iff_of_false (fun hne => hne rfl) h
    · rw [if_neg h]
      refine iff_of_true ?_ (not_not.mp h)
      split
      · exact fun h => ChunkEnd.noConfusion h
      split
      · exact fun h => ChunkEnd.noConfusion h
      · exact fun h => ChunkEnd.noConfusion h
  rw [sendLoop.eq_def]
  split
  · rename_i hlt
    simp only
    split
    · rename_i hcounted
      refine iff_of_true ⟨_, List.mem_cons_self, ?_⟩ ⟨hlt, hcmd.mp ?_⟩
      · rw [hcounted]
        exact fun h => ChunkEnd.noConfusion h
      · rw [hcounted]
        exact fun h => ChunkEnd.noConfusion h
    · constructor
      · rintro ⟨c, hc, hne⟩
        rw [List.mem_singleton.mp hc] at hne
        exact ⟨hlt, hcmd.mp hne⟩
      · rintro ⟨-, h⟩
        exact ⟨_, List.mem_cons_self, hcmd.mpr h⟩
  · rename_i hlen
    refine iff_of_false ?_ fun h => hlen h.1
    rintro ⟨c, hc, -⟩
    exact List.not_mem_nil hc

/-- The driver after its start. -/
def idleDriver : Esp8266 :=
  { sys := { client := { urcTable := sendUrcs }, resps := fun _ => ⟨[], 0, 0⟩ } }

/-- One byte; these lines answer the command, the byte is taken, and the module says this. -/
def oneByte (cmdLines : List Bytes) (answer : Bytes) : SendCall :=
  ⟨true, some 0, 1, fun _ => { cmdLines := cmdLines, uartSent := 1, firstLook := [answer] }⟩

theorem sendLoop_single (r : Nat) (env : Nat → ChunkEnv) (s : Esp8266) :
    sendLoop r 1 env 0 0 s = ⟨(sendChunk s r 1 (env 0)).2,
      if (sendChunk s r 1 (env 0)).1 = .counted then 1 else 0,
      [⟨1, env 0, (sendChunk s r 1 (env 0)).1⟩]⟩ := by
  have hsize : curPktSize 1 0 = 1 := rfl
  rw [sendLoop.eq_def, dif_pos (by decide), hsize]
  simp only
  split
  · rename_i hcounted
    rw [sendLoop.eq_def, dif_neg (by decide), hcounted]
  · rfl

end QcloudIot.At
