import QcloudIot.At.Client
import QcloudIot.Lib.Run

/-!
# The assembly of a response

Runs of commands, the lines the parser reads, and waits that end either way. Lines that come after
a wait has failed, and before the command clears the client's pointer, are in them too.

* `responseLines`: the lines of a response, up to the one that ends it;
* `Right`: the response object holds them, and gives each of them back;
* `parseLine_assembled`: what one line does to a response that is being assembled;
* `response_right`: in a run in which no command starts with anything left of an earlier one, no
  line that is waited for holds a NUL and none ends with `OK` a response of which a line did not fit,
  every command that succeeds has its lines.
-/

namespace QcloudIot.At

open Lib

/-! ## The lines of a response -/

/-- The line, the `count`-th one, ends a response. -/
def endsResponse (lineNum count : Nat) (line : Bytes) : Bool :=
  (isEndOk line && lineNum == 0) || isEndError line || (lineNum != 0 && count == lineNum)

/-- The lines up to the first that ends the response; `before` lines are already counted. -/
def responseLines (lineNum : Nat) : (before : Nat) → List Bytes → Option (List Bytes)
  | _, [] => none
  | before, l :: ls =>
    if endsResponse lineNum (before + 1) l then some [l]
    else (responseLines lineNum (before + 1) ls).map (l :: ·)

theorem responseLines_append_some {lineNum : Nat} {more : List Bytes}
    {before : Nat} {ls pre : List Bytes} (h : responseLines lineNum before ls = some pre) :
    responseLines lineNum before (ls ++ more) = some pre := by
  induction ls generalizing before pre with
  | nil => exact nomatch h
  | cons l ls ih =>
    rw [responseLines] at h
    rw [List.cons_append, responseLines]
    by_cases hends : endsResponse lineNum (before + 1) l = true
    · rwa [if_pos hends] at h ⊢
    · rw [if_neg hends] at h ⊢
      obtain ⟨pre', hpre', rfl⟩ := Option.map_eq_some_iff.mp h
      rw [ih hpre', Option.map_some]

/-- One more line. -/
theorem responseLines_concat {lineNum : Nat} {l : Bytes} {before : Nat} {ls : List Bytes}
    (h : responseLines lineNum before ls = none) : responseLines lineNum before (ls ++ [l]) =
      if endsResponse lineNum (before + ls.length + 1) l then some (ls ++ [l]) else none := by
  induction ls generalizing before with
  | nil =>
    rw [List.nil_append, responseLines, responseLines, List.length_nil, Nat.add_zero, Option.map_none]
  | cons l' ls ih =>
    rw [responseLines] at h
    rw [List.cons_append, responseLines]
    by_cases hends : endsResponse lineNum (before + 1) l' = true
    · rw [if_pos hends] at h
      cases h
    · rw [if_neg hends] at h ⊢
      rw [ih (Option.map_eq_none_iff.mp h), List.length_cons,
        show before + 1 + ls.length + 1 = before + (ls.length + 1) + 1 by omega]
      split <;> rfl

/-! ## Runs -/

/-- Where the command that runs, if any, is: at the wait, or behind one that failed. -/
inductive Requester where
  | idle
  | waiting (r : Nat)
  | timedOut (r : Nat)
  deriving DecidableEq, Repr

/-- The system, the command, and the lines that are no URC since it was sent. -/
structure Session where
  sys : AtSystem
  requester : Requester := .idle
  received : List Bytes := []

/-- What happens next. -/
inductive Action where
  | send (r : Nat)
  | line (l : Bytes)
  | woken
  | timeout
  | giveUp
  deriving DecidableEq, Repr

/-- The line is one that may belong to a response. -/
def isResponseLine (c : AtClient) (l : Bytes) : Bool := l ≠ [] && (getUrcObj c l).isNone

/-- One step. A command waits for the lock while another one runs; the wait fails only if the
semaphore cannot be taken. -/
def step (s : Session) : Action → Session
  | .send r =>
    match s.requester with
    | .idle => ⟨execSend s.sys r, .waiting r, []⟩
    | _ => s
  | .line l =>
    { s with
      sys := parseLine s.sys l
      received := if isResponseLine s.sys.client l then s.received ++ [l] else s.received }
  | .woken =>
    match s.requester with
    | .waiting _ =>
      if 0 < s.sys.client.respSem then { s with sys := (execWoken s.sys).2, requester := .idle }
      else s
    | _ => s
  | .timeout =>
    match s.requester with
    | .waiting r => if s.sys.client.respSem = 0 then { s with requester := .timedOut r } else s
    | _ => s
  | .giveUp =>
    match s.requester with
    | .timedOut _ => { s with sys := (execTimedOut s.sys).2, requester := .idle }
    | _ => s

/-- The response object holds the lines received up to the one that ends the response, each with a
NUL for its newline, and nothing else; counts them; and gives each of them back by its number. -/
def Right (resp : AtResponse) (received : List Bytes) : Prop :=
  ∃ lines, responseLines resp.lineNum 0 received = some lines ∧
    (∃ rest, resp.buf = (lines.map nulled).flatten ++ rest) ∧
    resp.lineCounts = lines.length ∧
    ∀ (k : Nat) (hk : k < lines.length),
      (atRespGetLine resp (k + 1)).map (upTo 0) = some lines[k].dropLast

/-- A command that is about to return success has its response. -/
def SuccessRight (s : Session) : Action → Prop
  | .woken => ∀ r, s.requester = .waiting r → 0 < s.sys.client.respSem →
      (execWoken s.sys).1 = qcloudRetSuccess → Right ((execWoken s.sys).2.resps r) s.received
  | _ => True

/-- There is room for the line. -/
def Fits (s : AtSystem) (r : Nat) (l : Bytes) : Prop :=
  s.parser.respBufLen + l.length < (s.resps r).bufSize

/-- The line ends the response with success. -/
def EndsOk (s : AtSystem) (r : Nat) (l : Bytes) : Prop :=
  (isEndOk l ∧ (s.resps r).lineNum = 0) ∨
    (¬ isEndError l ∧ (s.resps r).lineNum ≠ 0 ∧ Fits s r l ∧
      s.parser.lineCounts + 1 = (s.resps r).lineNum)

/-- A command starts with nothing left of an earlier one: no line counted, and no post. A line that
is waited for holds no NUL, and does not end with success a response of which a line did not fit. -/
def Clean (s : Session) : Action → Prop
  | .send _ => s.requester = .idle → s.sys.parser = {} ∧ s.sys.client.respSem = 0
  | .line l => ∀ r ∈ s.sys.client.resp, s.requester = .waiting r →
      isResponseLine s.sys.client l → 0 ∉ l.dropLast ∧
        (EndsOk s.sys r l → s.sys.client.respStatus ≠ .respBuffFull ∧ Fits s.sys r l)
  | _ => True

instance (s : AtSystem) (r : Nat) (l : Bytes) : Decidable (Fits s r l) :=
  inferInstanceAs (Decidable (_ < _))

instance (s : AtSystem) (r : Nat) (l : Bytes) : Decidable (EndsOk s r l) :=
  inferInstanceAs (Decidable (_ ∨ _))

instance (s : Session) : (a : Action) → Decidable (Clean s a)
  | .send _ => inferInstanceAs (Decidable (_ → _))
  | .line _ => inferInstanceAs (Decidable (∀ r ∈ s.sys.client.resp, _ → _ → _))
  | .woken => inferInstanceAs (Decidable True)
  | .timeout => inferInstanceAs (Decidable True)
  | .giveUp => inferInstanceAs (Decidable True)

/-! ## One line -/

section

variable {s : AtSystem} {r : Nat} {l b : Bytes} {lines : List Bytes}

theorem length_nulled (h : l ≠ []) : (nulled l).length = l.length := by
  have hpos := List.length_pos_iff.mpr h
  rw [nulled, List.length_append, List.length_dropLast, List.length_singleton]
  omega

theorem setResp_self (s : AtSystem) (r : Nat) (resp : AtResponse) : (s.setResp r resp).resps r = resp :=
  Function.update_self ..

theorem storeLine_fits (h : Fits s r b) : s.storeLine r b =
    { s.setResp r { s.resps r with buf := writeAt (s.resps r).buf s.parser.respBufLen b } with
      parser := ⟨s.parser.respBufLen + b.length, s.parser.lineCounts + 1⟩ } := if_pos h

theorem storeLine_full (h : ¬ Fits s r b) :
    s.storeLine r b = { s with client.respStatus := .respBuffFull } := if_neg h

theorem storeLine_lineNum (s : AtSystem) (r : Nat) (b : Bytes) :
    ((s.storeLine r b).resps r).lineNum = (s.resps r).lineNum := by
  by_cases h : Fits s r b
  · rw [storeLine_fits h]
    exact (congrArg AtResponse.lineNum (setResp_self s r _)).trans rfl
  · rw [storeLine_full h]

/-- All of the client but the status stays. -/
theorem storeLine_client (s : AtSystem) (r : Nat) (b : Bytes) : ∃ status,
    (s.storeLine r b).client = { s.client with respStatus := status } ∧
      (status = s.client.respStatus ∨ status = .respBuffFull) := by
  by_cases h : Fits s r b
  · rw [storeLine_fits h]
    exact ⟨_, rfl, .inl rfl⟩
  · rw [storeLine_full h]
    exact ⟨_, rfl, .inr rfl⟩

/-- What becomes of a line that may belong to a response. -/
theorem parseLine_response (hl : isResponseLine s.client l = true) (hr : s.client.resp = some r)
    (hsign : s.client.endSign = 0) : parseLine s l =
      let s := s.storeLine r (nulled l)
      if isEndOk l ∧ (s.resps r).lineNum = 0 then
        { s with client.respStatus := .respOk }.finish r
      else if isEndError l then { s with client.respStatus := .respError }.finish r
      else if s.parser.lineCounts = (s.resps r).lineNum ∧ (s.resps r).lineNum ≠ 0 then
        { s with client.respStatus := .respOk }.finish r
      else s := by
  rw [isResponseLine, Bool.and_eq_true, decide_eq_true_iff] at hl
  unfold parseLine
  rw [if_neg hl.1, if_neg (by rw [← Option.not_isNone, hl.2]; exact Bool.false_ne_true), hr]
  dsimp only
  rw [if_neg (not_not_intro hsign)]

/-- The other lines, and lines nobody waits for, do nothing. -/
theorem parseLine_other (h : isResponseLine s.client l = false ∨ s.client.resp = none) :
    parseLine s l = s := by
  unfold parseLine
  by_cases hl : l = []
  · exact if_pos hl
  rw [if_neg hl]
  by_cases hurc : (getUrcObj s.client l).isSome = true
  · exact if_pos hurc
  rw [if_neg hurc]
  rcases h with h | h
  · rw [isResponseLine, Bool.and_eq_false_iff, decide_eq_false_iff_not] at h
    rcases h with h | h
    · exact absurd hl h
    · rw [← Option.not_isSome, Bool.not_eq_false'] at h
      exact absurd h hurc
  · rw [h]

/-! ## A response that is being assembled -/

/-- The object holds the lines so far, and the parser's locals say so. -/
structure Held (s : AtSystem) (r : Nat) (lines : List Bytes) : Prop where
  count : s.parser.lineCounts = lines.length
  held : ∃ rest, (s.resps r).buf = (lines.map nulled).flatten ++ rest
  used : s.parser.respBufLen = (lines.map nulled).flatten.length
  noNul : ∀ l ∈ lines, 0 ∉ l.dropLast

theorem Held.congr {s' : AtSystem} (h : Held s r lines) (hparser : s'.parser = s.parser)
    (hresps : s'.resps = s.resps) : Held s' r lines where
  count := by rw [hparser, h.count]
  held := by rw [hresps]; exact h.held
  used := by rw [hparser, h.used]
  noNul := h.noNul

/-- **A line that fits** is held behind the others. -/
theorem Held.storeLine (h : Held s r lines) (hfits : Fits s r (nulled l)) (hnul : 0 ∉ l.dropLast) :
    Held (s.storeLine r (nulled l)) r (lines ++ [l]) := by
  obtain ⟨rest, hrest⟩ := h.held
  have hflat : ((lines ++ [l]).map nulled).flatten = (lines.map nulled).flatten ++ nulled l := by
    rw [List.map_append, List.flatten_append, List.map_singleton, List.flatten_singleton]
  rw [storeLine_fits hfits]
  constructor
  · rw [List.length_append, List.length_singleton, ← h.count]
  · refine ⟨rest.drop (nulled l).length, ?_⟩
    have hbuf : writeAt (s.resps r).buf s.parser.respBufLen (nulled l) =
        (lines.map nulled).flatten ++ nulled l ++ rest.drop (nulled l).length := by
      rw [writeAt, hrest, h.used, List.take_left' rfl, List.drop_length_add_append]
    rw [hflat, ← hbuf]
    exact congrArg AtResponse.buf (setResp_self s r _)
  · rw [hflat, List.length_append, ← h.used]
  · intro l' hl'
    rcases List.mem_append.mp hl' with hl' | hl'
    · exact h.noNul l' hl'
    · rwa [List.mem_singleton.mp hl']

theorem flatten_nulled (lines : List Bytes) :
    (lines.map nulled).flatten = pack 0 (lines.map List.dropLast) := by
  induction lines with
  | nil => rfl
  | cons l lines ih =>
    rw [List.map_cons, List.map_cons, List.flatten_cons, pack, ih, nulled, List.append_assoc]
    rfl

/-- **A response that ends** with its lines held is right. -/
theorem Held.right {received : List Bytes} (h : Held s r lines)
    (hlines : responseLines (s.resps r).lineNum 0 received = some lines) :
    Right ((s.finish r).resps r) received := by
  obtain ⟨rest, hrest⟩ := h.held
  have hresp : (s.finish r).resps r = { s.resps r with lineCounts := s.parser.lineCounts } :=
    setResp_self s r _
  rw [hresp]
  refine ⟨lines, hlines, ⟨rest, hrest⟩, h.count, fun k hk => ?_⟩
  rw [flatten_nulled] at hrest
  have hnul : ∀ l ∈ lines.map List.dropLast, 0 ∉ l := by
    intro l hl
    obtain ⟨l', hl', rfl⟩ := List.mem_map.mp hl
    exact h.noNul l' hl'
  have hcount : s.parser.lineCounts = (lines.map List.dropLast).length := by
    rw [List.length_map]
    exact h.count
  have hline := @atRespGetLine_pack { s.resps r with lineCounts := s.parser.lineCounts } _ rest hrest
    hcount hnul k (by rwa [List.length_map])
  rwa [List.getElem_map] at hline

theorem Right.append {resp : AtResponse} {received : List Bytes} (h : Right resp received)
    (more : List Bytes) : Right resp (received ++ more) := by
  obtain ⟨lines, hlines, hrest⟩ := h
  exact ⟨lines, responseLines_append_some hlines, hrest⟩

/-- The parser is at work for the command: all lines are held, or one did not fit. -/
structure Assembling (s : AtSystem) (r : Nat) (received : List Bytes) : Prop where
  resp : s.client.resp = some r
  unposted : s.client.respSem = 0
  below : (s.resps r).lineNum ≠ 0 → s.parser.lineCounts < (s.resps r).lineNum
  lines : s.client.respStatus = .respBuffFull ∨ (s.client.respStatus = .respOk ∧
    responseLines (s.resps r).lineNum 0 received = none ∧ Held s r received)

/-- The parser is done with the command. -/
structure Assembled (s : AtSystem) (r : Nat) (received : List Bytes) : Prop where
  resp : s.client.resp = none
  right : s.client.respStatus = .respOk → Right (s.resps r) received

variable {received : List Bytes}

theorem endsResponse_iff {lineNum count : Nat} : endsResponse lineNum count l = true ↔
    (isEndOk l = true ∧ lineNum = 0) ∨ isEndError l = true ∨ (lineNum ≠ 0 ∧ count = lineNum) := by
  rw [endsResponse, Bool.or_eq_true, Bool.or_eq_true, Bool.and_eq_true, Bool.and_eq_true, beq_iff_eq,
    beq_iff_eq, bne_iff_ne, or_assoc]

theorem fits_nulled (h : l ≠ []) : Fits s r (nulled l) ↔ Fits s r l := by
  rw [Fits, Fits, length_nulled h]

/-- A line that ends it with success. -/
theorem assembled_of_endsOk (h : Assembling s r received) (hne : l ≠ []) (hnul : 0 ∉ l.dropLast)
    (hends : EndsOk s r l) (hfull : s.client.respStatus ≠ .respBuffFull ∧ Fits s r l) :
    Assembled (AtSystem.finish
      { s.storeLine r (nulled l) with client.respStatus := .respOk } r) r (received ++ [l]) := by
  obtain ⟨-, hunended, hheld⟩ := h.lines.resolve_left hfull.1
  have hheld' := hheld.storeLine ((fits_nulled hne).mpr hfull.2) hnul
  have hlast : endsResponse (s.resps r).lineNum (0 + received.length + 1) l = true := by
    rw [endsResponse_iff, Nat.zero_add, ← hheld.count]
    rcases hends with hok | ⟨-, hlineNum, -, hcount⟩
    · exact .inl hok
    · exact .inr (.inr ⟨hlineNum, hcount⟩)
  have hlines : responseLines (s.resps r).lineNum 0 (received ++ [l]) = some (received ++ [l]) := by
    rw [responseLines_concat hunended, if_pos hlast]
  refine ⟨rfl, fun _ => Held.right (hheld'.congr rfl rfl) ?_⟩
  rw [← hlines]
  exact congrArg (responseLines · 0 _) (storeLine_lineNum s r (nulled l))

/-- A line that does not end it. -/
theorem assembling_storeLine (h : Assembling s r received) (hnul : 0 ∉ l.dropLast)
    (hok : ¬ (isEndOk l = true ∧ (s.resps r).lineNum = 0)) (herror : ¬ isEndError l = true)
    (hcount : ¬ ((s.storeLine r (nulled l)).parser.lineCounts = (s.resps r).lineNum ∧
      (s.resps r).lineNum ≠ 0)) :
    Assembling (s.storeLine r (nulled l)) r (received ++ [l]) := by
  obtain ⟨status, hclient, hstatus⟩ := storeLine_client s r (nulled l)
  have hlineNum := storeLine_lineNum s r (nulled l)
  refine ⟨by rw [hclient]; exact h.resp, by rw [hclient]; exact h.unposted, ?_, ?_⟩
  · rw [hlineNum]
    intro hne0
    have hbelow := h.below hne0
    have hnot : (s.storeLine r (nulled l)).parser.lineCounts ≠ (s.resps r).lineNum :=
      fun heq => hcount ⟨heq, hne0⟩
    by_cases hfits : Fits s r (nulled l)
    · rw [storeLine_fits hfits] at hnot ⊢
      dsimp only at hnot ⊢
      omega
    · rw [storeLine_full hfits]
      exact hbelow
  · by_cases hfits : Fits s r (nulled l)
    · have hsame : (s.storeLine r (nulled l)).client = s.client := by
        rw [storeLine_fits hfits]
        rfl
      rw [hsame, hlineNum]
      refine h.lines.imp_right fun ⟨hokStatus, hunended, hheld⟩ => ?_
      refine ⟨hokStatus, ?_, hheld.storeLine hfits hnul⟩
      have hnot : ¬ endsResponse (s.resps r).lineNum (0 + received.length + 1) l = true := by
        rw [endsResponse_iff]
        rintro (h' | h' | ⟨hne0, heq⟩)
        · exact hok h'
        · exact herror h'
        · refine hcount ⟨?_, hne0⟩
          rw [storeLine_fits hfits, ← heq, Nat.zero_add, ← hheld.count]
      rw [responseLines_concat hunended, if_neg hnot]
    · rw [storeLine_full hfits]
      exact .inl rfl

/-- **One line** of a response that is being assembled. -/
theorem parseLine_assembling (h : Assembling s r received) (hsign : s.client.endSign = 0)
    (hl : isResponseLine s.client l = true) (hnul : 0 ∉ l.dropLast)
    (hfull : EndsOk s r l → s.client.respStatus ≠ .respBuffFull ∧ Fits s r l) :
    Assembling (parseLine s l) r (received ++ [l]) ∨ Assembled (parseLine s l) r (received ++ [l]) := by
  have hne : l ≠ [] := by
    rw [isResponseLine, Bool.and_eq_true, decide_eq_true_iff] at hl
    exact hl.1
  rw [parseLine_response hl h.resp hsign]
  dsimp only
  rw [storeLine_lineNum]
  by_cases hok : isEndOk l = true ∧ (s.resps r).lineNum = 0
  · rw [if_pos hok]
    exact .inr (assembled_of_endsOk h hne hnul (.inl hok) (hfull (.inl hok)))
  rw [if_neg hok]
  by_cases herror : isEndError l = true
  · rw [if_pos herror]
    exact .inr ⟨rfl, fun hstatus => nomatch hstatus⟩
  rw [if_neg herror]
  by_cases hcount : (s.storeLine r (nulled l)).parser.lineCounts = (s.resps r).lineNum ∧
      (s.resps r).lineNum ≠ 0
  · rw [if_pos hcount]
    have hfits : Fits s r (nulled l) := by
      by_contra hnot
      have hbelow := h.below hcount.2
      rw [storeLine_full hnot] at hcount
      exact absurd hcount.1 (Nat.ne_of_lt hbelow)
    have hends : EndsOk s r l := by
      rw [storeLine_fits hfits] at hcount
      exact .inr ⟨herror, hcount.2, (fits_nulled hne).mp hfits, hcount.1⟩
    exact .inr (assembled_of_endsOk h hne hnul hends (hfull hends))
  · rw [if_neg hcount]
    exact .inl (assembling_storeLine h hnul hok herror hcount)

theorem parseLine_assembled (h : Assembled s r received) (l : Bytes) (more : List Bytes) :
    Assembled (parseLine s l) r (received ++ more) := by
  rw [parseLine_other (.inr h.resp)]
  exact ⟨h.resp, fun hok => (h.right hok).append more⟩

theorem parseLine_endSign (l : Bytes) (hsign : s.client.endSign = 0) :
    (parseLine s l).client.endSign = 0 := by
  by_cases hother : isResponseLine s.client l = false ∨ s.client.resp = none
  · rw [parseLine_other hother, hsign]
  · rw [not_or, Bool.not_eq_false] at hother
    obtain ⟨r, hr⟩ := Option.ne_none_iff_exists'.mp hother.2
    obtain ⟨status, hclient, -⟩ := storeLine_client s r (nulled l)
    have hkept : (s.storeLine r (nulled l)).client.endSign = 0 := by rw [hclient]; exact hsign
    rw [parseLine_response hother.1 hr hsign]
    dsimp only
    split
    · exact hkept
    split
    · exact hkept
    split
    · exact hkept
    · exact hkept

end

/-! ## Whole runs -/

/-- The command that waits has its lines, or will have. -/
def Inv (s : Session) : Prop :=
  s.sys.client.endSign = 0 ∧ ∀ r, s.requester = .waiting r →
    Assembling s.sys r s.received ∨ Assembled s.sys r s.received

theorem step_inv (s : Session) (a : Action) (h : Inv s) (ha : Clean s a) : Inv (step s a) := by
  obtain ⟨hsign, hwait⟩ := h
  have hsame : Inv s := ⟨hsign, hwait⟩
  cases a with
  | send r =>
    dsimp only [step]
    split
    · rename_i hidle
      obtain ⟨hparser, hsem⟩ := ha hidle
      refine ⟨hsign, fun r' hr' => .inl ?_⟩
      obtain rfl : r = r' := by injection hr'
      have hcount : (execSend s.sys r).parser.lineCounts = 0 := congrArg Parser.lineCounts hparser
      exact ⟨rfl, hsem, fun hne => by rw [hcount]; exact Nat.pos_of_ne_zero hne,
        .inr ⟨rfl, rfl, ⟨hcount, ⟨_, rfl⟩, congrArg Parser.respBufLen hparser,
          fun _ hl => absurd hl List.not_mem_nil⟩⟩⟩
    · exact hsame
  | line l =>
    refine ⟨parseLine_endSign l hsign, fun r hr => ?_⟩
    have hreceived : (step s (.line l)).received =
        s.received ++ if isResponseLine s.sys.client l then [l] else [] := by
      rw [step]
      dsimp only
      split
      · rfl
      · rw [List.append_nil]
    rw [hreceived]
    rcases hwait r hr with hassembling | hassembled
    · by_cases hl : isResponseLine s.sys.client l = true
      · rw [if_pos hl]
        obtain ⟨hnul, hfull⟩ := ha r hassembling.resp hr hl
        exact parseLine_assembling hassembling hsign hl hnul hfull
      · rw [if_neg hl, List.append_nil]
        rw [step, parseLine_other (.inl (Bool.eq_false_iff.mpr hl))]
        exact .inl hassembling
    · exact .inr (parseLine_assembled hassembled l _)
  | woken =>
    dsimp only [step]
    split
    · split
      · exact ⟨hsign, fun _ hr => nomatch hr⟩
      · exact hsame
    · exact hsame
  | timeout =>
    dsimp only [step]
    split
    · split
      · exact ⟨hsign, fun _ hr => nomatch hr⟩
      · exact hsame
    · exact hsame
  | giveUp =>
    dsimp only [step]
    split
    · exact ⟨hsign, fun _ hr => nomatch hr⟩
    · exact hsame

/-- A command that is woken up and succeeds has its response. -/
theorem Inv.successRight {s : Session} (h : Inv s) (a : Action) : SuccessRight s a := by
  cases a with
  | woken =>
    intro r hr hsem hrc
    have hstatus : s.sys.client.respStatus = .respOk := by
      by_contra hnot
      have hne : qcloudErrFailure ≠ qcloudRetSuccess := by decide
      rw [execWoken, if_pos hnot] at hrc
      exact hne hrc
    rcases h.2 r hr with hassembling | hassembled
    · exact absurd hassembling.unposted (Nat.ne_of_gt hsem)
    · exact hassembled.right hstatus
  | _ => trivial

/-- **The response of a command that succeeds**, in every run from a client at rest whose steps are
clean: its lines, from the sending to the one that ends it. -/
theorem response_right (urcTable : List AtUrc) (resps : Nat → AtResponse) (actions : List Action)
    (h : Meets step Clean ⟨⟨{ urcTable := urcTable }, {}, resps⟩, .idle, []⟩ actions) :
    Meets step SuccessRight ⟨⟨{ urcTable := urcTable }, {}, resps⟩, .idle, []⟩ actions :=
  meets_imp_of_invariant Inv (fun s a hs ha => ⟨step_inv s a hs ha, hs.successRight a⟩)
    ⟨rfl, fun _ hr => nomatch hr⟩ h

/-- A client at rest, with response objects of 12 bytes that wait for `OK`. -/
def atRest : Session := ⟨⟨{}, {}, fun _ => ⟨List.replicate 12 0, 0, 0⟩⟩, .idle, []⟩

/-- A command, a line and `OK`. -/
def oneCommand : List Action :=
  [.send 0, .line (chars "+A:1\r\n"), .line (chars "OK\r\n")]

theorem response_right_oneCommand :
    Meets step SuccessRight atRest (oneCommand ++ [.woken]) ∧
      (execWoken (run step atRest oneCommand).sys).1 = qcloudRetSuccess :=
  ⟨response_right [] (fun _ => ⟨List.replicate 12 0, 0, 0⟩) (oneCommand ++ [Action.woken])
    (by decide), by decide⟩

/-- A command of which one line comes and that then times out, and a second one, answered `OK`. -/
def afterTimeout : List Action :=
  [.send 0, .line (chars "+A:1\r\n"), .timeout, .giveUp, .send 1, .line (chars "OK\r\n")]

/-- A command with a line too long for its buffer, answered `OK`. -/
def lineTooLong : List Action :=
  [.send 0, .line (chars "+NAME:value\r\n"), .line (chars "OK\r\n")]

/-- Both succeed: the one with two lines counted, of which the first is what was in the buffer, the
other without its line. -/
theorem response_wrong :
    ¬ Meets step SuccessRight atRest (afterTimeout ++ [.woken]) ∧
    (execWoken (run step atRest afterTimeout).sys).1 = qcloudRetSuccess ∧
    ((run step atRest afterTimeout).sys.resps 1).lineCounts = 2 ∧
    (execWoken (run step atRest lineTooLong).sys).1 = qcloudRetSuccess ∧
    (run step atRest lineTooLong).sys.resps 0 =
      ⟨chars "OK\r" ++ List.replicate 9 0, 0, 1⟩ := by
  refine ⟨fun h => ?_, ?_, ?_, ?_, ?_⟩
  · have hright := (meets_append.mp h).2.1 1 (by decide) (by decide)
      (by decide)
    obtain ⟨lines, hlines, -, hcount, -⟩ := hright
    have hone : lines = [chars "OK\r\n"] := Option.some.inj (hlines.symm.trans (by decide))
    rw [hone] at hcount
    revert hcount
    decide
  all_goals decide

end QcloudIot.At
