import QcloudIot.At.Esp8266
import QcloudIot.At.Socket
import QcloudIot.Utils.Scan

/-!
# The bytes from the serial port

`at_recv_readline`, `at_client_obj_recv` and the loop of `client_parser` of `at_client.c` on the bytes
that the port delivers, with the functions of `urc_table` in `at_device_esp8266.c`. A line ends with
`\r\n`, with the end sign, or where an entry of the table matches; the function of `+IPD` then takes the
data behind it from the port itself.

* `port` is all that is still to come: a wait for a byte fails when nothing is left. The callbacks of
  the sockets are registered; `sg_SocketBitMap` is left out.
* Between two turns other threads change the driver as they like, and set the end sign.

## Results

* `readline_of`: a line without an end inside is read to its end;
* `parserTurn_item`: one turn takes one item, and reports what it says;
* **`parserRun_items`**: whatever the data are, the packets are reported in order, and nothing in them is
  taken for a line.
-/

namespace QcloudIot.At

open Lib
open Utils (isSpace signOf signed digitOf digitsValue digitsValue_stop digitOf_digit)

/-! ## The code -/

/-- `at_client_obj_recv` of `size` bytes: all of them, or nothing, with what there was gone. -/
def atClientObjRecv (size : Nat) (port : Bytes) : Option Bytes × Bytes :=
  if size ≤ port.length then (some (port.take size), port.drop size) else (none, [])

/-- The test at the end of the loop of `at_recv_readline`. -/
def endsLine (c : AtClient) (lastCh ch : UInt8) (buffer : Bytes) : Bool :=
  (ch = 10 && lastCh = 13) || (c.endSign ≠ 0 && ch = c.endSign) || (getUrcObj c buffer).isSome

/-- The loop of `at_recv_readline`. `ring_buff_flush` drops the `waiting` bytes that are in the ring. -/
def readlineLoop (c : AtClient) (recvBufsz : Nat) (waiting : Bytes → Nat) :
    (port buffer : Bytes) → (lastCh : UInt8) → (isFull : Bool) → Option Bytes × Bytes
  | [], _, _, _ => (none, [])
  | ch :: port, buffer, lastCh, isFull =>
    if buffer.length < recvBufsz then
      if endsLine c lastCh ch (buffer ++ [ch]) then
        if isFull then (none, port.drop (waiting port)) else (some (buffer ++ [ch]), port)
      else readlineLoop c recvBufsz waiting port (buffer ++ [ch]) ch isFull
    else if endsLine c lastCh ch buffer then (none, port.drop (waiting port))
    else readlineLoop c recvBufsz waiting port buffer ch true

/-- `at_recv_readline`. -/
def atRecvReadline (c : AtClient) (recvBufsz : Nat) (waiting : Bytes → Nat) (port : Bytes) :
    Option Bytes × Bytes :=
  readlineLoop c recvBufsz waiting port [] 0 false

/-- The entry of `urc_table` for data. -/
def recvUrc : AtUrc := ⟨chars "+IPD", chars ":"⟩

/-- The entry for a link that is closed. -/
def closeUrc : AtUrc := ⟨[], chars ",CLOSED\r\n"⟩

/-- The entries with the function `urc_func`. -/
def wifiUrcs : List AtUrc :=
  [⟨chars "WIFI CONNECTED", chars "\r\n"⟩, ⟨chars "WIFI DISCONNECT", chars "\r\n"⟩]

/-- `urc_table`. -/
def urcTable : List AtUrc :=
  sendUrcs ++ [⟨chars "Recv", chars "bytes\r\n"⟩, closeUrc, recvUrc, ⟨chars "busy p", chars "\r\n"⟩,
    ⟨chars "busy s", chars "\r\n"⟩] ++ wifiUrcs

/-- `%d` of `sscanf`: the number, and what is behind it. -/
def scanDecimal (s : Bytes) : Option (Int × Bytes) :=
  let t := signOf (s.dropWhile isSpace)
  (t.2.head?.bind (digitOf 10)).map fun _ =>
    (signed t.1 (digitsValue 10 0 t.2), t.2.dropWhile fun c => (digitOf 10 c).isSome)

/-- `+IPD,%d,%d:`: `fd`, which is not set before, and `bfsz`, which is zero. -/
def scanIpd (data : Bytes) : Option Int × Nat :=
  if (chars "+IPD,").isPrefixOf data then
    match scanDecimal (data.drop 5) with
    | none => (none, 0)
    | some (fd, rest) =>
      if rest.head? = some 44 then
        (some fd, ((scanDecimal rest.tail).map fun n => (n.1 % 2 ^ 32).toNat).getD 0)
      else (some fd, 0)
  else (none, 0)

/-- What the driver reports of a link. -/
inductive LinkEvent where
  | recv (fd : Int) (buff : Bytes)
  | closed (fd : Int)
  deriving DecidableEq, Repr

/-- The loop that reads data away, eight bytes at a time. -/
def drainLoop (left : Nat) (port : Bytes) : Bytes :=
  if left = 0 then port
  else if left > 8 then drainLoop (left - 8) (atClientObjRecv 8 port).2
  else (atClientObjRecv left port).2

/-- `urc_recv_func`: what it reports, and what is left of the port. -/
def urcRecvFunc (memOk : Bool) (data port : Bytes) : List LinkEvent × Bytes :=
  match scanIpd data with
  | (none, _) => ([], port)
  | (some fd, bfsz) =>
    if fd < 0 ∨ bfsz = 0 then ([], port)
    else if memOk then
      match atClientObjRecv bfsz port with
      | (none, port) => ([], port)
      | (some buff, port) => ([.recv fd buff], port)
    else ([], drainLoop bfsz port)

/-- `WIFI_CONN_FLAG`. -/
def wifiConnFlag : BitVec 32 := 1 <<< 0

/-- `ESP8266_MAX_SOCKET_NUM`. -/
def esp8266MaxSocketNum : Nat := 5

/-- What the functions of the other entries report: `urc_close_func`, `urc_func`. -/
def urcEvents (urc : AtUrc) (data : Bytes) : List LinkEvent :=
  if urc = closeUrc then [.closed (((scanDecimal data).map Prod.fst).getD 0)]
  else if urc ∈ wifiUrcs ∧ strstr (chars "WIFI CONNECTED") data = false ∧
      strstr (chars "WIFI DISCONNECT") data = true then
    (List.range esp8266MaxSocketNum).map fun i => .closed i
  else []

/-- The flag that `urc_func` sets. -/
def urcFunc (urc : AtUrc) (data : Bytes) (flags : BitVec 32) : BitVec 32 :=
  if urc ∈ wifiUrcs ∧ strstr (chars "WIFI CONNECTED") data = true then atSetFlag flags wifiConnFlag
  else flags

/-- The driver, and what it has reported. -/
structure Receiver where
  driver : Esp8266
  events : List LinkEvent := []

/-- What a turn meets: whether there is memory for the data, and how much of the port is in the ring. -/
structure TurnEnv where
  memOk : Bool := true
  waiting : Bytes → Nat := fun _ => 0

/-- A turn of the loop of `client_parser`. -/
def parserTurn (recvBufsz : Nat) (e : TurnEnv) (s : Receiver) (port : Bytes) : Receiver × Bytes :=
  match atRecvReadline s.driver.sys.client recvBufsz e.waiting port with
  | (none, port) => (s, port)
  | (some line, port) =>
    let driver := s.driver.handleLine line
    match getUrcObj s.driver.sys.client line with
    | none => (⟨driver, s.events⟩, port)
    | some urc =>
      if urc = recvUrc then
        let r := urcRecvFunc e.memOk line port
        (⟨driver, s.events ++ r.1⟩, r.2)
      else (⟨{ driver with flags := urcFunc urc line driver.flags }, s.events ++ urcEvents urc line⟩, port)

/-- So many turns from the `k`-th on; behind each other threads change the driver. -/
def parserRun (recvBufsz : Nat) (env : Nat → TurnEnv) (between : Nat → Esp8266 → Esp8266) :
    (turns k : Nat) → Receiver → Bytes → Receiver × Bytes
  | 0, _, s, port => (s, port)
  | turns + 1, k, s, port =>
    let r := parserTurn recvBufsz (env k) s port
    parserRun recvBufsz env between turns (k + 1) { r.1 with driver := between k r.1.driver } r.2

/-! ## What comes in -/

/-- What the device sends: a line, a prompt that ends with the end sign, or data for a link, with its
number and the number of bytes in digits. -/
inductive Item where
  | line (text : Bytes)
  | prompt (text : Bytes) (sign : UInt8)
  | packet (fd len data : Bytes)

/-- Digits. -/
structure Digits (ds : Bytes) : Prop where
  notEmpty : ds ≠ []
  all : ∀ d ∈ ds, isDigit d = true

/-- A packet up to its colon. -/
def ipdHead (fd len : Bytes) : Bytes := chars "+IPD," ++ (fd ++ 44 :: len)

/-- Nothing inside ends a line. -/
structure Unbroken (sign : UInt8) (text : Bytes) : Prop where
  noNewline : 10 ∉ text
  noSign : sign = 0 ∨ sign ∉ text
  noData : 58 ∉ text ∨ ¬ chars "+IPD" <+: text

namespace Item

/-- What the port delivers. -/
def bytes : Item → Bytes
  | line text => text ++ [13] ++ [10]
  | prompt text sign => text ++ [sign]
  | packet fd len data => ipdHead fd len ++ [58] ++ data

/-- The item is one for a turn with this end sign and a buffer that keeps a NUL behind it. -/
def Fits (recvBufsz : Nat) (sign : UInt8) : Item → Prop
  | line text => Unbroken sign (text ++ [13]) ∧ text.length + 2 < recvBufsz
  | prompt text s => s = sign ∧ sign ≠ 0 ∧ sign ≠ 58 ∧ Unbroken sign text ∧ text.length + 1 < recvBufsz
  | packet fd len data => Digits fd ∧ Digits len ∧ digitsValue 10 0 len = data.length ∧ data ≠ [] ∧
      data.length < 2 ^ 32 ∧ (sign = 0 ∨ sign ∉ ipdHead fd len) ∧
      (ipdHead fd len).length + 1 < recvBufsz

end Item

/-- What a line reports that is no head of a packet. -/
def lineEvents (line : Bytes) : List LinkEvent :=
  ((getUrcObj { urcTable := urcTable } line).map fun urc => urcEvents urc line).getD []

/-- What an item says: the data of a packet, if there is memory for them. -/
def Item.reports (memOk : Bool) : Item → List LinkEvent
  | line text => lineEvents (text ++ [13] ++ [10])
  | prompt text sign => lineEvents (text ++ [sign])
  | packet fd _ data => if memOk then [.recv (digitsValue 10 0 fd) data] else []

/-- The items fit their turns, from the `k`-th on. -/
def AllFit (recvBufsz : Nat) (sign : Nat → UInt8) : (k : Nat) → List Item → Prop
  | _, [] => True
  | k, item :: items => item.Fits recvBufsz (sign k) ∧ AllFit recvBufsz sign (k + 1) items

/-- What they all say. -/
def allReports (env : Nat → TurnEnv) : (k : Nat) → List Item → List LinkEvent
  | _, [] => []
  | k, item :: items => item.reports (env k).memOk ++ allReports env (k + 1) items

/-! ## A line -/

variable {c : AtClient} {recvBufsz : Nat} {waiting : Bytes → Nat} {sign : UInt8}

theorem getLastD_append (done : Bytes) (ch : UInt8) : (done ++ [ch]).getLastD 0 = ch := by simp

/-- A line is read to its end, if none comes before. -/
theorem readlineLoop_of (e : UInt8) (rest : Bytes) (todo : Bytes) : ∀ done : Bytes,
    (∀ p ch, p ++ [ch] <+: todo → endsLine c ((done ++ p).getLastD 0) ch (done ++ p ++ [ch]) = false) →
    endsLine c ((done ++ todo).getLastD 0) e (done ++ todo ++ [e]) = true →
    (done ++ todo).length < recvBufsz →
    readlineLoop c recvBufsz waiting (todo ++ e :: rest) done (done.getLastD 0) false =
      (some (done ++ todo ++ [e]), rest) := by
  induction todo with
  | nil =>
    intro done _ hend hroom
    rw [List.append_nil] at hend hroom ⊢
    rw [List.nil_append, readlineLoop, if_pos hroom, if_pos hend, if_neg (by decide)]
  | cons ch todo ih =>
    intro done hgoes hend hroom
    have hfirst := hgoes [] ch ⟨todo, rfl⟩
    rw [List.append_nil] at hfirst
    have hlen : done.length < recvBufsz := by
      rw [List.length_append] at hroom
      omega
    have happ : done ++ ch :: todo = done ++ [ch] ++ todo := by rw [List.append_assoc, List.singleton_append]
    have hrest := ih (done ++ [ch]) (fun p d hp => by
      have h := hgoes (ch :: p) d ((List.prefix_cons_inj ch).mpr hp)
      rwa [show done ++ ch :: p = done ++ [ch] ++ p by rw [List.append_assoc, List.singleton_append]] at h)
      (happ ▸ hend) (happ ▸ hroom)
    rw [List.cons_append, readlineLoop, if_pos hlen, if_neg (by rw [hfirst]; decide)]
    rwa [getLastD_append, ← happ] at hrest

/-- Every entry but that for data ends with a line. -/
theorem urcTable_suffix : ∀ urc ∈ urcTable, 10 ∈ urc.cmdSuffix ∨ urc = recvUrc := by decide

/-- What an entry matches has its suffix and its prefix. -/
theorem getUrcObj_some {line : Bytes} {urc : AtUrc} (h : getUrcObj c line = some urc) :
    urc ∈ c.urcTable ∧ urc.cmdPrefix <+: line ∧ urc.cmdSuffix <:+ line := by
  have hmatch := List.find?_some h
  simp only [Bool.and_eq_true, decide_eq_true_eq, List.isPrefixOf_iff_prefix,
    List.isSuffixOf_iff_suffix] at hmatch
  exact ⟨List.mem_of_find?_eq_some h, hmatch.2.1, hmatch.2.2⟩

/-- No entry matches inside. -/
theorem getUrcObj_inside (htable : c.urcTable = urcTable) {text p : Bytes} (h : Unbroken sign text)
    (hp : p <+: text) : getUrcObj c p = none := by
  cases hurc : getUrcObj c p with
  | none => rfl
  | some urc =>
    obtain ⟨hmem, hstarts, hsuffix⟩ := getUrcObj_some hurc
    rw [htable] at hmem
    rcases urcTable_suffix urc hmem with hten | rfl
    · exact absurd (hp.subset (hsuffix.subset hten)) h.noNewline
    · rcases h.noData with hcolon | hplus
      · exact absurd (hp.subset (hsuffix.subset (List.mem_singleton.mpr rfl))) hcolon
      · exact absurd (hstarts.trans hp) hplus

/-- Inside nothing ends. -/
theorem endsLine_inside (htable : c.urcTable = urcTable) (hsign : c.endSign = sign) {text p : Bytes}
    {ch : UInt8} (h : Unbroken sign text) (hp : p ++ [ch] <+: text) (lastCh : UInt8) :
    endsLine c lastCh ch (p ++ [ch]) = false := by
  have hmem : ch ∈ text := hp.subset (List.mem_append_right p (List.mem_singleton.mpr rfl))
  have hten : ch ≠ 10 := by
    rintro rfl
    exact h.noNewline hmem
  have hnosign : sign = 0 ∨ ch ≠ sign := h.noSign.imp_right fun hnot heq => hnot (heq ▸ hmem)
  rw [endsLine, getUrcObj_inside htable h hp, hsign]
  rcases hnosign with hzero | hne
  · simp [hten, hzero]
  · simp [hten, hne]

/-- **A line without an end inside** is read to its end. -/
theorem readline_of (waiting : Bytes → Nat) (htable : c.urcTable = urcTable) (hsign : c.endSign = sign) {text : Bytes} {e : UInt8}
    (h : Unbroken sign text) (hend : endsLine c (text.getLastD 0) e (text ++ [e]) = true)
    (hroom : text.length < recvBufsz) (rest : Bytes) :
    atRecvReadline c recvBufsz waiting (text ++ e :: rest) = (some (text ++ [e]), rest) :=
  readlineLoop_of e rest text [] (fun _ _ hp => endsLine_inside htable hsign h hp _) hend hroom

/-! ## The head of a packet -/

theorem digit_ne {d : UInt8} (hd : isDigit d = true) : d ≠ 10 ∧ d ≠ 44 ∧ d ≠ 45 ∧ d ≠ 43 ∧ d ≠ 58 := by
  refine ⟨?_, ?_, ?_, ?_, ?_⟩ <;>
    · rintro rfl
      exact absurd hd (by decide)

theorem digit_notSpace {d : UInt8} (hd : isDigit d = true) : ¬ isSpace d = true := by
  have hlow := (isDigit_iff.mp hd).1
  rw [isSpace, Bool.or_eq_true, Bool.and_eq_true, decide_eq_true_iff, decide_eq_true_iff,
    decide_eq_true_iff, UInt8.le_iff_toNat_le, UInt8.le_iff_toNat_le]
  rintro (rfl | ⟨-, hhigh⟩)
  · exact absurd hlow (by decide)
  · exact absurd (hlow.trans hhigh) (by decide)

/-- Digits are a number. -/
theorem scanDecimal_digits {ds : Bytes} (h : Digits ds) {e : UInt8} (he : digitOf 10 e = none)
    (rest : Bytes) : scanDecimal (ds ++ e :: rest) = some ((digitsValue 10 0 ds : Int), e :: rest) := by
  obtain ⟨hne, hall⟩ := h
  have hbehind : (ds ++ e :: rest).dropWhile (fun c => (digitOf 10 c).isSome) = e :: rest := by
    rw [List.dropWhile_append_of_pos fun d hd => by rw [digitOf_digit (hall d hd)]; rfl]
    exact List.dropWhile_cons_of_neg (by rw [he]; decide)
  obtain ⟨d, ds, rfl⟩ := List.exists_cons_of_ne_nil hne
  have hd := hall d List.mem_cons_self
  obtain ⟨-, -, hminus, hplus, -⟩ := digit_ne hd
  have hspace := digit_notSpace hd
  have hsign : signOf ((d :: ds ++ e :: rest).dropWhile isSpace) = (false, d :: ds ++ e :: rest) := by
    rw [List.cons_append, List.dropWhile_cons_of_neg hspace, signOf, if_neg hminus, if_neg hplus]
  have hhead : (d :: ds ++ e :: rest).head?.bind (digitOf 10) = some (d.toNat - 48) := digitOf_digit hd
  rw [scanDecimal]
  simp only [hsign, hhead, hbehind, digitsValue_stop he]
  rfl

variable {fd len : Bytes}

/-- Both numbers are read. -/
theorem scanIpd_head (hfd : Digits fd) (hlen : Digits len) :
    scanIpd (ipdHead fd len ++ [58]) =
      (some (digitsValue 10 0 fd : Int), (((digitsValue 10 0 len : Nat) : Int) % 2 ^ 32).toNat) := by
  have hline : ipdHead fd len ++ [58] = chars "+IPD," ++ (fd ++ 44 :: (len ++ [58])) := by
    rw [ipdHead, List.append_assoc, List.append_assoc, List.cons_append]
  have hprefix : (chars "+IPD,").isPrefixOf (chars "+IPD," ++ (fd ++ 44 :: (len ++ [58]))) = true :=
    List.isPrefixOf_iff_prefix.mpr ⟨_, rfl⟩
  have hdrop : (chars "+IPD," ++ (fd ++ 44 :: (len ++ [58]))).drop 5 = fd ++ 44 :: (len ++ [58]) := rfl
  rw [hline, scanIpd, if_pos hprefix, hdrop, scanDecimal_digits hfd (by decide)]
  simp only
  rw [if_pos List.head?_cons, List.tail_cons, scanDecimal_digits hlen (by decide)]
  rfl

theorem notMem_ipdHead (hfd : Digits fd) (hlen : Digits len) {x : UInt8} (hx : isDigit x = false)
    (hcomma : x ≠ 44) (hplus : x ∉ chars "+IPD,") : x ∉ ipdHead fd len := by
  have hdigits : ∀ {ds : Bytes}, Digits ds → x ∉ ds := fun h hmem => by
    have hd := h.all x hmem
    rw [hx] at hd
    cases hd
  rw [ipdHead, List.mem_append, List.mem_append, List.mem_cons]
  rintro (h | h | h | h)
  · exact hplus h
  · exact hdigits hfd h
  · exact hcomma h
  · exact hdigits hlen h

/-- Its entry is the one that matches. -/
theorem getUrcObj_head (htable : c.urcTable = urcTable) (hfd : Digits fd) (hlen : Digits len) :
    getUrcObj c (ipdHead fd len ++ [58]) = some recvUrc := by
  have hten : (10 : UInt8) ∉ ipdHead fd len ++ [58] := by
    rw [List.mem_append, not_or]
    exact ⟨notMem_ipdHead hfd hlen (by decide) (by decide) (by decide), by decide⟩
  rw [getUrcObj, htable]
  refine List.find?_eq_some_iff_append.mpr ⟨?_, sendUrcs ++ [⟨chars "Recv", chars "bytes\r\n"⟩, closeUrc],
    [⟨chars "busy p", chars "\r\n"⟩, ⟨chars "busy s", chars "\r\n"⟩] ++ wifiUrcs, rfl, fun urc hurc => ?_⟩
  · have hprefix : recvUrc.cmdPrefix <+: ipdHead fd len ++ [58] := ⟨44 :: (fd ++ 44 :: len) ++ [58], rfl⟩
    have hsuffix : recvUrc.cmdSuffix <:+ ipdHead fd len ++ [58] := ⟨ipdHead fd len, rfl⟩
    have hroom : recvUrc.cmdPrefix.length + recvUrc.cmdSuffix.length ≤ (ipdHead fd len ++ [58]).length := by
      simp [ipdHead, recvUrc, chars]
    rw [Bool.and_eq_true, Bool.and_eq_true, decide_eq_true_eq]
    exact ⟨hroom, List.isPrefixOf_iff_prefix.mpr hprefix, List.isSuffixOf_iff_suffix.mpr hsuffix⟩
  · have hline : ∀ urc ∈ sendUrcs ++ [⟨chars "Recv", chars "bytes\r\n"⟩, closeUrc], 10 ∈ urc.cmdSuffix := by
      decide
    have hnot : urc.cmdSuffix.isSuffixOf (ipdHead fd len ++ [58]) = false := by
      rw [Bool.eq_false_iff]
      exact fun h => hten ((List.isSuffixOf_iff_suffix.mp h).subset (hline urc hurc))
    rw [hnot, Bool.and_false, Bool.and_false]
    rfl

/-- The head of a packet has no end inside. -/
theorem unbroken_ipdHead (hfd : Digits fd) (hlen : Digits len) (hsign : sign = 0 ∨ sign ∉ ipdHead fd len) :
    Unbroken sign (ipdHead fd len) :=
  ⟨notMem_ipdHead hfd hlen (by decide) (by decide) (by decide), hsign,
    .inl (notMem_ipdHead hfd hlen (by decide) (by decide) (by decide))⟩

/-- Data are read away whole. -/
theorem drainLoop_eq (left : Nat) {port : Bytes} (h : left ≤ port.length) :
    drainLoop left port = port.drop left := by
  induction left using Nat.strong_induction_on generalizing port with
  | h left ih =>
    rw [drainLoop]
    by_cases hzero : left = 0
    · rw [if_pos hzero, hzero, List.drop_zero]
    rw [if_neg hzero]
    split
    · rename_i hmore
      rw [atClientObjRecv, if_pos (by omega), ih (left - 8) (by omega)
        (by rw [List.length_drop]; omega), List.drop_drop]
      congr 1
      omega
    · rw [atClientObjRecv, if_pos h]

/-! ## A turn -/

variable {e : TurnEnv} {s : Receiver}

/-- A packet's data are taken whole. -/
theorem urcRecvFunc_head (hfd : Digits fd) (hlen : Digits len) {data : Bytes} (memOk : Bool)
    (hvalue : digitsValue 10 0 len = data.length) (hdata : data ≠ []) (hshort : data.length < 2 ^ 32)
    (rest : Bytes) : urcRecvFunc memOk (ipdHead fd len ++ [58]) (data ++ rest) =
      (if memOk then [.recv (digitsValue 10 0 fd) data] else [], rest) := by
  have hpos := List.length_pos_of_ne_nil hdata
  have hmod : (((digitsValue 10 0 len : Nat) : Int) % 2 ^ 32).toNat = data.length := by
    rw [hvalue]
    omega
  have hle : data.length ≤ (data ++ rest).length := by
    rw [List.length_append]
    omega
  rw [urcRecvFunc, scanIpd_head hfd hlen, hmod]
  simp only
  rw [if_neg (by omega), drainLoop_eq _ hle, atClientObjRecv, if_pos hle, List.take_left', List.drop_left']
  · cases memOk <;> rfl
  · rfl
  · rfl

/-- A line that does not end with a colon is not for data, and is handled by its entry. -/
theorem parserTurn_line (htable : s.driver.sys.client.urcTable = urcTable) {port line rest : Bytes}
    (hread : atRecvReadline s.driver.sys.client recvBufsz e.waiting port = (some line, rest))
    (hcolon : ¬ [58] <:+ line) : (parserTurn recvBufsz e s port).2 = rest ∧
      (parserTurn recvBufsz e s port).1.events = s.events ++ lineEvents line ∧
      (parserTurn recvBufsz e s port).1.driver.sys = parseLine s.driver.sys line := by
  have hfound : getUrcObj { urcTable := urcTable } line = getUrcObj s.driver.sys.client line := by
    rw [getUrcObj, getUrcObj, htable]
  rw [parserTurn, hread, lineEvents, hfound]
  simp only
  cases hurc : getUrcObj s.driver.sys.client line with
  | none => exact ⟨rfl, (List.append_nil _).symm, rfl⟩
  | some urc =>
    have hne : urc ≠ recvUrc := by
      rintro rfl
      exact hcolon (getUrcObj_some hurc).2.2
    simp only
    rw [if_neg hne]
    exact ⟨rfl, rfl, rfl⟩

theorem not_suffix_colon {text : Bytes} {x : UInt8} (hx : x ≠ 58) : ¬ [58] <:+ text ++ [x] := by
  rintro ⟨before, h⟩
  obtain ⟨-, heq⟩ := List.append_inj' h rfl
  exact hx (List.cons.inj heq).1.symm

/-- **One turn takes one item**, whatever is behind it, and reports what it says. -/
theorem parserTurn_item (htable : s.driver.sys.client.urcTable = urcTable)
    (hsign : s.driver.sys.client.endSign = sign) {item : Item} (h : item.Fits recvBufsz sign)
    (rest : Bytes) : (parserTurn recvBufsz e s (item.bytes ++ rest)).2 = rest ∧
      (parserTurn recvBufsz e s (item.bytes ++ rest)).1.events = s.events ++ item.reports e.memOk ∧
      (parserTurn recvBufsz e s (item.bytes ++ rest)).1.driver.sys.client.endSign = sign ∧
      (parserTurn recvBufsz e s (item.bytes ++ rest)).1.driver.sys.client.urcTable = urcTable := by
  cases item with
  | line text =>
    obtain ⟨hunbroken, hroom⟩ := h
    have hend : endsLine s.driver.sys.client ((text ++ [13]).getLastD 0) 10 (text ++ [13] ++ [10]) = true := by
      rw [endsLine, getLastD_append]
      rfl
    have hshort : (text ++ [13]).length < recvBufsz := by
      rw [List.length_append, List.length_singleton]
      omega
    have hread := readline_of e.waiting htable hsign hunbroken hend hshort rest
    rw [Item.bytes, List.append_assoc _ [10], List.singleton_append]
    obtain ⟨hport, hevents, hsys⟩ := parserTurn_line htable hread (not_suffix_colon (by decide))
    obtain ⟨hkeptSign, hkeptTable⟩ := parseLine_keeps s.driver.sys (text ++ [13] ++ [10])
    exact ⟨hport, hevents, by rw [hsys, hkeptSign, hsign], by rw [hsys, hkeptTable, htable]⟩
  | prompt text x =>
    obtain ⟨rfl, hzero, hcolon, hunbroken, hroom⟩ := h
    have hend : endsLine s.driver.sys.client (text.getLastD 0) x (text ++ [x]) = true := by
      simp [endsLine, hsign, hzero]
    have hshort : text.length < recvBufsz := by omega
    have hread := readline_of e.waiting htable hsign hunbroken hend hshort rest
    rw [Item.bytes, List.append_assoc, List.singleton_append]
    obtain ⟨hport, hevents, hsys⟩ := parserTurn_line htable hread (not_suffix_colon hcolon)
    obtain ⟨hkeptSign, hkeptTable⟩ := parseLine_keeps s.driver.sys (text ++ [x])
    exact ⟨hport, hevents, by rw [hsys, hkeptSign, hsign], by rw [hsys, hkeptTable, htable]⟩
  | packet fd len data =>
    obtain ⟨hfd, hlen, hvalue, hdata, hsize, hnosign, hroom⟩ := h
    have hurc := getUrcObj_head htable hfd hlen
    have hend : endsLine s.driver.sys.client ((ipdHead fd len).getLastD 0) 58 (ipdHead fd len ++ [58]) =
        true := by
      rw [endsLine, hurc, Option.isSome_some, Bool.or_true]
    have hshort : (ipdHead fd len).length < recvBufsz := by omega
    have hread := readline_of e.waiting htable hsign (unbroken_ipdHead hfd hlen hnosign) hend hshort (data ++ rest)
    obtain ⟨hkeptSign, hkeptTable⟩ := parseLine_keeps s.driver.sys (ipdHead fd len ++ [58])
    rw [Item.bytes, List.append_assoc, List.append_assoc, List.singleton_append, parserTurn, hread]
    simp only [hurc]
    rw [if_pos trivial, urcRecvFunc_head hfd hlen e.memOk hvalue hdata hsize]
    exact ⟨rfl, rfl, hkeptSign.trans hsign, hkeptTable.trans htable⟩

/-! ## A run -/

/-- Other threads set the end sign for the next turn, and leave the table. -/
def SetsSign (sign : Nat → UInt8) (between : Nat → Esp8266 → Esp8266) : Prop :=
  ∀ k d, d.sys.client.urcTable = urcTable → d.sys.client.endSign = sign k →
    (between k d).sys.client.urcTable = urcTable ∧ (between k d).sys.client.endSign = sign (k + 1)

/-- **Whatever the data are**: in as many turns as there are items the parser takes just these, and what
is reported is what they say, in order; data for which there is no memory are gone, and the next item is
taken all the same. -/
theorem parserRun_items (env : Nat → TurnEnv) {between : Nat → Esp8266 → Esp8266} {sign : Nat → UInt8}
    (hbetween : SetsSign sign between) {items : List Item} {k : Nat} {s : Receiver}
    (htable : s.driver.sys.client.urcTable = urcTable) (hsign : s.driver.sys.client.endSign = sign k)
    (hfit : AllFit recvBufsz sign k items) (rest : Bytes) :
    (parserRun recvBufsz env between items.length k s (items.flatMap Item.bytes ++ rest)).2 = rest ∧
    (parserRun recvBufsz env between items.length k s (items.flatMap Item.bytes ++ rest)).1.events =
      s.events ++ allReports env k items := by
  induction items generalizing k s with
  | nil => exact ⟨rfl, (List.append_nil _).symm⟩
  | cons item items ih =>
    obtain ⟨hfirst, hfit⟩ := hfit
    obtain ⟨hport, hevents, hkeptSign, hkeptTable⟩ :=
      parserTurn_item (e := env k) htable hsign hfirst (items.flatMap Item.bytes ++ rest)
    rw [List.flatMap_cons, List.append_assoc, List.length_cons, parserRun]
    generalize parserTurn recvBufsz (env k) s (item.bytes ++ (items.flatMap Item.bytes ++ rest)) = r at *
    obtain ⟨hnextTable, hnextSign⟩ := hbetween k r.1.driver hkeptTable hkeptSign
    obtain ⟨hrest, hall⟩ := ih (s := { r.1 with driver := between k r.1.driver }) hnextTable hnextSign hfit
    simp only
    rw [hport]
    refine ⟨hrest, hall.trans ?_⟩
    rw [hevents, List.append_assoc, allReports]

/-- A driver with the table, and nothing asked. -/
def portDriver : Esp8266 := ⟨{ client := { urcTable := urcTable }, resps := fun _ => ⟨[], 0, 0⟩ }, 0⟩

/-- The end sign is set for the third turn. -/
def promptSign (k : Nat) : UInt8 := if k = 2 then 62 else 0

/-- By another thread. -/
def setsPrompt (k : Nat) (d : Esp8266) : Esp8266 := d.atSetEndSign (promptSign (k + 1))

theorem setsPrompt_sets : SetsSign promptSign setsPrompt := fun _ _ htable _ => ⟨htable, rfl⟩

/-- A line, data that look like a confirmation, a prompt, what is behind it, and data that look like the
head of a packet. -/
def mixedItems : List Item :=
  [.line (chars "WIFI GOT IP"), .packet (chars "0") (chars "11") (chars "\r\nSEND OK\r\n"),
    .prompt [] 62, .line (chars " "), .packet (chars "0") (chars "5") (chars "+IPD,")]

theorem mixedItems_fit : AllFit 1024 promptSign 0 mixedItems :=
  ⟨⟨⟨by decide, .inl rfl, .inl (by decide)⟩, by decide⟩,
    ⟨⟨by decide, by decide⟩, ⟨by decide, by decide⟩, by decide, by decide, by decide, .inl rfl, by decide⟩,
    ⟨rfl, by decide, by decide, ⟨by decide, .inr (by decide), .inl (by decide)⟩, by decide⟩,
    ⟨⟨by decide, .inl rfl, .inl (by decide)⟩, by decide⟩,
    ⟨⟨by decide, by decide⟩, ⟨by decide, by decide⟩, by decide, by decide, by decide, .inl rfl, by decide⟩,
    trivial⟩

/-- Neither is taken for one. -/
theorem parserRun_mixed :
    (parserRun 1024 (fun _ => {}) setsPrompt mixedItems.length 0 ⟨portDriver, []⟩
      (mixedItems.flatMap Item.bytes ++ [])).2 = [] ∧
    (parserRun 1024 (fun _ => {}) setsPrompt mixedItems.length 0 ⟨portDriver, []⟩
      (mixedItems.flatMap Item.bytes ++ [])).1.events =
        [] ++ allReports (fun _ => {}) 0 mixedItems :=
  parserRun_items _ setsPrompt_sets rfl rfl mixedItems_fit []

end QcloudIot.At
