import QcloudIot.At.Slots

/-!
# The receive list of an AT socket

Packets are put at the end of a socket's list as the device reports them, and `at_socket_recv` takes
bytes from its front: whole packets, whose nodes go, and part of one, whose index moves on. A packet
read to its very end by a read that asked for no more stays in the list, with nothing left to read.

* `atRecvpktLoop_spec`: the loop takes the first bytes of all that the list holds;
* `event_held`, `read_held`: what an event and a read do to the bytes held;
* **`atSocketRecv_fifo`**: over any run a socket's list is a queue of bytes;
* `read_without_iterator`: the read that is turned down.
-/

namespace QcloudIot.At

open Lib

/-! ## The list -/

/-- The bytes of a list that are still to be read. -/
def buffered (pktList : List AtRecvPkt) : Bytes :=
  pktList.flatMap fun pkt => pkt.buff.drop pkt.bfszIndex

/-- The bytes that `_at_recvpkt_put` takes: all of the packet, or none. -/
def accepted (rlist : List AtRecvPkt) (buff : Bytes) (pktOk nodeOk : Bool) : Bytes :=
  if (atRecvpktPut rlist buff pktOk nodeOk).1 < 0 then [] else buff

theorem atRecvpktPut_buffered (rlist : List AtRecvPkt) (buff : Bytes) (pktOk nodeOk : Bool) :
    buffered (atRecvpktPut rlist buff pktOk nodeOk).2 =
      buffered rlist ++ accepted rlist buff pktOk nodeOk := by
  have hnone : buffered rlist = buffered rlist ++ if qcloudErrFailure < 0 then [] else buff :=
    (List.append_nil _).symm
  unfold accepted atRecvpktPut
  by_cases hfull : rlist.length > maxRecvPktPerChain
  · rw [if_pos hfull]
    exact hnone
  rw [if_neg hfull]
  cases pktOk with
  | false => exact hnone
  | true =>
    cases nodeOk with
    | false => exact hnone
    | true =>
      have hpos : ¬ (buff.length : Int) < 0 := by omega
      simp [buffered, hpos]

/-- **The loop** takes the first bytes of the list. -/
theorem atRecvpktLoop_spec (pktList : List AtRecvPkt) (want : Nat) :
    (atRecvpktLoop pktList want).1 = (buffered pktList).take want ∧
      buffered (atRecvpktLoop pktList want).2 = (buffered pktList).drop want := by
  induction pktList generalizing want with
  | nil => simp [atRecvpktLoop, buffered]
  | cons pkt rest ih =>
    have hcons : buffered (pkt :: rest) = pkt.buff.drop pkt.bfszIndex ++ buffered rest :=
      List.flatMap_cons
    rw [atRecvpktLoop, hcons]
    dsimp only
    split
    · rename_i hpage
      refine ⟨(List.take_append_of_le_length hpage).symm, ?_⟩
      have hrest : buffered ({ pkt with bfszIndex := pkt.bfszIndex + want } :: rest) =
          pkt.buff.drop (pkt.bfszIndex + want) ++ buffered rest := List.flatMap_cons
      rw [hrest, List.drop_append_of_le_length hpage, List.drop_drop]
    · rename_i hpage
      obtain ⟨htake, hdrop⟩ := ih (want - (pkt.buff.drop pkt.bfszIndex).length)
      have hle : (pkt.buff.drop pkt.bfszIndex).length ≤ want := by omega
      rw [List.take_append, List.drop_append, List.take_of_length_le hle, List.drop_of_length_le hle,
        List.nil_append]
      exact ⟨by rw [htake], hdrop⟩

/-- **A read** of a list with packets, for which an iterator is allocated. -/
theorem atRecvpktGet_spec {pktList : List AtRecvPkt} (h : pktList ≠ []) (len : Nat) :
    ∃ rest, atRecvpktGet pktList len true =
        (((min len (buffered pktList).length : Nat) : Int), (buffered pktList).take len, rest) ∧
      buffered rest = (buffered pktList).drop len := by
  obtain ⟨htake, hdrop⟩ := atRecvpktLoop_spec pktList len
  refine ⟨_, ?_, hdrop⟩
  unfold atRecvpktGet
  rw [if_neg (by rwa [List.length_eq_zero_iff]), if_neg (by decide), ← htake]
  dsimp only
  rw [htake, List.length_take]

/-- Any read takes some of the first bytes, and leaves the others. -/
theorem atRecvpktGet_buffered (pktList : List AtRecvPkt) (len : Nat) (iterOk : Bool) :
    buffered pktList =
      (atRecvpktGet pktList len iterOk).2.1 ++ buffered (atRecvpktGet pktList len iterOk).2.2 := by
  unfold atRecvpktGet
  split
  · rfl
  split
  · rfl
  · obtain ⟨htake, hdrop⟩ := atRecvpktLoop_spec pktList len
    dsimp only
    rw [htake, hdrop, List.take_append_drop]

/-! ## One entry of the table -/

/-- The bytes that wait at an entry. -/
def AtSockets.held (s : AtSockets) (i : Fin maxAtSocketNum) : Bytes :=
  ((s.ctxs i).recvpktList.map buffered).getD []

/-- What an event puts into the list of an entry. -/
def AtSockets.eventPut (s : AtSockets) (i : Fin maxAtSocketNum) : DeviceEvent → Bytes
  | .recv fd (some buff) pktOk nodeOk =>
    if atSocketFind s (fd + maxAtSocketNum) = some i then
      accepted ((s.ctxs i).recvpktList.getD []) buff pktOk nodeOk
    else []
  | .recv _ none _ _ => []
  | .closed _ => []

def AtSockets.eventsPut (s : AtSockets) (i : Fin maxAtSocketNum) : List DeviceEvent → Bytes
  | [] => []
  | e :: es => s.eventPut i e ++ ((s.event e).map fun s => s.eventsPut i es).getD []

/-- The entry has an open socket with a list, and the driver can receive. -/
structure Receives (s : AtSockets) (i : Fin maxAtSocketNum) (fd : Int) : Prop where
  consistent : Consistent s
  connected : (s.ctxs i).state = .connected
  fd_eq : (s.ctxs i).fd = fd
  list : (s.ctxs i).recvpktList.isSome = true
  driver : (s.ctxs i).devOp.any (·.recvTimeout) = true

variable {s s' : AtSockets} {i : Fin maxAtSocketNum} {fd : Int}

/-- The socket is found at its entry. -/
theorem Receives.find (h : Receives s i fd) : atSocketFind s fd = some i := by
  rcases hfind : atSocketFind s fd with - | j
  · have hnot := AtSockets.find_none hfind i
    rw [h.fd_eq] at hnot
    simp at hnot
  · have hfd : (s.ctxs j).fd = fd := of_decide_eq_true (AtSockets.of_find hfind)
    obtain ⟨hj, -⟩ | ⟨-, hunused⟩ := h.consistent.fd_of j
    · rw [h.consistent.own j i hj h.connected (hfd.trans h.fd_eq.symm)]
    · obtain ⟨-, hle⟩ | ⟨hnot, -⟩ := h.consistent.fd_of i
      · rw [h.fd_eq, ← hfd, hunused] at hle
        simp only [maxAtSocketNum, unusedSocket] at hle
        omega
      · exact absurd h.connected hnot

/-- An entry with another list, and one that another entry's change leaves alone. -/
theorem Receives.set_list (h : Receives s i fd) (pktList : List AtRecvPkt) :
    Receives (s.set i { s.ctxs i with recvpktList := some pktList }) i fd ∧
      (s.set i { s.ctxs i with recvpktList := some pktList }).held i = buffered pktList := by
  obtain ⟨hcons, hconn, hfd, -, hdriver⟩ := h
  refine ⟨⟨hcons.set_same rfl rfl, ?_, ?_, ?_, ?_⟩, ?_⟩
  all_goals first | rw [AtSockets.set_self] | rw [AtSockets.held, AtSockets.set_self]
  exacts [hconn, hfd, rfl, hdriver, rfl]

theorem Receives.of_eq (h : Receives s i fd) (hcons : Consistent s')
    (heq : s'.ctxs i = s.ctxs i) : Receives s' i fd ∧ s'.held i = s.held i := by
  refine ⟨⟨hcons, ?_, ?_, ?_, ?_⟩, by rw [AtSockets.held, heq, AtSockets.held]⟩
  all_goals rw [heq]
  exacts [h.connected, h.fd_eq, h.list, h.driver]

/-- **One event**, unless it closes the socket, puts its bytes behind those held. -/
theorem event_held (h : Receives s i fd) {e : DeviceEvent} (he : s.event e = some s')
    (hopen : (s'.ctxs i).state = .connected) :
    Receives s' i fd ∧ s'.held i = s.held i ++ s.eventPut i e := by
  have hcons : Consistent s' := (event_keeps e he h.consistent).1
  cases e with
  | closed link =>
    have hsame : s'.ctxs i = s.ctxs i := by
      simp only [AtSockets.event, Option.some.injEq] at he
      subst he
      unfold atSocketClosedCb at hopen ⊢
      split at hopen
      · rfl
      · rename_i j _
        by_cases hj : i = j
        · rw [hj, AtSockets.set_self] at hopen
          cases hopen
        · exact s.set_other _ hj
    obtain ⟨hrec, hheld⟩ := h.of_eq hcons hsame
    exact ⟨hrec, by rw [hheld, AtSockets.eventPut, List.append_nil]⟩
  | recv link buff pktOk nodeOk =>
    cases buff with
    | none =>
      cases he
      exact ⟨h, (List.append_nil _).symm⟩
    | some buff =>
      simp only [AtSockets.event, atSocketRecvCb] at he
      rw [AtSockets.eventPut]
      rcases hfind : atSocketFind s (link + maxAtSocketNum) with - | j <;> rw [hfind] at he
      · cases he
      dsimp only at he
      rcases hlist : (s.ctxs j).recvpktList with - | rlist <;> rw [hlist] at he
      · cases he
      cases he
      by_cases hj : i = j
      · subst hj
        obtain ⟨hrec, hheld⟩ := h.set_list (atRecvpktPut rlist buff pktOk nodeOk).2
        have hwas : s.held i = buffered rlist := by rw [AtSockets.held, hlist]; rfl
        rw [if_pos rfl, hlist, hwas]
        exact ⟨hrec, hheld.trans (atRecvpktPut_buffered rlist buff pktOk nodeOk)⟩
      · obtain ⟨hrec, hheld⟩ := h.of_eq hcons (s.set_other _ hj)
        have hne : ¬ some j = some i := fun heq => hj (Option.some.inj heq).symm
        rw [if_neg hne, List.append_nil]
        exact ⟨hrec, hheld⟩

/-- A socket that is open after an event was open before. -/
theorem event_connected {e : DeviceEvent} (he : s.event e = some s')
    (hopen : (s'.ctxs i).state = .connected) : (s.ctxs i).state = .connected := by
  cases e with
  | closed link =>
    simp only [AtSockets.event, Option.some.injEq] at he
    subst he
    unfold atSocketClosedCb at hopen
    split at hopen
    · exact hopen
    · rename_i j _
      by_cases hj : i = j
      · rw [hj, AtSockets.set_self] at hopen
        cases hopen
      · rwa [s.set_other _ hj] at hopen
  | recv link buff pktOk nodeOk =>
    simp only [AtSockets.event, atSocketRecvCb] at he
    split at he
    · cases he
      exact hopen
    split at he
    · cases he
    · rename_i j _
      split at he
      · cases he
      · cases he
        by_cases hj : i = j
        · rw [hj, AtSockets.set_self] at hopen
          rw [hj]
          exact hopen
        · rwa [s.set_other _ hj] at hopen

theorem events_connected (es : List DeviceEvent) (hes : s.events es = some s')
    (hopen : (s'.ctxs i).state = .connected) : (s.ctxs i).state = .connected := by
  induction es generalizing s with
  | nil =>
    cases hes
    exact hopen
  | cons e es ih =>
    obtain ⟨t, he, hrest⟩ := Option.bind_eq_some_iff.mp hes
    exact event_connected he (ih hrest)

theorem events_held (h : Receives s i fd) (es : List DeviceEvent) (hes : s.events es = some s')
    (hopen : (s'.ctxs i).state = .connected) :
    Receives s' i fd ∧ s'.held i = s.held i ++ s.eventsPut i es := by
  induction es generalizing s with
  | nil =>
    cases hes
    exact ⟨h, (List.append_nil _).symm⟩
  | cons e es ih =>
    obtain ⟨t, he, hrest⟩ := Option.bind_eq_some_iff.mp hes
    obtain ⟨ht, hput⟩ := event_held h he (events_connected es hrest hopen)
    obtain ⟨hrec, hheld⟩ := ih ht hrest
    refine ⟨hrec, ?_⟩
    rw [hheld, hput, AtSockets.eventsPut, he, List.append_assoc]
    rfl

/-! ## Reads -/

/-- A read comes to the driver's `recv_timeout`. -/
def AtSockets.waits (s : AtSockets) (fd : Int) : Bool :=
  match atSocketFind s fd with
  | none => false
  | some i => (s.ctxs i).devOp.any (·.recvTimeout) && (s.ctxs i).state = .connected &&
      (s.ctxs i).recvpktList = some []

/-- What comes in during a read: only a read that waits takes the time. -/
def AtSockets.duringRead (s : AtSockets) (fd : Int) (during : List DeviceEvent) : List DeviceEvent :=
  if s.waits fd then during else []

theorem waits_of_find (h : atSocketFind s fd = some i) :
    s.waits fd = ((s.ctxs i).devOp.any (·.recvTimeout) && (s.ctxs i).state = .connected &&
      (s.ctxs i).recvpktList = some []) := by
  rw [AtSockets.waits, h]

/-- **What a read does**: nothing, or it takes from the list of an entry, as it is after the wait. -/
theorem atSocketRecv_cases {r : Int} {len : Nat} {during : List DeviceEvent} {iterOk : Bool}
    {bytes : Bytes} (h : atSocketRecv s fd len during iterOk = some (r, bytes, s')) :
    (s' = s ∧ bytes = [] ∧ s.duringRead fd during = []) ∨
      ∃ j t pktList, atSocketFind s fd = some j ∧ s.events (s.duringRead fd during) = some t ∧
        (t.ctxs j).recvpktList = some pktList ∧ bytes = (atRecvpktGet pktList len iterOk).2.1 ∧
        s' = t.set j { t.ctxs j with recvpktList := some (atRecvpktGet pktList len iterOk).2.2 } := by
  unfold atSocketRecv at h
  rcases hfind : atSocketFind s fd with - | j <;> rw [hfind] at h
  · cases h
    exact .inl ⟨rfl, rfl, by rw [AtSockets.duringRead, AtSockets.waits, hfind]; rfl⟩
  have hwaits := waits_of_find hfind
  dsimp only at h
  rcases hop : (s.ctxs j).devOp with - | op <;> rw [hop] at h hwaits
  · cases h
    exact .inl ⟨rfl, rfl, by rw [AtSockets.duringRead, hwaits]; rfl⟩
  dsimp only [Option.any_some] at h hwaits
  by_cases hrecv : op.recvTimeout = true
  swap
  · rw [if_pos hrecv] at h
    cases h
    exact .inl ⟨rfl, rfl, by simp [AtSockets.duringRead, hwaits, hrecv]⟩
  rw [if_neg (not_not_intro hrecv)] at h
  by_cases hconn : (s.ctxs j).state = .connected
  swap
  · rw [if_pos hconn] at h
    cases h
    exact .inl ⟨rfl, rfl, by simp [AtSockets.duringRead, hwaits, hconn]⟩
  rw [if_neg (not_not_intro hconn)] at h
  rcases hlist : (s.ctxs j).recvpktList with - | pktList <;> rw [hlist] at h hwaits
  · cases h
  dsimp only at h
  obtain ⟨t, hevents, hget⟩ := Option.bind_eq_some_iff.mp h
  rcases htlist : (t.ctxs j).recvpktList with - | rest <;> rw [htlist] at hget
  · cases hget
  cases hget
  refine .inr ⟨j, t, rest, rfl, ?_, htlist, rfl, rfl⟩
  rw [AtSockets.duringRead, hwaits, hrecv, decide_eq_true hconn]
  cases pktList with
  | nil => exact hevents
  | cons pkt rest => exact hevents

/-- **One read**, on whichever socket: what it gets from the entry's list was its front. -/
theorem read_held (h : Receives s i fd) {fd' r : Int} {len : Nat} {during : List DeviceEvent}
    {iterOk : Bool} {bytes : Bytes} (hread : atSocketRecv s fd' len during iterOk = some (r, bytes, s'))
    (hopen : (s'.ctxs i).state = .connected) :
    Receives s' i fd ∧ s.held i ++ s.eventsPut i (s.duringRead fd' during) =
      (if atSocketFind s fd' = some i then bytes else []) ++ s'.held i := by
  obtain ⟨rfl, rfl, hnone⟩ | ⟨j, t, pktList, hfind, hevents, hlist, hbytes, rfl⟩ :=
    atSocketRecv_cases hread
  · rw [hnone, ite_self]
    exact ⟨h, List.append_nil _⟩
  rw [hfind]
  by_cases hj : i = j
  · subst hj
    rw [AtSockets.set_self] at hopen
    obtain ⟨ht, hheld⟩ := events_held h _ hevents hopen
    obtain ⟨hrec, hrest⟩ := ht.set_list (atRecvpktGet pktList len iterOk).2.2
    have hwas : t.held i = buffered pktList := by rw [AtSockets.held, hlist]; rfl
    rw [if_pos rfl, hrest, ← hheld, hwas, hbytes]
    exact ⟨hrec, atRecvpktGet_buffered pktList len iterOk⟩
  · rw [t.set_other _ hj] at hopen
    obtain ⟨ht, hheld⟩ := events_held h _ hevents hopen
    have hcons : Consistent (t.set j { t.ctxs j with
        recvpktList := some (atRecvpktGet pktList len iterOk).2.2 }) := ht.consistent.set_same rfl rfl
    obtain ⟨hrec, hrest⟩ := ht.of_eq hcons (t.set_other _ hj)
    have hne : ¬ some j = some i := fun heq => hj (Option.some.inj heq).symm
    rw [if_neg hne, hrest, ← hheld]
    exact ⟨hrec, rfl⟩

theorem read_connected {r : Int} {len : Nat} {during : List DeviceEvent} {iterOk : Bool}
    {bytes : Bytes} (hread : atSocketRecv s fd len during iterOk = some (r, bytes, s'))
    (hopen : (s'.ctxs i).state = .connected) : (s.ctxs i).state = .connected := by
  obtain ⟨rfl, -, -⟩ | ⟨j, t, pktList, -, hevents, -, -, rfl⟩ := atSocketRecv_cases hread
  · exact hopen
  · refine events_connected _ hevents ?_
    by_cases hj : i = j
    · rw [hj, AtSockets.set_self] at hopen
      rw [hj]
      exact hopen
    · rwa [t.set_other _ hj] at hopen

/-- **A read of an open socket**, for the list as it is after the wait. -/
theorem atSocketRecv_eq (h : Receives s i fd) {during : List DeviceEvent} {t : AtSockets}
    {pktList : List AtRecvPkt} (hevents : s.events (s.duringRead fd during) = some t)
    (hlist : (t.ctxs i).recvpktList = some pktList) (len : Nat) (iterOk : Bool) :
    atSocketRecv s fd len during iterOk =
      some ((atRecvpktGet pktList len iterOk).1, (atRecvpktGet pktList len iterOk).2.1,
        t.set i { t.ctxs i with recvpktList := some (atRecvpktGet pktList len iterOk).2.2 }) := by
  have hfind := h.find
  obtain ⟨op, hop, hrecv⟩ := Option.any_eq_true _ _ |>.mp h.driver
  obtain ⟨now, hnow⟩ := Option.isSome_iff_exists.mp h.list
  have hwaits : s.waits fd = true ↔ now = [] := by
    simp [waits_of_find hfind, hop, hrecv, h.connected, hnow]
  have hwait : (if now.length = 0 then s.events during else some s) = some t := by
    rw [← hevents, AtSockets.duringRead]
    by_cases hnil : now = []
    · rw [if_pos (List.length_eq_zero_iff.mpr hnil), if_pos (hwaits.mpr hnil)]
    · rw [if_neg (mt List.length_eq_zero_iff.mp hnil), if_neg (mt hwaits.mp hnil)]
      rfl
  unfold atSocketRecv
  rw [hfind]
  dsimp only
  rw [hop]
  dsimp only
  rw [if_neg (not_not_intro hrecv), if_neg (not_not_intro h.connected), hnow]
  dsimp only
  rw [hwait]
  simp only [Option.bind_some, hlist]

/-! ## Runs -/

/-- An event, or a read with what comes in meanwhile. -/
inductive Traffic where
  | event (e : DeviceEvent)
  | read (fd : Int) (len : Nat) (during : List DeviceEvent) (iterOk : Bool)

/-- What an entry's list has taken of the packets, and what has been read from it. -/
structure Flow where
  accepted : Bytes := []
  returned : Bytes := []

def AtSockets.traffic (s : AtSockets) (i : Fin maxAtSocketNum) : Traffic → Option (AtSockets × Flow)
  | .event e => (s.event e).map fun s' => (s', { accepted := s.eventPut i e })
  | .read fd len during iterOk => (atSocketRecv s fd len during iterOk).map fun (_, bytes, s') =>
      (s', { accepted := s.eventsPut i (s.duringRead fd during)
             returned := if atSocketFind s fd = some i then bytes else [] })

def AtSockets.flow (s : AtSockets) (i : Fin maxAtSocketNum) : List Traffic → Option (AtSockets × Flow)
  | [] => some (s, {})
  | a :: as => (s.traffic i a).bind fun (s, f) => (s.flow i as).map fun (s, f') =>
      (s, ⟨f.accepted ++ f'.accepted, f.returned ++ f'.returned⟩)

theorem traffic_connected {a : Traffic} {f : Flow} (ha : s.traffic i a = some (s', f))
    (hopen : (s'.ctxs i).state = .connected) : (s.ctxs i).state = .connected := by
  cases a with
  | event e =>
    obtain ⟨t, he, heq⟩ := Option.map_eq_some_iff.mp ha
    cases heq
    exact event_connected he hopen
  | read fd len during iterOk =>
    obtain ⟨⟨r, bytes, t⟩, hread, heq⟩ := Option.map_eq_some_iff.mp ha
    cases heq
    exact read_connected hread hopen

theorem flow_connected (as : List Traffic) {f : Flow} (has : s.flow i as = some (s', f))
    (hopen : (s'.ctxs i).state = .connected) : (s.ctxs i).state = .connected := by
  induction as generalizing s f with
  | nil =>
    cases has
    exact hopen
  | cons a as ih =>
    obtain ⟨⟨t, f₁⟩, ha, hrest⟩ := Option.bind_eq_some_iff.mp has
    obtain ⟨⟨u, f₂⟩, has', heq⟩ := Option.map_eq_some_iff.mp hrest
    cases heq
    exact traffic_connected ha (ih has')

/-- **One step of a run.** -/
theorem traffic_held (h : Receives s i fd) {a : Traffic} {f : Flow}
    (ha : s.traffic i a = some (s', f)) (hopen : (s'.ctxs i).state = .connected) :
    Receives s' i fd ∧ s.held i ++ f.accepted = f.returned ++ s'.held i := by
  cases a with
  | event e =>
    obtain ⟨t, he, heq⟩ := Option.map_eq_some_iff.mp ha
    cases heq
    obtain ⟨hrec, hheld⟩ := event_held h he hopen
    exact ⟨hrec, hheld.symm⟩
  | read fd' len during iterOk =>
    obtain ⟨⟨r, bytes, t⟩, hread, heq⟩ := Option.map_eq_some_iff.mp ha
    cases heq
    exact read_held h hread hopen

/-- **A run**, as long as the socket is open. -/
theorem flow_held (h : Receives s i fd) (as : List Traffic) {f : Flow}
    (has : s.flow i as = some (s', f)) (hopen : (s'.ctxs i).state = .connected) :
    Receives s' i fd ∧ s.held i ++ f.accepted = f.returned ++ s'.held i := by
  induction as generalizing s f with
  | nil =>
    cases has
    exact ⟨h, List.append_nil _⟩
  | cons a as ih =>
    obtain ⟨⟨t, f₁⟩, ha, hrest⟩ := Option.bind_eq_some_iff.mp has
    obtain ⟨⟨u, f₂⟩, has', heq⟩ := Option.map_eq_some_iff.mp hrest
    cases heq
    obtain ⟨ht, hfirst⟩ := traffic_held h ha (flow_connected as has' hopen)
    obtain ⟨hrec, hlater⟩ := ih ht has'
    refine ⟨hrec, ?_⟩
    rw [← List.append_assoc, hfirst, List.append_assoc, hlater, List.append_assoc]

/-- **The receive list is a queue of bytes**: what was taken of the packets has been read, once and in
order, or waits; a read of a list with packets gets as much of it as it asks for and there is, and one
for which no iterator is allocated says so and takes nothing. -/
theorem atSocketRecv_fifo (h : Receives s i fd) (hempty : s.held i = []) (as : List Traffic) {f : Flow}
    (has : s.flow i as = some (s', f)) (hopen : (s'.ctxs i).state = .connected) :
    f.accepted = f.returned ++ s'.held i ∧ f.returned <+: f.accepted ∧
      ∀ len during t pktList, s'.events (s'.duringRead fd during) = some t →
        (t.ctxs i).state = .connected → (t.ctxs i).recvpktList = some pktList → pktList ≠ [] →
        (∃ u, atSocketRecv s' fd len during true =
            some (((min len (t.held i).length : Nat) : Int), (t.held i).take len, u) ∧
          u.held i = (t.held i).drop len) ∧
        ∃ u, atSocketRecv s' fd len during false = some (qcloudErrTcpReadFail, [], u) ∧
          u.held i = t.held i := by
  obtain ⟨hrec, hheld⟩ := flow_held h as has hopen
  rw [hempty, List.nil_append] at hheld
  refine ⟨hheld, hheld ▸ List.prefix_append _ _, ?_⟩
  intro len during t pktList hevents htopen hlist hne
  obtain ⟨ht, -⟩ := events_held hrec _ hevents htopen
  have hwas : t.held i = buffered pktList := by rw [AtSockets.held, hlist]; rfl
  obtain ⟨rest, hget, hrest⟩ := atRecvpktGet_spec hne len
  have hfail : atRecvpktGet pktList len false = (qcloudErrTcpReadFail, [], pktList) := by
    unfold atRecvpktGet
    rw [if_neg (by rwa [List.length_eq_zero_iff]), if_pos (by decide)]
  have hok := atSocketRecv_eq hrec hevents hlist len true
  have herr := atSocketRecv_eq hrec hevents hlist len false
  rw [hget] at hok
  rw [hfail] at herr
  rw [hwas]
  exact ⟨⟨_, hok, ((ht.set_list rest).2).trans hrest⟩, ⟨_, herr, (ht.set_list pktList).2⟩⟩

theorem maxAtSocketNum_pos : 0 < maxAtSocketNum := by decide

def firstEntry : Fin maxAtSocketNum := ⟨0, maxAtSocketNum_pos⟩

/-- The first entry connected, with the socket of link 0. -/
def openCtx : AtSocketCtx :=
  { fd := 5, recvpktList := some [], devOp := some exampleDevice, state := .connected }

def openTable : AtSockets := AtSockets.set {} firstEntry openCtx

theorem openTable_receives : Receives openTable firstEntry 5 := by
  have hcons : Consistent openTable := ((settled_init none) _ rfl).1.set_connected
    (by decide) rfl fun _ _ h => nomatch h
  exact ⟨hcons, rfl, rfl, rfl, rfl⟩

/-- Two packets, and two bytes read of the first. -/
def twoPackets : List Traffic :=
  [.event (.recv 0 (some [1, 2, 3]) true true), .event (.recv 0 (some [4]) true true),
    .read 5 2 [] true]

theorem atSocketRecv_fifo_two :
    ∃ s' f, openTable.flow firstEntry twoPackets = some (s', f) ∧ f.accepted = [1, 2, 3, 4] ∧
      f.returned <+: f.accepted ∧ s'.held firstEntry = [3, 4] := by
  refine ⟨_, _, rfl, rfl, ?_, rfl⟩
  exact (atSocketRecv_fifo openTable_receives rfl twoPackets rfl rfl).2.1

/-- **The read that is turned down**: a packet waits, there is no memory for the iterator, and the read
returns an error. -/
theorem read_without_iterator :
    ∃ s', openTable.events [.recv 0 (some [1, 2, 3]) true true] = some s' ∧
      s'.held firstEntry = [1, 2, 3] ∧
      (atSocketRecv s' 5 2 [] false).map (fun x => (x.1, x.2.1)) = some (qcloudErrTcpReadFail, []) :=
  ⟨_, rfl, rfl, rfl⟩

end QcloudIot.At
