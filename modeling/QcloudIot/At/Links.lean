import QcloudIot.At.Queue
import QcloudIot.At.Serial

/-!
# From the serial port to a socket

The items that `client_parser` takes from the port, as the events that `_at_socket_recv_cb` puts into the
table, and what `at_socket_recv` then returns.

* `recv_event`: a packet is put behind what waits at its own socket, and at no other;
* **`serial_received`**: a socket returns the data of its link's packets, in order and byte by byte,
  whatever these bytes are and whatever comes in between.
-/

namespace QcloudIot.At

open Lib Utils

/-! ## The events of the items -/

/-- An event as the table gets it, with memory for its packet. -/
def LinkEvent.device : LinkEvent → DeviceEvent
  | recv fd buff => .recv fd.toNat (some buff) true true
  | closed fd => .closed fd.toNat

namespace Item

/-- The item reports nothing but data. -/
def Silent : Item → Prop
  | line text => lineEvents (text ++ [13] ++ [10]) = []
  | prompt text sign => lineEvents (text ++ [sign]) = []
  | packet _ _ _ => True

/-- The item is a packet for this link. -/
def isFor (link : Nat) : Item → Bool
  | packet fd _ _ => digitsValue 10 0 fd = link
  | _ => false

/-- Its data, if it is for this link. -/
def dataFor (link : Nat) : Item → Bytes
  | packet fd _ data => if digitsValue 10 0 fd = link then data else []
  | _ => []

end Item

/-! ## The table -/

/-- How many packets wait at an entry. -/
def AtSockets.waitingPkts (s : AtSockets) (i : Fin maxAtSocketNum) : Nat :=
  ((s.ctxs i).recvpktList.getD []).length

variable {s s' : AtSockets} {i : Fin maxAtSocketNum} {link : Nat}

/-- With room in the list a packet is taken. -/
theorem accepted_room {rlist : List AtRecvPkt} (hroom : rlist.length ≤ maxRecvPktPerChain) (buff : Bytes) :
    accepted rlist buff true true = buff := by
  have hput : (atRecvpktPut rlist buff true true).1 = buff.length := by
    rw [atRecvpktPut, if_neg (by omega), if_neg (by decide), if_neg (by decide)]
  rw [accepted, hput, if_neg (by omega)]

theorem length_atRecvpktPut (rlist : List AtRecvPkt) (buff : Bytes) :
    (atRecvpktPut rlist buff true true).2.length ≤ rlist.length + 1 := by
  unfold atRecvpktPut
  split_ifs
  all_goals simp

/-- Only the packets of its own link are put at a socket. -/
theorem eventPut_recv (h : Receives s i (link + maxAtSocketNum)) (l : Nat) (buff : Bytes)
    (hroom : l = link → s.waitingPkts i ≤ maxRecvPktPerChain) :
    s.eventPut i (.recv l (some buff) true true) = if l = link then buff else [] := by
  rw [AtSockets.eventPut]
  by_cases hl : l = link
  · rw [if_pos hl, if_pos (by rw [hl]; exact h.find), accepted_room (hroom hl)]
  · rw [if_neg hl, if_neg]
    intro hfind
    have hfd : (s.ctxs i).fd = l + maxAtSocketNum := of_decide_eq_true (AtSockets.of_find hfind)
    rw [h.fd_eq] at hfd
    exact hl (by omega)

/-- **A packet** is put behind what waits at its own socket, and at no other. -/
theorem recv_event (h : Receives s i (link + maxAtSocketNum)) {l : Nat} {buff : Bytes}
    (he : s.event (.recv l (some buff) true true) = some s')
    (hroom : l = link → s.waitingPkts i ≤ maxRecvPktPerChain) :
    Receives s' i (link + maxAtSocketNum) ∧ s'.held i = s.held i ++ (if l = link then buff else []) ∧
      s'.waitingPkts i ≤ s.waitingPkts i + (if l = link then 1 else 0) := by
  have hput := eventPut_recv h l buff hroom
  have hstep : (s'.ctxs i).state = .connected ∧
      s'.waitingPkts i ≤ s.waitingPkts i + (if l = link then 1 else 0) := by
    have hwas := he
    simp only [AtSockets.event, atSocketRecvCb] at hwas
    rcases hfind : atSocketFind s (l + maxAtSocketNum) with - | j <;> rw [hfind] at hwas
    · cases hwas
    dsimp only at hwas
    rcases hlist : (s.ctxs j).recvpktList with - | rlist <;> rw [hlist] at hwas
    · cases hwas
    cases hwas
    by_cases hj : i = j
    · subst hj
      have hl : l = link := by
        have hfd : (s.ctxs i).fd = l + maxAtSocketNum := of_decide_eq_true (AtSockets.of_find hfind)
        rw [h.fd_eq] at hfd
        omega
      rw [if_pos hl, AtSockets.waitingPkts, AtSockets.waitingPkts, AtSockets.set_self, hlist]
      exact ⟨h.connected, length_atRecvpktPut rlist buff⟩
    · rw [AtSockets.waitingPkts, s.set_other _ hj]
      exact ⟨h.connected, Nat.le_add_right _ _⟩
  obtain ⟨hrec, hheld⟩ := event_held h he hstep.1
  exact ⟨hrec, by rw [hheld, hput], hstep.2⟩

/-! ## The whole way -/

/-- The packets of items, one behind the other. -/
theorem events_items {env : Nat → TurnEnv} (hmem : ∀ k, (env k).memOk = true) {items : List Item} {k : Nat}
    (hsilent : ∀ item ∈ items, item.Silent) (h : Receives s i (link + maxAtSocketNum))
    (hevents : s.events ((allReports env k items).map LinkEvent.device) = some s')
    (hroom : s.waitingPkts i + items.countP (Item.isFor link) ≤ maxRecvPktPerChain + 1) :
    Receives s' i (link + maxAtSocketNum) ∧
      s'.held i = s.held i ++ items.flatMap (Item.dataFor link) := by
  induction items generalizing k s with
  | nil =>
    cases hevents
    exact ⟨h, (List.append_nil _).symm⟩
  | cons item items ih =>
    obtain ⟨hquiet, hlater⟩ := List.forall_mem_cons.mp hsilent
    rw [List.countP_cons] at hroom
    rw [List.flatMap_cons]
    cases item with
    | line text =>
      rw [allReports, Item.reports, hquiet, List.nil_append] at hevents
      exact ih hlater h hevents (by omega)
    | prompt text sign =>
      rw [allReports, Item.reports, hquiet, List.nil_append] at hevents
      exact ih hlater h hevents (by omega)
    | packet fd len data =>
      rw [allReports, Item.reports, hmem, if_pos rfl] at hevents
      obtain ⟨t, he, hevents⟩ := Option.bind_eq_some_iff.mp hevents
      have hcount : (if Item.isFor link (.packet fd len data) = true then 1 else 0) =
          if digitsValue 10 0 fd = link then 1 else 0 := by
        simp only [Item.isFor, decide_eq_true_eq]
      rw [hcount] at hroom
      obtain ⟨hrec, hheld, hwait⟩ := recv_event h he fun hl => by
        rw [if_pos (show digitsValue 10 0 fd = link from hl)] at hroom
        omega
      have hnext : t.waitingPkts i + items.countP (Item.isFor link) ≤ maxRecvPktPerChain + 1 := by
        rw [Int.toNat_natCast] at hwait
        omega
      obtain ⟨hrec, hall⟩ := ih hlater hrec hevents hnext
      refine ⟨hrec, ?_⟩
      rw [hall, hheld, List.append_assoc, Int.toNat_natCast, Item.dataFor]

/-- A read that need not wait returns the first bytes that are held. -/
theorem atSocketRecv_held {fd : Int} (h : Receives s i fd) (len : Nat) :
    ∃ r u, atSocketRecv s fd len [] true = some (r, (s.held i).take len, u) := by
  obtain ⟨pktList, hlist⟩ := Option.isSome_iff_exists.mp h.list
  have hnone : s.events (s.duringRead fd []) = some s := by
    rw [AtSockets.duringRead, ite_self]
    rfl
  have hheld : s.held i = buffered pktList := by
    rw [AtSockets.held, hlist]
    rfl
  have hbytes : (atRecvpktGet pktList len true).2.1 = (buffered pktList).take len := by
    rw [atRecvpktGet]
    split
    · rename_i hempty
      rw [List.length_eq_zero_iff.mp hempty]
      exact List.take_nil.symm
    · rw [if_neg (by decide)]
      exact (atRecvpktLoop_spec pktList len).1
  have hread := atSocketRecv_eq h hnone hlist len true
  rw [hbytes, ← hheld] at hread
  exact ⟨_, _, hread⟩

/-- **From the port to the application**: when the items are through, a read from an open socket returns
what was held there and then the data of the packets for its link, whatever bytes these are and whatever
came in between, as far as it asks for them. There is memory, and its list has room. -/
theorem serial_received {recvBufsz : Nat} {env : Nat → TurnEnv} (hmem : ∀ k, (env k).memOk = true)
    {between : Nat → Esp8266 → Esp8266} {sign : Nat → UInt8} (hbetween : SetsSign sign between)
    {items : List Item} (hsilent : ∀ item ∈ items, item.Silent) {driver : Esp8266}
    (htable : driver.sys.client.urcTable = urcTable) (hsign : driver.sys.client.endSign = sign 0)
    (hfit : AllFit recvBufsz sign 0 items) (rest : Bytes) (h : Receives s i (link + maxAtSocketNum))
    (hroom : s.waitingPkts i + items.countP (Item.isFor link) ≤ maxRecvPktPerChain + 1)
    (hevents : s.events ((parserRun recvBufsz env between items.length 0 ⟨driver, []⟩
      (items.flatMap Item.bytes ++ rest)).1.events.map LinkEvent.device) = some s') (len : Nat) :
    (parserRun recvBufsz env between items.length 0 ⟨driver, []⟩
      (items.flatMap Item.bytes ++ rest)).2 = rest ∧
    ∃ r u, atSocketRecv s' (link + maxAtSocketNum) len [] true =
      some (r, (s.held i ++ items.flatMap (Item.dataFor link)).take len, u) := by
  obtain ⟨hport, hreported⟩ :=
    parserRun_items env hbetween (s := ⟨driver, []⟩) htable hsign hfit rest
  rw [hreported, List.nil_append] at hevents
  obtain ⟨hrec, hheld⟩ := events_items hmem hsilent h hevents hroom
  rw [← hheld]
  exact ⟨hport, atSocketRecv_held hrec len⟩

theorem mixedItems_silent : ∀ item ∈ mixedItems, item.Silent := by
  intro item hitem
  simp only [mixedItems, List.mem_cons, List.not_mem_nil, or_false] at hitem
  rcases hitem with rfl | rfl | rfl | rfl | rfl
  · exact (show lineEvents (chars "WIFI GOT IP" ++ [13] ++ [10]) = [] by decide)
  · trivial
  · exact (show lineEvents ([] ++ [62]) = [] by decide)
  · exact (show lineEvents (chars " " ++ [13] ++ [10]) = [] by decide)
  · trivial

/-- The two packets are read as they were sent. -/
theorem serial_received_mixed : ∃ t r u,
    openTable.events ((parserRun 1024 (fun _ => {}) setsPrompt mixedItems.length 0 ⟨portDriver, []⟩
      (mixedItems.flatMap Item.bytes ++ [])).1.events.map LinkEvent.device) = some t ∧
    atSocketRecv t (((0 : Nat) : Int) + maxAtSocketNum) 16 [] true =
      some (r, chars "\r\nSEND OK\r\n+IPD,", u) := by
  have hreported := (parserRun_items (fun _ => {}) setsPrompt_sets (s := ⟨portDriver, []⟩) rfl rfl
    mixedItems_fit []).2
  have hsome : ∃ t, openTable.events ((parserRun 1024 (fun _ => {}) setsPrompt mixedItems.length 0
      ⟨portDriver, []⟩ (mixedItems.flatMap Item.bytes ++ [])).1.events.map LinkEvent.device) = some t := by
    rw [hreported]
    exact ⟨_, rfl⟩
  obtain ⟨t, hevents⟩ := hsome
  have hreceives : Receives openTable firstEntry (((0 : Nat) : Int) + maxAtSocketNum) := openTable_receives
  obtain ⟨-, r, u, hread⟩ := serial_received (fun _ => rfl) setsPrompt_sets mixedItems_silent rfl rfl
    mixedItems_fit [] hreceives (by decide) hevents 16
  exact ⟨t, r, u, hevents, hread⟩

end QcloudIot.At
