import Mathlib.Data.List.Induction
import QcloudIot.Mqtt.Backoff

/-!
# Keep-alive over a run

`is_ping_outstanding` counts the pings since a packet that shows the connection alive was last read.
`pingsSince` is that number read off the rounds of the run; the two agree whenever the client is connected.

* `cycle_resets`: such a packet, once read, clears the count, whatever its handler returns;
* `alive_step`, `outstanding_eq`: the count over the rounds;
* `expiries_eq`: with keep-alive on and no such packet, each expiry of the ping timer that leaves the
  client connected adds one to the count;
* **`keepAlive_bounded`**: the three together, over every run.

With a keep-alive interval of zero `_mqtt_keep_alive` does nothing, and no expiry disconnects
(`keepAlive_off`).
-/

namespace QcloudIot.Mqtt

open Lib

/-- **A packet that is read** clears the count. -/
theorem cycle_resets {c : Client} {packetType : UInt8} {env : CycleEnv} {t : UInt8}
    (hread : packetRead c packetType env = some t) (ht : isTraffic t = true) :
    (cycleForRead c packetType env).2.2.isPingOutstanding = 0 := by
  have h := cycle_link c packetType env
  rw [hread, Option.map_some, Option.getD_some, Link.afterPacket, if_pos ht] at h
  exact congrArg Link.outstanding h

/-! ## The count -/

/-- What a run keeps to. -/
structure Alive (k : UInt16) (l : Link) : Prop where
  interval : l.options.keepAliveInterval = k
  writeBufSize : 4 ≤ l.writeBufSize
  outstanding : l.outstanding ≤ 2

theorem heard_outstanding (r : Round) :
    r.heard.outstanding = if r.traffic then 0 else r.client.isPingOutstanding := by
  unfold Round.heard Round.traffic
  cases r.packet with
  | none => rfl
  | some t =>
    rw [Option.map_some, Option.getD_some, Option.any_some, Link.afterPacket]
    split <;> rfl

theorem heard_le {k : UInt16} {r : Round} (h : Alive k r.client.link) : r.heard.outstanding ≤ 2 := by
  rw [heard_outstanding]
  split
  · decide
  · exact h.outstanding

theorem toNat_succ_outstanding {n : UInt8} (h : n < 2) : (n + 1).toNat = n.toNat + 1 := by
  have hlt : n.toNat < 2 := h
  have hone : (1 : UInt8).toNat = 1 := rfl
  rw [UInt8.toNat_add, hone]
  omega

/-- **A round** keeps to it. -/
theorem alive_step {k : UInt16} {r : Round} (h : Alive k r.client.link) : Alive k r.after.link := by
  have hstep := round_step r
  have hsame := heard_same (r := r)
  have hle := heard_le h
  have hheard : ∀ {l : Link}, l.options = r.heard.options → l.writeBufSize = r.heard.writeBufSize →
      l.outstanding ≤ 2 → Alive k l := by
    intro l ho hw hout
    rw [hsame] at ho hw
    exact ⟨by rw [ho]; exact h.interval, by rw [hw]; exact h.writeBufSize, hout⟩
  have hattempted : ∀ {l : Link}, Attempted r.client.options r.client.link l → Alive k l := by
    intro l hattempt
    refine ⟨by rw [hattempt.options]; exact h.interval,
      by rw [hattempt.writeBufSize]; exact h.writeBufSize, ?_⟩
    rcases hattempt.outstanding with hzero | ⟨-, hkept⟩
    · rw [hzero]
      decide
    · rw [hkept]
      exact h.outstanding
  generalize r.after.link = l at hstep
  cases hstep with
  | gaveUp => exact h
  | waiting => exact h
  | noNetwork => exact ⟨h.interval, h.writeBufSize, h.outstanding⟩
  | reconnected _ _ _ hattempt => exact hattempted hattempt
  | failed _ _ hattempt =>
    obtain ⟨hi, hw, ho⟩ := hattempted hattempt
    exact ⟨hi, hw, ho⟩
  | quiet => exact hheard rfl rfl hle
  | pinged _ _ _ hlt =>
    refine hheard rfl rfl (UInt8.le_iff_toNat_le.mpr ?_)
    rw [toNat_succ_outstanding hlt]
    exact hlt
  | starved => exact hheard (by simp [Link.lost]) (by simp [Link.lost]) (by simpa [Link.lost] using hle)
  | notSent => exact hheard (by simp [Link.lost]) (by simp [Link.lost]) (by simpa [Link.lost] using hle)
  | notRead => exact hheard (by simp [Link.lost]) (by simp [Link.lost]) (by simpa [Link.lost] using hle)
  | noConn => exact hheard (by simp) (by simp) (by simpa using hle)

/-- The round counts one more ping. -/
def Round.pings (r : Round) : Bool := r.expired && r.client.options.keepAliveInterval != 0

/-- A round that a client stays connected in. -/
theorem outstanding_up {k : UInt16} {r : Round} (h : Alive k r.client.link)
    (hconn : r.client.isConnected = true)
    (hup : r.after.isConnected = true) : r.after.isPingOutstanding.toNat =
      (if r.traffic then 0 else r.client.isPingOutstanding.toNat) + if r.pings then 1 else 0 := by
  have hstep := round_up r hconn
  have hheard : (if r.traffic then 0 else r.client.isPingOutstanding.toNat) =
    r.heard.outstanding.toNat := by
    rw [heard_outstanding]
    split <;> rfl
  have hup' : r.after.link.connected = true := hup
  rw [hheard]
  change r.after.link.outstanding.toNat = _
  generalize r.after.link = l at hstep hup'
  cases hstep with
  | gaveUp hdown => exact absurd (hdown.symm.trans hconn) (by simp)
  | waiting hdown => exact absurd (hdown.symm.trans hconn) (by simp)
  | noNetwork hdown => exact absurd (hdown.symm.trans hconn) (by simp)
  | reconnected hdown => exact absurd (hdown.symm.trans hconn) (by simp)
  | failed hdown => exact absurd (hdown.symm.trans hconn) (by simp)
  | quiet _ hquiet =>
    have hnone : r.pings = false := by
      unfold Round.pings
      rcases hquiet with hnot | hoff | hbuf
      · rw [hnot, Bool.false_and]
      · rw [hoff, bne_self_eq_false, Bool.and_false]
      · exact absurd h.writeBufSize (Nat.not_le.mpr hbuf)
    rw [hnone]
    rfl
  | pinged _ hon hexpired hlt timer =>
    rw [Round.pings, hexpired, Bool.true_and, if_pos (bne_iff_ne.mpr hon)]
    exact toNat_succ_outstanding hlt
  | starved => exact absurd hup' (by simp [Link.lost])
  | notSent => exact absurd hup' (by simp [Link.lost])
  | notRead => exact absurd hup' (by simp [Link.lost])
  | noConn _ hnot =>
    have hnone : r.pings = false := by
      rw [Round.pings, Round.expired, hnot, Bool.false_and, Bool.false_and]
    rw [scheduled_outstanding, hnone]
    rfl

/-- A round that connects it. -/
theorem outstanding_fresh {r : Round} (hdown : r.client.isConnected = false)
    (hup : r.after.isConnected = true) :
    r.after.isPingOutstanding = 0 := by
  have hstep := round_down r hdown
  have hup' : r.after.link.connected = true := hup
  have hattempted : ∀ {l : Link}, Attempted r.client.options r.client.link l → l.connected = true →
      l.outstanding = 0 := fun hattempt hl =>
    hattempt.outstanding.elim id fun h => absurd (h.1.symm.trans hl) (by simp)
  change r.after.link.outstanding = 0
  generalize r.after.link = l at hstep hup'
  cases hstep with
  | gaveUp => exact absurd (hdown.symm.trans hup') (by simp)
  | waiting => exact absurd (hdown.symm.trans hup') (by simp)
  | noNetwork => exact absurd (hdown.symm.trans hup') (by simp)
  | reconnected _ _ _ hattempt => exact hattempted hattempt hup'
  | failed _ _ hattempt =>
    have hzero := hattempted hattempt hup'
    exact hzero
  | quiet hconn => exact absurd (hdown.symm.trans hconn) (by simp)
  | pinged hconn => exact absurd (hdown.symm.trans hconn) (by simp)
  | starved hconn => exact absurd (hdown.symm.trans hconn) (by simp)
  | notSent hconn => exact absurd (hdown.symm.trans hconn) (by simp)
  | notRead hconn => exact absurd (hdown.symm.trans hconn) (by simp)
  | noConn hconn => exact absurd (hdown.symm.trans hconn) (by simp)

/-- The pings since such a packet was last read, from the rounds of a run, the latest first. A
connection starts with none. -/
def pingsSince : List Round → Nat
  | [] => 0
  | r :: rs =>
    if r.client.isConnected then
      (if r.traffic then 0 else pingsSince rs) + if r.pings then 1 else 0
    else 0

/-- **The count** of a connected client. -/
theorem outstanding_eq {k : UInt16} {l l' : Link} {rs : List Round} (h : Chain l rs l')
    (halive : Alive k l)
    (hzero : l.outstanding = 0) (hup : l'.connected = true) :
    l'.outstanding.toNat = pingsSince rs.reverse := by
  induction rs using List.reverseRecOn generalizing l' with
  | nil =>
    cases h with
    | nil => exact congrArg UInt8.toNat hzero
  | append_singleton rs r ih =>
    obtain ⟨m, hrs, hr⟩ := h.split
    cases hr with
    | cons hm hend =>
      cases hend with
      | nil =>
        have hinv := (hrs.invariant halive fun r _ h => alive_step h).1
        rw [List.reverse_append, List.reverse_singleton, List.singleton_append]
        subst hm
        rw [pingsSince]
        cases hconn : r.client.isConnected with
        | true =>
          have hcount : r.client.isPingOutstanding.toNat = pingsSince rs.reverse := ih hrs hconn
          rw [if_pos rfl, ← hcount]
          exact outstanding_up hinv hconn hup
        | false => exact congrArg UInt8.toNat (outstanding_fresh hconn hup)

/-- Where the count is not zero, the last ping was sent in a round after which no such packet is read. -/
theorem last_ping {h : List Round} {n : Nat} (hn : n < pingsSince h) :
    ∃ newer r older, h = newer ++ r :: older ∧ r.expired = true ∧
      (∀ x ∈ newer, x.client.isConnected = true ∧ x.traffic = false) ∧ r.client.isConnected = true ∧
      (n ≠ 0 → r.traffic = false ∧ n ≤ pingsSince older) := by
  induction h with
  | nil => exact absurd hn (Nat.not_lt_zero n)
  | cons x rest ih =>
    rw [pingsSince] at hn
    by_cases hconn : x.client.isConnected = true
    swap
    · rw [if_neg hconn] at hn
      exact absurd hn (Nat.not_lt_zero n)
    rw [if_pos hconn] at hn
    by_cases hping : x.pings = true
    · refine ⟨[], x, rest, rfl, (Bool.and_eq_true_iff.mp hping).1, by simp, hconn, fun hn0 => ?_⟩
      rw [if_pos hping] at hn
      by_cases htraffic : x.traffic = true
      · rw [if_pos htraffic] at hn
        omega
      · rw [if_neg htraffic] at hn
        exact ⟨by simpa using htraffic, by omega⟩
    · rw [if_neg hping, Nat.add_zero] at hn
      by_cases htraffic : x.traffic = true
      · rw [if_pos htraffic] at hn
        exact absurd hn (Nat.not_lt_zero n)
      rw [if_neg htraffic] at hn
      obtain ⟨newer, r, older, rfl, hr, hnewer, hup, hmore⟩ := ih hn
      refine ⟨x :: newer, r, older, rfl, hr, fun y hy => ?_, hup, hmore⟩
      rcases List.mem_cons.mp hy with rfl | hy
      · exact ⟨hconn, by simpa using htraffic⟩
      · exact hnewer y hy

/-- **Expiries without an answer**: every one of them that leaves the client connected is a ping. -/
theorem expiries_eq {k : UInt16} {l l' : Link} {ds : List Round} (h : Chain l ds l')
    (halive : Alive k l)
    (hk : k ≠ 0) (hds : ∀ r ∈ ds, r.client.isConnected = true ∧ r.traffic = false)
    (hup : ∀ r ∈ ds, r.after.isConnected = true) :
    l'.outstanding.toNat = l.outstanding.toNat + ds.countP (·.expired) := by
  induction h with
  | nil l => rfl
  | @cons l l' r rs hl h ih =>
    subst hl
    obtain ⟨⟨hconn, htraffic⟩, hrs⟩ := List.forall_mem_cons.mp hds
    obtain ⟨hupr, huprs⟩ := List.forall_mem_cons.mp hup
    have hpings : r.pings = r.expired := by
      have hi : r.client.options.keepAliveInterval = k := halive.interval
      rw [Round.pings, hi, bne_iff_ne.mpr hk, Bool.and_true]
    have hone : r.after.link.outstanding.toNat = _ := outstanding_up halive hconn hupr
    rw [ih (alive_step halive) hrs huprs, hone, htraffic, hpings, List.countP_cons]
    simp only [Bool.false_eq_true, if_false]
    change r.client.isPingOutstanding.toNat + _ + _ = r.client.isPingOutstanding.toNat + _
    omega

/-- **Why keep-alive disconnects**: two pings are outstanding, or the PINGREQ cannot be sent. -/
theorem starved_of_disconnect {r : Round} (hkeeps : r.keepsAlive = true)
    (hdown : r.after.isConnected = false)
    (hsent : ¬ r.step.keepAlive.PingFails r.client.writeBufSize) :
    r.client.isConnected = true ∧ r.expired = true ∧ r.traffic = false ∧
      2 ≤ r.client.isPingOutstanding := by
  have hconn : r.client.isConnected = true := by
    rw [Round.keepsAlive, Bool.and_eq_true] at hkeeps
    exact hkeeps.1
  have hheard : r.heard.connected = true := (congrArg Link.connected heard_same).trans hconn
  have hstep := round_up r hconn
  have hdown' : r.after.link.connected = false := hdown
  have hstarved : r.expired = true ∧ 2 ≤ r.heard.outstanding := by
    generalize r.after.link = l at hstep hdown'
    cases hstep with
    | gaveUp hno => exact absurd (hno.symm.trans hconn) (by simp)
    | waiting hno => exact absurd (hno.symm.trans hconn) (by simp)
    | noNetwork hno => exact absurd (hno.symm.trans hconn) (by simp)
    | reconnected hno => exact absurd (hno.symm.trans hconn) (by simp)
    | failed hno => exact absurd (hno.symm.trans hconn) (by simp)
    | quiet => exact absurd (hdown'.symm.trans hheard) (by simp)
    | pinged => exact absurd (hdown'.symm.trans hheard) (by simp)
    | starved _ hexpired h => exact ⟨hexpired, h⟩
    | notSent _ _ _ hfails => exact absurd hfails hsent
    | notRead _ hnot => exact absurd (hnot.symm.trans hkeeps) (by simp)
    | noConn => exact absurd (hdown'.symm.trans ((scheduled_connected _ _ _).trans hheard)) (by simp)
  obtain ⟨hexpired, hout⟩ := hstarved
  rw [heard_outstanding] at hout
  cases htraffic : r.traffic with
  | true =>
    rw [htraffic, if_pos rfl] at hout
    exact absurd hout (by decide)
  | false =>
    rw [htraffic, if_neg (by simp)] at hout
    exact ⟨hconn, hexpired, rfl, hout⟩

/-- Two pings are two rounds, with no such packet read since the first. -/
theorem last_pings {pre : List Round} (h : 2 ≤ pingsSince pre.reverse) :
    ∃ a r1 b r2 d, pre = a ++ r1 :: (b ++ r2 :: d) ∧ r1.expired = true ∧ r2.expired = true ∧
      ∀ x ∈ b ++ r2 :: d, x.client.isConnected = true ∧ x.traffic = false := by
  obtain ⟨newer, r2, older, hpre, h2, hnewer, hup2, hmore⟩ := last_ping (n := 1) h
  obtain ⟨htraffic2, hone⟩ := hmore (by decide)
  obtain ⟨newer', r1, older', rfl, h1, hnewer', -⟩ := last_ping (n := 0) hone
  refine ⟨older'.reverse, r1, newer'.reverse, r2, newer.reverse, ?_, h1, h2, fun x hx => ?_⟩
  · rw [← List.reverse_reverse pre, hpre]
    simp
  · simp only [List.mem_append, List.mem_reverse, List.mem_cons] at hx
    rcases hx with hx | rfl | hx
    · exact hnewer' x hx
    · exact ⟨hup2, htraffic2⟩
    · exact hnewer x hx

/-! ## Runs -/

theorem alive_of_constructed {c : Client} (hc : Constructed c) :
    Alive c.options.keepAliveInterval c.link where
  interval := rfl
  writeBufSize := by
    change 4 ≤ c.writeBufSize
    rw [hc.writeBufSize]
    decide
  outstanding := by
    change c.isPingOutstanding ≤ 2
    rw [hc.isPingOutstanding]
    decide

/-- **Keep-alive over a run**, whatever the application calls but a disconnect:
the count never exceeds 2; with keep-alive on, three expiries of the ping timer in rounds of a connected
client that read no PUBACK, SUBACK, UNSUBACK, PINGRESP or PUBLISH end disconnected; such a packet, once
read, clears the count, also where its handler reports an error; and keep-alive disconnects, other than for
a PINGREQ that cannot be sent, only where the timer has expired for the third time with no such packet
read in between. -/
theorem keepAlive_bounded {c : Client} (hc : Constructed c) (calls : List Call) :
    ((run call c calls).isPingOutstanding ≤ 2 ∧ ∀ r ∈ runRounds c calls,
      r.after.isPingOutstanding ≤ 2) ∧
    (c.options.keepAliveInterval ≠ 0 → ∀ pre ds post, runRounds c calls = pre ++ ds ++ post →
      (∀ r ∈ ds, r.client.isConnected = true ∧ r.traffic = false) → 3 ≤ ds.countP (·.expired) →
      ∃ r ∈ ds, r.after.isConnected = false) ∧
    (∀ (c' : Client) packetType env t, packetRead c' packetType env = some t → isTraffic t = true →
      (cycleForRead c' packetType env).2.2.isPingOutstanding = 0) ∧
    ∀ pre r post, runRounds c calls = pre ++ r :: post → r.keepsAlive = true →
      r.after.isConnected = false →
      ¬ r.step.keepAlive.PingFails r.client.writeBufSize →
      ∃ a r1 b r2 d, pre = a ++ r1 :: (b ++ r2 :: d) ∧ r1.expired = true ∧ r2.expired = true ∧
        r.expired = true ∧
        ∀ x ∈ b ++ r2 :: d ++ [r], x.client.isConnected = true ∧ x.traffic = false := by
  have hchain := run_chain c calls
  obtain ⟨hend, hall⟩ := hchain.invariant (alive_of_constructed hc) fun r _ h => alive_step h
  refine ⟨⟨hend.outstanding, fun r hr => (hall r hr).2.outstanding⟩, ?_, fun c' packetType env t =>
    cycle_resets, ?_⟩
  · intro hk pre ds post hsplit hds hcount
    by_contra hnone
    have hup : ∀ r ∈ ds, r.after.isConnected = true := fun r hr => by
      by_contra hdown
      exact hnone ⟨r, hr, by simpa using hdown⟩
    rw [hsplit] at hchain
    obtain ⟨l2, h2, -⟩ := hchain.split
    obtain ⟨l1, h1, hmid⟩ := h2.split
    have halive := (h1.invariant (alive_of_constructed hc) fun r _ h => alive_step h).1
    have hle := (hmid.invariant halive fun r _ h => alive_step h).1.outstanding
    have heq := expiries_eq hmid halive hk hds hup
    have hle' : l2.outstanding.toNat ≤ 2 := hle
    omega
  · intro pre r post hsplit hkeeps hdown hsent
    rw [hsplit] at hchain
    obtain ⟨l1, h1, hrest⟩ := hchain.split
    cases hrest with
    | cons hl _ =>
      subst hl
      obtain ⟨hconn, hexpired, htraffic, hout⟩ := starved_of_disconnect hkeeps hdown hsent
      have hcount : r.client.isPingOutstanding.toNat = pingsSince pre.reverse :=
        outstanding_eq h1 (alive_of_constructed hc) hc.isPingOutstanding hconn
      have htwo : 2 ≤ r.client.isPingOutstanding.toNat := hout
      obtain ⟨a, r1, b, r2, d, hpre, h1', h2', hbetween⟩ := last_pings (hcount ▸ htwo)
      refine ⟨a, r1, b, r2, d, hpre, h1', h2', hexpired, fun x hx => ?_⟩
      rcases List.mem_append.mp hx with hx | hx
      · exact hbetween x hx
      · obtain rfl := List.mem_singleton.mp hx
        exact ⟨hconn, htraffic⟩

/-- Three rounds in which nothing is read, each after the ping timer has expired; pings can be sent. -/
def silentCalls : List Call :=
  let silent : YieldStep :=
    { keepAlive := { clock := 90000, pings := [{ writes := [(.retSuccess, 2)] }], clockAfter := 1000 } }
  [.yield 500 0 [silent, silent, silent]]

theorem keepAlive_bounded_silent :
    (∀ r ∈ runRounds constructedClient silentCalls, r.packet = none) ∧
      ∃ r ∈ runRounds constructedClient silentCalls, r.after.isConnected = false :=
  ⟨by decide, (keepAlive_bounded constructed_example silentCalls).2.1 (by decide) [] _ []
    (List.append_nil _).symm (by decide) (by decide)⟩

/-- **Keep-alive switched off**: the timer expires three times, and the client stays connected. -/
theorem keepAlive_off :
    let c := { constructedClient with options := ⟨0, true⟩ }
    Constructed c ∧ (runRounds c silentCalls).countP (·.expired) = 3 ∧
      ∀ r ∈ runRounds c silentCalls, r.client.isConnected = true ∧ r.packet = none ∧
        r.after.isConnected = true :=
  ⟨⟨rfl, rfl, rfl, rfl, rfl⟩, by decide, by decide⟩

end QcloudIot.Mqtt
