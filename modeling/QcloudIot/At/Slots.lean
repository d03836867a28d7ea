import QcloudIot.At.Socket
import QcloudIot.Lib.Run

/-!
# The entries of the socket table

Runs of connects, closes, receives and events of the device, from the table as it is initialised.

* `Consistent`: an entry has a socket iff it is connected, and no two have the same one; kept by
  every call (`call_settled`);
* `slots_ok_iff`: after every call each entry is closed or connected, and a connect finds one as
  long as fewer than all are open, iff no connect that has taken an entry fails.
-/

namespace QcloudIot.At

open Lib

/-! ## Consistent tables -/

/-- An entry has a socket iff it is connected, and no two have the same one. -/
structure Consistent (s : AtSockets) : Prop where
  fd_of : ∀ i, ((s.ctxs i).state = .connected ∧ (maxAtSocketNum : Int) ≤ (s.ctxs i).fd) ∨
    ((s.ctxs i).state ≠ .connected ∧ (s.ctxs i).fd = unusedSocket)
  own : ∀ i j, (s.ctxs i).state = .connected → (s.ctxs j).state = .connected →
    (s.ctxs i).fd = (s.ctxs j).fd → i = j

/-- No entry is taken without being connected. -/
def Unalloced (s : AtSockets) : Prop := ∀ i, (s.ctxs i).state ≠ .alloced

/-- The same entries are taken without being connected. -/
def SameAlloced (s s' : AtSockets) : Prop :=
  ∀ i, (s'.ctxs i).state = .alloced ↔ (s.ctxs i).state = .alloced

variable {s s' : AtSockets} {i : Fin maxAtSocketNum} {ctx : AtSocketCtx}

theorem AtSockets.set_self (s : AtSockets) (i : Fin maxAtSocketNum) (ctx : AtSocketCtx) :
    (s.set i ctx).ctxs i = ctx := Function.update_self ..

theorem AtSockets.set_other (s : AtSockets) {i j : Fin maxAtSocketNum} (ctx : AtSocketCtx)
    (h : j ≠ i) : (s.set i ctx).ctxs j = s.ctxs j := Function.update_of_ne h ..

/-- An entry that is found has what was looked for. -/
theorem AtSockets.of_find {p : AtSocketCtx → Bool} (h : s.find p = some i) : p (s.ctxs i) = true := by
  have hfound := List.find?_some h
  exact hfound

theorem AtSockets.find_none {p : AtSocketCtx → Bool} (h : s.find p = none) (i : Fin maxAtSocketNum) :
    p (s.ctxs i) = false :=
  Bool.eq_false_iff.mpr (List.find?_eq_none.mp h i (List.mem_finRange i))

theorem SameAlloced.refl (s : AtSockets) : SameAlloced s s := fun _ => Iff.rfl

theorem SameAlloced.trans {s'' : AtSockets} (h : SameAlloced s s') (h' : SameAlloced s' s'') :
    SameAlloced s s'' := fun i => (h' i).trans (h i)

theorem SameAlloced.unalloced (h : SameAlloced s s') (hs : Unalloced s) : Unalloced s' :=
  fun i hi => hs i ((h i).mp hi)

theorem SameAlloced.set (h : ctx.state = .alloced ↔ (s.ctxs i).state = .alloced) :
    SameAlloced s (s.set i ctx) := by
  intro j
  by_cases hj : j = i
  · rw [hj, AtSockets.set_self]
    exact h
  · rw [AtSockets.set_other s ctx hj]

theorem Consistent.fd_of_not (h : Consistent s) (hi : (s.ctxs i).state ≠ .connected) :
    (s.ctxs i).fd = unusedSocket := by
  rcases h.fd_of i with ⟨hstate, -⟩ | ⟨-, hfd⟩
  · exact absurd hstate hi
  · exact hfd

/-- The entry with the socket of a link is connected. -/
theorem Consistent.connected (h : Consistent s) {fd : Nat}
    (hfind : atSocketFind s (fd + maxAtSocketNum) = some i) : (s.ctxs i).state = .connected := by
  have hfd : (s.ctxs i).fd = fd + maxAtSocketNum := of_decide_eq_true (AtSockets.of_find hfind)
  rcases h.fd_of i with ⟨hstate, -⟩ | ⟨-, hunused⟩
  · exact hstate
  · rw [hfd] at hunused
    simp only [maxAtSocketNum, unusedSocket] at hunused
    omega

/-- An entry that is not connected any more. -/
theorem Consistent.set_unused (h : Consistent s) (hstate : ctx.state ≠ .connected)
    (hfd : ctx.fd = unusedSocket) : Consistent (s.set i ctx) := by
  constructor
  · intro j
    by_cases hj : j = i
    · rw [hj, AtSockets.set_self]
      exact .inr ⟨hstate, hfd⟩
    · rw [AtSockets.set_other s ctx hj]
      exact h.fd_of j
  · intro j k hj hk
    have hji : j ≠ i := by
      rintro rfl
      rw [AtSockets.set_self] at hj
      exact hstate hj
    have hki : k ≠ i := by
      rintro rfl
      rw [AtSockets.set_self] at hk
      exact hstate hk
    rw [AtSockets.set_other s ctx hji] at hj ⊢
    rw [AtSockets.set_other s ctx hki] at hk ⊢
    exact h.own j k hj hk

/-- An entry whose socket no other one has. -/
theorem Consistent.set_connected (h : Consistent s) (hfd : (maxAtSocketNum : Int) ≤ ctx.fd)
    (hstate : ctx.state = .connected)
    (hfresh : ∀ j, j ≠ i → (s.ctxs j).state = .connected → (s.ctxs j).fd ≠ ctx.fd) :
    Consistent (s.set i ctx) := by
  constructor
  · intro j
    by_cases hj : j = i
    · rw [hj, AtSockets.set_self]
      exact .inl ⟨hstate, hfd⟩
    · rw [AtSockets.set_other s ctx hj]
      exact h.fd_of j
  · intro j k hj hk heq
    by_cases hji : j = i
    · by_cases hki : k = i
      · rw [hji, hki]
      · rw [hji, AtSockets.set_self] at heq
        rw [AtSockets.set_other s ctx hki] at hk heq
        exact absurd heq.symm (hfresh k hki hk)
    · rw [AtSockets.set_other s ctx hji] at hj heq
      by_cases hki : k = i
      · rw [hki, AtSockets.set_self] at heq
        exact absurd heq (hfresh j hji hj)
      · rw [AtSockets.set_other s ctx hki] at hk heq
        exact h.own j k hj hk heq

/-- An entry that keeps its state and its socket. -/
theorem Consistent.set_same (h : Consistent s) (hstate : ctx.state = (s.ctxs i).state)
    (hfd : ctx.fd = (s.ctxs i).fd) : Consistent (s.set i ctx) := by
  rcases h.fd_of i with ⟨hi, hle⟩ | ⟨hi, hunused⟩
  · refine h.set_connected (hfd ▸ hle) (hstate.trans hi) fun j hj hconn heq => hj ?_
    exact h.own j i hconn hi (heq.trans hfd)
  · exact h.set_unused (hstate ▸ hi) (hfd.trans hunused)

/-! ## What the functions keep -/

/-- From a consistent table it leads to one with the same entries taken. -/
def Keeps (s s' : AtSockets) : Prop := Consistent s → Consistent s' ∧ SameAlloced s s'

theorem Keeps.refl (s : AtSockets) : Keeps s s := fun h => ⟨h, .refl s⟩

theorem Keeps.trans {s'' : AtSockets} (h : Keeps s s') (h' : Keeps s' s'') : Keeps s s'' :=
  fun hs => by
    obtain ⟨hs', hsame⟩ := h hs
    obtain ⟨hs'', hsame'⟩ := h' hs'
    exact ⟨hs'', hsame.trans hsame'⟩

theorem Keeps.set (hstate : ctx.state = (s.ctxs i).state) (hfd : ctx.fd = (s.ctxs i).fd) :
    Keeps s (s.set i ctx) :=
  fun h => ⟨h.set_same hstate hfd, .set (by rw [hstate])⟩

theorem atSocketRecvCb_keeps {fd : Nat} {buff : Option Bytes} {pktOk nodeOk : Bool}
    (h : atSocketRecvCb s fd buff pktOk nodeOk = some s') : Keeps s s' := by
  unfold atSocketRecvCb at h
  split at h
  · cases h
    exact .refl s
  split at h
  · cases h
  split at h
  · cases h
  · cases h
    exact .set rfl rfl

theorem atSocketClosedCb_keeps (s : AtSockets) (fd : Nat) : Keeps s (atSocketClosedCb s fd) := by
  unfold atSocketClosedCb
  split
  · exact .refl s
  · rename_i i hfind
    intro hs
    have hconn := hs.connected hfind
    exact ⟨hs.set_unused (fun h => nomatch h) rfl,
      .set (iff_of_false (fun h => nomatch h) (by rw [hconn]; exact fun h => nomatch h))⟩

theorem event_keeps : ∀ (e : DeviceEvent), s.event e = some s' → Keeps s s'
  | .recv .., h => atSocketRecvCb_keeps h
  | .closed fd, h => by
    cases h
    exact atSocketClosedCb_keeps s fd

theorem events_keeps {s s' : AtSockets} (es : List DeviceEvent) (h : s.events es = some s') :
    Keeps s s' := by
  induction es generalizing s with
  | nil =>
    cases h
    exact .refl _
  | cons e es ih =>
    obtain ⟨t, hfirst, hrest⟩ := Option.bind_eq_some_iff.mp h
    exact (event_keeps e hfirst).trans (ih hrest)

/-! ## What the calls keep -/

theorem atSocketClose_keeps {fd rc r : Int} {during : List DeviceEvent}
    (h : atSocketClose s fd during rc = some (r, s')) : Keeps s s' := by
  unfold atSocketClose at h
  split at h
  · cases h
    exact .refl s
  split at h
  · cases h
    exact .refl s
  split at h
  · obtain ⟨t, hevents, heq⟩ := Option.map_eq_some_iff.mp h
    cases heq
    exact events_keeps during hevents
  · cases h
    exact .refl s

theorem atSocketRecv_keeps {fd r : Int} {len : Nat} {during : List DeviceEvent} {iterOk : Bool}
    {bytes : Bytes} (h : atSocketRecv s fd len during iterOk = some (r, bytes, s')) :
    Keeps s s' := by
  unfold atSocketRecv at h
  split at h
  · cases h
    exact .refl s
  split at h
  · cases h
    exact .refl s
  split at h
  · cases h
    exact .refl s
  split at h
  · cases h
    exact .refl s
  split at h
  · cases h
  · rename_i pktList hlist
    obtain ⟨t, hevents, heq⟩ := Option.bind_eq_some_iff.mp h
    have hkeeps : Keeps s t := by
      split at hevents
      · exact events_keeps during hevents
      · cases hevents
        exact .refl s
    split at heq
    · cases heq
    · cases heq
      exact hkeeps.trans (.set rfl rfl)

/-- **What the allocation does**: it finds no closed entry, or runs out of memory and gives the
entry back, or takes a closed entry. -/
theorem atSocketCtxAlloc_keeps (s : AtSockets) (env : AllocEnv) (hs : Consistent s) :
    Consistent (atSocketCtxAlloc s env).2 ∧
      match (atSocketCtxAlloc s env).1 with
      | none => SameAlloced s (atSocketCtxAlloc s env).2
      | some i => ((atSocketCtxAlloc s env).2.ctxs i).state = .alloced ∧
          ((atSocketCtxAlloc s env).2.ctxs i).devOp = s.deviceOps ∧
          ∀ j, j ≠ i → (atSocketCtxAlloc s env).2.ctxs j = s.ctxs j := by
  unfold atSocketCtxAlloc
  split
  · exact ⟨hs, .refl s⟩
  · rename_i i hfind
    have hclosed : (s.ctxs i).state = .closed := of_decide_eq_true (AtSockets.of_find hfind)
    have hunused : (s.ctxs i).fd = unusedSocket := hs.fd_of_not (by rw [hclosed]; exact fun h => nomatch h)
    split
    · exact ⟨hs.set_same rfl hunused.symm, .set Iff.rfl⟩
    split
    · exact ⟨hs.set_same rfl hunused.symm, .set Iff.rfl⟩
    · refine ⟨hs.set_unused (fun h => nomatch h) hunused, ?_, ?_, fun j hj => s.set_other _ hj⟩
      · rw [AtSockets.set_self]
      · rw [AtSockets.set_self]

/-! ## Runs -/

/-- A call, with what comes of it and what comes in meanwhile; or an event in between. -/
inductive Call where
  | connect (env : AllocEnv) (during : List DeviceEvent) (fd : Int)
  | close (fd : Int) (during : List DeviceEvent) (rc : Int)
  | recv (fd : Int) (len : Nat) (during : List DeviceEvent) (iterOk : Bool)
  | event (e : DeviceEvent)
  deriving DecidableEq, Repr

def AtSockets.call (s : AtSockets) : Call → Option AtSockets
  | .connect env during fd => (atSocketConnect s env during fd).map (·.2)
  | .close fd during rc => (atSocketClose s fd during rc).map (·.2)
  | .recv fd len during iterOk => (atSocketRecv s fd len during iterOk).map (·.2.2)
  | .event e => s.event e

/-- One step; a program that has ended stays so. -/
def callStep (s : Option AtSockets) (c : Call) : Option AtSockets := s.bind (·.call c)

/-- The driver's `connect` does not return a socket that a connected entry has. -/
def DriverFresh (s : AtSockets) : Call → Prop
  | .connect env during fd => (atSocketCtxAlloc s env).1 = none ∨
      ∀ t ∈ (atSocketCtxAlloc s env).2.events during, ∀ i, (t.ctxs i).state = .connected →
        (t.ctxs i).fd ≠ fd + maxAtSocketNum
  | _ => True

/-- A connect that takes an entry does not fail: there is a driver, and its `connect`, once it
returns, has a socket. -/
def ConnectSucceeds (s : AtSockets) : Call → Prop
  | .connect env during fd => (atSocketCtxAlloc s env).1 = none ∨
      (s.deviceOps.any (·.connect) = true ∧
        (((atSocketCtxAlloc s env).2.events during).isNone = true ∨ 0 ≤ fd))
  | _ => True

/-- Each entry is connected, with a socket no other one has, or closed. -/
def SlotsOk (s : AtSockets) : Prop :=
  ∀ i, ((s.ctxs i).state = .connected ∧ ∀ j, j ≠ i → (s.ctxs j).fd ≠ (s.ctxs i).fd) ∨
    (s.ctxs i).state = .closed

/-- The number of open sockets. -/
def openSockets (s : AtSockets) : Nat :=
  (List.finRange maxAtSocketNum).countP fun i => (s.ctxs i).state = .connected

/-- A connect finds an entry as long as fewer than all are open. -/
def SlotFound (s : AtSockets) : Prop :=
  openSockets s < maxAtSocketNum → (atSocketCtxAlloc s {}).1 ≠ none

theorem slotsOk_iff (hs : Consistent s) : SlotsOk s ↔ Unalloced s := by
  constructor
  · intro h i hi
    rcases h i with ⟨hstate, -⟩ | hstate <;> rw [hi] at hstate <;> cases hstate
  · intro h i
    cases hi : (s.ctxs i).state with
    | alloced => exact absurd hi (h i)
    | closed => exact .inr rfl
    | connected =>
      refine .inl ⟨rfl, fun j hj heq => ?_⟩
      rcases hs.fd_of j with ⟨hconn, -⟩ | ⟨-, hunused⟩
      · exact hj (hs.own j i hconn hi heq)
      · rcases hs.fd_of i with ⟨-, hle⟩ | ⟨hnot, -⟩
        · rw [← heq, hunused] at hle
          exact absurd hle (by decide)
        · exact hnot hi

/-- An entry that is not open is closed, and found. -/
theorem slotFound_of_unalloced (h : Unalloced s) : SlotFound s := by
  intro hlt hnone
  refine Nat.ne_of_lt hlt ?_
  have hfind : s.find (fun ctx => ctx.state = .closed) = none := by
    rcases hfind : s.find (fun ctx => ctx.state = .closed) with - | i
    · rfl
    · unfold atSocketCtxAlloc at hnone
      rw [hfind] at hnone
      cases hnone
  have hall : ∀ i ∈ List.finRange maxAtSocketNum, decide ((s.ctxs i).state = .connected) = true := by
    intro i _
    have hnot := AtSockets.find_none hfind i
    cases hi : (s.ctxs i).state with
    | alloced => exact absurd hi (h i)
    | closed => exact absurd hi (of_decide_eq_false hnot)
    | connected => rfl
  rw [openSockets, List.countP_eq_length.mpr hall, List.length_finRange]

/-- **A connect** keeps the table consistent, and gives back the entry that it takes iff it does not
fail. -/
theorem atSocketConnect_unalloced {env : AllocEnv} {during : List DeviceEvent} {fd r : Int}
    (hs : Consistent s) (hun : Unalloced s) (hfresh : DriverFresh s (.connect env during fd))
    (h : atSocketConnect s env during fd = some (r, s')) :
    Consistent s' ∧ (Unalloced s' ↔ ConnectSucceeds s (.connect env during fd)) := by
  obtain ⟨hs₁, htaken⟩ := atSocketCtxAlloc_keeps s env hs
  dsimp only [DriverFresh] at hfresh
  dsimp only [ConnectSucceeds]
  unfold atSocketConnect at h
  rcases hres : atSocketCtxAlloc s env with ⟨found, s₁⟩
  rw [hres] at h hfresh hs₁ htaken
  dsimp only at h hfresh hs₁ htaken ⊢
  rcases found with - | i
  · cases h
    exact ⟨hs₁, iff_of_true (SameAlloced.unalloced htaken hun) (.inl rfl)⟩
  obtain ⟨hstate, hop, hothers⟩ := htaken
  have hleak : ∀ t : AtSockets, (t.ctxs i).state = .alloced → ¬ Unalloced t := fun t ht hun => hun i ht
  dsimp only at h
  rw [hop] at h
  rcases hops : s.deviceOps with - | op <;> rw [hops] at h
  · cases h
    exact ⟨hs₁, iff_of_false (hleak _ hstate) (by simp)⟩
  dsimp only at h
  by_cases hconnect : op.connect = true
  · rw [if_neg (not_not_intro hconnect)] at h
    obtain ⟨t, hevents, heq⟩ := Option.map_eq_some_iff.mp h
    obtain ⟨ht, hsame⟩ := events_keeps during hevents hs₁
    have hti : (t.ctxs i).state = .alloced := (hsame i).mpr hstate
    by_cases hfd : fd < 0
    · rw [if_pos hfd] at heq
      cases heq
      refine ⟨ht.set_unused (by rw [atSocketCtxFree, hti]; exact fun h => nomatch h) rfl,
        iff_of_false (hleak _ ?_) ?_⟩
      · rw [AtSockets.set_self]
        exact hti
      · rw [hevents]
        simp [hfd]
    · rw [if_neg hfd] at heq
      cases heq
      refine ⟨ht.set_connected (by dsimp only; omega) rfl fun j _ hj => ?_, iff_of_true ?_ ?_⟩
      · exact (hfresh.resolve_left (fun h => nomatch h)) t hevents j hj
      · intro j
        by_cases hj : j = i
        · rw [hj, AtSockets.set_self]
          exact fun h => nomatch h
        · rw [AtSockets.set_other t _ hj]
          intro hjs
          have hj₁ := (hsame j).mp hjs
          rw [hothers j hj] at hj₁
          exact hun j hj₁
      · exact .inr ⟨hconnect, .inr (by omega)⟩
  · rw [if_pos hconnect] at h
    cases h
    exact ⟨hs₁, iff_of_false (hleak _ hstate) (by simp [hconnect])⟩

/-- A connect in which the program ends has not failed. -/
theorem connectSucceeds_of_none {env : AllocEnv} {during : List DeviceEvent} {fd : Int}
    (hs : Consistent s) (h : atSocketConnect s env during fd = none) :
    ConnectSucceeds s (.connect env during fd) := by
  obtain ⟨-, htaken⟩ := atSocketCtxAlloc_keeps s env hs
  dsimp only [ConnectSucceeds]
  unfold atSocketConnect at h
  rcases hres : atSocketCtxAlloc s env with ⟨found, s₁⟩
  rw [hres] at h htaken
  rcases found with - | i
  · exact .inl rfl
  obtain ⟨-, hop, -⟩ := htaken
  dsimp only at h hop
  rw [hop] at h
  rcases hops : s.deviceOps with - | op <;> rw [hops] at h
  · cases h
  dsimp only at h
  by_cases hconnect : op.connect = true
  · rw [if_neg (not_not_intro hconnect)] at h
    exact .inr ⟨hconnect, .inl (by rw [Option.map_eq_none_iff.mp h]; rfl)⟩
  · rw [if_pos hconnect] at h
    cases h

/-- A table between two calls: consistent, with no entry taken, if there is one. -/
def Settled (s : Option AtSockets) : Prop := ∀ t ∈ s, Consistent t ∧ Unalloced t

/-- After every call the entries are as they should be. -/
def SlotsOkAfter (s : Option AtSockets) (c : Call) : Prop :=
  ∀ t ∈ callStep s c, SlotsOk t ∧ SlotFound t

theorem keeps_settled (hs : Consistent s) (hun : Unalloced s) (h : Keeps s s') :
    Consistent s' ∧ Unalloced s' := by
  obtain ⟨hs', hsame⟩ := h hs
  exact ⟨hs', hsame.unalloced hun⟩

/-- One call, from a table between two calls. -/
theorem call_settled (hs : Consistent s) (hun : Unalloced s) (c : Call) (hfresh : DriverFresh s c) :
    (∀ t ∈ s.call c, Consistent t ∧ (Unalloced t ↔ ConnectSucceeds s c)) ∧
      (s.call c = none → ConnectSucceeds s c) := by
  have hkept : ∀ t, Keeps s t → Consistent t ∧ (Unalloced t ↔ True) := fun t h =>
    ⟨(h hs).1, iff_true_intro (keeps_settled hs hun h).2⟩
  cases c with
  | connect env during fd =>
    refine ⟨fun t ht => ?_, fun h => connectSucceeds_of_none hs (Option.map_eq_none_iff.mp h)⟩
    obtain ⟨⟨r, t'⟩, hcall, rfl⟩ := Option.map_eq_some_iff.mp ht
    exact atSocketConnect_unalloced hs hun hfresh hcall
  | close fd during rc =>
    refine ⟨fun t ht => ?_, fun _ => trivial⟩
    obtain ⟨⟨r, t'⟩, hcall, rfl⟩ := Option.map_eq_some_iff.mp ht
    exact hkept t' (atSocketClose_keeps hcall)
  | recv fd len during iterOk =>
    refine ⟨fun t ht => ?_, fun _ => trivial⟩
    obtain ⟨⟨r, bytes, t'⟩, hcall, rfl⟩ := Option.map_eq_some_iff.mp ht
    exact hkept t' (atSocketRecv_keeps hcall)
  | event e => exact ⟨fun t ht => hkept t (event_keeps e ht), fun _ => trivial⟩

theorem callStep_settled (s : Option AtSockets) (c : Call) (hs : Settled s)
    (hfresh : ∀ t ∈ s, DriverFresh t c) :
    (SlotsOkAfter s c ↔ ∀ t ∈ s, ConnectSucceeds t c) ∧
      ((∀ t ∈ s, ConnectSucceeds t c) → Settled (callStep s c)) := by
  rcases s with - | s
  · have hnone : ∀ {p : AtSockets → Prop}, ∀ t ∈ (none : Option AtSockets), p t :=
      fun _ h => nomatch h
    exact ⟨iff_of_true hnone hnone, fun _ => hnone⟩
  obtain ⟨hcons, hun⟩ := hs s rfl
  obtain ⟨hafter, hend⟩ := call_settled hcons hun c (hfresh s rfl)
  have hok : (∀ t ∈ some s, ConnectSucceeds t c) ↔ ConnectSucceeds s c :=
    ⟨fun h => h s rfl, fun h t ht => Option.mem_some_iff.mp ht ▸ h⟩
  rw [hok]
  refine ⟨⟨fun h => ?_, fun h t ht => ?_⟩, fun h t ht => ?_⟩
  · rcases hcall : s.call c with - | t
    · exact hend hcall
    · obtain ⟨ht, hiff⟩ := hafter t hcall
      exact hiff.mp ((slotsOk_iff ht).mp (h t hcall).1)
  · obtain ⟨hcons', hiff⟩ := hafter t ht
    exact ⟨(slotsOk_iff hcons').mpr (hiff.mpr h), slotFound_of_unalloced (hiff.mpr h)⟩
  · obtain ⟨hcons', hiff⟩ := hafter t ht
    exact ⟨hcons', hiff.mpr h⟩

/-- The table as it is initialised. -/
theorem settled_init (ops : Option AtDeviceOp) : Settled (some { deviceOps := ops }) := by
  intro t ht
  obtain rfl := Option.mem_some_iff.mp ht
  exact ⟨⟨fun i => .inr ⟨fun h => (nomatch h : False), rfl⟩, fun i j h => nomatch h⟩, fun i h => nomatch h⟩

/-- **The entries of the table**, in every run in which the driver does not hand out a socket twice:
after each call every entry is closed or connected with a socket of its own, and a connect finds one
as long as fewer than all are open, iff no connect that takes an entry fails. -/
theorem slots_ok_iff (ops : Option AtDeviceOp) (calls : List Call)
    (h : Meets callStep (fun s c => ∀ t ∈ s, DriverFresh t c) (some { deviceOps := ops }) calls) :
    Meets callStep SlotsOkAfter (some { deviceOps := ops }) calls ↔
      Meets callStep (fun s c => ∀ t ∈ s, ConnectSucceeds t c) (some { deviceOps := ops }) calls :=
  meets_iff_of_invariant_of Settled callStep_settled calls (settled_init ops) h

/-- A driver with all its functions. -/
def exampleDevice : AtDeviceOp := ⟨true, true, true⟩

/-- A connect that the driver gives link 0, which is then closed by the peer. -/
def connectClosed : List Call := [.connect {} [] 0, .event (.closed 0)]

theorem slots_ok_connectClosed :
    Meets callStep SlotsOkAfter (some { deviceOps := some exampleDevice }) connectClosed := by
  refine (slots_ok_iff (some exampleDevice) connectClosed ⟨?_, ?_, trivial⟩).mpr ⟨?_, ?_, trivial⟩
  · intro t ht
    obtain rfl := Option.mem_some_iff.mp ht
    refine .inr fun t ht => ?_
    obtain rfl := Option.mem_some_iff.mp ht
    decide
  · exact fun t _ => trivial
  · intro t ht
    obtain rfl := Option.mem_some_iff.mp ht
    exact .inr ⟨rfl, .inr (by decide)⟩
  · exact fun t _ => trivial

/-- Five connects that the driver refuses. -/
def fiveRefused : List Call := List.replicate 5 (.connect {} [] (-1))

/-- No entry is closed or connected then, and the sixth connect finds none. -/
theorem slots_leaked :
    ¬ Meets callStep SlotsOkAfter (some { deviceOps := some exampleDevice }) fiveRefused ∧
    ∃ t ∈ run callStep (some { deviceOps := some exampleDevice }) fiveRefused,
      openSockets t = 0 ∧ (∀ i, (t.ctxs i).state = .alloced) ∧
        (atSocketConnect t {} [] 0).map (·.1) = some qcloudErrFailure := by
  refine ⟨fun h => ?_, _, rfl, ?_, ?_, ?_⟩
  · have hfirst := (h.1 _ rfl).1 ⟨0, by decide⟩
    revert hfirst
    decide
  all_goals decide

end QcloudIot.At
