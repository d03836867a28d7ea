import Mathlib.Data.List.Basic

/-!
# Writers into a fixed room

A writer gets the room that is left as a number and returns how much it has written, or an error;
what it wrote stays written either way. `andThen` runs a second writer behind a first one: the room
goes down by the number returned, in arithmetic modulo `M`, and the result remembers whether that
went below zero.

* `Within`: a result that stays in its room and reports its own length;
* `Within.andThen`: two writers that stay in their rooms do so together;
* `Writes`, `Writes.andThen`: what a succession that succeeds has written.
-/

namespace QcloudIot.Lib

variable {ε α : Type}

/-- What a writer returns, what it wrote, and whether the room went below zero. -/
structure Written (ε α : Type) where
  rc : Except ε Nat
  out : List α
  wrapped : Bool

/-- `a - b` modulo `M`. -/
def modSub (M a b : Nat) : Nat := (a + (M - b % M)) % M

theorem modSub_of_le {M a b : Nat} (ha : a < M) (hb : b ≤ a) : modSub M a b = a - b := by
  unfold modSub
  rw [Nat.mod_eq_of_lt (by omega : b < M), show a + (M - b) = a - b + M by omega,
    Nat.add_mod_right, Nat.mod_eq_of_lt (by omega)]

namespace Written

/-- All of `out` was written. -/
def done (out : List α) : Written ε α := ⟨.ok out.length, out, false⟩

/-- Refused before anything was written. -/
def refused (e : ε) : Written ε α := ⟨.error e, [], false⟩

/-- `k` behind `w`, in what `w` leaves of the room. -/
def andThen (M room : Nat) (w : Written ε α) (k : Nat → Written ε α) : Written ε α :=
  match w.rc with
  | .error _ => w
  | .ok n =>
    let next := k (modSub M room n)
    { rc := next.rc.map (n + ·)
      out := w.out ++ next.out
      wrapped := w.wrapped || decide (room < n) || next.wrapped }

/-- The result of a writer behind `out`. -/
def behind (out : List α) (w : Written ε α) : Written ε α :=
  { rc := w.rc.map (out.length + ·), out := out ++ w.out, wrapped := w.wrapped }

/-- The result stays in its room. -/
structure Within (w : Written ε α) (room : Nat) : Prop where
  length_le : w.out.length ≤ room
  noWrap : w.wrapped = false
  rc_length : ∀ n, w.rc = .ok n → n = w.out.length

theorem within_done {out : List α} {room : Nat} (h : out.length ≤ room) :
    (done out : Written ε α).Within room :=
  ⟨h, rfl, fun _ he => (Except.ok.inj he).symm⟩

theorem within_refused (e : ε) (room : Nat) : (refused e : Written ε α).Within room :=
  ⟨Nat.zero_le _, rfl, fun _ he => nomatch he⟩

/-- A result that is no error has written `out` and reports its length. -/
def Writes (w : Written ε α) (out : List α) : Prop :=
  ∀ n, w.rc = .ok n → n = out.length ∧ w.out = out

theorem writes_done (out : List α) : (done out : Written ε α).Writes out :=
  fun _ h => ⟨(Except.ok.inj h).symm, rfl⟩

theorem writes_refused (e : ε) (out : List α) : (refused e : Written ε α).Writes out :=
  fun _ h => nomatch h

theorem writes_ite {c : Prop} [Decidable c] {w₁ w₂ : Written ε α} {out : List α}
    (h₁ : w₁.Writes out) (h₂ : w₂.Writes out) : (if c then w₁ else w₂).Writes out := by
  split
  · exact h₁
  · exact h₂

section

variable {M room n : Nat} {w : Written ε α} {k : Nat → Written ε α}

theorem andThen_of_error {e : ε} (h : w.rc = .error e) : w.andThen M room k = w := by
  unfold andThen
  rw [h]

theorem andThen_of_ok (h : w.rc = .ok n) :
    w.andThen M room k =
      { rc := (k (modSub M room n)).rc.map (n + ·)
        out := w.out ++ (k (modSub M room n)).out
        wrapped := w.wrapped || decide (room < n) || (k (modSub M room n)).wrapped } := by
  unfold andThen
  rw [h]

theorem done_andThen {out : List α} (hM : room < M) (h : out.length ≤ room) :
    (done out).andThen M room k = (k (room - out.length)).behind out := by
  rw [andThen_of_ok (w := done out) rfl, modSub_of_le hM h, decide_eq_false (Nat.not_lt.mpr h)]
  rfl

theorem behind_error {out : List α} {e : ε} : (w.behind out).rc = .error e ↔ w.rc = .error e := by
  unfold behind
  dsimp only
  cases w.rc with
  | error e' => rfl
  | ok n => exact ⟨fun h => (nomatch h), fun h => (nomatch h)⟩

theorem Within.behind {out : List α} (h : out.length ≤ room)
    (hw : w.Within (room - out.length)) : (w.behind out).Within room := by
  have hlen := hw.length_le
  refine ⟨?_, hw.noWrap, fun n hn => ?_⟩
  · rw [Written.behind, List.length_append]
    omega
  · unfold Written.behind at hn ⊢
    dsimp only at hn ⊢
    cases hrc : w.rc with
    | error e => rw [hrc] at hn; exact nomatch hn
    | ok a =>
      rw [hrc] at hn
      have hn' : out.length + a = n := Except.ok.inj hn
      have ha := hw.rc_length a hrc
      rw [List.length_append]
      omega

theorem Within.andThen (hM : room < M) (hw : w.Within room)
    (hk : ∀ n, w.rc = .ok n → (k (room - n)).Within (room - n)) :
    (w.andThen M room k).Within room := by
  cases hrc : w.rc with
  | error e => rw [andThen_of_error hrc]; exact hw
  | ok n =>
    have hn : n = w.out.length := hw.rc_length n hrc
    have hle : n ≤ room := hn ▸ hw.length_le
    have hnext := hk n hrc
    rw [andThen_of_ok hrc, modSub_of_le hM hle]
    refine ⟨?_, ?_, fun m hm => ?_⟩
    · have hlen := hnext.length_le
      rw [List.length_append]
      omega
    · rw [hw.noWrap, hnext.noWrap, decide_eq_false (by omega : ¬ room < n)]
      rfl
    · cases hm' : (k (room - n)).rc with
      | error e => rw [hm'] at hm; exact nomatch hm
      | ok m' =>
        rw [hm'] at hm
        have := hnext.rc_length m' hm'
        have : n + m' = m := Except.ok.inj hm
        rw [List.length_append]
        omega

/-- A succession fails as its first or its second writer does. -/
theorem andThen_error {e : ε} (h : (w.andThen M room k).rc = .error e) :
    w.rc = .error e ∨ ∃ n, w.rc = .ok n ∧ (k (modSub M room n)).rc = .error e := by
  cases hrc : w.rc with
  | error e' => rw [andThen_of_error hrc, hrc] at h; exact .inl h
  | ok n =>
    rw [andThen_of_ok hrc] at h
    refine .inr ⟨n, rfl, ?_⟩
    cases hk : (k (modSub M room n)).rc with
    | error e' => rw [hk] at h; exact h
    | ok m => rw [hk] at h; exact nomatch h

/-- **Two writers that succeed have written one behind the other.** -/
theorem Writes.andThen {out out' : List α} (hw : w.Writes out)
    (hk : ∀ room, (k room).Writes out') : (w.andThen M room k).Writes (out ++ out') := by
  intro n h
  cases hrc : w.rc with
  | error e => rw [andThen_of_error hrc, hrc] at h; exact nomatch h
  | ok a =>
    rw [andThen_of_ok hrc] at h ⊢
    obtain ⟨ha, hout⟩ := hw a hrc
    cases hb : (k (modSub M room a)).rc with
    | error e => rw [hb] at h; exact nomatch h
    | ok b =>
      rw [hb] at h
      obtain ⟨hb', hout'⟩ := hk _ b hb
      have hn : a + b = n := Except.ok.inj h
      rw [hout, hout', List.length_append]
      exact ⟨by omega, rfl⟩

theorem andThen_rc {b : Nat} (hM : room < M) (h : w.rc = .ok n) (hn : n ≤ room)
    (hk : (k (room - n)).rc = .ok b) : (w.andThen M room k).rc = .ok (n + b) := by
  rw [andThen_of_ok h, modSub_of_le hM hn, hk]
  rfl

theorem andThen_rc_error {e : ε} (hM : room < M) (h : w.rc = .ok n) (hn : n ≤ room)
    (hk : (k (room - n)).rc = .error e) : (w.andThen M room k).rc = .error e := by
  rw [andThen_of_ok h, modSub_of_le hM hn, hk]
  rfl

theorem andThen_wrapped (h : w.wrapped = true) : (w.andThen M room k).wrapped = true := by
  unfold andThen
  split
  · exact h
  · dsimp only
    rw [h]
    rfl

theorem andThen_wrapped_of_lt (h : w.rc = .ok n) (hlt : room < n) :
    (w.andThen M room k).wrapped = true := by
  rw [andThen_of_ok h, decide_eq_true hlt]
  simp

theorem andThen_wrapped_of_next (h : w.rc = .ok n) (hM : room < M) (hn : n ≤ room)
    (hk : (k (room - n)).wrapped = true) : (w.andThen M room k).wrapped = true := by
  rw [andThen_of_ok h, modSub_of_le hM hn, hk]
  simp

end

end Written

end QcloudIot.Lib
