import Mathlib.Logic.Function.Basic
import Mathlib.Logic.Relation
import Mathlib.Tactic.Common

/-!
# Threads that take locks in one order

Code as its locks see it (`Stmt`): what a branch or a loop depends on is data that other threads
may change at any time, so either branch, and any number of rounds, is possible. A thread is the
code still to be done in its innermost call and in the callers, and the locks it holds; a system
is any number of threads, which take steps in any order and start operations when they are idle.
A lock is taken only while no thread holds it, the one that wants it included.

`Stmt.check` goes through the code once and follows the locks held. It asks for three things: a
lock ranks above all locks held where it is taken, only a held lock is given back, and a function
returns with the locks it was called with.

* `then_lock` … `then_call`: what the check says of each statement;
* `Thread.Checked.step`: a step of a thread stays inside checked code, so `checked_of_reachable`:
  in every reachable state every thread is;
* `Thread.Checked.lock_above`, `.unlock_held`, `.idle_held`: what that says of a thread;
* **`not_waits_cycle`**: no threads wait for each other in a circle.
-/

namespace QcloudIot.Lib

/-- A statement, with nothing but its locking and its flow of control. -/
inductive Stmt (L : Type) where
  | skip
  | lock (l : L)
  | unlock (l : L)
  | seq (s t : Stmt L)
  /-- One of two branches. -/
  | choice (s t : Stmt L)
  /-- Any number of rounds. -/
  | loop (s : Stmt L)
  /-- Back to the caller. -/
  | ret
  /-- The body of a function. -/
  | call (body : Stmt L)

/-- Where a statement ends: it falls through with these locks, it never ends but by a return, or
it breaks a rule on some path. -/
inductive Outcome (L : Type) where
  | falls (held : List L)
  | returns
  | breaks
  deriving DecidableEq

namespace Outcome

variable {L : Type}

/-- No rule is broken, and `P` holds of the locks held where the statement falls through. -/
def Then (P : List L → Prop) : Outcome L → Prop
  | .falls h => P h
  | .returns => True
  | .breaks => False

/-- Two branches that fall through have to leave the same locks. -/
def merge [DecidableEq L] : Outcome L → Outcome L → Outcome L
  | .falls h, .falls h' => if h = h' then .falls h else .breaks
  | .returns, o => o
  | o, .returns => o
  | _, _ => .breaks

theorem then_merge [DecidableEq L] {P : List L → Prop} {o o' : Outcome L}
    (h : (o.merge o').Then P) : o.Then P ∧ o'.Then P := by
  cases o with
  | falls a =>
    cases o' with
    | falls b =>
      simp only [merge] at h
      split at h
      · rename_i hab
        exact ⟨h, hab ▸ h⟩
      · exact h.elim
    | returns => exact ⟨h, trivial⟩
    | breaks => exact h.elim
  | returns => exact ⟨trivial, by cases o' <;> exact h⟩
  | breaks => cases o' <;> exact h.elim

end Outcome

namespace Stmt

variable {L : Type}

/-- One statement after the other. -/
def block : List (Stmt L) → Stmt L
  | [] => .skip
  | s :: ss => .seq s (block ss)

/-- A branch that may be passed by. -/
def maybe (ss : List (Stmt L)) : Stmt L := .choice (block ss) .skip

/-- A branch that ends in a return. -/
def bail (ss : List (Stmt L)) : Stmt L := .choice (block (ss ++ [.ret])) .skip

variable [DecidableEq L] (rank : L → Nat)

/-- The rules, for a statement of a function called with the locks `entry`, reached with the locks
`h`. -/
def check : Stmt L → (entry h : List L) → Outcome L
  | .skip, _, h => .falls h
  | .lock l, _, h => if ∀ m ∈ h, rank m < rank l then .falls (l :: h) else .breaks
  | .unlock l, _, h => if l ∈ h then .falls (h.erase l) else .breaks
  | .seq s t, entry, h =>
    match check s entry h with
    | .falls h' => check t entry h'
    | o => o
  | .choice s t, entry, h => (check s entry h).merge (check t entry h)
  -- a round has to end with the locks it began with
  | .loop s, entry, h =>
    match check s entry h with
    | .falls h' => if h' = h then .falls h else .breaks
    | .returns => .falls h
    | .breaks => .breaks
  | .ret, entry, h => if h = entry then .returns else .breaks
  | .call body, _, h =>
    match check body h h with
    | .falls h' => if h' = h then .falls h else .breaks
    | .returns => .falls h
    | .breaks => .breaks

/-- An operation that may be started without a lock. -/
def Disciplined (s : Stmt L) : Prop := (call s).check rank [] [] = .falls []

instance (s : Stmt L) : Decidable (s.Disciplined rank) := inferInstanceAs (Decidable (_ = _))

variable {rank} {entry h : List L} {P : List L → Prop}

theorem then_lock {l : L} (hs : ((lock l).check rank entry h).Then P) :
    (∀ m ∈ h, rank m < rank l) ∧ P (l :: h) := by
  simp only [check] at hs
  split at hs
  · exact ⟨‹_›, hs⟩
  · exact hs.elim

theorem then_unlock {l : L} (hs : ((unlock l).check rank entry h).Then P) :
    l ∈ h ∧ P (h.erase l) := by
  simp only [check] at hs
  split at hs
  · exact ⟨‹_›, hs⟩
  · exact hs.elim

theorem then_seq {s t : Stmt L} (hs : ((seq s t).check rank entry h).Then P) :
    (s.check rank entry h).Then fun h' => (t.check rank entry h').Then P := by
  simp only [check] at hs
  cases heq : s.check rank entry h with
  | falls h' =>
    simp only [heq] at hs
    exact hs
  | returns => trivial
  | breaks => simp only [heq, Outcome.Then] at hs

theorem then_loop {s : Stmt L} (hs : ((loop s).check rank entry h).Then P) :
    P h ∧ (s.check rank entry h).Then fun h' => ((loop s).check rank entry h').Then P := by
  have hround := hs
  simp only [check] at hs
  cases heq : s.check rank entry h with
  | falls h' =>
    simp only [heq] at hs
    split at hs
    · rename_i hsame
      exact ⟨hs, hsame ▸ hround⟩
    · exact hs.elim
  | returns =>
    simp only [heq] at hs
    exact ⟨hs, trivial⟩
  | breaks => simp only [heq, Outcome.Then] at hs

theorem then_ret (hs : (ret.check rank entry h).Then P) : h = entry := by
  simp only [check] at hs
  split at hs
  · assumption
  · exact hs.elim

theorem then_call {body : Stmt L} (hs : ((call body).check rank entry h).Then P) :
    (body.check rank h h).Then (· = h) ∧ P h := by
  simp only [check] at hs
  cases heq : body.check rank h h with
  | falls h' =>
    simp only [heq] at hs
    split at hs
    · exact ⟨‹_›, hs⟩
    · exact hs.elim
  | returns =>
    simp only [heq] at hs
    exact ⟨trivial, hs⟩
  | breaks => simp only [heq, Outcome.Then] at hs

variable (rank) in
/-- The rules for the statements left in a call, up to its return. -/
def CheckAll (entry : List L) : List (Stmt L) → (h : List L) → Prop
  | [], h => h = entry
  | s :: k, h => (s.check rank entry h).Then (CheckAll entry k)

end Stmt

open Stmt

/-! ## Threads -/

/-- A thread: the statements left in its innermost call and then in the callers, and the locks it
holds. -/
structure Thread (L : Type) where
  frames : List (List (Stmt L))
  held : List L

namespace Thread

variable {L : Type} [DecidableEq L]

/-- A step of a thread while the locks `free` can be taken. -/
inductive Step (free : L → Prop) : Thread L → Thread L → Prop where
  | skip (k fs h) : Step free ⟨(.skip :: k) :: fs, h⟩ ⟨k :: fs, h⟩
  | lock (l k fs h) (hfree : free l) : Step free ⟨(.lock l :: k) :: fs, h⟩ ⟨k :: fs, l :: h⟩
  | unlock (l k fs h) : Step free ⟨(.unlock l :: k) :: fs, h⟩ ⟨k :: fs, h.erase l⟩
  | seq (s t k fs h) : Step free ⟨(.seq s t :: k) :: fs, h⟩ ⟨(s :: t :: k) :: fs, h⟩
  | left (s t k fs h) : Step free ⟨(.choice s t :: k) :: fs, h⟩ ⟨(s :: k) :: fs, h⟩
  | right (s t k fs h) : Step free ⟨(.choice s t :: k) :: fs, h⟩ ⟨(t :: k) :: fs, h⟩
  | done (s k fs h) : Step free ⟨(.loop s :: k) :: fs, h⟩ ⟨k :: fs, h⟩
  | again (s k fs h) : Step free ⟨(.loop s :: k) :: fs, h⟩ ⟨(s :: .loop s :: k) :: fs, h⟩
  | ret (k fs h) : Step free ⟨(.ret :: k) :: fs, h⟩ ⟨fs, h⟩
  | fall (fs h) : Step free ⟨[] :: fs, h⟩ ⟨fs, h⟩
  | call (body k fs h) : Step free ⟨(.call body :: k) :: fs, h⟩ ⟨[body] :: k :: fs, h⟩

/-- The calls a thread is in, innermost first, each checked up to its return. -/
inductive CheckedFrames (rank : L → Nat) : List (List (Stmt L)) → List L → Prop where
  | nil : CheckedFrames rank [] []
  | cons {k fs} {entry h : List L} (hk : CheckAll rank entry k h)
      (hfs : CheckedFrames rank fs entry) : CheckedFrames rank (k :: fs) h

/-- A thread inside checked code. -/
def Checked (rank : L → Nat) (t : Thread L) : Prop := CheckedFrames rank t.frames t.held

variable {rank : L → Nat} {free : L → Prop} {t t' : Thread L}

/-- **A step stays inside checked code.** -/
theorem Checked.step (h : t.Checked rank) (hstep : Step free t t') : t'.Checked rank := by
  cases hstep with
  | skip k fs held =>
    rcases h with - | ⟨hk, hfs⟩
    exact .cons hk hfs
  | lock l k fs held =>
    rcases h with - | ⟨hk, hfs⟩
    exact .cons (then_lock hk).2 hfs
  | unlock l k fs held =>
    rcases h with - | ⟨hk, hfs⟩
    exact .cons (then_unlock hk).2 hfs
  | seq s t k fs held =>
    rcases h with - | ⟨hk, hfs⟩
    exact .cons (then_seq hk) hfs
  | left s t k fs held =>
    rcases h with - | ⟨hk, hfs⟩
    exact .cons (Outcome.then_merge hk).1 hfs
  | right s t k fs held =>
    rcases h with - | ⟨hk, hfs⟩
    exact .cons (Outcome.then_merge hk).2 hfs
  | done s k fs held =>
    rcases h with - | ⟨hk, hfs⟩
    exact .cons (then_loop hk).1 hfs
  | again s k fs held =>
    rcases h with - | ⟨hk, hfs⟩
    exact .cons (then_loop hk).2 hfs
  | ret k fs held =>
    rcases h with - | @⟨_, _, entry, _, hk, hfs⟩
    have heq : held = entry := then_ret hk
    subst heq
    exact hfs
  | fall fs held =>
    rcases h with - | @⟨_, _, entry, _, hk, hfs⟩
    have heq : held = entry := hk
    subst heq
    exact hfs
  | call body k fs held =>
    rcases h with - | ⟨hk, hfs⟩
    exact .cons (then_call hk).1 (.cons (then_call hk).2 hfs)

/-- A lock about to be taken ranks above all locks held; so it is none of them. -/
theorem Checked.lock_above (h : t.Checked rank) {l : L} {k : List (Stmt L)}
    {fs : List (List (Stmt L))} (hnext : t.frames = (.lock l :: k) :: fs) :
    ∀ m ∈ t.held, rank m < rank l := by
  unfold Checked at h
  rw [hnext] at h
  rcases h with - | ⟨hk, -⟩
  exact (then_lock hk).1

/-- A lock about to be given back is held. -/
theorem Checked.unlock_held (h : t.Checked rank) {l : L} {k : List (Stmt L)}
    {fs : List (List (Stmt L))} (hnext : t.frames = (.unlock l :: k) :: fs) : l ∈ t.held := by
  unfold Checked at h
  rw [hnext] at h
  rcases h with - | ⟨hk, -⟩
  exact (then_unlock hk).1

/-- Between two operations no lock is held. -/
theorem Checked.idle_held (h : t.Checked rank) (hidle : t.frames = []) : t.held = [] := by
  unfold Checked at h
  rw [hidle] at h
  generalize t.held = held at h
  cases h
  rfl

end Thread

/-! ## Systems of threads -/

/-- The threads of a system. -/
abbrev Threads (ι L : Type) := ι → Thread L

namespace Threads

variable {ι L : Type} [DecidableEq L]

/-- All threads between two operations. -/
def idle : Threads ι L := fun _ => ⟨[], []⟩

/-- A step of the system: a thread `i` that is idle starts an operation it `may` do, or a thread
takes a step. -/
inductive Step [DecidableEq ι] (may : ι → Stmt L → Prop) (S : Threads ι L) : Threads ι L → Prop where
  | start (i : ι) (body : Stmt L) (hidle : (S i).frames = []) (hmay : may i body) :
      Step may S (Function.update S i ⟨[[.call body]], (S i).held⟩)
  | run (i : ι) (t : Thread L) (h : Thread.Step (fun l => ∀ j, l ∉ (S j).held) (S i) t) :
      Step may S (Function.update S i t)

/-- What the threads can get to from being idle. -/
def Reachable [DecidableEq ι] (may : ι → Stmt L → Prop) (S : Threads ι L) : Prop :=
  Relation.ReflTransGen (Step may) idle S

/-- Thread `i` is at a lock that thread `j` holds. -/
def Waits (S : Threads ι L) (i j : ι) : Prop :=
  ∃ l k fs, (S i).frames = (.lock l :: k) :: fs ∧ l ∈ (S j).held

variable {may : ι → Stmt L → Prop} {rank : L → Nat} {S : Threads ι L}

/-- **Every thread stays inside checked code**, when the operations are. -/
theorem checked_of_reachable [DecidableEq ι] (hmay : ∀ i body, may i body → body.Disciplined rank)
    (h : Reachable may S) (i : ι) : (S i).Checked rank := by
  induction h generalizing i with
  | refl => exact .nil
  | tail _ hstep ih =>
    cases hstep with
    | start j body hidle hop =>
      by_cases hij : i = j
      · subst hij
        rw [Function.update_self]
        have hheld := (ih i).idle_held hidle
        have hbody : CheckAll rank [] [.call body] [] := by
          show Outcome.Then _ _
          rw [hmay i body hop]
          rfl
        show Thread.CheckedFrames rank [[.call body]] (Thread.held _)
        rw [hheld]
        exact .cons hbody .nil
      · rw [Function.update_of_ne hij]
        exact ih i
    | run j t hrun =>
      by_cases hij : i = j
      · subst hij
        rw [Function.update_self]
        exact (ih i).step hrun
      · rw [Function.update_of_ne hij]
        exact ih i

/-- Along a chain of waiting threads the locks rank higher and higher. -/
theorem rank_of_waits (hS : ∀ i, (S i).Checked rank) {i j : ι}
    (h : Relation.TransGen (Waits S) i j) :
    ∃ l k fs m, (S i).frames = (.lock l :: k) :: fs ∧ m ∈ (S j).held ∧ rank l ≤ rank m := by
  induction h with
  | single h =>
    obtain ⟨l, k, fs, hnext, hheld⟩ := h
    exact ⟨l, k, fs, l, hnext, hheld, Nat.le_refl _⟩
  | tail _ h ih =>
    obtain ⟨l, k, fs, m, hnext, hm, hle⟩ := ih
    obtain ⟨l', k', fs', hnext', hheld'⟩ := h
    have hlt := (hS _).lock_above hnext' m hm
    exact ⟨l, k, fs, l', hnext, hheld', by omega⟩

/-- **No threads wait for each other in a circle.** -/
theorem not_waits_cycle (hS : ∀ i, (S i).Checked rank) (i : ι) :
    ¬ Relation.TransGen (Waits S) i i := by
  intro h
  obtain ⟨l, k, fs, m, hnext, hm, hle⟩ := rank_of_waits hS h
  have hlt := (hS i).lock_above hnext m hm
  omega

end Threads

end QcloudIot.Lib
