import Mathlib.Data.List.Basic

/-!
# Runs of a state machine

A machine is a step function `step : σ → α → σ`; a run takes a list of actions. A condition
`ok : σ → α → Prop` on a state and the action taken there holds along a run when every step meets
it (`Meets`).

* `run_invariant`: what every such step preserves, every such run preserves; `run_preserves`
  without a condition;
* `meets_iff_of_invariant`, `meets_iff_of_invariant_of`: two conditions that an invariant makes the same;
* `run_record`, `run_view`: a record that grows with each step that does not meet the condition;
* `Leads`: that some run leads from one state to another;
* `forTo`: a counted loop.
-/

namespace QcloudIot.Lib

variable {σ α : Type*} (step : σ → α → σ) (ok : σ → α → Prop)

/-- The state after the actions `as`. -/
def run (s : σ) (as : List α) : σ := as.foldl step s

/-- Every step of the run meets the condition. -/
def Meets : σ → List α → Prop
  | _, [] => True
  | s, a :: as => ok s a ∧ Meets (step s a) as

instance Meets.decidable [∀ s a, Decidable (ok s a)] :
    ∀ (s : σ) (as : List α), Decidable (Meets step ok s as)
  | _, [] => .isTrue trivial
  | s, a :: as =>
    have := Meets.decidable (step s a) as
    inferInstanceAs (Decidable (ok s a ∧ Meets step ok (step s a) as))

variable {step ok}

@[simp] theorem run_nil (s : σ) : run step s [] = s := rfl

@[simp] theorem run_cons (s : σ) (a : α) (as : List α) :
    run step s (a :: as) = run step (step s a) as := rfl

theorem run_append (s : σ) (as bs : List α) :
    run step s (as ++ bs) = run step (run step s as) bs :=
  List.foldl_append

theorem meets_append {s : σ} {as bs : List α} :
    Meets step ok s (as ++ bs) ↔ Meets step ok s as ∧ Meets step ok (run step s as) bs := by
  induction as generalizing s with
  | nil => exact ⟨fun h => ⟨trivial, h⟩, And.right⟩
  | cons a as ih => simp only [List.cons_append, Meets, run_cons, ih, and_assoc]

theorem meets_and {ok' : σ → α → Prop} {s : σ} {as : List α} (h : Meets step ok s as)
    (h' : Meets step ok' s as) : Meets step (fun s a => ok s a ∧ ok' s a) s as := by
  induction as generalizing s with
  | nil => trivial
  | cons a as ih => exact ⟨⟨h.1, h'.1⟩, ih h.2 h'.2⟩

/-- A condition on the actions alone. -/
theorem meets_of_forall {p : α → Prop} {s : σ} {as : List α} (h : ∀ a ∈ as, p a) :
    Meets step (fun _ a => p a) s as := by
  induction as generalizing s with
  | nil => trivial
  | cons a as ih => exact ⟨h a List.mem_cons_self, ih fun b hb => h b (List.mem_cons_of_mem a hb)⟩

/-- A condition that follows, by an invariant, from another one. -/
theorem meets_imp_of_invariant {ok' : σ → α → Prop} (inv : σ → Prop)
    (hstep : ∀ s a, inv s → ok s a → inv (step s a) ∧ ok' s a) {s : σ} {as : List α} (hs : inv s)
    (h : Meets step ok s as) : Meets step ok' s as := by
  induction as generalizing s with
  | nil => trivial
  | cons a as ih =>
    obtain ⟨hnext, hok⟩ := hstep s a hs h.1
    exact ⟨hok, ih hnext h.2⟩

/-- A condition that follows from an invariant. -/
theorem meets_of_invariant (inv : σ → Prop) {p : α → Prop}
    (hstep : ∀ s a, inv s → p a → inv (step s a) ∧ ok s a) {s : σ} {as : List α} (hs : inv s)
    (h : ∀ a ∈ as, p a) : Meets step ok s as :=
  meets_imp_of_invariant inv hstep hs (meets_of_forall h)

/-- Two conditions that are the same wherever the invariant holds, which one of them preserves; `pre`
is assumed of every step. -/
theorem meets_iff_of_invariant_of {pre ok' : σ → α → Prop} (inv : σ → Prop)
    (hstep : ∀ s a, inv s → pre s a → (ok' s a ↔ ok s a) ∧ (ok s a → inv (step s a))) {s : σ}
    (as : List α) (hs : inv s) (hpre : Meets step pre s as) :
    Meets step ok' s as ↔ Meets step ok s as := by
  induction as generalizing s with
  | nil => exact Iff.rfl
  | cons a as ih =>
    obtain ⟨hiff, hnext⟩ := hstep s a hs hpre.1
    rw [Meets, Meets, hiff]
    exact and_congr_right fun h => ih (hnext h) hpre.2

theorem meets_iff_of_invariant {ok' : σ → α → Prop} (inv : σ → Prop)
    (hstep : ∀ s a, inv s → (ok' s a ↔ ok s a) ∧ (ok s a → inv (step s a))) {s : σ} (as : List α)
    (hs : inv s) : Meets step ok' s as ↔ Meets step ok s as :=
  meets_iff_of_invariant_of inv (fun s a hs _ => hstep s a hs) as hs
    (meets_of_forall (p := fun _ => True) fun _ _ => trivial)

/-- **Invariants**: a predicate that each step of the run preserves holds at its end. -/
theorem run_invariant (inv : σ → Prop) (hstep : ∀ s a, inv s → ok s a → inv (step s a)) {s : σ}
    (as : List α) (hs : inv s) (h : Meets step ok s as) : inv (run step s as) := by
  induction as generalizing s with
  | nil => exact hs
  | cons a as ih => exact ih (hstep s a hs h.1) h.2

/-- An invariant of every step is one of every run. -/
theorem run_preserves (inv : σ → Prop) (hstep : ∀ s a, inv s → inv (step s a)) {s : σ}
    (as : List α) (hs : inv s) : inv (run step s as) := by
  induction as generalizing s with
  | nil => exact hs
  | cons a as ih => exact ih (hstep s a hs)

/-- **A record of what goes wrong**: where a step from `s` to `s'` that `rel s new s'` relates adds
`new`, and nothing iff it meets the condition, a run adds nothing iff every step meets it. -/
theorem run_record {β : Type*} (rel : σ → List β → σ → Prop) (inv : σ → Prop)
    (hrefl : ∀ s, rel s [] s)
    (htrans : ∀ {s s' s'' xs ys}, rel s xs s' → rel s' ys s'' → rel s (xs ++ ys) s'')
    (hstep : ∀ s a, inv s → inv (step s a) ∧ ∃ new, rel s new (step s a) ∧ (new = [] ↔ ok s a))
    {s : σ} (as : List α) (hs : inv s) :
    ∃ new, rel s new (run step s as) ∧ (new = [] ↔ Meets step ok s as) := by
  induction as generalizing s with
  | nil => exact ⟨[], hrefl s, iff_of_true rfl trivial⟩
  | cons a as ih =>
    obtain ⟨hnext, new, hrel, hnew⟩ := hstep s a hs
    obtain ⟨rest, hrun, hrest⟩ := ih hnext
    refine ⟨new ++ rest, htrans hrel hrun, ?_⟩
    rw [List.append_eq_nil_iff, hnew, hrest]
    exact Iff.rfl

/-- **A record that only grows**: where each step adds entries to `view` unless it meets the
condition, a run adds none iff every step meets it. -/
theorem run_view {β : Type*} (view : σ → List β) (inv : σ → Prop)
    (hinv : ∀ s a, inv s → inv (step s a))
    (hstep : ∀ s a, inv s → ∃ new, view (step s a) = view s ++ new ∧ (new = [] ↔ ok s a))
    {s : σ} (as : List α) (hs : inv s) :
    ∃ new, view (run step s as) = view s ++ new ∧ (new = [] ↔ Meets step ok s as) :=
  run_record (fun s new s' => view s' = view s ++ new) inv (fun _ => by rw [List.append_nil])
    (fun h h' => by rw [h', h, List.append_assoc]) (fun s a hs => ⟨hinv s a hs, hstep s a hs⟩) as hs

variable (step) in
/-- Some run from `s` ends in `s'`. -/
def Leads (s s' : σ) : Prop := ∃ as, s' = run step s as

namespace Leads

variable {s s' s'' : σ}

theorem refl (s : σ) : Leads step s s := ⟨[], rfl⟩

theorem one (a : α) : Leads step s (step s a) := ⟨[a], rfl⟩

theorem trans (h : Leads step s s') (h' : Leads step s' s'') : Leads step s s'' := by
  obtain ⟨as, rfl⟩ := h
  obtain ⟨bs, rfl⟩ := h'
  exact ⟨as ++ bs, (run_append s as bs).symm⟩

end Leads

/-! ## Counted loops -/

/-- `for (i = 0; i < n; i++)`. -/
def forTo (n : Nat) (body : Nat → σ → σ) (s : σ) : σ := run (fun s i => body i s) s (List.range n)

theorem forTo_succ (n : Nat) (body : Nat → σ → σ) (s : σ) :
    forTo (n + 1) body s = body n (forTo n body s) := by
  rw [forTo, List.range_succ, run_append]
  rfl

/-- What every turn keeps. -/
theorem forTo_induction {body : Nat → σ → σ} {s : σ} (P : Nat → σ → Prop) (n : Nat)
    (zero : P 0 s) (succ : ∀ i s, i < n → P i s → P (i + 1) (body i s)) : P n (forTo n body s) := by
  induction n with
  | zero => exact zero
  | succ n ih =>
    rw [forTo_succ]
    exact succ n _ (Nat.lt_succ_self n) (ih fun i s hi => succ i s (Nat.lt_succ_of_lt hi))

end QcloudIot.Lib
