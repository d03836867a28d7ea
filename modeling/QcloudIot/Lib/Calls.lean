import Mathlib.Data.List.Basic

/-!
# Components that are called

A component answers each call from its state: `step : σ → α → σ × β`. A sequence of calls leaves a
state and the list of the answers.

* `calls_invariant`: what every call preserves, every sequence preserves;
* **`calls_simulation`**: two components whose states stay related, and which answer each call alike,
  answer every sequence alike.
-/

namespace QcloudIot.Lib

variable {σ τ α β : Type*}

/-- The state after the calls, and the answers to them. -/
def calls (step : σ → α → σ × β) (s : σ) : List α → σ × List β
  | [] => (s, [])
  | a :: as =>
    let rest := calls step (step s a).1 as
    (rest.1, (step s a).2 :: rest.2)

theorem calls_cons (step : σ → α → σ × β) (s : σ) (a : α) (as : List α) :
    calls step s (a :: as) =
      ((calls step (step s a).1 as).1, (step s a).2 :: (calls step (step s a).1 as).2) := rfl

theorem calls_invariant {step : σ → α → σ × β} (inv : σ → Prop)
    (hstep : ∀ s a, inv s → inv (step s a).1) {s : σ} (as : List α) (hs : inv s) :
    inv (calls step s as).1 := by
  induction as generalizing s with
  | nil => exact hs
  | cons a as ih => exact ih (hstep s a hs)

/-- **Two components that answer alike**. -/
theorem calls_simulation {step : σ → α → σ × β} {step' : τ → α → τ × β} (rel : σ → τ → Prop)
    (hstep : ∀ s t a, rel s t → rel (step s a).1 (step' t a).1 ∧ (step s a).2 = (step' t a).2)
    {s : σ} {t : τ} (as : List α) (h : rel s t) :
    rel (calls step s as).1 (calls step' t as).1 ∧
      (calls step s as).2 = (calls step' t as).2 := by
  induction as generalizing s t with
  | nil => exact ⟨h, rfl⟩
  | cons a as ih =>
    obtain ⟨hrel, hanswer⟩ := hstep s t a h
    obtain ⟨hend, hanswers⟩ := ih hrel
    rw [calls_cons, calls_cons]
    exact ⟨hend, by rw [hanswer, hanswers]⟩

end QcloudIot.Lib
