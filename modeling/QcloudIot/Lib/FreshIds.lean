import Mathlib.Data.List.Induction
import Mathlib.Data.List.Nodup
import Mathlib.Logic.Function.Iterate
import QcloudIot.Lib.Run

/-!
# Ids from a counter that comes round

A machine takes its ids from a counter: after `i` the next one is `next i`, and the counter comes
back to an id after `N` more. A step takes no id or one, and an id taken may stay pending
(`Takes`).

* `pending_next_of_run`: a pending id is one the counter gave out;
* **`pending_nodup_of_run`**: the pending ids are distinct in every run in which none of them stays
  pending while the counter comes round (`Timely`).
-/

namespace QcloudIot.Lib

variable {σ α ι : Type*} (step : σ → α → σ) (pending : σ → List ι) (last : σ → ι) (next : ι → ι)

/-- What a step may do to the ids pending and to the last id taken, with the number of ids it
takes. -/
inductive Takes (s s' : σ) : Nat → Prop where
  | none (hlast : last s' = last s) (hsub : (pending s').Sublist (pending s)) : Takes s s' 0
  | lost (hlast : last s' = next (last s)) (hsub : (pending s').Sublist (pending s)) :
      Takes s s' 1
  | kept (hlast : last s' = next (last s)) (hperm : (pending s').Perm (next (last s) :: pending s)) :
      Takes s s' 1

variable (taken : σ → α → Nat)

/-- The number of ids a run takes. -/
def takenIn : σ → List α → Nat
  | _, [] => 0
  | s, a :: as => taken s a + takenIn (step s a) as

/-- No id stays pending in a part of the run that takes `N` ids. -/
def Timely (N : Nat) (s : σ) (as : List α) : Prop :=
  ∀ as₁ as₂ : List α, as₁ ++ as₂ <+: as → ∀ i,
    (∀ bs, bs <+: as₂ → i ∈ pending (run step s (as₁ ++ bs))) →
      takenIn step taken (run step s as₁) as₂ < N

/-- In a run, `i` was the last id taken at some moment and has been pending from then on. -/
def PendingSince (s : σ) (as : List α) (i : ι) : Prop :=
  ∃ as₁ as₂, as = as₁ ++ as₂ ∧ last (run step s as₁) = i ∧
    ∀ bs, bs <+: as₂ → i ∈ pending (run step s (as₁ ++ bs))

variable {step pending last next taken}

theorem takenIn_append (s : σ) (as bs : List α) :
    takenIn step taken s (as ++ bs) =
      takenIn step taken s as + takenIn step taken (run step s as) bs := by
  induction as generalizing s with
  | nil => exact (Nat.zero_add _).symm
  | cons a as ih => rw [List.cons_append, takenIn, takenIn, run_cons, ih (step s a), Nat.add_assoc]

theorem Timely.prefix {N : Nat} {s : σ} {as bs : List α}
    (h : Timely step pending taken N s (as ++ bs)) : Timely step pending taken N s as :=
  fun as₁ as₂ hpre => h as₁ as₂ (hpre.trans (List.prefix_append as bs))

theorem takenIn_le (hone : ∀ s a, taken s a ≤ 1) (s : σ) (as : List α) :
    takenIn step taken s as ≤ as.length := by
  induction as generalizing s with
  | nil => exact Nat.le_refl 0
  | cons a as ih =>
    have ha := hone s a
    have hle := ih (step s a)
    rw [takenIn, List.length_cons]
    omega

/-- A run of fewer than `N` steps takes fewer than `N` ids. -/
theorem timely_of_length {N : Nat} (hone : ∀ s a, taken s a ≤ 1) (s : σ) {as : List α}
    (h : as.length < N) : Timely step pending taken N s as := by
  intro as₁ as₂ hpre i _
  have hle : takenIn step taken (run step s as₁) as₂ ≤ as₂.length :=
    takenIn_le hone (run step s as₁) as₂
  have hlen := hpre.length_le
  rw [List.length_append] at hlen
  omega

/-- An id that is still pending has been so for one step more. -/
theorem pending_snoc {s : σ} {as₁ as₂ : List α} {a : α} {i : ι}
    (hall : ∀ bs, bs <+: as₂ → i ∈ pending (run step s (as₁ ++ bs)))
    (hi : i ∈ pending (run step s (as₁ ++ as₂ ++ [a]))) :
    ∀ bs, bs <+: as₂ ++ [a] → i ∈ pending (run step s (as₁ ++ bs)) := by
  intro bs hbs
  rcases List.prefix_concat_iff.mp hbs with rfl | hbs
  · rwa [← List.append_assoc]
  · exact hall bs hbs

theorem PendingSince.snoc {s : σ} {as : List α} {i : ι} (h : PendingSince step pending last s as i)
    {a : α} (hi : i ∈ pending (run step s (as ++ [a]))) :
    PendingSince step pending last s (as ++ [a]) i := by
  obtain ⟨as₁, as₂, rfl, hlast, hall⟩ := h
  exact ⟨as₁, as₂ ++ [a], List.append_assoc .., hlast, pending_snoc hall hi⟩

section Runs

variable {inv : σ → Prop} {ok : σ → α → Prop}
variable (hstep : ∀ s a, inv s → ok s a →
  inv (step s a) ∧ Takes pending last next s (step s a) (taken s a))
include hstep

/-- A pending id is one the counter gave out. -/
theorem pending_next_of_run {s : σ} {as : List α} (hs : inv s) (hempty : pending s = [])
    (hok : Meets step ok s as) : ∀ i ∈ pending (run step s as), ∃ j, i = next j := by
  refine (run_invariant (fun s => inv s ∧ ∀ i ∈ pending s, ∃ j, i = next j) ?_ as
    ⟨hs, by simp [hempty]⟩ hok).2
  rintro s a ⟨hs, hids⟩ ha
  obtain ⟨hs', htakes⟩ := hstep s a hs ha
  refine ⟨hs', fun i hi => ?_⟩
  generalize taken s a = n at htakes
  cases htakes with
  | none _ hsub => exact hids i (hsub.subset hi)
  | lost _ hsub => exact hids i (hsub.subset hi)
  | kept _ hperm =>
    rcases List.mem_cons.mp (hperm.subset hi) with rfl | hi
    · exact ⟨last s, rfl⟩
    · exact hids i hi

/-- The last id taken, by the number of ids taken. -/
theorem last_run {s : σ} {as : List α} (hs : inv s) (hok : Meets step ok s as) :
    last (run step s as) = next^[takenIn step taken s as] (last s) := by
  induction as generalizing s with
  | nil => rfl
  | cons a as ih =>
    obtain ⟨hs', htakes⟩ := hstep s a hs hok.1
    have hlast : last (step s a) = next^[taken s a] (last s) := by
      generalize taken s a = n at htakes
      cases htakes with
      | none hlast _ => exact hlast
      | lost hlast _ => exact hlast
      | kept hlast _ => exact hlast
    rw [run_cons, ih hs' hok.2, hlast, takenIn, Nat.add_comm, Function.iterate_add_apply]

/-- **The pending ids are distinct**, when none stays pending while the counter comes round. -/
theorem pending_nodup_of_run {N : Nat}
    (hround : ∀ i k, next^[k] (next i) = next i → N ∣ k) {s : σ} (hs : inv s)
    (hempty : pending s = []) {as : List α} (hok : Meets step ok s as)
    (htimely : Timely step pending taken N s as) : (pending (run step s as)).Nodup := by
  suffices h : (pending (run step s as)).Nodup ∧
      ∀ i ∈ pending (run step s as), PendingSince step pending last s as i from h.1
  induction as using List.reverseRecOn with
  | nil => simp [hempty]
  | append_singleton as a ih =>
    obtain ⟨hok₁, ha, -⟩ := meets_append.mp hok
    obtain ⟨hnodup, hsince⟩ := ih hok₁ htimely.prefix
    have hinv : inv (run step s as) :=
      run_invariant inv (fun s a hs ha => (hstep s a hs ha).1) as hs hok₁
    have htakes := (hstep _ a hinv ha).2
    have hrun : run step s (as ++ [a]) = step (run step s as) a := by
      rw [run_append, run_cons, run_nil]
    rw [← hrun] at htakes
    have hold : (pending (run step s (as ++ [a]))).Sublist (pending (run step s as)) →
        (pending (run step s (as ++ [a]))).Nodup ∧ ∀ i ∈ pending (run step s (as ++ [a])),
          PendingSince step pending last s (as ++ [a]) i :=
      fun hsub => ⟨hnodup.sublist hsub, fun i hi => (hsince i (hsub.subset hi)).snoc hi⟩
    generalize hn : taken (run step s as) a = n at htakes
    cases htakes with
    | none _ hsub => exact hold hsub
    | lost _ hsub => exact hold hsub
    | kept hlast hperm =>
      have hnew : next (last (run step s as)) ∉ pending (run step s as) := by
        intro hmem
        obtain ⟨as₁, as₂, rfl, hat, hall⟩ := hsince _ hmem
        obtain ⟨hok₀, hok₂⟩ := meets_append.mp hok₁
        have hinv₁ : inv (run step s as₁) :=
          run_invariant inv (fun s a hs ha => (hstep s a hs ha).1) as₁ hs hok₀
        have hcount := last_run hstep hinv₁ hok₂
        rw [← run_append, hat] at hcount
        -- the counter has come round to the id
        have hdvd : N ∣ takenIn step taken (run step s as₁) as₂ + 1 := by
          refine hround (last (run step s (as₁ ++ as₂))) _ ?_
          rw [Function.iterate_succ_apply']
          exact congrArg next hcount.symm
        have hlt := htimely as₁ (as₂ ++ [a]) (by simp) _
          (pending_snoc hall (hperm.symm.subset List.mem_cons_self))
        rw [takenIn_append, ← run_append, takenIn, takenIn, hn] at hlt
        have hle := Nat.le_of_dvd (by omega) hdvd
        omega
      refine ⟨hperm.nodup_iff.mpr (List.nodup_cons.mpr ⟨hnew, hnodup⟩), fun i hi => ?_⟩
      rcases List.mem_cons.mp (hperm.subset hi) with rfl | hi'
      · refine ⟨as ++ [a], [], (List.append_nil _).symm, hlast, fun bs hbs => ?_⟩
        rwa [List.prefix_nil.mp hbs, List.append_nil]
      · exact (hsince i hi').snoc hi

end Runs

end QcloudIot.Lib
