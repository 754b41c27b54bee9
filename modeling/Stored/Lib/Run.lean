import Mathlib.Algebra.GroupWithZero.Nat
import Mathlib.Tactic.SplitIfs

/-!
# Runs of a partial step function

A system is a function that gives the state after an action, or no state where the action is not
possible. Runs are restricted to actions that meet a condition in the state they are taken in.
-/

namespace Stored.Run

variable {σ α : Type*}

/-- The states that runs from `s` lead to, each action meeting `ok` in the state it is taken in. -/
inductive Reach (step : σ → α → Option σ) (ok : σ → α → Prop) (s : σ) : σ → Prop
  | refl : Reach step ok s s
  | tail {t u : σ} {a : α} (hreach : Reach step ok s t) (hok : ok t a) (hstep : step t a = some u) :
    Reach step ok s u

/-- The states that any run leads to. -/
abbrev Reachable (step : σ → α → Option σ) (s : σ) : σ → Prop := Reach step (fun _ _ ↦ True) s

variable {step : σ → α → Option σ} {ok ok' : σ → α → Prop} {s t u : σ}

theorem Reach.trans (hst : Reach step ok s t) (htu : Reach step ok t u) : Reach step ok s u := by
  induction htu with
  | refl => exact hst
  | tail _ hok hstep ih => exact .tail ih hok hstep

theorem Reach.mono (hmono : ∀ t a, ok t a → ok' t a) (hst : Reach step ok s t) :
    Reach step ok' s t := by
  induction hst with
  | refl => exact .refl
  | tail _ hok hstep ih => exact .tail ih (hmono _ _ hok) hstep

/-- What holds at first and is kept by every allowed step holds in every state reached. -/
theorem Reach.invariant (inv : σ → Prop) (hst : Reach step ok s t) (hinit : inv s)
    (hkeep : ∀ t a u, inv t → ok t a → step t a = some u → inv u) : inv t := by
  induction hst with
  | refl => exact hinit
  | tail _ hok hstep ih => exact hkeep _ _ _ ih hok hstep

/-- A further invariant may be proved from one that is known. -/
theorem Reach.invariant_of (inv₀ inv : σ → Prop) (hst : Reach step ok s t)
    (hinv₀ : ∀ t, Reach step ok s t → inv₀ t) (hinit : inv s)
    (hkeep : ∀ t a u, inv₀ t → inv t → ok t a → step t a = some u → inv u) : inv t := by
  induction hst with
  | refl => exact hinit
  | tail hreach hok hstep ih => exact hkeep _ _ _ (hinv₀ _ hreach) ih hok hstep

/-- Every step of the run that a list of actions makes meets `p`; the run ends at an action that is
not possible. -/
def AllSteps (step : σ → α → Option σ) (p : σ → α → Prop) : σ → List α → Prop
  | _, [] => True
  | s, a :: as => ∀ t, step s a = some t → p s a ∧ AllSteps step p t as

/-- Two properties that agree on every step that a run leads to hold along the same runs. -/
theorem allSteps_iff {p q : σ → α → Prop}
    (h : ∀ t a u, Reachable step s t → step t a = some u → (p t a ↔ q t a)) (as : List α)
    (hst : Reachable step s t) : AllSteps step p t as ↔ AllSteps step q t as := by
  induction as generalizing t with
  | nil => exact Iff.rfl
  | cons a as ih =>
    unfold AllSteps
    refine forall_congr' fun u ↦ forall_congr' fun hstep ↦ ?_
    exact and_congr (h t a u hst hstep) (ih (hst.tail trivial hstep))

/-- The state after a list of actions; no value if one is not possible or not allowed. -/
def runAll (step : σ → α → Option σ) (ok : σ → α → Prop) [∀ s a, Decidable (ok s a)] :
    σ → List α → Option σ
  | s, [] => some s
  | s, a :: as => if ok s a then (step s a).bind fun t ↦ runAll step ok t as else none

theorem reach_of_runAll [∀ s a, Decidable (ok s a)] {as : List α}
    (hrun : runAll step ok s as = some t) : Reach step ok s t := by
  induction as generalizing s with
  | nil =>
    obtain rfl := Option.some.inj hrun
    exact .refl
  | cons a as ih =>
    rw [runAll] at hrun
    split_ifs at hrun with hok
    obtain ⟨u, hstep, hrest⟩ := Option.bind_eq_some_iff.mp hrun
    exact (Reach.tail .refl hok hstep).trans (ih hrest)

/-- A list of actions that leads to a state with `p` shows that one is reached. -/
theorem exists_reach_of_runAll [∀ s a, Decidable (ok s a)] {p : σ → Prop} [DecidablePred p]
    (as : List α) (hrun : (runAll step ok s as).any (fun t ↦ decide (p t)) = true) :
    ∃ t, Reach step ok s t ∧ p t := by
  cases ht : runAll step ok s as with
  | none => simp [ht] at hrun
  | some t =>
    rw [ht] at hrun
    exact ⟨t, reach_of_runAll ht, of_decide_eq_true hrun⟩

/-- A list of actions that leads to a state with `q`, and a last action that does not meet `p` in
such a state, make a run not all of whose steps meet `p`. -/
theorem not_allSteps_of_runAll {p : σ → α → Prop} {q : σ → Prop} [DecidablePred q] (a : α)
    (hq : ∀ t u, q t → step t a = some u → ¬p t a) (as : List α)
    (hrun : (runAll step (fun _ _ ↦ True) s as).any
      (fun t ↦ (step t a).isSome && decide (q t)) = true) : ¬AllSteps step p s (as ++ [a]) := by
  intro h
  induction as generalizing s with
  | nil =>
    obtain ⟨hsome, hs⟩ := (Bool.and_eq_true_iff).mp hrun
    obtain ⟨u, hstep⟩ := Option.isSome_iff_exists.mp hsome
    exact hq s u (of_decide_eq_true hs) hstep (h u hstep).1
  | cons b as ih =>
    rw [runAll, if_pos trivial] at hrun
    cases hstep : step s b with
    | none => simp [hstep] at hrun
    | some t =>
      rw [hstep] at hrun
      exact ih hrun (h t hstep).2

/-- Where each allowed step lowers a rank by its cost, up to what it is credited with, the costs of
a run are bounded by the rank at its beginning and the credits. -/
theorem sum_cost_le [∀ s a, Decidable (ok s a)] (inv : σ → Prop) (rank : σ → ℕ) (cost credit : α → ℕ)
    (hkeep : ∀ t a u, inv t → ok t a → step t a = some u → inv u)
    (hrank : ∀ t a u, inv t → ok t a → step t a = some u → rank u + cost a ≤ rank t + credit a)
    {as : List α} (hs : inv s) (hrun : runAll step ok s as = some t) :
    rank t + (as.map cost).sum ≤ rank s + (as.map credit).sum := by
  induction as generalizing s with
  | nil =>
    obtain rfl := Option.some.inj hrun
    simp
  | cons a as ih =>
    rw [runAll] at hrun
    split_ifs at hrun with hok
    obtain ⟨u, hstep, hrest⟩ := Option.bind_eq_some_iff.mp hrun
    have hfirst := hrank s a u hs hok hstep
    have hafter := ih (hkeep s a u hs hok hstep) hrest
    simp only [List.map_cons, List.sum_cons]
    omega

theorem sum_map_toNat (f : α → Bool) (as : List α) :
    (as.map fun a ↦ (f a).toNat).sum = as.countP f := by
  induction as with
  | nil => rfl
  | cons a as ih => cases h : f a <;> simp [h, ih, Nat.add_comm]

end Stored.Run
