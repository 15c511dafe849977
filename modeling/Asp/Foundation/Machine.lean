import Mathlib.Tactic.SplitIfs

/-! Machines with a partial step function, their finite runs, and runs whose every
step satisfies a guard. Nothing here refers to a particular program. -/
namespace Asp.Foundation

/-- `step s a` is the state after action `a`; it is `none` when `a` is not enabled in `s`. -/
structure Machine (σ α : Type*) where
  step : σ → α → Option σ

/-- A transition to `s` that is enabled exactly when `c` holds. -/
def guarded {σ : Type*} (c : Prop) [Decidable c] (s : σ) : Option σ := if c then some s else none

theorem guarded_eq_some {σ : Type*} {c : Prop} [Decidable c] {s t : σ} :
    guarded c s = some t ↔ c ∧ s = t := by
  unfold guarded
  split_ifs with h <;> simp [h]

namespace Machine
variable {σ α : Type*} (M : Machine σ α)

/-- Execute a list of actions; the run is undefined once an action is not enabled. -/
def run (s : σ) : List α → Option σ
  | [] => some s
  | a :: as => (M.step s a).bind (fun t => run t as)

@[simp] theorem run_nil (s : σ) : M.run s [] = some s := rfl

theorem run_cons (s : σ) (a : α) (as : List α) :
    M.run s (a :: as) = (M.step s a).bind (fun t => M.run t as) := rfl

theorem run_append (s : σ) (as bs : List α) :
    M.run s (as ++ bs) = (M.run s as).bind (fun t => M.run t bs) := by
  induction as generalizing s with
  | nil => rfl
  | cons a as ih =>
    rw [List.cons_append, run_cons, run_cons, Option.bind_assoc]
    congr 1
    funext t
    exact ih t

/-- Reachability by enabled steps that all satisfy `guard` in the state they are taken from. -/
inductive Reaches (guard : σ → α → Prop) (s : σ) : σ → Prop
  | refl : Reaches guard s s
  | step {t u : σ} {a : α} (h : Reaches guard s t) (hg : guard t a) (hs : M.step t a = some u) :
      Reaches guard s u

variable {M}

/-- The induction rule: a property that holds at the start and survives every guarded
step holds in every state reached. -/
theorem Reaches.invariant {guard : σ → α → Prop} {s t : σ} (I : σ → Prop)
    (h : M.Reaches guard s t) (hinit : I s)
    (hstep : ∀ u a v, I u → guard u a → M.step u a = some v → I v) : I t := by
  induction h with
  | refl => exact hinit
  | step _ hg hs ih => exact hstep _ _ _ ih hg hs

/-- Weakening the guard keeps every state reachable. -/
theorem Reaches.mono {guard guard' : σ → α → Prop} {s t : σ} (h : M.Reaches guard s t)
    (hg : ∀ u a, guard u a → guard' u a) : M.Reaches guard' s t := by
  induction h with
  | refl => exact .refl
  | step _ ha hs ih => exact .step ih (hg _ _ ha) hs

theorem Reaches.trans {guard : σ → α → Prop} {s t u : σ} (h : M.Reaches guard s t)
    (h' : M.Reaches guard t u) : M.Reaches guard s u := by
  induction h' with
  | refl => exact h
  | step _ ha hs ih => exact .step ih ha hs

/-- Every state that a concrete list of actions leads to is reachable. -/
theorem reaches_of_run {s t : σ} {as : List α} (h : M.run s as = some t) :
    M.Reaches (fun _ _ => True) s t := by
  induction as generalizing s with
  | nil =>
    cases h
    exact .refl
  | cons a as ih =>
    rw [run_cons] at h
    obtain ⟨u,hu,ht⟩ := Option.bind_eq_some_iff.mp h
    exact Reaches.trans (.step .refl trivial hu) (ih ht)

/-- Execute a list of actions as long as each of them satisfies the guard. -/
def runGuarded (M : Machine σ α) (guard : σ → α → Prop) [∀ s a, Decidable (guard s a)] (s : σ) :
    List α → Option σ
  | [] => some s
  | a :: as => if guard s a then (M.step s a).bind (fun t => M.runGuarded guard t as) else none

theorem reaches_of_runGuarded {guard : σ → α → Prop} [∀ s a, Decidable (guard s a)] {s t : σ}
    {as : List α} (h : M.runGuarded guard s as = some t) : M.Reaches guard s t := by
  induction as generalizing s with
  | nil =>
    cases h
    exact .refl
  | cons a as ih =>
    unfold runGuarded at h
    split_ifs at h with hg
    obtain ⟨u,hu,ht⟩ := Option.bind_eq_some_iff.mp h
    exact Reaches.trans (.step .refl hg hu) (ih ht)

end Machine
end Asp.Foundation
