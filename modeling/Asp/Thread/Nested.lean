import Asp.Foundation.Simulation
import Asp.Thread.ThreadPool
import Mathlib.Data.Fintype.Sum

/-! A pool whose tasks and exception functions use it themselves: the code that worker `w` runs
makes its calls as the thread `.inr w`. -/
namespace Asp.ThreadPool
open Foundation
variable {P W J : Type*}

/-- A worker is in code of the user: a task or an exception function. -/
def Worker.busy : Worker → Bool
  | running _ | handling _ | failing => true
  | polling | finishing _ | exited => false

/-- A thread is in `join()`. -/
def Joiner.inside : Joiner → Bool
  | testing | waiting => true
  | idle | returned => false

/-- The code that the worker runs is not in a call on the pool. -/
def State.Between (s : State (P ⊕ W) W (J ⊕ W)) (w : W) : Prop :=
  s.producer (.inr w) = .idle ∧ (s.joiner (.inr w)).inside = false

instance (s : State (P ⊕ W) W (J ⊕ W)) (w : W) : Decidable (s.Between w) :=
  inferInstanceAs (Decidable (_ ∧ _))

/-- Such code makes one call after the other, and goes on when that has returned. -/
def Within (s : State (P ⊕ W) W (J ⊕ W)) : Action (P ⊕ W) W (J ⊕ W) → Prop
  | .count (.inr w) | .join (.inr w) => (s.worker w).busy = true ∧ s.Between w
  | .runTask w _ | .handle w _ | .exit w => s.Between w
  | _ => True

instance (s : State (P ⊕ W) W (J ⊕ W)) : ∀ a, Decidable (Within s a)
  | .count (.inr _) | .join (.inr _) => inferInstanceAs (Decidable (_ ∧ _))
  | .runTask .. | .handle .. | .exit _ => inferInstanceAs (Decidable (State.Between ..))
  | .count (.inl _) | .join (.inl _) | .push _ | .pop _ | .popEmpty _ | .finish _ | .test _
  | .timeout _ | .acquire _ => isTrue trivial

variable [DecidableEq P] [DecidableEq W] [DecidableEq J]

def nested : Machine (State (P ⊕ W) W (J ⊕ W)) (Action (P ⊕ W) W (J ⊕ W)) :=
  machine.restrict Within

/-- A call is made by code that still runs. -/
def State.Nested (s : State (P ⊕ W) W (J ⊕ W)) : Prop :=
  ∀ w, s.Between w ∨ (s.worker w).busy = true

section Steps
variable {s t : State P W J} {a : Action P W J}

/-- A worker stays where it is, unless the step is its own. -/
theorem step_worker (hs : machine.step s a = some t) (w : W) :
    t.worker w = s.worker w ∨ a = .pop w ∨ a = .finish w ∨ a = .exit w ∨
      ∃ throws, a = .runTask w throws ∨ a = .handle w throws := by
  have hset : ∀ {v x}, Function.update s.worker v x w = s.worker w ∨ v = w := by
    intro v x
    by_cases hwv : w = v
    · exact .inr hwv.symm
    · exact .inl (Function.update_of_ne hwv ..)
  cases a with
  | count p | join j | test j | timeout j | acquire j | popEmpty v =>
    obtain ⟨-,rfl⟩ := guarded_eq_some.mp hs
    exact .inl rfl
  | push p =>
    simp only [machine, State.step] at hs
    split at hs <;> cases hs
    exact .inl rfl
  | pop v =>
    simp only [machine, State.step] at hs
    split at hs <;> cases hs
    exact hset.imp id fun hv => .inl (by rw [hv])
  | finish v =>
    simp only [machine, State.step] at hs
    split at hs <;> cases hs
    exact hset.imp id fun hv => .inr (.inl (by rw [hv]))
  | exit v =>
    obtain ⟨-,rfl⟩ := guarded_eq_some.mp hs
    exact hset.imp id fun hv => .inr (.inr (.inl (by rw [hv])))
  | runTask v throws =>
    simp only [machine, State.step] at hs
    split at hs <;> cases hs
    exact hset.imp id fun hv => .inr (.inr (.inr ⟨throws,.inl (by rw [hv])⟩))
  | handle v throws =>
    simp only [machine, State.step] at hs
    split at hs <;> cases hs
    exact hset.imp id fun hv => .inr (.inr (.inr ⟨throws,.inr (by rw [hv])⟩))

theorem step_remainingWork (hs : machine.step s a = some t) :
    t.remainingWork = s.remainingWork ∨ (∃ p, a = .count p) ∨ ∃ w, a = .finish w := by
  cases a with
  | join j | test j | timeout j | acquire j | popEmpty v | exit v =>
    obtain ⟨-,rfl⟩ := guarded_eq_some.mp hs
    exact .inl rfl
  | count p => exact .inr (.inl ⟨p,rfl⟩)
  | finish w => exact .inr (.inr ⟨w,rfl⟩)
  | push p | pop v | runTask v throws | handle v throws =>
    simp only [machine, State.step] at hs
    split at hs <;> cases hs
    exact .inl rfl

/-- A producer is idle, unless it has just been counted. -/
theorem step_producer (hs : machine.step s a = some t) (p : P) :
    s.producer p = .idle → t.producer p = .idle ∨ a = .count p := by
  intro hp
  cases a with
  | join j | test j | timeout j | acquire j | popEmpty v | exit v =>
    obtain ⟨-,rfl⟩ := guarded_eq_some.mp hs
    exact .inl hp
  | count q =>
    obtain ⟨-,rfl⟩ := guarded_eq_some.mp hs
    by_cases hpq : p = q
    · exact .inr (by rw [hpq])
    · exact .inl ((Function.update_of_ne hpq ..).trans hp)
  | push q =>
    simp only [machine, State.step] at hs
    split at hs <;> cases hs
    by_cases hpq : p = q
    · subst hpq
      exact .inl (Function.update_self ..)
    · exact .inl ((Function.update_of_ne hpq ..).trans hp)
  | pop v | runTask v throws | handle v throws | finish v =>
    simp only [machine, State.step] at hs
    split at hs <;> cases hs
    exact .inl hp

/-- A thread is outside of `join()`, unless it has just called it. -/
theorem step_outside (hs : machine.step s a = some t) (j : J) :
    (s.joiner j).inside = false → (t.joiner j).inside = false ∨ a = .join j := by
  intro hj
  have hset : ∀ {k x}, (s.joiner k).inside = true →
      (Function.update s.joiner k x j).inside = false := by
    intro k x hk
    have hjk : j ≠ k := by
      rintro rfl
      cases hj.symm.trans hk
    rwa [Function.update_of_ne hjk]
  cases a with
  | count p | popEmpty w | exit w =>
    obtain ⟨-,rfl⟩ := guarded_eq_some.mp hs
    exact .inl hj
  | push p | pop w | runTask w throws | handle w throws | finish w =>
    simp only [machine, State.step] at hs
    split at hs <;> cases hs
    exact .inl hj
  | join k =>
    obtain ⟨-,rfl⟩ := guarded_eq_some.mp hs
    by_cases hjk : j = k
    · exact .inr (by rw [hjk])
    · exact .inl (congrArg Joiner.inside (Function.update_of_ne hjk ..) |>.trans hj)
  | test k | timeout k =>
    obtain ⟨hk,rfl⟩ := guarded_eq_some.mp hs
    exact .inl (hset (by rw [hk]; rfl))
  | acquire k =>
    obtain ⟨hk,rfl⟩ := guarded_eq_some.mp hs
    exact .inl (hset (by rw [hk.1]; rfl))

/-- Only a test without remaining work lets a `join()` return. -/
theorem step_inside (hs : machine.step s a = some t) (j : J) (hj : (s.joiner j).inside = true) :
    (t.joiner j).inside = true ∨ s.remainingWork = 0 ∨ 0 < s.waiterSem := by
  have hset : ∀ {k x}, Joiner.inside x = true →
      (Function.update s.joiner k x j).inside = true := by
    intro k x hx
    by_cases hjk : j = k
    · subst hjk
      rwa [Function.update_self]
    · rwa [Function.update_of_ne hjk]
  cases a with
  | count p | popEmpty w | exit w =>
    obtain ⟨-,rfl⟩ := guarded_eq_some.mp hs
    exact .inl hj
  | push p | pop w | runTask w throws | handle w throws | finish w =>
    simp only [machine, State.step] at hs
    split at hs <;> cases hs
    exact .inl hj
  | join k | timeout k =>
    obtain ⟨-,rfl⟩ := guarded_eq_some.mp hs
    exact .inl (hset rfl)
  | test k =>
    obtain ⟨-,rfl⟩ := guarded_eq_some.mp hs
    by_cases h0 : s.remainingWork = 0
    · exact .inr (.inl h0)
    · exact .inl (hset (by rw [if_neg h0]; rfl))
  | acquire k =>
    obtain ⟨⟨-,hsem⟩,-⟩ := guarded_eq_some.mp hs
    exact .inr (.inr hsem)

end Steps

section Nested
variable {s t : State (P ⊕ W) W (J ⊕ W)} {a : Action (P ⊕ W) W (J ⊕ W)}

/-- Code in a call on the pool stays where it is. -/
theorem step_busy (hs : nested.step s a = some t) {w : W} (hw : (s.worker w).busy = true)
    (hcall : ¬s.Between w) : t.worker w = s.worker w := by
  obtain ⟨hg,hs⟩ := Machine.restrict_step.mp hs
  obtain hsame | rfl | rfl | rfl | ⟨throws,rfl | rfl⟩ := step_worker hs w
  · exact hsame
  · -- a busy worker does not take a task
    simp only [machine, State.step] at hs
    split at hs
    · rename_i hp _
      rw [hp] at hw
      cases hw
    · cases hs
  · simp only [machine, State.step] at hs
    split at hs
    · rename_i hp
      rw [hp] at hw
      cases hw
    · cases hs
  all_goals exact absurd hg hcall

/-- Code that is in no call is in none after a step either, unless it has begun one. -/
theorem step_between (hs : nested.step s a = some t) {w : W} (hw : s.Between w) :
    t.Between w ∨ (s.worker w).busy = true ∧ t.worker w = s.worker w := by
  obtain ⟨hg,hs⟩ := Machine.restrict_step.mp hs
  obtain hp | rfl := step_producer hs _ hw.1
  · obtain hj | rfl := step_outside hs _ hw.2
    · exact .inl ⟨hp,hj⟩
    · obtain ⟨-,rfl⟩ := guarded_eq_some.mp hs
      exact .inr ⟨hg.1,rfl⟩
  · obtain ⟨-,rfl⟩ := guarded_eq_some.mp hs
    exact .inr ⟨hg.1,rfl⟩

omit [DecidableEq P] [DecidableEq W] [DecidableEq J] in
theorem init_nested : (init (P ⊕ W) W (J ⊕ W)).Nested := fun _ => .inl ⟨rfl,rfl⟩

theorem step_nested (h : s.Nested) (hs : nested.step s a = some t) : t.Nested := by
  intro w
  by_cases hw : s.Between w
  · exact (step_between hs hw).imp id fun ⟨hbusy,hsame⟩ => hsame ▸ hbusy
  · have hbusy := (h w).resolve_left hw
    exact .inr (step_busy hs hbusy hw ▸ hbusy)

end Nested
end Asp.ThreadPool
