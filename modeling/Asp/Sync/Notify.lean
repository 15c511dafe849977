import Asp.Foundation.Machine
import Mathlib.Logic.Function.Basic

/-! `asp::Notify` used through `wait(0, predicate)` and `notifyAll()`. The steps of a waiter are
those of both implementations: the pthread mutex and condition of the POSIX one, the critical
section and condition variable of the Windows one. The predicate reads state that only the
notifiers write, without the internal mutex, which neither notifyOne nor notifyAll takes. -/
namespace Asp.Notify
open Foundation

/-- Where a thread is inside `wait(0, predicate)`. -/
inductive Waiter
  | entered    -- before the first lock of the mutex
  | testing    -- holds the mutex, about to evaluate predicate()
  | sleeping   -- predicate() was false; holds the mutex, about to enter the condition wait
  | blocked    -- in the condition wait, mutex released
  | woken      -- signalled or woken spuriously, about to lock the mutex again
  | leaving    -- predicate() was true, about to unlock
  | returned
  deriving DecidableEq

/-- Where a notifier is: before making the predicate true, before notifyAll, after it. -/
inductive Notifier
  | fresh
  | ready
  | returned
  deriving DecidableEq

structure State (W N : Type*) where
  mutex : Option W
  predicate : Bool
  waiter : W → Waiter
  notifier : N → Notifier

inductive Action (W N : Type*)
  | lock (w : W)
  | test (w : W)
  | sleep (w : W)
  | spuriousWake (w : W)
  | relock (w : W)
  | unlock (w : W)
  | makeTrue (n : N)
  | notifyAll (n : N)

variable {W N : Type*} [DecidableEq W] [DecidableEq N]

namespace State

def setWaiter (s : State W N) (w : W) (pc : Waiter) : State W N :=
  { s with waiter := Function.update s.waiter w pc }

/-- A broadcast wakes the threads that are blocked at that moment, and only those. -/
def wakeBlocked (s : State W N) : State W N :=
  { s with waiter := fun w => if s.waiter w = .blocked then .woken else s.waiter w }

def step (s : State W N) : Action W N → Option (State W N)
  | .lock w => guarded (s.waiter w = .entered ∧ s.mutex = none)
      { s.setWaiter w .testing with mutex := some w }
  | .test w => guarded (s.waiter w = .testing)
      (s.setWaiter w (if s.predicate then .leaving else .sleeping))
  | .sleep w => guarded (s.waiter w = .sleeping) { s.setWaiter w .blocked with mutex := none }
  | .spuriousWake w => guarded (s.waiter w = .blocked) (s.setWaiter w .woken)
  | .relock w => guarded (s.waiter w = .woken ∧ s.mutex = none)
      { s.setWaiter w .testing with mutex := some w }
  | .unlock w => guarded (s.waiter w = .leaving) { s.setWaiter w .returned with mutex := none }
  | .makeTrue n => guarded (s.notifier n = .fresh)
      { s with predicate := true, notifier := Function.update s.notifier n .ready }
  | .notifyAll n => guarded (s.notifier n = .ready)
      { s.wakeBlocked with notifier := Function.update s.notifier n .returned }

end State

def machine : Machine (State W N) (Action W N) where
  step := State.step

/-- No thread has started; the predicate may already hold. -/
def init (W N : Type*) (predicate : Bool) : State W N :=
  ⟨none,predicate,fun _ => .entered,fun _ => .fresh⟩

/-- The predicate is true, every notifyAll has completed, and some waiter is still blocked. -/
def Stranded (s : State W N) : Prop :=
  s.predicate = true ∧ (∀ n, s.notifier n = .returned) ∧ ∃ w, s.waiter w = .blocked

/-- The last outstanding notifyAll is not issued while a waiter that has seen the predicate
false is on its way into the condition wait. -/
def NotifyGuard (s : State W N) : Action W N → Prop
  | .notifyAll n => (∀ m, m ≠ n → s.notifier m = .returned) → ∀ w, s.waiter w ≠ .sleeping
  | _ => True

/-- Once all notifications are over, no waiter sleeps or is about to. -/
def Settled (s : State W N) : Prop :=
  s.predicate = true → (∀ n, s.notifier n = .returned) →
    ∀ w, s.waiter w ≠ .sleeping ∧ s.waiter w ≠ .blocked

omit [DecidableEq N] in
lemma settled_setWaiter {s : State W N} (h : Settled s) {w : W} {pc : Waiter}
    (hpc : s.predicate = true → pc ≠ .sleeping ∧ pc ≠ .blocked) : Settled (s.setWaiter w pc) := by
  intro hp hn w'
  by_cases hw : w' = w
  · subst w'
    simpa [State.setWaiter] using hpc hp
  · simpa [State.setWaiter, Function.update_of_ne hw] using h hp hn w'

/-- One guarded step keeps the state settled. -/
theorem step_settled {s t : State W N} {a : Action W N} (h : Settled s) (hg : NotifyGuard s a)
    (hs : s.step a = some t) : Settled t := by
  cases a with
  | lock w =>
    obtain ⟨-,rfl⟩ := guarded_eq_some.mp hs
    exact settled_setWaiter (s := s) (w := w) h (by simp)
  | test w =>
    obtain ⟨-,rfl⟩ := guarded_eq_some.mp hs
    exact settled_setWaiter h (fun hp => by simp [hp])
  | sleep w =>
    obtain ⟨hw,rfl⟩ := guarded_eq_some.mp hs
    -- a waiter that still goes to sleep shows that some notification is outstanding
    intro hp hn
    exact absurd hw (h hp hn w).1
  | spuriousWake w =>
    obtain ⟨-,rfl⟩ := guarded_eq_some.mp hs
    exact settled_setWaiter h (by simp)
  | relock w =>
    obtain ⟨-,rfl⟩ := guarded_eq_some.mp hs
    exact settled_setWaiter (s := s) (w := w) h (by simp)
  | unlock w =>
    obtain ⟨-,rfl⟩ := guarded_eq_some.mp hs
    exact settled_setWaiter (s := s) (w := w) h (by simp)
  | makeTrue n =>
    obtain ⟨-,rfl⟩ := guarded_eq_some.mp hs
    intro _ hn
    simpa using hn n
  | notifyAll n =>
    obtain ⟨-,rfl⟩ := guarded_eq_some.mp hs
    intro _ hn w
    have hlast : ∀ m, m ≠ n → s.notifier m = .returned := by
      intro m hm
      simpa [Function.update_of_ne hm] using hn m
    have hw := hg hlast w
    simp only [State.wakeBlocked]
    split_ifs with hb
    · simp
    · exact ⟨hw,hb⟩

/-- No wake-up is lost in a run whose last notification never meets a waiter between its
test of the predicate and the condition wait. -/
theorem guarded_run_not_stranded (predicate : Bool) (s : State W N)
    (h : machine.Reaches NotifyGuard (init W N predicate) s) : ¬ Stranded s := by
  have hsettled : Settled s :=
    h.invariant Settled (by simp [Settled, init]) (fun _ _ _ hi hg hs => step_settled hi hg hs)
  rintro ⟨hp,hn,w,hw⟩
  exact (hsettled hp hn w).2 hw

/-- One waiter and one notifier, with the notification after the waiter has entered its
condition wait. -/
theorem guarded_run_not_stranded_example :
    ∃ s : State Unit Unit, machine.Reaches NotifyGuard (init Unit Unit false) s ∧ ¬ Stranded s := by
  refine ⟨⟨none,true,fun _ => .woken,fun _ => .returned⟩,?_⟩
  have h : machine.Reaches NotifyGuard (init Unit Unit false)
      ⟨none,true,fun _ => .woken,fun _ => .returned⟩ := by
    refine .step (a := .notifyAll ()) (.step (a := .makeTrue ()) (.step (a := .sleep ())
      (.step (a := .test ()) (.step (a := .lock ()) .refl trivial rfl) trivial rfl)
        trivial rfl) trivial rfl) ?_ rfl
    intro _ w
    simp [State.setWaiter]
  exact ⟨h,guarded_run_not_stranded false _ h⟩

/-- A waiter sees the predicate false, the notifier makes it true and broadcasts to nobody, and
the waiter then blocks for ever. -/
theorem lost_wakeup :
    ¬ ∀ s, machine.Reaches (fun _ _ => True) (init Unit Unit false) s → ¬ Stranded s := by
  intro h
  have hr : machine.run (init Unit Unit false)
      [.lock (),.test (),.makeTrue (),.notifyAll (),.sleep ()] =
      some ⟨none,true,fun _ => .blocked,fun _ => .returned⟩ := rfl
  exact h _ (Machine.reaches_of_run hr) ⟨rfl,fun _ => rfl,(),rfl⟩

/-- The guard is exact: a last notification that meets a waiter about to sleep can be followed
by that waiter blocking for ever. -/
theorem unguarded_notify_strands {s : State W N} {n : N} {w : W} (hp : s.predicate = true)
    (hn : s.notifier n = .ready) (hlast : ∀ m, m ≠ n → s.notifier m = .returned)
    (hw : s.waiter w = .sleeping) :
    ∃ t, machine.run s [.notifyAll n,.sleep w] = some t ∧ Stranded t := by
  let s₁ : State W N := { s.wakeBlocked with notifier := Function.update s.notifier n .returned }
  have h₁ : machine.step s (.notifyAll n) = some s₁ := guarded_eq_some.mpr ⟨hn,rfl⟩
  have hw₁ : s₁.waiter w = .sleeping := by simp [s₁, State.wakeBlocked, hw]
  have h₂ : machine.step s₁ (.sleep w) = some { s₁.setWaiter w .blocked with mutex := none } :=
    guarded_eq_some.mpr ⟨hw₁,rfl⟩
  refine ⟨{ s₁.setWaiter w .blocked with mutex := none },?_,hp,?_,w,by simp [State.setWaiter]⟩
  · rw [Machine.run_cons, h₁, Option.bind_some, Machine.run_cons, h₂, Option.bind_some,
      Machine.run_nil]
  · intro m
    by_cases hm : m = n
    · subst m
      simp [s₁, State.setWaiter]
    · simp [s₁, State.setWaiter, Function.update_of_ne hm, hlast m hm]

end Asp.Notify
