import Asp.Thread.Returns
import Mathlib.Data.List.FinRange

/-! The destructor of a pool with `n` workers, each of which is an `asp::Thread` that tests its
flag between two calls of its loop function. Code that a worker runs may push tasks and call
`join()` until the end; other threads are in no call when the destructor begins, or later. -/
namespace Asp.ThreadPool.Shutdown
open Foundation

/-- The two variants of `allDead`. -/
inductive Platform
  | posix
  | windows
  deriving DecidableEq

/-- Where the thread of a worker is. -/
inductive Life
  | testing     -- about to test _stopped
  | calling     -- in the loop function, or in the handling of what that threw
  | ended
  deriving DecidableEq

/-- Where `~ThreadPool` is. -/
inductive Destructor (n : ℕ)
  | idle
  | testing                         -- in join(), about to evaluate isDone()
  | waiting                         -- in waiterSem.try_acquire_for
  | stopping (rest : List (Fin n))
  | joining (rest : List (Fin n))
  | done
  deriving DecidableEq

/-- The code that worker `w` runs makes its calls as the thread `.inr w`, and `destroyer` is the
worker whose code has called the destructor, if it was not another thread. -/
structure State (P J : Type*) (n : ℕ) where
  pool : ThreadPool.State (P ⊕ Fin n) (Fin n) (J ⊕ Fin n)
  stopped : Fin n → Bool
  joinable : Fin n → Bool
  life : Fin n → Life
  destructor : Destructor n
  destroyer : Option (Fin n)

/-- The steps of the pool itself. -/
abbrev PoolAction (P J : Type*) (n : ℕ) := ThreadPool.Action (P ⊕ Fin n) (Fin n) (J ⊕ Fin n)

inductive Action (P J : Type*) (n : ℕ)
  | use (a : PoolAction P J n)                  -- pushTask or join of another thread
  | work (w : Fin n) (a : PoolAction P J n)     -- of a worker, or of the code that it runs
  | loop (w : Fin n)                            -- the condition of the loop in Thread::start
  | destroy (caller : Option (Fin n))
  | test
  | timeout
  | stop
  | join

variable {P J : Type*} {n : ℕ} [DecidableEq P] [DecidableEq J]

/-- The worker whose thread makes a step of the pool. -/
def worker? : PoolAction P J n → Option (Fin n)
  | .pop w | .popEmpty w | .runTask w _ | .handle w _ | .finish w | .exit w => some w
  | .count (.inr w) | .push (.inr w) => some w
  | .join (.inr w) | .test (.inr w) | .timeout (.inr w) | .acquire (.inr w) => some w
  | .count (.inl _) | .push (.inl _) => none
  | .join (.inl _) | .test (.inl _) | .timeout (.inl _) | .acquire (.inl _) => none

/-- Where that thread is after the step. -/
def lifeAfter : PoolAction P J n → Life
  | .popEmpty _ | .finish _ => .testing
  | .exit _ => .ended
  | _ => .calling

namespace State

def setLife (s : State P J n) (w : Fin n) (l : Life) : State P J n :=
  { s with life := Function.update s.life w l }

def allDead (s : State P J n) : Platform → Prop
  | .posix => ∀ w, s.joinable w = false
  | .windows => ∀ w, s.life w = .ended

instance (s : State P J n) : ∀ p, Decidable (s.allDead p)
  | .posix | .windows => inferInstanceAs (Decidable (∀ _, _))

/-- The other threads that use the pool are between two calls. -/
def Unused [Fintype P] [Fintype J] (s : State P J n) : Prop :=
  (∀ p, s.pool.producer (.inl p) = .idle) ∧ ∀ j, (s.pool.joiner (.inl j)).inside = false

instance [Fintype P] [Fintype J] (s : State P J n) : Decidable s.Unused :=
  inferInstanceAs (Decidable (_ ∧ ∀ _, _))

/-- A worker's code can call the destructor. -/
def Calls (s : State P J n) (w : Fin n) : Prop :=
  (s.pool.worker w).busy = true ∧ s.pool.Between w

instance (s : State P J n) (w : Fin n) : Decidable (s.Calls w) :=
  inferInstanceAs (Decidable (_ ∧ _))

end State

variable [Fintype P] [Fintype J]

def step (p : Platform) (s : State P J n) : Action P J n → Option (State P J n)
  | .use a =>
    if s.destructor = .idle ∧ worker? a = none then
      (nested.step s.pool a).map fun pool => { s with pool := pool }
    else none
  | .work w a =>
    if s.life w = .calling ∧ worker? a = some w ∧ s.destroyer ≠ some w then
      (nested.step s.pool a).map fun pool => { s.setLife w (lifeAfter a) with pool := pool }
    else none
  | .loop w => guarded (s.life w = .testing) (s.setLife w (if s.stopped w then .ended else .calling))
  | .destroy caller => guarded (s.destructor = .idle ∧ s.Unused ∧ ∀ w ∈ caller, s.Calls w)
      { s with destructor := .testing, destroyer := caller }
  | .test => guarded (s.destructor = .testing) { s with
      destructor := if s.allDead p ∨ s.pool.remainingWork = 0 then .stopping (List.finRange n)
        else .waiting }
  | .timeout => guarded (s.destructor = .waiting) { s with destructor := .testing }
  | .stop =>
    match s.destructor with
    | .stopping [] => some { s with destructor := .joining (List.finRange n) }
    | .stopping (w :: rest) => some { s with
        stopped := Function.update s.stopped w true, destructor := .stopping rest }
    | _ => none
  | .join =>
    match s.destructor with
    | .joining [] => some { s with destructor := .done }
    | .joining (w :: rest) => guarded (s.life w = .ended) { s with
        joinable := Function.update s.joinable w false, destructor := .joining rest }
    | _ => none

def machine (p : Platform) : Machine (State P J n) (Action P J n) where
  step := step p

/-- The constructor has started the workers. -/
def init (P J : Type*) (n : ℕ) : State P J n where
  pool := ThreadPool.init (P ⊕ Fin n) (Fin n) (J ⊕ Fin n)
  stopped := fun _ => false
  joinable := fun _ => true
  life := fun _ => .testing
  destructor := .idle
  destroyer := none

/-- No worker is left that could do anything. -/
def State.AllLost (s : State P J n) : Platform → Prop
  | .posix => n = 0
  | .windows => ∀ w, (s.pool.worker w).left = true

/-- What `join()` in the destructor has waited for. -/
def State.Over (s : State P J n) (p : Platform) : Prop :=
  s.pool.remainingWork = 0 ∨ s.AllLost p

/-- What is known of the workers' threads when the destructor is at a place. -/
def Destructor.Fits (p : Platform) (s : State P J n) : Destructor n → Prop
  | .idle | .testing | .waiting => ∀ w, s.stopped w = false ∧ s.joinable w = true
  | .stopping _ => s.Over p
  | .joining rest => s.Over p ∧ ∀ w, w ∉ rest → s.life w = .ended
  | .done => s.Over p ∧ ∀ w, s.life w = .ended

/-- The invariant of all runs. -/
structure Inv (p : Platform) (s : State P J n) : Prop where
  accounted : s.pool.Accounted
  nested : s.pool.Nested
  testing : ∀ w, s.life w = .testing → s.pool.worker w = .polling
  ended : ∀ w, s.life w = .ended → s.pool.worker w = .exited ∨
    s.pool.worker w = .polling ∧ s.stopped w = true
  unused : s.destructor ≠ .idle → ∀ p, s.pool.producer (.inl p) = .idle
  destroyer : ∀ w, s.destroyer = some w → (s.pool.worker w).busy = true
  destructor : s.destructor.Fits p s

omit [DecidableEq P] [DecidableEq J] [Fintype J] in
theorem inv_init (p : Platform) : Inv p (init P J n) where
  accounted := accounted_init
  nested := init_nested
  testing _ _ := rfl
  ended _ h := nomatch h
  unused h := absurd rfl h
  destroyer _ h := nomatch h
  destructor _ := ⟨rfl,rfl⟩

section Pool
variable {s t : ThreadPool.State (P ⊕ Fin n) (Fin n) (J ⊕ Fin n)} {a : PoolAction P J n} {w : Fin n}

omit [Fintype P] [Fintype J] in
/-- What a worker's step does to the other workers and to the threads outside of the pool. -/
theorem worker_frame (ha : worker? a = some w) (hs : nested.step s a = some t) :
    (∀ p, s.producer (.inl p) = .idle → t.producer (.inl p) = .idle) ∧
      ∀ v, v ≠ w → t.worker v = s.worker v := by
  have hmachine := (Machine.restrict_step.mp hs).2
  constructor
  · intro p hp
    obtain hidle | rfl := step_producer hmachine _ hp
    · exact hidle
    · cases ha
  · intro v hv
    obtain hsame | rfl | rfl | rfl | ⟨throws,rfl | rfl⟩ := step_worker hmachine v
    · exact hsame
    all_goals exact absurd (Option.some.inj ha) hv

omit [Fintype P] [Fintype J] in
/-- Where the worker is when its loop function has returned, or its thread is over. -/
theorem worker_after (ha : worker? a = some w) (hs : nested.step s a = some t) :
    (lifeAfter a = .testing → t.worker w = .polling) ∧
      (lifeAfter a = .ended → t.worker w = .exited) := by
  replace hs := (Machine.restrict_step.mp hs).2
  cases a with
  | count | push | join | test | timeout | acquire | pop | runTask | handle =>
    constructor <;> rintro ⟨⟩
  | popEmpty v =>
    cases ha
    obtain ⟨hw,rfl⟩ := guarded_eq_some.mp hs
    exact ⟨fun _ => hw,Life.noConfusion⟩
  | exit v =>
    cases ha
    obtain ⟨-,rfl⟩ := guarded_eq_some.mp hs
    exact ⟨Life.noConfusion,fun _ => Function.update_self ..⟩
  | finish v =>
    cases ha
    simp only [ThreadPool.machine, ThreadPool.State.step] at hs
    split at hs <;> cases hs
    exact ⟨fun _ => Function.update_self ..,Life.noConfusion⟩

omit [Fintype J] in
/-- No worker changes that there is no work left. -/
theorem worker_unworked (h : s.Accounted) (ha : worker? a = some w)
    (hs : nested.step s a = some t) (h0 : s.remainingWork = 0) : t.remainingWork = 0 := by
  obtain ⟨hwithin,hmachine⟩ := Machine.restrict_step.mp hs
  have hpoll := h.worker_polling h0
  obtain hsame | ⟨p,rfl⟩ | ⟨v,rfl⟩ := step_remainingWork hmachine
  · exact hsame.trans h0
  · cases p with
    | inl p => cases ha
    | inr v =>
      have hbusy := hwithin.1
      rw [hpoll v] at hbusy
      cases hbusy
  · simp only [ThreadPool.machine, ThreadPool.State.step, hpoll v] at hmachine
    cases hmachine

end Pool

section Frames
variable {p : Platform} {s t : State P J n}

omit [DecidableEq P] [DecidableEq J] [Fintype P] [Fintype J] in
lemma State.Over.mono (h : s.Over p) (hwork : s.pool.remainingWork = 0 → t.pool.remainingWork = 0)
    (hleft : ∀ w, (s.pool.worker w).left = true → (t.pool.worker w).left = true) : t.Over p := by
  refine h.imp hwork fun hlost => ?_
  cases p with
  | posix => exact hlost
  | windows => exact fun w => hleft w (hlost w)

omit [DecidableEq P] [DecidableEq J] [Fintype P] [Fintype J] in
/-- The workers go on while the destructor stays where it is. -/
lemma Destructor.Fits.mono {d : Destructor n} (h : d.Fits p s) (hover : s.Over p → t.Over p)
    (hlife : ∀ w, s.life w = .ended → t.life w = .ended) (hstopped : t.stopped = s.stopped)
    (hjoinable : t.joinable = s.joinable) : d.Fits p t := by
  cases d with
  | idle | testing | waiting =>
    intro w
    rw [hstopped, hjoinable]
    exact h w
  | stopping rest => exact hover h
  | joining rest => exact ⟨hover h.1,fun w hw => hlife w (h.2 w hw)⟩
  | done => exact ⟨hover h.1,fun w => hlife w (h.2 w)⟩

omit [DecidableEq P] [DecidableEq J] [Fintype P] [Fintype J] in
lemma life_setLife (s : State P J n) (w : Fin n) (l : Life) {v : Fin n} {l' : Life}
    (h : (s.setLife w l).life v = l') : v = w ∧ l = l' ∨ v ≠ w ∧ s.life v = l' := by
  by_cases hv : v = w
  · subst hv
    exact .inl ⟨rfl,(Function.update_self ..).symm.trans h⟩
  · exact .inr ⟨hv,(Function.update_of_ne hv ..).symm.trans h⟩

omit [DecidableEq P] [DecidableEq J] [Fintype P] [Fintype J] in
lemma life_setLife_ended (s : State P J n) {w : Fin n} (l : Life) (hw : s.life w ≠ .ended)
    {v : Fin n} (hv : s.life v = .ended) : (s.setLife w l).life v = .ended := by
  have hne : v ≠ w := by
    rintro rfl
    exact hw hv
  exact (Function.update_of_ne hne ..).trans hv

end Frames

section Steps
variable {p : Platform} {s t : State P J n}

omit [Fintype P] [Fintype J] in
/-- The threads outside of the pool do not touch its workers. -/
theorem user_frame {s t : ThreadPool.State (P ⊕ Fin n) (Fin n) (J ⊕ Fin n)} {a : PoolAction P J n}
    (ha : worker? a = none) (hs : nested.step s a = some t) : t.worker = s.worker := by
  funext v
  obtain hsame | rfl | rfl | rfl | ⟨throws,rfl | rfl⟩ :=
    step_worker (Machine.restrict_step.mp hs).2 v
  · exact hsame
  all_goals cases ha

theorem use_inv (h : Inv p s) {a : PoolAction P J n} (hs : step p s (.use a) = some t) :
    Inv p t := by
  rw [step] at hs
  split_ifs at hs with hc
  obtain ⟨hidle,ha⟩ := hc
  obtain ⟨pool,hpool,rfl⟩ := Option.map_eq_some_iff.mp hs
  have hworker := user_frame ha hpool
  have hfits := h.destructor
  rw [hidle] at hfits
  refine ⟨step_accounted h.accounted (Machine.restrict_step.mp hpool).2,step_nested h.nested hpool,
    fun w hw => ?_,fun w hw => ?_,fun hne => absurd hidle hne,fun w hw => ?_,?_⟩
  · change pool.worker w = _
    rw [hworker]
    exact h.testing w hw
  · change pool.worker w = _ ∨ pool.worker w = _ ∧ _
    rw [hworker]
    exact h.ended w hw
  · change (pool.worker w).busy = true
    rw [hworker]
    exact h.destroyer w hw
  · change s.destructor.Fits p _
    rw [hidle]
    exact hfits

theorem work_inv (h : Inv p s) {w : Fin n} {a : PoolAction P J n}
    (hs : step p s (.work w a) = some t) : Inv p t := by
  rw [step] at hs
  split_ifs at hs with hc
  obtain ⟨hcalling,ha,hdestroyer⟩ := hc
  obtain ⟨pool,hpool,rfl⟩ := Option.map_eq_some_iff.mp hs
  obtain ⟨hproducer,hothers⟩ := worker_frame ha hpool
  obtain ⟨hpolling,hexited⟩ := worker_after ha hpool
  have hmachine := (Machine.restrict_step.mp hpool).2
  have hended : s.life w ≠ .ended := by
    rw [hcalling]
    exact nofun
  refine ⟨step_accounted h.accounted hmachine,step_nested h.nested hpool,fun v hv => ?_,
    fun v hv => ?_,fun hne q => hproducer q (h.unused hne q),fun v hv => ?_,?_⟩
  · change pool.worker v = _
    obtain ⟨rfl,hl⟩ | ⟨hne,hv⟩ := life_setLife s w _ hv
    · exact hpolling hl
    · rw [hothers v hne]
      exact h.testing v hv
  · change pool.worker v = _ ∨ pool.worker v = _ ∧ _
    obtain ⟨rfl,hl⟩ | ⟨hne,hv⟩ := life_setLife s w _ hv
    · exact .inl (hexited hl)
    · rw [hothers v hne]
      exact h.ended v hv
  · have hvw : v ≠ w := by
      rintro rfl
      exact hdestroyer hv
    change (pool.worker v).busy = true
    rw [hothers v hvw]
    exact h.destroyer v hv
  · refine h.destructor.mono (fun hover => hover.mono ?_ fun v hv => ?_)
      (fun v hv => life_setLife_ended s _ hended hv) rfl rfl
    · exact worker_unworked h.accounted ha hpool
    · exact (step_left hmachine v).mpr (.inl hv)

theorem loop_inv (h : Inv p s) {w : Fin n} (hs : step p s (.loop w) = some t) : Inv p t := by
  obtain ⟨htesting,rfl⟩ := guarded_eq_some.mp hs
  have hended : s.life w ≠ .ended := by
    rw [htesting]
    exact nofun
  refine ⟨h.accounted,h.nested,fun v hv => ?_,fun v hv => ?_,h.unused,h.destroyer,?_⟩
  · obtain ⟨rfl,hl⟩ | ⟨-,hv⟩ := life_setLife s w _ hv
    · split_ifs at hl
    · exact h.testing v hv
  · obtain ⟨rfl,hl⟩ | ⟨-,hv⟩ := life_setLife s w _ hv
    · split_ifs at hl with hstopped
      exact .inr ⟨h.testing v htesting,hstopped⟩
    · exact h.ended v hv
  · exact h.destructor.mono (fun hover => hover.mono id fun _ => id)
      (fun v hv => life_setLife_ended s _ hended hv) rfl rfl

theorem test_inv (h : Inv p s) (hs : step p s .test = some t) : Inv p t := by
  obtain ⟨htesting,rfl⟩ := guarded_eq_some.mp hs
  have hfits := h.destructor
  rw [htesting] at hfits
  refine ⟨h.accounted,h.nested,h.testing,h.ended,
    fun _ => h.unused (by rw [htesting]; exact nofun),h.destroyer,?_⟩
  change (if s.allDead p ∨ s.pool.remainingWork = 0 then Destructor.stopping (List.finRange n)
    else .waiting).Fits p _
  split_ifs with hdone
  · obtain hdead | h0 := hdone
    · right
      cases p with
      | posix =>
        -- no handle has been joined yet
        by_contra hn
        have hjoinable := (hfits ⟨0,Nat.pos_of_ne_zero hn⟩).2
        cases (hdead ⟨0,Nat.pos_of_ne_zero hn⟩).symm.trans hjoinable
      | windows =>
        intro w
        obtain hexited | ⟨-,hstopped⟩ := h.ended w (hdead w)
        · change (s.pool.worker w).left = true
          rw [hexited]
          rfl
        · cases hstopped.symm.trans (hfits w).1
    · exact .inl h0
  · exact hfits

/-- Every step keeps the invariant. -/
theorem step_inv (h : Inv p s) {a : Action P J n} (hs : step p s a = some t) : Inv p t := by
  cases a with
  | use a => exact use_inv h hs
  | work w a => exact work_inv h hs
  | loop w => exact loop_inv h hs
  | test => exact test_inv h hs
  | destroy caller =>
    obtain ⟨⟨hidle,⟨hproducer,-⟩,hcalls⟩,rfl⟩ := guarded_eq_some.mp hs
    have hfits := h.destructor
    rw [hidle] at hfits
    exact ⟨h.accounted,h.nested,h.testing,h.ended,fun _ => hproducer,
      fun w hw => (hcalls w hw).1,hfits⟩
  | timeout =>
    obtain ⟨hwaiting,rfl⟩ := guarded_eq_some.mp hs
    have hfits := h.destructor
    rw [hwaiting] at hfits
    exact ⟨h.accounted,h.nested,h.testing,h.ended,
      fun _ => h.unused (by rw [hwaiting]; exact nofun),h.destroyer,hfits⟩
  | stop =>
    have hfits := h.destructor
    have hunused := h.unused
    rw [step] at hs
    split at hs <;> cases hs
    · rename_i hd
      rw [hd] at hfits hunused
      exact ⟨h.accounted,h.nested,h.testing,h.ended,fun _ => hunused nofun,h.destroyer,hfits,
        fun w hw => absurd (List.mem_finRange w) hw⟩
    · rename_i w rest hd
      rw [hd] at hfits hunused
      refine ⟨h.accounted,h.nested,h.testing,
        fun v hv => (h.ended v hv).imp id fun hstop => ⟨hstop.1,?_⟩,fun _ => hunused nofun,
        h.destroyer,hfits⟩
      by_cases hvw : v = w
      · subst hvw
        exact Function.update_self ..
      · exact (Function.update_of_ne hvw ..).trans hstop.2
  | join =>
    have hfits := h.destructor
    have hunused := h.unused
    rw [step] at hs
    split at hs
    · rename_i hd
      cases hs
      rw [hd] at hfits hunused
      exact ⟨h.accounted,h.nested,h.testing,h.ended,fun _ => hunused nofun,h.destroyer,hfits.1,
        fun w => hfits.2 w List.not_mem_nil⟩
    · rename_i w rest hd
      obtain ⟨hended,rfl⟩ := guarded_eq_some.mp hs
      rw [hd] at hfits hunused
      refine ⟨h.accounted,h.nested,h.testing,h.ended,fun _ => hunused nofun,h.destroyer,hfits.1,
        fun v hv => ?_⟩
      by_cases hvw : v = w
      · subst hvw
        exact hended
      · exact hfits.2 v fun hm => (List.mem_cons.mp hm).elim hvw hv
    · cases hs

end Steps

end Asp.ThreadPool.Shutdown
