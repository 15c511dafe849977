import Asp.Thread.Nested

/-! When a `join()` of a pool can still return, of another thread or of code that a worker runs. -/
namespace Asp.ThreadPool
open Foundation
variable {P W J : Type*} [DecidableEq P] [DecidableEq W] [DecidableEq J] [Fintype P] [Fintype W]

/-- How many steps a worker still has to do for its task. -/
def Worker.effort : Worker → ℕ
  | running _ => 3
  | handling _ => 2
  | finishing _ => 1
  | polling | failing | exited => 0

/-- How many steps it takes until nothing is left to do. -/
def State.effort (s : State P W J) : ℕ :=
  5 * tally Producer.work s.producer + 4 * s.taskQueue.length + tally Worker.effort s.worker

omit [Fintype P] [Fintype W] in
/-- Without workers nothing is ever finished. -/
theorem step_unfinished [IsEmpty W] {s t : State P W J} {a : Action P W J}
    (hs : machine.step s a = some t) (h0 : 0 < s.remainingWork) : 0 < t.remainingWork := by
  cases a with
  | count p =>
    obtain ⟨-,rfl⟩ := guarded_eq_some.mp hs
    exact Nat.succ_pos _
  | push p =>
    simp only [machine, State.step] at hs
    split at hs <;> cases hs
    exact h0
  | join k | timeout k | test k | acquire k =>
    obtain ⟨-,rfl⟩ := guarded_eq_some.mp hs
    exact h0
  | pop w | popEmpty w | runTask w throws | handle w throws | finish w | exit w => exact isEmptyElim w

omit [DecidableEq P] [DecidableEq W] [DecidableEq J] in
/-- A worker without work of its own is polling. -/
theorem State.Accounted.worker_polling {s : State P W J} (h : s.Accounted)
    (h0 : s.remainingWork = 0) (w : W) : s.worker w = .polling := by
  have hcount := h.count
  rw [h0, State.openWork] at hcount
  have hw := tally_eq_zero.mp (by omega : tally Worker.work s.worker = 0) w
  cases hp : s.worker w with
  | polling => rfl
  | _ =>
    rw [hp] at hw
    cases hw

omit [DecidableEq P] [DecidableEq W] [DecidableEq J] in
/-- The task that a worker has taken is counted until it is given back. -/
theorem State.Accounted.pos_of_worker {s : State P W J} (h : s.Accounted) {w : W}
    (hw : s.worker w ≠ .polling) : 0 < s.remainingWork :=
  Nat.pos_of_ne_zero fun h0 => hw (h.worker_polling h0 w)

omit [DecidableEq P] [DecidableEq J] in
theorem effort_setWorker (s : State P W J) (w : W) (x : Worker) :
    (s.setWorker w x).effort + (s.worker w).effort = s.effort + x.effort := by
  have hu := tally_update Worker.effort s.worker w x
  change 5 * tally Producer.work s.producer + 4 * s.taskQueue.length +
    tally Worker.effort (Function.update s.worker w x) + _ = _
  rw [State.effort]
  omega

omit [DecidableEq P] [DecidableEq W] [DecidableEq J] in
/-- Where work remains, it is with a thread that pushes a task, with a worker or in the queue. -/
theorem exists_work {s : State P W J} (h : s.Accounted) (h0 : s.remainingWork ≠ 0) :
    (∃ p task, s.producer p = .counted task) ∨ (∃ w, s.worker w ≠ .polling) ∨
      s.taskQueue ≠ [] := by
  by_contra hnone
  obtain ⟨hproducer,hnone⟩ := not_or.mp hnone
  obtain ⟨hworker,hqueue⟩ := not_or.mp hnone
  have hp : tally Producer.work s.producer = 0 := tally_eq_zero.mpr fun p => by
    cases hp : s.producer p with
    | idle => rfl
    | counted task => exact absurd ⟨p,task,hp⟩ hproducer
  have hw : tally Worker.work s.worker = 0 := tally_eq_zero.mpr fun w => by
    have hpoll : s.worker w = .polling := by_contra fun hw => hworker ⟨w,hw⟩
    rw [hpoll]
    rfl
  have hq : s.taskQueue = [] := by_contra hqueue
  refine h0 (h.count.trans ?_)
  rw [State.openWork, hp, hw, hq]
  rfl

section Effort
variable {s : State P W J}

theorem effort_push {p : P} {task : ℕ} (hp : s.producer p = .counted task) :
    ∃ t, machine.step s (.push p) = some t ∧ t.effort < s.effort ∧ t.joiner = s.joiner := by
  have hu := tally_update Producer.work s.producer p .idle
  rw [hp] at hu
  refine ⟨{ s.setProducer p .idle with
    taskQueue := s.taskQueue ++ [task], pushed := Function.update s.pushed task true },
    by simp only [machine, State.step, hp],?_,rfl⟩
  change 5 * tally Producer.work (Function.update s.producer p .idle) +
    4 * (s.taskQueue ++ [task]).length + tally Worker.effort s.worker < s.effort
  rw [State.effort, List.length_append, List.length_singleton]
  simp only [Producer.work] at hu
  omega

theorem effort_pop {w : W} (hw : s.worker w = .polling) (hq : s.taskQueue ≠ []) :
    ∃ t, machine.step s (.pop w) = some t ∧ t.effort < s.effort ∧ t.joiner = s.joiner := by
  obtain ⟨task,rest,hq⟩ := List.exists_cons_of_ne_nil hq
  have hu := effort_setWorker s w (.running task)
  rw [hw] at hu
  refine ⟨{ s.setWorker w (.running task) with taskQueue := rest },
    by simp only [machine, State.step, hw, hq],?_,rfl⟩
  change 5 * tally Producer.work s.producer + 4 * rest.length +
    tally Worker.effort (s.setWorker w (.running task)).worker < s.effort
  change 5 * tally Producer.work s.producer + 4 * s.taskQueue.length +
    tally Worker.effort (s.setWorker w (.running task)).worker + 0 = s.effort + 3 at hu
  rw [hq, List.length_cons] at hu
  omega

/-- The step of a worker with a task that nobody's exception disturbs. -/
inductive Calm (w : W) : Action P W J → Prop
  | runTask : Calm w (.runTask w false)
  | handle : Calm w (.handle w false)
  | finish : Calm w (.finish w)

omit [DecidableEq P] [DecidableEq W] [DecidableEq J] [Fintype P] [Fintype W] in
theorem Calm.guard {w : W} {a : Action P W J} (h : Calm w a) : HandlerGuard s a := by
  cases h with
  | runTask | finish => trivial
  | handle => rfl

theorem effort_worker {w : W} (hleft : (s.worker w).left = false) (hw : s.worker w ≠ .polling) :
    ∃ a t, Calm w a ∧ machine.step s a = some t ∧ t.effort < s.effort ∧ t.joiner = s.joiner := by
  cases hp : s.worker w with rw [hp] at hleft
  | polling => exact absurd hp hw
  | failing | exited => cases hleft
  | running task =>
    have hu := effort_setWorker s w (.finishing task)
    rw [hp] at hu
    refine ⟨.runTask w false,{ s.setWorker w (.finishing task) with
      finished := Function.update s.finished task true },.runTask,
      by simp only [machine, State.step, hp]; rfl,?_,rfl⟩
    change (s.setWorker w (.finishing task)).effort < s.effort
    simp only [Worker.effort] at hu
    omega
  | handling task =>
    have hu := effort_setWorker s w (.finishing task)
    rw [hp] at hu
    refine ⟨.handle w false,s.setWorker w (.finishing task),.handle,
      by simp only [machine, State.step, hp]; rfl,?_,rfl⟩
    simp only [Worker.effort] at hu
    omega
  | finishing task =>
    have hu := effort_setWorker s w .polling
    rw [hp] at hu
    refine ⟨.finish w,{ s.setWorker w .polling with
      remainingWork := if s.remainingWork = 0 then 2 ^ 64 - 1 else s.remainingWork - 1
      wrapped := s.wrapped || decide (s.remainingWork = 0) },.finish,
      by simp only [machine, State.step, hp],?_,rfl⟩
    change (s.setWorker w .polling).effort < s.effort
    simp only [Worker.effort] at hu
    omega

end Effort

section Nested
variable {s t : State (P ⊕ W) W (J ⊕ W)}

/-- What keeps a pool from ever finishing its work: it has no workers, or one of them has left its
loop, or runs code that is in `join()` itself. -/
def Stuck (s : State (P ⊕ W) W (J ⊕ W)) : Prop :=
  IsEmpty W ∨ ∃ w, (s.worker w).left = true ∨
    (s.worker w).busy = true ∧ (s.joiner (.inr w)).inside = true

theorem Stuck.step {a : Action (P ⊕ W) W (J ⊕ W)} (h : Stuck s) (hs : s.Accounted)
    (ht : t.Accounted) (hstep : nested.step s a = some t) (h0 : 0 < s.remainingWork) :
    Stuck t ∧ 0 < t.remainingWork := by
  have hmachine := (Machine.restrict_step.mp hstep).2
  obtain hempty | ⟨w,hleft | ⟨hbusy,hinside⟩⟩ := h
  · exact ⟨.inl hempty,step_unfinished hmachine h0⟩
  · have hleft' := (step_left hmachine w).mpr (.inl hleft)
    refine ⟨.inr ⟨w,.inl hleft'⟩,ht.pos_of_worker (w := w) fun hp => ?_⟩
    rw [hp] at hleft'
    cases hleft'
  · have hcall : ¬s.Between w := fun hw => by cases hw.2.symm.trans hinside
    have hsame := step_busy hstep hbusy hcall
    rw [← hsame] at hbusy
    have hpos : 0 < t.remainingWork := ht.pos_of_worker (w := w) fun hp => by
      rw [hp] at hbusy
      cases hbusy
    obtain hinside' | hzero | hsem := step_inside hmachine (.inr w) hinside
    · exact ⟨.inr ⟨w,.inr ⟨hbusy,hinside'⟩⟩,hpos⟩
    · omega
    · rw [hs.sem] at hsem
      exact absurd hsem (Nat.lt_irrefl 0)

omit [DecidableEq P] [DecidableEq W] [DecidableEq J] in
/-- Where nothing keeps a pool from it, work goes on in a call of `pushTask`, in a worker that is
in no call, or by taking a task. -/
theorem exists_turn (hacc : s.Accounted) (hjoin : ∀ w, (s.joiner (.inr w)).inside = false)
    (h0 : s.remainingWork ≠ 0) : (∃ p task, s.producer p = .counted task) ∨
      (∃ w, s.worker w ≠ .polling ∧ s.Between w) ∨
      s.taskQueue ≠ [] ∧ ∀ w, s.worker w = .polling := by
  by_cases hproducer : ∃ p task, s.producer p = .counted task
  · exact .inl hproducer
  · have hidle : ∀ p, s.producer p = .idle := by
      intro p
      cases hp : s.producer p with
      | idle => rfl
      | counted task => exact absurd ⟨p,task,hp⟩ hproducer
    by_cases hworker : ∃ w, s.worker w ≠ .polling
    · obtain ⟨w,hw⟩ := hworker
      exact .inr (.inl ⟨w,hw,hidle _,hjoin w⟩)
    · obtain hp | hw | hq := exists_work hacc h0
      · exact absurd hp hproducer
      · exact absurd hw hworker
      · exact .inr (.inr ⟨hq,fun w => by_contra fun hw => hworker ⟨w,hw⟩⟩)

omit [DecidableEq P] [DecidableEq W] [DecidableEq J] [Fintype P] [Fintype W] in
theorem Calm.within {w : W} {a : Action (P ⊕ W) W (J ⊕ W)} (h : Calm w a) (hw : s.Between w) :
    Within s a := by
  cases h with
  | runTask | handle => exact hw
  | finish => trivial

/-- Then some step that no exception of the handler disturbs brings the end nearer. -/
theorem effort_step [Nonempty W] (hacc : s.Accounted) (hleft : ∀ w, (s.worker w).left = false)
    (hjoin : ∀ w, (s.joiner (.inr w)).inside = false) (h0 : s.remainingWork ≠ 0) :
    ∃ a t, nested.step s a = some t ∧ HandlerGuard s a ∧ t.effort < s.effort ∧
      t.joiner = s.joiner := by
  obtain ⟨p,task,hp⟩ | ⟨w,hw,hbetween⟩ | ⟨hq,hpoll⟩ := exists_turn hacc hjoin h0
  · obtain ⟨t,ht,hless⟩ := effort_push hp
    exact ⟨.push p,t,Machine.restrict_step.mpr ⟨trivial,ht⟩,trivial,hless⟩
  · obtain ⟨a,t,hcalm,ht,hless⟩ := effort_worker (hleft w) hw
    exact ⟨a,t,Machine.restrict_step.mpr ⟨hcalm.within hbetween,ht⟩,hcalm.guard,hless⟩
  · obtain ⟨w⟩ := ‹Nonempty W›
    obtain ⟨t,ht,hless⟩ := effort_pop (hpoll w) hq
    exact ⟨.pop w,t,Machine.restrict_step.mpr ⟨trivial,ht⟩,trivial,hless⟩

/-- A pool whose workers are all in their loops can finish its work. -/
theorem run_finishes [Nonempty W] (hacc : s.Accounted) (hleft : ∀ w, (s.worker w).left = false)
    (hjoin : ∀ w, (s.joiner (.inr w)).inside = false) :
    ∃ as t, nested.run s as = some t ∧ t.remainingWork = 0 ∧ t.joiner = s.joiner := by
  obtain ⟨as,t,ht,hI,h0⟩ := Machine.exists_run (M := nested)
    (fun t : State (P ⊕ W) W (J ⊕ W) =>
      t.Accounted ∧ (∀ w, (t.worker w).left = false) ∧ t.joiner = s.joiner)
    (fun t => t.remainingWork = 0) State.effort (fun u hu h0 => by
      obtain ⟨hacc,hleft,hsame⟩ := hu
      obtain ⟨a,v,hv,hguard,heffort,hkept⟩ := effort_step hacc hleft (hsame ▸ hjoin) h0
      have hmachine := (Machine.restrict_step.mp hv).2
      refine ⟨a,v,hv,⟨step_accounted hacc hmachine,fun w => ?_,hkept.trans hsame⟩,heffort⟩
      rw [← Bool.not_eq_true, step_left hmachine w, hleft w]
      rintro (hw | rfl)
      · cases hw
      · cases hguard) s ⟨hacc,hleft,rfl⟩
  exact ⟨as,t,ht,h0,hI.2.2⟩

theorem reaches_nested (h : nested.Reaches (fun _ _ => True) (init (P ⊕ W) W (J ⊕ W)) s) :
    s.Accounted ∧ s.Nested := by
  refine h.invariant (fun s => s.Accounted ∧ s.Nested) ⟨accounted_init,init_nested⟩ ?_
  rintro u a v ⟨hacc,hnested⟩ - hv
  exact ⟨step_accounted hacc (Machine.restrict_step.mp hv).2,step_nested hnested hv⟩

omit [DecidableEq P] [DecidableEq W] [DecidableEq J] [Fintype P] [Fintype W] in
theorem stuck_of_not (h : s.Nested) (hnot : ¬(Nonempty W ∧
    ∀ w, (s.worker w).left = false ∧ (s.joiner (.inr w)).inside = false)) : Stuck s := by
  refine or_iff_not_imp_left.mpr fun hempty => ?_
  by_contra hnone
  refine hnot ⟨not_isEmpty_iff.mp hempty,fun w => ?_⟩
  have hw := not_or.mp (not_exists.mp hnone w)
  refine ⟨Bool.eq_false_iff.mpr hw.1,Bool.eq_false_iff.mpr fun hinside => hw.2 ⟨?_,hinside⟩⟩
  refine (h w).resolve_left fun hbetween => ?_
  cases hbetween.2.symm.trans hinside

/-- No `join()` of such a pool returns while there is work. -/
theorem Stuck.inside (h : Stuck s) (hacc : s.Accounted) (h0 : 0 < s.remainingWork) {j : J ⊕ W}
    (hj : (s.joiner j).inside = true) {as : List (Action (P ⊕ W) W (J ⊕ W))}
    (hrun : nested.run s as = some t) : (t.joiner j).inside = true := by
  refine ((Machine.reaches_of_run hrun).invariant
    (fun u => u.Accounted ∧ (Stuck u ∧ 0 < u.remainingWork) ∧ (u.joiner j).inside = true)
    ⟨hacc,⟨h,h0⟩,hj⟩ ?_).2.2
  rintro u a v ⟨hacc,⟨hstuck,h0⟩,hj⟩ - hv
  have hmachine := (Machine.restrict_step.mp hv).2
  have hacc' := step_accounted hacc hmachine
  refine ⟨hacc',hstuck.step hacc hacc' hv h0,?_⟩
  obtain hinside | hzero | hsem := step_inside hmachine j hj
  · exact hinside
  · omega
  · rw [hacc.sem] at hsem
    exact absurd hsem (Nat.lt_irrefl 0)

omit [Fintype P] [Fintype W] in
/-- A `join()` that finds no work left returns. -/
theorem run_returns (h0 : s.remainingWork = 0) {j : J ⊕ W} (hj : (s.joiner j).inside = true) :
    ∃ as t, nested.run s as = some t ∧ t.joiner j = .returned := by
  have htest : ∀ u : State (P ⊕ W) W (J ⊕ W), u.remainingWork = 0 → u.joiner j = .testing →
      nested.step u (.test j) = some (u.setJoiner j .returned) := by
    intro u h0 hu
    refine Machine.restrict_step.mpr ⟨trivial,?_⟩
    change guarded _ _ = _
    rw [if_pos h0]
    exact guarded_eq_some.mpr ⟨hu,rfl⟩
  cases hp : s.joiner j with rw [hp] at hj
  | idle | returned => cases hj
  | testing =>
    refine ⟨[.test j],s.setJoiner j .returned,?_,Function.update_self ..⟩
    rw [Machine.run_cons, htest s h0 hp]
    rfl
  | waiting =>
    have htimeout : nested.step s (.timeout j) = some (s.setJoiner j .testing) :=
      Machine.restrict_step.mpr ⟨trivial,guarded_eq_some.mpr ⟨hp,rfl⟩⟩
    refine ⟨[.timeout j,.test j],(s.setJoiner j .testing).setJoiner j .returned,?_,
      Function.update_self ..⟩
    rw [Machine.run_cons, htimeout, Option.bind_some, Machine.run_cons,
      htest (s.setJoiner j .testing) h0 (Function.update_self ..)]
    rfl

/-- A `join()` that has not returned can still do so exactly when there is nothing left to do, or
there are workers, no handler has taken one of them out of its loop and none of them runs code
that is in `join()` itself. -/
theorem join_returns_iff (h : nested.Reaches (fun _ _ => True) (init (P ⊕ W) W (J ⊕ W)) s)
    (j : J ⊕ W) (hj : (s.joiner j).inside = true) :
    (∃ as t, nested.run s as = some t ∧ t.joiner j = .returned) ↔
      s.remainingWork = 0 ∨ Nonempty W ∧
        ∀ w, (s.worker w).left = false ∧ (s.joiner (.inr w)).inside = false := by
  obtain ⟨hacc,hnested⟩ := reaches_nested h
  constructor
  · rintro ⟨as,t,ht,hreturned⟩
    by_contra hnot
    obtain ⟨h0,hrest⟩ := not_or.mp hnot
    have hinside := (stuck_of_not hnested hrest).inside hacc (Nat.pos_of_ne_zero h0) hj ht
    rw [hreturned] at hinside
    cases hinside
  · rintro (h0 | ⟨hworkers,hall⟩)
    · exact run_returns h0 hj
    · obtain ⟨as,t,ht,h0,hsame⟩ := run_finishes hacc (fun w => (hall w).1) fun w => (hall w).2
      obtain ⟨bs,u,hu,hreturned⟩ := run_returns (s := t) h0 (j := j) (by rwa [hsame])
      exact ⟨as ++ bs,u,by rw [Machine.run_append, ht]; exact hu,hreturned⟩

end Nested

/-- While a `join()` waits, a task pushes another one, and then joins its own pool. -/
def joiningTask (w : Fin 1) : List (Action (Unit ⊕ Fin 1) (Fin 1) (Unit ⊕ Fin 1)) :=
  [.count (.inl ()),.push (.inl ()),.join (.inl ()),.test (.inl ()),.pop w,.count (.inr w),
    .push (.inr w),.join (.inr w)]

theorem join_returns_iff_joiningTask :
    ∃ s, nested.run (init (Unit ⊕ Fin 1) (Fin 1) (Unit ⊕ Fin 1)) (joiningTask 0) = some s ∧
      ¬∃ as t, nested.run s as = some t ∧ t.joiner (.inl ()) = .returned := by
  have hrun : (nested.run (init (Unit ⊕ Fin 1) (Fin 1) (Unit ⊕ Fin 1)) (joiningTask 0)).map
      (fun s => ((s.joiner (.inl ())).inside,s.remainingWork,(s.joiner (.inr 0)).inside)) =
        some (true,2,true) := by decide
  obtain ⟨s,hs,hv⟩ := Option.map_eq_some_iff.mp hrun
  obtain ⟨hj,hv⟩ := Prod.mk.inj hv
  obtain ⟨hwork,hinside⟩ := Prod.mk.inj hv
  refine ⟨s,hs,fun hreturns => ?_⟩
  obtain h0 | ⟨-,hall⟩ := (join_returns_iff (Machine.reaches_of_run hs) (.inl ()) hj).mp hreturns
  · omega
  · cases (hall 0).2.symm.trans hinside

end Asp.ThreadPool
