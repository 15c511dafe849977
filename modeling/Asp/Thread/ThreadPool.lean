import Asp.Foundation.Machine
import Asp.Foundation.Tally

/-! `asp::ThreadPool` while it is not being destroyed: threads that push tasks, the workers, and
threads in `join()`. The queue is an `asp::Channel`, whose push and pop are single steps here.
Tasks are numbered in the order in which `remainingWork` is incremented for them. -/
namespace Asp.ThreadPool
open Foundation

/-- Where a thread is in `pushTask`. -/
inductive Producer
  | idle
  | counted (task : ℕ)      -- remainingWork is incremented, the task not yet in the queue
  deriving DecidableEq

/-- Where a worker is in its loop function. -/
inductive Worker
  | polling                 -- before the task is popped
  | running (task : ℕ)
  | handling (task : ℕ)     -- the task has thrown; in storage->onException
  | finishing (task : ℕ)    -- about to decrement remainingWork
  | failing                 -- the handler has thrown; in the exception handling of Thread::start
  | exited
  deriving DecidableEq

/-- Where a thread is in `join`. -/
inductive Joiner
  | idle
  | testing                 -- about to evaluate isDone()
  | waiting                 -- in waiterSem.try_acquire_for
  | returned
  deriving DecidableEq

/-- `finished` and `pushed` record the tasks that have finished running and those whose
`pushTask` call has returned, `before` the tasks that had been pushed when a thread's last
`join()` began, and `wrapped` a decrement of `remainingWork` at 0. -/
structure State (P W J : Type*) where
  remainingWork : ℕ
  taskQueue : List ℕ
  notifyWaiter : Bool
  waiterSem : ℕ
  producer : P → Producer
  worker : W → Worker
  joiner : J → Joiner
  tasks : ℕ
  pushed : ℕ → Bool
  finished : ℕ → Bool
  before : J → ℕ → Bool
  wrapped : Bool

inductive Action (P W J : Type*)
  | count (p : P)                       -- pushTask: remainingWork.fetch_add(1)
  | push (p : P)                        -- taskQueue.push
  | pop (w : W)                         -- taskQueue.popTimeout with a task
  | popEmpty (w : W)                    -- popTimeout returns std::nullopt
  | runTask (w : W) (throws : Bool)     -- the task returns or throws
  | handle (w : W) (throws : Bool)      -- storage->onException returns or throws
  | finish (w : W)                      -- remainingWork.fetch_sub(1)
  | exit (w : W)                        -- the worker's thread ends after its own handler
  | join (j : J)
  | test (j : J)
  | timeout (j : J)
  | acquire (j : J)

variable {P W J : Type*} [DecidableEq P] [DecidableEq W] [DecidableEq J]

namespace State

def setProducer (s : State P W J) (p : P) (x : Producer) : State P W J :=
  { s with producer := Function.update s.producer p x }

def setWorker (s : State P W J) (w : W) (x : Worker) : State P W J :=
  { s with worker := Function.update s.worker w x }

def setJoiner (s : State P W J) (j : J) (x : Joiner) : State P W J :=
  { s with joiner := Function.update s.joiner j x }

def step (s : State P W J) : Action P W J → Option (State P W J)
  | .count p => guarded (s.producer p = .idle)
      { s.setProducer p (.counted s.tasks) with
        remainingWork := s.remainingWork + 1, tasks := s.tasks + 1 }
  | .push p =>
    match s.producer p with
    | .counted task => some { s.setProducer p .idle with
        taskQueue := s.taskQueue ++ [task], pushed := Function.update s.pushed task true }
    | .idle => none
  | .pop w =>
    match s.worker w, s.taskQueue with
    | .polling, task :: rest => some { s.setWorker w (.running task) with taskQueue := rest }
    | _, _ => none
  | .popEmpty w => guarded (s.worker w = .polling) s
  | .runTask w throws =>
    match s.worker w with
    | .running task => some { s.setWorker w (if throws then .handling task else .finishing task) with
        finished := Function.update s.finished task true }
    | _ => none
  | .handle w throws =>
    match s.worker w with
    | .handling task => some (s.setWorker w (if throws then .failing else .finishing task))
    | _ => none
  | .finish w =>
    match s.worker w with
    | .finishing _ => some { s.setWorker w .polling with
        remainingWork := if s.remainingWork = 0 then 2 ^ 64 - 1 else s.remainingWork - 1
        wrapped := s.wrapped || decide (s.remainingWork = 0) }
    | _ => none
  | .exit w => guarded (s.worker w = .failing) (s.setWorker w .exited)
  | .join j => guarded (s.joiner j = .idle ∨ s.joiner j = .returned)
      { s.setJoiner j .testing with
        notifyWaiter := true, before := Function.update s.before j s.pushed }
  | .test j => guarded (s.joiner j = .testing)
      (s.setJoiner j (if s.remainingWork = 0 then .returned else .waiting))
  | .timeout j => guarded (s.joiner j = .waiting) (s.setJoiner j .testing)
  | .acquire j => guarded (s.joiner j = .waiting ∧ 0 < s.waiterSem)
      { s.setJoiner j .returned with waiterSem := s.waiterSem - 1 }

end State

def machine : Machine (State P W J) (Action P W J) where
  step := State.step

/-- The workers have been started; nothing has been pushed. -/
def init (P W J : Type*) : State P W J where
  remainingWork := 0
  taskQueue := []
  notifyWaiter := false
  waiterSem := 0
  producer := fun _ => .idle
  worker := fun _ => .polling
  joiner := fun _ => .idle
  tasks := 0
  pushed := fun _ => false
  finished := fun _ => false
  before := fun _ _ => false
  wrapped := false

/-- What a thread contributes to `remainingWork`. -/
def Producer.work : Producer → ℕ
  | idle => 0
  | counted _ => 1

/-- A worker that has left its loop never gives back what it has taken. -/
def Worker.work : Worker → ℕ
  | polling => 0
  | running _ | handling _ | finishing _ | failing | exited => 1

namespace State
variable [Fintype P] [Fintype W]

/-- The tasks that have been counted and not given back. -/
def openWork (s : State P W J) : ℕ :=
  s.taskQueue.length + tally Producer.work s.producer + tally Worker.work s.worker

/-- `remainingWork` is the open work, and what was pushed is finished or still to be found. -/
structure Accounted (s : State P W J) : Prop where
  count : s.remainingWork = s.openWork
  wrapped : s.wrapped = false
  sem : s.waiterSem = 0
  found : ∀ task, s.pushed task = true →
    s.finished task = true ∨ task ∈ s.taskQueue ∨ ∃ w, s.worker w = .running task
  joined : ∀ j, s.joiner j = .returned → ∀ task, s.before j task = true → s.finished task = true
  before : ∀ j task, s.before j task = true → s.pushed task = true

end State

section Invariant
variable [Fintype P] [Fintype W] {s t : State P W J}

omit [DecidableEq P] [DecidableEq W] [DecidableEq J] in
/-- Without remaining work every task that was pushed has finished. -/
theorem State.Accounted.finished (h : s.Accounted) (h0 : s.remainingWork = 0) {task : ℕ}
    (hp : s.pushed task = true) : s.finished task = true := by
  have hcount := h.count
  rw [h0, State.openWork] at hcount
  obtain hf | hq | ⟨w,hw⟩ := h.found task hp
  · exact hf
  · have hpos := List.length_pos_of_mem hq
    omega
  · have hpos : 0 < tally Worker.work s.worker :=
      tally_pos_iff.mpr ⟨w,by rw [hw]; exact Nat.one_pos⟩
    omega

omit [DecidableEq P] [DecidableEq J] [DecidableEq W] in
theorem accounted_init : (init P W J).Accounted where
  count := by
    have hp : tally Producer.work (init P W J).producer = 0 := tally_eq_zero.mpr fun _ => rfl
    have hw : tally Worker.work (init P W J).worker = 0 := tally_eq_zero.mpr fun _ => rfl
    rw [State.openWork, hp, hw]
    rfl
  wrapped := rfl
  sem := rfl
  found _ h := nomatch h
  joined _ h := nomatch h
  before _ _ h := nomatch h

omit [DecidableEq P] [DecidableEq J] in
theorem State.openWork_setWorker (s : State P W J) (w : W) (x : Worker) :
    (s.setWorker w x).openWork + (s.worker w).work = s.openWork + x.work := by
  have hu := tally_update Worker.work s.worker w x
  change s.taskQueue.length + tally Producer.work s.producer +
    tally Worker.work (Function.update s.worker w x) + _ = _
  rw [State.openWork]
  omega

omit [DecidableEq W] [DecidableEq J] in
theorem State.openWork_setProducer (s : State P W J) (p : P) (x : Producer) :
    (s.setProducer p x).openWork + (s.producer p).work = s.openWork + x.work := by
  have hu := tally_update Producer.work s.producer p x
  change s.taskQueue.length + tally Producer.work (Function.update s.producer p x) +
    tally Worker.work s.worker + _ = _
  rw [State.openWork]
  omega

namespace State.Accounted

omit [DecidableEq P] [DecidableEq J] in
/-- A pushed task is not lost when a worker that is not running one goes on. -/
lemma found_setWorker (h : s.Accounted) {w : W} {x : Worker}
    (hr : ∀ task, s.worker w ≠ .running task) {task : ℕ} (hp : s.pushed task = true) :
    s.finished task = true ∨ task ∈ s.taskQueue ∨
      ∃ v, (s.setWorker w x).worker v = .running task := by
  refine (h.found task hp).imp id (Or.imp id ?_)
  rintro ⟨v,hv⟩
  have hvw : v ≠ w := by
    rintro rfl
    exact hr task hv
  exact ⟨v,(Function.update_of_ne hvw ..).trans hv⟩

omit [DecidableEq P] [DecidableEq J] in
/-- A worker that is not running a task goes on, still holding what it has taken. -/
theorem setWorker (h : s.Accounted) {w : W} {x : Worker} (hx : (s.worker w).work = x.work)
    (hr : ∀ task, s.worker w ≠ .running task) : (s.setWorker w x).Accounted := by
  refine ⟨?_,h.wrapped,h.sem,fun task => h.found_setWorker hr,h.joined,h.before⟩
  have hopen := s.openWork_setWorker w x
  have hcount := h.count
  change s.remainingWork = _
  omega

omit [DecidableEq P] [DecidableEq W] in
/-- A thread in `join` goes on; it may only return when there is no work left. -/
theorem setJoiner (h : s.Accounted) {j : J} {x : Joiner}
    (hx : x = .returned → s.remainingWork = 0) : (s.setJoiner j x).Accounted := by
  refine ⟨h.count,h.wrapped,h.sem,h.found,fun k hk task hb => ?_,h.before⟩
  by_cases hkj : k = j
  · subst hkj
    have hret : x = .returned := (Function.update_self ..).symm.trans hk
    exact h.finished (hx hret) (h.before k task hb)
  · exact h.joined k ((Function.update_of_ne hkj ..).symm.trans hk) task hb

end State.Accounted

theorem count_accounted (h : s.Accounted) {p : P} (hs : s.step (.count p) = some t) :
    t.Accounted := by
  obtain ⟨hp,rfl⟩ := guarded_eq_some.mp hs
  have hopen := s.openWork_setProducer p (.counted s.tasks)
  rw [hp] at hopen
  refine ⟨?_,h.wrapped,h.sem,h.found,h.joined,h.before⟩
  change s.remainingWork + 1 = (s.setProducer p (.counted s.tasks)).openWork
  rw [h.count]
  exact hopen.symm

theorem push_accounted (h : s.Accounted) {p : P} (hs : s.step (.push p) = some t) :
    t.Accounted := by
  rw [State.step] at hs
  split at hs <;> cases hs
  rename_i task hp
  have hopen := s.openWork_setProducer p .idle
  have hcount := h.count
  rw [hp] at hopen
  refine ⟨?_,h.wrapped,h.sem,fun task' hp' => ?_,h.joined,fun j task' hb => ?_⟩
  · change s.remainingWork = (s.taskQueue ++ [task]).length +
      tally Producer.work (Function.update s.producer p .idle) + tally Worker.work s.worker
    change s.taskQueue.length + tally Producer.work (Function.update s.producer p .idle) +
      tally Worker.work s.worker + 1 = s.openWork + 0 at hopen
    rw [List.length_append, List.length_singleton]
    omega
  · by_cases he : task' = task
    · subst he
      exact .inr (.inl (List.mem_append_right _ (List.mem_singleton_self task')))
    · have hold := h.found task' ((Function.update_of_ne he ..).symm.trans hp')
      exact hold.imp id (Or.imp (List.mem_append_left _) id)
  · by_cases he : task' = task
    · subst he
      exact Function.update_self ..
    · exact (Function.update_of_ne he ..).trans (h.before j task' hb)

theorem pop_accounted (h : s.Accounted) {w : W} (hs : s.step (.pop w) = some t) :
    t.Accounted := by
  rw [State.step] at hs
  split at hs <;> cases hs
  rename_i task rest hw hq
  have hopen := s.openWork_setWorker w (.running task)
  have hcount := h.count
  rw [hw] at hopen
  refine ⟨?_,h.wrapped,h.sem,fun task' hp => ?_,h.joined,h.before⟩
  · change s.remainingWork = rest.length + tally Producer.work s.producer +
      tally Worker.work (Function.update s.worker w (.running task))
    change s.taskQueue.length + tally Producer.work s.producer +
      tally Worker.work (Function.update s.worker w (.running task)) + 0 = s.openWork + 1 at hopen
    rw [hq, List.length_cons] at hopen
    omega
  · obtain hf | hm | ⟨v,hv⟩ := h.found task' hp
    · exact .inl hf
    · rw [hq] at hm
      obtain rfl | hm := List.mem_cons.mp hm
      · exact .inr (.inr ⟨w,Function.update_self ..⟩)
      · exact .inr (.inl hm)
    · have hvw : v ≠ w := by
        rintro rfl
        cases hv.symm.trans hw
      exact .inr (.inr ⟨v,(Function.update_of_ne hvw ..).trans hv⟩)

theorem runTask_accounted (h : s.Accounted) {w : W} {throws : Bool}
    (hs : s.step (.runTask w throws) = some t) : t.Accounted := by
  rw [State.step] at hs
  split at hs <;> cases hs
  rename_i task hw
  have hfin : ∀ task', s.finished task' = true →
      Function.update s.finished task true task' = true := by
    intro task' hf
    by_cases he : task' = task
    · subst he
      exact Function.update_self ..
    · exact (Function.update_of_ne he ..).trans hf
  refine ⟨?_,h.wrapped,h.sem,fun task' hp => ?_,fun j hj task' hb => ?_,h.before⟩
  · have hopen := s.openWork_setWorker w (if throws then .handling task else .finishing task)
    have hcount := h.count
    have hwork : (if throws then Worker.handling task else .finishing task).work = 1 := by
      cases throws <;> rfl
    rw [hw, hwork] at hopen
    change s.remainingWork =
      (s.setWorker w (if throws then .handling task else .finishing task)).openWork
    simp only [Worker.work] at hopen
    omega
  · obtain hf | hm | ⟨v,hv⟩ := h.found task' hp
    · exact .inl (hfin task' hf)
    · exact .inr (.inl hm)
    · by_cases hvw : v = w
      · -- the task that has just ended
        subst hvw
        obtain rfl : task = task' := Worker.running.inj (hw.symm.trans hv)
        exact .inl (Function.update_self ..)
      · exact .inr (.inr ⟨v,(Function.update_of_ne hvw ..).trans hv⟩)
  · exact hfin task' (h.joined j hj task' hb)

theorem finish_accounted (h : s.Accounted) {w : W} (hs : s.step (.finish w) = some t) :
    t.Accounted := by
  rw [State.step] at hs
  split at hs <;> cases hs
  rename_i task hw
  have hopen := s.openWork_setWorker w .polling
  have hcount := h.count
  rw [hw] at hopen
  simp only [Worker.work] at hopen
  -- the worker's own task is still counted
  have hpos : s.remainingWork ≠ 0 := by omega
  have hkept : (s.setWorker w .polling).openWork = s.remainingWork - 1 := by omega
  have hr : ∀ task', s.worker w ≠ .running task' := by
    intro task' hr
    cases hw.symm.trans hr
  refine ⟨?_,?_,h.sem,fun task' => h.found_setWorker hr,h.joined,h.before⟩
  · change (if s.remainingWork = 0 then 2 ^ 64 - 1 else s.remainingWork - 1) =
      (s.setWorker w .polling).openWork
    rw [if_neg hpos, hkept]
  · change (s.wrapped || decide (s.remainingWork = 0)) = false
    rw [h.wrapped, decide_eq_false hpos, Bool.or_false]

/-- Every step keeps the books. -/
theorem step_accounted {a : Action P W J} (h : s.Accounted) (hs : s.step a = some t) :
    t.Accounted := by
  cases a with
  | count p => exact count_accounted h hs
  | push p => exact push_accounted h hs
  | pop w => exact pop_accounted h hs
  | popEmpty w =>
    obtain ⟨-,rfl⟩ := guarded_eq_some.mp hs
    exact h
  | runTask w throws => exact runTask_accounted h hs
  | handle w throws =>
    rw [State.step] at hs
    split at hs <;> cases hs
    rename_i task hw
    refine h.setWorker ?_ fun task' hr => ?_
    · rw [hw]
      cases throws <;> rfl
    · cases hw.symm.trans hr
  | finish w => exact finish_accounted h hs
  | exit w =>
    obtain ⟨hw,rfl⟩ := guarded_eq_some.mp hs
    refine h.setWorker (by rw [hw]; rfl) fun task hr => ?_
    cases hw.symm.trans hr
  | join j =>
    obtain ⟨-,rfl⟩ := guarded_eq_some.mp hs
    refine ⟨h.count,h.wrapped,h.sem,h.found,fun k hk task hb => ?_,fun k task hb => ?_⟩
    · have hkj : k ≠ j := by
        rintro rfl
        cases (Function.update_self ..).symm.trans hk
      exact h.joined k ((Function.update_of_ne hkj ..).symm.trans hk) task
        ((congrFun (Function.update_of_ne hkj s.pushed s.before) task).symm.trans hb)
    · by_cases hkj : k = j
      · subst hkj
        exact (congrFun (Function.update_self k s.pushed s.before) task).symm.trans hb
      · exact h.before k task
          ((congrFun (Function.update_of_ne hkj s.pushed s.before) task).symm.trans hb)
  | test j =>
    obtain ⟨-,rfl⟩ := guarded_eq_some.mp hs
    refine h.setJoiner fun hret => ?_
    split_ifs at hret with h0
    exact h0
  | timeout j =>
    obtain ⟨-,rfl⟩ := guarded_eq_some.mp hs
    exact h.setJoiner nofun
  | acquire j =>
    -- nobody releases the semaphore
    obtain ⟨⟨-,hsem⟩,-⟩ := guarded_eq_some.mp hs
    rw [h.sem] at hsem
    exact absurd hsem (Nat.lt_irrefl 0)

theorem reaches_accounted {guard : State P W J → Action P W J → Prop}
    (h : machine.Reaches guard (init P W J) s) : s.Accounted :=
  h.invariant State.Accounted accounted_init fun _ _ _ hi _ hs => step_accounted hi hs

/-- A `join()` that has returned has waited for everything that was pushed before it began. -/
theorem join_waits (h : machine.Reaches (fun _ _ => True) (init P W J) s) :
    s.wrapped = false ∧ ∀ j, s.joiner j = .returned → ∀ task, s.before j task = true →
      s.finished task = true := by
  have hacc := reaches_accounted h
  exact ⟨hacc.wrapped,hacc.joined⟩

end Invariant

/-- Two tasks are pushed, one of them while `join()` is waiting; the first one throws. -/
theorem join_waits_example :
    ∃ s : State (Fin 2) (Fin 1) (Fin 1), machine.run (init (Fin 2) (Fin 1) (Fin 1))
      [.count 0,.push 0,.join 0,.test 0,.count 1,.pop 0,.runTask 0 true,.timeout 0,.push 1,
        .test 0,.handle 0 false,.finish 0,.pop 0,.runTask 0 false,.finish 0,.timeout 0,
        .test 0] = some s ∧ s.joiner 0 = .returned ∧ s.before 0 0 = true ∧
      s.wrapped = false ∧ s.finished 0 = true := by
  have hrun : (machine.run (init (Fin 2) (Fin 1) (Fin 1))
      [.count 0,.push 0,.join 0,.test 0,.count 1,.pop 0,.runTask 0 true,.timeout 0,.push 1,
        .test 0,.handle 0 false,.finish 0,.pop 0,.runTask 0 false,.finish 0,.timeout 0,
        .test 0]).map (fun s => (s.joiner 0,s.before 0 0)) =
      some (.returned,true) := by decide
  obtain ⟨s,hs,hv⟩ := Option.map_eq_some_iff.mp hrun
  obtain ⟨hj,hb⟩ := Prod.mk.inj hv
  obtain ⟨hwrap,hjoin⟩ := join_waits (Machine.reaches_of_run hs)
  exact ⟨s,hs,hj,hb,hwrap,hjoin 0 hj 0 hb⟩

section Settled

/-- Nothing is queued, no `pushTask` is in progress and no worker is executing a task. -/
structure State.Quiet (s : State P W J) : Prop where
  queue : s.taskQueue = []
  producer : ∀ p, s.producer p = .idle
  worker : ∀ w task, s.worker w ≠ .running task ∧ s.worker w ≠ .handling task ∧
    s.worker w ≠ .finishing task

/-- All work is accounted as finished: `join()` returns and every worker polls for tasks. -/
structure State.Settled (s : State P W J) : Prop where
  remainingWork : s.remainingWork = 0
  worker : ∀ w, s.worker w = .polling
  join : ∀ j t, machine.step s (.test j) = some t → t.joiner j = .returned

/-- The worker has left its loop, after an exception from the handler. -/
def Worker.left : Worker → Bool
  | failing | exited => true
  | polling | running _ | handling _ | finishing _ => false

/-- The handler does not throw. -/
def HandlerGuard (_ : State P W J) : Action P W J → Prop
  | .handle _ throws => throws = false
  | _ => True

instance (s : State P W J) (a : Action P W J) : Decidable (HandlerGuard s a) := by
  cases a <;> unfold HandlerGuard <;> infer_instance

variable {s t : State P W J}

/-- Only an exception from the handler takes a worker out of its loop, and for good. -/
theorem step_left {a : Action P W J} (hs : s.step a = some t) (w : W) :
    (t.worker w).left = true ↔ (s.worker w).left = true ∨ a = .handle w true := by
  have hset : ∀ {v x}, (s.worker v).left = false → x.left = false → a ≠ .handle w true →
      ((Function.update s.worker v x w).left = true ↔
        (s.worker w).left = true ∨ a = .handle w true) := by
    intro v x hv hx ha
    rw [or_iff_left ha]
    by_cases hwv : w = v
    · subst hwv
      rw [Function.update_self, hv, hx]
    · rw [Function.update_of_ne hwv]
  cases a with
  | count p | join j | test j | timeout j | acquire j | popEmpty v =>
    obtain ⟨-,rfl⟩ := guarded_eq_some.mp hs
    exact (or_iff_left nofun).symm
  | push p =>
    rw [State.step] at hs
    split at hs <;> cases hs
    exact (or_iff_left nofun).symm
  | pop v =>
    rw [State.step] at hs
    split at hs <;> cases hs
    rename_i hv _
    exact hset (by rw [hv]; rfl) rfl nofun
  | runTask v throws =>
    rw [State.step] at hs
    split at hs <;> cases hs
    rename_i hv
    exact hset (by rw [hv]; rfl) (by cases throws <;> rfl) nofun
  | handle v throws =>
    rw [State.step] at hs
    split at hs <;> cases hs
    rename_i task hv
    cases throws with
    | false => exact hset (by rw [hv]; rfl) rfl nofun
    | true =>
      by_cases hwv : w = v
      · subst hwv
        have hfail : (Function.update s.worker w Worker.failing w).left = true := by
          rw [Function.update_self]
          rfl
        exact iff_of_true hfail (.inr rfl)
      · have ha : (.handle v true : Action P W J) ≠ .handle w true := by
          rintro ⟨⟩
          exact hwv rfl
        rw [or_iff_left ha]
        exact iff_of_eq (congrArg (Worker.left · = true) (Function.update_of_ne hwv ..))
  | finish v =>
    rw [State.step] at hs
    split at hs <;> cases hs
    rename_i hv
    exact hset (by rw [hv]; rfl) rfl nofun
  | exit v =>
    obtain ⟨hv,rfl⟩ := guarded_eq_some.mp hs
    rw [or_iff_left nofun]
    by_cases hwv : w = v
    · subst hwv
      have hexit : (Function.update s.worker w Worker.exited w).left = true := by
        rw [Function.update_self]
        rfl
      exact iff_of_true hexit (by rw [hv]; rfl)
    · exact iff_of_eq (congrArg (Worker.left · = true) (Function.update_of_ne hwv ..))

theorem guarded_left (h : machine.Reaches HandlerGuard (init P W J) s) (w : W) :
    (s.worker w).left = false := by
  apply h.invariant (fun s => (s.worker w).left = false) rfl
  intro u a v hu hg hs
  rw [← Bool.not_eq_true, step_left hs w, hu]
  rintro (ha | rfl)
  · cases ha
  · cases hg

variable [Fintype P] [Fintype W]

/-- In a run whose handler never throws, the pool is settled whenever it is quiet. -/
theorem guarded_run_settled (h : machine.Reaches HandlerGuard (init P W J) s) (hq : s.Quiet) :
    s.Settled := by
  have hworker : ∀ w, s.worker w = .polling := by
    intro w
    have hl := guarded_left h w
    obtain ⟨hrun,hhandle,hfinish⟩ : (∀ task, s.worker w ≠ .running task) ∧
        (∀ task, s.worker w ≠ .handling task) ∧ ∀ task, s.worker w ≠ .finishing task :=
      ⟨fun task => (hq.worker w task).1,fun task => (hq.worker w task).2.1,
        fun task => (hq.worker w task).2.2⟩
    cases hw : s.worker w with
    | polling => rfl
    | running task => exact absurd hw (hrun task)
    | handling task => exact absurd hw (hhandle task)
    | finishing task => exact absurd hw (hfinish task)
    | failing | exited =>
      rw [hw] at hl
      cases hl
  have hrem : s.remainingWork = 0 := by
    have hp : tally Producer.work s.producer = 0 :=
      tally_eq_zero.mpr fun p => by rw [hq.producer p]; rfl
    have hw : tally Worker.work s.worker = 0 :=
      tally_eq_zero.mpr fun w => by rw [hworker w]; rfl
    rw [(reaches_accounted h).count, State.openWork, hp, hw, hq.queue]
    rfl
  refine ⟨hrem,hworker,fun j t hs => ?_⟩
  obtain ⟨-,rfl⟩ := guarded_eq_some.mp hs
  exact (Function.update_self ..).trans (if_pos hrem)

/-- After an exception from the handler the pool is never settled again: its `join()` calls do
not return and the worker takes no more tasks. -/
theorem throwing_handler_unsettled {u : State P W J} {w : W}
    (h : machine.Reaches (fun _ _ => True) (init P W J) s)
    (hs : machine.step s (.handle w true) = some t)
    (hu : machine.Reaches (fun _ _ => True) t u) :
    0 < u.remainingWork ∧ (u.worker w).left = true := by
  have hfirst : (t.worker w).left = true := (step_left (a := .handle w true) hs w).mpr (.inr rfl)
  have hleft : (u.worker w).left = true :=
    hu.invariant (fun u => (u.worker w).left = true) hfirst
      fun s t _ hl _ hv => (step_left (s := s) hv w).mpr (.inl hl)
  refine ⟨?_,hleft⟩
  have hpos : 0 < tally Worker.work u.worker := by
    refine tally_pos_iff.mpr ⟨w,?_⟩
    cases hw : u.worker w with
    | polling =>
      rw [hw] at hleft
      cases hleft
    | _ => exact Nat.one_pos
  rw [(reaches_accounted ((h.step trivial hs).trans hu)).count, State.openWork]
  omega

end Settled

/-- Two tasks throw and the handler returns from both. -/
theorem guarded_run_settled_example :
    ∃ s : State (Fin 1) (Fin 2) (Fin 1), machine.runGuarded HandlerGuard
      (init (Fin 1) (Fin 2) (Fin 1)) [.count 0,.push 0,.count 0,.push 0,.pop 0,.pop 1,
        .runTask 1 true,.runTask 0 true,.handle 0 false,.finish 0,.handle 1 false,.finish 1] =
      some s ∧ s.finished 1 = true ∧ s.Settled := by
  have hrun : (machine.runGuarded HandlerGuard (init (Fin 1) (Fin 2) (Fin 1))
      [.count 0,.push 0,.count 0,.push 0,.pop 0,.pop 1,.runTask 1 true,.runTask 0 true,
        .handle 0 false,.finish 0,.handle 1 false,.finish 1]).map
      (fun s => (s.finished 1,s.taskQueue,s.producer 0,s.worker 0,s.worker 1)) =
      some (true,[],.idle,.polling,.polling) := by decide
  obtain ⟨s,hs,hv⟩ := Option.map_eq_some_iff.mp hrun
  obtain ⟨hf,hv⟩ := Prod.mk.inj hv
  obtain ⟨hq,hv⟩ := Prod.mk.inj hv
  obtain ⟨hp,hv⟩ := Prod.mk.inj hv
  obtain ⟨h0,h1⟩ := Prod.mk.inj hv
  have hpoll : ∀ w, s.worker w = .polling := Fin.forall_fin_two.mpr ⟨h0,h1⟩
  have hquiet : s.Quiet := by
    refine ⟨hq,fun p => ?_,fun w task => ?_⟩
    · rw [Subsingleton.elim p 0, hp]
    · rw [hpoll w]
      exact ⟨nofun,nofun,nofun⟩
  exact ⟨s,hs,hf,guarded_run_settled (Machine.reaches_of_runGuarded hs) hquiet⟩

/-- A task throws and so does the handler. -/
theorem handler_leaves_work :
    ¬ ∀ s : State (Fin 1) (Fin 1) (Fin 1),
      machine.Reaches (fun _ _ => True) (init (Fin 1) (Fin 1) (Fin 1)) s → s.Quiet → s.Settled := by
  intro h
  have hrun : (machine.run (init (Fin 1) (Fin 1) (Fin 1))
      [.count 0,.push 0,.pop 0,.runTask 0 true,.handle 0 true,.exit 0]).map
      (fun s => (s.taskQueue,s.producer 0,s.worker 0)) = some ([],.idle,.exited) := by decide
  obtain ⟨s,hs,hv⟩ := Option.map_eq_some_iff.mp hrun
  obtain ⟨hq,hv⟩ := Prod.mk.inj hv
  obtain ⟨hp,hw⟩ := Prod.mk.inj hv
  have hquiet : s.Quiet := by
    refine ⟨hq,fun p => ?_,fun w task => ?_⟩
    · rw [Subsingleton.elim p 0, hp]
    · rw [Subsingleton.elim w 0, hw]
      exact ⟨nofun,nofun,nofun⟩
  have hpoll := (h s (Machine.reaches_of_run hs) hquiet).worker 0
  cases hw.symm.trans hpoll

end Asp.ThreadPool
