import Asp.Foundation.Simulation
import Asp.Thread.ThreadPool

/-! What becomes of the tasks of a pool: they are taken in the order in which they were pushed,
and each of them is run once, by the worker that took it. -/
namespace Asp.ThreadPool
open Foundation
variable {P W J : Type*}

/-- The task that a step puts into the queue. -/
def pushes (s : State P W J) (a : Action P W J) (_ : State P W J) : List ℕ :=
  match a with
  | .push p =>
    match s.producer p with
    | .counted task => [task]
    | .idle => []
  | _ => []

/-- The task that a step takes out of the queue, with the worker that takes it. -/
def pops (s : State P W J) (a : Action P W J) (_ : State P W J) : List (ℕ × W) :=
  match a with
  | .pop w => (s.taskQueue.take 1).map (·,w)
  | _ => []

/-- The task that a step runs, to its end or until it throws, with the worker that runs it. -/
def runs (s : State P W J) (a : Action P W J) (_ : State P W J) : List (ℕ × W) :=
  match a with
  | .runTask w _ =>
    match s.worker w with
    | .running task => [(task,w)]
    | _ => []
  | _ => []

/-- Whether a worker is running the task. -/
def Worker.runs (task : ℕ) : Worker → ℕ
  | running task' => if task' = task then 1 else 0
  | _ => 0

/-- Whether a thread is about to push the task. -/
def Producer.holds (task : ℕ) : Producer → ℕ
  | counted task' => if task' = task then 1 else 0
  | idle => 0

variable [DecidableEq P] [DecidableEq W] [DecidableEq J]

/-- The queue is first in, first out. -/
theorem step_pushes {s t : State P W J} {a : Action P W J} (hs : machine.step s a = some t) :
    s.taskQueue ++ pushes s a t = (pops s a t).map Prod.fst ++ t.taskQueue := by
  cases a with
  | count p | join j | test j | timeout j | acquire j | popEmpty w | exit w =>
    obtain ⟨-,rfl⟩ := guarded_eq_some.mp hs
    exact List.append_nil _
  | push p =>
    simp only [machine, State.step] at hs
    split at hs <;> cases hs
    rename_i task hp
    simp only [pushes, hp, pops]
    rfl
  | pop w =>
    simp only [machine, State.step] at hs
    split at hs <;> cases hs
    rename_i task rest hw hq
    simp only [pushes, pops, hq]
    exact List.append_nil _
  | runTask w throws | handle w throws | finish w =>
    simp only [machine, State.step] at hs
    split at hs <;> cases hs
    exact List.append_nil _

/-- A task that a worker takes is being run by that worker until it has run it. -/
theorem step_runs {s t : State P W J} {a : Action P W J} (hs : machine.step s a = some t)
    (task : ℕ) (w : W) : (s.worker w).runs task + (pops s a t).count (task,w) =
      (runs s a t).count (task,w) + (t.worker w).runs task := by
  have hidle : ∀ {v : W} {x : Worker}, (s.worker v).runs task = 0 → x.runs task = 0 →
      (s.worker w).runs task = ((s.setWorker v x).worker w).runs task := by
    intro v x hv hx
    by_cases hwv : w = v
    · subst hwv
      rw [hv]
      exact ((congrArg (Worker.runs task) (Function.update_self ..)).trans hx).symm
    · exact congrArg (Worker.runs task) (Function.update_of_ne hwv ..).symm
  cases a with
  | count p | join j | test j | timeout j | acquire j | popEmpty v =>
    obtain ⟨-,rfl⟩ := guarded_eq_some.mp hs
    exact Nat.add_comm _ _
  | push p =>
    simp only [machine, State.step] at hs
    split at hs <;> cases hs
    exact Nat.add_comm _ _
  | pop v =>
    simp only [machine, State.step] at hs
    split at hs <;> cases hs
    rename_i task' rest hv hq
    simp only [pops, runs, hq, List.take_succ_cons, List.take_zero, List.map_cons, List.map_nil,
      List.count_singleton, List.count_nil, Nat.zero_add, beq_iff_eq, Prod.mk.injEq]
    by_cases hwv : w = v
    · subst hwv
      rw [hv]
      simp [State.setWorker, Worker.runs]
    · have hother : (s.setWorker v (.running task')).worker w = s.worker w :=
        Function.update_of_ne hwv ..
      rw [if_neg fun h => hwv h.2.symm, Nat.add_zero]
      exact congrArg (Worker.runs task) hother.symm
  | runTask v throws =>
    simp only [machine, State.step] at hs
    split at hs <;> cases hs
    rename_i task' hv
    simp only [pops, runs, hv, List.count_singleton, List.count_nil, Nat.add_zero, beq_iff_eq,
      Prod.mk.injEq]
    by_cases hwv : w = v
    · subst hwv
      rw [hv]
      cases throws <;> simp [State.setWorker, Worker.runs]
    · have hother : (s.setWorker v (if throws then .handling task' else .finishing task')).worker w =
          s.worker w := Function.update_of_ne hwv ..
      rw [if_neg fun h => hwv h.2.symm, Nat.zero_add]
      exact congrArg (Worker.runs task) hother.symm
  | handle v throws =>
    simp only [machine, State.step] at hs
    split at hs <;> cases hs
    rename_i task' hv
    refine (hidle ?_ ?_).trans (Nat.zero_add _).symm
    · rw [hv]
      rfl
    · cases throws <;> rfl
  | finish v =>
    simp only [machine, State.step] at hs
    split at hs <;> cases hs
    rename_i task' hv
    exact (hidle (hv ▸ rfl) rfl).trans (Nat.zero_add _).symm
  | exit v =>
    obtain ⟨hv,rfl⟩ := guarded_eq_some.mp hs
    exact (hidle (hv ▸ rfl) rfl).trans (Nat.zero_add _).symm

variable [Fintype P]

/-- Whether the task is still to be pushed: a thread holds it, or its number is not yet given. -/
def State.unpushed (task : ℕ) (s : State P W J) : ℕ :=
  tally (Producer.holds task) s.producer + if s.tasks ≤ task then 1 else 0

theorem step_unpushed {s t : State P W J} {a : Action P W J} (hs : machine.step s a = some t)
    (task : ℕ) : s.unpushed task = (pushes s a t).count task + t.unpushed task := by
  have hsame : ∀ t : State P W J, t.producer = s.producer → t.tasks = s.tasks →
      s.unpushed task = t.unpushed task := by
    intro t hp ht
    rw [State.unpushed, State.unpushed, hp, ht]
  cases a with
  | count p =>
    -- the next number is given to the thread
    obtain ⟨hp,rfl⟩ := guarded_eq_some.mp hs
    have hset := tally_update (Producer.holds task) s.producer p (.counted s.tasks)
    rw [hp] at hset
    change tally (Producer.holds task) s.producer + (if s.tasks ≤ task then 1 else 0) =
      0 + (tally (Producer.holds task) (Function.update s.producer p (.counted s.tasks)) +
        if s.tasks + 1 ≤ task then 1 else 0)
    simp only [Producer.holds] at hset
    split_ifs at hset ⊢ <;> omega
  | push p =>
    simp only [machine, State.step] at hs
    split at hs <;> cases hs
    rename_i task' hp
    have hset := tally_update (Producer.holds task) s.producer p .idle
    rw [hp] at hset
    change tally (Producer.holds task) s.producer + (if s.tasks ≤ task then 1 else 0) =
      _ + (tally (Producer.holds task) (Function.update s.producer p .idle) +
        if s.tasks ≤ task then 1 else 0)
    simp only [pushes, hp, List.count_singleton, beq_iff_eq]
    simp only [Producer.holds] at hset
    omega
  | join j | test j | timeout j | acquire j | popEmpty w | exit w =>
    obtain ⟨-,rfl⟩ := guarded_eq_some.mp hs
    exact (hsame _ rfl rfl).trans (Nat.zero_add _).symm
  | pop w | runTask w throws | handle w throws | finish w =>
    simp only [machine, State.step] at hs
    split at hs <;> cases hs
    exact (hsame _ rfl rfl).trans (Nat.zero_add _).symm

/-- What has become of the tasks: they are taken in the order in which they were pushed, each by one
worker, and each that was taken has been run once by that worker or is being run by it. -/
structure Served (s : State P W J) (pushed : List ℕ) (popped ran : List (ℕ × W)) : Prop where
  order : pushed = popped.map Prod.fst ++ s.taskQueue
  pushed_once : pushed.Nodup
  run_once : (ran.map Prod.fst).Nodup
  ran_popped : ∀ task w, (task,w) ∈ ran → (task,w) ∈ popped
  popped_run : ∀ task w, (task,w) ∈ popped → (task,w) ∈ ran ∨ s.worker w = .running task
  running : ∀ w task, s.worker w = .running task →
    (task,w) ∈ popped ∧ (∀ v, (task,v) ∉ ran) ∧ ∀ v, s.worker v = .running task → v = w

theorem Worker.runs_pos_iff {task : ℕ} {x : Worker} : 0 < x.runs task ↔ x = .running task := by
  cases x with
  | running task' =>
    rw [runs, Worker.running.injEq]
    split_ifs with h <;> simp [h]
  | _ => exact iff_of_false (Nat.lt_irrefl 0) nofun

/-- No task is pushed twice. -/
theorem pushes_nodup {as : List (Action P W J)} {s : State P W J}
    (h : machine.run (init P W J) as = some s) :
    (machine.history pushes (init P W J) as).Nodup := by
  refine List.nodup_iff_count_le_one.mpr fun task => ?_
  have hcount := Machine.history_count (fun _ _ _ => []) pushes (State.unpushed task)
    task (fun s a t hs => step_unpushed hs task) h
  rw [Machine.history_action (fun _ => []) h] at hcount
  have hfirst : (init P W J).unpushed task = 1 := by
    have hnone : tally (Producer.holds task) (init P W J).producer = 0 :=
      tally_eq_zero.mpr fun _ => rfl
    have hall : (init P W J).tasks ≤ task := Nat.zero_le task
    rw [State.unpushed, hnone, if_pos hall]
  have hnil : (as.flatMap fun _ => ([] : List ℕ)) = [] := List.flatMap_eq_nil_iff.mpr fun _ _ => rfl
  rw [hnil, hfirst, List.count_nil] at hcount
  omega

omit [Fintype P] in
/-- What a worker has taken it has run, or is running. -/
theorem pops_count {as : List (Action P W J)} {s : State P W J}
    (h : machine.run (init P W J) as = some s) (task : ℕ) (w : W) :
    (machine.history pops (init P W J) as).count (task,w) =
      (machine.history runs (init P W J) as).count (task,w) + (s.worker w).runs task := by
  have hcount := Machine.history_count pops runs (fun s : State P W J => (s.worker w).runs task)
    (task,w) (fun s a t hs => step_runs hs task w) h
  exact (Nat.zero_add _).symm.trans hcount

/-- No task of any run is lost, run twice, run by another worker or overtaken. -/
theorem run_served (as : List (Action P W J)) (s : State P W J)
    (h : machine.run (init P W J) as = some s) :
    Served s (machine.history pushes (init P W J) as) (machine.history pops (init P W J) as)
      (machine.history runs (init P W J) as) := by
  have hpush := pushes_nodup h
  have hrun := pops_count h
  generalize hpushed : machine.history pushes (init P W J) as = pushed at hpush ⊢
  generalize hpopped : machine.history pops (init P W J) as = popped at hrun ⊢
  generalize hran : machine.history runs (init P W J) as = ran at hrun ⊢
  have horder : pushed = popped.map Prod.fst ++ s.taskQueue := by
    rw [← hpushed, ← hpopped, Machine.map_history]
    exact Machine.history_queue pushes _ State.taskQueue (fun _ _ _ => step_pushes) h
  -- a task is taken once
  have hpop : (popped.map Prod.fst).Nodup := by
    rw [horder] at hpush
    exact hpush.of_append_left
  have hsame : ∀ task v w, (task,v) ∈ popped → (task,w) ∈ popped → v = w := by
    intro task v w hv hw
    exact (Prod.mk.inj (List.inj_on_of_nodup_map hpop hv hw rfl)).2
  have honce : ∀ x, popped.count x ≤ 1 := List.nodup_iff_count_le_one.mp (hpop.of_map _)
  have hmem : ∀ task w, (task,w) ∈ ran → (task,w) ∈ popped := by
    intro task w hr
    have hpos := List.count_pos_iff.mpr hr
    have hsum := hrun task w
    exact List.count_pos_iff.mp (by omega)
  have htaken : ∀ w task, s.worker w = .running task → (task,w) ∈ popped := by
    intro w task hw
    have hpos := Worker.runs_pos_iff.mpr hw
    have hsum := hrun task w
    exact List.count_pos_iff.mp (by omega)
  refine ⟨horder,hpush,?_,hmem,?_,?_⟩
  · have hnodup : ran.Nodup := by
      refine List.nodup_iff_count_le_one.mpr fun x => ?_
      exact le_trans (hrun x.1 x.2 ▸ Nat.le_add_right _ _) (honce x)
    refine hnodup.map_on ?_
    rintro ⟨task,v⟩ hv ⟨_,w⟩ hw rfl
    rw [hsame task v w (hmem task v hv) (hmem task w hw)]
  · intro task w hp
    by_cases hr : (task,w) ∈ ran
    · exact .inl hr
    · have hpos := List.count_pos_iff.mpr hp
      rw [hrun task w, List.count_eq_zero.mpr hr, Nat.zero_add] at hpos
      exact .inr (Worker.runs_pos_iff.mp hpos)
  · intro w task hw
    refine ⟨htaken w task hw,?_,fun v hv => hsame task v w (htaken v task hv) (htaken w task hw)⟩
    intro v hr
    obtain rfl := hsame task v w (hmem task v hr) (htaken w task hw)
    have hpos := Worker.runs_pos_iff.mpr hw
    have hran' := List.count_pos_iff.mpr hr
    have hsum := hrun task v
    have hle := honce (task,v)
    omega

/-- Two tasks, of which the first one throws. -/
def twoTasks : List (Action Unit Bool Unit) :=
  [.count (),.push (),.count (),.push (),.join (),.pop true,.pop false,.runTask true true,.test ()]

theorem run_served_twoTasks :
    ∃ s, machine.run (init Unit Bool Unit) twoTasks = some s ∧
      Served s [0,1] [(0,true),(1,false)] [(0,true)] := by
  have hrun : (machine.run (init Unit Bool Unit) twoTasks).isSome := by decide
  obtain ⟨s,hs⟩ := Option.isSome_iff_exists.mp hrun
  have hpushed : machine.history pushes (init Unit Bool Unit) twoTasks = [0,1] := by decide
  have hpopped : machine.history pops (init Unit Bool Unit) twoTasks = [(0,true),(1,false)] := by
    decide
  have hran : machine.history runs (init Unit Bool Unit) twoTasks = [(0,true)] := by decide
  have hserved := run_served twoTasks s hs
  rw [hpushed, hpopped, hran] at hserved
  exact ⟨s,hs,hserved⟩

end Asp.ThreadPool
