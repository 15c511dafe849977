import Asp.Foundation.Simulation
import Asp.Sync.Channel

/-! A channel that many threads use does what one queue does that a single thread uses: the calls
can be put in the order of their last critical sections. Each of these lies between the beginning
of its call and its return, which comes after the mutex was released: two calls can return in the
other order. -/
namespace Asp.Channel
open Foundation
variable {T A : Type*}

/-- A call that is through its last critical section, with the result that it will return. -/
structure Completed (T A : Type*) where
  thread : T
  call : Call A
  result : Result A

/-- The call that a thread is in. -/
def Phase.pending : Phase A → Option (Call A)
  | outside _ => none
  | calling c => some c
  | blocked kind | woken kind => some (.wait kind)

/-- The thread that makes a step. -/
def Action.thread : Action T A → T
  | .call t _ | .push t _ | .enter t | .wake t | .relock t _ => t

/-- The call whose last critical section a step is, with what its thread gets from it. -/
def completed (s : State T A) (a : Action T A) (s' : State T A) : List (Completed T A) :=
  match (s.phase a.thread).pending, s'.phase a.thread with
  | some c, .outside (some r) => [⟨a.thread,c,r⟩]
  | _, _ => []

/-- The queue after a call that nobody disturbs, and its result; a timeout is over by then. -/
def Call.alone (queue : List A) : Call A → List A × Result A
  | .push msg => (queue ++ [msg],.done)
  | .tryPop | .wait .popTimeout =>
    match queue with
    | [] => ([],.popped none)
    | val :: rest => (rest,.popped (some val))
  | .popNow =>
    match queue with
    | [] => ([],.error "attempting to pop a message from an empty channel")
    | val :: rest => (rest,.popped (some val))
  | .wait .waitForMessages => (queue,.done)

/-- The messages that a call put into the queue, and those that it took out. -/
def Completed.sent (c : Completed T A) : List A :=
  match c.call with
  | .push msg => [msg]
  | _ => []

def Completed.received (c : Completed T A) : List A :=
  match c.result with
  | .popped (some val) => [val]
  | _ => []

variable [DecidableEq A]

/-- Calls one after the other, with the results that they have to have. -/
def sequential : Machine (List A) (Completed T A) where
  step queue c := guarded ((c.call.alone queue).2 = c.result) (c.call.alone queue).1

/-- No call loses, invents or reorders a message. -/
theorem sequential_queue {queue queue' : List A} {c : Completed T A}
    (h : sequential.step queue c = some queue') : queue ++ c.sent = c.received ++ queue' := by
  obtain ⟨t,call,result⟩ := c
  obtain ⟨hresult,rfl⟩ := guarded_eq_some.mp h
  obtain rfl : (call.alone queue).2 = result := hresult
  cases call with
  | push msg => rfl
  | tryPop => cases queue <;> exact List.append_nil _
  | popNow => cases queue <;> exact List.append_nil _
  | wait kind =>
    cases kind with
    | popTimeout => cases queue <;> exact List.append_nil _
    | waitForMessages => exact List.append_nil _

variable [DecidableEq T]

section Steps
variable {s s' : State T A} {a : Action T A} {c : Call A}

omit [DecidableEq T] in
/-- The last critical section of a call is this call made alone. -/
theorem run_returns {r : Result A} (hc : (s.phase a.thread).pending = some c)
    (hr : s'.phase a.thread = .outside (some r)) (halone : c.alone s.queue = (s'.queue,r)) :
    sequential.run s.queue (completed s a s') = some s'.queue := by
  simp [completed, hc, hr, Machine.run_cons, sequential, guarded, halone]

omit [DecidableEq T] in
/-- Any other step leaves the messages where they are. -/
theorem run_stays (hr : ∀ r, s'.phase a.thread ≠ .outside (some r)) (hq : s'.queue = s.queue) :
    sequential.run s.queue (completed s a s') = some s'.queue := by
  rw [completed]
  split
  · rename_i hp
    exact absurd hp (hr _)
  · rw [hq]
    rfl

end Steps

omit [DecidableEq A] in
theorem phase_leave (s : State T A) (t : T) (r : Result A) :
    (s.leave t r).phase t = .outside (some r) := Function.update_self ..

omit [DecidableEq A] in
theorem phase_doPop (s : State T A) (t : T) (val : A) (rest : List A) :
    (s.doPop t val rest).phase t = .outside (some (.popped (some val))) := Function.update_self ..

/-- The first critical section of a call that is not `push`. -/
theorem enter_sequential {s s' : State T A} {t : T} {c : Call A} (ht : s.phase t = .calling c)
    (hs : s.enter t c = some s') :
    sequential.run s.queue (completed s (.enter t) s') = some s'.queue := by
  have hpending : (s.phase t).pending = some c := by rw [ht]; rfl
  cases c with
  | push msg => cases hs
  | tryPop | popNow =>
    rw [State.enter] at hs
    split at hs <;> cases hs <;> rename_i hq
    · exact run_returns hpending (phase_leave s t _) (by rw [hq]; exact congrArg (·,_) hq.symm)
    · exact run_returns hpending (phase_doPop s t _ _) (by rw [hq]; rfl)
  | wait kind =>
    rw [State.enter] at hs
    split at hs <;> cases hs <;> rename_i hq
    · refine run_stays (fun r hr => ?_) rfl
      have hself : (s.setPhase t (.blocked kind)).phase t = .blocked kind := Function.update_self ..
      cases hself.symm.trans hr
    · cases kind with
      | popTimeout => exact run_returns hpending (phase_doPop s t _ _) (by rw [hq]; rfl)
      | waitForMessages => exact run_returns hpending (phase_leave s t _) rfl

/-- A thread that was woken looks at the queue again. -/
theorem relock_sequential {s : State T A} {t : T} {kind : Wait} (expired : Bool)
    (ht : s.phase t = .woken kind) :
    sequential.run s.queue (completed s (.relock t expired) (s.relock t expired kind)) =
      some (s.relock t expired kind).queue := by
  have hpending : (s.phase t).pending = some (.wait kind) := by rw [ht]; rfl
  rw [State.relock]
  split <;> rename_i hq
  · split_ifs
    · cases kind with
      | popTimeout => exact run_returns hpending (phase_leave s t _) (by rw [hq]; exact congrArg (·,_) hq.symm)
      | waitForMessages => exact run_returns hpending (phase_leave s t _) rfl
    · refine run_stays (fun r hr => ?_) rfl
      have hself : (s.setPhase t (.blocked kind)).phase t = .blocked kind := Function.update_self ..
      cases hself.symm.trans hr
  · cases kind with
    | popTimeout => exact run_returns hpending (phase_doPop s t _ _) (by rw [hq]; rfl)
    | waitForMessages => exact run_returns hpending (phase_leave s t _) rfl

variable [Fintype T]

theorem push_sequential {s s' : State T A} {t : T} {msg : A} {notified : Option T}
    (ht : s.phase t = .calling (.push msg)) (hs : s.pushNotify t msg notified = some s') :
    sequential.run s.queue (completed s (.push t notified) s') = some s'.queue := by
  have hpending : (s.phase t).pending = some (.push msg) := by rw [ht]; rfl
  have hself : (s.push t msg).phase t = .outside (some .done) := Function.update_self ..
  cases notified with
  | none =>
    obtain ⟨-,rfl⟩ := guarded_eq_some.mp hs
    exact run_returns hpending hself rfl
  | some u =>
    rw [State.pushNotify] at hs
    split at hs <;> cases hs
    rename_i kind hu
    have hut : t ≠ u := by
      rintro rfl
      cases hu.symm.trans ht
    exact run_returns hpending ((Function.update_of_ne hut ..).trans hself) rfl

/-- Every step is one call made alone, or none. -/
theorem simulates_sequential :
    sequential.Simulates (machine : Machine (State T A) _) (fun s queue => queue = s.queue)
      completed where
  step := by
    rintro s s' a queue rfl hs
    refine ⟨s'.queue,?_,rfl⟩
    cases a with
    | call t c =>
      simp only [machine, State.step] at hs
      split at hs <;> cases hs
      rename_i last ht
      rw [completed, Action.thread, ht]
      rfl
    | push t notified =>
      simp only [machine, State.step] at hs
      split at hs
      · rename_i msg ht
        exact push_sequential ht hs
      · cases hs
    | enter t =>
      simp only [machine, State.step] at hs
      split at hs
      · rename_i c ht
        exact enter_sequential ht hs
      · cases hs
    | wake t =>
      simp only [machine, State.step] at hs
      split at hs <;> cases hs
      rename_i kind ht
      refine run_stays (fun r hr => ?_) rfl
      have hself : (s.setPhase t (.woken kind)).phase t = .woken kind := Function.update_self ..
      cases hself.symm.trans hr
    | relock t expired =>
      simp only [machine, State.step] at hs
      split at hs <;> cases hs
      rename_i kind ht
      exact relock_sequential expired ht

/-- The calls of any run, in the order of their last critical sections, have the results that they
would have one after the other, and leave the same messages. -/
theorem run_linearized (as : List (Action T A)) (s : State T A)
    (h : machine.run (init T A) as = some s) :
    sequential.run [] (machine.history completed (init T A) as) = some s.queue := by
  obtain ⟨queue,hqueue,rfl⟩ := simulates_sequential.run (x := []) rfl h
  exact hqueue

/-- A thread waits for the first of two messages. -/
def exchange : List (Action Bool ℕ) :=
  [.call true (.wait .popTimeout),.enter true,.call false (.push 5),.push false (some true),
    .call false (.push 6),.push false none,.relock true true]

theorem run_linearized_exchange :
    ∃ s, machine.run (init Bool ℕ) exchange = some s ∧ s.queue = [6] ∧
      sequential.run [] (machine.history completed (init Bool ℕ) exchange) = some s.queue := by
  have hrun : (machine.run (init Bool ℕ) exchange).map State.queue = some [6] := by decide
  obtain ⟨s,hs,hq⟩ := Option.map_eq_some_iff.mp hrun
  exact ⟨s,hs,hq,run_linearized exchange s hs⟩

/-- The messages that were received and those that are left are the messages that were sent, each
of them once and in order. -/
theorem run_fifo (as : List (Action T A)) (s : State T A)
    (h : machine.run (init T A) as = some s) :
    (machine.history completed (init T A) as).flatMap Completed.sent =
      (machine.history completed (init T A) as).flatMap Completed.received ++ s.queue := by
  obtain ⟨queue,hqueue,rfl⟩ := simulates_sequential.run (x := []) rfl h
  have haccount := Machine.history_queue (M := sequential) (fun _ c _ => c.sent)
    (fun _ c _ => c.received) id (fun _ _ _ hs => sequential_queue hs) hqueue
  rwa [Machine.history_action _ hqueue, Machine.history_action _ hqueue] at haccount

theorem run_fifo_exchange :
    ∃ s, machine.run (init Bool ℕ) exchange = some s ∧
      (machine.history completed (init Bool ℕ) exchange).flatMap Completed.received = [5] ∧
      (machine.history completed (init Bool ℕ) exchange).flatMap Completed.sent =
        [5] ++ s.queue := by
  have hrun : (machine.run (init Bool ℕ) exchange).isSome := by decide
  obtain ⟨s,hs⟩ := Option.isSome_iff_exists.mp hrun
  have hreceived : (machine.history completed (init Bool ℕ) exchange).flatMap
    Completed.received = [5] := by decide
  refine ⟨s,hs,hreceived,?_⟩
  rw [run_fifo exchange s hs, hreceived]

end Asp.Channel
