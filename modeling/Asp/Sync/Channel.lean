import Asp.Foundation.Machine
import Asp.Foundation.Tally

/-! `asp::Channel` between any number of threads. A critical section of its mutex is one step;
`wait_for` releases the mutex as it blocks, and locks it again after a notification, a timeout or
a spurious wake-up. -/
namespace Asp.Channel
open Foundation

/-- The calls that block while the queue is empty. -/
inductive Wait
  | popTimeout
  | waitForMessages
  deriving DecidableEq

inductive Call (A : Type*)
  | push (msg : A)
  | tryPop
  | popNow
  | wait (kind : Wait)
  deriving DecidableEq

/-- What a call returns or throws; `popped none` is `std::nullopt`. -/
inductive Result (A : Type*)
  | done
  | popped (x : Option A)
  | error (what : String)
  deriving DecidableEq

/-- Where a thread is. -/
inductive Phase (A : Type*)
  | outside (last : Option (Result A))
  | calling (c : Call A)                -- about to lock mtx
  | blocked (kind : Wait)               -- inside wait_for, not notified
  | woken (kind : Wait)                 -- about to lock mtx again
  deriving DecidableEq

structure State (T A : Type*) where
  queue : List A
  phase : T → Phase A

inductive Action (T A : Type*)
  | call (t : T) (c : Call A)
  | push (t : T) (notified : Option T)  -- the critical section of push; notify_one wakes `notified`
  | enter (t : T)                       -- the first critical section of another call
  | wake (t : T)                        -- the timeout, or a spurious wake-up
  | relock (t : T) (expired : Bool)     -- the predicate is tested again; `expired` ends the waiting

variable {T A : Type*} [DecidableEq T]

namespace Phase

def isBlocked : Phase A → Bool
  | blocked _ => true
  | _ => false

/-- In the middle of a call: running, or woken and about to lock the mutex again. -/
def isActive : Phase A → Bool
  | calling _ | woken _ => true
  | outside _ | blocked _ => false

/-- A woken thread that takes a message if there is one. -/
def takes : Phase A → ℕ
  | woken .popTimeout => 1
  | _ => 0

theorem takes_le_one (p : Phase A) : p.takes ≤ 1 := by
  cases p with
  | woken kind => cases kind <;> simp [takes]
  | _ => exact Nat.zero_le 1

end Phase

namespace State

def setPhase (s : State T A) (t : T) (p : Phase A) : State T A :=
  { s with phase := Function.update s.phase t p }

def leave (s : State T A) (t : T) (r : Result A) : State T A := s.setPhase t (.outside (some r))

/-- `doPop` for a queue that is not empty; `rest` is what remains of it. -/
def doPop (s : State T A) (t : T) (val : A) (rest : List A) : State T A :=
  { s.leave t (.popped (some val)) with queue := rest }

/-- A call that waits goes on with a queue that is not empty. -/
def available (s : State T A) (t : T) (val : A) (rest : List A) : Wait → State T A
  | .popTimeout => s.doPop t val rest
  | .waitForMessages => s.leave t .done

/-- It ends without a message. -/
def giveUp (s : State T A) (t : T) : Wait → State T A
  | .popTimeout => s.leave t (.popped none)
  | .waitForMessages => s.leave t .done

def enter (s : State T A) (t : T) : Call A → Option (State T A)
  | .push _ => none
  | .tryPop =>
    match s.queue with
    | [] => some (s.leave t (.popped none))
    | val :: rest => some (s.doPop t val rest)
  | .popNow =>
    match s.queue with
    | [] => some (s.leave t (.error "attempting to pop a message from an empty channel"))
    | val :: rest => some (s.doPop t val rest)
  | .wait kind =>
    match s.queue with
    | [] => some (s.setPhase t (.blocked kind))
    | val :: rest => some (s.available t val rest kind)

def relock (s : State T A) (t : T) (expired : Bool) (kind : Wait) : State T A :=
  match s.queue with
  | [] => if expired then s.giveUp t kind else s.setPhase t (.blocked kind)
  | val :: rest => s.available t val rest kind

def push (s : State T A) (t : T) (msg : A) : State T A :=
  { s.leave t .done with queue := s.queue ++ [msg] }

variable [Fintype T]

/-- The critical section of `push`: `notify_one` wakes one blocked thread if there is any. -/
def pushNotify (s : State T A) (t : T) (msg : A) : Option T → Option (State T A)
  | none => guarded (∀ u, (s.phase u).isBlocked = false) (s.push t msg)
  | some u =>
    match s.phase u with
    | .blocked kind => some ((s.push t msg).setPhase u (.woken kind))
    | _ => none

def step (s : State T A) : Action T A → Option (State T A)
  | .call t c =>
    match s.phase t with
    | .outside _ => some (s.setPhase t (.calling c))
    | _ => none
  | .push t notified =>
    match s.phase t with
    | .calling (.push msg) => s.pushNotify t msg notified
    | _ => none
  | .enter t =>
    match s.phase t with
    | .calling c => s.enter t c
    | _ => none
  | .wake t =>
    match s.phase t with
    | .blocked kind => some (s.setPhase t (.woken kind))
    | _ => none
  | .relock t expired =>
    match s.phase t with
    | .woken kind => some (s.relock t expired kind)
    | _ => none

end State

variable [Fintype T]

def machine : Machine (State T A) (Action T A) where
  step := State.step

def init (T A : Type*) : State T A := ⟨[],fun _ => .outside none⟩

/-- A message is there, a thread is blocked in popTimeout, and nobody is in a call that could
still take the one or wake the other. -/
def LostWakeup (s : State T A) : Prop :=
  s.queue ≠ [] ∧ (∃ t, s.phase t = .blocked .popTimeout) ∧ ∀ t, (s.phase t).isActive = false

/-- A notification does not wake a thread in waitForMessages while another one is blocked in
popTimeout. -/
def NotifyGuard (s : State T A) : Action T A → Prop
  | .push _ (some u) =>
    s.phase u = .blocked .waitForMessages → ∀ t, s.phase t ≠ .blocked .popTimeout
  | _ => True

instance [DecidableEq A] (s : State T A) : ∀ a, Decidable (NotifyGuard s a)
  | .push _ (some _) => inferInstanceAs (Decidable (_ → ∀ _, _))
  | .push _ none | .call _ _ | .enter _ | .wake _ | .relock _ _ => .isTrue trivial

/-- As long as a thread is blocked in popTimeout, every message has a woken thread to take it. -/
def Covered (s : State T A) : Prop :=
  ∀ t, s.phase t = .blocked .popTimeout → s.queue.length ≤ tally Phase.takes s.phase

/-- A thread takes as many messages as it was counted for, or leaves none, and does not block
where there is one. -/
theorem Covered.setPhase {s : State T A} (h : Covered s) {t : T} {p : Phase A} {q : List A}
    (hq : q = [] ∨ q.length + (s.phase t).takes ≤ s.queue.length)
    (hp : p = .blocked .popTimeout → q = []) : Covered { s.setPhase t p with queue := q } := by
  have htally := tally_update Phase.takes s.phase t p
  intro u hu
  change q.length ≤ tally Phase.takes (Function.update s.phase t p)
  change Function.update s.phase t p u = _ at hu
  by_cases hut : u = t
  · subst hut
    rw [Function.update_self] at hu
    rw [hp hu]
    exact Nat.zero_le _
  · rw [Function.update_of_ne hut] at hu
    have hle := h u hu
    obtain rfl | hq := hq
    · exact Nat.zero_le _
    · omega

theorem Covered.leave {s : State T A} (h : Covered s) {t : T} (r : Result A)
    (ht : s.queue = [] ∨ (s.phase t).takes = 0) : Covered (s.leave t r) := by
  refine h.setPhase (ht.imp id fun h0 => ?_) nofun
  rw [h0]
  exact Nat.le_refl _

theorem Covered.doPop {s : State T A} (h : Covered s) {t : T} {val : A} {rest : List A}
    (hq : s.queue = val :: rest) : Covered (s.doPop t val rest) := by
  refine h.setPhase (p := .outside (some (.popped (some val)))) (.inr ?_) nofun
  rw [hq, List.length_cons]
  exact Nat.add_le_add_left (s.phase t).takes_le_one _

theorem enter_covered {s t : State T A} (h : Covered s) {u : T} {c : Call A}
    (hu : s.phase u = .calling c) (hs : s.enter u c = some t) : Covered t := by
  have htakes : (s.phase u).takes = 0 := by rw [hu]; rfl
  cases c with
  | push msg => cases hs
  | tryPop | popNow =>
    rw [State.enter] at hs
    split at hs <;> cases hs <;> rename_i hq
    · exact h.leave _ (.inl hq)
    · exact h.doPop hq
  | wait kind =>
    rw [State.enter] at hs
    split at hs <;> cases hs <;> rename_i hq
    · exact h.setPhase (.inl hq) fun _ => hq
    · cases kind with
      | popTimeout => exact h.doPop hq
      | waitForMessages => exact h.leave _ (.inr htakes)

theorem relock_covered {s : State T A} (h : Covered s) {u : T} {kind : Wait} (expired : Bool)
    (hu : s.phase u = .woken kind) : Covered (s.relock u expired kind) := by
  rw [State.relock]
  split <;> rename_i hq
  · -- nothing is there: the thread gives up or blocks again
    split_ifs
    · cases kind <;> exact h.leave _ (.inl hq)
    · exact h.setPhase (.inl hq) fun _ => hq
  · cases kind with
    | popTimeout => exact h.doPop hq
    | waitForMessages => exact h.leave _ (.inr (by rw [hu]; rfl))

/-- A message that nobody waits for, or that wakes a thread to take it. -/
theorem push_covered {s t : State T A} (h : Covered s) {u : T} {msg : A} {notified : Option T}
    (hu : s.phase u = .calling (.push msg)) (hg : NotifyGuard s (.push u notified))
    (hs : s.pushNotify u msg notified = some t) : Covered t := by
  cases notified with
  | none =>
    obtain ⟨hnone,rfl⟩ := guarded_eq_some.mp hs
    intro v hv
    change Function.update s.phase u _ v = _ at hv
    by_cases hvu : v = u
    · subst hvu
      rw [Function.update_self] at hv
      cases hv
    · rw [Function.update_of_ne hvu] at hv
      have hb := hnone v
      rw [hv] at hb
      cases hb
  | some w =>
    rw [State.pushNotify] at hs
    split at hs <;> cases hs
    rename_i kind hw
    have hwu : w ≠ u := by
      rintro rfl
      cases hw.symm.trans hu
    intro v hv
    change Function.update (Function.update s.phase u _) w _ v = _ at hv
    by_cases hvw : v = w
    · subst hvw
      rw [Function.update_self] at hv
      cases hv
    rw [Function.update_of_ne hvw] at hv
    by_cases hvu : v = u
    · subst hvu
      rw [Function.update_self] at hv
      cases hv
    rw [Function.update_of_ne hvu] at hv
    have hkind : kind = .popTimeout := by
      cases kind with
      | popTimeout => rfl
      | waitForMessages => exact absurd hv (hg hw v)
    subst hkind
    have hle := h v hv
    -- the pushing thread was not counted, the woken one is from now on
    have h₁ := tally_update Phase.takes s.phase u (.outside (some .done))
    have h₂ := tally_update Phase.takes
      (Function.update s.phase u (.outside (some .done))) w (.woken .popTimeout)
    rw [hu] at h₁
    rw [Function.update_of_ne hwu, hw] at h₂
    change (s.queue ++ [msg]).length ≤ tally Phase.takes (Function.update
      (Function.update s.phase u (.outside (some .done))) w (.woken .popTimeout))
    rw [List.length_append, List.length_singleton]
    simp only [Phase.takes] at h₁ h₂
    omega

/-- One guarded step keeps every message covered. -/
theorem step_covered {s t : State T A} {a : Action T A} (h : Covered s) (hg : NotifyGuard s a)
    (hs : s.step a = some t) : Covered t := by
  cases a with
  | call u c =>
    rw [State.step] at hs
    split at hs <;> cases hs
    rename_i hu
    refine h.setPhase (p := .calling c) (.inr ?_) nofun
    rw [hu]
    exact Nat.le_refl _
  | push u notified =>
    rw [State.step] at hs
    split at hs
    · rename_i msg hu
      exact push_covered h hu hg hs
    · cases hs
  | enter u =>
    rw [State.step] at hs
    split at hs
    · rename_i c hu
      exact enter_covered h hu hs
    · cases hs
  | wake u =>
    rw [State.step] at hs
    split at hs <;> cases hs
    rename_i kind hu
    refine h.setPhase (p := .woken kind) (.inr ?_) nofun
    rw [hu]
    exact Nat.le_refl _
  | relock u expired =>
    rw [State.step] at hs
    split at hs <;> cases hs
    rename_i hu
    exact relock_covered h expired hu

/-- No wake-up is lost in a run in which no notification goes to waitForMessages while a thread
is blocked in popTimeout. -/
theorem guarded_run_not_lost (s : State T A) (h : machine.Reaches NotifyGuard (init T A) s) :
    ¬LostWakeup s := by
  have hcovered : Covered s :=
    h.invariant Covered (fun _ ht => nomatch ht) fun _ _ _ hi hg hs => step_covered hi hg hs
  rintro ⟨hq,⟨t,ht⟩,hactive⟩
  have htakes : tally Phase.takes s.phase = 0 := by
    rw [tally_eq_zero]
    intro u
    have hu := hactive u
    cases hp : s.phase u with
    | woken kind =>
      rw [hp] at hu
      cases hu
    | _ => rfl
  have hle := hcovered t ht
  rw [htakes] at hle
  exact hq (List.eq_nil_of_length_eq_zero (Nat.le_zero.mp hle))

/-- Two threads wait for messages, the second one spuriously woken; two messages are pushed. -/
theorem guarded_run_not_lost_example :
    ∃ s : State (Fin 3) ℕ, machine.runGuarded NotifyGuard (init (Fin 3) ℕ)
      [.call 0 (.wait .popTimeout),.enter 0,.call 1 (.wait .waitForMessages),.enter 1,.wake 1,
        .call 2 (.push 5),.push 2 (some 0),.call 2 (.push 6),.push 2 none,.relock 1 false,
        .relock 0 true] = some s ∧ s.phase 0 = .outside (some (.popped (some 5))) ∧
      ¬LostWakeup s := by
  have hrun : (machine.runGuarded NotifyGuard (init (Fin 3) ℕ)
      [.call 0 (.wait .popTimeout),.enter 0,.call 1 (.wait .waitForMessages),.enter 1,.wake 1,
        .call 2 (.push 5),.push 2 (some 0),.call 2 (.push 6),.push 2 none,.relock 1 false,
        .relock 0 true]).map (fun s => s.phase 0) =
      some (.outside (some (.popped (some 5)))) := by decide
  obtain ⟨s,hs,hp⟩ := Option.map_eq_some_iff.mp hrun
  exact ⟨s,hs,hp,guarded_run_not_lost s (Machine.reaches_of_runGuarded hs)⟩

/-- One thread is blocked in popTimeout and one in waitForMessages; the message that is pushed
wakes the second, which returns. -/
theorem message_left_behind :
    ¬ ∀ s : State (Fin 3) ℕ,
      machine.Reaches (fun _ _ => True) (init (Fin 3) ℕ) s → ¬LostWakeup s := by
  intro h
  have hrun : (machine.run (init (Fin 3) ℕ)
      [.call 0 (.wait .popTimeout),.enter 0,.call 1 (.wait .waitForMessages),.enter 1,
        .call 2 (.push 5),.push 2 (some 1),.relock 1 false]).map
        (fun s => (s.queue,s.phase 0,decide (∀ t, (s.phase t).isActive = false))) =
      some ([5],.blocked .popTimeout,true) := by decide
  obtain ⟨s,hs,hv⟩ := Option.map_eq_some_iff.mp hrun
  obtain ⟨hq,hv⟩ := Prod.mk.inj hv
  obtain ⟨hp,hactive⟩ := Prod.mk.inj hv
  refine h s (Machine.reaches_of_run hs) ⟨?_,⟨0,hp⟩,of_decide_eq_true hactive⟩
  rw [hq]
  exact List.cons_ne_nil 5 []

/-- The guard is exact: where nobody else is in a call, the woken thread in waitForMessages
returns and leaves the message to a thread that stays blocked. -/
theorem unguarded_notify_lost {s : State T A} {t u v : T} {msg : A}
    (ht : s.phase t = .calling (.push msg)) (hu : s.phase u = .blocked .waitForMessages)
    (hv : s.phase v = .blocked .popTimeout)
    (hrest : ∀ x, x ≠ t → (s.phase x).isActive = false) :
    ∃ s', machine.run s [.push t (some u),.relock u false] = some s' ∧ LostWakeup s' := by
  have htu : u ≠ t := by
    rintro rfl
    cases hu.symm.trans ht
  have htv : v ≠ t := by
    rintro rfl
    cases hv.symm.trans ht
  have huv : v ≠ u := by
    rintro rfl
    cases hv.symm.trans hu
  let s₁ : State T A := (s.push t msg).setPhase u (.woken .waitForMessages)
  have h₁ : machine.step s (.push t (some u)) = some s₁ := by
    simp only [machine, State.step, ht, State.pushNotify, hu]
    rfl
  have hu₁ : s₁.phase u = .woken .waitForMessages := Function.update_self ..
  have hq₁ : s₁.queue = s.queue ++ [msg] := rfl
  have h₂ : machine.step s₁ (.relock u false) = some (s₁.leave u .done) := by
    simp only [machine, State.step, hu₁, State.relock]
    split <;> rename_i hq
    · rw [hq₁] at hq
      simp at hq
    · rfl
  have hphase : ∀ x, x ≠ t → x ≠ u → (s₁.leave u .done).phase x = s.phase x := by
    intro x hxt hxu
    exact (Function.update_of_ne hxu ..).trans
      ((Function.update_of_ne hxu ..).trans (Function.update_of_ne hxt ..))
  refine ⟨s₁.leave u .done,?_,?_,⟨v,(hphase v htv huv).trans hv⟩,fun x => ?_⟩
  · rw [Machine.run_cons, h₁, Option.bind_some, Machine.run_cons, h₂, Option.bind_some,
      Machine.run_nil]
  · change s.queue ++ [msg] ≠ []
    simp
  · by_cases hxu : x = u
    · subst hxu
      have hx : (s₁.leave x .done).phase x = .outside (some .done) := Function.update_self ..
      rw [hx]
      rfl
    by_cases hxt : x = t
    · subst hxt
      have hx : (s₁.leave u .done).phase x = .outside (some .done) :=
        (Function.update_of_ne hxu ..).trans
          ((Function.update_of_ne hxu ..).trans (Function.update_self ..))
      rw [hx]
      rfl
    · rw [hphase x hxt hxu]
      exact hrest x hxt

end Asp.Channel
