import Asp.Foundation.Machine
import Mathlib.Logic.Function.Basic

/-! `asp::Mutex` and its guards: who holds the lock of which mutex, in one thread. -/
namespace Asp.Mutex
open Foundation

/-- The members of a `MutexGuardBase`. -/
structure Guard (M : Type*) where
  mtx : Option M
  locked : Bool
  deriving DecidableEq

/-- `m_mtx` says of every mutex whether it is locked. `misuse` records an unlock of a mutex that
is not locked, and a use of the null mutex of a guard that was moved from. -/
structure State (M G : Type*) where
  m_mtx : M → Bool
  guard : G → Option (Guard M)
  misuse : Bool

inductive Action (M G : Type*)
  | lock (g : G) (m : M)            -- Guard g = m.lock()
  | moveConstruct (g other : G)
  | moveAssign (g other : G)
  | unlock (g : G)
  | relock (g : G)
  | destroy (g : G)

variable {M G : Type*} [DecidableEq M] [DecidableEq G]

namespace State

def setGuard (s : State M G) (g : G) (x : Option (Guard M)) : State M G :=
  { s with guard := Function.update s.guard g x }

omit [DecidableEq M] in
@[simp] theorem setGuard_self (s : State M G) (g : G) (x : Option (Guard M)) :
    (s.setGuard g x).guard g = x := Function.update_self ..

omit [DecidableEq M] in
theorem setGuard_of_ne (s : State M G) {g g' : G} (h : g' ≠ g) (x : Option (Guard M)) :
    (s.setGuard g x).guard g' = s.guard g' := Function.update_of_ne h ..

/-- `unlock()` on the guard `g`, whose members are `x`. -/
def unlock (s : State M G) (g : G) (x : Guard M) : State M G :=
  if ¬x.locked then s else
    match x.mtx with
    | some m => { s.setGuard g (some ⟨x.mtx,false⟩) with
        m_mtx := Function.update s.m_mtx m false
        misuse := s.misuse || !s.m_mtx m }
    | none => { s with misuse := true }

/-- `relock()`; `none` where locking the mutex blocks. -/
def relock (s : State M G) (g : G) (x : Guard M) : Option (State M G) :=
  if x.locked then some s else
    match x.mtx with
    | some m => Foundation.guarded (s.m_mtx m = false)
        { s.setGuard g (some ⟨x.mtx,true⟩) with m_mtx := Function.update s.m_mtx m true }
    | none => some { s with misuse := true }

/-- `operator=(MutexGuardBase&&)`, which writes the members of the target and of the source. -/
def moveAssign (s : State M G) (g other : G) (y : Guard M) : State M G :=
  if g = other then s else (s.setGuard g (some y)).setGuard other (some ⟨none,false⟩)

def step (s : State M G) : Action M G → Option (State M G)
  | .lock g m =>
    match s.guard g with
    | none => (s.setGuard g (some ⟨some m,false⟩)).relock g ⟨some m,false⟩
    | some _ => none
  | .moveConstruct g other =>
    match s.guard g, s.guard other with
    | none, some y => some (s.moveAssign g other y)
    | _, _ => none
  | .moveAssign g other =>
    match s.guard g, s.guard other with
    | some _, some y => some (s.moveAssign g other y)
    | _, _ => none
  | .unlock g => (s.guard g).map (s.unlock g)
  | .relock g =>
    match s.guard g with
    -- a guard that was moved from must not be locked again
    | some ⟨some m,l⟩ => s.relock g ⟨some m,l⟩
    | _ => none
  | .destroy g => (s.guard g).map fun x => (s.unlock g x).setGuard g none

/-- The guard `g` refers to the mutex with its locked flag set. -/
def Holder (s : State M G) (g : G) (m : M) : Prop := s.guard g = some ⟨some m,true⟩

end State

def machine : Machine (State M G) (Action M G) where
  step := State.step

/-- All mutexes are free and there are no guards. -/
def init (M G : Type*) : State M G := ⟨fun _ => false,fun _ => none,false⟩

/-- Locks and guards agree, and nothing was unlocked in vain. -/
structure Agrees (s : State M G) : Prop where
  locked_iff : ∀ m, s.m_mtx m = true ↔ ∃! g, s.Holder g m
  misuse : s.misuse = false
  released : (∀ g, s.guard g = none) → ∀ m, s.m_mtx m = false

/-- A guard that is assigned to holds no lock of its own. -/
def AssignGuard (s : State M G) : Action M G → Prop
  | .moveAssign g other => g = other ∨ (s.guard g).any Guard.locked = false
  | _ => True

instance (s : State M G) : ∀ a, Decidable (AssignGuard s a)
  | .moveAssign _ _ => inferInstanceAs (Decidable (_ ∨ _))
  | .lock _ _ | .moveConstruct _ _ | .unlock _ | .relock _ | .destroy _ => .isTrue trivial

/-- The invariant of all runs: locks correspond to holders, which no two guards are at once. -/
structure Sound (s : State M G) : Prop where
  held : ∀ g m, s.Holder g m → s.m_mtx m = true
  holder : ∀ m, s.m_mtx m = true → ∃ g, s.Holder g m
  unique : ∀ g g' m, s.Holder g m → s.Holder g' m → g = g'
  mutex : ∀ g x, s.guard g = some x → x.locked = true → x.mtx ≠ none
  misuse : s.misuse = false

namespace Sound
variable {s : State M G} {g other : G} {m : M}

omit [DecidableEq M] [DecidableEq G] in
theorem agrees (h : Sound s) : Agrees s where
  locked_iff m := by
    constructor
    · intro hm
      obtain ⟨g,hg⟩ := h.holder m hm
      exact ⟨g,hg,fun g' hg' => h.unique g' g m hg' hg⟩
    · rintro ⟨g,hg,-⟩
      exact h.held g m hg
  misuse := h.misuse
  released hnone m := by
    rw [← Bool.not_eq_true]
    intro hm
    obtain ⟨g,hg⟩ := h.holder m hm
    rw [State.Holder, hnone g] at hg
    cases hg

omit [DecidableEq M] [DecidableEq G] in
lemma not_holder {x : Option (Guard M)} (hg : s.guard g = x) (hx : x.any Guard.locked = false)
    (m : M) : ¬s.Holder g m := by
  intro hh
  rw [State.Holder, hg] at hh
  rw [hh] at hx
  cases hx

omit [DecidableEq M] in
/-- Writing a guard leaves the mutex pointers of the locked guards non-null, if its own is. -/
lemma mutex_setGuard (h : ∀ g x, s.guard g = some x → x.locked = true → x.mtx ≠ none)
    {x : Option (Guard M)} (hx : ∀ y, x = some y → y.locked = true → y.mtx ≠ none) (g' : G)
    (y : Guard M) (hy : (s.setGuard g x).guard g' = some y) (hl : y.locked = true) :
    y.mtx ≠ none := by
  by_cases hne : g' = g
  · subst hne
    rw [s.setGuard_self] at hy
    exact hx y hy hl
  · rw [s.setGuard_of_ne hne] at hy
    exact h g' y hy hl

omit [DecidableEq M] in
/-- A guard that holds nothing before and after may change. -/
theorem setGuard (h : Sound s) {x : Option (Guard M)} (hg : ∀ m, ¬s.Holder g m)
    (hx : x.any Guard.locked = false) : Sound (s.setGuard g x) := by
  have hsame : ∀ g' m, (s.setGuard g x).Holder g' m ↔ s.Holder g' m := by
    intro g' m
    by_cases hne : g' = g
    · subst hne
      exact ⟨fun hh => absurd hh (not_holder (s.setGuard_self g' x) hx m),
        fun hh => absurd hh (hg m)⟩
    · rw [State.Holder, s.setGuard_of_ne hne]
      exact Iff.rfl
  refine ⟨fun g' m hh => h.held g' m ((hsame g' m).mp hh),fun m hm => ?_,fun g₁ g₂ m h₁ h₂ => ?_,
    mutex_setGuard h.mutex fun y hy hl => ?_,h.misuse⟩
  · obtain ⟨g',hg'⟩ := h.holder m hm
    exact ⟨g',(hsame g' m).mpr hg'⟩
  · exact h.unique g₁ g₂ m ((hsame g₁ m).mp h₁) ((hsame g₂ m).mp h₂)
  · rw [hy, Option.any_some, hl] at hx
    cases hx

/-- A mutex and the only guard that may hold it, which may hold no other, get the state `b`. -/
theorem setLocked (h : Sound s) (b : Bool) (hguard : ∀ m', s.Holder g m' → m' = m)
    (hmutex : ∀ g', s.Holder g' m → g' = g) {misuse : Bool} (hmisuse : misuse = false) :
    Sound { s.setGuard g (some ⟨some m,b⟩) with
      m_mtx := Function.update s.m_mtx m b, misuse := misuse } := by
  generalize ht : ({ s.setGuard g (some ⟨some m,b⟩) with
    m_mtx := Function.update s.m_mtx m b, misuse := misuse } : State M G) = t
  have hself : t.guard g = some ⟨some m,b⟩ := by
    subst ht
    exact Function.update_self ..
  have hother : ∀ g', g' ≠ g → t.guard g' = s.guard g' := by
    intro g' hne
    subst ht
    exact Function.update_of_ne hne ..
  have hnew : t.m_mtx m = b := by
    subst ht
    exact Function.update_self ..
  have hrest : ∀ m', m' ≠ m → t.m_mtx m' = s.m_mtx m' := by
    intro m' hne
    subst ht
    exact Function.update_of_ne hne ..
  -- the holders of other mutexes are the old ones
  have hcases : ∀ g' m', t.Holder g' m' → (g' = g ∧ m' = m ∧ b = true) ∨ (m' ≠ m ∧ s.Holder g' m') := by
    intro g' m' hh
    by_cases hne : g' = g
    · subst hne
      rw [State.Holder, hself] at hh
      cases hh
      exact .inl ⟨rfl,rfl,rfl⟩
    · rw [State.Holder, hother g' hne] at hh
      exact .inr ⟨fun he => hne (hmutex g' (he ▸ hh)),hh⟩
  refine ⟨fun g' m' hh => ?_,fun m' hm' => ?_,fun g₁ g₂ m' h₁ h₂ => ?_,fun g' x hx hl => ?_,?_⟩
  · obtain ⟨-,rfl,hb⟩ | ⟨hne,hs⟩ := hcases g' m' hh
    · exact hnew.trans hb
    · rw [hrest m' hne]
      exact h.held g' m' hs
  · by_cases hne : m' = m
    · subst hne
      obtain rfl := hnew.symm.trans hm'
      exact ⟨g,hself⟩
    · rw [hrest m' hne] at hm'
      obtain ⟨g',hg'⟩ := h.holder m' hm'
      have hgg : g' ≠ g := fun he => hne (hguard m' (he ▸ hg'))
      exact ⟨g',(hother g' hgg).trans hg'⟩
  · obtain ⟨rfl,rfl,-⟩ | ⟨hm₁,hs₁⟩ := hcases g₁ m' h₁ <;>
      obtain ⟨rfl,he,-⟩ | ⟨hm₂,hs₂⟩ := hcases g₂ m' h₂
    · rfl
    · exact absurd rfl hm₂
    · exact absurd he hm₁
    · exact h.unique g₁ g₂ m' hs₁ hs₂
  · subst ht
    refine mutex_setGuard h.mutex (fun y hy _ => ?_) g' x hx hl
    cases hy
    exact Option.some_ne_none m
  · subst ht
    exact hmisuse

/-- A guard that holds nothing locks a free mutex. -/
theorem acquire (h : Sound s) (hg : ∀ m, ¬s.Holder g m) (hm : s.m_mtx m = false) :
    Sound { s.setGuard g (some ⟨some m,true⟩) with m_mtx := Function.update s.m_mtx m true } := by
  refine h.setLocked true (fun m' hh => absurd hh (hg m')) (fun g' hh => ?_) h.misuse
  cases (h.held g' m hh).symm.trans hm

/-- The holder of a mutex unlocks it. -/
theorem release (h : Sound s) (hg : s.Holder g m) :
    Sound { s.setGuard g (some ⟨some m,false⟩) with
      m_mtx := Function.update s.m_mtx m false, misuse := s.misuse || !s.m_mtx m } := by
  refine h.setLocked false (fun m' hh => ?_) (fun g' hh => h.unique g' g m hh hg) ?_
  · cases hh.symm.trans hg
    rfl
  · rw [h.misuse, h.held g m hg]
    rfl

omit [DecidableEq M] in
/-- A lock goes from one guard to another that holds nothing. -/
theorem transfer (h : Sound s) (hne : g ≠ other) (hg : ∀ m, ¬s.Holder g m) {y : Guard M}
    (hy : s.guard other = some y) :
    Sound ((s.setGuard g (some y)).setGuard other (some ⟨none,false⟩)) := by
  generalize ht : (s.setGuard g (some y)).setGuard other (some ⟨none,false⟩) = t
  have hself : t.guard g = s.guard other := by
    subst ht
    rw [hy]
    exact (Function.update_of_ne hne ..).trans (Function.update_self ..)
  have hsource : t.guard other = some ⟨none,false⟩ := by
    subst ht
    exact Function.update_self ..
  have hrest : ∀ g', g' ≠ g → g' ≠ other → t.guard g' = s.guard g' := by
    intro g' hg' ho
    subst ht
    exact (Function.update_of_ne ho ..).trans (Function.update_of_ne hg' ..)
  -- the guard that was the holder before
  have hback : ∀ g' m, t.Holder g' m → ∃ g₀, s.Holder g₀ m ∧
      g' = if g₀ = other then g else g₀ := by
    intro g' m hh
    by_cases hgg : g' = g
    · subst hgg
      rw [State.Holder, hself] at hh
      exact ⟨other,hh,(if_pos rfl).symm⟩
    by_cases ho : g' = other
    · subst ho
      rw [State.Holder, hsource] at hh
      cases hh
    · rw [State.Holder, hrest g' hgg ho] at hh
      exact ⟨g',hh,(if_neg ho).symm⟩
  have hmtx : t.m_mtx = s.m_mtx := by
    subst ht
    rfl
  refine ⟨fun g' m hh => ?_,fun m hm => ?_,fun g₁ g₂ m h₁ h₂ => ?_,fun g' x hx hl => ?_,?_⟩
  · obtain ⟨g₀,hs,-⟩ := hback g' m hh
    rw [hmtx]
    exact h.held g₀ m hs
  · rw [hmtx] at hm
    obtain ⟨g₀,hs⟩ := h.holder m hm
    by_cases ho : g₀ = other
    · subst ho
      exact ⟨g,hself.trans hs⟩
    · have hgg : g₀ ≠ g := fun he => hg m (he ▸ hs)
      exact ⟨g₀,(hrest g₀ hgg ho).trans hs⟩
  · obtain ⟨g₀,hs₀,rfl⟩ := hback g₁ m h₁
    obtain ⟨g₀',hs₀',rfl⟩ := hback g₂ m h₂
    rw [h.unique g₀ g₀' m hs₀ hs₀']
  · subst ht
    have hset := mutex_setGuard (g := g) h.mutex fun z (hz : some y = some z) =>
      h.mutex other z (hy.trans hz)
    refine mutex_setGuard hset (fun z hz hl => ?_) g' x hx hl
    cases hz
    cases hl
  · subst ht
    exact h.misuse

/-- A guard holds nothing once it is unlocked. -/
theorem unlock (h : Sound s) {x : Guard M} (hx : s.guard g = some x) :
    Sound (s.unlock g x) ∧ ∀ m, ¬(s.unlock g x).Holder g m := by
  obtain ⟨mtx,locked⟩ := x
  cases locked with
  | false => exact ⟨h,not_holder hx rfl⟩
  | true =>
    cases mtx with
    | none => exact absurd rfl (h.mutex g _ hx rfl)
    | some m => exact ⟨h.release hx,not_holder (s.setGuard_self g _) rfl⟩

theorem relock (h : Sound s) {t : State M G} {l : Bool} (hx : s.guard g = some ⟨some m,l⟩)
    (ht : s.relock g ⟨some m,l⟩ = some t) : Sound t := by
  cases l with
  | true =>
    cases ht
    exact h
  | false =>
    obtain ⟨hm,rfl⟩ := guarded_eq_some.mp ht
    exact h.acquire (not_holder hx rfl) hm

end Sound

omit [DecidableEq M] [DecidableEq G] in
theorem sound_init : Sound (init M G) where
  held _ _ h := nomatch h
  holder _ h := nomatch h
  unique _ _ _ h := nomatch h
  mutex _ _ h := nomatch h
  misuse := rfl

/-- One operation keeps the invariant, unless it overwrites a guard that holds a lock. -/
theorem step_sound {s t : State M G} {a : Action M G} (h : Sound s) (hg : AssignGuard s a)
    (hs : s.step a = some t) : Sound t := by
  cases a with
  | lock g m =>
    rw [State.step] at hs
    split at hs <;> rename_i hnone
    · -- the new guard is written before its mutex is locked
      have hidle : ∀ m, ¬s.Holder g m := Sound.not_holder hnone rfl
      have h₁ : Sound (s.setGuard g (some ⟨some m,false⟩)) := h.setGuard hidle rfl
      exact h₁.relock (s.setGuard_self g _) hs
    · cases hs
  | moveConstruct g other =>
    rw [State.step] at hs
    split at hs <;> cases hs
    rename_i y hnone hy
    have hne : g ≠ other := by
      rintro rfl
      cases hnone.symm.trans hy
    rw [State.moveAssign, if_neg hne]
    exact h.transfer hne (Sound.not_holder hnone rfl) hy
  | moveAssign g other =>
    rw [State.step] at hs
    split at hs <;> cases hs
    rename_i x y hx hy
    rw [State.moveAssign]
    split_ifs with hne
    · exact h
    · have hidle := hg.resolve_left hne
      rw [hx] at hidle
      exact h.transfer hne (Sound.not_holder hx hidle) hy
  | unlock g =>
    obtain ⟨x,hx,rfl⟩ := Option.map_eq_some_iff.mp hs
    exact (h.unlock hx).1
  | relock g =>
    rw [State.step] at hs
    split at hs
    · rename_i m l hx
      exact h.relock hx hs
    · cases hs
  | destroy g =>
    obtain ⟨x,hx,rfl⟩ := Option.map_eq_some_iff.mp hs
    exact (h.unlock hx).1.setGuard (h.unlock hx).2 rfl

/-- Locks and guards agree in every run in which no guard is assigned to while it holds a lock
of its own. -/
theorem guarded_run_agrees (s : State M G) (h : machine.Reaches AssignGuard (init M G) s) :
    Agrees s := by
  have hsound : Sound s :=
    h.invariant Sound sound_init fun _ _ _ hi hg hs => step_sound hi hg hs
  exact hsound.agrees

/-- A lock that moves between three guards, the last of which locks again. -/
theorem guarded_run_agrees_example :
    ∃ s : State (Fin 2) (Fin 3), machine.runGuarded AssignGuard (init (Fin 2) (Fin 3))
      [.lock 0 0,.lock 1 1,.moveConstruct 2 0,.unlock 1,.moveAssign 1 2,.destroy 0,.unlock 1,
        .relock 1,.destroy 2] = some s ∧ s.Holder 1 0 ∧ Agrees s := by
  have hrun : ((machine.runGuarded AssignGuard (init (Fin 2) (Fin 3))
      [.lock 0 0,.lock 1 1,.moveConstruct 2 0,.unlock 1,.moveAssign 1 2,.destroy 0,.unlock 1,
        .relock 1,.destroy 2]).map fun s => s.guard 1) = some (some ⟨some 0,true⟩) := by decide
  obtain ⟨s,hs,hg⟩ := Option.map_eq_some_iff.mp hrun
  exact ⟨s,hs,hg,guarded_run_agrees s (Machine.reaches_of_runGuarded hs)⟩

/-- Two locked guards, one assigned to the other, and both destroyed: the mutex that the target
held stays locked. -/
theorem assign_forgets_lock :
    ¬ ∀ s : State (Fin 2) (Fin 2),
      machine.Reaches (fun _ _ => True) (init (Fin 2) (Fin 2)) s → Agrees s := by
  intro h
  have hrun : (machine.run (init (Fin 2) (Fin 2))
      [.lock 0 0,.lock 1 1,.moveAssign 0 1,.destroy 0,.destroy 1]).map
        (fun s => (s.guard 0,s.guard 1,s.m_mtx 0)) = some (none,none,true) := by decide
  obtain ⟨s,hs,hv⟩ := Option.map_eq_some_iff.mp hrun
  obtain ⟨h0,hv⟩ := Prod.mk.inj hv
  obtain ⟨h1,hm⟩ := Prod.mk.inj hv
  have hfree := (h s (Machine.reaches_of_run hs)).released
    (fun g => by
      match g with
      | 0 => exact h0
      | 1 => exact h1) 0
  cases hfree.symm.trans hm

/-- The guard is exact: a move assignment that breaks it leaves the mutex of its target locked
without a holder. -/
theorem unguarded_assign_forgets {s : State M G} {g other : G} (h : Sound s) {y : Guard M}
    (hy : s.guard other = some y) (hg : ¬AssignGuard s (.moveAssign g other)) :
    ∃ t m, machine.step s (.moveAssign g other) = some t ∧ t.m_mtx m = true ∧
      ∀ g', ¬t.Holder g' m := by
  unfold AssignGuard at hg
  rw [not_or] at hg
  obtain ⟨hne,hl⟩ := hg
  match hx : s.guard g with
  | none =>
    rw [hx] at hl
    exact absurd rfl hl
  | some ⟨none,l⟩ =>
    rw [hx, Bool.not_eq_false] at hl
    exact absurd rfl (h.mutex g _ hx hl)
  | some ⟨some m,l⟩ =>
    rw [hx, Bool.not_eq_false] at hl
    obtain rfl : l = true := hl
    refine ⟨(s.setGuard g (some y)).setGuard other (some ⟨none,false⟩),m,?_,h.held g m hx,
      fun g' hh => ?_⟩
    · simp only [machine, State.step, hx, hy, State.moveAssign, if_neg hne]
    · by_cases ho : g' = other
      · subst ho
        rw [State.Holder, State.setGuard_self] at hh
        cases hh
      rw [State.Holder, State.setGuard_of_ne _ ho] at hh
      by_cases hgg : g' = g
      · subst hgg
        rw [State.setGuard_self] at hh
        cases hh
        exact hne (h.unique g' other m hx hy)
      · rw [State.setGuard_of_ne _ hgg] at hh
        exact hgg (h.unique g' g m hh hx)

end Asp.Mutex
