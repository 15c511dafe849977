import Asp.Foundation.Monitor
import Mathlib.Data.Nat.Notation
import Mathlib.Logic.Function.Basic

/-! `asp::SpinLock` between any number of threads, each with guards of its own. One step of
`acquireAtomicLock` is one compare-exchange, or what follows a failed one. -/
namespace Asp.SpinLock
open Foundation

/-- The two variants of `acquireAtomicLock`. -/
inductive Compiler
  | builtin   -- __atomic_compare_exchange_n
  | msvc      -- _InterlockedCompareExchange8
  deriving DecidableEq

/-- A guard that has been constructed. -/
structure Guard where
  alreadyUnlocked : Bool
  deriving DecidableEq

/-- Where a thread is. -/
inductive Phase (G D : Type*)
  | running
  | acquiring (g : G) (expected : UInt8)          -- about to compare and exchange
  | failed (g : G) (expected : UInt8)             -- about to set `expected` back to 0
  | updating (g : G) (f : D → D) (copy : D)       -- has read *g, and will write `f copy` there

/-- `data` and `mtx` are the lock's members; every thread has its guards. -/
structure State (T G D : Type*) where
  data : D
  mtx : UInt8
  guard : T → G → Option Guard
  phase : T → Phase G D

inductive Action (T G D : Type*)
  | construct (t : T) (g : G)
  | spin (t : T)
  | unlock (t : T) (g : G)
  | relock (t : T) (g : G)
  | destroy (t : T) (g : G)
  | read (t : T) (g : G) (f : D → D)
  | write (t : T)

variable {T G D : Type*} [DecidableEq T] [DecidableEq G]

/-- Whether the byte was exchanged, the byte afterwards, and the value that was found there. -/
def compareExchange (ptr expected desired : UInt8) : Bool × UInt8 × UInt8 :=
  if ptr = expected then (true,desired,expected) else (false,ptr,ptr)

namespace State

def setPhase (s : State T G D) (t : T) (p : Phase G D) : State T G D :=
  { s with phase := Function.update s.phase t p }

def setGuard (s : State T G D) (t : T) (g : G) (x : Option Guard) : State T G D :=
  { s with guard := Function.update s.guard t (Function.update (s.guard t) g x) }

/-- `_lock` begins. -/
def lock (s : State T G D) (t : T) (g : G) : State T G D := s.setPhase t (.acquiring g 0)

/-- `_lock` returns to the constructor or to `relock`. -/
def locked (s : State T G D) (t : T) (g : G) : State T G D :=
  (s.setPhase t .running).setGuard t g (some ⟨false⟩)

/-- One step of `acquireAtomicLock`. -/
def spin (c : Compiler) (s : State T G D) (t : T) : Option (State T G D) :=
  match s.phase t with
  | .acquiring g expected =>
    match c with
    | .builtin =>
      match compareExchange s.mtx expected 1 with
      | (true,ptr,_) => some ({ s with mtx := ptr }.locked t g)
      | (false,ptr,found) => some ({ s with mtx := ptr }.setPhase t (.failed g found))
    | .msvc =>
      match compareExchange s.mtx 0 1 with
      | (_,ptr,found) =>
        if found = 0 then some ({ s with mtx := ptr }.locked t g) else some { s with mtx := ptr }
  | .failed g _ => some (s.setPhase t (.acquiring g 0))
  | _ => none

def unlock (s : State T G D) (t : T) (g : G) (x : Guard) : State T G D :=
  if x.alreadyUnlocked then s else { s with mtx := 0 }.setGuard t g (some ⟨true⟩)

def relock (s : State T G D) (t : T) (g : G) (x : Guard) : State T G D :=
  if x.alreadyUnlocked then s.lock t g else s

end State

/-- A thread calls its guards one at a time, and reads and writes the data through one that is
locked. -/
def step (c : Compiler) (s : State T G D) : Action T G D → Option (State T G D)
  | .spin t => s.spin c t
  | .construct t g =>
    match s.phase t, s.guard t g with
    | .running, none => some (s.lock t g)
    | _, _ => none
  | .unlock t g =>
    match s.phase t, s.guard t g with
    | .running, some x => some (s.unlock t g x)
    | _, _ => none
  | .relock t g =>
    match s.phase t, s.guard t g with
    | .running, some x => some (s.relock t g x)
    | _, _ => none
  | .destroy t g =>
    match s.phase t, s.guard t g with
    | .running, some x => some ((s.unlock t g x).setGuard t g none)
    | _, _ => none
  | .read t g f =>
    match s.phase t, s.guard t g with
    | .running, some ⟨false⟩ => some (s.setPhase t (.updating g f s.data))
    | _, _ => none
  | .write t =>
    match s.phase t with
    | .updating _ f copy => some ({ s with data := f copy }.setPhase t .running)
    | _ => none

def machine (c : Compiler) : Machine (State T G D) (Action T G D) where
  step := step c

/-- No guards, and the lock is free. -/
def init (data : D) : State T G D := ⟨data,0,fun _ _ => none,fun _ => .running⟩

/-- The guard `g` of thread `t` is locked. -/
def State.Holds (s : State T G D) (t : T) (g : G) : Prop := s.guard t g = some ⟨false⟩

instance (s : State T G D) (t : T) (g : G) : Decidable (s.Holds t g) :=
  inferInstanceAs (Decidable (_ = _))

/-- The guard that a thread tries to lock. -/
def Phase.spinsOn : Phase G D → Option G
  | .acquiring g _ | .failed g _ => some g
  | .running | .updating _ _ _ => none

/-- What a step does to the lock and its data. -/
def events (s : State T G D) (a : Action T G D) (s' : State T G D) :
    List (Monitor.Event (T × G) D) :=
  match a with
  | .spin t =>
    match s.phase t with
    | .acquiring g _ => if s'.Holds t g then [.acquire (t,g)] else []
    | _ => []
  | .unlock t g | .destroy t g => if s.Holds t g then [.release (t,g)] else []
  | .write t =>
    match s.phase t with
    | .updating g f _ => [.update (t,g) f]
    | _ => []
  | .construct _ _ | .relock _ _ | .read _ _ _ => []

/-- What the place of a thread says about the owner of the lock. -/
def Phase.Fits (o : Option (T × G)) (data : D) (t : T) : Phase G D → Prop
  | .running => True
  | .acquiring g expected => expected = 0 ∧ o ≠ some (t,g)
  | .failed g _ => o ≠ some (t,g)
  | .updating g _ copy => o = some (t,g) ∧ copy = data

/-- The invariant of all runs: `o` is the one guard that is locked. -/
structure Owned (s : State T G D) (o : Option (T × G)) : Prop where
  mtx : s.mtx = if o = none then 0 else 1
  holds : ∀ t g, s.Holds t g ↔ o = some (t,g)
  phase : ∀ t, (s.phase t).Fits o s.data t

namespace Owned
variable {s : State T G D} {o : Option (T × G)} {t : T} {g : G}

omit [DecidableEq G] in
theorem setPhase (h : Owned s o) {p : Phase G D} (hp : p.Fits o s.data t) :
    Owned (s.setPhase t p) o := by
  refine ⟨h.mtx,h.holds,fun u => ?_⟩
  change (Function.update s.phase t p u).Fits o s.data u
  by_cases hu : u = t
  · subst hu
    rw [Function.update_self]
    exact hp
  · rw [Function.update_of_ne hu]
    exact h.phase u

theorem holds_setGuard (x : Option Guard) (u : T) (g' : G) :
    (s.setGuard t g x).Holds u g' ↔
      if (u,g') = (t,g) then x = some ⟨false⟩ else s.Holds u g' := by
  change Function.update s.guard t (Function.update (s.guard t) g x) u g' = _ ↔ _
  by_cases hu : u = t
  · subst hu
    rw [Function.update_self]
    by_cases hg : g' = g
    · subst hg
      rw [Function.update_self, if_pos rfl]
    · rw [Function.update_of_ne hg, if_neg fun he => hg (Prod.mk.inj he).2]
      rfl
  · rw [Function.update_of_ne hu, if_neg fun he => hu (Prod.mk.inj he).1]
    rfl

/-- A guard that is not locked may change or go. -/
theorem setGuard (h : Owned s o) {x : Option Guard} (ho : o ≠ some (t,g)) (hx : x ≠ some ⟨false⟩) :
    Owned (s.setGuard t g x) o := by
  refine ⟨h.mtx,fun u g' => ?_,h.phase⟩
  rw [holds_setGuard]
  split_ifs with he
  · rw [he]
    exact iff_of_false hx ho
  · exact h.holds u g'

/-- A thread gets the free lock for one of its guards. -/
theorem acquire (h : Owned s none) : Owned ({ s with mtx := 1 }.locked t g) (some (t,g)) := by
  refine ⟨rfl,fun u g' => ?_,fun u => ?_⟩
  · rw [State.locked, holds_setGuard]
    split_ifs with he
    · rw [he]
      exact iff_of_true rfl rfl
    · refine iff_of_false (fun hh => ?_) fun hh => he (Option.some.inj hh).symm
      cases (h.holds u g').mp hh
  · change (Function.update s.phase t .running u).Fits _ s.data u
    by_cases hu : u = t
    · subst hu
      rw [Function.update_self]
      trivial
    · have hne : ∀ g', (some (t,g) : Option (T × G)) ≠ some (u,g') :=
        fun g' he => hu (Prod.mk.inj (Option.some.inj he)).1.symm
      have hold := h.phase u
      rw [Function.update_of_ne hu]
      cases hp : s.phase u with rw [hp] at hold
      | running => trivial
      | acquiring g' e => exact ⟨hold.1,hne g'⟩
      | failed g' e => exact hne g'
      | updating g' f copy => cases hold.1

/-- The thread that holds the lock, which is not in the middle of an update, releases it. -/
theorem release (h : Owned s (some (t,g))) (ht : s.phase t = .running) :
    Owned ({ s with mtx := 0 }.setGuard t g (some ⟨true⟩)) none := by
  refine ⟨rfl,fun u g' => ?_,fun u => ?_⟩
  · rw [holds_setGuard]
    split_ifs with he
    · exact iff_of_false nofun nofun
    · refine iff_of_false (fun hh => ?_) nofun
      exact he (Option.some.inj ((h.holds u g').mp hh)).symm
  · change (s.phase u).Fits none s.data u
    have hold := h.phase u
    cases hp : s.phase u with rw [hp] at hold
    | running => trivial
    | acquiring g' e => exact ⟨hold.1,nofun⟩
    | failed g' e => exact nofun
    | updating g' f copy =>
      cases hold.1
      cases hp.symm.trans ht

omit [DecidableEq G] in
/-- The owner writes what it has made of the value that it read. -/
theorem write (h : Owned s o) {f : D → D} {copy : D} (ht : s.phase t = .updating g f copy) :
    copy = s.data ∧ Owned ({ s with data := f copy }.setPhase t .running) o := by
  have hold := h.phase t
  rw [ht] at hold
  obtain ⟨ho,hcopy⟩ := hold
  refine ⟨hcopy,h.mtx,h.holds,fun u => ?_⟩
  change (Function.update s.phase t .running u).Fits o (f copy) u
  by_cases hu : u = t
  · subst hu
    rw [Function.update_self]
    trivial
  · have hother := h.phase u
    rw [Function.update_of_ne hu]
    cases hp : s.phase u with rw [hp] at hother
    | running => trivial
    | acquiring g' e => exact hother
    | failed g' e => exact hother
    | updating g' f' copy' => exact absurd (Prod.mk.inj (Option.some.inj (hother.1.symm.trans ho))).1 hu

/-- What one step of `acquireAtomicLock` does, in either variant: it takes the free lock, or goes
on with the loop. -/
theorem spin (h : Owned s o) {c : Compiler} {s' : State T G D} (hs : s.spin c t = some s') :
    (∃ g e, s.phase t = .acquiring g e ∧ o = none ∧ s' = { s with mtx := 1 }.locked t g) ∨
      ∃ g p, (s.phase t).spinsOn = some g ∧ o ≠ some (t,g) ∧ p.spinsOn = some g ∧
        p.Fits o s.data t ∧ s' = s.setPhase t p := by
  have hfits := h.phase t
  rw [State.spin] at hs
  split at hs
  · rename_i g e hp
    rw [hp] at hfits
    obtain ⟨rfl,hne⟩ := hfits
    by_cases ho : o = none
    · subst ho
      have hmtx : s.mtx = 0 := h.mtx
      refine .inl ⟨g,0,hp,rfl,?_⟩
      cases c <;> simp only [compareExchange, hmtx, if_true] at hs <;> exact (Option.some.inj hs).symm
    · have hmtx : s.mtx = 1 := h.mtx.trans (if_neg ho)
      have hsame : ({ s with mtx := 1 } : State T G D) = s := by rw [← hmtx]
      have hlocked : ¬(1 : UInt8) = 0 := by decide
      right
      cases c with
      | builtin =>
        simp only [compareExchange, hmtx, if_neg hlocked, hsame, Option.some.injEq] at hs
        exact ⟨g,.failed g 1,by rw [hp]; rfl,hne,rfl,hne,hs.symm⟩
      | msvc =>
        simp only [compareExchange, hmtx, if_neg hlocked, hsame, Option.some.injEq] at hs
        refine ⟨g,.acquiring g 0,by rw [hp]; rfl,hne,rfl,⟨rfl,hne⟩,?_⟩
        rw [State.setPhase, ← hp, Function.update_eq_self]
        exact hs.symm
  · rename_i g e hp
    rw [hp] at hfits
    cases hs
    exact .inr ⟨g,.acquiring g 0,by rw [hp]; rfl,hfits,rfl,⟨rfl,hfits⟩,rfl⟩
  · cases hs

end Owned

omit [DecidableEq T] [DecidableEq G] in
theorem owned_init (data : D) : Owned (init data : State T G D) none where
  mtx := rfl
  holds _ _ := iff_of_false nofun nofun
  phase _ := trivial

/-- What a step can do to a lock with the owner `o`: the owner afterwards, and the events. -/
inductive Effect (s : State T G D) (o : Option (T × G)) :
    State T G D → Option (T × G) → List (Monitor.Event (T × G) D) → Prop
  | wait {t : T} {g : G} {p : Phase G D} (hs : (s.phase t).spinsOn = some g)
      (hp : p.spinsOn = some g) : Effect s o (s.setPhase t p) o []
  | acquire {t : T} {g : G} {e : UInt8} (hp : s.phase t = .acquiring g e) (ho : o = none) :
      Effect s o ({ s with mtx := 1 }.locked t g) (some (t,g)) [.acquire (t,g)]
  | run {t : T} {s' : State T G D} (ht : s.phase t = .running) (hdata : s'.data = s.data)
      (hframe : ∀ u, u ≠ t → s'.phase u = s.phase u) : Effect s o s' o []
  | release {t : T} {g : G} {s' : State T G D} (ht : s.phase t = .running) (ho : o = some (t,g))
      (hdata : s'.data = s.data) (hframe : s'.phase = s.phase) :
      Effect s o s' none [.release (t,g)]
  | update {t : T} {g : G} {f : D → D} (hp : s.phase t = .updating g f s.data)
      (ho : o = some (t,g)) :
      Effect s o ({ s with data := f s.data }.setPhase t .running) o [.update (t,g) f]

omit [DecidableEq G] in
lemma setPhase_of_ne (s : State T G D) {t u : T} (h : u ≠ t) (p : Phase G D) :
    (s.setPhase t p).phase u = s.phase u := Function.update_of_ne h ..

/-- The function `unlock` of a guard, which the destructor calls before the guard goes. -/
theorem Owned.unlock {s : State T G D} {o : Option (T × G)} (h : Owned s o) {t : T} {g : G}
    {x : Guard} (ht : s.phase t = .running) (hx : s.guard t g = some x) :
    ∃ o', o' ≠ some (t,g) ∧ Owned (s.unlock t g x) o' ∧
      ∀ s', s'.data = s.data → s'.phase = s.phase →
        Effect s o s' o' (if s.Holds t g then [.release (t,g)] else []) := by
  obtain ⟨_ | _⟩ := x
  · have hholds : s.Holds t g := hx
    obtain rfl := (h.holds t g).mp hholds
    refine ⟨none,nofun,h.release ht,fun s' hdata hphase => ?_⟩
    rw [if_pos hholds]
    exact .release ht rfl hdata hphase
  · have hnot : ¬s.Holds t g := fun hh => by cases hx.symm.trans hh
    refine ⟨o,fun ho => hnot ((h.holds t g).mpr ho),h,fun s' hdata hphase => ?_⟩
    rw [if_neg hnot]
    exact .run ht hdata fun u _ => congrFun hphase u

omit [DecidableEq T] in
lemma unlock_keeps [DecidableEq T] (s : State T G D) (t : T) (g : G) (x : Guard) :
    (s.unlock t g x).data = s.data ∧ (s.unlock t g x).phase = s.phase := by
  obtain ⟨_ | _⟩ := x <;> exact ⟨rfl,rfl⟩

/-- Every step keeps the invariant, and does one of these things. -/
theorem step_effect {c : Compiler} {s s' : State T G D} {a : Action T G D} {o : Option (T × G)}
    (h : Owned s o) (hs : (machine c).step s a = some s') :
    ∃ o', Owned s' o' ∧ Effect s o s' o' (events s a s') := by
  cases a with
  | spin t =>
    obtain ⟨g,e,hp,rfl,rfl⟩ | ⟨g,p,hspin,hne,hp,hfits,rfl⟩ := h.spin hs
    · have hown : Owned ({ s with mtx := 1 }.locked t g) (some (t,g)) := h.acquire
      refine ⟨some (t,g),hown,?_⟩
      simp only [events, hp, if_pos ((hown.holds t g).mpr rfl)]
      exact .acquire hp rfl
    · refine ⟨o,h.setPhase hfits,?_⟩
      have hnone : events s (.spin t) (s.setPhase t p) = [] := by
        simp only [events]
        split
        · rename_i g' e hp'
          rw [hp'] at hspin
          cases hspin
          exact if_neg fun hh => hne ((h.holds t g).mp hh)
        · rfl
      rw [hnone]
      exact .wait hspin hp
  | construct t g =>
    simp only [machine, step] at hs
    split at hs <;> cases hs
    rename_i hp hg
    refine ⟨o,h.setPhase ⟨rfl,fun ho => ?_⟩,.run hp rfl fun u hu => setPhase_of_ne s hu _⟩
    cases hg.symm.trans ((h.holds t g).mpr ho)
  | unlock t g =>
    simp only [machine, step] at hs
    split at hs <;> cases hs
    rename_i x hp hg
    obtain ⟨o',-,hown,heffect⟩ := h.unlock hp hg
    obtain ⟨hdata,hphase⟩ := unlock_keeps s t g x
    exact ⟨o',hown,heffect _ hdata hphase⟩
  | relock t g =>
    simp only [machine, step] at hs
    split at hs <;> cases hs
    rename_i x hp hg
    obtain ⟨_ | _⟩ := x
    · exact ⟨o,h,.run hp rfl fun _ _ => rfl⟩
    · refine ⟨o,h.setPhase ⟨rfl,fun ho => ?_⟩,.run hp rfl fun u hu => setPhase_of_ne s hu _⟩
      cases hg.symm.trans ((h.holds t g).mpr ho)
  | destroy t g =>
    simp only [machine, step] at hs
    split at hs <;> cases hs
    rename_i x hp hg
    obtain ⟨o',hne,hown,heffect⟩ := h.unlock hp hg
    obtain ⟨hdata,hphase⟩ := unlock_keeps s t g x
    exact ⟨o',hown.setGuard hne nofun,heffect _ hdata hphase⟩
  | read t g f =>
    simp only [machine, step] at hs
    split at hs <;> cases hs
    rename_i hp hg
    exact ⟨o,h.setPhase ⟨(h.holds t g).mp hg,rfl⟩,.run hp rfl fun u hu => setPhase_of_ne s hu _⟩
  | write t =>
    simp only [machine, step] at hs
    split at hs <;> cases hs
    rename_i g f copy hp
    have hfits := h.phase t
    rw [hp] at hfits
    obtain ⟨rfl,hown⟩ := h.write hp
    refine ⟨o,hown,?_⟩
    simp only [events, hp]
    exact .update hp hfits.1

/-- The lock seen as a monitor. -/
def AsMonitor (s : State T G D) (m : Monitor.State (T × G) D) : Prop :=
  Owned s m.owner ∧ m.data = s.data

/-- Every step is one of the monitor's, or none. -/
theorem simulates_monitor (c : Compiler) :
    Monitor.machine.Simulates (machine c : Machine (State T G D) _) AsMonitor events where
  step := by
    rintro s s' a ⟨o,d⟩ ⟨h,rfl⟩ hs
    obtain ⟨o',hown,heffect⟩ := step_effect h hs
    refine ⟨⟨o',s'.data⟩,?_,hown,rfl⟩
    generalize events s a s' = es at heffect
    cases heffect with
    | wait => rfl
    | acquire hp ho =>
      cases ho
      exact Monitor.run_acquire _ s.data
    | run ht hdata hframe =>
      rw [hdata]
      rfl
    | release ht ho hdata hframe =>
      cases ho
      rw [hdata]
      exact Monitor.run_release _ s.data
    | update hp ho =>
      cases ho
      exact Monitor.run_update _ s.data _

/-- At most one guard is locked, the byte says whether one is, and what a thread has read through
its guard is what the data still is when it writes. -/
structure Exclusive (s : State T G D) : Prop where
  unique : ∀ t g u g', s.Holds t g → s.Holds u g' → t = u ∧ g = g'
  locked : s.mtx = 1 ↔ ∃ t g, s.Holds t g
  free : s.mtx = 0 ↔ ∀ t g, ¬s.Holds t g
  update : ∀ t g f copy, s.phase t = .updating g f copy → s.Holds t g ∧ copy = s.data

omit [DecidableEq T] [DecidableEq G] in
theorem Owned.exclusive {s : State T G D} {o : Option (T × G)} (h : Owned s o) : Exclusive s where
  unique t g u g' ht hu := by
    have he := ((h.holds t g).mp ht).symm.trans ((h.holds u g').mp hu)
    exact Prod.mk.inj (Option.some.inj he)
  locked := by
    cases o with
    | none =>
      rw [h.mtx, if_pos rfl]
      refine iff_of_false (by decide) ?_
      rintro ⟨t,g,hh⟩
      cases (h.holds t g).mp hh
    | some x => exact iff_of_true h.mtx ⟨x.1,x.2,(h.holds x.1 x.2).mpr rfl⟩
  free := by
    cases o with
    | none =>
      refine iff_of_true h.mtx fun t g hh => ?_
      cases (h.holds t g).mp hh
    | some x =>
      rw [h.mtx, if_neg (Option.some_ne_none x)]
      exact iff_of_false (by decide) fun hn => hn x.1 x.2 ((h.holds x.1 x.2).mpr rfl)
  update t g f copy hp := by
    have hfits := h.phase t
    rw [hp] at hfits
    exact ⟨(h.holds t g).mpr hfits.1,hfits.2⟩

theorem owned_of_reaches {c : Compiler} {data : D} {s : State T G D}
    (h : (machine c).Reaches (fun _ _ => True) (init data) s) : ∃ o, Owned s o := by
  refine h.invariant (fun s => ∃ o, Owned s o) ⟨none,owned_init data⟩ ?_
  rintro u a v ⟨o,hu⟩ - hs
  obtain ⟨m,-,hm,-⟩ := (simulates_monitor c).step (x := ⟨o,u.data⟩) ⟨hu,rfl⟩ hs
  exact ⟨m.owner,hm⟩

/-- Mutual exclusion, in whatever order the threads run. -/
theorem reaches_exclusive (c : Compiler) (data : D) (s : State T G D)
    (h : (machine c).Reaches (fun _ _ => True) (init data) s) : Exclusive s := by
  obtain ⟨o,ho⟩ := owned_of_reaches h
  exact ho.exclusive

/-- Two threads that add one, the second of which has to wait. -/
def increments : List (Action Bool Unit ℕ) :=
  [.construct true (),.spin true,.construct false (),.spin false,.read true () (· + 1),.write true,
    .unlock true (),.spin false,.spin false,.read false () (· + 1)]

theorem reaches_exclusive_increments :
    ∃ s, (machine .builtin).run (init 0) increments = some s ∧ s.mtx = 1 ∧ Exclusive s := by
  have hrun : ((machine .builtin).run (init 0) increments).map State.mtx = some 1 := by decide
  obtain ⟨s,hs,hmtx⟩ := Option.map_eq_some_iff.mp hrun
  exact ⟨s,hs,hmtx,reaches_exclusive .builtin 0 s (Machine.reaches_of_run hs)⟩

/-- The history of a run is a series of critical sections, and no update of theirs is lost. -/
theorem run_serial (c : Compiler) (data : D) (as : List (Action T G D)) (s : State T G D)
    (h : (machine c).run (init data) as = some s) :
    ∃ o, Monitor.Serial o ((machine c).history events (init data) as) ∧
      s.data = ((machine c).history events (init data) as).foldl Monitor.Event.apply data ∧
      ∀ t g, s.Holds t g ↔ o = some (t,g) := by
  have hinit : AsMonitor (init data : State T G D) ⟨none,data⟩ := ⟨owned_init data,rfl⟩
  obtain ⟨m,hm,hown,hdata⟩ := (simulates_monitor c).run hinit h
  have hserial := Monitor.serial_run (.free []) hm
  exact ⟨m.owner,hserial,hdata ▸ Monitor.run_data hm,hown.holds⟩

theorem run_serial_increments :
    ∃ s, (machine .builtin).run (init 0) (increments ++ [.write false]) = some s ∧ s.data = 2 ∧
      ∃ o, Monitor.Serial o
        ((machine .builtin).history events (init 0) (increments ++ [.write false])) := by
  have hrun : ((machine .builtin).run (init 0) (increments ++ [.write false])).map State.data =
    some 2 := by decide
  obtain ⟨s,hs,hdata⟩ := Option.map_eq_some_iff.mp hrun
  obtain ⟨o,hserial,-⟩ := run_serial .builtin 0 _ s hs
  exact ⟨s,hs,hdata,o,hserial⟩

/-- As long as the owner waits for its own lock, nothing changes that. -/
theorem Effect.stuck {s s' : State T G D} {o' : Option (T × G)} {es : List (Monitor.Event (T × G) D)}
    {u : T} {g : G} (h : Effect s (some (u,g)) s' o' es) (hu : (s.phase u).spinsOn ≠ none) :
    o' = some (u,g) ∧ (s'.phase u).spinsOn ≠ none := by
  have hbusy : ∀ t p, s.phase t = p → p.spinsOn = none → u ≠ t := by
    rintro t p rfl hp rfl
    exact hu hp
  cases h with
  | @wait t g' p hs hp =>
    refine ⟨rfl,?_⟩
    by_cases hut : u = t
    · subst hut
      have hself : (s.setPhase u p).phase u = p := Function.update_self ..
      rw [hself, hp]
      exact Option.some_ne_none g'
    · rw [setPhase_of_ne s hut]
      exact hu
  | acquire hp ho => cases ho
  | run ht hdata hframe =>
    rw [hframe u (hbusy _ _ ht rfl)]
    exact ⟨rfl,hu⟩
  | release ht ho hdata hframe =>
    cases ho
    exact absurd rfl (hbusy _ _ ht rfl)
  | update hp ho =>
    cases ho
    exact absurd rfl (hbusy _ _ hp rfl)

theorem run_stuck {c : Compiler} {s s' : State T G D} {as : List (Action T G D)} {u : T} {g : G}
    (h : Owned s (some (u,g))) (hu : (s.phase u).spinsOn ≠ none)
    (hs : (machine c).run s as = some s') : Owned s' (some (u,g)) := by
  have hstuck := (Machine.reaches_of_run hs).invariant
    (fun s => Owned s (some (u,g)) ∧ (s.phase u).spinsOn ≠ none) ⟨h,hu⟩ fun v a w hv _ hw => by
      obtain ⟨o',hown,heffect⟩ := step_effect hv.1 hw
      obtain ⟨rfl,hspin⟩ := heffect.stuck hv.2
      exact ⟨hown,hspin⟩
  exact hstuck.1

/-- A thread that waits for the free lock gets it, if need be after the rest of an iteration. -/
theorem Owned.obtains {s : State T G D} (h : Owned s none) (c : Compiler) {t : T} {g : G}
    (ht : (s.phase t).spinsOn = some g) :
    ∃ as s', (machine c).run s as = some s' ∧ s'.Holds t g := by
  have htake : ∀ s : State T G D, Owned s none → ∀ e, s.phase t = .acquiring g e →
      ∃ s', (machine c).step s (.spin t) = some s' ∧ s'.Holds t g := by
    intro s h e hp
    have hfits := h.phase t
    rw [hp] at hfits
    obtain ⟨rfl,-⟩ := hfits
    have hmtx : s.mtx = 0 := h.mtx
    refine ⟨{ s with mtx := 1 }.locked t g,?_,(h.acquire.holds t g).mpr rfl⟩
    cases c <;> simp only [machine, step, State.spin, hp, compareExchange, hmtx, if_true]
  cases hp : s.phase t with rw [hp] at ht
  | running | updating => cases ht
  | acquiring g' e =>
    cases ht
    obtain ⟨s',hs,hholds⟩ := htake s h e hp
    exact ⟨[.spin t],s',by rw [Machine.run_cons, hs]; rfl,hholds⟩
  | failed g' e =>
    cases ht
    have hreset : (machine c).step s (.spin t) = some (s.setPhase t (.acquiring g 0)) := by
      simp only [machine, step, State.spin, hp]
    have hself : (s.setPhase t (.acquiring g 0)).phase t = .acquiring g 0 := Function.update_self ..
    have hfits : (Phase.acquiring g 0 : Phase G D).Fits none s.data t := ⟨rfl,nofun⟩
    obtain ⟨s',hs,hholds⟩ := htake _ (h.setPhase hfits) 0 hself
    refine ⟨[.spin t,.spin t],s',?_,hholds⟩
    rw [Machine.run_cons, hreset, Option.bind_some, Machine.run_cons, hs]
    rfl

/-- The owner finishes its update, unlocks its guard, and nobody else does anything. -/
theorem Owned.gives {s : State T G D} {u : T} {g : G} (h : Owned s (some (u,g))) (c : Compiler)
    (hu : (s.phase u).spinsOn = none) :
    ∃ as s', (machine c).run s as = some s' ∧ Owned s' none ∧
      ∀ t, t ≠ u → s'.phase t = s.phase t := by
  have hgive : ∀ s : State T G D, Owned s (some (u,g)) → s.phase u = .running →
      ∃ s', (machine c).step s (.unlock u g) = some s' ∧ Owned s' none ∧ s'.phase = s.phase := by
    intro s h hp
    have hguard : s.guard u g = some ⟨false⟩ := (h.holds u g).mpr rfl
    refine ⟨{ s with mtx := 0 }.setGuard u g (some ⟨true⟩),?_,h.release hp,rfl⟩
    simp [machine, step, hp, hguard, State.unlock]
  cases hp : s.phase u with rw [hp] at hu
  | acquiring | failed => cases hu
  | running =>
    obtain ⟨s',hs,hown,hphase⟩ := hgive s h hp
    exact ⟨[.unlock u g],s',by rw [Machine.run_cons, hs]; rfl,hown,fun t _ => congrFun hphase t⟩
  | updating g' f copy =>
    obtain ⟨-,hown⟩ := h.write hp
    have hwrite : (machine c).step s (.write u) =
        some ({ s with data := f copy }.setPhase u .running) := by
      simp only [machine, step, hp]
    have hself : ({ s with data := f copy }.setPhase u .running).phase u = .running :=
      Function.update_self ..
    obtain ⟨s',hs,hfree,hphase⟩ := hgive _ hown hself
    refine ⟨[.write u,.unlock u g],s',?_,hfree,fun t htu => ?_⟩
    · rw [Machine.run_cons, hwrite, Option.bind_some, Machine.run_cons, hs]
      rfl
    · rw [hphase, setPhase_of_ne _ htu]

/-- A thread that waits for the lock can still get it exactly when the lock is free or its owner
is not waiting for it as well. -/
theorem obtains_iff (c : Compiler) (data : D) (s : State T G D)
    (h : (machine c).Reaches (fun _ _ => True) (init data) s) (t : T) (g : G)
    (ht : (s.phase t).spinsOn = some g) :
    (∃ as s', (machine c).run s as = some s' ∧ s'.Holds t g) ↔
      ∀ u g', s.Holds u g' → (s.phase u).spinsOn = none := by
  obtain ⟨o,ho⟩ := owned_of_reaches h
  constructor
  · rintro ⟨as,s',hs,hholds⟩ u g' hu
    obtain rfl := (ho.holds u g').mp hu
    by_contra hspin
    have hsame := (run_stuck ho hspin hs).holds t g
    -- the owner's lock is not the one that t waits for with this guard
    have hfits := ho.phase t
    obtain ⟨rfl,rfl⟩ := Prod.mk.inj (Option.some.inj (hsame.mp hholds))
    cases hp : s.phase u with rw [hp] at hfits ht
    | running | updating => cases ht
    | acquiring g'' e =>
      cases ht
      exact hfits.2 rfl
    | failed g'' e =>
      cases ht
      exact hfits rfl
  · intro hidle
    match o with
    | none => exact ho.obtains c ht
    | some (u,g') =>
      have hu := hidle u g' ((ho.holds u g').mpr rfl)
      have htu : t ≠ u := by
        rintro rfl
        rw [hu] at ht
        cases ht
      obtain ⟨as,s₁,h₁,hfree,hphase⟩ := ho.gives c hu
      obtain ⟨bs,s₂,h₂,hholds⟩ := hfree.obtains c ((congrArg Phase.spinsOn (hphase t htu)).trans ht)
      refine ⟨as ++ bs,s₂,?_,hholds⟩
      rw [Machine.run_append, h₁]
      exact h₂

/-- A thread that takes a second guard of the lock that it holds waits in vain. -/
theorem obtains_iff_nested :
    ∃ s : State (Fin 1) (Fin 2) Unit, (machine .msvc).run (init ())
      [.construct 0 0,.spin 0,.construct 0 1,.spin 0] = some s ∧
      ¬∃ as s', (machine .msvc).run s as = some s' ∧ s'.Holds 0 1 := by
  have hrun : ((machine .msvc).run (init ()) [.construct 0 0,.spin 0,.construct 0 1,.spin 0]).map
      (fun s : State (Fin 1) (Fin 2) Unit => ((s.phase 0).spinsOn,s.guard 0 0)) =
        some (some 1,some ⟨false⟩) := by decide
  obtain ⟨s,hs,hv⟩ := Option.map_eq_some_iff.mp hrun
  obtain ⟨hspin,hguard⟩ := Prod.mk.inj hv
  refine ⟨s,hs,fun hget => ?_⟩
  have hidle := (obtains_iff .msvc () s (Machine.reaches_of_run hs) 0 1 hspin).mp hget
  cases (hidle 0 0 hguard).symm.trans hspin

end Asp.SpinLock
