import Asp.Foundation.Monitor
import Mathlib.Data.Finset.Card
import Mathlib.Data.Nat.Notation
import Mathlib.Logic.Function.Basic

/-! One `asp::Mutex` and its data between any number of threads, each with guards of its own that
it locks, moves and unlocks in any order. With `r` it is the recursive mutex, which the thread that
owns it locks again without waiting. -/
namespace Asp.Mutex.Threads
open Foundation

/-- `mtx` says whether the pointer of a guard is not null. -/
structure Guard where
  mtx : Bool
  locked : Bool
  deriving DecidableEq

/-- `owner` and `count` are those of `m_mtx`. A thread of `update` has read the data and will
write. `misuse` records an unlock by a thread that does not own the mutex. -/
structure State (T G D : Type*) where
  owner : Option T
  count : ℕ
  m_data : D
  guard : T → G → Option Guard
  update : T → Option ((D → D) × D)
  misuse : Bool

inductive Action (T G D : Type*)
  | lock (t : T) (g : G)
  | moveConstruct (t : T) (g other : G)
  | moveAssign (t : T) (g other : G)
  | unlock (t : T) (g : G)
  | relock (t : T) (g : G)
  | destroy (t : T) (g : G)
  | read (t : T) (g : G) (f : D → D)
  | write (t : T)

variable {T G D : Type*} [DecidableEq T] [DecidableEq G]

namespace State

def setGuard (s : State T G D) (t : T) (g : G) (x : Option Guard) : State T G D :=
  { s with guard := Function.update s.guard t (Function.update (s.guard t) g x) }

/-- `m_mtx.unlock()` -/
def release (s : State T G D) (t : T) : State T G D :=
  { s with
    owner := if s.count = 1 then none else s.owner
    count := s.count - 1
    misuse := s.misuse || decide (s.owner ≠ some t) }

def unlock (s : State T G D) (t : T) (g : G) (x : Guard) : State T G D :=
  if ¬x.locked then s else (s.release t).setGuard t g (some ⟨x.mtx,false⟩)

/-- `relock()`; `none` where the lock blocks, and where the pointer is null. -/
def relock (r : Bool) (s : State T G D) (t : T) (g : G) (x : Guard) : Option (State T G D) :=
  if x.locked then some s else
    guarded (x.mtx = true ∧ (s.owner = none ∨ r = true ∧ s.owner = some t))
      { s.setGuard t g (some ⟨x.mtx,true⟩) with owner := some t, count := s.count + 1 }

def moveAssign (s : State T G D) (t : T) (g other : G) (y : Guard) : State T G D :=
  if g = other then s else (s.setGuard t g (some y)).setGuard t other (some ⟨false,false⟩)

end State

/-- A thread that is between its read and its write does nothing else. -/
def step (r : Bool) (s : State T G D) : Action T G D → Option (State T G D)
  | .lock t g =>
    match s.update t, s.guard t g with
    | none, none => (s.setGuard t g (some ⟨true,false⟩)).relock r t g ⟨true,false⟩
    | _, _ => none
  | .moveConstruct t g other =>
    match s.update t, s.guard t g, s.guard t other with
    | none, none, some y => some (s.moveAssign t g other y)
    | _, _, _ => none
  | .moveAssign t g other =>
    match s.update t, s.guard t g, s.guard t other with
    | none, some _, some y => some (s.moveAssign t g other y)
    | _, _, _ => none
  | .unlock t g =>
    match s.update t, s.guard t g with
    | none, some x => some (s.unlock t g x)
    | _, _ => none
  | .relock t g =>
    match s.update t, s.guard t g with
    | none, some x => s.relock r t g x
    | _, _ => none
  | .destroy t g =>
    match s.update t, s.guard t g with
    | none, some x => some ((s.unlock t g x).setGuard t g none)
    | _, _ => none
  | .read t g f =>
    match s.update t, s.guard t g with
    | none, some ⟨_,true⟩ => some { s with update := Function.update s.update t (some (f,s.m_data)) }
    | _, _ => none
  | .write t =>
    match s.update t with
    | some (f,copy) => some { s with
        m_data := f copy, update := Function.update s.update t none }
    | none => none

/-- No guard that holds a lock is assigned to. -/
def AssignGuard (s : State T G D) : Action T G D → Prop
  | .moveAssign t g other => g = other ∨ (s.guard t g).any Guard.locked = false
  | _ => True

instance (s : State T G D) : ∀ a, Decidable (AssignGuard s a)
  | .moveAssign _ _ _ => inferInstanceAs (Decidable (_ ∨ _))
  | .lock _ _ | .moveConstruct _ _ _ | .unlock _ _ | .relock _ _ | .destroy _ _ | .read _ _ _
  | .write _ => .isTrue trivial

def machine (r : Bool) : Machine (State T G D) (Action T G D) :=
  Machine.restrict ⟨step r⟩ AssignGuard

def init (data : D) : State T G D := ⟨none,0,data,fun _ _ => none,fun _ => none,false⟩

/-- The guard `g` of thread `t` is locked. -/
def State.Locked (s : State T G D) (t : T) (g : G) : Prop :=
  (s.guard t g).any Guard.locked = true

/-- The guards that are locked are those of `F`, all of them of the owner. -/
structure Owned (s : State T G D) (F : Finset G) : Prop where
  locked : ∀ t g, s.Locked t g ↔ s.owner = some t ∧ g ∈ F
  count : s.count = F.card
  free : s.owner = none ↔ F = ∅
  mtx : ∀ t g x, s.guard t g = some x → x.locked = true → x.mtx = true
  update : ∀ t f copy, s.update t = some (f,copy) → s.owner = some t ∧ copy = s.m_data
  misuse : s.misuse = false

namespace State
variable (s : State T G D) {t u : T} {g g' : G} (x : Option Guard)

theorem setGuard_self : (s.setGuard t g x).guard t g = x := by
  change Function.update s.guard t (Function.update (s.guard t) g x) t g = x
  rw [Function.update_self, Function.update_self]

theorem setGuard_of_ne (h : (u,g') ≠ (t,g)) : (s.setGuard t g x).guard u g' = s.guard u g' := by
  change Function.update s.guard t (Function.update (s.guard t) g x) u g' = _
  by_cases hu : u = t
  · subst hu
    have hg : g' ≠ g := fun hg => h (congrArg (Prod.mk u) hg)
    rw [Function.update_self, Function.update_of_ne hg]
  · rw [Function.update_of_ne hu]

theorem locked_setGuard : (s.setGuard t g x).Locked u g' ↔
    if (u,g') = (t,g) then x.any Guard.locked = true else s.Locked u g' := by
  unfold Locked
  split_ifs with h
  · obtain ⟨rfl,rfl⟩ := Prod.mk.inj h
    rw [setGuard_self]
  · rw [setGuard_of_ne s x h]

theorem mtx_setGuard {s : State T G D} {x : Option Guard}
    (h : ∀ t g y, s.guard t g = some y → y.locked = true → y.mtx = true)
    (hx : ∀ y, x = some y → y.locked = true → y.mtx = true) (u : T) (g' : G) (y : Guard)
    (hy : (s.setGuard t g x).guard u g' = some y) (hl : y.locked = true) : y.mtx = true := by
  by_cases hne : (u,g') = (t,g)
  · obtain ⟨rfl,rfl⟩ := Prod.mk.inj hne
    rw [setGuard_self] at hy
    exact hx y hy hl
  · rw [setGuard_of_ne s x hne] at hy
    exact h u g' y hy hl

end State

namespace Owned
variable {s s' : State T G D} {F : Finset G} {t : T} {g other : G} {x y : Guard}

omit [DecidableEq T] [DecidableEq G] in
theorem init (data : D) : Owned (init data : State T G D) ∅ where
  locked _ _ := iff_of_false nofun nofun
  count := rfl
  free := iff_of_true rfl rfl
  mtx := nofun
  update := nofun
  misuse := rfl

omit [DecidableEq T] [DecidableEq G] in
theorem locked_iff (h : Owned s F) (hg : s.guard t g = some x) :
    x.locked = true ↔ s.owner = some t ∧ g ∈ F := by
  rw [← h.locked, State.Locked, hg, Option.any_some]

/-- A guard that is not locked may change or go. -/
theorem setGuard (h : Owned s F) {x : Option Guard} (hg : ¬s.Locked t g)
    (hx : x.any Guard.locked = false) : Owned (s.setGuard t g x) F := by
  refine ⟨fun u g' => ?_,h.count,h.free,State.mtx_setGuard h.mtx fun y hy hl => ?_,h.update,
    h.misuse⟩
  · change _ ↔ s.owner = some u ∧ g' ∈ F
    rw [State.locked_setGuard]
    split_ifs with he
    · obtain ⟨rfl,rfl⟩ := Prod.mk.inj he
      rw [hx, ← h.locked]
      exact iff_of_false nofun hg
    · exact h.locked u g'
  · rw [hy, Option.any_some, hl] at hx
    cases hx

/-- A thread locks the mutex for one of its guards, if nobody or itself owns it. -/
theorem acquire (h : Owned s F) (hg : ¬s.Locked t g) (ho : s.owner = none ∨ s.owner = some t)
    (hmtx : x.mtx = true) :
    Owned { s.setGuard t g (some ⟨x.mtx,true⟩) with owner := some t, count := s.count + 1 }
      (insert g F) := by
  have hmem : g ∉ F := by
    intro hg'
    obtain ho | ho := ho
    · rw [h.free.mp ho] at hg'
      cases hg'
    · exact hg ((h.locked t g).mpr ⟨ho,hg'⟩)
  -- whoever has a locked guard is this thread
  have hown : ∀ u g', s.owner = some u ∧ g' ∈ F ↔ u = t ∧ g' ∈ F := by
    intro u g'
    obtain ho | ho := ho
    · rw [h.free.mp ho]
      exact iff_of_false nofun nofun
    · rw [ho, Option.some.injEq, eq_comm]
  refine ⟨fun u g' => ?_,?_,?_,State.mtx_setGuard h.mtx ?_,fun u f copy hu => ?_,h.misuse⟩
  · change (s.setGuard t g (some ⟨x.mtx,true⟩)).Locked u g' ↔ some t = some u ∧ _
    rw [State.locked_setGuard, Option.some.injEq, Finset.mem_insert]
    split_ifs with he
    · obtain ⟨rfl,rfl⟩ := Prod.mk.inj he
      exact iff_of_true rfl ⟨rfl,.inl rfl⟩
    · rw [h.locked, hown, eq_comm (a := t)]
      refine and_congr_right fun hu => (or_iff_right fun hg' => he ?_).symm
      rw [hu, hg']
  · rw [Finset.card_insert_of_notMem hmem, ← h.count]
  · exact iff_of_false nofun (Finset.insert_ne_empty g F)
  · rintro y ⟨⟩ -
    exact hmtx
  · obtain ⟨hu,hcopy⟩ := h.update u f copy hu
    obtain ho | ho := ho
    · cases ho.symm.trans hu
    · exact ⟨ho.symm.trans hu,hcopy⟩

/-- The owner unlocks one of its guards, and the mutex with the last of them. -/
theorem release (h : Owned s F) (hx : s.guard t g = some x) (hl : x.locked = true)
    (ht : s.update t = none) : Owned ((s.release t).setGuard t g (some ⟨x.mtx,false⟩)) (F.erase g) := by
  obtain ⟨ho,hg⟩ := (h.locked_iff hx).mp hl
  have hlast : s.count = 1 ↔ F.erase g = ∅ := by
    rw [h.count, ← Finset.card_eq_zero, Finset.card_erase_of_mem hg]
    have hpos := Finset.card_pos.mpr ⟨g,hg⟩
    omega
  have howner : (s.release t).owner = if s.count = 1 then none else some t := by
    rw [← ho]
    rfl
  refine ⟨fun u g' => ?_,?_,?_,State.mtx_setGuard h.mtx ?_,fun u f copy hu => ?_,?_⟩
  · change _ ↔ (s.release t).owner = some u ∧ _
    rw [State.locked_setGuard, Finset.mem_erase, howner]
    split_ifs with he hone hone
    · exact iff_of_false nofun nofun
    · obtain ⟨-,rfl⟩ := Prod.mk.inj he
      exact iff_of_false nofun fun hh => hh.2.1 rfl
    · refine iff_of_false (fun hh => ?_) nofun
      obtain ⟨hu,hg'⟩ := (h.locked u g').mp hh
      have hne : g' ≠ g := by
        rintro rfl
        exact he (by rw [Option.some.inj (ho.symm.trans hu)])
      have hmem := Finset.mem_erase.mpr ⟨hne,hg'⟩
      rw [hlast.mp hone] at hmem
      cases hmem
    · change s.Locked u g' ↔ _
      rw [h.locked, ho]
      refine and_congr_right fun hu => ⟨fun hg' => ⟨?_,hg'⟩,And.right⟩
      rintro rfl
      exact he (by rw [Option.some.inj hu])
  · exact (congrArg (· - 1) h.count).trans (Finset.card_erase_of_mem hg).symm
  · change (s.release t).owner = none ↔ _
    rw [howner, ← hlast]
    split_ifs with hone
    · exact iff_of_true rfl hone
    · exact iff_of_false nofun hone
  · rintro y ⟨⟩ hy
    cases hy
  · obtain ⟨hu',-⟩ := h.update u f copy hu
    obtain rfl := Option.some.inj (ho.symm.trans hu')
    cases ht.symm.trans hu
  · change (s.misuse || decide (s.owner ≠ some t)) = false
    rw [h.misuse, ho]
    simp

theorem unlock (h : Owned s F) (hx : s.guard t g = some x) (ht : s.update t = none) :
    (∃ F, Owned (s.unlock t g x) F) ∧ ¬(s.unlock t g x).Locked t g := by
  unfold State.unlock
  split_ifs with hl
  · refine ⟨⟨_,h.release hx hl ht⟩,?_⟩
    rw [State.locked_setGuard, if_pos rfl]
    exact nofun
  · refine ⟨⟨F,h⟩,?_⟩
    rwa [State.Locked, hx]

theorem relock {r : Bool} (h : Owned s F) (hx : s.guard t g = some x)
    (hs : s.relock r t g x = some s') : ∃ F, Owned s' F := by
  unfold State.relock at hs
  split_ifs at hs with hl
  · cases hs
    exact ⟨F,h⟩
  · obtain ⟨⟨hmtx,ho⟩,rfl⟩ := guarded_eq_some.mp hs
    have hg : ¬s.Locked t g := by rwa [State.Locked, hx]
    exact ⟨_,h.acquire hg (ho.imp_right And.right) hmtx⟩

/-- A lock goes from one guard of a thread to another that holds nothing. -/
theorem transfer (h : Owned s F) (hne : g ≠ other) (hg : ¬s.Locked t g)
    (hy : s.guard t other = some y) :
    ∃ F, Owned ((s.setGuard t g (some y)).setGuard t other (some ⟨false,false⟩)) F := by
  have hlocked : ∀ u g', ((s.setGuard t g (some y)).setGuard t other (some ⟨false,false⟩)).Locked
      u g' ↔ if (u,g') = (t,other) then False
        else if (u,g') = (t,g) then y.locked = true else s.Locked u g' := by
    intro u g'
    rw [State.locked_setGuard, State.locked_setGuard]
    simp
  have hmtx := State.mtx_setGuard (t := t) (g := other) (x := some ⟨false,false⟩)
    (State.mtx_setGuard (t := t) (g := g) (x := some y) h.mtx fun z hz =>
      h.mtx t other z (hy.trans hz)) (by rintro z ⟨⟩ ⟨⟩)
  cases hl : y.locked with
  | false =>
    have hother : ¬s.Locked t other := by
      rw [State.Locked, hy, Option.any_some, hl]
      exact nofun
    refine ⟨F,fun u g' => ?_,h.count,h.free,hmtx,h.update,h.misuse⟩
    change _ ↔ s.owner = some u ∧ g' ∈ F
    rw [hlocked, ← h.locked]
    split_ifs with ho he
    · obtain ⟨rfl,rfl⟩ := Prod.mk.inj ho
      exact iff_of_false id hother
    · obtain ⟨rfl,rfl⟩ := Prod.mk.inj he
      exact iff_of_false (by rw [hl]; exact nofun) hg
    · rfl
  | true =>
    obtain ⟨ho,hmem⟩ := (h.locked_iff hy).mp hl
    have hnot : g ∉ F := fun hg' => hg ((h.locked t g).mpr ⟨ho,hg'⟩)
    have hcard : (insert g (F.erase other)).card = F.card := by
      rw [Finset.card_insert_of_notMem fun hg' => hnot (Finset.mem_of_mem_erase hg'),
        Finset.card_erase_add_one hmem]
    refine ⟨insert g (F.erase other),fun u g' => ?_,h.count.trans hcard.symm,?_,hmtx,h.update,
      h.misuse⟩
    · change _ ↔ s.owner = some u ∧ _
      rw [hlocked, Finset.mem_insert, Finset.mem_erase]
      split_ifs with he he'
      · obtain ⟨rfl,rfl⟩ := Prod.mk.inj he
        exact iff_of_false id fun hh => hh.2.elim (fun hh => hne hh.symm) fun hh => hh.1 rfl
      · obtain ⟨rfl,rfl⟩ := Prod.mk.inj he'
        exact iff_of_true hl ⟨ho,.inl rfl⟩
      · rw [h.locked, ho]
        refine and_congr_right fun hu => ?_
        obtain rfl := Option.some.inj hu
        have h₁ : g' ≠ other := fun hh => he (by rw [hh])
        have h₂ : g' ≠ g := fun hh => he' (by rw [hh])
        exact ⟨fun hh => .inr ⟨h₁,hh⟩,fun hh => (hh.resolve_left h₂).2⟩
    · change s.owner = none ↔ _
      rw [ho]
      exact iff_of_false nofun (Finset.insert_ne_empty g _)

end Owned

/-- The critical sections that an operation ends or begins. -/
def handover : Option T → Option T → List (Monitor.Event T D)
  | none, some t => [.acquire t]
  | some t, none => [.release t]
  | none, none | some _, some _ => []

/-- What a step does to the mutex and its data, seen from outside of the owner. -/
def events (s : State T G D) (a : Action T G D) (s' : State T G D) : List (Monitor.Event T D) :=
  match a with
  | .write t =>
    match s.update t with
    | some (f,_) => [.update t f]
    | none => []
  | _ => handover s.owner s'.owner

/-- How the owner and the count can change, and what an operation on guards leaves alone. -/
structure Change (r : Bool) (s s' : State T G D) : Prop where
  m_data : s'.m_data = s.m_data
  owner : s'.owner = s.owner ∨ s.owner = none ∨ s'.owner = none
  count : s'.count ≤ s.count ∨ s'.count = s.count + 1 ∧ (s.owner = none ∨ r = true)

section Steps
variable {r : Bool} {s s' : State T G D} {t : T} {g : G} {a : Action T G D}

omit [DecidableEq G] [DecidableEq T] in
theorem Change.refl : Change r s s := ⟨rfl,.inl rfl,.inl le_rfl⟩

theorem change_unlock (x : Guard) : Change r s (s.unlock t g x) := by
  unfold State.unlock
  split_ifs
  · refine ⟨rfl,?_,.inl (Nat.sub_le _ _)⟩
    change (if s.count = 1 then none else s.owner) = _ ∨ _ ∨ (if s.count = 1 then none else _) = _
    split_ifs
    · exact .inr (.inr rfl)
    · exact .inl rfl
  · exact .refl

theorem change_relock {x : Guard} (hs : s.relock r t g x = some s') : Change r s s' := by
  unfold State.relock at hs
  split_ifs at hs
  · cases hs
    exact .refl
  · obtain ⟨⟨-,ho⟩,rfl⟩ := guarded_eq_some.mp hs
    obtain ho | ⟨hr,ho⟩ := ho
    · exact ⟨rfl,.inr (.inl ho),.inr ⟨rfl,.inl ho⟩⟩
    · exact ⟨rfl,.inl ho.symm,.inr ⟨rfl,.inr hr⟩⟩

theorem change_moveAssign (other : G) (y : Guard) : Change r s (s.moveAssign t g other y) := by
  unfold State.moveAssign
  split_ifs
  · exact .refl
  · exact ⟨rfl,.inl rfl,.inl le_rfl⟩

/-- A step is an operation on guards, or the write of a thread that has read the data. -/
theorem step_change (hs : step r s a = some s') :
    events s a s' = handover s.owner s'.owner ∧ Change r s s' ∨
      ∃ t f copy, a = .write t ∧ s.update t = some (f,copy) ∧
      s' = { s with m_data := f copy, update := Function.update s.update t none } := by
  cases a with
  | write t =>
    right
    rw [step] at hs
    split at hs <;> cases hs
    exact ⟨t,_,_,rfl,‹_›,rfl⟩
  | lock t g =>
    rw [step] at hs
    split at hs
    · have h : Change r (s.setGuard t g (some ⟨true,false⟩)) s' := change_relock hs
      exact .inl ⟨rfl,h.m_data,h.owner,h.count⟩
    · cases hs
  | moveConstruct t g other | moveAssign t g other =>
    rw [step] at hs
    split at hs <;> cases hs
    exact .inl ⟨rfl,change_moveAssign other _⟩
  | unlock t g =>
    rw [step] at hs
    split at hs <;> cases hs
    exact .inl ⟨rfl,change_unlock _⟩
  | relock t g =>
    rw [step] at hs
    split at hs
    · exact .inl ⟨rfl,change_relock hs⟩
    · cases hs
  | destroy t g =>
    rw [step] at hs
    split at hs <;> cases hs
    rename_i x _ _
    have h : Change r s (s.unlock t g x) := change_unlock x
    exact .inl ⟨rfl,h.m_data,h.owner,h.count⟩
  | read t g f =>
    rw [step] at hs
    split at hs <;> cases hs
    exact .inl ⟨rfl,rfl,.inl rfl,.inl le_rfl⟩

/-- One operation keeps the invariant, unless it assigns to a guard that holds a lock. -/
theorem step_owned {F : Finset G} (h : Owned s F) (hg : AssignGuard s a)
    (hs : step r s a = some s') : ∃ F, Owned s' F := by
  cases a with
  | lock t g =>
    rw [step] at hs
    split at hs
    · rename_i hnone
      have hidle : ¬s.Locked t g := by
        rw [State.Locked, hnone]
        exact nofun
      exact (h.setGuard hidle rfl).relock (State.setGuard_self s _) hs
    · cases hs
  | moveConstruct t g other =>
    rw [step] at hs
    split at hs <;> cases hs
    rename_i hnone hy
    have hne : g ≠ other := by
      rintro rfl
      cases hnone.symm.trans hy
    rw [State.moveAssign, if_neg hne]
    refine h.transfer hne ?_ hy
    rw [State.Locked, hnone]
    exact nofun
  | moveAssign t g other =>
    rw [step] at hs
    split at hs <;> cases hs
    rename_i hx hy
    rw [State.moveAssign]
    split_ifs with hne
    · exact ⟨F,h⟩
    · refine h.transfer hne ?_ hy
      rw [State.Locked, hg.resolve_left hne]
      exact nofun
  | unlock t g =>
    rw [step] at hs
    split at hs <;> cases hs
    rename_i ht hx
    exact (h.unlock hx ht).1
  | relock t g =>
    rw [step] at hs
    split at hs
    · rename_i hx
      exact h.relock hx hs
    · cases hs
  | destroy t g =>
    rw [step] at hs
    split at hs <;> cases hs
    rename_i ht hx
    obtain ⟨⟨F',h'⟩,hnot⟩ := h.unlock hx ht
    exact ⟨F',h'.setGuard hnot rfl⟩
  | read t g f =>
    rw [step] at hs
    split at hs <;> cases hs
    rename_i hx
    have ho : s.owner = some t := ((h.locked_iff hx).mp rfl).1
    refine ⟨F,h.locked,h.count,h.free,h.mtx,fun u f' copy hu => ?_,h.misuse⟩
    change Function.update s.update t (some (f,s.m_data)) u = _ at hu
    by_cases hut : u = t
    · subst hut
      rw [Function.update_self] at hu
      cases hu
      exact ⟨ho,rfl⟩
    · rw [Function.update_of_ne hut] at hu
      exact h.update u f' copy hu
  | write t =>
    rw [step] at hs
    split at hs <;> cases hs
    rename_i f copy hf
    have ho := (h.update t f copy hf).1
    refine ⟨F,h.locked,h.count,h.free,h.mtx,fun u f' copy' hu => ?_,h.misuse⟩
    change Function.update s.update t none u = _ at hu
    by_cases hut : u = t
    · subst hut
      rw [Function.update_self] at hu
      cases hu
    · rw [Function.update_of_ne hut] at hu
      obtain rfl := Option.some.inj ((h.update u f' copy' hu).1.symm.trans ho)
      exact absurd rfl hut

end Steps

/-- The mutex seen as a monitor: the locks that its owner takes again are not seen. -/
structure AsMonitor (r : Bool) (s : State T G D) (m : Monitor.State T D) : Prop where
  owned : ∃ F, Owned s F
  single : r = false → s.count ≤ 1
  owner : m.owner = s.owner
  data : m.data = s.m_data

omit [DecidableEq G] in
theorem run_handover {o o' : Option T} (h : o' = o ∨ o = none ∨ o' = none) (d : D) :
    Monitor.machine.run ⟨o,d⟩ (handover o o') = some ⟨o',d⟩ := by
  cases o with
  | none =>
    cases o' with
    | none => rfl
    | some t => exact Monitor.run_acquire t d
  | some t =>
    cases o' with
    | none => exact Monitor.run_release t d
    | some u =>
      obtain rfl : u = t := by
        obtain h | h | h := h <;> cases h
        rfl
      rfl

theorem simulates_monitor (r : Bool) :
    Monitor.machine.Simulates (machine r : Machine (State T G D) _) (AsMonitor r) events where
  step := by
    rintro s s' a ⟨o,d⟩ ⟨⟨F,h⟩,hsingle,rfl,rfl⟩ hs
    obtain ⟨hg,hs⟩ := Machine.restrict_step.mp hs
    have howned := step_owned h hg hs
    obtain ⟨hevents,hchange⟩ | ⟨t,f,copy,rfl,hf,rfl⟩ := step_change hs
    · have hcount : r = false → s'.count ≤ 1 := by
        intro hr
        obtain hle | ⟨heq,hfree | hrec⟩ := hchange.count
        · exact le_trans hle (hsingle hr)
        · rw [heq, h.count, h.free.mp hfree]
          rfl
        · cases hr.symm.trans hrec
      rw [hevents]
      exact ⟨⟨s'.owner,s.m_data⟩,run_handover hchange.owner s.m_data,howned,hcount,rfl,
        hchange.m_data.symm⟩
    · obtain ⟨ho,rfl⟩ := h.update t f copy hf
      refine ⟨⟨s.owner,f s.m_data⟩,?_,howned,hsingle,rfl,rfl⟩
      simp only [events, hf]
      rw [ho]
      exact Monitor.run_update t s.m_data f

omit [DecidableEq T] [DecidableEq G] in
theorem asMonitor_init (r : Bool) (data : D) :
    AsMonitor r (init data : State T G D) ⟨none,data⟩ :=
  ⟨⟨∅,.init data⟩,fun _ => Nat.zero_le 1,rfl,rfl⟩

/-- Only one thread has locked guards, as many as it has locked the mutex times, which is at most
once for a mutex that is not recursive. What a thread has read is what it still finds when it
writes. -/
structure Exclusive (r : Bool) (s : State T G D) : Prop where
  owner : ∀ t g, s.Locked t g → s.owner = some t
  held : ∀ t, s.owner = some t → ∃ F : Finset G, F.Nonempty ∧ F.card = s.count ∧
    ∀ g, s.Locked t g ↔ g ∈ F
  single : r = false → ∀ t g u g', s.Locked t g → s.Locked u g' → t = u ∧ g = g'
  update : ∀ t f copy, s.update t = some (f,copy) → s.owner = some t ∧ copy = s.m_data
  misuse : s.misuse = false

omit [DecidableEq G] [DecidableEq T] in
theorem Owned.exclusive {r : Bool} {s : State T G D} {F : Finset G} (h : Owned s F)
    (hsingle : r = false → s.count ≤ 1) : Exclusive r s where
  owner t g hg := ((h.locked t g).mp hg).1
  held t ht := by
    refine ⟨F,?_,h.count.symm,fun g => (h.locked t g).trans (and_iff_right ht)⟩
    rw [Finset.nonempty_iff_ne_empty, ne_eq, ← h.free, ht]
    exact nofun
  single hr t g u g' hg hg' := by
    obtain ⟨ht,hmem⟩ := (h.locked t g).mp hg
    obtain ⟨hu,hmem'⟩ := (h.locked u g').mp hg'
    have hcard := hsingle hr
    rw [h.count] at hcard
    exact ⟨Option.some.inj (ht.symm.trans hu),Finset.card_le_one.mp hcard g hmem g' hmem'⟩
  update := h.update
  misuse := h.misuse

/-- Mutual exclusion of the threads, in whatever order they run and move their guards. -/
theorem threads_exclusive (r : Bool) (data : D) (s : State T G D)
    (h : (machine r).Reaches (fun _ _ => True) (init data) s) : Exclusive r s := by
  obtain ⟨⟨F,hF⟩,hsingle⟩ := h.invariant (fun s => (∃ F, Owned s F) ∧ (r = false → s.count ≤ 1))
    ⟨⟨∅,.init data⟩,fun _ => Nat.zero_le 1⟩ fun u a v hu _ hs => by
      obtain ⟨m,-,hm⟩ := (simulates_monitor r).step (x := ⟨u.owner,u.m_data⟩) ⟨hu.1,hu.2,rfl,rfl⟩ hs
      exact ⟨hm.owned,hm.single⟩
  exact hF.exclusive hsingle

/-- A thread locks twice, drops the first guard and moves the second one in its place. -/
def nested : List (Action Bool Bool ℕ) :=
  [.lock true true,.lock true false,.destroy true true,.moveConstruct true true false,
    .read true true (· + 1)]

theorem threads_exclusive_nested :
    ∃ s : State Bool Bool ℕ, (machine true).run (init 0) nested = some s ∧ s.count = 1 ∧
      Exclusive true s := by
  have hrun : ((machine true).run (init 0) nested).map State.count = some 1 := by decide
  obtain ⟨s,hs,hcount⟩ := Option.map_eq_some_iff.mp hrun
  exact ⟨s,hs,hcount,threads_exclusive true 0 s (Machine.reaches_of_run hs)⟩

/-- From outside, a thread works in one critical section from its first lock to its last unlock,
and no update of any thread is lost. -/
theorem threads_serial (r : Bool) (data : D) (as : List (Action T G D)) (s : State T G D)
    (h : (machine r).run (init data) as = some s) :
    Monitor.Serial s.owner ((machine r).history events (init data) as) ∧
      s.m_data = ((machine r).history events (init data) as).foldl Monitor.Event.apply data := by
  obtain ⟨m,hm,hs⟩ := (simulates_monitor r).run (asMonitor_init r data) h
  rw [← hs.owner, ← hs.data]
  exact ⟨Monitor.serial_run (.free []) hm,Monitor.run_data hm⟩

theorem threads_serial_nested :
    ∃ s : State Bool Bool ℕ, (machine true).run (init 0)
        (nested ++ [.write true,.unlock true true,.lock false true]) = some s ∧ s.m_data = 1 ∧
      Monitor.Serial (some false) ((machine true).history events (init 0)
        (nested ++ [.write true,.unlock true true,.lock false true])) := by
  have hrun : ((machine true).run (init 0)
      (nested ++ [.write true,.unlock true true,.lock false true])).map
        (fun s => (s.m_data,s.owner)) = some (1,some false) := by decide
  obtain ⟨s,hs,hv⟩ := Option.map_eq_some_iff.mp hrun
  obtain ⟨hdata,howner⟩ := Prod.mk.inj hv
  exact ⟨s,hs,hdata,howner ▸ (threads_serial true 0 _ s hs).1⟩

end Asp.Mutex.Threads
