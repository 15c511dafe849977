import Asp.Thread.Thread

/-! Several `asp::Thread` objects that are moved, detached and destroyed: which of them owns which
thread, and when `std::terminate` is called or a null `_storage` dereferenced. Of what the threads
do, the model has how they end: they return, or an exception leaves one of their callbacks. -/
namespace Asp.Thread.Handles
open Foundation

/-- Where the program is in the function of an object. -/
inductive Place
  | idle
  | cleared       -- start(): the flag is cleared
  | joined        -- start(): the old thread is joined
  | stopping      -- ~Thread(): the flag is set, the thread not yet joined
  | dying         -- ~Thread(): about to destroy the members
  deriving DecidableEq

/-- `handle` is the thread of a joinable `_handle`. -/
structure Object where
  handle : Option ℕ
  storage : Option ℕ
  movedFrom : Bool
  place : Place
  deriving DecidableEq

/-- Threads and storages are numbered in the order in which they are made. `shared` is the storage
of which a thread's function has a copy, `stopped` the flag of a storage, and `onException` whether
it has an exception function. -/
structure State (T : Type*) where
  object : T → Option Object
  storages : ℕ
  stopped : ℕ → Bool
  onException : ℕ → Bool
  threads : ℕ
  shared : ℕ → ℕ
  running : ℕ → Bool
  detached : ℕ → Bool

inductive Crash
  | terminate     -- std::terminate
  | null          -- a null _storage is dereferenced
  deriving DecidableEq

inductive Action (T : Type*)
  | construct (t : T)
  | moveConstruct (t u : T)     -- Thread(Thread&& other)
  | moveAssign (t u : T)        -- operator=(Thread&& other)
  | set (t : T)                 -- one of the setters, which write to _storage
  | setExceptionFunction (t : T) (f : Bool)     -- with a function, or an empty one
  | start (t : T)
  | joinOld (t : T)
  | spawn (t : T)
  | spawnFails (t : T)          -- the constructor of std::thread throws
  | stop (t : T)
  | join (t : T)
  | detach (t : T)
  | destroy (t : T)
  | joinLast (t : T)
  | joinSelf (t : T)            -- the object's own thread makes the call of join() it is at
  | members (t : T)             -- the members are destroyed
  | finish (k : ℕ)              -- the function of the thread returns
  | loopThrows (k : ℕ) (std : Bool)     -- loopFunc throws a std::exception, or something else
  | hookThrows (k : ℕ)          -- onStart, onException or onTermination throws

variable {T : Type*} [DecidableEq T]

namespace State

def put (s : State T) (t : T) (o : Object) : State T :=
  { s with object := Function.update s.object t (some o) }

/-- `join()` of the handle does not block. -/
def Joins (s : State T) (o : Object) : Prop := ∀ k ∈ o.handle, s.running k = false

instance (s : State T) (o : Object) : Decidable (s.Joins o) := by
  unfold Joins
  infer_instance

/-- The call of a function of an object, from a place in it. -/
def call (s : State T) (t : T) (p : Place) (f : Object → Option (Except Crash (State T))) :
    Option (Except Crash (State T)) :=
  match s.object t with
  | none => none
  | some o => if o.place = p then f o else none

/-- The members of `u` are moved to `t`. -/
def move (s : State T) (t u : T) (movedFrom : Bool) (o : Object) : State T :=
  (s.put u ⟨none,none,true,.idle⟩).put t ⟨o.handle,o.storage,movedFrom,.idle⟩

def act (s : State T) : Action T → Option (Except Crash (State T))
  | .construct t => guarded (s.object t = none) <| .ok
      { s.put t ⟨none,some s.storages,false,.idle⟩ with
        storages := s.storages + 1, stopped := Function.update s.stopped s.storages true
        onException := Function.update s.onException s.storages false }
  | .moveConstruct t u => s.call u .idle fun o =>
      guarded (s.object t = none) <| .ok (s.move t u false o)
  | .moveAssign t u => s.call t .idle fun p => s.call u .idle fun o =>
      if t = u then some (.ok s)
      else if p.handle ≠ none then some (.error .terminate)
      else some (.ok (s.move t u p.movedFrom o))
  | .set t => s.call t .idle fun o =>
      match o.storage with
      | none => some (.error .null)
      | some _ => some (.ok s)
  | .setExceptionFunction t f => s.call t .idle fun o =>
      match o.storage with
      | none => some (.error .null)
      | some g => some (.ok { s with onException := Function.update s.onException g f })
  | .start t => s.call t .idle fun o =>
      if o.movedFrom then some (.ok s)     -- throws
      else
        match o.storage with
        | none => some (.error .null)
        | some g => some (.ok { s.put t { o with place := .cleared } with
            stopped := Function.update s.stopped g false })
  | .joinOld t => s.call t .cleared fun o =>
      guarded (s.Joins o) <| .ok (s.put t { o with handle := none, place := .joined })
  | .spawn t => s.call t .joined fun o =>
      match o.storage with
      | none => some (.error .null)
      | some g => some (.ok { s.put t { o with handle := some s.threads, place := .idle } with
          threads := s.threads + 1, shared := Function.update s.shared s.threads g
          running := Function.update s.running s.threads true
          detached := Function.update s.detached s.threads false })
  | .spawnFails t => s.call t .joined fun o => some (.ok (s.put t { o with place := .idle }))
  | .stop t => s.call t .idle fun o =>
      if o.movedFrom then some (.ok s)
      else
        match o.storage with
        | none => some (.ok s)             -- throws
        | some g => some (.ok { s with stopped := Function.update s.stopped g true })
  | .join t => s.call t .idle fun o =>
      guarded (s.Joins o) <| .ok (s.put t { o with handle := none })
  | .detach t => s.call t .idle fun o =>
      match o.handle with
      | none => some (.ok (s.put t { o with storage := none }))
      | some k => some (.ok { s.put t { o with handle := none, storage := none } with
          detached := Function.update s.detached k true })
  | .destroy t => s.call t .idle fun o =>
      match o.movedFrom, o.storage with
      | false, some g => some (.ok { s.put t { o with place := .stopping } with
          stopped := Function.update s.stopped g true })
      | _, _ => some (.ok (s.put t { o with place := .dying }))
  | .joinLast t => s.call t .stopping fun o =>
      guarded (s.Joins o) <| .ok (s.put t { o with handle := none, place := .dying })
  | .joinSelf t =>
    match s.object t with
    | none => none
    | some o =>
      if s.Joins o then none
      else
        -- std::thread::join() throws
        match o.place with
        | .idle => some (.ok s)
        | .cleared => some (.ok (s.put t { o with place := .idle }))
        | .stopping => some (.error .terminate)
        | .joined | .dying => none
  | .members t => s.call t .dying fun o =>
      if o.handle ≠ none then some (.error .terminate)
      else some (.ok { s with object := Function.update s.object t none })
  | .finish k => guarded (s.running k = true) <| .ok
      { s with running := Function.update s.running k false
               stopped := Function.update s.stopped (s.shared k) true }
  | .loopThrows k std => guarded (s.running k = true) <|
      if std = true ∧ s.onException (s.shared k) = true then .ok s else .error .terminate
  | .hookThrows k => guarded (s.running k = true) (.error .terminate)

end State

/-- A program that has crashed does nothing more. -/
def machine : Machine (Except Crash (State T)) (Action T) where
  step x a :=
    match x with
    | .ok s => s.act a
    | .error _ => none

def init (T : Type*) : State T :=
  ⟨fun _ => none,0,fun _ => false,fun _ => false,0,fun _ => 0,fun _ => false,fun _ => false⟩

/-- Objects own their storages, and the thread that runs on one, alone. -/
structure Owned (s : State T) : Prop where
  storage : ∀ t o g, s.object t = some o → o.storage = some g → g < s.storages
  exclusive : ∀ t u o p g, s.object t = some o → s.object u = some p → o.storage = some g →
    p.storage = some g → t = u
  handle : ∀ t o k, s.object t = some o → o.handle = some k →
    k < s.threads ∧ s.detached k = false ∧ o.storage = some (s.shared k)
  shared : ∀ k, k < s.threads → s.shared k < s.storages
  apart : ∀ k, k < s.threads → s.detached k = true → ∀ t o, s.object t = some o →
    o.storage ≠ some (s.shared k)
  running : ∀ k, s.running k = true → k < s.threads ∧
    (s.detached k = true ∨ ∃ t o, s.object t = some o ∧ o.handle = some k)
  alone : ∀ k l, s.running k = true → s.running l = true → s.shared k = s.shared l → k = l

omit [DecidableEq T] in
theorem call_eq_some {s : State T} {t : T} {p : Place} {f : Object → Option (Except Crash (State T))}
    {x : Except Crash (State T)} :
    s.call t p f = some x ↔ ∃ o, s.object t = some o ∧ o.place = p ∧ f o = some x := by
  unfold State.call
  cases s.object t with
  | none => exact iff_of_false nofun nofun
  | some o =>
    dsimp only
    split_ifs with hp
    · exact ⟨fun h => ⟨o,rfl,hp,h⟩,fun ⟨_,ho,_,h⟩ => Option.some.inj ho ▸ h⟩
    · exact iff_of_false nofun fun ⟨_,ho,hp',_⟩ => hp (Option.some.inj ho ▸ hp')

/-- A thread cannot wait for itself. -/
theorem joinSelf_eq_some {s : State T} {t : T} {x : Except Crash (State T)}
    (h : s.act (.joinSelf t) = some x) : ∃ o, s.object t = some o ∧ ¬s.Joins o ∧
      (o.place = .idle ∧ x = .ok s ∨
        o.place = .cleared ∧ x = .ok (s.put t { o with place := .idle }) ∨
        o.place = .stopping ∧ x = .error .terminate) := by
  rw [State.act] at h
  split at h
  · cases h
  · next o ho =>
    split_ifs at h with hjoins
    split at h <;> cases h
    · next hp => exact ⟨o,ho,hjoins,.inl ⟨hp,rfl⟩⟩
    · next hp => exact ⟨o,ho,hjoins,.inr (.inl ⟨hp,rfl⟩)⟩
    · next hp => exact ⟨o,ho,hjoins,.inr (.inr ⟨hp,rfl⟩)⟩

section Objects
variable {s : State T} {t u : T} {o o' p : Object}

theorem put_object : (s.put t o).object u = some p ↔
    u = t ∧ o = p ∨ u ≠ t ∧ s.object u = some p := by
  by_cases hu : u = t
  · subst hu
    simp [State.put]
  · simp [State.put, hu]

omit [DecidableEq T] in
/-- Objects that hold what other objects have held, and no running thread among what is lost. -/
theorem Owned.rearrange (h : Owned s) {f : T → Option Object}
    (hfrom : ∀ t o, f t = some o → o.storage = none ∧ o.handle = none ∨
      ∃ u p, s.object u = some p ∧ o.storage = p.storage ∧ (o.handle = p.handle ∨ o.handle = none))
    (hexclusive : ∀ t u o p g, f t = some o → f u = some p → o.storage = some g →
      p.storage = some g → t = u)
    (hrunning : ∀ t o k, s.object t = some o → o.handle = some k → s.running k = true →
      ∃ t o, f t = some o ∧ o.handle = some k) : Owned { s with object := f } where
  storage t o g ho hg := by
    obtain ⟨hnone,-⟩ | ⟨u,p,hp,hsame,-⟩ := hfrom t o ho
    · cases hnone.symm.trans hg
    · exact h.storage u p g hp (hsame ▸ hg)
  exclusive := hexclusive
  handle t o k ho hk := by
    obtain ⟨-,hnone⟩ | ⟨u,p,hp,hsame,hhandle | hnone⟩ := hfrom t o ho
    · cases hnone.symm.trans hk
    · rw [hsame]
      exact h.handle u p k hp (hhandle ▸ hk)
    · cases hnone.symm.trans hk
  shared := h.shared
  apart k hk hd t o ho hg := by
    obtain ⟨hnone,-⟩ | ⟨u,p,hp,hsame,-⟩ := hfrom t o ho
    · cases hnone.symm.trans hg
    · exact h.apart k hk hd u p hp (hsame ▸ hg)
  running k hk := by
    obtain ⟨hlt,hd | ⟨t,o,ho,hhandle⟩⟩ := h.running k hk
    · exact ⟨hlt,.inl hd⟩
    · exact ⟨hlt,.inr (hrunning t o k ho hhandle hk)⟩
  alone := h.alone

/-- An object keeps its storage, and its thread unless that has ended. -/
theorem Owned.keep (h : Owned s) (o' : Object) (ho : s.object t = some o)
    (hstorage : o'.storage = o.storage)
    (hhandle : o'.handle = o.handle ∨ o'.handle = none ∧ s.Joins o) : Owned (s.put t o') := by
  refine h.rearrange (fun u p hp => .inr ?_) (fun u v p q g hp hq hg hg' => ?_)
    fun u p k hp hk hrun => ?_
  · obtain ⟨rfl,rfl⟩ | ⟨-,hp⟩ := put_object.mp hp
    · exact ⟨u,o,ho,hstorage,hhandle.imp_right And.left⟩
    · exact ⟨u,p,hp,rfl,.inl rfl⟩
  · have hold : ∀ {u p}, (s.put t o').object u = some p → p.storage = some g →
        ∃ p, s.object u = some p ∧ p.storage = some g := by
      intro u p hp hg
      obtain ⟨rfl,rfl⟩ | ⟨-,hp⟩ := put_object.mp hp
      · exact ⟨o,ho,hstorage ▸ hg⟩
      · exact ⟨p,hp,hg⟩
    obtain ⟨p,hp,hg⟩ := hold hp hg
    obtain ⟨q,hq,hg'⟩ := hold hq hg'
    exact h.exclusive u v p q g hp hq hg hg'
  · by_cases hu : u = t
    · subst hu
      obtain rfl : o = p := Option.some.inj (ho.symm.trans hp)
      obtain hsame | ⟨-,hjoins⟩ := hhandle
      · exact ⟨u,o',put_object.mpr (.inl ⟨rfl,rfl⟩),hsame.trans hk⟩
      · cases hrun.symm.trans (hjoins k hk)
    · exact ⟨u,p,put_object.mpr (.inr ⟨hu,hp⟩),hk⟩

theorem Owned.move (h : Owned s) (ho : s.object u = some o) (htu : t ≠ u)
    (ht : ∀ p, s.object t = some p → p.handle = none) (movedFrom : Bool) :
    Owned (s.move t u movedFrom o) := by
  have hobject : ∀ {v p}, (s.move t u movedFrom o).object v = some p →
      v = t ∧ ⟨o.handle,o.storage,movedFrom,.idle⟩ = p ∨ v = u ∧ ⟨none,none,true,.idle⟩ = p ∨
        v ≠ t ∧ v ≠ u ∧ s.object v = some p := by
    intro v p hp
    obtain h | ⟨hvt,hp⟩ := put_object.mp hp
    · exact .inl h
    · obtain h | ⟨hvu,hp⟩ := put_object.mp hp
      · exact .inr (.inl h)
      · exact .inr (.inr ⟨hvt,hvu,hp⟩)
  refine h.rearrange (fun v p hp => ?_) (fun v w p q g hp hq hg hg' => ?_)
    fun v p k hp hk hrun => ?_
  · obtain ⟨rfl,rfl⟩ | ⟨rfl,rfl⟩ | ⟨-,-,hp⟩ := hobject hp
    · exact .inr ⟨u,o,ho,rfl,.inl rfl⟩
    · exact .inl ⟨rfl,rfl⟩
    · exact .inr ⟨v,p,hp,rfl,.inl rfl⟩
  · obtain ⟨rfl,rfl⟩ | ⟨rfl,rfl⟩ | ⟨-,hvu,hp'⟩ := hobject hp
    · obtain ⟨rfl,rfl⟩ | ⟨rfl,rfl⟩ | ⟨-,hwu,hq'⟩ := hobject hq
      · rfl
      · cases hg'
      · exact absurd (h.exclusive w u q o g hq' ho hg' hg) hwu
    · cases hg
    · obtain ⟨rfl,rfl⟩ | ⟨rfl,rfl⟩ | ⟨-,-,hq'⟩ := hobject hq
      · exact absurd (h.exclusive v u p o g hp' ho hg hg') hvu
      · cases hg'
      · exact h.exclusive v w p q g hp' hq' hg hg'
  · by_cases hvu : v = u
    · subst hvu
      obtain rfl : o = p := Option.some.inj (ho.symm.trans hp)
      exact ⟨t,_,put_object.mpr (.inl ⟨rfl,rfl⟩),hk⟩
    · by_cases hvt : v = t
      · subst hvt
        cases (ht p hp).symm.trans hk
      · exact ⟨v,p,put_object.mpr (.inr ⟨hvt,put_object.mpr (.inr ⟨hvu,hp⟩)⟩),hk⟩

omit [DecidableEq T] in
theorem Owned.flag (h : Owned s) (stopped onException : ℕ → Bool) :
    Owned { s with stopped := stopped, onException := onException } :=
  ⟨h.storage,h.exclusive,h.handle,h.shared,h.apart,h.running,h.alone⟩

theorem Owned.construct (h : Owned s) (ht : s.object t = none) :
    Owned { s.put t ⟨none,some s.storages,false,.idle⟩ with storages := s.storages + 1 } where
  storage u p g hp hg := by
    obtain ⟨rfl,rfl⟩ | ⟨-,hp⟩ := put_object.mp hp
    · obtain rfl := Option.some.inj hg
      exact Nat.lt_succ_self _
    · exact Nat.lt_succ_of_lt (h.storage u p g hp hg)
  exclusive u v p q g hp hq hg hg' := by
    obtain ⟨rfl,rfl⟩ | ⟨-,hp'⟩ := put_object.mp hp
    · obtain rfl := Option.some.inj hg
      obtain ⟨rfl,rfl⟩ | ⟨-,hq'⟩ := put_object.mp hq
      · rfl
      · exact absurd (h.storage v q _ hq' hg') (Nat.lt_irrefl _)
    · obtain ⟨rfl,rfl⟩ | ⟨-,hq'⟩ := put_object.mp hq
      · obtain rfl := Option.some.inj hg'
        exact absurd (h.storage u p _ hp' hg) (Nat.lt_irrefl _)
      · exact h.exclusive u v p q g hp' hq' hg hg'
  handle u p k hp hk := by
    obtain ⟨rfl,rfl⟩ | ⟨-,hp⟩ := put_object.mp hp
    · cases hk
    · exact h.handle u p k hp hk
  shared k hk := Nat.lt_succ_of_lt (h.shared k hk)
  apart k hk hd u p hp hg := by
    obtain ⟨rfl,rfl⟩ | ⟨-,hp⟩ := put_object.mp hp
    · exact absurd (h.shared k hk) (Nat.not_lt.mpr (Nat.le_of_eq (Option.some.inj hg)))
    · exact h.apart k hk hd u p hp hg
  running k hk := by
    obtain ⟨hlt,hd | ⟨u,p,hp,hhandle⟩⟩ := h.running k hk
    · exact ⟨hlt,.inl hd⟩
    · have hu : u ≠ t := by
        rintro rfl
        cases ht.symm.trans hp
      exact ⟨hlt,.inr ⟨u,p,put_object.mpr (.inr ⟨hu,hp⟩),hhandle⟩⟩
  alone := h.alone

/-- A new thread of an object whose last one is joined. -/
theorem Owned.spawn (h : Owned s) (ho : s.object t = some o) (hnone : o.handle = none) {g : ℕ}
    (hg : o.storage = some g) :
    Owned { s.put t { o with handle := some s.threads, place := .idle } with
      threads := s.threads + 1, shared := Function.update s.shared s.threads g
      running := Function.update s.running s.threads true
      detached := Function.update s.detached s.threads false } := by
  have hold : ∀ k, k < s.threads → Function.update s.shared s.threads g k = s.shared k ∧
      Function.update s.detached s.threads false k = s.detached k := fun k hk =>
    ⟨Function.update_of_ne (Nat.ne_of_lt hk) ..,Function.update_of_ne (Nat.ne_of_lt hk) ..⟩
  -- a thread that still runs on the storage would be one of a different owner
  have hidle : ∀ k, s.running k = true → s.shared k ≠ g := by
    rintro k hk rfl
    obtain ⟨hlt,hd | ⟨u,p,hp,hhandle⟩⟩ := h.running k hk
    · exact h.apart k hlt hd t o ho hg
    · obtain rfl := h.exclusive u t p o _ hp ho (h.handle u p k hp hhandle).2.2 hg
      obtain rfl : o = p := Option.some.inj (ho.symm.trans hp)
      cases hnone.symm.trans hhandle
  have hfrom : ∀ {u p}, (s.put t { o with handle := some s.threads, place := .idle }).object u =
      some p → ∃ q, s.object u = some q ∧ p.storage = q.storage := by
    intro u p hp
    obtain ⟨rfl,rfl⟩ | ⟨-,hp⟩ := put_object.mp hp
    · exact ⟨o,ho,rfl⟩
    · exact ⟨p,hp,rfl⟩
  refine ⟨fun u p i hp hi => ?_,fun u v p q i hp hq hi hi' => ?_,fun u p k hp hk => ?_,
    fun k hk => ?_,fun k hk hd u p hp => ?_,fun k hk => ?_,fun k l hk hl hkl => ?_⟩
  · obtain ⟨q,hq,hsame⟩ := hfrom hp
    exact h.storage u q i hq (hsame ▸ hi)
  · obtain ⟨p',hp',hsame⟩ := hfrom hp
    obtain ⟨q',hq',hsame'⟩ := hfrom hq
    exact h.exclusive u v p' q' i hp' hq' (hsame ▸ hi) (hsame' ▸ hi')
  · obtain ⟨rfl,rfl⟩ | ⟨-,hp'⟩ := put_object.mp hp
    · obtain rfl := Option.some.inj hk
      refine ⟨Nat.lt_succ_self _,Function.update_self ..,?_⟩
      exact hg.trans (congrArg some (Function.update_self s.threads g s.shared).symm)
    · obtain ⟨hlt,hd,hstorage⟩ := h.handle u p k hp' hk
      refine ⟨Nat.lt_succ_of_lt hlt,(hold k hlt).2.trans hd,?_⟩
      exact hstorage.trans (congrArg some (hold k hlt).1.symm)
  · change Function.update s.shared s.threads g k < s.storages
    by_cases hk' : k = s.threads
    · subst hk'
      rw [Function.update_self]
      exact h.storage t o g ho hg
    · have hlt : k < s.threads := Nat.lt_of_le_of_ne (Nat.le_of_lt_succ hk) hk'
      rw [(hold k hlt).1]
      exact h.shared k hlt
  · change Function.update s.detached s.threads false k = true at hd
    change _ ≠ some (Function.update s.shared s.threads g k)
    by_cases hk' : k = s.threads
    · subst hk'
      rw [Function.update_self] at hd
      cases hd
    · have hlt : k < s.threads := Nat.lt_of_le_of_ne (Nat.le_of_lt_succ hk) hk'
      obtain ⟨q,hq,hsame⟩ := hfrom hp
      rw [(hold k hlt).2] at hd
      rw [(hold k hlt).1, hsame]
      exact h.apart k hlt hd u q hq
  · change Function.update s.running s.threads true k = true at hk
    by_cases hk' : k = s.threads
    · subst hk'
      exact ⟨Nat.lt_succ_self _,.inr ⟨t,_,put_object.mpr (.inl ⟨rfl,rfl⟩),rfl⟩⟩
    · rw [Function.update_of_ne hk'] at hk
      obtain ⟨hlt,hd | ⟨u,p,hp,hhandle⟩⟩ := h.running k hk
      · exact ⟨Nat.lt_succ_of_lt hlt,.inl ((hold k hlt).2.trans hd)⟩
      · have hu : u ≠ t := by
          rintro rfl
          obtain rfl : o = p := Option.some.inj (ho.symm.trans hp)
          cases hnone.symm.trans hhandle
        exact ⟨Nat.lt_succ_of_lt hlt,.inr ⟨u,p,put_object.mpr (.inr ⟨hu,hp⟩),hhandle⟩⟩
  · change Function.update s.running s.threads true k = true at hk
    change Function.update s.running s.threads true l = true at hl
    change Function.update s.shared s.threads g k = Function.update s.shared s.threads g l at hkl
    by_cases hk' : k = s.threads
    · by_cases hl' : l = s.threads
      · exact hk'.trans hl'.symm
      · rw [Function.update_of_ne hl'] at hl
        rw [hk', Function.update_self, Function.update_of_ne hl'] at hkl
        exact absurd hkl.symm (hidle l hl)
    · rw [Function.update_of_ne hk'] at hk
      by_cases hl' : l = s.threads
      · rw [hl', Function.update_self, Function.update_of_ne hk'] at hkl
        exact absurd hkl (hidle k hk)
      · rw [Function.update_of_ne hl'] at hl
        rw [Function.update_of_ne hk', Function.update_of_ne hl'] at hkl
        exact h.alone k l hk hl hkl

/-- The thread of a detached object and the object have nothing in common any more. -/
theorem Owned.detach (h : Owned s) (ho : s.object t = some o) {k : ℕ} (hk : o.handle = some k) :
    Owned { s.put t { o with handle := none, storage := none } with
      detached := Function.update s.detached k true } := by
  obtain ⟨hlt,-,hstorage⟩ := h.handle t o k ho hk
  refine ⟨fun u p g hp hg => ?_,fun u v p q g hp hq hg hg' => ?_,fun u p l hp hl => ?_,h.shared,
    fun l hl hd u p hp hg => ?_,fun l hl => ?_,h.alone⟩
  · obtain ⟨rfl,rfl⟩ | ⟨-,hp⟩ := put_object.mp hp
    · cases hg
    · exact h.storage u p g hp hg
  · obtain ⟨rfl,rfl⟩ | ⟨-,hp⟩ := put_object.mp hp
    · cases hg
    · obtain ⟨rfl,rfl⟩ | ⟨-,hq⟩ := put_object.mp hq
      · cases hg'
      · exact h.exclusive u v p q g hp hq hg hg'
  · obtain ⟨rfl,rfl⟩ | ⟨hu,hp'⟩ := put_object.mp hp
    · cases hl
    · obtain ⟨hlt',hd',hstorage'⟩ := h.handle u p l hp' hl
      refine ⟨hlt',?_,hstorage'⟩
      have hne : l ≠ k := by
        rintro rfl
        exact hu (h.exclusive u t p o _ hp' ho hstorage' hstorage)
      exact (Function.update_of_ne hne ..).trans hd'
  · change Function.update s.detached k true l = true at hd
    obtain ⟨rfl,rfl⟩ | ⟨hu,hp'⟩ := put_object.mp hp
    · cases hg
    · by_cases hlk : l = k
      · subst hlk
        exact hu (h.exclusive u t p o _ hp' ho hg hstorage)
      · rw [Function.update_of_ne hlk] at hd
        exact h.apart l hl hd u p hp' hg
  · change s.running l = true at hl
    obtain ⟨hlt',hd | ⟨u,p,hp,hhandle⟩⟩ := h.running l hl
    · refine ⟨hlt',.inl ?_⟩
      change Function.update s.detached k true l = true
      by_cases hlk : l = k
      · rw [hlk, Function.update_self]
      · rw [Function.update_of_ne hlk, hd]
    · by_cases hu : u = t
      · subst hu
        obtain rfl : o = p := Option.some.inj (ho.symm.trans hp)
        obtain rfl := Option.some.inj (hk.symm.trans hhandle)
        exact ⟨hlt',.inl (Function.update_self ..)⟩
      · exact ⟨hlt',.inr ⟨u,p,put_object.mpr (.inr ⟨hu,hp⟩),hhandle⟩⟩

/-- An object without a thread drops its storage, or is gone. -/
theorem Owned.drop (h : Owned s) (ho : s.object t = some o) (hnone : o.handle = none)
    {q : Option Object} (hq : ∀ p, q = some p → p.handle = none ∧ p.storage = none) :
    Owned { s with object := Function.update s.object t q } := by
  have hobject : ∀ {u p}, Function.update s.object t q u = some p → p.storage ≠ none →
      s.object u = some p := by
    intro u p hp hstorage
    by_cases hu : u = t
    · subst hu
      rw [Function.update_self] at hp
      exact absurd (hq p hp).2 hstorage
    · rwa [Function.update_of_ne hu] at hp
  refine h.rearrange (fun u p hp => ?_) (fun u v p p' g hp hp' hg hg' => ?_)
    fun u p k hp hk _ => ?_
  · by_cases hu : u = t
    · subst hu
      rw [Function.update_self] at hp
      exact .inl ⟨(hq p hp).2,(hq p hp).1⟩
    · rw [Function.update_of_ne hu] at hp
      exact .inr ⟨u,p,hp,rfl,.inl rfl⟩
  · exact h.exclusive u v p p' g (hobject hp (hg.trans_ne nofun)) (hobject hp' (hg'.trans_ne nofun))
      hg hg'
  · have hu : u ≠ t := by
      rintro rfl
      obtain rfl : o = p := Option.some.inj (ho.symm.trans hp)
      cases hnone.symm.trans hk
    exact ⟨u,p,(Function.update_of_ne hu ..).trans hp,hk⟩

omit [DecidableEq T] in
theorem Owned.finish (h : Owned s) (k : ℕ) :
    Owned { s with running := Function.update s.running k false } := by
  have hrunning : ∀ l, Function.update s.running k false l = true → s.running l = true := by
    intro l hl
    by_cases hlk : l = k
    · rw [hlk, Function.update_self] at hl
      cases hl
    · rwa [Function.update_of_ne hlk] at hl
  exact ⟨h.storage,h.exclusive,h.handle,h.shared,h.apart,fun l hl => h.running l (hrunning l hl),
    fun l m hl hm => h.alone l m (hrunning l hl) (hrunning m hm)⟩

end Objects

/-- The last thread is joined before `start()` makes a new one. -/
structure Inv (s : State T) : Prop where
  owned : Owned s
  joined : ∀ t o, s.object t = some o → o.place = .joined → o.handle = none

omit [DecidableEq T] in
theorem inv_init : Inv (init T) where
  owned := ⟨nofun,nofun,nofun,nofun,nofun,nofun,nofun⟩
  joined := nofun

section Steps
variable {s s' : State T} {t : T} {o o' : Object} {a : Action T}

/-- What holds of all objects, and of one that is put there. -/
theorem put_forall {P : Object → Prop} (h : ∀ u p, s.object u = some p → P p) (ho : P o) (u : T)
    (p : Object) (hp : (s.put t o).object u = some p) : P p := by
  obtain ⟨rfl,rfl⟩ | ⟨-,hp⟩ := put_object.mp hp
  · exact ho
  · exact h u p hp

/-- The one place where a step tells apart how an object changes. -/
theorem act_inv (h : Inv s) (hs : s.act a = some (.ok s')) : Inv s' := by
  obtain ⟨howned,hjoined⟩ := h
  cases a with
  | construct t =>
    obtain ⟨ht,hs⟩ := guarded_eq_some.mp hs
    cases hs
    exact ⟨(howned.construct ht).flag _ _,put_forall hjoined nofun⟩
  | moveConstruct t u =>
    obtain ⟨o,ho,-,hs⟩ := call_eq_some.mp hs
    obtain ⟨ht,hs⟩ := guarded_eq_some.mp hs
    cases hs
    have htu : t ≠ u := by
      rintro rfl
      cases ht.symm.trans ho
    have hnone : ∀ p, s.object t = some p → p.handle = none := fun p hp => by
      cases ht.symm.trans hp
    exact ⟨howned.move ho htu hnone _,put_forall (put_forall hjoined nofun) nofun⟩
  | moveAssign t u =>
    obtain ⟨p,hp,-,hs⟩ := call_eq_some.mp hs
    obtain ⟨o,ho,-,hs⟩ := call_eq_some.mp hs
    split_ifs at hs with htu hhandle
    · cases hs
      exact ⟨howned,hjoined⟩
    · cases hs
    · cases hs
      have hnone : ∀ q, s.object t = some q → q.handle = none := fun q hq => by
        obtain rfl : p = q := Option.some.inj (hp.symm.trans hq)
        exact not_not.mp hhandle
      exact ⟨howned.move ho htu hnone _,put_forall (put_forall hjoined nofun) nofun⟩
  | set t =>
    obtain ⟨o,ho,-,hs⟩ := call_eq_some.mp hs
    split at hs <;> cases hs
    exact ⟨howned,hjoined⟩
  | setExceptionFunction t f =>
    obtain ⟨o,ho,-,hs⟩ := call_eq_some.mp hs
    split at hs <;> cases hs
    exact ⟨howned.flag _ _,hjoined⟩
  | start t =>
    obtain ⟨o,ho,-,hs⟩ := call_eq_some.mp hs
    split_ifs at hs with hmoved
    · cases hs
      exact ⟨howned,hjoined⟩
    · split at hs
      · cases hs
      · cases hs
        exact ⟨(howned.keep { o with place := .cleared } ho rfl (.inl rfl)).flag _ _,
          put_forall hjoined nofun⟩
  | joinOld t | join t | joinLast t =>
    obtain ⟨o,ho,hplace,hs⟩ := call_eq_some.mp hs
    obtain ⟨hjoins,hs⟩ := guarded_eq_some.mp hs
    cases hs
    exact ⟨howned.keep _ ho rfl (.inr ⟨rfl,hjoins⟩),put_forall hjoined fun _ => rfl⟩
  | spawn t =>
    obtain ⟨o,ho,hplace,hs⟩ := call_eq_some.mp hs
    split at hs
    · cases hs
    · next g hg =>
      cases hs
      exact ⟨howned.spawn ho (hjoined t o ho hplace) hg,put_forall hjoined nofun⟩
  | spawnFails t =>
    obtain ⟨o,ho,-,hs⟩ := call_eq_some.mp hs
    cases hs
    exact ⟨howned.keep _ ho rfl (.inl rfl),put_forall hjoined nofun⟩
  | stop t =>
    obtain ⟨o,ho,-,hs⟩ := call_eq_some.mp hs
    split_ifs at hs with hmoved
    · cases hs
      exact ⟨howned,hjoined⟩
    · split at hs <;> cases hs
      · exact ⟨howned,hjoined⟩
      · exact ⟨howned.flag _ _,hjoined⟩
  | detach t =>
    obtain ⟨o,ho,hplace,hs⟩ := call_eq_some.mp hs
    have hidle : o.place ≠ .joined := hplace.trans_ne nofun
    split at hs
    · next hk =>
      cases hs
      have hempty : ∀ p, some { o with storage := none } = some p →
          p.handle = none ∧ p.storage = none := by
        rintro p hp
        cases hp
        exact ⟨hk,rfl⟩
      exact ⟨howned.drop ho hk hempty,put_forall hjoined fun hj => absurd hj hidle⟩
    · next k hk =>
      cases hs
      exact ⟨howned.detach ho hk,put_forall hjoined fun _ => rfl⟩
  | destroy t =>
    obtain ⟨o,ho,-,hs⟩ := call_eq_some.mp hs
    split at hs
    · cases hs
      exact ⟨(howned.keep { o with place := .stopping } ho rfl (.inl rfl)).flag _ _,
        put_forall hjoined nofun⟩
    · cases hs
      exact ⟨howned.keep _ ho rfl (.inl rfl),put_forall hjoined nofun⟩
  | joinSelf t =>
    obtain ⟨o,ho,-,⟨-,hs⟩ | ⟨-,hs⟩ | ⟨-,hs⟩⟩ := joinSelf_eq_some hs
    · cases hs
      exact ⟨howned,hjoined⟩
    · cases hs
      exact ⟨howned.keep _ ho rfl (.inl rfl),put_forall hjoined nofun⟩
    · cases hs
  | members t =>
    obtain ⟨o,ho,-,hs⟩ := call_eq_some.mp hs
    split_ifs at hs with hhandle
    · cases hs
    · cases hs
      refine ⟨howned.drop ho (not_not.mp hhandle) nofun,fun u p hp => ?_⟩
      by_cases hu : u = t
      · subst hu
        cases (Function.update_self ..).symm.trans hp
      · exact hjoined u p ((Function.update_of_ne hu ..).symm.trans hp)
  | finish k =>
    obtain ⟨-,hs⟩ := guarded_eq_some.mp hs
    cases hs
    exact ⟨(howned.finish k).flag _ _,hjoined⟩
  | loopThrows k std =>
    obtain ⟨-,hs⟩ := guarded_eq_some.mp hs
    split_ifs at hs
    cases hs
    exact ⟨howned,hjoined⟩
  | hookThrows k =>
    obtain ⟨-,hs⟩ := guarded_eq_some.mp hs
    cases hs

end Steps

/-- The objects and threads of every run that has not crashed: an object is the only owner of its
storage and of its thread, which runs on that storage. A running thread has an owner, unless it was
detached, and is the only one on its storage. -/
theorem reaches_owned (s : State T)
    (h : machine.Reaches (fun _ _ => True) (.ok (init T)) (.ok s)) : Owned s := by
  have hinv := h.invariant (fun x => ∀ s, x = .ok s → Inv s)
    (fun s hs => Except.ok.inj hs ▸ inv_init) fun x a y hx _ hy t ht => by
      subst ht
      cases x with
      | error c => cases hy
      | ok s => exact act_inv (hx s rfl) hy
  exact (hinv s rfl).owned

/-- A thread is started and moved to a second object, and joined when that is destroyed. -/
theorem reaches_owned_moved :
    ∃ s, machine.run (.ok (init Bool)) [.construct true,.start true,.joinOld true,.spawn true,
        .moveConstruct false true,.destroy true,.members true] = some (.ok s) ∧
      s.running 0 = true ∧ Owned s := by
  have hrun : (machine.run (.ok (init Bool)) [.construct true,.start true,.joinOld true,.spawn true,
      .moveConstruct false true,.destroy true,.members true]).map
      (fun x => x.toOption.map fun s => s.running 0) = some (some true) := by decide
  obtain ⟨x,hx,hv⟩ := Option.map_eq_some_iff.mp hrun
  cases x with
  | error c => cases hv
  | ok s => exact ⟨s,hx,Option.some.inj hv,reaches_owned s (Machine.reaches_of_run hx)⟩

/-- Nothing is assigned to an object that has a joinable thread or was moved from, and an object
without a storage, which was moved from or detached, is neither set up nor started. No thread
destroys its own object, and no exception leaves a callback, but for a `std::exception` from the
loop function of a thread with an exception function. -/
def Guard (x : Except Crash (State T)) : Action T → Prop
  | .moveAssign t u => t ≠ u → ∀ s ∈ x.toOption, ∀ o ∈ s.object t,
      o.handle = none ∧ o.movedFrom = false
  | .set t | .setExceptionFunction t _ => ∀ s ∈ x.toOption, ∀ o ∈ s.object t, o.storage ≠ none
  | .start t => ∀ s ∈ x.toOption, ∀ o ∈ s.object t, o.movedFrom = true ∨ o.storage ≠ none
  | .joinSelf t => ∀ s ∈ x.toOption, ∀ o ∈ s.object t, o.place ≠ .stopping
  | .loopThrows k std => std = true ∧ ∀ s ∈ x.toOption, s.onException (s.shared k) = true
  | .hookThrows _ => False
  | _ => True

instance (x : Except Crash (State T)) (a : Action T) : Decidable (Guard x a) := by
  cases a <;> unfold Guard <;> infer_instance

/-- An object from which no destructor and no `start()` crashes. -/
structure Object.Calm (o : Object) : Prop where
  moved : o.movedFrom = true → o.handle = none ∧ o.storage = none
  cleared : o.place = .cleared → o.storage ≠ none
  joined : o.place = .joined → o.storage ≠ none
  dying : o.place = .dying → o.handle = none

section Calm
variable {s : State T} {a : Action T} {x : Except Crash (State T)}

theorem Object.Calm.unowned (p : Place) (m : Bool) (h : p = .idle ∨ p = .dying) :
    Object.Calm ⟨none,none,m,p⟩ := by
  obtain rfl | rfl := h <;> exact ⟨fun _ => ⟨rfl,rfl⟩,nofun,nofun,fun _ => rfl⟩

/-- A guarded step does not crash. -/
theorem act_calm (h : Inv s) (hcalm : ∀ t o, s.object t = some o → o.Calm)
    (hguard : Guard (.ok s) a) (hs : s.act a = some x) :
    ∃ s', x = .ok s' ∧ ∀ t o, s'.object t = some o → o.Calm := by
  cases a with
  | construct t =>
    obtain ⟨-,rfl⟩ := guarded_eq_some.mp hs
    exact ⟨_,rfl,put_forall hcalm ⟨nofun,nofun,nofun,nofun⟩⟩
  | moveConstruct t u =>
    obtain ⟨o,ho,-,hs⟩ := call_eq_some.mp hs
    obtain ⟨-,rfl⟩ := guarded_eq_some.mp hs
    exact ⟨_,rfl,put_forall (put_forall hcalm (.unowned .idle true (.inl rfl)))
      ⟨nofun,nofun,nofun,nofun⟩⟩
  | moveAssign t u =>
    obtain ⟨p,hp,-,hs⟩ := call_eq_some.mp hs
    obtain ⟨o,ho,-,hs⟩ := call_eq_some.mp hs
    split_ifs at hs with htu hhandle
    · cases hs
      exact ⟨s,rfl,hcalm⟩
    · exact absurd (hguard htu s rfl p hp).1 hhandle
    · cases hs
      have hmoved : p.movedFrom = false := (hguard htu s rfl p hp).2
      exact ⟨_,rfl,put_forall (put_forall hcalm (.unowned .idle true (.inl rfl)))
        ⟨fun hm => absurd (hmoved.symm.trans hm) nofun,nofun,nofun,nofun⟩⟩
  | set t =>
    obtain ⟨o,ho,-,hs⟩ := call_eq_some.mp hs
    split at hs
    · next hg => exact absurd hg (hguard s rfl o ho)
    · cases hs
      exact ⟨s,rfl,hcalm⟩
  | setExceptionFunction t f =>
    obtain ⟨o,ho,-,hs⟩ := call_eq_some.mp hs
    split at hs
    · next hg => exact absurd hg (hguard s rfl o ho)
    · cases hs
      exact ⟨_,rfl,hcalm⟩
  | start t =>
    obtain ⟨o,ho,-,hs⟩ := call_eq_some.mp hs
    split_ifs at hs with hmoved
    · cases hs
      exact ⟨s,rfl,hcalm⟩
    · split at hs
      · next hg =>
        exact absurd hg ((hguard s rfl o ho).resolve_left hmoved)
      · next g hg =>
        cases hs
        exact ⟨_,rfl,put_forall hcalm ⟨fun hm => absurd hm hmoved,fun _ => hg.trans_ne nofun,
          nofun,nofun⟩⟩
  | joinOld t =>
    obtain ⟨o,ho,hplace,hs⟩ := call_eq_some.mp hs
    obtain ⟨-,rfl⟩ := guarded_eq_some.mp hs
    have h := hcalm t o ho
    exact ⟨_,rfl,put_forall hcalm ⟨fun hm => ⟨rfl,(h.moved hm).2⟩,nofun,
      fun _ => h.cleared hplace,nofun⟩⟩
  | spawn t =>
    obtain ⟨o,ho,hplace,hs⟩ := call_eq_some.mp hs
    have hsome := (hcalm t o ho).joined hplace
    split at hs
    · next hg => exact absurd hg hsome
    · cases hs
      exact ⟨_,rfl,put_forall hcalm ⟨fun hm => absurd ((hcalm t o ho).moved hm).2 hsome,
        nofun,nofun,nofun⟩⟩
  | spawnFails t =>
    obtain ⟨o,ho,-,hs⟩ := call_eq_some.mp hs
    cases hs
    exact ⟨_,rfl,put_forall hcalm ⟨(hcalm t o ho).moved,nofun,nofun,nofun⟩⟩
  | stop t =>
    obtain ⟨o,ho,-,hs⟩ := call_eq_some.mp hs
    split_ifs at hs with hmoved
    · cases hs
      exact ⟨s,rfl,hcalm⟩
    · split at hs <;> cases hs <;> exact ⟨_,rfl,hcalm⟩
  | join t =>
    obtain ⟨o,ho,hplace,hs⟩ := call_eq_some.mp hs
    obtain ⟨-,rfl⟩ := guarded_eq_some.mp hs
    have h := hcalm t o ho
    exact ⟨_,rfl,put_forall hcalm ⟨fun hm => ⟨rfl,(h.moved hm).2⟩,h.cleared,h.joined,fun _ => rfl⟩⟩
  | detach t =>
    obtain ⟨o,ho,hplace,hs⟩ := call_eq_some.mp hs
    split at hs
    · next hk =>
      cases hs
      refine ⟨_,rfl,put_forall hcalm ?_⟩
      rw [hk, hplace]
      exact .unowned .idle _ (.inl rfl)
    · cases hs
      refine ⟨_,rfl,put_forall hcalm ?_⟩
      rw [hplace]
      exact .unowned .idle _ (.inl rfl)
  | destroy t =>
    obtain ⟨o,ho,-,hs⟩ := call_eq_some.mp hs
    split at hs
    · cases hs
      exact ⟨_,rfl,put_forall hcalm ⟨(hcalm t o ho).moved,nofun,nofun,nofun⟩⟩
    · next hnot =>
      cases hs
      refine ⟨_,rfl,put_forall hcalm ⟨(hcalm t o ho).moved,nofun,nofun,fun _ => ?_⟩⟩
      cases hm : o.movedFrom with
      | true => exact ((hcalm t o ho).moved hm).1
      | false =>
        cases hk : o.handle with
        | none => rfl
        | some k => exact absurd (h.owned.handle t o k ho hk).2.2 (hnot _ hm)
  | joinLast t =>
    obtain ⟨o,ho,-,hs⟩ := call_eq_some.mp hs
    obtain ⟨-,rfl⟩ := guarded_eq_some.mp hs
    exact ⟨_,rfl,put_forall hcalm ⟨fun hm => ⟨rfl,((hcalm t o ho).moved hm).2⟩,nofun,nofun,
      fun _ => rfl⟩⟩
  | joinSelf t =>
    obtain ⟨o,ho,-,⟨-,rfl⟩ | ⟨-,rfl⟩ | ⟨hp,-⟩⟩ := joinSelf_eq_some hs
    · exact ⟨s,rfl,hcalm⟩
    · exact ⟨_,rfl,put_forall hcalm ⟨(hcalm t o ho).moved,nofun,nofun,nofun⟩⟩
    · exact absurd hp (hguard s rfl o ho)
  | members t =>
    obtain ⟨o,ho,hplace,hs⟩ := call_eq_some.mp hs
    split_ifs at hs with hhandle
    · exact absurd ((hcalm t o ho).dying hplace) hhandle
    · cases hs
      refine ⟨_,rfl,fun u p hp => ?_⟩
      by_cases hu : u = t
      · subst hu
        cases (Function.update_self ..).symm.trans hp
      · exact hcalm u p ((Function.update_of_ne hu ..).symm.trans hp)
  | finish k =>
    obtain ⟨-,rfl⟩ := guarded_eq_some.mp hs
    exact ⟨_,rfl,hcalm⟩
  | loopThrows k std =>
    obtain ⟨-,rfl⟩ := guarded_eq_some.mp hs
    exact ⟨s,if_pos ⟨hguard.1,hguard.2 s rfl⟩,hcalm⟩
  | hookThrows k => exact absurd hguard id

end Calm

/-- A program that uses its objects so never calls `std::terminate` or dereferences null. -/
theorem guarded_reaches_ok (x : Except Crash (State T))
    (h : machine.Reaches Guard (.ok (init T)) x) : ∃ s, x = .ok s ∧ Owned s := by
  obtain ⟨s,rfl,hinv,-⟩ := h.invariant
    (fun x => ∃ s, x = .ok s ∧ Inv s ∧ ∀ t o, s.object t = some o → o.Calm)
    ⟨_,rfl,inv_init,nofun⟩ fun x a y hx hguard hy => by
      obtain ⟨s,rfl,hinv,hcalm⟩ := hx
      obtain ⟨s',rfl,hcalm'⟩ := act_calm hinv hcalm hguard hy
      exact ⟨s',rfl,act_inv hinv hy,hcalm'⟩
  exact ⟨s,rfl,hinv.owned⟩

/-- A thread whose loop function throws is moved and detached. -/
def throwing : List (Action Bool) :=
  [.construct true,.setExceptionFunction true true,.start true,.joinOld true,.spawn true,
    .loopThrows 0 true,.construct false,.moveAssign false true,.detach false,.destroy false,
    .members false]

theorem guarded_reaches_ok_throwing :
    ∃ s, machine.runGuarded Guard (.ok (init Bool)) throwing = some (.ok s) ∧
      s.running 0 = true ∧ Owned s := by
  have hrun : (machine.runGuarded Guard (.ok (init Bool)) throwing).map
      (fun x => x.toOption.map fun s => s.running 0) = some (some true) := by decide
  obtain ⟨x,hx,hv⟩ := Option.map_eq_some_iff.mp hrun
  obtain ⟨s,rfl,howned⟩ := guarded_reaches_ok x (Machine.reaches_of_runGuarded hx)
  exact ⟨s,hx,Option.some.inj hv,howned⟩

/-- `movedFrom` stays set when a thread is assigned to the object later: the destructor does not
join it. -/
example : machine.run (.ok (init Bool)) [.construct true,.moveConstruct false true,.start false,
    .joinOld false,.spawn false,.moveAssign true false,.destroy true,.members true] =
      some (.error .terminate) := rfl

end Asp.Thread.Handles
