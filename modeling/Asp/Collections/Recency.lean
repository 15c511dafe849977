import Asp.Collections.Eviction
import Asp.Foundation.Simulation
import Mathlib.Data.Finset.Card

/-! The cache as a list without times of use, the most recently used key first. While the clock
advances from call to call, a cache of the code and such a list cannot be told apart. -/
namespace Asp.Cache
open Foundation
variable {K V : Type*} [DecidableEq K]

/-- Keys with their values and the times of their insertion. -/
structure Recent (K V : Type*) where
  entries : List (K × V × Instant)
  ttl : Duration
  workInterval : Duration
  lastWork : Instant
  maxEntries : ℕ

namespace Recent

def workDue (m : Recent K V) (now : Instant) : Bool :=
  (now.durationSince m.lastWork).cmp m.workInterval = .gt

def expired (m : Recent K V) (reading : Instant) (x : K × V × Instant) : Bool :=
  !m.ttl.isZero && (reading.durationSince x.2.2).cmp m.ttl = .gt

omit [DecidableEq K] in
theorem expired_iff {m : Recent K V} {reading : Instant} {x : K × V × Instant} :
    m.expired reading x = true ↔
      m.ttl.isZero = false ∧ (reading.durationSince x.2.2).cmp m.ttl = .gt := by
  rw [expired, Bool.and_eq_true, decide_eq_true_iff, Bool.not_eq_true']

/-- Forget what has expired, if it is time for that. -/
def work (m : Recent K V) (now later : Instant) : Recent K V :=
  if m.workDue now then
    { m with lastWork := later, entries := m.entries.filter fun x => !m.expired later x }
  else m

/-- A full list loses the key at its end. -/
def room (m : Recent K V) : Recent K V :=
  if 0 < m.maxEntries ∧ m.maxEntries ≤ m.entries.length then
    { m with entries := m.entries.dropLast }
  else m

def erase (m : Recent K V) (k : K) : Recent K V :=
  { m with entries := m.entries.filter fun x => x.1 ≠ k }

/-- A key comes to the front. -/
def touch (m : Recent K V) (k : K) (x : V × Instant) : Recent K V :=
  { m with entries := (k,x) :: (m.erase k).entries }

def insert (m : Recent K V) (k : K) (v : V) (now later : Instant) : Recent K V :=
  (m.room.touch k (v,now)).work now later

def get (m : Recent K V) (k : K) (now later : Instant) : Option V × Recent K V :=
  let m := m.work now later
  match m.entries.find? fun x => x.1 = k with
  | none => (none,m)
  | some x => if m.expired now x then (none,m.erase k) else (some x.2.1,m.touch k x.2)

def step (m : Recent K V) : Action K V → Recent K V
  | .setMaxEntries n => { m with maxEntries := n }
  | .setTimeToLive dur => { m with ttl := dur }
  | .setWorkInterval dur => { m with workInterval := dur }
  | .insert k v _ now later => m.insert k v now later
  | .get k now later => (m.get k now later).2

def machine : Machine (Recent K V) (Action K V) where
  step m a := some (m.step a)

def init (K V : Type*) (ttl workInterval : Duration) : Recent K V := ⟨[],ttl,workInterval,{},0⟩

end Recent

/-- What the entries say but for the times of use. -/
def recent (c : Cache K V) (es : List (K × Entry V)) : Recent K V where
  entries := es.map fun x => (x.1,x.2.m_value,x.2.m_insertedAt)
  ttl := c.m_ttl
  workInterval := c.m_workInterval
  lastWork := c.m_lastWork
  maxEntries := c.m_maxEntries

/-- The entries of the cache in the order in which they were used, the last one first. -/
structure Orders (c : Cache K V) (clock : Instant) (es : List (K × Entry V)) : Prop where
  mem : ∀ x, x ∈ es ↔ x ∈ c.m_storage.entries
  sorted : es.Pairwise fun x y => y.2.m_usedAt.rank < x.2.m_usedAt.rank
  past : ∀ x ∈ es, x.2.m_usedAt.rank ≤ clock.rank

namespace Orders
variable {c c' : Cache K V} {clock now later : Instant} {es : List (K × Entry V)} {k : K} {e : Entry V}

omit [DecidableEq K] in
theorem nodup (h : Orders c clock es) : es.Nodup :=
  h.sorted.imp fun hlt heq => by
    rw [heq] at hlt
    exact Nat.lt_irrefl _ hlt

omit [DecidableEq K] in
theorem length_eq (h : Orders c clock es) : es.length = c.size :=
  ((List.perm_ext_iff_of_nodup h.nodup c.m_storage.nodup.of_map).mpr h.mem).length_eq

omit [DecidableEq K] in
/-- A key is in the list once. -/
theorem unique (h : Orders c clock es) {x y : K × Entry V} (hx : x ∈ es) (hy : y ∈ es)
    (hkey : x.1 = y.1) : x = y :=
  List.inj_on_of_nodup_map c.m_storage.nodup ((h.mem x).mp hx) ((h.mem y).mp hy) hkey

omit [DecidableEq K] in
/-- Entries that are dropped. -/
theorem filter (h : Orders c clock es) (p : K × Entry V → Bool)
    (hmem : ∀ x, x ∈ c'.m_storage.entries ↔ x ∈ c.m_storage.entries ∧ p x = true) :
    Orders c' clock (es.filter p) where
  mem x := by rw [List.mem_filter, h.mem, hmem]
  sorted := h.sorted.filter p
  past x hx := h.past x (List.mem_of_mem_filter hx)

/-- An entry that is used now, in the place of the one of its key. -/
theorem touch (h : Orders c clock es) (hclock : clock.rank < now.rank) (hused : e.m_usedAt = now)
    (hmem : ∀ x, x ∈ c'.m_storage.entries ↔
      x = (k,e) ∨ x.1 ≠ k ∧ x ∈ c.m_storage.entries) :
    Orders c' now ((k,e) :: es.filter fun x => x.1 ≠ k) where
  mem x := by
    rw [List.mem_cons, List.mem_filter, h.mem, hmem, decide_eq_true_iff, and_comm (a := x.1 ≠ k)]
  sorted := by
    refine List.pairwise_cons.mpr ⟨fun x hx => ?_,h.sorted.filter _⟩
    rw [hused]
    exact (h.past x (List.mem_of_mem_filter hx)).trans_lt hclock
  past x hx := by
    obtain rfl | hx := List.mem_cons.mp hx
    · rw [hused]
    · exact (h.past x (List.mem_of_mem_filter hx)).trans hclock.le

/-- What is evicted is the end of the list. -/
theorem evictOne (h : Orders c clock es) : Orders c.evictOne clock es.dropLast := by
  obtain rfl | ⟨before,x,rfl⟩ := List.eq_nil_or_concat es
  · have hnil : c.m_storage.entries = [] :=
      List.eq_nil_iff_forall_not_mem.mpr fun x hx => List.not_mem_nil ((h.mem x).mpr hx)
    have hsame : c.evictOne = c := by
      rw [Cache.evictOne, hnil]
    rw [hsame]
    exact h
  · rw [List.concat_eq_append] at h ⊢
    obtain ⟨-,-,hlast⟩ := List.pairwise_append.mp h.sorted
    have hx : x ∈ before ++ [x] := List.mem_append_right _ (List.mem_singleton_self x)
    obtain ⟨y,hy⟩ := exists_oldest (List.ne_nil_of_mem ((h.mem x).mp hx))
    obtain rfl : y = x := by
      obtain hbefore | hy' := List.mem_append.mp ((h.mem y).mpr hy.mem)
      · have hlt := hlast y hbefore x (List.mem_singleton_self x)
        exact absurd (hy.rank_le ((h.mem x).mp hx)) (Nat.not_le.mpr hlt)
      · exact List.mem_singleton.mp hy'
    rw [evictOne_eq hy, List.dropLast_concat]
    refine ⟨fun z => ?_,(List.pairwise_append.mp h.sorted).1,fun z hz =>
      h.past z (List.mem_append_left _ hz)⟩
    rw [Storage.mem_erase, ← h.mem, List.mem_append, List.mem_singleton]
    constructor
    · intro hz
      refine ⟨.inl hz,fun hkey => ?_⟩
      have heq := h.unique (List.mem_append_left _ hz) hx hkey
      have hlt := hlast z hz y (List.mem_singleton_self y)
      rw [heq] at hlt
      exact Nat.lt_irrefl _ hlt
    · rintro ⟨hz | rfl,hkey⟩
      · exact hz
      · exact absurd rfl hkey

/-- A lookup in the list is one in the storage. -/
theorem find (h : Orders c clock es) (k : K) :
    (es.find? fun x => x.1 = k).map Prod.snd = c.m_storage.find k := by
  cases hfind : es.find? fun x => x.1 = k with
  | none =>
    cases hstore : c.m_storage.find k with
    | none => rfl
    | some e =>
      have hmem := (h.mem _).mpr (Storage.mem_of_find hstore)
      exact absurd (decide_eq_true rfl) (List.find?_eq_none.mp hfind _ hmem)
  | some x =>
    have hmem := (h.mem x).mp (List.mem_of_find?_eq_some hfind)
    obtain rfl : x.1 = k :=
      of_decide_eq_true (List.find?_some (p := fun x : K × Entry V => decide (x.1 = k)) hfind)
    cases hstore : c.m_storage.find x.1 with
    | none => exact absurd hmem (Storage.not_mem_of_find (e := x.2) hstore)
    | some e => rw [Option.map_some, entry_unique hmem (Storage.mem_of_find hstore)]

omit [DecidableEq K] in
theorem mono (h : Orders c clock es) (hle : clock.rank ≤ now.rank) : Orders c now es :=
  ⟨h.mem,h.sorted,fun x hx => (h.past x hx).trans hle⟩

omit [DecidableEq K] in
/-- The cleanup, if it is due. -/
theorem work (h : Orders c clock es) (now later : Instant) :
    ∃ es', Orders (if c.workDue now then c.doWork later else c) clock es' ∧
      recent (if c.workDue now then c.doWork later else c) es' = (recent c es).work now later := by
  have hdue : (recent c es).workDue now = c.workDue now := rfl
  rw [Recent.work, hdue]
  cases hw : c.workDue now with
  | false => exact ⟨es,h,rfl⟩
  | true =>
    refine ⟨es.filter fun x => !(recent c es).expired later (x.1,x.2.m_value,x.2.m_insertedAt),
      h.filter _ fun x => ?_,?_⟩
    · have hiff : x ∈ (if c.workDue now then c.doWork later else c).m_storage.entries ↔ _ :=
        mem_cleanup_iff
      rw [hw, if_pos rfl] at hiff
      rw [if_pos rfl, hiff]
      refine and_congr_right fun _ => ?_
      rw [Bool.not_eq_true', ← Bool.not_eq_true, Recent.expired_iff]
      exact not_congr (and_iff_right rfl)
    · rw [if_pos rfl, if_pos rfl, Cache.doWork]
      split_ifs <;> simp only [recent, List.filter_map] <;> rfl

/-- The first statement of `insert`. -/
theorem room (h : Orders c clock es) :
    ∃ es', Orders c.makeRoom clock es' ∧ recent c.makeRoom es' = (recent c es).room := by
  have hlength : (recent c es).entries.length = c.size := by
    rw [← h.length_eq]
    exact List.length_map _
  obtain ⟨httl,hinterval,hlast⟩ := c.makeRoom_settings
  unfold makeRoom at httl hinterval hlast ⊢
  rw [Recent.room, hlength]
  change ∃ es', _ ∧ _ = if 0 < c.m_maxEntries ∧ c.m_maxEntries ≤ c.size then _ else _
  split_ifs at httl hinterval hlast ⊢ with hfull
  · refine ⟨es.dropLast,h.evictOne,?_⟩
    simp only [recent, httl, hinterval, hlast, evictOne_maxEntries, List.map_dropLast]
  · exact ⟨es,h,rfl⟩

theorem insert (h : Orders c clock es) (hclock : clock.rank < now.rank) (k : K) (v : V)
    (order : List K) (later : Instant) :
    ∃ es', Orders (c.insert k v order now later) now es' ∧
      recent (c.insert k v order now later) es' = (recent c es).insert k v now later := by
  obtain ⟨es₁,h₁,heq⟩ := h.room
  have htouch : Orders { c.makeRoom with
      m_storage := c.makeRoom.m_storage.insertOrAssign order k ⟨v,now,now⟩ } now _ :=
    h₁.touch (e := ⟨v,now,now⟩) (k := k) hclock rfl fun x =>
      Storage.mem_insertOrAssign.trans (or_congr_left Prod.mk_inj.symm)
  obtain ⟨es₂,h₂,heq₂⟩ := htouch.work now later
  refine ⟨es₂,h₂,heq₂.trans ?_⟩
  rw [Recent.insert, ← heq]
  congr 1
  simp only [recent, Recent.touch, Recent.erase, List.map_cons, List.filter_map]
  rfl

theorem get (h : Orders c clock es) (hclock : clock.rank < now.rank) (k : K) (later : Instant) :
    ∃ es', Orders (c.get k now later).2 now es' ∧
      (recent c es).get k now later =
        ((c.get k now later).1,recent (c.get k now later).2 es') := by
  obtain ⟨es₁,h₁,heq⟩ := h.work now later
  rw [Cache.get, Recent.get, ← heq]
  generalize (if c.workDue now then c.doWork later else c) = c₁ at h₁ ⊢
  have hlookup : ((recent c₁ es₁).entries.find? fun x => x.1 = k) =
      (es₁.find? fun x => x.1 = k).map fun x => (x.1,x.2.m_value,x.2.m_insertedAt) :=
    List.find?_map ..
  rw [hlookup, ← h₁.find k]
  cases hfind : es₁.find? fun x => x.1 = k with
  | none => exact ⟨es₁,h₁.mono hclock.le,rfl⟩
  | some x =>
    have hmem := (h₁.mem x).mp (List.mem_of_find?_eq_some hfind)
    obtain rfl : x.1 = k :=
      of_decide_eq_true (List.find?_some (p := fun x : K × Entry V => decide (x.1 = k)) hfind)
    have hexpired : (recent c₁ es₁).expired now (x.1,x.2.m_value,x.2.m_insertedAt) = true ↔
        ¬c₁.m_ttl.isZero ∧ (now.durationSince x.2.m_insertedAt).cmp c₁.m_ttl = .gt :=
      Recent.expired_iff.trans (and_congr_left' (iff_of_eq (Bool.not_eq_true _).symm))
    dsimp only [Option.map_some]
    by_cases hold : ¬c₁.m_ttl.isZero ∧ (now.durationSince x.2.m_insertedAt).cmp c₁.m_ttl = .gt
    · rw [if_pos hold, if_pos (hexpired.mpr hold)]
      refine ⟨es₁.filter fun y => y.1 ≠ x.1,(h₁.filter _ fun y => ?_).mono hclock.le,?_⟩
      · rw [Storage.mem_erase, decide_eq_true_iff]
      · simp only [recent, Recent.erase, List.filter_map]
        rfl
    · rw [if_neg hold, if_neg (mt hexpired.mp hold)]
      refine ⟨(x.1,{ x.2 with m_usedAt := now }) :: es₁.filter fun y => y.1 ≠ x.1,
        h₁.touch hclock rfl fun y => ?_,?_⟩
      · rw [Storage.mem_update]
        constructor
        · rintro ⟨e,he,hy⟩
          split_ifs at hy with hkey
          · left
            rw [hkey] at he
            rw [Prod.ext_iff, hy, entry_unique he hmem]
            exact ⟨hkey,rfl⟩
          · rw [← hy] at he
            exact .inr ⟨hkey,he⟩
        · rintro (rfl | ⟨hkey,hy⟩)
          · exact ⟨x.2,hmem,(if_pos rfl).symm⟩
          · exact ⟨y.2,hy,(if_neg hkey).symm⟩
      · simp only [recent, Recent.touch, Recent.erase, List.map_cons, List.filter_map]
        rfl

end Orders

/-- The clock advances from call to call, and does not go back within one. -/
def Advances (s : State K V) : Action K V → Prop
  | .insert _ _ _ now later | .get _ now later =>
    s.clock.cmp now = .lt ∧ (s.cache.workDue now = true → now.cmp later ≠ .gt)
  | _ => True

instance (s : State K V) (a : Action K V) : Decidable (Advances s a) :=
  match a with
  | .insert _ _ _ _ _ | .get _ _ _ => inferInstanceAs (Decidable (_ = _ ∧ (_ → _ ≠ _)))
  | .setMaxEntries _ | .setTimeToLive _ | .setWorkInterval _ => inferInstanceAs (Decidable True)

/-- What a get returns. -/
def gets (s : State K V) (a : Action K V) (_ : State K V) : List (Option V) :=
  match a with
  | .get k now later => [(s.cache.get k now later).1]
  | _ => []

def Recent.gets (m : Recent K V) (a : Action K V) (_ : Recent K V) : List (Option V) :=
  match a with
  | .get k now later => [(m.get k now later).1]
  | _ => []

theorem lockstep_recent : (Recent.machine : Machine (Recent K V) (Action K V)).Lockstep
    (machine.restrict Advances) (fun s m => ∃ es, Orders s.cache s.clock es ∧ m = recent s.cache es)
    gets Recent.gets where
  step := by
    rintro s t a m ⟨es,h,rfl⟩ hs
    obtain ⟨hg,hs⟩ := Machine.restrict_step.mp hs
    obtain rfl : s.step a = t := Option.some.inj hs
    refine ⟨_,rfl,?_⟩
    cases a with
    | setMaxEntries n | setTimeToLive dur | setWorkInterval dur =>
      exact ⟨⟨es,⟨h.mem,h.sorted,h.past⟩,rfl⟩,rfl⟩
    | insert k v order now later =>
      have hclock := Instant.cmp_eq_lt_iff.mp hg.1
      have hlast := (le_latest (Instant.cmp_ne_gt_iff.mpr hclock.le) hg.2).2
      obtain ⟨es',h',heq⟩ := h.insert hclock k v order later
      exact ⟨⟨es',h'.mono hlast,heq.symm⟩,rfl⟩
    | get k now later =>
      have hclock := Instant.cmp_eq_lt_iff.mp hg.1
      have hlast := (le_latest (Instant.cmp_ne_gt_iff.mpr hclock.le) hg.2).2
      obtain ⟨es',h',heq⟩ := h.get hclock k later
      refine ⟨⟨es',h'.mono hlast,congrArg Prod.snd heq⟩,?_⟩
      simp only [gets, Recent.gets, heq]

/-- The gets of a run return what the gets of the list return, and both hold as many keys, for any
order in which the storage iterates. -/
theorem run_recent {ttl workInterval : Duration} (as : List (Action K V)) (s : State K V)
    (h : (machine.restrict Advances).run (init K V ttl workInterval) as = some s) :
    ∃ m, Recent.machine.run (Recent.init K V ttl workInterval) as = some m ∧
      (machine.restrict Advances).history gets (init K V ttl workInterval) as =
        Recent.machine.history Recent.gets (Recent.init K V ttl workInterval) as ∧
      s.cache.size = m.entries.length := by
  have hinit : ∃ es, Orders (init K V ttl workInterval).cache (init K V ttl workInterval).clock es ∧
      Recent.init K V ttl workInterval = recent (init K V ttl workInterval).cache es :=
    ⟨[],⟨fun _ => Iff.rfl,.nil,nofun⟩,rfl⟩
  obtain ⟨m,hm,⟨es,hes,rfl⟩,hgets⟩ := lockstep_recent.run hinit h
  refine ⟨_,hm,hgets,?_⟩
  rw [← hes.length_eq]
  exact (List.length_map _).symm

/-- A read saves the first of two keys from eviction, whatever the iteration order. -/
def threeKeys (order : List ℕ) : List (Action ℕ ℕ) :=
  [.setMaxEntries 2,.insert 7 70 order ⟨1,0⟩ {},.insert 8 80 order ⟨2,0⟩ {},.get 7 ⟨3,0⟩ {},
    .insert 9 90 order ⟨4,0⟩ {},.get 7 ⟨5,0⟩ {},.get 8 ⟨6,0⟩ {}]

theorem run_recent_threeKeys :
    ∃ s, (machine.restrict Advances).run (init ℕ ℕ ⟨0,0⟩ ⟨60,0⟩) (threeKeys [9,7,8]) = some s ∧
      ∃ m, Recent.machine.run (Recent.init ℕ ℕ ⟨0,0⟩ ⟨60,0⟩) (threeKeys [9,7,8]) = some m ∧
        m.entries = [(7,70,⟨1,0⟩),(9,90,⟨4,0⟩)] ∧
        (machine.restrict Advances).history gets (init ℕ ℕ ⟨0,0⟩ ⟨60,0⟩) (threeKeys [9,7,8]) =
          [some 70,some 70,none] := by
  have hrun : ((machine.restrict Advances).run (init ℕ ℕ ⟨0,0⟩ ⟨60,0⟩)
      (threeKeys [9,7,8])).isSome := by decide +kernel
  obtain ⟨s,hs⟩ := Option.isSome_iff_exists.mp hrun
  obtain ⟨m,hm,hgets,-⟩ := run_recent _ s hs
  have hentries : (Recent.machine.run (Recent.init ℕ ℕ ⟨0,0⟩ ⟨60,0⟩) (threeKeys [9,7,8])).map
    Recent.entries = some [(7,70,⟨1,0⟩),(9,90,⟨4,0⟩)] := by decide +kernel
  rw [hm] at hentries
  refine ⟨s,hs,m,hm,Option.some.inj hentries,hgets.trans ?_⟩
  decide +kernel

/-- The key that a call is about. -/
def Action.key : Action K V → Option K
  | .insert k _ _ _ _ | .get k _ _ => some k
  | .setMaxEntries _ | .setTimeToLive _ | .setWorkInterval _ => none

/-- The key k is in the list, behind keys of D only, and nothing expires. -/
structure Recent.Behind (m : Recent K V) (k : K) (v : V) (D : Finset K) : Prop where
  found : ∃ before t after, m.entries = before ++ (k,v,t) :: after ∧ (before.map Prod.fst).Nodup ∧
    ∀ x ∈ before, x.1 ∈ D
  zero : m.ttl.isZero = true
  apart : k ∉ D
  limit : m.maxEntries = 0 ∨ D.card + 1 < m.maxEntries

namespace Recent.Behind
variable {m : Recent K V} {k : K} {v : V} {D : Finset K} {now later : Instant}

omit [DecidableEq K] in
theorem unexpired (h : m.ttl.isZero = true) (reading : Instant) (x : K × V × Instant) :
    m.expired reading x = false := by
  rw [expired, h]
  rfl

omit [DecidableEq K] in
theorem work (h : Behind m k v D) (now later : Instant) : Behind (m.work now later) k v D := by
  unfold Recent.work
  split_ifs
  · refine ⟨?_,h.zero,h.apart,h.limit⟩
    simp only [unexpired h.zero, Bool.not_false, List.filter_true]
    exact h.found
  · exact h

theorem touch (h : Behind m k v D) {j : K} (hj : j ∈ D) (x : V × Instant) :
    Behind (m.touch j x) k v D := by
  obtain ⟨before,t,after,heq,hnodup,hmem⟩ := h.found
  have hne : k ≠ j := fun hk => h.apart (hk ▸ hj)
  refine ⟨⟨(j,x) :: before.filter fun y => y.1 ≠ j,t,after.filter fun y => y.1 ≠ j,?_,?_,?_⟩,h.zero,
    h.apart,h.limit⟩
  · change _ :: m.entries.filter _ = _
    have hkept : ((k,v,t) :: after).filter (fun y => y.1 ≠ j) =
        (k,v,t) :: after.filter fun y => y.1 ≠ j := List.filter_cons_of_pos (decide_eq_true hne)
    rw [heq, List.filter_append, hkept]
    rfl
  · rw [List.map_cons]
    refine List.nodup_cons.mpr ⟨fun hmem => ?_,hnodup.sublist (List.filter_sublist.map Prod.fst)⟩
    obtain ⟨y,hy,hkey⟩ := List.mem_map.mp hmem
    exact of_decide_eq_true (List.mem_filter.mp hy).2 hkey
  · intro y hy
    obtain rfl | hy := List.mem_cons.mp hy
    · exact hj
    · exact hmem y (List.mem_of_mem_filter hy)

/-- A list that is full is longer than what is ahead of the key. -/
theorem room (h : Behind m k v D) : Behind m.room k v D := by
  obtain ⟨before,t,after,heq,hnodup,hmem⟩ := h.found
  unfold Recent.room
  split_ifs with hfull
  · have hle : before.length ≤ D.card := by
      rw [← List.length_map (f := Prod.fst), ← List.toFinset_card_of_nodup hnodup]
      refine Finset.card_le_card fun j hj => ?_
      obtain ⟨x,hx,rfl⟩ := List.mem_map.mp (List.mem_toFinset.mp hj)
      exact hmem x hx
    have hlimit : D.card + 1 < m.maxEntries :=
      h.limit.resolve_left (Nat.pos_iff_ne_zero.mp hfull.1)
    have hafter : after ≠ [] := by
      rintro rfl
      have hlen := hfull.2
      rw [heq, List.length_append, List.length_singleton] at hlen
      omega
    refine ⟨⟨before,t,after.dropLast,?_,hnodup,hmem⟩,h.zero,h.apart,h.limit⟩
    change m.entries.dropLast = _
    rw [heq, List.dropLast_append_of_ne_nil (List.cons_ne_nil _ _),
      List.dropLast_cons_of_ne_nil hafter]
  · exact h

theorem step (h : Behind m k v D) {a : Action K V} (ha : ∃ j ∈ D, a.key = some j) :
    Behind (m.step a) k v D := by
  obtain ⟨j,hj,hkey⟩ := ha
  cases a with
  | setMaxEntries n | setTimeToLive dur | setWorkInterval dur => cases hkey
  | insert j v' order now later =>
    cases hkey
    exact (h.room.touch hj _).work now later
  | get j now later =>
    cases hkey
    have hwork := h.work now later
    rw [Recent.step, Recent.get]
    split
    · exact hwork
    · rw [if_neg (Bool.not_eq_true _ ▸ unexpired hwork.zero now _)]
      exact hwork.touch hj _

theorem get (h : Behind m k v D) (now later : Instant) : (m.get k now later).1 = some v := by
  have hwork := h.work now later
  obtain ⟨before,t,after,heq,-,hmem⟩ := hwork.found
  have hfind : ((m.work now later).entries.find? fun x => x.1 = k) = some (k,v,t) := by
    have hbefore : (before.find? fun x => x.1 = k) = none :=
      List.find?_eq_none.mpr fun x hx hk => h.apart (of_decide_eq_true hk ▸ hmem x hx)
    have hself : (((k,v,t) :: after).find? fun x => x.1 = k) = some (k,v,t) :=
      List.find?_cons_of_pos (decide_eq_true rfl)
    rw [heq, List.find?_append, hbefore, hself]
    rfl
  rw [Recent.get, hfind]
  exact congrArg Prod.fst (if_neg (Bool.not_eq_true _ ▸ unexpired hwork.zero now _))

omit [DecidableEq K] in
/-- A key that has just been used is behind no other. -/
theorem of_front {after : List (K × V × Instant)} {t : Instant} (heq : m.entries = (k,v,t) :: after)
    (hzero : m.ttl.isZero = true) (hk : k ∉ D)
    (hlimit : m.maxEntries = 0 ∨ D.card + 1 < m.maxEntries) : Behind m k v D :=
  ⟨⟨[],t,after,heq,List.nodup_nil,nofun⟩,hzero,hk,hlimit⟩

theorem run {t : Recent K V} {as : List (Action K V)} (h : Behind m k v D)
    (has : ∀ a ∈ as, ∃ j ∈ D, a.key = some j) (ht : Recent.machine.run m as = some t) :
    Behind t k v D := by
  induction as generalizing m with
  | nil =>
    cases ht
    exact h
  | cons a as ih =>
    rw [Machine.run_cons] at ht
    exact ih (h.step (has a List.mem_cons_self)) (fun b hb => has b (List.mem_cons_of_mem a hb)) ht

end Recent.Behind

/-- A call that inserts the key with the value, or finds it with that value. -/
def Uses (s : State K V) (k : K) (v : V) : Action K V → Prop
  | .insert j w _ _ _ => j = k ∧ w = v
  | .get j now later => j = k ∧ (s.cache.get j now later).1 = some v
  | _ => False

omit [DecidableEq K] in
theorem Recent.room_settings (m : Recent K V) :
    m.room.ttl = m.ttl ∧ m.room.maxEntries = m.maxEntries := by
  unfold Recent.room
  split_ifs <;> exact ⟨rfl,rfl⟩

omit [DecidableEq K] in
theorem Recent.work_settings (m : Recent K V) (now later : Instant) :
    (m.work now later).ttl = m.ttl ∧ (m.work now later).maxEntries = m.maxEntries := by
  unfold Recent.work
  split_ifs <;> exact ⟨rfl,rfl⟩

/-- Such a call brings the key to the front of the list. -/
theorem behind_of_uses {s : State K V} {k : K} {v : V} {a : Action K V} {m : Recent K V}
    {D : Finset K} (ha : Uses s k v a) (hgets : gets s a (s.step a) = Recent.gets m a (m.step a))
    (hzero : m.ttl.isZero = true) (hk : k ∉ D)
    (hlimit : m.maxEntries = 0 ∨ D.card + 1 < m.maxEntries) : (m.step a).Behind k v D := by
  cases a with
  | setMaxEntries n | setTimeToLive dur | setWorkInterval dur => exact ha.elim
  | insert j w order now later =>
    obtain ⟨rfl,rfl⟩ := ha
    obtain ⟨httl,hmax⟩ := m.room_settings
    exact (Recent.Behind.of_front rfl (httl ▸ hzero) hk (hmax ▸ hlimit)).work now later
  | get j now later =>
    obtain ⟨rfl,ha⟩ := ha
    obtain ⟨httl,hmax⟩ := m.work_settings now later
    have hresult : (m.get j now later).1 = some v :=
      (List.head_eq_of_cons_eq hgets).symm.trans ha
    rw [Recent.step]
    rw [Recent.get] at hresult ⊢
    split at hresult
    · cases hresult
    · rename_i x hx
      split_ifs at hresult with hold
      cases hresult
      rw [if_neg hold]
      exact .of_front rfl (httl ▸ hzero) hk (hmax ▸ hlimit)

/-- Where the clock advances from call to call, a key that was used is found again if since then
fewer than the limit minus one other keys have been used, and nothing expires. -/
theorem recent_kept {ttl workInterval : Duration} {s t : State K V} {k : K} {v : V}
    {a : Action K V} {as : List (Action K V)} {D : Finset K} {now later : Instant}
    (hs : (machine.restrict Advances).Reaches (fun _ _ => True) (init K V ttl workInterval) s)
    (hzero : s.cache.m_ttl.isZero = true)
    (hlimit : s.cache.m_maxEntries = 0 ∨ D.card + 1 < s.cache.m_maxEntries) (hk : k ∉ D)
    (ha : Uses s k v a) (has : ∀ b ∈ as, ∃ j ∈ D, b.key = some j)
    (ht : (machine.restrict Advances).run s (a :: as) = some t)
    (hnext : Advances t (.get k now later)) : (t.cache.get k now later).1 = some v := by
  obtain ⟨es,hes⟩ := hs.invariant (fun s => ∃ es, Orders s.cache s.clock es)
    ⟨[],⟨fun _ => Iff.rfl,.nil,nofun⟩⟩ fun u b w ⟨es,hes⟩ _ hw => by
      obtain ⟨-,-,⟨es',hes',-⟩,-⟩ := lockstep_recent.step ⟨es,hes,rfl⟩ hw
      exact ⟨es',hes'⟩
  rw [Machine.run_cons] at ht
  obtain ⟨u,hu,ht⟩ := Option.bind_eq_some_iff.mp ht
  obtain ⟨m,hm,hrel,hgets⟩ := lockstep_recent.step ⟨es,hes,rfl⟩ hu
  obtain rfl : (recent s.cache es).step a = m := Option.some.inj hm
  obtain rfl : s.step a = u := Option.some.inj (Machine.restrict_step.mp hu).2
  have hbehind := behind_of_uses (m := recent s.cache es) ha hgets hzero hk hlimit
  obtain ⟨m',hm',⟨es',hes',rfl⟩,-⟩ := lockstep_recent.run hrel ht
  have hget := (hbehind.run has hm').get now later
  obtain ⟨_,-,heq⟩ := hes'.get (Instant.cmp_eq_lt_iff.mp hnext.1) k later
  rw [heq] at hget
  exact hget

/-- A key survives two others in a cache for four. -/
theorem recent_kept_two :
    ∃ t : State ℕ ℕ, (machine.restrict Advances).run
        ((init ℕ ℕ ⟨0,0⟩ ⟨60,0⟩).step (.setMaxEntries 4))
        [.insert 7 70 [] ⟨1,0⟩ {},.insert 8 80 [] ⟨2,0⟩ {},.insert 9 90 [] ⟨3,0⟩ {},
          .insert 8 81 [] ⟨4,0⟩ {}] = some t ∧ (t.cache.get 7 ⟨5,0⟩ {}).1 = some 70 := by
  have hrun : ((machine.restrict Advances).run ((init ℕ ℕ ⟨0,0⟩ ⟨60,0⟩).step (.setMaxEntries 4))
      [.insert 7 70 [] ⟨1,0⟩ {},.insert 8 80 [] ⟨2,0⟩ {},.insert 9 90 [] ⟨3,0⟩ {},
        .insert 8 81 [] ⟨4,0⟩ {}]).map (fun t => (t.clock.cmp ⟨5,0⟩,t.cache.workDue ⟨5,0⟩)) =
      some (.lt,false) := by decide +kernel
  obtain ⟨t,ht,hv⟩ := Option.map_eq_some_iff.mp hrun
  obtain ⟨hclock,hdue⟩ := Prod.mk.inj hv
  have hs : (machine.restrict Advances).Reaches (fun _ _ => True) (init ℕ ℕ ⟨0,0⟩ ⟨60,0⟩)
      ((init ℕ ℕ ⟨0,0⟩ ⟨60,0⟩).step (.setMaxEntries 4)) :=
    .step (a := .setMaxEntries 4) .refl trivial (Machine.restrict_step.mpr ⟨trivial,rfl⟩)
  refine ⟨t,ht,recent_kept (D := {8,9}) (a := .insert 7 70 [] ⟨1,0⟩ {}) hs rfl
    (.inr (by decide)) (by decide) ⟨rfl,rfl⟩ ?_ ht ⟨hclock,fun h => ?_⟩⟩
  · simp [Action.key]
  · cases hdue.symm.trans h

end Asp.Cache
