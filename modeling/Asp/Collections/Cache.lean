import Asp.Foundation.Machine
import Asp.Time.Since
import Mathlib.Data.List.Sort

/-! `asp::Cache` over a storage that is a finite map. Each clock reading is an argument. -/
namespace Asp

namespace Cache

structure Entry (V : Type*) where
  m_value : V
  m_insertedAt : Instant
  m_usedAt : Instant
  deriving DecidableEq

/-- A finite map, in its iteration order. -/
structure Storage (K V : Type*) where
  entries : List (K × Entry V)
  nodup : (entries.map Prod.fst).Nodup

namespace Storage
variable {K V : Type*} [DecidableEq K]

def size (m : Storage K V) : ℕ := m.entries.length

def find (m : Storage K V) (k : K) : Option (Entry V) :=
  (m.entries.find? fun x => x.1 = k).map Prod.snd

/-- The entries that satisfy `p`. -/
def keep (m : Storage K V) (p : K × Entry V → Bool) : Storage K V :=
  ⟨m.entries.filter p,m.nodup.sublist (List.filter_sublist.map Prod.fst)⟩

def erase (m : Storage K V) (k : K) : Storage K V := m.keep fun x => x.1 ≠ k

/-- Write to the entry of a key in place. -/
def update (m : Storage K V) (k : K) (f : Entry V → Entry V) : Storage K V where
  entries := m.entries.map fun x => if x.1 = k then (x.1,f x.2) else x
  nodup := by
    have hkeys : (Prod.fst ∘ fun x : K × Entry V => if x.1 = k then (x.1,f x.2) else x) = Prod.fst := by
      funext x
      rw [Function.comp_apply]
      split_ifs <;> rfl
    rw [List.map_map, hkeys]
    exact m.nodup

/-- A new key may change the iteration order to any other: `order` lists the keys in it. -/
def add (m : Storage K V) (order : List K) (k : K) (e : Entry V)
    (hk : k ∉ m.entries.map Prod.fst) : Storage K V where
  entries := (m.entries ++ [(k,e)]).insertionSort fun x y => order.idxOf x.1 ≤ order.idxOf y.1
  nodup := by
    have hnodup : ((m.entries ++ [(k,e)]).map Prod.fst).Nodup := by
      rw [List.map_append]
      exact List.nodup_append.mpr ⟨m.nodup,List.nodup_singleton k,by
        rintro a ha b hb rfl
        obtain rfl := List.mem_singleton.mp hb
        exact hk ha⟩
    exact ((List.perm_insertionSort _ _).map Prod.fst).nodup_iff.mpr hnodup

def insertOrAssign (m : Storage K V) (order : List K) (k : K) (e : Entry V) : Storage K V :=
  if hk : k ∈ m.entries.map Prod.fst then m.update k fun _ => e else m.add order k e hk

section Entries
variable {m : Storage K V} {k k' : K} {e e' : Entry V}

theorem mem_of_find (h : m.find k = some e) : (k,e) ∈ m.entries := by
  obtain ⟨⟨k',e'⟩,hfind,rfl⟩ := Option.map_eq_some_iff.mp h
  have hk := List.find?_some hfind
  obtain rfl : k' = k := of_decide_eq_true hk
  exact List.mem_of_find?_eq_some hfind

theorem not_mem_of_find (h : m.find k = none) : (k,e) ∉ m.entries := by
  intro hmem
  have hnone := List.find?_eq_none.mp (Option.map_eq_none_iff.mp h) (k,e) hmem
  exact hnone (decide_eq_true rfl)

theorem mem_erase : (k',e) ∈ (m.erase k).entries ↔ (k',e) ∈ m.entries ∧ k' ≠ k := by
  rw [erase, keep, List.mem_filter, decide_eq_true_iff]

theorem mem_update {f : Entry V → Entry V} : (k',e') ∈ (m.update k f).entries ↔
    ∃ e, (k',e) ∈ m.entries ∧ e' = if k' = k then f e else e := by
  rw [update, List.mem_map]
  constructor
  · rintro ⟨⟨k₁,e₁⟩,hmem,heq⟩
    split_ifs at heq with hk <;> obtain ⟨rfl,rfl⟩ := Prod.mk.inj heq
    · exact ⟨e₁,hmem,(if_pos hk).symm⟩
    · exact ⟨e₁,hmem,(if_neg hk).symm⟩
  · rintro ⟨e₁,hmem,rfl⟩
    refine ⟨(k',e₁),hmem,?_⟩
    split_ifs <;> rfl

theorem mem_add {order : List K} {hk : k ∉ m.entries.map Prod.fst} :
    (k',e') ∈ (m.add order k e hk).entries ↔ (k',e') ∈ m.entries ∨ k' = k ∧ e' = e := by
  rw [add, List.mem_insertionSort, List.mem_append, List.mem_singleton, Prod.mk_inj]

theorem mem_insertOrAssign {order : List K} : (k',e') ∈ (m.insertOrAssign order k e).entries ↔
    k' = k ∧ e' = e ∨ k' ≠ k ∧ (k',e') ∈ m.entries := by
  unfold insertOrAssign
  split_ifs with hk
  · obtain ⟨⟨k₁,e₁⟩,hmem,rfl⟩ := List.mem_map.mp hk
    rw [mem_update]
    by_cases hkk : k' = k₁
    · subst hkk
      simp only [if_pos, true_and, ne_eq, not_true, false_and, or_false]
      exact ⟨fun ⟨_,_,h⟩ => h,fun h => ⟨e₁,hmem,h⟩⟩
    · simp only [hkk, if_false, false_and, false_or, ne_eq, not_false_iff, true_and]
      exact ⟨fun ⟨_,h,he⟩ => he ▸ h,fun h => ⟨e',h,rfl⟩⟩
  · rw [mem_add]
    constructor
    · rintro (h | h)
      · refine .inr ⟨?_,h⟩
        rintro rfl
        exact hk (List.mem_map_of_mem h)
      · exact .inl h
    · rintro (h | h)
      · exact .inr h
      · exact .inl h.2

end Entries
end Storage
end Cache

open Cache

structure Cache (K V : Type*) where
  m_storage : Storage K V := ⟨[],List.nodup_nil⟩
  m_ttl : Duration := ⟨0,0⟩
  m_workInterval : Duration := Duration.fromMinutes 1
  m_lastWork : Instant := {}
  m_maxEntries : ℕ := 0

namespace Cache
variable {K V : Type*} [DecidableEq K]

def setMaxEntries (c : Cache K V) (m : ℕ) : Cache K V := { c with m_maxEntries := m }

def setTimeToLive (c : Cache K V) (dur : Duration) : Cache K V := { c with m_ttl := dur }

def setWorkInterval (c : Cache K V) (dur : Duration) : Cache K V := { c with m_workInterval := dur }

def size (c : Cache K V) : ℕ := c.m_storage.size

/-- The first entry with the least `m_usedAt`, from the loop of `evictOne`. -/
def oldest (best : K × Entry V) : List (K × Entry V) → K × Entry V
  | [] => best
  | x :: rest => oldest (if x.2.m_usedAt.cmp best.2.m_usedAt = .lt then x else best) rest

def evictOne (c : Cache K V) : Cache K V :=
  match c.m_storage.entries with
  | [] => c
  | first :: rest =>
    { c with m_storage := c.m_storage.erase (oldest first (first :: rest)).1 }

/-- `reading` is the clock reading of `doWork`. -/
def doWork (c : Cache K V) (reading : Instant) : Cache K V :=
  if c.m_ttl.isZero then { c with m_lastWork := reading }
  else { c with
    m_lastWork := reading
    m_storage := c.m_storage.keep fun x =>
      (reading.durationSince x.2.m_insertedAt).cmp c.m_ttl ≠ .gt }

/-- The cleanup is due at the reading `now`. -/
def workDue (c : Cache K V) (now : Instant) : Bool :=
  (now.durationSince c.m_lastWork).cmp c.m_workInterval = .gt

/-- `now` is the first clock reading of the call and `later` that of a cleanup. -/
def insert (c : Cache K V) (k : K) (v : V) (order : List K) (now later : Instant) : Cache K V :=
  let c := if 0 < c.m_maxEntries ∧ c.m_maxEntries ≤ c.size then c.evictOne else c
  let c := { c with m_storage := c.m_storage.insertOrAssign order k ⟨v,now,now⟩ }
  if c.workDue now then c.doWork later else c

def get (c : Cache K V) (k : K) (now later : Instant) : Option V × Cache K V :=
  let c := if c.workDue now then c.doWork later else c
  match c.m_storage.find k with
  | none => (none,c)
  | some e =>
    if ¬c.m_ttl.isZero ∧ (now.durationSince e.m_insertedAt).cmp c.m_ttl = .gt then
      (none,{ c with m_storage := c.m_storage.erase k })
    else
      (some e.m_value,
        { c with m_storage := c.m_storage.update k fun e => { e with m_usedAt := now } })

/-- The last clock reading of a call of `insert` or `get`. -/
def latest (c : Cache K V) (now later : Instant) : Instant := if c.workDue now then later else now

/-- A cache with the last clock reading, and the most recent insert of each key. -/
structure State (K V : Type*) where
  cache : Cache K V
  clock : Instant
  inserted : K → Option (V × Instant)

inductive Action (K V : Type*)
  | setMaxEntries (m : ℕ)
  | setTimeToLive (dur : Duration)
  | setWorkInterval (dur : Duration)
  | insert (k : K) (v : V) (order : List K) (now later : Instant)
  | get (k : K) (now later : Instant)

def State.step (s : State K V) : Action K V → State K V
  | .setMaxEntries m => { s with cache := s.cache.setMaxEntries m }
  | .setTimeToLive dur => { s with cache := s.cache.setTimeToLive dur }
  | .setWorkInterval dur => { s with cache := s.cache.setWorkInterval dur }
  | .insert k v order now later =>
    { cache := s.cache.insert k v order now later
      clock := s.cache.latest now later
      inserted := Function.update s.inserted k (some (v,now)) }
  | .get k now later =>
    { s with cache := (s.cache.get k now later).2, clock := s.cache.latest now later }

def machine : Foundation.Machine (State K V) (Action K V) where
  step s a := some (s.step a)

/-- An empty cache with these two settings and no limit. -/
def init (K V : Type*) (ttl workInterval : Duration) : State K V where
  cache := { m_ttl := ttl, m_workInterval := workInterval }
  clock := {}
  inserted := fun _ => none

end Cache
end Asp
