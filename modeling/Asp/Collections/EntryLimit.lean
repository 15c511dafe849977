import Asp.Collections.Cache

/-! The number of entries of a cache against its limit. An insert evicts at most one entry. -/
namespace Asp.Cache
open Foundation
variable {K V : Type*} [DecidableEq K]

namespace Storage
variable {m : Storage K V} {k : K} {e : Entry V}

omit [DecidableEq K] in
theorem size_keep_le (p : K × Entry V → Bool) : (m.keep p).size ≤ m.size :=
  List.length_filter_le p m.entries

/-- A key has one entry. -/
theorem size_erase (h : (k,e) ∈ m.entries) : (m.erase k).size + 1 = m.size := by
  have hone : (m.entries.filter fun x => x.1 = k).length = 1 := by
    have hcount := List.count_eq_one_of_mem m.nodup (List.mem_map_of_mem h)
    rw [List.count, List.countP_map, List.countP_eq_length_filter] at hcount
    rw [← hcount]
    congr 1
  have hsplit := List.length_eq_length_filter_add (l := m.entries) fun x => decide (x.1 = k)
  have hrest : (m.erase k).entries = m.entries.filter fun x => !decide (x.1 = k) := by
    have hp : (fun x : K × Entry V => decide (x.1 ≠ k)) = fun x => !decide (x.1 = k) :=
      funext fun _ => decide_not
    rw [← hp]
    rfl
  rw [size, size, hrest]
  omega

theorem size_insertOrAssign_le (order : List K) : (m.insertOrAssign order k e).size ≤ m.size + 1 := by
  unfold insertOrAssign
  split_ifs with hk
  · exact (List.length_map ..).trans_le (Nat.le_succ _)
  · rw [size, add, List.length_insertionSort, List.length_append]
    exact Nat.le_refl _

theorem size_insertOrAssign (order : List K) (hk : ∀ e, (k,e) ∉ m.entries) :
    (m.insertOrAssign order k e).size = m.size + 1 := by
  have hkeys : k ∉ m.entries.map Prod.fst := by
    intro hmem
    obtain ⟨⟨k',e'⟩,he,rfl⟩ := List.mem_map.mp hmem
    exact hk e' he
  rw [insertOrAssign, dif_neg hkeys, size, add, List.length_insertionSort, List.length_append]
  rfl

end Storage

section Calls
variable {c : Cache K V} {k : K}

omit [DecidableEq K] in
theorem oldest_mem (best : K × Entry V) (l : List (K × Entry V)) : oldest best l ∈ best :: l := by
  induction l generalizing best with
  | nil => exact List.mem_singleton_self best
  | cons x rest ih =>
    rw [oldest]
    split_ifs
    · exact List.mem_cons_of_mem best (ih x)
    · obtain h | h := List.mem_cons.mp (ih best)
      · rw [h]
        exact List.mem_cons_self
      · exact List.mem_cons_of_mem best (List.mem_cons_of_mem x h)

theorem evictOne_cases : c.size = 0 ∧ c.evictOne = c ∨ ∃ k e, (k,e) ∈ c.m_storage.entries ∧
    c.evictOne = { c with m_storage := c.m_storage.erase k } := by
  rw [evictOne]
  split
  · rename_i hnil
    refine .inl ⟨?_,rfl⟩
    rw [size, Storage.size, hnil]
    rfl
  · rename_i first rest hcons
    refine .inr ⟨(oldest first (first :: rest)).1,(oldest first (first :: rest)).2,?_,rfl⟩
    rw [hcons]
    obtain h | h := List.mem_cons.mp (oldest_mem first (first :: rest))
    · rw [h]
      exact List.mem_cons_self
    · exact h

theorem evictOne_size : c.evictOne.size = c.size - 1 := by
  obtain ⟨h0,he⟩ | ⟨k,e,hmem,he⟩ := c.evictOne_cases
  · rw [he, h0]
  · have hsize := Storage.size_erase hmem
    rw [he]
    change (c.m_storage.erase k).size = c.m_storage.size - 1
    omega

theorem evictOne_fresh (hk : ∀ e, (k,e) ∉ c.m_storage.entries) (e : Entry V) :
    (k,e) ∉ c.evictOne.m_storage.entries := by
  obtain ⟨-,he⟩ | ⟨k',e',-,he⟩ := c.evictOne_cases
  · rw [he]
    exact hk e
  · rw [he]
    exact fun hmem => hk e (Storage.mem_erase.mp hmem).1

omit [DecidableEq K] in
theorem doWork_size_le (reading : Instant) : (c.doWork reading).size ≤ c.size := by
  unfold doWork
  split_ifs
  · exact Nat.le_refl _
  · exact Storage.size_keep_le _

omit [DecidableEq K] in
theorem doWork_maxEntries (reading : Instant) :
    (c.doWork reading).m_maxEntries = c.m_maxEntries := by
  unfold doWork
  split_ifs <;> rfl

theorem evictOne_maxEntries : c.evictOne.m_maxEntries = c.m_maxEntries := by
  obtain ⟨-,he⟩ | ⟨_,_,-,he⟩ := c.evictOne_cases <;> rw [he]

/-- The number of entries is within the limit, if there is one. -/
def Bounded (c : Cache K V) : Prop := 0 < c.m_maxEntries → c.size ≤ c.m_maxEntries

omit [DecidableEq K] in
theorem cleanup_bounded (h : c.Bounded) (now later : Instant) :
    (if c.workDue now then c.doWork later else c).Bounded := by
  split_ifs
  · intro hpos
    rw [doWork_maxEntries] at hpos ⊢
    exact (doWork_size_le later).trans (h hpos)
  · exact h

theorem insert_bounded (h : c.Bounded) (v : V) (order : List K) (now later : Instant) :
    (c.insert k v order now later).Bounded := by
  refine cleanup_bounded ?_ now later
  intro hpos
  have hadd : ∀ m : Storage K V, (m.insertOrAssign order k ⟨v,now,now⟩).size ≤ m.size + 1 :=
    fun m => Storage.size_insertOrAssign_le order
  split_ifs at hpos ⊢ with hfull
  · change 0 < c.evictOne.m_maxEntries at hpos
    have hevict := hadd c.evictOne.m_storage
    have hsize := c.evictOne_size
    have hlimit := c.evictOne_maxEntries
    have hle := h hfull.1
    change (c.evictOne.m_storage.insertOrAssign order k ⟨v,now,now⟩).size ≤ c.evictOne.m_maxEntries
    change c.evictOne.m_storage.size = c.size - 1 at hsize
    omega
  · change 0 < c.m_maxEntries at hpos
    have hfree := hadd c.m_storage
    change (c.m_storage.insertOrAssign order k ⟨v,now,now⟩).size ≤ c.m_maxEntries
    change _ ≤ c.size + 1 at hfree
    omega

/-- `get` adds nothing. -/
theorem get_bounded (h : c.Bounded) (now later : Instant) : (c.get k now later).2.Bounded := by
  have hcleanup := cleanup_bounded h now later
  unfold get
  generalize (if c.workDue now then c.doWork later else c) = c' at hcleanup ⊢
  dsimp only
  cases c'.m_storage.find k with
  | none => exact hcleanup
  | some e =>
    dsimp only
    split_ifs
    · exact fun hpos => (Storage.size_keep_le _).trans (hcleanup hpos)
    · exact fun hpos => (List.length_map ..).trans_le (hcleanup hpos)

/-- An insert of a new key where nothing expires adds one entry after evicting at most one. -/
theorem insert_size (hpos : 0 < c.m_maxEntries) (hfull : c.m_maxEntries < c.size)
    (hk : ∀ e, (k,e) ∉ c.m_storage.entries) (httl : c.m_ttl.isZero = true) (v : V)
    (order : List K) (now later : Instant) : (c.insert k v order now later).size = c.size := by
  have hcleanup : ∀ c : Cache K V, c.m_ttl.isZero = true →
      (if c.workDue now then c.doWork later else c).size = c.size := by
    intro c hz
    rw [doWork, if_pos hz]
    split_ifs <;> rfl
  have hzero : c.evictOne.m_ttl.isZero = true := by
    obtain ⟨-,he⟩ | ⟨_,_,-,he⟩ := c.evictOne_cases
    · rwa [he]
    · rwa [he]
  have hsize : c.evictOne.m_storage.size = c.size - 1 := c.evictOne_size
  have hevict : (if 0 < c.m_maxEntries ∧ c.m_maxEntries ≤ c.size then c.evictOne else c) =
      c.evictOne := if_pos ⟨hpos,hfull.le⟩
  unfold insert
  rw [hevict]
  refine (hcleanup { c.evictOne with
    m_storage := c.evictOne.m_storage.insertOrAssign order k ⟨v,now,now⟩ } hzero).trans ?_
  change (c.evictOne.m_storage.insertOrAssign order k ⟨v,now,now⟩).size = c.size
  rw [Storage.size_insertOrAssign order (evictOne_fresh hk)]
  omega

end Calls

section Runs
variable {ttl workInterval : Duration} {s t : State K V}

/-- A limit is only set on a cache that does not exceed it. -/
def LimitGuard (s : State K V) : Action K V → Prop
  | .setMaxEntries m => m = 0 ∨ s.cache.size ≤ m
  | _ => True

omit [DecidableEq K] in
instance (s : State K V) (a : Action K V) : Decidable (LimitGuard s a) := by
  cases a <;> unfold LimitGuard <;> infer_instance

theorem step_bounded {a : Action K V} (h : s.cache.Bounded) (hg : LimitGuard s a) :
    (s.step a).cache.Bounded := by
  cases a with
  | setMaxEntries m =>
    intro hpos
    exact hg.resolve_left (Nat.ne_of_gt hpos)
  | setTimeToLive dur | setWorkInterval dur => exact h
  | insert k v order now later => exact insert_bounded h v order now later
  | get k now later => exact get_bounded h now later

/-- In a run that sets no limit below the number of entries, the cache is within its limit after
every insert. -/
theorem guarded_run_bounded (h : machine.Reaches LimitGuard (init K V ttl workInterval) s)
    {k : K} {v : V} {order : List K} {now later : Instant}
    (hs : machine.step s (.insert k v order now later) = some t) :
    0 < t.cache.m_maxEntries → t.cache.size ≤ t.cache.m_maxEntries := by
  have hbounded : s.cache.Bounded := by
    refine h.invariant (fun s => s.cache.Bounded) (fun hpos => absurd hpos (Nat.lt_irrefl 0)) ?_
    intro u a w hu ha hw
    cases hw
    exact step_bounded hu ha
  cases hs
  exact insert_bounded hbounded v order now later

/-- A limit of two entries, with an eviction; then one entry expires and the limit is lowered. -/
theorem guarded_run_bounded_example :
    ∃ s t : State ℕ ℕ, machine.runGuarded LimitGuard (init ℕ ℕ ⟨2,0⟩ ⟨60,0⟩)
        [.setMaxEntries 2,.insert 1 10 [1] ⟨100,0⟩ ⟨100,0⟩,.insert 2 20 [2,1] ⟨101,0⟩ {},
          .insert 3 30 [3,2] ⟨102,0⟩ {},.get 2 ⟨104,0⟩ {},.setMaxEntries 1] = some s ∧
      machine.step s (.insert 4 40 [4] ⟨105,0⟩ {}) = some t ∧
      t.cache.m_maxEntries = 1 ∧ t.cache.size ≤ t.cache.m_maxEntries := by
  have hrun : (machine.runGuarded LimitGuard (init ℕ ℕ ⟨2,0⟩ ⟨60,0⟩)
      [.setMaxEntries 2,.insert 1 10 [1] ⟨100,0⟩ ⟨100,0⟩,.insert 2 20 [2,1] ⟨101,0⟩ {},
        .insert 3 30 [3,2] ⟨102,0⟩ {},.get 2 ⟨104,0⟩ {},.setMaxEntries 1]).map
      (fun s => (s.step (.insert 4 40 [4] ⟨105,0⟩ {})).cache.m_maxEntries) = some 1 := by decide +kernel
  obtain ⟨s,hs,hmax⟩ := Option.map_eq_some_iff.mp hrun
  refine ⟨s,s.step (.insert 4 40 [4] ⟨105,0⟩ {}),hs,rfl,hmax,?_⟩
  exact guarded_run_bounded (Machine.reaches_of_runGuarded hs) rfl (by rw [hmax]; exact Nat.one_pos)

/-- Three inserts without a limit, then a limit of one entry and another insert. -/
theorem lowered_limit_exceeded :
    ¬∀ s t : State ℕ ℕ,
      machine.Reaches (fun _ _ => True) (init ℕ ℕ ⟨0,0⟩ (Duration.fromMinutes 1)) s →
      ∀ k v order now later, machine.step s (.insert k v order now later) = some t →
        0 < t.cache.m_maxEntries → t.cache.size ≤ t.cache.m_maxEntries := by
  intro h
  have hrun : (machine.run (init ℕ ℕ ⟨0,0⟩ (Duration.fromMinutes 1))
      [.insert 1 10 [1] ⟨1,0⟩ {},.insert 2 20 [2,1] ⟨2,0⟩ {},.insert 3 30 [3,2,1] ⟨3,0⟩ {},
        .setMaxEntries 1]).map (fun s => ((s.step (.insert 4 40 [4] ⟨4,0⟩ {})).cache.m_maxEntries,
          (s.step (.insert 4 40 [4] ⟨4,0⟩ {})).cache.size)) = some (1,3) := by decide +kernel
  obtain ⟨s,hs,hv⟩ := Option.map_eq_some_iff.mp hrun
  obtain ⟨hmax,hsize⟩ := Prod.mk.inj hv
  have hle := h s _ (Machine.reaches_of_run hs) 4 40 [4] ⟨4,0⟩ {} rfl
    (by rw [hmax]; exact Nat.one_pos)
  rw [hmax, hsize] at hle
  omega

/-- The guard is exact: below the number of entries, a limit is exceeded after the next insert of
a new key unless something expires. -/
theorem unguarded_limit_exceeded {m : ℕ} (hpos : 0 < m) (hlt : m < s.cache.size) {k : K}
    (hk : ∀ e, (k,e) ∉ s.cache.m_storage.entries) (httl : s.cache.m_ttl.isZero = true) (v : V)
    (order : List K) (now later : Instant)
    (hrun : machine.run s [.setMaxEntries m,.insert k v order now later] = some t) :
    m < t.cache.size := by
  cases hrun
  have hsize := insert_size (c := s.cache.setMaxEntries m) hpos hlt hk httl v order now later
  change m < ((s.cache.setMaxEntries m).insert k v order now later).size
  rw [hsize]
  exact hlt

end Runs
end Asp.Cache
