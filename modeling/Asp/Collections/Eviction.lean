import Asp.Collections.EntryLimit

/-! The entry that an insert evicts: the first in the iteration order among those used least
recently. What `m_usedAt` stands for is recorded beside the cache. -/
namespace Asp.Cache
open Foundation
variable {K V : Type*}

/-- The entry that the loop of `evictOne` ends with: every one before it in the iteration order
was used later, and none behind it earlier. -/
def Oldest (entries : List (K × Entry V)) (x : K × Entry V) : Prop :=
  ∃ pre post, entries = pre ++ x :: post ∧
    (∀ y ∈ pre, x.2.m_usedAt.cmp y.2.m_usedAt = .lt) ∧
    ∀ y ∈ post, y.2.m_usedAt.cmp x.2.m_usedAt ≠ .lt

section Loop
variable {entries pre post : List (K × Entry V)} {best x : K × Entry V}

theorem Oldest.mem (h : Oldest entries x) : x ∈ entries := by
  obtain ⟨pre,post,rfl,-,-⟩ := h
  simp

/-- No entry was used earlier. -/
theorem Oldest.rank_le (h : Oldest entries x) {y : K × Entry V} (hy : y ∈ entries) :
    x.2.m_usedAt.rank ≤ y.2.m_usedAt.rank := by
  obtain ⟨pre,post,rfl,hpre,hpost⟩ := h
  simp only [List.mem_append, List.mem_cons] at hy
  obtain hy | rfl | hy := hy
  · exact le_of_lt (Instant.cmp_eq_lt_iff.mp (hpre y hy))
  · exact le_refl _
  · exact not_lt.mp (mt Instant.cmp_eq_lt_iff.mpr (hpost y hy))

/-- Some entry is the oldest. -/
theorem exists_oldest (hne : entries ≠ []) : ∃ x, Oldest entries x := by
  induction entries with
  | nil => exact absurd rfl hne
  | cons a l ih =>
    by_cases hl : l = []
    · subst hl
      exact ⟨a,[],[],rfl,by simp,by simp⟩
    · obtain ⟨x,hx⟩ := ih hl
      by_cases hlt : x.2.m_usedAt.cmp a.2.m_usedAt = .lt
      · obtain ⟨pre,post,rfl,hpre,hpost⟩ := hx
        refine ⟨x,a :: pre,post,rfl,?_,hpost⟩
        intro y hy
        obtain rfl | hy := List.mem_cons.mp hy
        · exact hlt
        · exact hpre y hy
      · refine ⟨a,[],l,rfl,by simp,?_⟩
        intro y hy
        have hle := hx.rank_le hy
        rw [Instant.cmp_eq_lt_iff] at hlt
        rw [Ne, Instant.cmp_eq_lt_iff]
        omega

/-- The loop keeps its choice while nothing was used earlier. -/
lemma oldest_of_le (h : ∀ y ∈ post, y.2.m_usedAt.cmp x.2.m_usedAt ≠ .lt) : oldest x post = x := by
  induction post with
  | nil => rfl
  | cons y post ih =>
    rw [oldest, if_neg (h y (by simp))]
    exact ih (fun z hz => h z (by simp [hz]))

/-- Whatever the loop has chosen before, it takes an entry that was used earlier than that and
than all others on the way. -/
lemma oldest_of_lt (hbest : x.2.m_usedAt.cmp best.2.m_usedAt = .lt)
    (hpre : ∀ y ∈ pre, x.2.m_usedAt.cmp y.2.m_usedAt = .lt)
    (hpost : ∀ y ∈ post, y.2.m_usedAt.cmp x.2.m_usedAt ≠ .lt) :
    oldest best (pre ++ x :: post) = x := by
  induction pre generalizing best with
  | nil =>
    rw [List.nil_append, oldest, if_pos hbest]
    exact oldest_of_le hpost
  | cons y pre ih =>
    rw [List.cons_append, oldest]
    apply ih _ (fun z hz => hpre z (by simp [hz]))
    split_ifs
    · exact hpre y (by simp)
    · exact hbest

/-- The loop starts at the first entry, and meets it again. -/
theorem oldest_eq {first : K × Entry V} {rest : List (K × Entry V)}
    (h : Oldest (first :: rest) x) : oldest first (first :: rest) = x := by
  obtain ⟨pre,post,heq,hpre,hpost⟩ := h
  cases pre with
  | nil =>
    obtain ⟨rfl,rfl⟩ := List.cons.inj heq
    rw [oldest, ite_self]
    exact oldest_of_le hpost
  | cons y pre =>
    obtain ⟨rfl,-⟩ := List.cons.inj heq
    rw [heq]
    exact oldest_of_lt (hpre first (by simp)) hpre hpost

end Loop

section Evict
variable [DecidableEq K] {c : Cache K V} {x : K × Entry V}

/-- `evictOne` erases the oldest entry. -/
theorem evictOne_eq (h : Oldest c.m_storage.entries x) :
    c.evictOne = { c with m_storage := c.m_storage.erase x.1 } := by
  rw [evictOne]
  split
  · rename_i hnil
    rw [hnil] at h
    cases h.mem
  · rename_i first rest hcons
    rw [hcons] at h
    rw [oldest_eq h]

/-- The first statement of `insert`. -/
def makeRoom (c : Cache K V) : Cache K V :=
  if 0 < c.m_maxEntries ∧ c.m_maxEntries ≤ c.size then c.evictOne else c

omit [DecidableEq K] in
/-- A key has one entry. -/
lemma entry_unique {k : K} {e e' : Entry V} (h : (k,e) ∈ c.m_storage.entries)
    (h' : (k,e') ∈ c.m_storage.entries) : e = e' :=
  (Prod.mk.inj (List.inj_on_of_nodup_map c.m_storage.nodup h h' rfl)).2

/-- It removes the oldest entry of a full cache, and nothing else. -/
theorem not_mem_makeRoom_iff (hmem : x ∈ c.m_storage.entries) :
    x ∉ c.makeRoom.m_storage.entries ↔
      (0 < c.m_maxEntries ∧ c.m_maxEntries ≤ c.size) ∧ Oldest c.m_storage.entries x := by
  unfold makeRoom
  split_ifs with hfull
  · obtain ⟨y,hy⟩ := exists_oldest (List.ne_nil_of_mem hmem)
    rw [evictOne_eq hy, Storage.mem_erase]
    constructor
    · intro hgone
      have hkey : x.1 = y.1 := by
        by_contra hne
        exact hgone ⟨hmem,hne⟩
      obtain ⟨k,e⟩ := x
      obtain rfl : k = y.1 := hkey
      obtain rfl := entry_unique hmem hy.mem
      exact ⟨hfull,hy⟩
    · intro ⟨_,hx⟩ ⟨_,hne⟩
      have heq : c.m_storage.erase x.1 = c.m_storage.erase y.1 :=
        congrArg m_storage ((evictOne_eq hx).symm.trans (evictOne_eq hy))
      have herase : x ∈ (c.m_storage.erase y.1).entries := Storage.mem_erase.mpr ⟨hmem,hne⟩
      rw [← heq] at herase
      exact (Storage.mem_erase.mp herase).2 rfl
  · exact iff_of_false (not_not_intro hmem) (fun h => hfull h.1)

end Evict

section Entries
variable {c : Cache K V} {x : K × Entry V} {now later : Instant}

/-- The entry is older than a time to live that is set. -/
def Expired (c : Cache K V) (reading : Instant) (e : Entry V) : Prop :=
  c.m_ttl.isZero = false ∧ (reading.durationSince e.m_insertedAt).cmp c.m_ttl = .gt

lemma mem_cleanup_iff :
    x ∈ (if c.workDue now then c.doWork later else c).m_storage.entries ↔
      x ∈ c.m_storage.entries ∧ ¬(c.workDue now = true ∧ c.Expired later x.2) := by
  unfold doWork Expired
  split_ifs with hdue hzero
  · simp [hzero]
  · rw [Storage.keep, List.mem_filter, decide_eq_true_iff]
    simp [hzero, hdue]
  · simp [hdue]

variable [DecidableEq K] {k k' : K} {e' : Entry V}

/-- `insert` in two parts. -/
lemma insert_eq (c : Cache K V) (k : K) (v : V) (order : List K) (now later : Instant) :
    c.insert k v order now later =
      let c := { c.makeRoom with
        m_storage := c.makeRoom.m_storage.insertOrAssign order k ⟨v,now,now⟩ }
      if c.workDue now then c.doWork later else c := rfl

lemma makeRoom_settings (c : Cache K V) : c.makeRoom.m_ttl = c.m_ttl ∧
    c.makeRoom.m_workInterval = c.m_workInterval ∧ c.makeRoom.m_lastWork = c.m_lastWork := by
  unfold makeRoom
  split_ifs
  · obtain ⟨-,he⟩ | ⟨_,_,-,he⟩ := c.evictOne_cases <;> rw [he] <;> exact ⟨rfl,rfl,rfl⟩
  · exact ⟨rfl,rfl,rfl⟩

lemma makeRoom_subset (h : x ∈ c.makeRoom.m_storage.entries) : x ∈ c.m_storage.entries := by
  unfold makeRoom at h
  split_ifs at h
  · obtain ⟨-,he⟩ | ⟨k₁,e₁,-,he⟩ := c.evictOne_cases
    · rwa [he] at h
    · rw [he] at h
      exact (Storage.mem_erase.mp h).1
  · exact h

/-- An insert leaves its own entry, and others that were not evicted, unless a cleanup that is due
finds them expired. -/
theorem mem_insert_iff {v : V} {order : List K} :
    (k',e') ∈ (c.insert k v order now later).m_storage.entries ↔
      (k' = k ∧ e' = ⟨v,now,now⟩ ∨ k' ≠ k ∧ (k',e') ∈ c.makeRoom.m_storage.entries) ∧
        ¬(c.workDue now = true ∧ c.Expired later e') := by
  obtain ⟨httl,hinterval,hlast⟩ := c.makeRoom_settings
  rw [insert_eq]
  dsimp only
  rw [mem_cleanup_iff, Storage.mem_insertOrAssign]
  simp only [workDue, Expired, httl, hinterval, hlast]

/-- The entries `kept` of the cache `c` to which an insert that ends with `c'` adds its own: all,
or all but one that is evicted when the cache is full. Of these a cleanup that is due removes
the expired ones. -/
structure Keeps (c c' : Cache K V) (k : K) (v : V) (now later : Instant)
    (kept : Storage K V) : Prop where
  subset : ∀ x ∈ kept.entries, x ∈ c.m_storage.entries
  size : c.size = kept.size + if 0 < c.m_maxEntries ∧ c.m_maxEntries ≤ c.size then 1 else 0
  stored : ∀ x, x ∈ c'.m_storage.entries ↔
    (x = (k,⟨v,now,now⟩) ∨ x.1 ≠ k ∧ x ∈ kept.entries) ∧
      ¬(c.workDue now = true ∧ c.Expired later x.2)

theorem insert_keeps {v : V} {order : List K} :
    Keeps c (c.insert k v order now later) k v now later c.makeRoom.m_storage where
  subset _ hx := makeRoom_subset hx
  size := by
    unfold makeRoom
    split_ifs with hfull
    · have hsize := c.evictOne_size
      change c.size = c.evictOne.size + 1
      omega
    · rfl
  stored := by
    intro ⟨k',e'⟩
    rw [mem_insert_iff, Prod.mk.injEq]

/-- A get marks the entry it finds, and leaves no other entry but from before. -/
lemma mem_of_mem_get (h : (k',e') ∈ (c.get k now later).2.m_storage.entries) :
    (c.get k now later).1.isSome ∧ k' = k ∧ e'.m_usedAt = now ∨
      ((c.get k now later).1.isSome → k' ≠ k) ∧ (k',e') ∈ c.m_storage.entries := by
  have hbefore : ∀ x, x ∈ (if c.workDue now then c.doWork later else c).m_storage.entries →
      x ∈ c.m_storage.entries := fun x hx => (mem_cleanup_iff.mp hx).1
  unfold get at h ⊢
  generalize (if c.workDue now then c.doWork later else c) = c' at h hbefore ⊢
  dsimp only at h ⊢
  cases hfind : c'.m_storage.find k with
  | none =>
    rw [hfind] at h
    exact .inr ⟨nofun,hbefore _ h⟩
  | some e =>
    rw [hfind] at h
    dsimp only at h ⊢
    split_ifs at h ⊢ with hold
    · exact .inr ⟨nofun,hbefore _ (Storage.mem_erase.mp h).1⟩
    · obtain ⟨e₁,he,heq⟩ := Storage.mem_update.mp h
      by_cases hkey : k' = k
      · rw [if_pos hkey] at heq
        exact .inl ⟨rfl,hkey,by rw [heq]⟩
      · rw [if_neg hkey] at heq
        exact .inr ⟨fun _ => hkey,heq ▸ hbefore _ he⟩

end Entries

/-- A cache, and the readings of the calls that inserted or found each key, latest call first. -/
structure History (K V : Type*) where
  state : State K V
  accesses : K → List Instant

/-- The latest of the readings. -/
def Latest (readings : List Instant) (t : Instant) : Prop :=
  t ∈ readings ∧ ∀ u ∈ readings, u.cmp t ≠ .gt

/-- The clock does not go back, within a call or between two. -/
def NonDecreasing (h : History K V) : Action K V → Prop
  | .insert _ _ _ now later | .get _ now later =>
    h.state.clock.cmp now ≠ .gt ∧ (h.state.cache.workDue now = true → now.cmp later ≠ .gt)
  | _ => True

instance (h : History K V) (a : Action K V) : Decidable (NonDecreasing h a) :=
  match a with
  | .insert _ _ _ _ _ | .get _ _ _ => inferInstanceAs (Decidable (_ ≠ _ ∧ (_ → _ ≠ _)))
  | .setMaxEntries _ | .setTimeToLive _ | .setWorkInterval _ => inferInstanceAs (Decidable True)

section Runs
variable [DecidableEq K] {h : History K V} {ttl workInterval : Duration}

def History.access (h : History K V) (k : K) (now : Instant) : K → List Instant :=
  Function.update h.accesses k (now :: h.accesses k)

def History.step (h : History K V) (a : Action K V) : History K V where
  state := h.state.step a
  accesses :=
    match a with
    | .insert k _ _ now _ => h.access k now
    | .get k now later =>
      if (h.state.cache.get k now later).1.isSome then h.access k now else h.accesses
    | _ => h.accesses

def accessMachine : Machine (History K V) (Action K V) where
  step h a := some (h.step a)

def History.init (K V : Type*) (ttl workInterval : Duration) : History K V where
  state := Cache.init K V ttl workInterval
  accesses := fun _ => []

/-- `m_usedAt` is the last access, and every access is in the past. -/
structure Tracked (h : History K V) : Prop where
  used : ∀ k e, (k,e) ∈ h.state.cache.m_storage.entries → Latest (h.accesses k) e.m_usedAt
  past : ∀ k, ∀ t ∈ h.accesses k, t.rank ≤ h.state.clock.rank

omit [DecidableEq K] in
lemma le_latest {c : Cache K V} {clock now later : Instant} (hnow : clock.cmp now ≠ .gt)
    (hlater : c.workDue now = true → now.cmp later ≠ .gt) :
    clock.rank ≤ now.rank ∧ now.rank ≤ (c.latest now later).rank := by
  refine ⟨Instant.cmp_ne_gt_iff.mp hnow,?_⟩
  unfold latest
  split_ifs with hdue
  · exact Instant.cmp_ne_gt_iff.mp (hlater hdue)
  · exact le_refl _

/-- The access of a call at a reading that is not before any other. -/
lemma Tracked.latest_access (ht : Tracked h) (k : K) {now : Instant}
    (hnow : h.state.clock.rank ≤ now.rank) : Latest (h.access k now k) now := by
  rw [History.access, Function.update_self]
  refine ⟨List.mem_cons_self,?_⟩
  intro u hu
  rw [Instant.cmp_ne_gt_iff]
  obtain rfl | hu := List.mem_cons.mp hu
  · exact le_refl _
  · exact (ht.past k u hu).trans hnow

lemma Tracked.access_past (ht : Tracked h) (k : K) {now clock : Instant}
    (hnow : h.state.clock.rank ≤ now.rank) (hclock : now.rank ≤ clock.rank) :
    ∀ k', ∀ t ∈ h.access k now k', t.rank ≤ clock.rank := by
  intro k' t hmem
  have hle := hnow.trans hclock
  by_cases hk : k' = k
  · subst hk
    rw [History.access, Function.update_self] at hmem
    obtain rfl | hmem := List.mem_cons.mp hmem
    · exact hclock
    · exact (ht.past k' t hmem).trans hle
  · rw [History.access, Function.update_of_ne hk] at hmem
    exact (ht.past k' t hmem).trans hle

omit [DecidableEq K] in
theorem init_tracked : Tracked (History.init K V ttl workInterval) where
  used _ _ hmem := nomatch hmem
  past _ _ hmem := nomatch hmem

theorem step_tracked {a : Action K V} (ht : Tracked h) (hg : NonDecreasing h a) :
    Tracked (h.step a) := by
  cases a with
  | setMaxEntries m | setTimeToLive dur | setWorkInterval dur => exact ⟨ht.used,ht.past⟩
  | insert k v order now later =>
    obtain ⟨hnow,hlast⟩ := le_latest hg.1 hg.2
    refine ⟨?_,ht.access_past k hnow hlast⟩
    intro k' e' hmem
    obtain ⟨rfl,rfl⟩ | ⟨hne,hmem⟩ := (mem_insert_iff.mp hmem).1
    · exact ht.latest_access k' hnow
    · change Latest (h.access k now k') e'.m_usedAt
      rw [History.access, Function.update_of_ne hne]
      exact ht.used k' e' (makeRoom_subset hmem)
  | get k now later =>
    obtain ⟨hnow,hlast⟩ := le_latest hg.1 hg.2
    by_cases hfound : (h.state.cache.get k now later).1.isSome
    · have hacc : (h.step (.get k now later)).accesses = h.access k now := if_pos hfound
      refine ⟨?_,hacc ▸ ht.access_past k hnow hlast⟩
      intro k' e' hmem
      rw [hacc]
      obtain ⟨-,rfl,hused⟩ | ⟨hne,hmem⟩ := mem_of_mem_get hmem
      · rw [hused]
        exact ht.latest_access k' hnow
      · rw [History.access, Function.update_of_ne (hne hfound)]
        exact ht.used k' e' hmem
    · have hacc : (h.step (.get k now later)).accesses = h.accesses := if_neg hfound
      refine ⟨?_,?_⟩
      · intro k' e' hmem
        rw [hacc]
        obtain ⟨hsome,-⟩ | ⟨-,hmem⟩ := mem_of_mem_get hmem
        · exact absurd hsome hfound
        · exact ht.used k' e' hmem
      · intro k' t hmem
        rw [hacc] at hmem
        exact (ht.past k' t hmem).trans (hnow.trans hlast)

/-- In every run of a clock that does not go back, an insert evicts at most one entry, of a full
cache only, and its key was last accessed no later than any other stored one. -/
theorem evicts_least_recent {h' : History K V} {k₀ : K} {v : V} {order : List K}
    {now later : Instant}
    (hreach : accessMachine.Reaches NonDecreasing (History.init K V ttl workInterval) h)
    (hinsert : accessMachine.step h (.insert k₀ v order now later) = some h') :
    ∃ kept, Keeps h.state.cache h'.state.cache k₀ v now later kept ∧
      ∀ k e k' e', (k,e) ∈ h.state.cache.m_storage.entries → (k,e) ∉ kept.entries →
        (k',e') ∈ h.state.cache.m_storage.entries →
        ∃ t t', Latest (h.accesses k) t ∧ Latest (h.accesses k') t' ∧ t.cmp t' ≠ .gt := by
  have htracked : Tracked h := by
    refine hreach.invariant Tracked init_tracked ?_
    intro u a w hu ha hs
    obtain rfl : u.step a = w := Option.some.inj hs
    exact step_tracked hu ha
  obtain rfl : h.step (.insert k₀ v order now later) = h' := Option.some.inj hinsert
  refine ⟨_,insert_keeps,?_⟩
  intro k e k' e' hk hgone hk'
  have hle := ((not_mem_makeRoom_iff hk).mp hgone).2.rank_le hk'
  dsimp only at hle
  exact ⟨_,_,htracked.used k e hk,htracked.used k' e' hk',Instant.cmp_ne_gt_iff.mpr hle⟩

/-- Two entries, the first of which is read again before a third is inserted: the second is
gone. -/
theorem evicts_least_recent_example :
    ∃ h h' : History ℕ ℕ, accessMachine.runGuarded NonDecreasing (History.init ℕ ℕ ⟨0,0⟩ ⟨60,0⟩)
        [.setMaxEntries 2,.insert 7 70 [7] ⟨1,0⟩ {},.insert 8 80 [8,7] ⟨2,0⟩ {},
          .get 7 ⟨3,0⟩ {}] = some h ∧
      accessMachine.step h (.insert 9 90 [9,7] ⟨4,0⟩ {}) = some h' ∧
      h.state.cache.m_storage.entries.map Prod.fst = [8,7] ∧
      h'.state.cache.m_storage.entries.map Prod.fst = [9,7] ∧
      ∃ t t', Latest (h.accesses 8) t ∧ Latest (h.accesses 7) t' ∧ t.cmp t' ≠ .gt := by
  have hrun : (accessMachine.runGuarded NonDecreasing (History.init ℕ ℕ ⟨0,0⟩ ⟨60,0⟩)
      [.setMaxEntries 2,.insert 7 70 [7] ⟨1,0⟩ {},.insert 8 80 [8,7] ⟨2,0⟩ {},
        .get 7 ⟨3,0⟩ {}]).map (fun h => (h.state.cache.m_storage.entries,
          (h.step (.insert 9 90 [9,7] ⟨4,0⟩ {})).state.cache.m_storage.entries,
          h.state.cache.workDue ⟨4,0⟩)) =
      some ([(8,⟨80,⟨2,0⟩,⟨2,0⟩⟩),(7,⟨70,⟨1,0⟩,⟨3,0⟩⟩)],
        [(9,⟨90,⟨4,0⟩,⟨4,0⟩⟩),(7,⟨70,⟨1,0⟩,⟨3,0⟩⟩)],false) := by
    decide +kernel
  obtain ⟨h,hs,hv⟩ := Option.map_eq_some_iff.mp hrun
  obtain ⟨hbefore,hv⟩ := Prod.mk.inj hv
  obtain ⟨hafter,hidle⟩ := Prod.mk.inj hv
  have hk : (8,⟨80,⟨2,0⟩,⟨2,0⟩⟩) ∈ h.state.cache.m_storage.entries := by
    rw [hbefore]
    exact List.mem_cons_self
  have hk' : (7,⟨70,⟨1,0⟩,⟨3,0⟩⟩) ∈ h.state.cache.m_storage.entries := by
    rw [hbefore]
    exact List.mem_cons_of_mem _ List.mem_cons_self
  have hinsert : accessMachine.step h (.insert 9 90 [9,7] ⟨4,0⟩ {}) =
      some (h.step (.insert 9 90 [9,7] ⟨4,0⟩ {})) := rfl
  obtain ⟨kept,hkeeps,hleast⟩ := evicts_least_recent (Machine.reaches_of_runGuarded hs) hinsert
  refine ⟨h,_,hs,hinsert,?_,?_,hleast 8 _ 7 _ hk ?_ hk'⟩
  · rw [hbefore]
    rfl
  · rw [hafter]
    rfl
  · intro hkept
    have hleft := (hkeeps.stored _).mpr ⟨.inr ⟨show (8 : ℕ) ≠ 9 by decide,hkept⟩,
      fun hdue => Bool.false_ne_true (hidle.symm.trans hdue.1)⟩
    rw [hafter] at hleft
    exact absurd hleft (by decide)

end Runs
end Asp.Cache
