import Asp.Collections.Eviction

/-! An insert over a stored key: what it does to the entries of other keys. The first statement
of `insert` makes room before it is known whether the key needs any. -/
namespace Asp.Cache
open Foundation
variable {K V : Type*} [DecidableEq K]

/-- `c'` is `c` after the value of `k` was overwritten; what else is missing is expired. -/
structure Overwrites (c c' : Cache K V) (k : K) (v : V) (reading : Instant) : Prop where
  others : ∀ k' e', k' ≠ k → (k',e') ∈ c.m_storage.entries →
    (k',e') ∈ c'.m_storage.entries ∨ c.Expired reading e'
  stored : ∃ e, (k,e) ∈ c'.m_storage.entries ∧ e.m_value = v

/-- There is room, or the oldest entry is that of the key itself or expired; and a cleanup that
is due does not find the new entry expired. -/
structure OverwriteKeeps (c : Cache K V) (k : K) (v : V) (now later : Instant) : Prop where
  room : 0 < c.m_maxEntries → c.m_maxEntries ≤ c.size →
    ∀ x, Oldest c.m_storage.entries x → x.1 = k ∨ c.Expired (c.latest now later) x.2
  fresh : c.workDue now = true → ¬c.Expired later ⟨v,now,now⟩

section Call
variable {c : Cache K V} {k : K} {v : V} {order : List K} {now later : Instant}

lemma others_of_room (h : c.OverwriteKeeps k v now later) {k' : K} {e' : Entry V} (hne : k' ≠ k)
    (hmem : (k',e') ∈ c.m_storage.entries) :
    (k',e') ∈ (c.insert k v order now later).m_storage.entries ∨
      c.Expired (c.latest now later) e' := by
  by_cases hgone : (k',e') ∈ c.makeRoom.m_storage.entries
  · by_cases hcleanup : c.workDue now = true ∧ c.Expired later e'
    · right
      rw [latest, if_pos hcleanup.1]
      exact hcleanup.2
    · exact .inl (mem_insert_iff.mpr ⟨.inr ⟨hne,hgone⟩,hcleanup⟩)
  · obtain ⟨hfull,hold⟩ := (not_mem_makeRoom_iff hmem).mp hgone
    exact .inr ((h.room hfull.1 hfull.2 _ hold).resolve_left hne)

/-- An insert overwrites and does nothing else under exactly these conditions. -/
theorem overwrites_iff : Overwrites c (c.insert k v order now later) k v (c.latest now later) ↔
    c.OverwriteKeeps k v now later := by
  constructor
  · intro h
    refine ⟨?_,?_⟩
    · intro hpos hfull x hold
      by_contra! hcon
      have hafter := (h.others x.1 x.2 hcon.1 hold.mem).resolve_right hcon.2
      obtain ⟨⟨hk,-⟩ | ⟨-,hkept⟩,-⟩ := mem_insert_iff.mp hafter
      · exact hcon.1 hk
      · exact (not_mem_makeRoom_iff hold.mem).mpr ⟨⟨hpos,hfull⟩,hold⟩ hkept
    · intro hdue hexpired
      obtain ⟨e,hmem,-⟩ := h.stored
      obtain ⟨⟨-,rfl⟩ | ⟨hne,-⟩,hkept⟩ := mem_insert_iff.mp hmem
      · exact hkept ⟨hdue,hexpired⟩
      · exact hne rfl
  · intro h
    refine ⟨fun k' e' => others_of_room h,⟨v,now,now⟩,?_,rfl⟩
    exact mem_insert_iff.mpr ⟨.inl ⟨rfl,rfl⟩,fun hcleanup => h.fresh hcleanup.1 hcleanup.2⟩

end Call

section Runs
variable {ttl workInterval : Duration} {s t : State K V} {k : K} {e : Entry V} {v : V}
  {order : List K} {now later : Instant}

/-- From every reachable state: overwriting a stored key keeps every other entry that is not
expired exactly where no other entry has to make room for it. -/
theorem reached_overwrites_iff
    (_h : machine.Reaches (fun _ _ => True) (init K V ttl workInterval) s)
    (_hk : (k,e) ∈ s.cache.m_storage.entries)
    (hs : machine.step s (.insert k v order now later) = some t) :
    Overwrites s.cache t.cache k v t.clock ↔ s.cache.OverwriteKeeps k v now later := by
  obtain rfl : s.step (.insert k v order now later) = t := Option.some.inj hs
  exact overwrites_iff

/-- Two entries under a limit of three. -/
theorem reached_overwrites_iff_example :
    ∃ s t : State ℕ ℕ, machine.run (init ℕ ℕ ⟨0,0⟩ (Duration.fromMinutes 1))
        [.setMaxEntries 3,.insert 7 70 [7] ⟨1,0⟩ {},.insert 8 80 [8,7] ⟨2,0⟩ {}] = some s ∧
      machine.step s (.insert 8 81 [8,7] ⟨3,0⟩ {}) = some t ∧
      (Overwrites s.cache t.cache 8 81 t.clock ↔ s.cache.OverwriteKeeps 8 81 ⟨3,0⟩ {}) := by
  have hrun : (machine.run (init ℕ ℕ ⟨0,0⟩ (Duration.fromMinutes 1))
      [.setMaxEntries 3,.insert 7 70 [7] ⟨1,0⟩ {},.insert 8 80 [8,7] ⟨2,0⟩ {}]).map
      (fun s => s.cache.m_storage.entries) =
      some [(8,⟨80,⟨2,0⟩,⟨2,0⟩⟩),(7,⟨70,⟨1,0⟩,⟨1,0⟩⟩)] := by decide +kernel
  obtain ⟨s,hs,hentries⟩ := Option.map_eq_some_iff.mp hrun
  refine ⟨s,s.step (.insert 8 81 [8,7] ⟨3,0⟩ {}),hs,rfl,?_⟩
  exact reached_overwrites_iff (e := ⟨80,⟨2,0⟩,⟨2,0⟩⟩) (Machine.reaches_of_run hs)
    (by rw [hentries]; exact List.mem_cons_self) rfl

/-- Two entries under a limit of two; the newer one is overwritten and the older one is lost. -/
theorem overwrite_evicts :
    ∃ s t : State ℕ ℕ, machine.run (init ℕ ℕ ⟨0,0⟩ (Duration.fromMinutes 1))
        [.setMaxEntries 2,.insert 7 70 [7] ⟨1,0⟩ {},.insert 8 80 [8,7] ⟨2,0⟩ {}] = some s ∧
      machine.step s (.insert 8 81 [8] ⟨3,0⟩ {}) = some t ∧
      s.cache.m_storage.entries.map Prod.fst = [8,7] ∧ t.cache.m_storage.entries.map Prod.fst = [8] ∧
      ¬Overwrites s.cache t.cache 8 81 t.clock := by
  have hrun : (machine.run (init ℕ ℕ ⟨0,0⟩ (Duration.fromMinutes 1))
      [.setMaxEntries 2,.insert 7 70 [7] ⟨1,0⟩ {},.insert 8 80 [8,7] ⟨2,0⟩ {}]).map
      (fun s => (s.cache.m_storage.entries,s.cache.m_ttl,
        (s.step (.insert 8 81 [8] ⟨3,0⟩ {})).cache.m_storage.entries)) =
      some ([(8,⟨80,⟨2,0⟩,⟨2,0⟩⟩),(7,⟨70,⟨1,0⟩,⟨1,0⟩⟩)],⟨0,0⟩,
        [(8,⟨81,⟨3,0⟩,⟨3,0⟩⟩)]) := by decide +kernel
  obtain ⟨s,hs,hv⟩ := Option.map_eq_some_iff.mp hrun
  obtain ⟨hbefore,hv⟩ := Prod.mk.inj hv
  obtain ⟨httl,hafter⟩ := Prod.mk.inj hv
  refine ⟨s,s.step (.insert 8 81 [8] ⟨3,0⟩ {}),hs,rfl,by rw [hbefore]; rfl,by rw [hafter]; rfl,?_⟩
  intro h
  have hlost : (7,⟨70,⟨1,0⟩,⟨1,0⟩⟩) ∈ s.cache.m_storage.entries := by
    rw [hbefore]
    exact List.mem_cons_of_mem _ List.mem_cons_self
  obtain hkept | hexpired := h.others 7 _ (by decide) hlost
  · rw [hafter] at hkept
    exact absurd hkept (by decide)
  · have hzero := hexpired.1
    rw [httl] at hzero
    exact absurd hzero (by decide)

end Runs
end Asp.Cache
