import Asp.Collections.Cache
import Mathlib.Tactic.Ring

/-! A cache without an entry limit agrees with the most recent inserts: what it has lost is too
old, and what it still has is returned as long as it is not. When the cleanup runs makes no
difference. -/
namespace Asp.Cache
open Foundation
variable {K V : Type*}

/-- The age at the reading `now` of what was inserted at the reading `inserted`. -/
def age (now inserted : Instant) : ℕ := now.totalNanos - inserted.totalNanos

/-- A time to live is set, and it is shorter than `n` nanoseconds. -/
def Exceeds (ttl : Duration) (n : ℕ) : Prop := ttl.isZero = false ∧ ttl.totalNanos < n

/-- At the reading `clock` the cache holds the most recent inserts but some that are too old. -/
structure Agrees (ttl : Duration) (inserted : K → Option (V × Instant)) (clock : Instant)
    (c : Cache K V) : Prop where
  fixed : c.m_ttl = ttl
  unlimited : c.m_maxEntries = 0
  reading : clock.Reading
  readings : ∀ k v t, inserted k = some (v,t) → t.Reading ∧ t.totalNanos ≤ clock.totalNanos
  stored : ∀ k e, (k,e) ∈ c.m_storage.entries → inserted k = some (e.m_value,e.m_insertedAt)
  missing : ∀ k v t, inserted k = some (v,t) → (∀ e, (k,e) ∉ c.m_storage.entries) →
    Exceeds ttl (age clock t)

/-- What `get(k)` returns when its first reading is `now` and the latest reading is `last`. -/
structure GetsExactly (ttl : Duration) (inserted : K → Option (V × Instant)) (k : K)
    (now last : Instant) (result : Option V) : Prop where
  hit : ∀ v, result = some v → ∃ t, inserted k = some (v,t) ∧
    (ttl.isZero = false → age now t ≤ ttl.totalNanos)
  miss : result = none →
    inserted k = none ∨ ∃ v t, inserted k = some (v,t) ∧ Exceeds ttl (age last t)

section Calls
variable {ttl : Duration} {inserted : K → Option (V × Instant)} {clock now later : Instant}
  {c : Cache K V}

theorem Exceeds.mono {n n' : ℕ} (h : Exceeds ttl n) (hle : n ≤ n') : Exceeds ttl n' :=
  ⟨h.1,h.2.trans_le hle⟩

/-- The comparison in the code, between clock readings. -/
theorem durationSince_gt_iff (hn : ttl.Normalized) {t : Instant} (hnow : now.Reading)
    (ht : t.Reading) :
    (now.durationSince t).cmp ttl = .gt ↔ ttl.totalNanos < age now t := by
  obtain ⟨hnorm,htotal⟩ := Instant.durationSince_spec hnow ht
  rw [Duration.cmp_eq_compare hnorm hn, compare_gt_iff_gt, htotal]
  rfl

namespace Agrees

/-- Time passes. -/
theorem advance (h : Agrees ttl inserted clock c) (hnow : now.Reading)
    (hle : clock.totalNanos ≤ now.totalNanos) : Agrees ttl inserted now c where
  fixed := h.fixed
  unlimited := h.unlimited
  reading := hnow
  readings k v t hk := ⟨(h.readings k v t hk).1,(h.readings k v t hk).2.trans hle⟩
  stored := h.stored
  missing k v t hk hm := (h.missing k v t hk hm).mono (Nat.sub_le_sub_right hle _)

/-- The cleanup removes only what is too old at its reading. -/
theorem doWork (h : Agrees ttl inserted later c) (hn : ttl.Normalized) :
    Agrees ttl inserted later (c.doWork later) := by
  unfold Cache.doWork
  cases hz : c.m_ttl.isZero with
  | true => exact ⟨h.fixed,h.unlimited,h.reading,h.readings,h.stored,h.missing⟩
  | false =>
    refine ⟨h.fixed,h.unlimited,h.reading,h.readings,fun k e hm => ?_,fun k v t hk hm => ?_⟩
    · exact h.stored k e (List.mem_of_mem_filter hm)
    · by_cases hold : ∀ e, (k,e) ∉ c.m_storage.entries
      · exact h.missing k v t hk hold
      · obtain ⟨e,he⟩ := not_forall_not.mp hold
        obtain ⟨ht,_⟩ := h.readings k v t hk
        have hat : e.m_insertedAt = t :=
          (Prod.mk.inj (Option.some.inj ((h.stored k e he).symm.trans hk))).2
        have hgt : (later.durationSince e.m_insertedAt).cmp c.m_ttl = .gt := by
          by_contra hgt
          exact hm e (List.mem_filter.mpr ⟨he,decide_eq_true hgt⟩)
        rw [hat, h.fixed, durationSince_gt_iff hn h.reading ht] at hgt
        exact ⟨h.fixed ▸ hz,hgt⟩

/-- The cleanup if it is due. -/
theorem cleanup (h : Agrees ttl inserted now c) (hn : ttl.Normalized)
    (hlater : c.workDue now = true → later.Reading ∧ now.totalNanos ≤ later.totalNanos) :
    Agrees ttl inserted (c.latest now later) (if c.workDue now then c.doWork later else c) := by
  unfold latest
  split_ifs with hdue
  · obtain ⟨hr,hle⟩ := hlater hdue
    exact (h.advance hr hle).doWork hn
  · exact h

variable [DecidableEq K] {k : K}

/-- A new insert of a key at the latest reading. -/
theorem insertOrAssign (h : Agrees ttl inserted now c) (v : V) (order : List K) :
    Agrees ttl (Function.update inserted k (some (v,now))) now
      { c with m_storage := c.m_storage.insertOrAssign order k ⟨v,now,now⟩ } := by
  refine ⟨h.fixed,h.unlimited,h.reading,fun k' v' t hk => ?_,fun k' e hm => ?_,fun k' v' t hk hm => ?_⟩
  · by_cases hkk : k' = k
    · subst hkk
      rw [Function.update_self] at hk
      cases hk
      exact ⟨h.reading,Nat.le_refl _⟩
    · rw [Function.update_of_ne hkk] at hk
      exact h.readings k' v' t hk
  · obtain ⟨rfl,rfl⟩ | ⟨hkk,hmem⟩ := Storage.mem_insertOrAssign.mp hm
    · exact Function.update_self ..
    · rw [Function.update_of_ne hkk]
      exact h.stored k' e hmem
  · by_cases hkk : k' = k
    · subst hkk
      exact absurd (Storage.mem_insertOrAssign.mpr (.inl ⟨rfl,rfl⟩)) (hm ⟨v,now,now⟩)
    · rw [Function.update_of_ne hkk] at hk
      refine h.missing k' v' t hk fun e he => ?_
      exact hm e (Storage.mem_insertOrAssign.mpr (.inr ⟨hkk,he⟩))

theorem insert (h : Agrees ttl inserted now c) (hn : ttl.Normalized) (v : V) (order : List K)
    (hlater : c.workDue now = true → later.Reading ∧ now.totalNanos ≤ later.totalNanos) :
    Agrees ttl (Function.update inserted k (some (v,now))) (c.latest now later)
      (c.insert k v order now later) := by
  have hfree : ¬(0 < c.m_maxEntries ∧ c.m_maxEntries ≤ c.size) := by
    rw [h.unlimited]
    exact fun hpos => Nat.lt_irrefl 0 hpos.1
  unfold Cache.insert
  rw [if_neg hfree]
  exact (h.insertOrAssign v order).cleanup hn hlater

/-- Erasing an entry that is too old. -/
theorem erase (h : Agrees ttl inserted clock c)
    (hold : ∀ v t, inserted k = some (v,t) → Exceeds ttl (age clock t)) :
    Agrees ttl inserted clock { c with m_storage := c.m_storage.erase k } := by
  refine ⟨h.fixed,h.unlimited,h.reading,h.readings,fun k' e hm => ?_,fun k' v t hk hm => ?_⟩
  · exact h.stored k' e (Storage.mem_erase.mp hm).1
  · by_cases hkk : k' = k
    · subst hkk
      exact hold v t hk
    · exact h.missing k' v t hk fun e he => hm e (Storage.mem_erase.mpr ⟨he,hkk⟩)

/-- Marking an entry as used. -/
theorem use (h : Agrees ttl inserted clock c) (t : Instant) :
    Agrees ttl inserted clock
      { c with m_storage := c.m_storage.update k fun e => { e with m_usedAt := t } } := by
  refine ⟨h.fixed,h.unlimited,h.reading,h.readings,fun k' e hm => ?_,fun k' v t' hk hm => ?_⟩
  · obtain ⟨e',he,rfl⟩ := Storage.mem_update.mp hm
    have hst := h.stored k' e' he
    split_ifs <;> exact hst
  · exact h.missing k' v t' hk fun e he => hm _ (Storage.mem_update.mpr ⟨e,he,rfl⟩)

/-- `get` is exact, and the cache goes on agreeing. -/
theorem get (h : Agrees ttl inserted now c) (hn : ttl.Normalized)
    (hlater : c.workDue now = true → later.Reading ∧ now.totalNanos ≤ later.totalNanos) :
    GetsExactly ttl inserted k now (c.latest now later) (c.get k now later).1 ∧
      Agrees ttl inserted (c.latest now later) (c.get k now later).2 := by
  have h' := h.cleanup hn hlater
  have hlast : now.totalNanos ≤ (c.latest now later).totalNanos := by
    unfold latest
    split_ifs with hdue
    · exact (hlater hdue).2
    · exact Nat.le_refl _
  unfold Cache.get
  generalize (if c.workDue now then c.doWork later else c) = c' at h' ⊢
  dsimp only
  cases hfind : c'.m_storage.find k with
  | none =>
    refine ⟨⟨nofun,fun _ => ?_⟩,h'⟩
    cases hk : inserted k with
    | none => exact .inl rfl
    | some x =>
      exact .inr ⟨x.1,x.2,rfl,h'.missing k x.1 x.2 hk fun e => Storage.not_mem_of_find hfind⟩
  | some e =>
    have hk := h'.stored k e (Storage.mem_of_find hfind)
    obtain ⟨ht,hle⟩ := h.readings k e.m_value e.m_insertedAt hk
    have hgt : (now.durationSince e.m_insertedAt).cmp c'.m_ttl = .gt ↔
        ttl.totalNanos < age now e.m_insertedAt := by
      rw [h'.fixed]
      exact durationSince_gt_iff hn h.reading ht
    have hzero : c'.m_ttl.isZero = ttl.isZero := congrArg Duration.isZero h'.fixed
    rw [hzero]
    dsimp only
    split_ifs with hold
    · -- the entry is too old at the first reading, hence also at the last
      have hexceeds : Exceeds ttl (age (c.latest now later) e.m_insertedAt) :=
        ⟨eq_false_of_ne_true hold.1,
          (hgt.mp hold.2).trans_le (Nat.sub_le_sub_right hlast _)⟩
      refine ⟨⟨nofun,fun _ => .inr ⟨e.m_value,e.m_insertedAt,hk,hexceeds⟩⟩,h'.erase fun v t hv => ?_⟩
      cases hk.symm.trans hv
      exact hexceeds
    · refine ⟨⟨fun v hv => ?_,nofun⟩,h'.use now⟩
      cases hv
      refine ⟨e.m_insertedAt,hk,fun hz => ?_⟩
      rw [← not_lt, ← hgt]
      exact fun hlt => hold ⟨ne_true_of_eq_false hz,hlt⟩

end Agrees
end Calls

section Runs
variable [DecidableEq K] {ttl workInterval : Duration} {s t : State K V}

/-- Calls of `insert` and `get` under a clock that never goes back. -/
def ClockGuard (s : State K V) : Action K V → Prop
  | .insert _ _ _ now later | .get _ now later =>
    now.Reading ∧ s.clock.totalNanos ≤ now.totalNanos ∧
      (s.cache.workDue now = true → later.Reading ∧ now.totalNanos ≤ later.totalNanos)
  | _ => False

instance (s : State K V) (a : Action K V) : Decidable (ClockGuard s a) :=
  match a with
  | .insert _ _ _ now _ | .get _ now _ =>
    inferInstanceAs (Decidable (now.Reading ∧ _ ∧ (_ → _ ∧ _ ≤ _)))
  | .setMaxEntries _ | .setTimeToLive _ | .setWorkInterval _ => inferInstanceAs (Decidable False)

omit [DecidableEq K] in
theorem init_agrees : Agrees ttl (init K V ttl workInterval).inserted
    (init K V ttl workInterval).clock (init K V ttl workInterval).cache where
  fixed := rfl
  unlimited := rfl
  reading := show Instant.Reading {} by decide
  readings _ _ _ h := nomatch h
  stored _ _ h := nomatch h
  missing _ _ _ h := nomatch h

theorem step_agrees {a : Action K V} (hn : ttl.Normalized)
    (h : Agrees ttl s.inserted s.clock s.cache) (hg : ClockGuard s a) :
    Agrees ttl (s.step a).inserted (s.step a).clock (s.step a).cache := by
  cases a with
  | insert k v order now later => exact (h.advance hg.1 hg.2.1).insert hn v order hg.2.2
  | get k now later => exact ((h.advance hg.1 hg.2.1).get hn hg.2.2).2
  | setMaxEntries m | setTimeToLive dur | setWorkInterval dur => exact hg.elim

/-- In every run `get` returns the most recent insert of its key as long as it is not too old, and
fails only when it is, or when there is none. -/
theorem run_getsExactly (hn : ttl.Normalized)
    (h : machine.Reaches ClockGuard (init K V ttl workInterval) s) {k : K} {now later : Instant}
    (hg : ClockGuard s (.get k now later)) (hs : machine.step s (.get k now later) = some t) :
    GetsExactly ttl s.inserted k now t.clock (s.cache.get k now later).1 := by
  have hagrees : Agrees ttl s.inserted s.clock s.cache := by
    refine h.invariant (fun s => Agrees ttl s.inserted s.clock s.cache) init_agrees ?_
    intro u a v hu ha hs
    cases hs
    exact step_agrees hn hu ha
  cases hs
  exact ((hagrees.advance hg.1 hg.2.1).get hn hg.2.2).1

/-- Two inserts, the first with a cleanup; only the second is young enough. -/
theorem run_getsExactly_example :
    ∃ s : State ℕ ℕ, machine.runGuarded ClockGuard (init ℕ ℕ ⟨2,0⟩ ⟨60,0⟩)
        [.insert 7 70 [7] ⟨100,0⟩ ⟨100,5⟩,.insert 8 80 [8,7] ⟨102,0⟩ {},
          .get 7 ⟨103,0⟩ {}] = some s ∧
      (s.cache.get 8 ⟨104,0⟩ {}).1 = some 80 ∧ s.cache.size = 1 ∧
      GetsExactly ⟨2,0⟩ s.inserted 8 ⟨104,0⟩ (s.step (.get 8 ⟨104,0⟩ {})).clock
        (s.cache.get 8 ⟨104,0⟩ {}).1 := by
  have hrun : (machine.runGuarded ClockGuard (init ℕ ℕ ⟨2,0⟩ ⟨60,0⟩)
      [.insert 7 70 [7] ⟨100,0⟩ ⟨100,5⟩,.insert 8 80 [8,7] ⟨102,0⟩ {},.get 7 ⟨103,0⟩ {}]).map
      (fun s => ((s.cache.get 8 ⟨104,0⟩ {}).1,s.cache.size,
        decide (ClockGuard s (.get 8 ⟨104,0⟩ {})))) = some (some 80,1,true) := by decide
  obtain ⟨s,hs,hv⟩ := Option.map_eq_some_iff.mp hrun
  obtain ⟨hget,hv⟩ := Prod.mk.inj hv
  obtain ⟨hsize,hg⟩ := Prod.mk.inj hv
  exact ⟨s,hs,hget,hsize,run_getsExactly (by decide) (Machine.reaches_of_runGuarded hs)
    (of_decide_eq_true hg) rfl⟩

end Runs
end Asp.Cache
