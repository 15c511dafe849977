import Asp.Time.Duration

/-! `asp::Instant`: a point of the monotonic clock, as whole seconds and nanoseconds in u64. -/
namespace Asp
open TimeDetail

structure Instant where
  m_secs : UInt64 := 0
  m_nanos : UInt64 := 0
  deriving DecidableEq, Repr

namespace Instant

def totalNanos (t : Instant) : ℕ := t.m_secs.toNat*10^9 + t.m_nanos.toNat

/-- What the clock, the factories and the additions produce: a nanosecond field below 10^9. -/
def Valid (t : Instant) : Prop := t.m_nanos.toNat < 10^9

def farFuture : Instant := ⟨(1 : UInt64) <<< 48,0⟩

def checkedAdd (t : Instant) (dur : Duration) : Option Instant :=
  (Nums.checkedAdd t.m_secs dur.seconds).bind fun added =>
    let nanos := (t.m_nanos + dur.subsecNanos).toUInt32
    if nanos.toUInt64 ≥ NANOS_IN_SEC then
      let nanos := (nanos.toUInt64 - NANOS_IN_SEC).toUInt32
      (Nums.checkedAdd added 1).map fun added => ⟨added,nanos.toUInt64⟩
    else (Nums.checkedAdd added 0).map fun added => ⟨added,nanos.toUInt64⟩

def saturatingAdd (t : Instant) (dur : Duration) : Instant := (t.checkedAdd dur).getD farFuture

/-- `operator+` -/
def add (t : Instant) (dur : Duration) : Instant := t.saturatingAdd dur

theorem add_of_checkedAdd {t u : Instant} {dur : Duration} (h : t.checkedAdd dur = some u) :
    t.add dur = u := by
  rw [add, saturatingAdd, h, Option.getD_some]

theorem ext_totalNanos {t u : Instant} (ht : t.Valid) (hu : u.Valid)
    (h : t.totalNanos = u.totalNanos) : t = u := by
  obtain ⟨s,n⟩ := t
  obtain ⟨s',n'⟩ := u
  simp only [Valid, totalNanos] at ht hu h
  rw [mk.injEq, ← UInt64.toNat_inj, ← UInt64.toNat_inj]
  omega

/-- The u32 that holds the sum of the nanoseconds is wide enough. -/
lemma nanosSum_toNat {t : Instant} {dur : Duration} (ht : t.m_nanos.toNat ≤ 10^9)
    (hd : dur.m_nanos.toNat ≤ 10^9) :
    ((t.m_nanos + dur.subsecNanos).toUInt32).toNat = t.m_nanos.toNat + dur.m_nanos.toNat := by
  rw [UInt64.toNat_toUInt32, UInt64.toNat_add, Duration.subsecNanos_toNat]
  omega

/-- The fields of a sum, also of operands that keep a whole second in their nanoseconds. -/
lemma checkedAdd_fields {t u : Instant} {dur : Duration} (ht : t.m_nanos.toNat ≤ 10^9)
    (hd : dur.m_nanos.toNat ≤ 10^9) (h : t.checkedAdd dur = some u) :
    (t.m_nanos.toNat + dur.m_nanos.toNat < 10^9 ∧
      u.m_secs.toNat = t.m_secs.toNat + dur.seconds.toNat ∧
      u.m_nanos.toNat = t.m_nanos.toNat + dur.m_nanos.toNat) ∨
    (10^9 ≤ t.m_nanos.toNat + dur.m_nanos.toNat ∧
      u.m_secs.toNat = t.m_secs.toNat + dur.seconds.toNat + 1 ∧
      u.m_nanos.toNat + 10^9 = t.m_nanos.toNat + dur.m_nanos.toNat) := by
  obtain ⟨added,ha,hrest⟩ := Option.bind_eq_some_iff.mp h
  rw [Nums.checkedAdd_eq_some] at ha
  have hn := nanosSum_toNat ht hd
  dsimp only at hrest
  split_ifs at hrest with hc <;>
    rw [ge_iff_le, UInt64.le_iff_toNat_le, UInt32.toNat_toUInt64, hn, NANOS_IN_SEC_toNat] at hc
  · obtain ⟨added',ha',rfl⟩ := Option.map_eq_some_iff.mp hrest
    rw [Nums.checkedAdd_eq_some] at ha'
    have hle : NANOS_IN_SEC ≤ (t.m_nanos + dur.subsecNanos).toUInt32.toUInt64 := by
      rw [UInt64.le_iff_toNat_le, UInt32.toNat_toUInt64, hn, NANOS_IN_SEC_toNat]
      exact hc
    simp only [UInt32.toNat_toUInt64, UInt64.toNat_toUInt32, UInt64.toNat_sub_of_le _ _ hle, hn,
      NANOS_IN_SEC_toNat, UInt64.reduceToNat] at ha' ⊢
    omega
  · obtain ⟨added',ha',rfl⟩ := Option.map_eq_some_iff.mp hrest
    rw [Nums.checkedAdd_eq_some] at ha'
    simp only [UInt32.toNat_toUInt64, hn, UInt64.reduceToNat] at ha' ⊢
    exact .inl ⟨not_le.mp hc,by omega,trivial⟩

/-- Addition sees a duration through its getters: the sum is exact in their total, also for a
duration that holds a whole second in its nanoseconds. -/
theorem checkedAdd_spec {t u : Instant} {dur : Duration} (ht : t.Valid)
    (hd : dur.m_nanos.toNat ≤ 10^9) (h : t.checkedAdd dur = some u) :
    u.Valid ∧ u.totalNanos = t.totalNanos + dur.getterNanos := by
  have hfields := checkedAdd_fields ht.le hd h
  simp only [Valid] at ht ⊢
  rw [Duration.getterNanos, Duration.subsecNanos_toNat, totalNanos, totalNanos]
  omega

end Instant
end Asp
