import Asp.Time.DurationRuns

/-! Where sums of durations and the public constructor are exact: the carries, and the last
second that a duration can hold. -/
namespace Asp.Duration
open TimeDetail

/-- What a sum owes to the exact sum of the totals. -/
structure ExactSum (a b : Duration) : Prop where
  refuses : a.checkedAdd b = none ↔ infinite.totalNanos < a.totalNanos + b.totalNanos
  exact : ∀ c ∈ a.checkedAdd b, c.m_seconds.toNat = (a.totalNanos + b.totalNanos) / 10^9 ∧
    c.m_nanos.toNat = (a.totalNanos + b.totalNanos) % 10^9
  throws : a.add b = .error "overflow when adding durations" ↔
    infinite.totalNanos < a.totalNanos + b.totalNanos
  returns : ∀ c, a.add b = .ok c ↔ a.checkedAdd b = some c

section
variable {a b : Duration}

lemma infinite_totalNanos : infinite.totalNanos = 2^64*10^9 - 1 := by decide +kernel

lemma valueOrThrow_eq_error {msg : String} {r : Option Duration} :
    valueOrThrow msg r = .error msg ↔ r = none := by
  cases r <;> simp [valueOrThrow]

/-- Sums are exact but for nanoseconds that add up to exactly one second. -/
theorem exactSum_iff (ha : a.Normalized) (hb : b.Normalized) : ExactSum a b ↔ SumGuard a b := by
  constructor
  · intro h
    refine (checkedAdd_normalized_iff ha hb).mp fun c hc => ?_
    rw [Normalized, (h.exact c hc).2]
    exact Nat.mod_lt _ (by decide)
  · intro hguard
    simp only [SumGuard, CarriesExactly] at hguard
    have hrefuses : a.checkedAdd b = none ↔
        infinite.totalNanos < a.totalNanos + b.totalNanos := by
      simp only [Normalized] at ha hb
      rw [checkedAdd_eq_none ha.le hb.le, infinite_totalNanos, totalNanos, totalNanos]
      omega
    refine ⟨hrefuses,?_,valueOrThrow_eq_error.trans hrefuses,fun _ => add_eq_ok⟩
    intro c hc
    have hfields := checkedAdd_fields ha.le hb.le hc
    have hlt := c.m_seconds.toNat_lt
    rw [totalNanos, totalNanos]
    simp only [Normalized] at ha hb
    omega

theorem exactSum_iff_at :
    ExactSum ⟨1,700000000⟩ ⟨2,600000000⟩ ↔ SumGuard ⟨1,700000000⟩ ⟨2,600000000⟩ :=
  exactSum_iff (by decide) (by decide)

/-- Half a second and half a second are no second, and one nanosecond more than the longest
duration is not refused. -/
theorem not_exactSum :
    ¬ExactSum (fromMillis 500) (fromMillis 500) ∧ ¬ExactSum infinite (fromNanos 1) := by
  constructor
  · intro h
    exact absurd (h.exact ⟨0,1000000000⟩ rfl).2 (by decide)
  · intro h
    have hnone := h.refuses.mpr (by decide +kernel)
    exact absurd hnone (by decide +kernel)

/-- The constructor carries nothing: it is exact for nanoseconds below one second only. -/
theorem ctor_carries_iff (seconds : UInt64) (nanos : UInt32) :
    ((ctor seconds nanos).totalNanos = seconds.toNat*10^9 + nanos.toNat ∧
      (ctor seconds nanos).eq (ctor (seconds + nanos.toUInt64 / NANOS_IN_SEC)
        (nanos.toUInt64 % NANOS_IN_SEC).toUInt32) = true) ↔ nanos.toNat < 10^9 := by
  constructor
  · rintro ⟨htotal,-⟩
    by_contra hge
    have hmod := Nat.mod_lt nanos.toNat (show 0 < 10^9 by decide)
    rw [ctor, if_neg (mt (lt_nanos_iff nanos).mp hge), totalNanos_mk, UInt64.toNat_toUInt32,
      UInt64.toNat_mod, UInt32.toNat_toUInt64, NANOS_IN_SEC_toNat,
      Nat.mod_eq_of_lt (hmod.trans (by decide))] at htotal
    exact hge (Nat.add_left_cancel htotal ▸ hmod)
  · intro h
    have hnorm : Normalized ⟨seconds,nanos⟩ := h
    have hself := ctor_eq_self hnorm
    have hmod : (nanos.toUInt64 % NANOS_IN_SEC).toUInt32 = nanos := by
      rw [← UInt32.toNat_inj, UInt64.toNat_toUInt32, UInt64.toNat_mod, UInt32.toNat_toUInt64,
        NANOS_IN_SEC_toNat]
      omega
    have hdiv : seconds + nanos.toUInt64 / NANOS_IN_SEC = seconds := by
      have hseconds := seconds.toNat_lt
      rw [← UInt64.toNat_inj, UInt64.toNat_add, UInt64.toNat_div, UInt32.toNat_toUInt64,
        NANOS_IN_SEC_toNat]
      omega
    rw [hmod, hdiv, hself]
    exact ⟨rfl,(eq_iff_totalNanos hnorm hnorm).mpr rfl⟩

/-- One and a half seconds of nanoseconds make half a second. -/
theorem ctor_loses_carry :
    (ctor 0 1500000000).totalNanos = 500000000 ∧
      (ctor 0 1500000000).eq (ctor 1 500000000) = false := by decide +kernel

end
end Asp.Duration
