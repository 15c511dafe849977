import Asp.Time.Elapsed

/-! Sums of POSIX system times and durations: where they are exact, their order, and the
differences that give back what was added. -/
namespace Asp.SystemTime
open Foundation
open Foundation.IntType (i64 i64_inRange)

/-- A later time for a longer duration, through an addition that is defined. -/
structure NeverEarlier (st : SystemTime) (d₁ d₂ : Duration) : Prop where
  defined : st.carryOverflows d₁ = false ∧ st.carryOverflows d₂ = false
  first : st.cmp (st.add d₁) ≠ .gt
  longer : (st.add d₁).cmp (st.add d₂) ≠ .gt

section
variable {st a b : SystemTime} {d d₁ d₂ : Duration}

lemma totalNanos_range (ht : st.Valid) :
    -(2^63*10^9) ≤ st.totalNanos ∧ st.totalNanos < 2^63*10^9 := by
  have hlow := st._storage1.le_toInt
  have hhigh := st._storage1.toInt_lt
  simp only [Valid] at ht
  rw [totalNanos]
  omega

lemma cmp_ne_gt_iff (ha : a.Valid) (hb : b.Valid) :
    a.cmp b ≠ .gt ↔ a.totalNanos ≤ b.totalNanos := by
  rw [cmp_eq_compare ha hb, Ne, compare_gt_iff_gt, not_lt]

/-- A sum below 2^63 seconds is exact, and its carry is defined. -/
theorem add_exact (ht : st.Valid) (hd : d.Normalized)
    (hlt : st.totalNanos + d.totalNanos < 2^63*10^9) :
    st.carryOverflows d = false ∧ (st.add d).Valid ∧
      (st.add d).totalNanos = st.totalNanos + d.totalNanos := by
  obtain ⟨hvalid,k,htotal⟩ := add_spec ht hd.le
  have hrange := totalNanos_range ht
  have hrange' := totalNanos_range hvalid
  rw [Duration.getterNanos_of_normalized hd] at htotal
  refine ⟨?_,hvalid,by omega⟩
  rw [Bool.eq_false_iff, Ne, carryOverflows_iff ht hd.le, Duration.seconds_eq hd]
  rw [totalNanos, Duration.totalNanos] at hlt
  omega

/-- From 2^63 seconds on a sum comes out 2^64 seconds early. -/
theorem add_wraps (ht : st.Valid) (hd : d.Normalized)
    (hle : 2^63*10^9 ≤ st.totalNanos + d.totalNanos) :
    (st.add d).Valid ∧ (st.add d).totalNanos = st.totalNanos + d.totalNanos - 2^64*10^9 := by
  obtain ⟨hvalid,k,htotal⟩ := add_spec ht hd.le
  have hrange := totalNanos_range ht
  have hrange' := totalNanos_range hvalid
  have hdur := Duration.totalNanos_lt hd
  rw [Duration.getterNanos_of_normalized hd] at htotal
  exact ⟨hvalid,by omega⟩

/-- Sums are ordered exactly while the longer one stays below 2^63 seconds. -/
theorem neverEarlier_iff (ht : st.Valid) (h₁ : d₁.Normalized) (h₂ : d₂.Normalized)
    (hle : d₁.cmp d₂ ≠ .gt) :
    NeverEarlier st d₁ d₂ ↔ st.totalNanos + d₂.totalNanos < 2^63*10^9 := by
  have htotals := (Duration.cmp_ne_gt_iff h₁ h₂).mp hle
  constructor
  · intro h
    by_contra hover
    -- the longer sum would lie before the time itself
    have hv₁ := (add_spec ht h₁.le).1
    obtain ⟨hv₂,htotal₂⟩ := add_wraps ht h₂ (not_lt.mp hover)
    have hdur := Duration.totalNanos_lt h₂
    have hfirst := (cmp_ne_gt_iff ht hv₁).mp h.first
    have hlonger := (cmp_ne_gt_iff hv₁ hv₂).mp h.longer
    omega
  · intro hlt
    obtain ⟨hno₁,hv₁,htotal₁⟩ := add_exact ht h₁ (by omega)
    obtain ⟨hno₂,hv₂,htotal₂⟩ := add_exact ht h₂ hlt
    refine ⟨⟨hno₁,hno₂⟩,?_,?_⟩
    · rw [cmp_ne_gt_iff ht hv₁]
      omega
    · rw [cmp_ne_gt_iff hv₁ hv₂]
      omega

theorem neverEarlier_iff_at :
    NeverEarlier ⟨1700000000,5⟩ (.fromMillis 1) (.fromMillis 1500) ↔
      totalNanos ⟨1700000000,5⟩ + (Duration.fromMillis 1500).totalNanos < 2^63*10^9 :=
  neverEarlier_iff (show (0 : ℤ) ≤ 5 ∧ (5 : ℤ) < 10^9 by decide)
    (Duration.fromMillis_normalized 1) (Duration.fromMillis_normalized 1500) (by decide)

/-- One second after the epoch, an infinite timeout has just expired. -/
theorem expired_at_once :
    Valid ⟨1,0⟩ ∧ epoch.cmp ⟨1,0⟩ ≠ .gt ∧ Duration.infinite.Normalized ∧
      ¬NeverEarlier ⟨1,0⟩ .infinite .infinite := by
  refine ⟨show (0 : ℤ) ≤ 0 ∧ (0 : ℤ) < 10^9 by decide,by decide,Duration.ctor_normalized _ _,?_⟩
  intro h
  exact absurd h.first (by decide +kernel)

/-- What leads from one time to another gives back the other when it is added. -/
lemma add_durationSince (ha : a.Valid) (hb : b.Valid)
    (hlow : a._storage1.toInt - b._storage1.toInt < 2^63 - 1)
    (hhigh : b._storage1.toInt - a._storage1.toInt < 2^63 - 1) :
    ∃ r, b.durationSince a = some r ∧ (r.isSome = true ↔ a.cmp b ≠ .gt) ∧
      ∀ d ∈ r, d.Normalized ∧ a.carryOverflows d = false ∧ a.add d = b := by
  have hnear : a.totalNanos ≤ b.totalNanos + 2^63*10^9 := by
    simp only [Valid] at ha hb
    rw [totalNanos, totalNanos]
    omega
  rw [cmp_ne_gt_iff ha hb]
  obtain ⟨hnone,hlt⟩ | ⟨d,hsome,hd,htotal⟩ := durationSince_of_near hb ha hnear (by omega)
  · refine ⟨none,hnone,?_,fun d hd => absurd hd (Option.not_mem_none d)⟩
    rw [Option.isSome_none]
    exact ⟨fun h => absurd h Bool.false_ne_true,fun hle => absurd hlt (not_lt.mpr hle)⟩
  · refine ⟨some d,hsome,?_,?_⟩
    · rw [Option.isSome_some]
      exact ⟨fun _ => by omega,fun _ => rfl⟩
    · intro d' hd'
      obtain rfl := Option.some.inj hd'
      have hrange := totalNanos_range hb
      obtain ⟨hno,hvalid,hadd⟩ := add_exact ha hd (by omega)
      exact ⟨hd,hno,ext_totalNanos (k := 0) hvalid hb (by omega)⟩

/-- The difference from a sum is what was added. -/
lemma durationSince_add (ha : a.Valid) (hd : d.Normalized) (hlt : d.m_seconds.toNat < 2^63 - 1)
    (hfits : i64.InRange ((a.totalNanos + d.totalNanos) / 10^9)) :
    a.carryOverflows d = false ∧ (a.add d).durationSince a = some (some d) := by
  rw [i64_inRange] at hfits
  obtain ⟨hno,hvalid,hadd⟩ := add_exact ha hd (by omega)
  have hsecs : (a.add d)._storage1.toInt < a._storage1.toInt + 2^63 := by
    simp only [Valid, Duration.Normalized] at ha hvalid hd
    rw [totalNanos, totalNanos, Duration.totalNanos] at hadd
    omega
  obtain ⟨_,hneg⟩ | ⟨d',hsome,hd',htotal⟩ := durationSince_of_near hvalid ha (by omega) hsecs
  · omega
  · rw [hsome, Duration.ext_totalNanos hd' hd (by omega)]
    exact ⟨hno,rfl⟩

/-- Difference and addition are adjoint, before and after the epoch. -/
theorem durationSince_add_adjoint :
    (∀ a b : SystemTime, a.Valid → b.Valid →
      a._storage1.toInt - b._storage1.toInt < 2^63 - 1 →
      b._storage1.toInt - a._storage1.toInt < 2^63 - 1 →
      ∃ r, b.durationSince a = some r ∧ (r.isSome = true ↔ a.cmp b ≠ .gt) ∧
        ∀ d ∈ r, d.Normalized ∧ a.carryOverflows d = false ∧ a.add d = b) ∧
    ∀ (a : SystemTime) (d : Duration), a.Valid → d.Normalized → d.m_seconds.toNat < 2^63 - 1 →
      i64.InRange ((a.totalNanos + d.totalNanos) / 10^9) →
      a.carryOverflows d = false ∧ (a.add d).durationSince a = some (some d) :=
  ⟨fun _ _ => add_durationSince,fun _ _ => durationSince_add⟩

/-- Two times around the epoch, and a duration across it. -/
theorem durationSince_add_adjoint_at :
    (∃ r, durationSince ⟨3,5⟩ ⟨-2,7⟩ = some r ∧ (r.isSome = true ↔ cmp ⟨-2,7⟩ ⟨3,5⟩ ≠ .gt) ∧
      ∀ d ∈ r, d.Normalized ∧ carryOverflows ⟨-2,7⟩ d = false ∧ add ⟨-2,7⟩ d = ⟨3,5⟩) ∧
    carryOverflows ⟨-2,7⟩ ⟨4,999999998⟩ = false ∧
      (add ⟨-2,7⟩ ⟨4,999999998⟩).durationSince ⟨-2,7⟩ = some (some ⟨4,999999998⟩) :=
  ⟨durationSince_add_adjoint.1 ⟨-2,7⟩ ⟨3,5⟩ (show (0 : ℤ) ≤ 7 ∧ (7 : ℤ) < 10^9 by decide)
      (show (0 : ℤ) ≤ 5 ∧ (5 : ℤ) < 10^9 by decide) (by decide) (by decide),
    durationSince_add_adjoint.2 ⟨-2,7⟩ ⟨4,999999998⟩ (show (0 : ℤ) ≤ 7 ∧ (7 : ℤ) < 10^9 by decide)
      (by decide) (by decide) (by decide +kernel)⟩

end
end Asp.SystemTime
