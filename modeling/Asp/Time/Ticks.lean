import Asp.Time.Since

/-! `Instant::now()` on Windows: a performance counter of any frequency, read as seconds and
nanoseconds. -/
namespace Asp.Windows
open Foundation

/-- `Instant::now()`, from what `getFrequency()` and `qpc()` return. -/
def now (freq qpc : Int64) : Instant :=
  let elapsed := qpc.toUInt64
  let secs := elapsed / freq.toUInt64
  let remTicks := elapsed % freq.toUInt64
  let nanos := (remTicks * 1000000000) / freq.toUInt64
  ⟨secs,nanos⟩

/-- The time in nanoseconds that a number of ticks takes, rounded down. -/
def tickNanos (freq ticks : ℕ) : ℕ := ticks * 10^9 / freq

section Ticks
variable {f q q' : ℕ}

/-- The nanoseconds of the ticks that do not make a second. -/
lemma tickNanos_eq (hf : 0 < f) : tickNanos f q = q / f * 10^9 + q % f * 10^9 / f := by
  have hsplit : q * 10^9 = q % f * 10^9 + f * (q / f * 10^9) := by
    conv_lhs => rw [← Nat.mod_add_div q f]
    rw [Nat.add_mul, Nat.mul_assoc]
  rw [tickNanos, hsplit, Nat.add_mul_div_left _ _ hf, Nat.add_comm]

lemma subsec_lt (hf : 0 < f) : q % f * 10^9 / f < 10^9 := by
  rw [Nat.div_lt_iff_lt_mul hf, Nat.mul_comm (10^9)]
  exact Nat.mul_lt_mul_of_pos_right (Nat.mod_lt q hf) (by decide)

lemma tickNanos_mono (h : q ≤ q') : tickNanos f q ≤ tickNanos f q' :=
  Nat.div_le_div_right (Nat.mul_le_mul_right _ h)

/-- Rounding at both ends makes a difference of at most one. -/
lemma tickNanos_sub (hf : 0 < f) (h : q ≤ q') :
    tickNanos f q' - tickNanos f q = tickNanos f (q' - q) ∨
      tickNanos f q' - tickNanos f q = tickNanos f (q' - q) + 1 := by
  obtain ⟨d,rfl⟩ := Nat.exists_eq_add_of_le h
  rw [Nat.add_sub_cancel_left]
  rw [tickNanos, tickNanos, tickNanos, Nat.add_mul, Nat.add_div hf, Nat.add_assoc,
    Nat.add_sub_cancel_left]
  split_ifs
  · exact .inr rfl
  · exact .inl rfl

end Ticks

section Counter
variable {freq qpc qpc' : Int64}

lemma ticks_eq (h : 0 ≤ qpc.toInt) : qpc.toUInt64.toNat = qpc.toInt.toNat := by
  have hnat := SystemTime.toNat_of_nonneg h
  omega

/-- The fields, as long as the product does not overflow. -/
lemma now_fields (hf : 0 < freq.toInt) (hq : 0 ≤ qpc.toInt)
    (h : (freq.toInt.toNat - 1) * 10^9 < 2^64) :
    (now freq qpc).m_secs.toNat = qpc.toInt.toNat / freq.toInt.toNat ∧
      (now freq qpc).m_nanos.toNat =
        qpc.toInt.toNat % freq.toInt.toNat * 10^9 / freq.toInt.toNat := by
  have h9 : (1000000000 : UInt64).toNat = 10^9 := rfl
  have hlt := Nat.mod_lt qpc.toInt.toNat (by omega : 0 < freq.toInt.toNat)
  have hfits : qpc.toInt.toNat % freq.toInt.toNat * 10^9 < 2^64 :=
    (Nat.mul_le_mul_right _ (by omega)).trans_lt h
  simp only [now, UInt64.toNat_div, UInt64.toNat_mul, UInt64.toNat_mod, h9, ticks_eq hq,
    ticks_eq hf.le, Nat.mod_eq_of_lt hfits, true_and]

theorem now_reading (hf : 0 < freq.toInt) (hq : 0 ≤ qpc.toInt)
    (h : (freq.toInt.toNat - 1) * 10^9 < 2^64) : (now freq qpc).Reading ∧
      (now freq qpc).totalNanos = tickNanos freq.toInt.toNat qpc.toInt.toNat := by
  obtain ⟨hsecs,hnanos⟩ := now_fields hf hq h
  have hpos : 0 < freq.toInt.toNat := by omega
  refine ⟨⟨?_,?_⟩,?_⟩
  · rw [Instant.Valid, hnanos]
    exact subsec_lt hpos
  · have hlt := qpc.toInt_lt
    rw [hsecs]
    exact (Nat.div_le_self _ _).trans_lt (by omega)
  · rw [Instant.totalNanos, hsecs, hnanos, tickNanos_eq hpos]

/-- The count at which the product overflows. -/
theorem now_overflows (hf : 0 < freq.toInt) (h : 2^64 ≤ (freq.toInt.toNat - 1) * 10^9) :
    (now freq (freq - 1)).totalNanos < tickNanos freq.toInt.toNat (freq - 1).toInt.toNat := by
  have h1 : (1 : Int64).toInt = 1 := rfl
  have hle := freq.toInt_lt
  have hq : (freq - 1).toInt = freq.toInt - 1 := by
    rw [Int64.toInt_sub, h1]
    apply Int.bmod_eq_of_le <;> omega
  have hticks : (freq - 1).toUInt64.toNat = freq.toInt.toNat - 1 := by
    rw [ticks_eq (by omega), hq]
    omega
  rw [hq]
  generalize hfreq : freq.toInt.toNat = f at h hticks
  have hpos : 0 < f := by omega
  have h9 : (1000000000 : UInt64).toNat = 10^9 := rfl
  have hcount : (freq.toInt - 1).toNat = f - 1 := by omega
  have hsmall : f - 1 < f := by omega
  simp only [now, Instant.totalNanos, UInt64.toNat_div, UInt64.toNat_mul, UInt64.toNat_mod, h9,
    hticks, ticks_eq hf.le, hfreq, Nat.div_eq_of_lt hsmall, Nat.mod_eq_of_lt hsmall, hcount, tickNanos,
    Nat.zero_mul, Nat.zero_add]
  generalize (f - 1) * 10^9 = x at h
  have hwrap : x % 2^64 ≤ x - f := by omega
  calc x % 2^64 / f ≤ (x - f) / f := Nat.div_le_div_right hwrap
    _ = x / f - 1 := by
      have hsub := Nat.sub_mul_div x f 1
      rwa [Nat.mul_one] at hsub
    _ < x / f := Nat.sub_lt (Nat.div_pos (by omega) hpos) Nat.one_pos

end Counter

/-- The readings at two counts, the second of which is not smaller. -/
structure Measures (freq qpc qpc' : Int64) : Prop where
  reading : (now freq qpc').Reading
  exact : (now freq qpc').totalNanos = tickNanos freq.toInt.toNat qpc'.toInt.toNat
  ordered : (now freq qpc).cmp (now freq qpc') ≠ .gt
  elapsed : ((now freq qpc').durationSince (now freq qpc)).totalNanos =
      tickNanos freq.toInt.toNat (qpc'.toInt.toNat - qpc.toInt.toNat) ∨
    ((now freq qpc').durationSince (now freq qpc)).totalNanos =
      tickNanos freq.toInt.toNat (qpc'.toInt.toNat - qpc.toInt.toNat) + 1

/-- The clock is exact, does not go back and measures time to the nanosecond, for all counts, if
and only if a second less one tick can be counted in nanoseconds times the frequency. -/
theorem now_measures_iff (freq : Int64) (hf : 0 < freq.toInt) :
    (∀ qpc qpc' : Int64, 0 ≤ qpc.toInt → qpc.toInt ≤ qpc'.toInt → Measures freq qpc qpc') ↔
      (freq.toInt.toNat - 1) * 10^9 < 2^64 := by
  constructor
  · intro h
    by_contra hover
    have hlt := now_overflows hf (not_lt.mp hover)
    have h1 : (1 : Int64).toInt = 1 := rfl
    have hle := freq.toInt_lt
    have hq : (freq - 1).toInt = freq.toInt - 1 := by
      rw [Int64.toInt_sub, h1]
      apply Int.bmod_eq_of_le <;> omega
    exact hlt.ne (h (freq - 1) (freq - 1) (by omega) le_rfl).exact
  · intro h qpc qpc' hq hle
    obtain ⟨hreading,htotal⟩ := now_reading hf hq h
    obtain ⟨hreading',htotal'⟩ := now_reading hf (hq.trans hle) h
    have hle' : qpc.toInt.toNat ≤ qpc'.toInt.toNat := by omega
    refine ⟨hreading',htotal',?_,?_⟩
    · rw [Instant.cmp_ne_gt_iff, Instant.rank_le_iff hreading.1.le hreading'.1.le (.inr hreading'.1),
        htotal, htotal']
      exact tickNanos_mono hle'
    · rw [(Instant.durationSince_spec hreading' hreading).2, htotal, htotal']
      exact tickNanos_sub (by omega) hle'

/-- An hour at the usual frequency. -/
theorem now_measures_iff_tenMegahertz : Measures 10000000 15 36000000007 :=
  (now_measures_iff 10000000 (by decide)).mpr (by decide) 15 36000000007 (by decide) (by decide)

end Asp.Windows
