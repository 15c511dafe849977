import Asp.Time.Since
import Asp.Time.Subtract

/-! The difference of two instants against the addition that separates them. -/
namespace Asp.Instant
open TimeDetail

/-- The borrow of `durationSince` is taken from an i64, and is undefined where that holds the
smallest. -/
def borrowOverflows (t other : Instant) : Bool :=
  let secs := (t.m_secs - other.m_secs).toInt64
  let nanos := (t.m_nanos - other.m_nanos).toInt64
  nanos < 0 && secs == Int64.minValue

def absDiff (t other : Instant) : Duration :=
  if t.cmp other ≠ .lt then t.durationSince other else other.durationSince t

/-- What the differences owe to an addition that led from one instant to another. -/
structure ExactDifference (i : Instant) (d : Duration) (j : Instant) : Prop where
  defined : j.borrowOverflows i = false ∧ i.borrowOverflows j = false
  since : (j.durationSince i).eq d = true
  before : i.durationSince j = Duration.zero
  apart : (j.absDiff i).eq d = true ∧ (i.absDiff j).eq (j.absDiff i) = true

section
variable {t other i j : Instant} {d : Duration}

lemma minValue_toInt : Int64.minValue.toInt = -2^63 := rfl

/-- Seconds less than 2^63 apart leave room for the borrow. -/
lemma borrowOverflows_of_near (hlow : other.m_secs.toNat < t.m_secs.toNat + 2^63)
    (hhigh : t.m_secs.toNat < other.m_secs.toNat + 2^63) : t.borrowOverflows other = false := by
  rw [borrowOverflows, Bool.and_eq_false_iff, beq_eq_false_iff_ne, Ne, ← Int64.toInt_inj,
    toInt_sub_u64 hlow.le hhigh, minValue_toInt]
  right
  omega

/-- A difference of 2^63 seconds or more reads as negative, and is cut off. -/
lemma durationSince_of_far (hfar : other.m_secs.toNat + 2^63 ≤ t.m_secs.toNat)
    (hno : t.borrowOverflows other = false) : t.durationSince other = ⟨0,0⟩ := by
  have hlt := t.m_secs.toNat_lt
  have hsub : (t.m_secs - other.m_secs).toNat = t.m_secs.toNat - other.m_secs.toNat :=
    UInt64.toNat_sub_of_le _ _ (UInt64.le_iff_toNat_le.mpr (by omega))
  have hsecs : (t.m_secs - other.m_secs).toInt64.toInt =
      t.m_secs.toNat - other.m_secs.toNat - 2^64 := by
    rw [SystemTime.toInt_toInt64_of_ge (by omega), hsub]
    omega
  have h0 : (0 : Int64).toInt = 0 := rfl
  have hneg : (t.elapsedFields other).1 < 0 := by
    rw [Int64.lt_iff_toInt_lt, h0, elapsedFields]
    split_ifs with hn
    · have hmin : ¬(t.m_secs - other.m_secs).toInt64.toInt = -2^63 := by
        rw [borrowOverflows, Bool.and_eq_false_iff, beq_eq_false_iff_ne, Ne, ← Int64.toInt_inj,
          minValue_toInt, decide_eq_false_iff_not] at hno
        exact hno.resolve_left (not_not_intro hn)
      have h1 : (1 : Int64).toInt = 1 := rfl
      have hborrow : ((t.m_secs - other.m_secs).toInt64 - 1).toInt =
          (t.m_secs - other.m_secs).toInt64.toInt - 1 := by
        rw [Int64.toInt_sub, h1]
        apply Int.bmod_eq_of_le <;> omega
      dsimp only
      omega
    · dsimp only
      omega
  rw [durationSince_eq, if_pos hneg]

/-- The later of two instants is measured from the earlier. -/
lemma absDiff_of_le (hi : i.Valid) (hj : j.Valid) (hle : i.totalNanos ≤ j.totalNanos) :
    j.absDiff i = j.durationSince i ∧ i.absDiff j = j.durationSince i := by
  have hrank : i.rank ≤ j.rank ∧ (j.rank ≤ i.rank → i.totalNanos = j.totalNanos) := by
    simp only [Valid] at hi hj
    simp only [totalNanos] at hle ⊢
    simp only [rank]
    omega
  simp only [absDiff, ne_eq, cmp_eq_lt_iff, not_lt, if_pos hrank.1, true_and]
  split_ifs with h
  · rw [ext_totalNanos hi hj (hrank.2 h)]
  · rfl

/-- The seconds that lie between an instant and a sum. -/
lemma secs_of_checkedAdd (hi : i.Valid) (hd : d.Normalized) (h : i.checkedAdd d = some j) :
    j.m_secs.toNat =
      i.m_secs.toNat + (d.m_seconds.toNat + (i.m_nanos.toNat + d.m_nanos.toNat) / 10^9) := by
  obtain ⟨hj,htotal⟩ := (checkedAdd_eq_some hi.le hd).mp h
  simp only [Valid] at hj
  simp only [totalNanos, Duration.totalNanos] at htotal
  omega

/-- Differences are exact precisely while the instants' seconds are less than 2^63 apart. -/
theorem exactDifference_iff (hi : i.Valid) (hd : d.Normalized) (h : i.checkedAdd d = some j) :
    ExactDifference i d j ↔
      d.m_seconds.toNat + (i.m_nanos.toNat + d.m_nanos.toNat) / 10^9 < 2^63 := by
  have hsecs := secs_of_checkedAdd hi hd h
  obtain ⟨hj,htotal⟩ := (checkedAdd_eq_some hi.le hd).mp h
  constructor
  · intro hexact
    by_contra hfar
    have hzero : j.durationSince i = ⟨0,0⟩ := durationSince_of_far (by omega) hexact.defined.1
    have hsince := hexact.since
    rw [hzero, Duration.eq_iff_totalNanos (Duration.wholeSecs_normalized 0) hd] at hsince
    have h0 : Duration.totalNanos ⟨0,0⟩ = 0 := rfl
    rw [h0, Duration.totalNanos] at hsince
    simp only [Valid, Duration.Normalized] at hi hd
    omega
  · intro hnear
    have hlow : i.m_secs.toNat < j.m_secs.toNat + 2^63 := by omega
    have hhigh : j.m_secs.toNat < i.m_secs.toNat + 2^63 := by omega
    obtain ⟨hnorm,hsince⟩ := durationSince_of_near hj hi hlow hhigh
    obtain ⟨hnorm',hbefore⟩ := durationSince_of_near hi hj hhigh hlow
    obtain ⟨habs,habs'⟩ := absDiff_of_le hi hj (by omega)
    have hd' : (j.durationSince i).eq d = true :=
      (Duration.eq_iff_totalNanos hnorm hd).mpr (by omega)
    refine ⟨⟨borrowOverflows_of_near hlow hhigh,borrowOverflows_of_near hhigh hlow⟩,hd',?_,?_⟩
    · apply Duration.ext_totalNanos hnorm' (Duration.wholeSecs_normalized 0)
      have h0 : Duration.totalNanos ⟨0,0⟩ = 0 := rfl
      omega
    · rw [habs, habs']
      exact ⟨hd',(Duration.eq_iff_totalNanos hnorm hnorm).mpr rfl⟩

theorem exactDifference_iff_at :
    ExactDifference ⟨7,600000000⟩ ⟨2,500000000⟩ ⟨10,100000000⟩ ↔
      (2 : UInt64).toNat + ((600000000 : UInt64).toNat + (500000000 : UInt32).toNat) / 10^9 < 2^63 :=
  exactDifference_iff (show 600000000 < 10^9 by decide)
    (show Duration.Normalized ⟨2,500000000⟩ by decide) rfl

/-- An instant 2^63 seconds after the first one is no time after it. -/
theorem not_exactDifference :
    Instant.Valid {} ∧ Duration.Normalized (.fromSecs 9223372036854775808) ∧
      checkedAdd {} (.fromSecs 9223372036854775808) = some ⟨9223372036854775808,0⟩ ∧
      ¬ExactDifference {} (.fromSecs 9223372036854775808) ⟨9223372036854775808,0⟩ := by
  refine ⟨show 0 < 10^9 by decide,show 0 < 10^9 by decide,by decide +kernel,?_⟩
  intro h
  exact absurd h.since (by decide +kernel)

end
end Asp.Instant
