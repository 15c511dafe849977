import Asp.Time.Instant
import Asp.Time.SystemTime

/-! The time between two instants, and their order. -/
namespace Asp

namespace Instant
open Foundation TimeDetail

/-- `operator<=>` -/
def cmp (t other : Instant) : Ordering :=
  (compare t.m_secs other.m_secs).then (compare t.m_nanos other.m_nanos)

def durationSince (t other : Instant) : Duration :=
  let secs := (t.m_secs - other.m_secs).toInt64
  let nanos := (t.m_nanos - other.m_nanos).toInt64
  let (secs,nanos) :=
    if nanos < 0 then (secs - 1,(nanos.toUInt64 + NANOS_IN_SEC).toInt64) else (secs,nanos)
  -- clamp to 0 if negative
  let (secs,nanos) := if secs < 0 then ((0 : Int64),(0 : Int64)) else (secs,nanos)
  Duration.ctor secs.toUInt64 nanos.toUInt64.toUInt32

/-- A reading of the clock. -/
def Reading (t : Instant) : Prop := t.Valid ∧ t.m_secs.toNat < 2^63

instance (t : Instant) : Decidable t.Reading :=
  inferInstanceAs (Decidable (t.m_nanos.toNat < 10^9 ∧ _))

/-- What `now()` makes of a clock that reads n nanoseconds. -/
def ofNanos (n : ℕ) : Instant := ⟨UInt64.ofNat (n / 10^9),UInt64.ofNat (n % 10^9)⟩

lemma ofNanos_fields {n : ℕ} (h : n < 2^63*10^9) :
    (ofNanos n).m_secs.toNat = n / 10^9 ∧ (ofNanos n).m_nanos.toNat = n % 10^9 := by
  rw [ofNanos, UInt64.toNat_ofNat', UInt64.toNat_ofNat']
  omega

lemma ofNanos_reading {n : ℕ} (h : n < 2^63*10^9) : (ofNanos n).Reading := by
  rw [Reading, Valid, (ofNanos_fields h).1, (ofNanos_fields h).2]
  omega

lemma ofNanos_totalNanos {n : ℕ} (h : n < 2^63*10^9) : (ofNanos n).totalNanos = n := by
  rw [totalNanos, (ofNanos_fields h).1, (ofNanos_fields h).2]
  omega

/-- A difference of two u64, stored in an i64 that can hold it. -/
lemma toInt_sub_u64 {a b : UInt64} (hlow : b.toNat ≤ a.toNat + 2^63)
    (hhigh : a.toNat < b.toNat + 2^63) : (a - b).toInt64.toInt = (a.toNat : ℤ) - b.toNat := by
  have hb := b.toNat_lt
  rcases le_or_gt b.toNat a.toNat with h | h
  · have hsub : (a - b).toNat = a.toNat - b.toNat :=
      UInt64.toNat_sub_of_le _ _ (UInt64.le_iff_toNat_le.mpr h)
    rw [SystemTime.toInt_toInt64_of_lt (by omega), hsub]
    omega
  · have hsub : (a - b).toNat = 2^64 - b.toNat + a.toNat := by
      rw [UInt64.toNat_sub]
      omega
    rw [SystemTime.toInt_toInt64_of_ge (by omega), hsub]
    omega

/-- The constructor is exact in fields that are in range. -/
lemma ctor_totalNanos {s n : Int64} (hs : 0 ≤ s.toInt) (hn : 0 ≤ n.toInt)
    (hlt : n.toInt < 10^9) :
    ((Duration.ctor s.toUInt64 n.toUInt64.toUInt32).totalNanos : ℤ) = s.toInt*10^9 + n.toInt := by
  have hsecs := SystemTime.toNat_of_nonneg hs
  have hnanos := SystemTime.toNat_of_nonneg hn
  have hfield : n.toUInt64.toUInt32.toNat = n.toUInt64.toNat := by
    rw [UInt64.toNat_toUInt32]
    omega
  have hself : Duration.ctor s.toUInt64 n.toUInt64.toUInt32 = ⟨s.toUInt64,n.toUInt64.toUInt32⟩ :=
    Duration.ctor_eq_self (d := ⟨s.toUInt64,n.toUInt64.toUInt32⟩)
      (show n.toUInt64.toUInt32.toNat < 10^9 by omega)
  rw [hself, Duration.totalNanos_mk, hfield]
  omega

/-- The two i64 of a difference, after the borrow. -/
def elapsedFields (t other : Instant) : Int64 × Int64 :=
  let secs := (t.m_secs - other.m_secs).toInt64
  let nanos := (t.m_nanos - other.m_nanos).toInt64
  if nanos < 0 then (secs - 1,(nanos.toUInt64 + NANOS_IN_SEC).toInt64) else (secs,nanos)

lemma durationSince_eq (t other : Instant) :
    t.durationSince other = if (t.elapsedFields other).1 < 0 then ⟨0,0⟩
      else Duration.ctor (t.elapsedFields other).1.toUInt64
        (t.elapsedFields other).2.toUInt64.toUInt32 := by
  change (match t.elapsedFields other with
    | (secs,nanos) => match if secs < 0 then ((0 : Int64),(0 : Int64)) else (secs,nanos) with
      | (secs,nanos) => Duration.ctor secs.toUInt64 nanos.toUInt64.toUInt32) = _
  obtain ⟨secs,nanos⟩ := t.elapsedFields other
  dsimp only
  split_ifs <;> rfl

/-- The fields after the borrow stand for the difference, where the seconds of the two instants
are less than 2^63 apart. -/
lemma elapsedFields_spec {t other : Instant} (ht : t.Valid) (ho : other.Valid)
    (hlow : other.m_secs.toNat < t.m_secs.toNat + 2^63)
    (hhigh : t.m_secs.toNat < other.m_secs.toNat + 2^63) :
    (t.elapsedFields other).1.toInt*10^9 + (t.elapsedFields other).2.toInt =
        (t.totalNanos : ℤ) - other.totalNanos ∧
      0 ≤ (t.elapsedFields other).2.toInt ∧ (t.elapsedFields other).2.toInt < 10^9 := by
  simp only [Valid] at ht ho
  simp only [totalNanos]
  have hsecs := toInt_sub_u64 hlow.le hhigh
  have hnanos := toInt_sub_u64 (a := t.m_nanos) (b := other.m_nanos) (by omega) (by omega)
  have h0 : (0 : Int64).toInt = 0 := rfl
  rw [elapsedFields]
  split_ifs with hneg <;> rw [Int64.lt_iff_toInt_lt, h0] at hneg
  · have hborrow : ((t.m_secs - other.m_secs).toInt64 - 1).toInt =
        (t.m_secs.toNat : ℤ) - other.m_secs.toNat - 1 := by
      have h1 : (1 : Int64).toInt = 1 := rfl
      rw [Int64.toInt_sub, hsecs, h1]
      apply Int.bmod_eq_of_le <;> omega
    have hcarry : ((t.m_nanos - other.m_nanos).toInt64.toUInt64 + NANOS_IN_SEC).toInt64.toInt =
        (t.m_nanos.toNat : ℤ) - other.m_nanos.toNat + 10^9 := by
      have he : ((t.m_nanos - other.m_nanos).toInt64.toUInt64 + NANOS_IN_SEC).toInt64 =
          (t.m_nanos - other.m_nanos).toInt64 + 1000000000 := rfl
      have h9 : (1000000000 : Int64).toInt = 10^9 := rfl
      rw [he, Int64.toInt_add, hnanos, h9]
      apply Int.bmod_eq_of_le <;> omega
    dsimp only
    omega
  · dsimp only
    omega

/-- There the duration is the difference, cut off at zero. -/
theorem durationSince_of_near {t other : Instant} (ht : t.Valid) (ho : other.Valid)
    (hlow : other.m_secs.toNat < t.m_secs.toNat + 2^63)
    (hhigh : t.m_secs.toNat < other.m_secs.toNat + 2^63) :
    (t.durationSince other).Normalized ∧
      (t.durationSince other).totalNanos = t.totalNanos - other.totalNanos := by
  obtain ⟨htotal,hn,hn'⟩ := elapsedFields_spec ht ho hlow hhigh
  have h0 : (0 : Int64).toInt = 0 := rfl
  rw [durationSince_eq]
  split_ifs with hneg <;> rw [Int64.lt_iff_toInt_lt, h0] at hneg
  · have hzero : Duration.totalNanos ⟨0,0⟩ = 0 := rfl
    refine ⟨Duration.wholeSecs_normalized 0,?_⟩
    rw [hzero]
    omega
  · have hctor := ctor_totalNanos (not_lt.mp hneg) hn hn'
    exact ⟨Duration.ctor_normalized _ _,by omega⟩

/-- Between readings the difference is exact. -/
theorem durationSince_spec {t other : Instant} (ht : t.Reading) (ho : other.Reading) :
    (t.durationSince other).Normalized ∧
      (t.durationSince other).totalNanos = t.totalNanos - other.totalNanos :=
  have hs := ht.2
  have hs' := ho.2
  durationSince_of_near ht.1 ho.1 (by omega) (by omega)

/-- The place of an instant in the order, which does not assume its nanoseconds in range. -/
def rank (t : Instant) : ℕ := t.m_secs.toNat*2^64 + t.m_nanos.toNat

theorem cmp_eq_compare (t other : Instant) : t.cmp other = compare t.rank other.rank := by
  rw [cmp, Nums.compare_eq_toNat, Nums.compare_eq_toNat,
    Radix.then_eq_compare (Nat.zero_le _) t.m_nanos.toNat_lt (Nat.zero_le _) other.m_nanos.toNat_lt]
  rfl

theorem cmp_eq_lt_iff {t other : Instant} : t.cmp other = .lt ↔ t.rank < other.rank := by
  rw [cmp_eq_compare, compare_lt_iff_lt]

theorem cmp_ne_gt_iff {t other : Instant} : t.cmp other ≠ .gt ↔ t.rank ≤ other.rank := by
  rw [cmp_eq_compare, Ne, compare_gt_iff_gt, not_lt]

/-- The order is that of the totals, unless a whole second is counted against a zero field. -/
lemma rank_le_iff {t other : Instant} (ht : t.m_nanos.toNat ≤ 10^9)
    (ho : other.m_nanos.toNat ≤ 10^9) (h : 0 < t.m_nanos.toNat ∨ other.Valid) :
    t.rank ≤ other.rank ↔ t.totalNanos ≤ other.totalNanos := by
  have hn := t.m_nanos.toNat_lt
  have hn' := other.m_nanos.toNat_lt
  have hrank : t.rank ≤ other.rank ↔ t.m_secs.toNat < other.m_secs.toNat ∨
      t.m_secs.toNat = other.m_secs.toNat ∧ t.m_nanos.toNat ≤ other.m_nanos.toNat := by
    rw [rank, rank]
    omega
  rw [hrank, totalNanos, totalNanos]
  simp only [Valid] at h
  omega

end Instant
end Asp
