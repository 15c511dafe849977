import Asp.Time.Duration

/-! `asp::SystemTime` on POSIX: whole seconds and nanoseconds since the epoch, each an i64.
Mixed sums convert to u64 and back, as in the source. -/
namespace Asp
open TimeDetail

structure SystemTime where
  _storage1 : Int64
  _storage2 : Int64
  deriving DecidableEq, Repr

namespace SystemTime

def totalNanos (t : SystemTime) : ℤ := t._storage1.toInt*10^9 + t._storage2.toInt

/-- What the clock, the epoch and the additions produce. -/
def Valid (t : SystemTime) : Prop := 0 ≤ t._storage2.toInt ∧ t._storage2.toInt < 10^9

/-- `operator+` -/
def add (t : SystemTime) (dur : Duration) : SystemTime :=
  let secs := (t._storage1.toUInt64 + dur.seconds).toInt64
  let nanos := (t._storage2.toUInt64 + dur.subsecNanos).toInt64
  if nanos.toUInt64 ≥ NANOS_IN_SEC then ⟨secs + 1,(nanos.toUInt64 - NANOS_IN_SEC).toInt64⟩
  else ⟨secs,nanos⟩

/-- The carry of `operator+` goes to an i64, and is undefined where that holds the largest. -/
def carryOverflows (t : SystemTime) (dur : Duration) : Bool :=
  let secs := (t._storage1.toUInt64 + dur.seconds).toInt64
  let nanos := (t._storage2.toUInt64 + dur.subsecNanos).toInt64
  nanos.toUInt64 ≥ NANOS_IN_SEC && secs == Int64.maxValue

/-- `i64 + u64`, stored in an i64, is the exact sum modulo 2^64. -/
lemma toInt_add_u64 (x : Int64) (u : UInt64) :
    ∃ k : ℤ, (x.toUInt64 + u).toInt64.toInt = x.toInt + u.toNat + k*2^64 := by
  have h : (x.toUInt64 + u).toInt64.toInt = (x.toInt + u.toNat).bmod (2^64) := by
    change (x.toBitVec + u.toBitVec).toInt = _
    rw [BitVec.toInt_add, BitVec.toInt_eq_toNat_bmod u.toBitVec, Int.add_bmod_bmod]
    rfl
  rw [h]
  refine ⟨-((x.toInt + u.toNat).bdiv (2^64)),?_⟩
  have hb := Int.bmod_add_bdiv (x.toInt + u.toNat) (2^64)
  push_cast at hb ⊢
  linarith

lemma toInt_add_one (x : Int64) : ∃ k : ℤ, (x + 1).toInt = x.toInt + 1 + k*2^64 :=
  toInt_add_u64 x 1

lemma toNat_of_nonneg {x : Int64} (h : 0 ≤ x.toInt) : (x.toUInt64.toNat : ℤ) = x.toInt := by
  have he : x.toInt = (x.toUInt64.toNat : ℤ).bmod (2^64) := BitVec.toInt_eq_toNat_bmod x.toBitVec
  have hl := x.toUInt64.toNat_lt
  rw [he, Int.bmod_def] at h
  rw [he, Int.bmod_def]
  split_ifs at h ⊢ <;> push_cast at h ⊢ <;> omega

lemma toInt_toInt64_of_lt {u : UInt64} (h : u.toNat < 2^63) : u.toInt64.toInt = u.toNat := by
  have he : u.toInt64.toInt = (u.toNat : ℤ).bmod (2^64) := BitVec.toInt_eq_toNat_bmod u.toBitVec
  rw [he, Int.bmod_def]
  split_ifs <;> push_cast at * <;> omega

lemma toInt_toInt64_of_ge {u : UInt64} (h : 2^63 ≤ u.toNat) :
    u.toInt64.toInt = u.toNat - 2^64 := by
  have he : u.toInt64.toInt = (u.toNat : ℤ).bmod (2^64) := BitVec.toInt_eq_toNat_bmod u.toBitVec
  have hl := u.toNat_lt
  rw [he, Int.bmod_def]
  split_ifs <;> push_cast at * <;> omega

/-- The nanoseconds add up as natural numbers. -/
lemma nanosSum_toNat {t : SystemTime} {dur : Duration} (ht : t.Valid)
    (hd : dur.m_nanos.toNat ≤ 10^9) :
    ((t._storage2.toUInt64 + dur.subsecNanos).toNat : ℤ) =
      t._storage2.toInt + dur.m_nanos.toNat := by
  have hi := toNat_of_nonneg ht.1
  have hlt := ht.2
  rw [UInt64.toNat_add, Duration.subsecNanos_toNat]
  omega

/-- Addition is exact in the total of the duration's getters, modulo 2^64 seconds. -/
theorem add_spec {t : SystemTime} {dur : Duration} (ht : t.Valid) (hd : dur.m_nanos.toNat ≤ 10^9) :
    (t.add dur).Valid ∧
      ∃ k : ℤ, (t.add dur).totalNanos = t.totalNanos + dur.getterNanos + k*(2^64*10^9) := by
  obtain ⟨h0,h1⟩ := ht
  obtain ⟨k,hs⟩ := toInt_add_u64 t._storage1 dur.seconds
  have hn := nanosSum_toNat ⟨h0,h1⟩ hd
  simp only [add, UInt64.toUInt64_toInt64, Valid, totalNanos, Duration.getterNanos,
    Duration.subsecNanos_toNat]
  split_ifs with hc <;> rw [ge_iff_le, UInt64.le_iff_toNat_le, NANOS_IN_SEC_toNat] at hc
  · obtain ⟨k',hs'⟩ := toInt_add_one (t._storage1.toUInt64 + dur.seconds).toInt64
    have hsub : (t._storage2.toUInt64 + dur.subsecNanos - NANOS_IN_SEC).toNat =
        (t._storage2.toUInt64 + dur.subsecNanos).toNat - 10^9 := by
      rw [UInt64.toNat_sub_of_le _ _ (by rwa [UInt64.le_iff_toNat_le, NANOS_IN_SEC_toNat]),
        NANOS_IN_SEC_toNat]
    rw [toInt_toInt64_of_lt (by omega), hsub, hs', hs]
    exact ⟨by omega,k+k',by omega⟩
  · rw [toInt_toInt64_of_lt (by omega), hs]
    exact ⟨by omega,k,by omega⟩

lemma maxValue_toInt : Int64.maxValue.toInt = 2^63 - 1 := rfl

/-- The carry overflows where the seconds add up to the largest i64. -/
theorem carryOverflows_iff {t : SystemTime} {dur : Duration} (ht : t.Valid)
    (hd : dur.m_nanos.toNat ≤ 10^9) :
    t.carryOverflows dur = true ↔ 10^9 ≤ t._storage2.toInt + dur.m_nanos.toNat ∧
      t._storage1.toInt + dur.seconds.toNat = 2^63 - 1 := by
  obtain ⟨k,hs⟩ := toInt_add_u64 t._storage1 dur.seconds
  have hn := nanosSum_toNat ht hd
  have hrange := t._storage1.le_toInt
  have hrange' := t._storage1.toInt_lt
  have hdur := dur.seconds.toNat_lt
  have hsum := (t._storage1.toUInt64 + dur.seconds).toInt64.le_toInt
  have hsum' := (t._storage1.toUInt64 + dur.seconds).toInt64.toInt_lt
  rw [carryOverflows, Bool.and_eq_true, decide_eq_true_iff, beq_iff_eq, ← Int64.toInt_inj, hs,
    maxValue_toInt, UInt64.toUInt64_toInt64, ge_iff_le, UInt64.le_iff_toNat_le, NANOS_IN_SEC_toNat]
  omega

/-- Valid times whose totals agree modulo 2^64 seconds are equal. -/
theorem ext_totalNanos {t u : SystemTime} (ht : t.Valid) (hu : u.Valid) {k : ℤ}
    (h : t.totalNanos = u.totalNanos + k*(2^64*10^9)) : t = u := by
  obtain ⟨s,n⟩ := t
  obtain ⟨s',n'⟩ := u
  simp only [Valid, totalNanos] at ht hu h
  have h1 := s.toInt_lt
  have h2 := s.le_toInt
  have h3 := s'.toInt_lt
  have h4 := s'.le_toInt
  rw [mk.injEq, ← Int64.toInt_inj, ← Int64.toInt_inj]
  omega

end SystemTime
end Asp
