import Asp.Foundation.IntType
import Asp.Time.SystemTime
import Mathlib.Data.Int.SuccPred

/-! The time between two POSIX system times, and their order. A difference of i64 fields that
overflows is undefined. -/
namespace Asp
open Foundation TimeDetail
open Foundation.IntType (i64 i64_arith_of_inRange)

namespace Duration

/-- The public constructor on casts of fields in range. -/
theorem ctor_ofInt {secs nanos : ℤ} (hs : 0 ≤ secs) (hs' : secs < 2^64) (hn : 0 ≤ nanos)
    (hn' : nanos < 10^9) :
    (ctor (UInt64.ofInt secs) (UInt32.ofInt nanos)).totalNanos = secs*10^9 + nanos := by
  have hsecs : ((UInt64.ofInt secs).toNat : ℤ) = secs := by
    rw [UInt64.ofInt, UInt64.toNat_ofNat']
    omega
  have hnanos : ((UInt32.ofInt nanos).toNat : ℤ) = nanos := by
    rw [UInt32.ofInt, UInt32.toNat_ofNat']
    omega
  have hself := ctor_eq_self (d := ⟨UInt64.ofInt secs,UInt32.ofInt nanos⟩)
    (show (UInt32.ofInt nanos).toNat < 10^9 by omega)
  rw [hself, totalNanos_mk]
  omega

end Duration

namespace SystemTime

/-- `UNIX_EPOCH` -/
def epoch : SystemTime := ⟨0,0⟩

/-- What `now()` makes of a clock that reads n nanoseconds. -/
def ofNanos (n : ℕ) : SystemTime := ⟨Int64.ofNat (n / 10^9),Int64.ofNat (n % 10^9)⟩

/-- The two i64 differences, less a second where the nanoseconds are negative; the carry is
added in u64. -/
def borrow (secs nanos : ℤ) : Option (ℤ × ℤ) :=
  if nanos < 0 then (i64.arith (secs - 1)).map fun secs => (secs,i64.wrap (nanos + NANOS_IN_SEC.toNat))
  else some (secs,nanos)

/-- `none` is undefined, `some none` is `std::nullopt`. -/
def durationSince (t other : SystemTime) : Option (Option Duration) :=
  (i64.arith (t._storage1.toInt - other._storage1.toInt)).bind fun secs =>
    (i64.arith (t._storage2.toInt - other._storage2.toInt)).bind fun nanos =>
      (borrow secs nanos).map fun (secs,nanos) =>
        if secs < 0 then none else some (Duration.ctor (UInt64.ofInt secs) (UInt32.ofInt nanos))

/-- `operator<=>` -/
def cmp (t other : SystemTime) : Ordering :=
  if t._storage1 < other._storage1 then .lt
  else if t._storage1 > other._storage1 then .gt
  else if t._storage2 < other._storage2 then .lt
  else if t._storage2 > other._storage2 then .gt
  else .eq

variable {t other : SystemTime}

/-- On valid times the lexicographic comparison is that of the totals. -/
theorem cmp_eq_compare (ht : t.Valid) (ho : other.Valid) :
    t.cmp other = compare t.totalNanos other.totalNanos := by
  simp only [cmp, Int64.lt_iff_toInt_lt, gt_iff_lt]
  rw [Radix.ite_eq_then, Radix.then_eq_compare ht.1 ht.2 ho.1 ho.2]
  rfl

lemma toInt_ofNat {n : ℕ} (h : n < 2^63) : (Int64.ofNat n).toInt = n := by
  have hto : Int64.ofNat n = (UInt64.ofNat n).toInt64 := rfl
  rw [hto, toInt_toInt64_of_lt (by rw [UInt64.toNat_ofNat']; omega), UInt64.toNat_ofNat',
    Nat.mod_eq_of_lt (by omega)]

lemma ofNanos_fields {n : ℕ} (h : n < 2^63*10^9) :
    (ofNanos n)._storage1.toInt = (n / 10^9 : ℕ) ∧ (ofNanos n)._storage2.toInt = (n % 10^9 : ℕ) :=
  ⟨toInt_ofNat (by omega),toInt_ofNat (by omega)⟩

lemma ofNanos_valid {n : ℕ} (h : n < 2^63*10^9) : (ofNanos n).Valid := by
  rw [Valid, (ofNanos_fields h).2]
  omega

lemma ofNanos_totalNanos {n : ℕ} (h : n < 2^63*10^9) : (ofNanos n).totalNanos = n := by
  rw [totalNanos, (ofNanos_fields h).1, (ofNanos_fields h).2]
  omega

lemma epoch_valid : epoch.Valid := show (0 : ℤ) ≤ 0 ∧ (0 : ℤ) < 10^9 by decide

@[simp] lemma epoch_totalNanos : epoch.totalNanos = 0 := rfl

/-- The borrow leaves nanoseconds in range, and is defined while the seconds are. -/
lemma borrow_spec {secs nanos : ℤ} (hlow : -10^9 < nanos) (hhigh : nanos < 10^9)
    (hrange : -(2^63*10^9) ≤ secs*10^9 + nanos) (hsecs : secs < 2^63) :
    ∃ s n : ℤ, borrow secs nanos = some (s,n) ∧ 0 ≤ n ∧ n < 10^9 ∧
      s*10^9 + n = secs*10^9 + nanos := by
  unfold borrow
  split_ifs with hneg
  · have hwrap : i64.wrap (nanos + NANOS_IN_SEC.toNat) = nanos + 10^9 := by
      rw [NANOS_IN_SEC_toNat]
      apply Foundation.IntType.wrap_of_inRange
      rw [Foundation.IntType.i64_inRange]
      push_cast
      omega
    rw [hwrap, i64_arith_of_inRange (by omega)]
    exact ⟨secs - 1,nanos + 10^9,rfl,by omega,by omega,by omega⟩
  · exact ⟨secs,nanos,rfl,by omega,by omega,rfl⟩

/-- Where the seconds of two times differ by less than 2^63, the difference is exact, and empty
when it is negative. -/
theorem durationSince_of_near (ht : t.Valid) (ho : other.Valid)
    (hlow : other.totalNanos ≤ t.totalNanos + 2^63*10^9)
    (hhigh : t._storage1.toInt < other._storage1.toInt + 2^63) :
    t.durationSince other = some none ∧ t.totalNanos < other.totalNanos ∨
      ∃ d : Duration, t.durationSince other = some (some d) ∧
        d.Normalized ∧ d.totalNanos = t.totalNanos - other.totalNanos := by
  simp only [Valid] at ht ho
  simp only [totalNanos] at hlow ⊢
  rw [durationSince, i64_arith_of_inRange (by omega), i64_arith_of_inRange (by omega)]
  simp only [Option.bind_some]
  obtain ⟨s,n,hborrow,hn,hn',htotal⟩ := @borrow_spec
    (t._storage1.toInt - other._storage1.toInt) (t._storage2.toInt - other._storage2.toInt)
    (by omega) (by omega) (by omega) (by omega)
  rw [hborrow, Option.map_some]
  dsimp only
  split_ifs with hneg
  · exact .inl ⟨rfl,by omega⟩
  · refine .inr ⟨_,rfl,Duration.ctor_normalized _ _,?_⟩
    rw [Duration.ctor_ofInt (not_lt.mp hneg) (by omega) hn hn', htotal]
    ring

/-- Since a time from the epoch on, the difference is exact. -/
theorem durationSince_spec (ht : t.Valid) (ho : other.Valid) (h0 : 0 ≤ other._storage1.toInt)
    (hle : other.totalNanos ≤ t.totalNanos) :
    ∃ d : Duration, t.durationSince other = some (some d) ∧
      d.Normalized ∧ d.totalNanos = t.totalNanos - other.totalNanos := by
  have hlt := t._storage1.toInt_lt
  obtain ⟨_,hneg⟩ | hd := durationSince_of_near ht ho (by omega) (by omega)
  · exact absurd hneg (not_lt.mpr hle)
  · exact hd

/-- A time before the epoch has no duration since it. -/
theorem durationSince_epoch_of_neg (ht : t.Valid) (hneg : t._storage1.toInt < 0) :
    t.durationSince epoch = some none := by
  have hle := t._storage1.le_toInt
  have htotal : -(2^63*10^9) ≤ t.totalNanos ∧ t.totalNanos < 0 := by
    simp only [Valid] at ht
    rw [totalNanos]
    omega
  have hzero : epoch._storage1.toInt = 0 := rfl
  obtain ⟨hnone,_⟩ | ⟨d,_,_,hd⟩ := durationSince_of_near ht epoch_valid
    (by rw [epoch_totalNanos]; omega) (by omega)
  · exact hnone
  · rw [epoch_totalNanos] at hd
    omega

end SystemTime
end Asp
