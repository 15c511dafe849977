import Asp.Time.Windows

/-! The units a `Duration` is made from and read in. -/
namespace Asp
open Foundation TimeDetail

namespace TimeDetail

def secs_to_minutes (n : UInt64) : UInt64 := n / SECS_IN_MIN
def secs_to_hours (n : UInt64) : UInt64 := secs_to_minutes n / MINS_IN_HOUR
def secs_to_days (n : UInt64) : UInt64 := secs_to_hours n / HOURS_IN_DAY
def secs_to_weeks (n : UInt64) : UInt64 := secs_to_days n / DAYS_IN_WEEK
def nanos_to_micros (n : UInt64) : UInt64 := n / NANOS_IN_MICROSEC

end TimeDetail

namespace Duration

def micros (d : Duration) : UInt64 :=
  d.m_seconds * MICROS_IN_SEC + nanos_to_micros d.m_nanos.toUInt64
def minutes (d : Duration) : UInt64 := secs_to_minutes d.m_seconds
def hours (d : Duration) : UInt64 := secs_to_hours d.m_seconds
def days (d : Duration) : UInt64 := secs_to_days d.m_seconds
def weeks (d : Duration) : UInt64 := secs_to_weeks d.m_seconds

/-- The units with a factory and a getter. -/
inductive Units
  | nanos | micros | millis | secs | minutes | hours | days | weeks

namespace Units

/-- In nanoseconds. -/
def size : Units → ℕ
  | .nanos => 1
  | .micros => 10^3
  | .millis => 10^6
  | .secs => 10^9
  | .minutes => 60*10^9
  | .hours => 3600*10^9
  | .days => 86400*10^9
  | .weeks => 604800*10^9

def factory : Units → UInt64 → Duration
  | .nanos => fromNanos
  | .micros => fromMicros
  | .millis => fromMillis
  | .secs => fun n => fromSecs n.toNat
  | .minutes => fromMinutes
  | .hours => fromHours
  | .days => fromDays
  | .weeks => fromWeeks

def getter : Units → Duration → UInt64
  | .nanos => Duration.nanos
  | .micros => Duration.micros
  | .millis => Duration.millis
  | .secs => Duration.seconds
  | .minutes => Duration.minutes
  | .hours => Duration.hours
  | .days => Duration.days
  | .weeks => Duration.weeks

end Units

section Getters
variable (u : Units) {d : Duration}

lemma size_pos : 0 < u.size := by cases u <;> decide

/-- Every getter rounds down, and wraps. -/
theorem getter_toNat (h : d.Normalized) : (u.getter d).toNat = d.totalNanos / u.size % 2^64 := by
  have hlt := d.m_seconds.toNat_lt
  simp only [Normalized] at h
  cases u with
  | millis => exact millis_toNat d
  | secs =>
    rw [Units.getter, seconds_toNat, totalNanos]
    simp only [Units.size]
    omega
  | nanos =>
    rw [Units.getter, nanos_toNat, Units.size, Nat.div_one]
  | micros =>
    simp only [Units.getter, Duration.micros, nanos_to_micros, totalNanos, Units.size,
      UInt64.toNat_add, UInt64.toNat_mul, UInt64.toNat_div, UInt32.toNat_toUInt64,
      MICROS_IN_SEC_toNat, NANOS_IN_MICROSEC, UInt64.reduceToNat]
    omega
  | minutes =>
    simp only [Units.getter, minutes, secs_to_minutes, totalNanos, Units.size, UInt64.toNat_div,
      SECS_IN_MIN, UInt64.reduceToNat]
    omega
  | hours =>
    simp only [Units.getter, hours, secs_to_hours, secs_to_minutes, totalNanos, Units.size,
      UInt64.toNat_div, SECS_IN_MIN, MINS_IN_HOUR, UInt64.reduceToNat]
    omega
  | days =>
    simp only [Units.getter, days, secs_to_days, secs_to_hours, secs_to_minutes, totalNanos,
      Units.size, UInt64.toNat_div, SECS_IN_MIN, MINS_IN_HOUR, HOURS_IN_DAY, UInt64.reduceToNat]
    omega
  | weeks =>
    simp only [Units.getter, weeks, secs_to_weeks, secs_to_days, secs_to_hours, secs_to_minutes,
      totalNanos, Units.size, UInt64.toNat_div, SECS_IN_MIN, MINS_IN_HOUR, HOURS_IN_DAY,
      DAYS_IN_WEEK, UInt64.reduceToNat]
    omega

/-- Every factory multiplies, and its seconds wrap. -/
theorem factory_totalNanos (n : UInt64) :
    (u.factory n).totalNanos = n.toNat * u.size % (2^64*10^9) := by
  have hlt := n.toNat_lt
  cases u with
  | nanos =>
    rw [Units.factory, fromNanos_totalNanos]
    simp only [Units.size]
    omega
  | micros =>
    simp only [Units.factory, fromMicros, _unchecked, micros_to_secs, micros_to_nanos_subsec,
      totalNanos_mk, Units.size, UInt64.toNat_div, UInt64.toNat_toUInt32, UInt64.toNat_mul,
      UInt64.toNat_mod, MICROS_IN_SEC_toNat, UInt64.reduceToNat]
    have hmod := Nat.mod_lt n.toNat (show 0 < 1000000 by decide)
    have hnanos : n.toNat % 1000000 * 1000 % 2^64 % 2^32 = n.toNat % 1000000 * 1000 := by omega
    rw [hnanos, Nat.mod_eq_of_lt (show n.toNat * 10^3 < _ by omega)]
    omega
  | millis =>
    simp only [Units.factory, fromMillis, _unchecked, millis_to_secs, millis_to_nanos_subsec,
      totalNanos_mk, Units.size, UInt64.toNat_div, UInt64.toNat_toUInt32, UInt64.toNat_mul,
      UInt64.toNat_mod, MILLIS_IN_SEC_toNat, UInt64.reduceToNat]
    have hmod := Nat.mod_lt n.toNat (show 0 < 1000 by decide)
    have hnanos : n.toNat % 1000 * 1000000 % 2^64 % 2^32 = n.toNat % 1000 * 1000000 := by omega
    rw [hnanos, Nat.mod_eq_of_lt (show n.toNat * 10^6 < _ by omega)]
    omega
  | secs =>
    have hcast : UInt64.ofInt n.toNat = n := by
      apply UInt64.toNat_inj.mp
      rw [UInt64.ofInt, UInt64.toNat_ofNat']
      omega
    simp only [Units.factory, fromSecs, _unchecked, hcast, totalNanos_mk, Units.size,
      UInt32.reduceToNat]
    omega
  | minutes =>
    simp only [Units.factory, fromMinutes, _unchecked, minutes_to_secs, totalNanos_mk, Units.size,
      UInt64.toNat_mul, SECS_IN_MIN, UInt64.reduceToNat, UInt32.reduceToNat]
    omega
  | hours =>
    simp only [Units.factory, fromHours, _unchecked, hours_to_secs, minutes_to_secs, totalNanos_mk,
      Units.size, UInt64.toNat_mul, SECS_IN_MIN, MINS_IN_HOUR, UInt64.reduceToNat,
      UInt32.reduceToNat]
    omega
  | days =>
    simp only [Units.factory, fromDays, _unchecked, days_to_secs, hours_to_secs, minutes_to_secs,
      totalNanos_mk, Units.size, UInt64.toNat_mul, SECS_IN_MIN, MINS_IN_HOUR, HOURS_IN_DAY,
      UInt64.reduceToNat, UInt32.reduceToNat]
    omega
  | weeks =>
    simp only [Units.factory, fromWeeks, _unchecked, weeks_to_secs, days_to_secs, hours_to_secs,
      minutes_to_secs, totalNanos_mk, Units.size, UInt64.toNat_mul, SECS_IN_MIN, MINS_IN_HOUR,
      HOURS_IN_DAY, DAYS_IN_WEEK, UInt64.reduceToNat, UInt32.reduceToNat]
    omega

theorem factory_normalized (n : UInt64) : (u.factory n).Normalized := by
  cases u with
  | nanos => exact fromNanos_normalized n
  | micros => exact fromMicros_normalized n
  | millis => exact fromMillis_normalized n
  | secs | minutes | hours | days | weeks => exact wholeSecs_normalized _

end Getters

/-- A count of units comes back from a duration just if the duration can hold it. -/
theorem getter_factory_iff (u : Units) (n : UInt64) :
    u.getter (u.factory n) = n ↔ n.toNat * u.size < 2^64*10^9 := by
  have hlt := n.toNat_lt
  have hpos := size_pos u
  rw [← UInt64.toNat_inj, getter_toNat u (factory_normalized u n), factory_totalNanos]
  constructor
  · intro h
    by_contra hge
    have hwrap : n.toNat * u.size % (2^64*10^9) ≤ n.toNat * u.size - 2^64*10^9 := by
      rw [Nat.mod_eq_sub_mod (Nat.not_lt.mp hge)]
      exact Nat.mod_le _ _
    have hle : n.toNat ≤ n.toNat * u.size % (2^64*10^9) / u.size :=
      (Nat.le_of_eq h.symm).trans (Nat.mod_le _ _)
    have hmul := (Nat.le_div_iff_mul_le hpos).mp hle
    omega
  · intro h
    rw [Nat.mod_eq_of_lt h, Nat.mul_div_cancel _ hpos, Nat.mod_eq_of_lt hlt]

/-- Where neither wraps, the getter gives the most units that are not longer than the duration. -/
theorem factory_le_iff (u : Units) (n : UInt64) (d : Duration) (hd : d.Normalized)
    (hn : n.toNat * u.size < 2^64*10^9) (hfits : d.totalNanos / u.size < 2^64) :
    (u.factory n).cmp d ≠ .gt ↔ n ≤ u.getter d := by
  rw [cmp_ne_gt_iff (factory_normalized u n) hd, factory_totalNanos, Nat.mod_eq_of_lt hn,
    UInt64.le_iff_toNat_le, getter_toNat u hd, Nat.mod_eq_of_lt hfits,
    Nat.le_div_iff_mul_le (size_pos u)]

/-- 1.5 seconds are 1500 milliseconds, and no more. -/
theorem factory_le_iff_seconds : (Units.millis.factory 1500).cmp ⟨1,500000000⟩ ≠ .gt ↔
    1500 ≤ Units.millis.getter ⟨1,500000000⟩ :=
  factory_le_iff .millis 1500 ⟨1,500000000⟩ (by decide) (by decide) (by decide)

/-- `seconds<As>()` at an integer type. -/
def secondsAs (T : IntType) (d : Duration) : Option ℤ :=
  (T.quotient (T.wrap d.m_nanos.toNat) (T.wrap (10^9))).bind fun nanos =>
    (T.arith (T.wrap d.m_seconds.toNat + nanos)).map T.wrap

section SecondsAs
variable {T : IntType} {d : Duration} {x q : ℤ}

lemma promoted_one : T.promoted.InRange 1 := by
  by_cases hw : T.width < IntType.int.width
  · rw [IntType.promoted_of_lt hw, IntType.int_inRange]
    omega
  · have hpow : (2 : ℤ)^31 ≤ 2^(T.width-1) := by
      apply pow_le_pow_right₀ (by norm_num)
      simp only [IntType.int] at hw
      omega
    rw [IntType.promoted_of_le (Nat.not_lt.mp hw), IntType.InRange, IntType.max, T.two_pow_width]
    have hmin := T.min_nonpos
    rw [IntType.min] at hmin ⊢
    split_ifs at hmin ⊢ <;> omega

/-- A type of at least one bit tells 0 from 1 and from -1. -/
lemma wrap_ne_zero (hx : x = 1 ∨ x = -1) : T.wrap x ≠ 0 := by
  intro h
  have hdiv := Int.emod_add_mul_ediv (x - T.min) (2^T.width)
  rw [IntType.wrap] at h
  rw [T.two_pow_width] at h hdiv
  have heq : x = 2*(2^(T.width-1)*((x - T.min) / (2*2^(T.width-1)))) := by
    rw [← mul_assoc]
    omega
  omega

lemma two_pow_ne (k : ℕ) : (2 : ℤ)^k ≠ 10^9 := by
  have hmod : (2 : ℤ)^k % 5 ≠ 0 := by
    induction k with
    | zero => decide
    | succ k ih =>
      rw [pow_succ]
      omega
  intro h
  rw [h] at hmod
  exact hmod rfl

/-- The nanoseconds count as a second if the divisor has wrapped to something as small. -/
lemma secondsAs_ne (hq : T.quotient (T.wrap x) (T.wrap (10^9)) = some q) (h : q = 1 ∨ q = -1)
    (hr : T.promoted.InRange q) (hx : 0 ≤ x) (hlt : x < 10^9) :
    ∃ n : UInt32, n.toNat < 10^9 ∧ secondsAs T ⟨0,n⟩ ≠ some (T.wrap 0) := by
  have hn : (UInt32.ofNat x.toNat).toNat = x.toNat := by
    rw [UInt32.toNat_ofNat']
    omega
  refine ⟨UInt32.ofNat x.toNat,?_,?_⟩
  · rw [hn]
    omega
  · have hzero : T.wrap ((0 : UInt64).toNat : ℤ) = 0 := IntType.wrap_of_inRange T.zero_inRange
    rw [secondsAs, hn, Int.toNat_of_nonneg hx, hq, Option.bind_some, hzero, zero_add,
      IntType.arith_of_inRange hr, Option.map_some, IntType.wrap_of_inRange T.zero_inRange]
    exact fun he => wrap_ne_zero h (Option.some.inj he)

/-- The least value of a signed type is the wrapped value of its opposite. -/
lemma wrap_opposite (hs : T.signed = true) : T.wrap (-T.min) = T.min := by
  have hmin : T.min = -2^(T.width-1) := by rw [IntType.min, if_pos hs]
  have hwidth : -T.min - T.min = 2^T.width := by
    rw [T.two_pow_width, hmin]
    ring
  rw [IntType.wrap, hwidth, Int.emod_self, add_zero]

/-- Where a second of nanoseconds does not fit, the divisor wraps to a c between -10^9 and 10^9. -/
lemma exists_secondsAs_ne (hout : ¬T.InRange (10^9)) :
    ∃ n : UInt32, n.toNat < 10^9 ∧ secondsAs T ⟨0,n⟩ ≠ some (T.wrap 0) := by
  have hmin := T.min_nonpos
  have hmax : T.max < 10^9 := by
    by_contra hge
    exact hout ⟨by omega,by omega⟩
  have hc := T.wrap_inRange (10^9)
  rcases lt_trichotomy (T.wrap (10^9)) 0 with hneg | hzero | hpos
  · have hs : T.signed = true := by
      by_contra hs
      have hmin0 := IntType.min_of_unsigned (Bool.eq_false_iff.mpr hs)
      have := hc.1
      omega
    have hle : -T.wrap (10^9) ≤ T.max + 1 := by
      rw [IntType.max_of_signed hs]
      have := hc.1
      omega
    by_cases hfits : T.InRange (-T.wrap (10^9))
    · have hq : T.InRange (-1) := ⟨by have := hc.1; omega,by have := T.max_nonneg; omega⟩
      refine secondsAs_ne (x := -T.wrap (10^9)) (q := -1) ?_ (.inr rfl) hq.promoted (by omega)
        (lt_of_le_of_lt hfits.2 hmax)
      rw [IntType.wrap_of_inRange hfits, IntType.quotient, if_neg (by omega), Int.neg_tdiv,
        Int.tdiv_self (by omega), IntType.arith_of_inRange hq.promoted]
    · -- -c is out of range only for the least c
      have hleast : T.wrap (10^9) = T.min := by
        have hmax' := IntType.max_of_signed hs
        by_contra hne
        exact hfits ⟨by omega,by have := hc.1; omega⟩
      have hne : -T.min ≠ 10^9 := by
        rw [IntType.min, if_pos hs, neg_neg]
        exact two_pow_ne _
      rw [hleast] at hle hneg
      refine secondsAs_ne (x := -T.min) (q := 1) ?_ (.inl rfl) promoted_one (by omega) (by omega)
      rw [wrap_opposite hs, hleast, IntType.quotient, if_neg (by omega), Int.tdiv_self (by omega),
        IntType.arith_of_inRange promoted_one]
  · refine ⟨0,by decide,?_⟩
    rw [secondsAs, IntType.quotient, if_pos hzero]
    exact Option.some_ne_none _ ∘ Eq.symm
  · refine secondsAs_ne (x := T.wrap (10^9)) (q := 1) ?_ (.inl rfl) promoted_one (by omega)
      (lt_of_le_of_lt hc.2 hmax)
    rw [IntType.wrap_of_inRange hc, IntType.quotient, if_neg (by omega), Int.tdiv_self (by omega),
      IntType.arith_of_inRange promoted_one]

end SecondsAs

/-- `seconds<As>()` is the number of seconds, converted, of every normalised duration just if the
type can represent the nanoseconds of a second. If it cannot, a duration of less than a second is
counted as one more or one less, or divided by zero. -/
theorem secondsAs_iff (T : IntType) :
    ((∀ d : Duration, d.Normalized → secondsAs T d = some (T.wrap d.m_seconds.toNat)) ↔
      T.InRange (10^9)) ∧
    (¬T.InRange (10^9) →
      ∃ n : UInt32, n.toNat < 10^9 ∧ secondsAs T ⟨0,n⟩ ≠ some (T.wrap 0)) := by
  refine ⟨?_,exists_secondsAs_ne⟩
  constructor
  · intro h
    by_contra hout
    obtain ⟨n,hn,hne⟩ := exists_secondsAs_ne hout
    exact hne (h ⟨0,n⟩ hn)
  · intro hrange d hd
    have hnanos : T.InRange d.m_nanos.toNat := by
      have hmin := T.min_nonpos
      have hmax := hrange.2
      rw [Normalized] at hd
      refine ⟨?_,?_⟩ <;> omega
    have hquot : (d.m_nanos.toNat : ℤ).tdiv (10^9) = 0 := by
      rw [Normalized] at hd
      exact Int.tdiv_eq_zero_of_lt (by omega) (by omega)
    rw [secondsAs, IntType.wrap_of_inRange hnanos, IntType.wrap_of_inRange hrange,
      IntType.quotient, if_neg (by norm_num), hquot,
      IntType.arith_of_inRange T.zero_inRange.promoted, Option.bind_some, add_zero,
      IntType.arith_of_inRange (T.wrap_inRange _).promoted, Option.map_some,
      IntType.wrap_of_inRange (T.wrap_inRange _)]

end Duration
end Asp
