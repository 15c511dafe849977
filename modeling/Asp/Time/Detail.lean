import Asp.Data.Nums

/-! Unit constants and conversions of `asp::time_detail`, in wrapping u64 arithmetic. -/
namespace Asp.TimeDetail

def NANOS_IN_SEC : UInt64 := 1000000000
def MILLIS_IN_SEC : UInt64 := 1000
def NANOS_IN_MILLISEC : UInt64 := 1000000
def MICROS_IN_SEC : UInt64 := 1000000
def SECS_IN_MIN : UInt64 := 60
def MINS_IN_HOUR : UInt64 := 60
def HOURS_IN_DAY : UInt64 := 24
def DAYS_IN_WEEK : UInt64 := 7
def NANOS_IN_MICROSEC : UInt64 := 1000
def SECS_IN_HOUR : UInt64 := SECS_IN_MIN * MINS_IN_HOUR
def SECS_IN_DAY : UInt64 := SECS_IN_HOUR * HOURS_IN_DAY

@[simp] theorem NANOS_IN_SEC_toNat : NANOS_IN_SEC.toNat = 10^9 := rfl
@[simp] theorem NANOS_IN_MILLISEC_toNat : NANOS_IN_MILLISEC.toNat = 1000000 := rfl
@[simp] theorem MILLIS_IN_SEC_toNat : MILLIS_IN_SEC.toNat = 1000 := rfl
@[simp] theorem MICROS_IN_SEC_toNat : MICROS_IN_SEC.toNat = 1000000 := rfl

def minutes_to_secs (n : UInt64) : UInt64 := n * SECS_IN_MIN
def hours_to_secs (n : UInt64) : UInt64 := minutes_to_secs (n * MINS_IN_HOUR)
def days_to_secs (n : UInt64) : UInt64 := hours_to_secs (n * HOURS_IN_DAY)
def weeks_to_secs (n : UInt64) : UInt64 := days_to_secs (n * DAYS_IN_WEEK)
def years_to_secs (n : UInt64) : UInt64 := days_to_secs (n * 365)

def millis_to_secs (n : UInt64) : UInt64 := n / MILLIS_IN_SEC
def millis_to_nanos_subsec (n : UInt64) : UInt64 := (n % MILLIS_IN_SEC) * 1000000
def micros_to_secs (n : UInt64) : UInt64 := n / MICROS_IN_SEC
def micros_to_nanos_subsec (n : UInt64) : UInt64 := (n % MICROS_IN_SEC) * 1000
def nanos_to_secs (n : UInt64) : UInt64 := n / NANOS_IN_SEC
def secs_to_nanos (n : UInt64) : UInt64 := n * NANOS_IN_SEC

theorem millis_to_nanos_subsec_lt (n : UInt64) : (millis_to_nanos_subsec n).toNat < 10^9 := by
  have h := Nat.mod_lt n.toNat (show 0 < 1000 by decide)
  simp only [millis_to_nanos_subsec, UInt64.toNat_mul, UInt64.toNat_mod, MILLIS_IN_SEC_toNat,
    UInt64.reduceToNat]
  rw [Nat.mod_eq_of_lt (by omega)]
  omega

theorem micros_to_nanos_subsec_lt (n : UInt64) : (micros_to_nanos_subsec n).toNat < 10^9 := by
  have h := Nat.mod_lt n.toNat (show 0 < 1000000 by decide)
  simp only [micros_to_nanos_subsec, UInt64.toNat_mul, UInt64.toNat_mod, MICROS_IN_SEC_toNat,
    UInt64.reduceToNat]
  rw [Nat.mod_eq_of_lt (by omega)]
  omega

end Asp.TimeDetail
