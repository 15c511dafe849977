import Asp.Time.Elapsed

/-! Unix times as system times on POSIX, and back. `timeSinceEpoch` and `to_time_t` are noexcept
and take the value of an optional that may be empty. -/
namespace Asp.SystemTime
open TimeDetail

/-- What a call comes to. An exception that leaves a noexcept function ends the process. -/
inductive Outcome (α : Type)
  | returned (value : α)
  | terminated
  | undefined
  deriving DecidableEq, Repr

namespace Outcome

def map {α β : Type} (f : α → β) : Outcome α → Outcome β
  | returned value => returned (f value)
  | terminated => terminated
  | undefined => undefined

end Outcome

/-- `fromUnix`, of a time_t of 64 bits. -/
def fromUnix (t : Int64) : SystemTime := epoch.add (Duration.fromSecs t.toInt)

def timeSinceEpoch (t : SystemTime) : Outcome Duration :=
  match t.durationSince epoch with
  | some (some dur) => .returned dur
  | some none => .terminated
  | none => .undefined

def to_time_t (t : SystemTime) : Outcome Int64 :=
  t.timeSinceEpoch.map fun dur => dur.seconds.toInt64

section
variable {t u : Int64}

lemma wholeSecs_valid (s : Int64) : Valid ⟨s,0⟩ := show (0 : ℤ) ≤ 0 ∧ (0 : ℤ) < 10^9 by decide

@[simp] lemma wholeSecs_totalNanos (s : Int64) : totalNanos ⟨s,0⟩ = s.toInt*10^9 :=
  Int.add_zero _

/-- The casts to u64 and back cancel, also for times before the epoch. -/
theorem fromUnix_eq (t : Int64) : fromUnix t = ⟨t,0⟩ := by
  have hnorm := Duration.wholeSecs_normalized (UInt64.ofInt t.toInt)
  have hzero : (0 : UInt32).toNat = 0 := rfl
  obtain ⟨hvalid,k,htotal⟩ := add_spec epoch_valid hnorm.le
  obtain ⟨j,hcast⟩ : ∃ j : ℤ, ((UInt64.ofInt t.toInt).toNat : ℤ) = t.toInt + j*2^64 := by
    rw [UInt64.ofInt, UInt64.toNat_ofNat']
    exact ⟨-(t.toInt / 2^64),by omega⟩
  apply ext_totalNanos (k := j + k) hvalid (wholeSecs_valid t)
  rw [Duration.getterNanos_of_normalized hnorm, Duration.totalNanos_mk, hzero] at htotal
  rw [htotal, wholeSecs_totalNanos, epoch_totalNanos]
  push_cast
  rw [hcast]
  ring

/-- From the epoch on the time comes back. -/
lemma to_time_t_of_nonneg (h : 0 ≤ t.toInt) : (fromUnix t).to_time_t = .returned t := by
  have hlt := t.toInt_lt
  obtain ⟨d,hsince,hd,htotal⟩ := durationSince_spec (wholeSecs_valid t) epoch_valid le_rfl (by
    rw [epoch_totalNanos, wholeSecs_totalNanos]
    omega)
  have hsecs : d.seconds.toInt64 = t := by
    rw [epoch_totalNanos, wholeSecs_totalNanos, Duration.totalNanos] at htotal
    simp only [Duration.Normalized] at hd
    rw [Duration.seconds_eq hd, ← Int64.toInt_inj, toInt_toInt64_of_lt] <;> omega
  rw [fromUnix_eq, to_time_t, timeSinceEpoch, hsince, Outcome.map, hsecs]

/-- Before the epoch there is no duration since it, and its value is taken all the same. -/
lemma to_time_t_of_neg (h : t.toInt < 0) : (fromUnix t).to_time_t = .terminated := by
  rw [fromUnix_eq, to_time_t, timeSinceEpoch, durationSince_epoch_of_neg (wholeSecs_valid t) h,
    Outcome.map]

/-- Exactly the times from the epoch on come back; the order is kept everywhere. -/
theorem fromUnix_roundTrip_iff (t : Int64) :
    ((fromUnix t).to_time_t = .returned t ↔ 0 ≤ t) ∧
      ∀ u, t < u → (fromUnix t).cmp (fromUnix u) = .lt := by
  have hzero : (0 : Int64).toInt = 0 := rfl
  rw [Int64.le_iff_toInt_le, hzero]
  refine ⟨⟨?_,to_time_t_of_nonneg⟩,?_⟩
  · intro h
    by_contra hneg
    rw [to_time_t_of_neg (not_le.mp hneg)] at h
    cases h
  · intro u hlt
    rw [Int64.lt_iff_toInt_lt] at hlt
    rw [fromUnix_eq, fromUnix_eq, cmp_eq_compare (wholeSecs_valid t) (wholeSecs_valid u),
      compare_lt_iff_lt, wholeSecs_totalNanos, wholeSecs_totalNanos]
    omega

/-- Between a time before the epoch and one after it. -/
theorem fromUnix_roundTrip_iff_at :
    ((fromUnix (-1)).to_time_t = .returned (-1) ↔ (0 : Int64) ≤ -1) ∧
      (fromUnix (-1)).cmp (fromUnix 1700000000) = .lt :=
  ⟨(fromUnix_roundTrip_iff (-1)).1,(fromUnix_roundTrip_iff (-1)).2 1700000000 (by decide)⟩

/-- The last second before the epoch ends the process. -/
theorem fromUnix_terminates : (fromUnix (-1)).to_time_t = .terminated := by decide +kernel

end
end Asp.SystemTime
