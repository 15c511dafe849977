import Asp.Foundation.Radix
import Asp.Time.Detail
import Mathlib.Data.Nat.SuccPred

/-! `asp::Duration`: factories, checked operations, operators and ordering, in the u64 and u32
arithmetic of the source. Nanosecond totals are natural numbers. -/
namespace Asp
open Foundation TimeDetail

structure Duration where
  m_seconds : UInt64
  m_nanos : UInt32
  deriving DecidableEq, Repr

namespace Duration

/-- The nanoseconds a duration stands for. -/
def totalNanos (d : Duration) : ℕ := d.m_seconds.toNat*10^9 + d.m_nanos.toNat

/-- The invariant stated next to `m_nanos`. -/
def Normalized (d : Duration) : Prop := d.m_nanos.toNat < 10^9

instance (d : Duration) : Decidable d.Normalized := inferInstanceAs (Decidable (_ < _))

def _unchecked (secs : UInt64) (nanos : UInt32) : Duration := ⟨secs,nanos⟩

/-- `Duration(u64 seconds, u32 nanos)` -/
def ctor (seconds : UInt64) (nanos : UInt32) : Duration :=
  if nanos.toUInt64 < NANOS_IN_SEC then ⟨seconds,nanos⟩
  -- the carry is added to the parameter, after m_seconds has been initialised from it
  else ⟨seconds,(nanos.toUInt64 % NANOS_IN_SEC).toUInt32⟩

/-- `fromSecs` at an integral type: `static_cast<u64>(secs)`. -/
def fromSecs (secs : ℤ) : Duration := _unchecked (UInt64.ofInt secs) 0
def fromNanos (nanos : UInt64) : Duration :=
  _unchecked (nanos_to_secs nanos) (nanos % NANOS_IN_SEC).toUInt32
def fromMicros (micros : UInt64) : Duration :=
  _unchecked (micros_to_secs micros) (micros_to_nanos_subsec micros).toUInt32
def fromMillis (ms : UInt64) : Duration :=
  _unchecked (millis_to_secs ms) (millis_to_nanos_subsec ms).toUInt32
def fromMinutes (mins : UInt64) : Duration := _unchecked (minutes_to_secs mins) 0
def fromHours (hours : UInt64) : Duration := _unchecked (hours_to_secs hours) 0
def fromDays (days : UInt64) : Duration := _unchecked (days_to_secs days) 0
def fromWeeks (weeks : UInt64) : Duration := _unchecked (weeks_to_secs weeks) 0
def fromYears (years : UInt64) : Duration := _unchecked (years_to_secs years) 0
def zero : Duration := ctor 0 0
def infinite : Duration := ctor Nums.maxU64 (NANOS_IN_SEC - 1).toUInt32

def isZero (d : Duration) : Bool := d.m_seconds == 0 && d.m_nanos == 0

def millis (d : Duration) : UInt64 :=
  d.m_seconds * MILLIS_IN_SEC + d.m_nanos.toUInt64 / NANOS_IN_MILLISEC
def seconds (d : Duration) : UInt64 := d.m_seconds + d.m_nanos.toUInt64 / NANOS_IN_SEC
def subsecNanos (d : Duration) : UInt64 := d.m_nanos.toUInt64

/-- The nanoseconds read through the two getters, as points in time read them. -/
def getterNanos (d : Duration) : ℕ := d.seconds.toNat*10^9 + d.subsecNanos.toNat

def checkedAdd (d other : Duration) : Option Duration :=
  (Nums.checkedAdd d.m_seconds other.m_seconds).bind fun addedSecs =>
    let nanos := d.m_nanos + other.m_nanos
    if nanos.toUInt64 > NANOS_IN_SEC then
      (Nums.checkedAdd addedSecs 1).map fun temp =>
        _unchecked temp (nanos.toUInt64 - NANOS_IN_SEC).toUInt32
    else some (_unchecked addedSecs nanos)

def checkedSub (d other : Duration) : Option Duration :=
  (Nums.checkedSub d.m_seconds other.m_seconds).bind fun subdSecs =>
    if d.m_nanos ≥ other.m_nanos then some (_unchecked subdSecs (d.m_nanos - other.m_nanos))
    else (Nums.checkedSub subdSecs 1).map fun temp =>
      _unchecked temp (d.m_nanos.toUInt64 + NANOS_IN_SEC - other.m_nanos.toUInt64).toUInt32

def checkedMul (d : Duration) (k : UInt32) : Option Duration :=
  let totalNanos := d.m_nanos.toUInt64 * k.toUInt64
  let extraSecs := nanos_to_secs totalNanos
  let nanos := totalNanos % NANOS_IN_SEC
  (Nums.checkedMul d.m_seconds k.toUInt64).bind fun mulSecs =>
    (Nums.checkedAdd mulSecs extraSecs).map fun addedSecs => _unchecked addedSecs nanos.toUInt32

/-- `none` is the throw of `std::optional::value` on an empty optional. -/
def absDiff (d other : Duration) : Option Duration :=
  (d.checkedSub other).or (other.checkedSub d)

/-- The tail of `operator+` and `operator*`: the value, or `_throwrt` with the message. -/
def valueOrThrow (msg : String) : Option Duration → Except String Duration
  | some res => .ok res
  | none => .error msg

/-- `operator+` -/
def add (d other : Duration) : Except String Duration :=
  valueOrThrow "overflow when adding durations" (d.checkedAdd other)

/-- `operator-`, which falls back to the empty duration. -/
def sub (d other : Duration) : Duration := (d.checkedSub other).getD ⟨0,0⟩

/-- `operator*` -/
def mul (d : Duration) (val : UInt32) : Except String Duration :=
  valueOrThrow "overflow when multiplying duration by scalar" (d.checkedMul val)

/-- `operator/` -/
def div (d : Duration) (val : UInt32) : Except String Duration :=
  if val = 0 then .error "attempted to divide a Duration by 0"
  else
    let secq := d.m_seconds / val.toUInt64
    let secr := d.m_seconds % val.toUInt64
    let totalNanos := secr * NANOS_IN_SEC + d.m_nanos.toUInt64
    let nanosq := totalNanos / val.toUInt64
    if nanosq ≥ NANOS_IN_SEC then
      .ok (ctor (secq + nanosq / NANOS_IN_SEC) (nanosq % NANOS_IN_SEC).toUInt32)
    else .ok (ctor secq nanosq.toUInt32)

/-- `operator<=>` -/
def cmp (d other : Duration) : Ordering :=
  if d.m_seconds < other.m_seconds then .lt
  else if d.m_seconds > other.m_seconds then .gt
  else if d.m_nanos < other.m_nanos then .lt
  else if d.m_nanos > other.m_nanos then .gt
  else .eq

/-- `operator==`, which compares through the getters. -/
def eq (d other : Duration) : Bool :=
  d.seconds == other.seconds && d.subsecNanos == other.subsecNanos

/-! Every factory produces a normalized duration, whatever its argument wraps to. -/

@[simp] theorem totalNanos_mk (s : UInt64) (n : UInt32) :
    totalNanos ⟨s,n⟩ = s.toNat*10^9 + n.toNat := rfl

theorem totalNanos_lt {d : Duration} (h : d.Normalized) : d.totalNanos < 2^64*10^9 := by
  have hlt := d.m_seconds.toNat_lt
  simp only [Normalized] at h
  rw [totalNanos]
  omega

theorem isZero_iff (d : Duration) : d.isZero = true ↔ d.totalNanos = 0 := by
  have h64 : (0 : UInt64).toNat = 0 := rfl
  have h32 : (0 : UInt32).toNat = 0 := rfl
  rw [isZero, Bool.and_eq_true, beq_iff_eq, beq_iff_eq, ← UInt64.toNat_inj, ← UInt32.toNat_inj,
    totalNanos]
  omega

theorem totalNanos_pos {d : Duration} (h : d.isZero = false) : 0 < d.totalNanos := by
  rw [Nat.pos_iff_ne_zero, Ne, ← isZero_iff, h]
  exact Bool.false_ne_true

theorem millis_toNat (d : Duration) : d.millis.toNat = d.totalNanos / 10^6 % 2^64 := by
  rw [millis, UInt64.toNat_add, UInt64.toNat_mul, UInt64.toNat_div, UInt32.toNat_toUInt64,
    MILLIS_IN_SEC_toNat, NANOS_IN_MILLISEC_toNat, totalNanos]
  omega

theorem seconds_toNat (d : Duration) :
    d.seconds.toNat = (d.m_seconds.toNat + d.m_nanos.toNat / 10^9) % 2^64 := by
  rw [seconds, UInt64.toNat_add, UInt64.toNat_div, UInt32.toNat_toUInt64, NANOS_IN_SEC_toNat]

theorem subsecNanos_toNat (d : Duration) : d.subsecNanos.toNat = d.m_nanos.toNat := by
  rw [subsecNanos, UInt32.toNat_toUInt64]

lemma toUInt32_normalized {n : UInt64} (h : n.toNat < 10^9) (s : UInt64) :
    Normalized ⟨s,n.toUInt32⟩ := by
  simp only [Normalized, UInt64.toNat_toUInt32]
  omega

lemma mod_nanos_lt (n : UInt64) : (n % NANOS_IN_SEC).toNat < 10^9 := by
  rw [UInt64.toNat_mod, NANOS_IN_SEC_toNat]
  exact Nat.mod_lt _ (by decide)

lemma lt_nanos_iff (n : UInt32) : n.toUInt64 < NANOS_IN_SEC ↔ n.toNat < 10^9 := by
  rw [UInt64.lt_iff_toNat_lt, UInt32.toNat_toUInt64, NANOS_IN_SEC_toNat]

theorem ctor_normalized (s : UInt64) (n : UInt32) : (ctor s n).Normalized := by
  unfold ctor
  split_ifs with h
  · exact (lt_nanos_iff n).mp h
  · exact toUInt32_normalized (mod_nanos_lt _) s

theorem wholeSecs_normalized (s : UInt64) : Normalized ⟨s,0⟩ :=
  show 0 < 10^9 by norm_num

theorem fromNanos_normalized (n : UInt64) : (fromNanos n).Normalized :=
  toUInt32_normalized (mod_nanos_lt n) _

lemma fromNanos_totalNanos (n : UInt64) : (fromNanos n).totalNanos = n.toNat := by
  simp only [fromNanos, _unchecked, totalNanos_mk, nanos_to_secs, UInt64.toNat_div,
    UInt64.toNat_toUInt32, UInt64.toNat_mod, NANOS_IN_SEC_toNat]
  omega

theorem fromMicros_normalized (n : UInt64) : (fromMicros n).Normalized :=
  toUInt32_normalized (micros_to_nanos_subsec_lt n) _

theorem fromMillis_normalized (n : UInt64) : (fromMillis n).Normalized :=
  toUInt32_normalized (millis_to_nanos_subsec_lt n) _

/-- A normalized duration is what the public constructor makes of its two fields. -/
theorem ctor_eq_self {d : Duration} (h : d.Normalized) : ctor d.m_seconds d.m_nanos = d := by
  rw [ctor, if_pos ((lt_nanos_iff _).mpr h)]

/-- The two durations whose sum exposes the carry test of checkedAdd: it compares with `>`, so
nanoseconds that sum to exactly one second are kept as they are. -/
def CarriesExactly (a b : Duration) : Prop := a.m_nanos.toNat + b.m_nanos.toNat = 10^9

instance (a b : Duration) : Decidable (CarriesExactly a b) := inferInstanceAs (Decidable (_ = _))

section Arithmetic
variable {a b c : Duration} {k : UInt32}

/-- Nanoseconds of up to a second each add up without wrapping. -/
lemma nanosSum_toNat (ha : a.m_nanos.toNat ≤ 10^9) (hb : b.m_nanos.toNat ≤ 10^9) :
    (a.m_nanos + b.m_nanos).toNat = a.m_nanos.toNat + b.m_nanos.toNat := by
  rw [UInt32.toNat_add]
  omega

/-- The fields of a sum, also of operands that keep a whole second in their nanoseconds. -/
theorem checkedAdd_fields (ha : a.m_nanos.toNat ≤ 10^9) (hb : b.m_nanos.toNat ≤ 10^9)
    (h : a.checkedAdd b = some c) :
    (a.m_nanos.toNat + b.m_nanos.toNat ≤ 10^9 ∧
      c.m_seconds.toNat = a.m_seconds.toNat + b.m_seconds.toNat ∧
      c.m_nanos.toNat = a.m_nanos.toNat + b.m_nanos.toNat) ∨
    (10^9 < a.m_nanos.toNat + b.m_nanos.toNat ∧
      c.m_seconds.toNat = a.m_seconds.toNat + b.m_seconds.toNat + 1 ∧
      c.m_nanos.toNat + 10^9 = a.m_nanos.toNat + b.m_nanos.toNat) := by
  obtain ⟨secs,hs,hrest⟩ := Option.bind_eq_some_iff.mp h
  rw [Nums.checkedAdd_eq_some] at hs
  have hn := nanosSum_toNat ha hb
  dsimp only at hrest
  split_ifs at hrest with hc <;>
    rw [gt_iff_lt, UInt64.lt_iff_toNat_lt, UInt32.toNat_toUInt64, hn, NANOS_IN_SEC_toNat] at hc
  · obtain ⟨temp,ht,rfl⟩ := Option.map_eq_some_iff.mp hrest
    rw [Nums.checkedAdd_eq_some] at ht
    have hle : NANOS_IN_SEC ≤ (a.m_nanos + b.m_nanos).toUInt64 := by
      rw [UInt64.le_iff_toNat_le, UInt32.toNat_toUInt64, hn, NANOS_IN_SEC_toNat]
      omega
    simp only [_unchecked, UInt64.toNat_toUInt32, UInt64.toNat_sub_of_le _ _ hle,
      UInt32.toNat_toUInt64, hn, NANOS_IN_SEC_toNat, UInt64.reduceToNat] at ht ⊢
    omega
  · cases hrest
    exact .inl ⟨not_lt.mp hc,hs,hn⟩

/-- A sum is refused where its seconds overflow, the carry of `>` included. -/
theorem checkedAdd_eq_none (ha : a.m_nanos.toNat ≤ 10^9) (hb : b.m_nanos.toNat ≤ 10^9) :
    a.checkedAdd b = none ↔ 2^64 ≤ a.m_seconds.toNat + b.m_seconds.toNat ∨
      10^9 < a.m_nanos.toNat + b.m_nanos.toNat ∧
        2^64 ≤ a.m_seconds.toNat + b.m_seconds.toNat + 1 := by
  have hn := nanosSum_toNat ha hb
  have h1 : (1 : UInt64).toNat = 1 := rfl
  rw [checkedAdd]
  cases hs : Nums.checkedAdd a.m_seconds b.m_seconds with
  | none =>
    rw [Nums.checkedAdd_eq_none] at hs
    exact ⟨fun _ => .inl hs,fun _ => rfl⟩
  | some secs =>
    have hlt := secs.toNat_lt
    rw [Nums.checkedAdd_eq_some] at hs
    rw [Option.bind_some]
    dsimp only
    split_ifs with hc <;>
      rw [gt_iff_lt, UInt64.lt_iff_toNat_lt, UInt32.toNat_toUInt64, hn, NANOS_IN_SEC_toNat] at hc
    · rw [Option.map_eq_none_iff, Nums.checkedAdd_eq_none, hs, h1]
      omega
    · refine ⟨nofun,?_⟩
      omega

/-- The value of a sum is always exact; its representation is normalized unless the
nanoseconds of the operands add up to exactly one second. -/
theorem checkedAdd_spec (ha : a.Normalized) (hb : b.Normalized) (h : a.checkedAdd b = some c) :
    c.totalNanos = a.totalNanos + b.totalNanos ∧ c.m_nanos.toNat ≤ 10^9 ∧
      (c.Normalized ↔ ¬ CarriesExactly a b) := by
  have hfields := checkedAdd_fields (le_of_lt ha) (le_of_lt hb) h
  simp only [Normalized, CarriesExactly, totalNanos] at ha hb ⊢
  omega

/-- The fields of a difference, also of operands that keep a whole second in their nanoseconds. -/
theorem checkedSub_fields (ha : a.m_nanos.toNat ≤ 10^9) (hb : b.m_nanos.toNat ≤ 10^9)
    (h : a.checkedSub b = some c) :
    (b.m_nanos.toNat ≤ a.m_nanos.toNat ∧
      c.m_seconds.toNat + b.m_seconds.toNat = a.m_seconds.toNat ∧
      c.m_nanos.toNat = a.m_nanos.toNat - b.m_nanos.toNat) ∨
    (a.m_nanos.toNat < b.m_nanos.toNat ∧
      c.m_seconds.toNat + b.m_seconds.toNat + 1 = a.m_seconds.toNat ∧
      c.m_nanos.toNat + b.m_nanos.toNat = a.m_nanos.toNat + 10^9) := by
  obtain ⟨secs,hs,hrest⟩ := Option.bind_eq_some_iff.mp h
  rw [Nums.checkedSub_eq_some] at hs
  split_ifs at hrest with hc <;> rw [ge_iff_le, UInt32.le_iff_toNat_le] at hc
  · cases hrest
    exact .inl ⟨hc,by rw [hs, Nat.add_comm]; rfl,
      UInt32.toNat_sub_of_le _ _ (UInt32.le_iff_toNat_le.mpr hc)⟩
  · obtain ⟨temp,ht,rfl⟩ := Option.map_eq_some_iff.mp hrest
    rw [Nums.checkedSub_eq_some] at ht
    have hadd : (a.m_nanos.toUInt64 + NANOS_IN_SEC).toNat = a.m_nanos.toNat + 10^9 := by
      rw [UInt64.toNat_add, UInt32.toNat_toUInt64, NANOS_IN_SEC_toNat]
      omega
    have hle : b.m_nanos.toUInt64 ≤ a.m_nanos.toUInt64 + NANOS_IN_SEC := by
      rw [UInt64.le_iff_toNat_le, hadd, UInt32.toNat_toUInt64]
      omega
    simp only [_unchecked, UInt64.toNat_toUInt32, UInt64.toNat_sub_of_le _ _ hle, hadd,
      UInt32.toNat_toUInt64, UInt64.reduceToNat] at ht ⊢
    omega

theorem checkedSub_spec (ha : a.Normalized) (hb : b.Normalized) (h : a.checkedSub b = some c) :
    c.Normalized ∧ a.totalNanos = b.totalNanos + c.totalNanos := by
  have hfields := checkedSub_fields (le_of_lt ha) (le_of_lt hb) h
  simp only [Normalized, totalNanos] at ha hb ⊢
  omega

theorem checkedSub_eq_none (h : a.checkedSub b = none) :
    a.m_seconds.toNat < b.m_seconds.toNat ∨
      a.m_seconds.toNat = b.m_seconds.toNat ∧ a.m_nanos.toNat < b.m_nanos.toNat := by
  unfold checkedSub at h
  rw [Option.bind_eq_none_iff] at h
  cases hs : Nums.checkedSub a.m_seconds b.m_seconds with
  | none => exact .inl (Nums.checkedSub_eq_none.mp hs)
  | some secs =>
    have hrest := h secs hs
    split_ifs at hrest with hc
    rw [ge_iff_le, UInt32.le_iff_toNat_le] at hc
    rw [Option.map_eq_none_iff, Nums.checkedSub_eq_none] at hrest
    have h1 : (1 : UInt64).toNat = 1 := rfl
    rw [Nums.checkedSub_eq_some] at hs
    omega

/-- The difference is cut off at zero. -/
theorem sub_totalNanos (ha : a.m_nanos.toNat ≤ 10^9) (hb : b.Normalized) :
    (a.sub b).totalNanos = a.totalNanos - b.totalNanos := by
  unfold sub
  simp only [Normalized] at hb
  cases h : a.checkedSub b with
  | none =>
    have hnone := checkedSub_eq_none h
    have h0 : totalNanos ⟨0,0⟩ = 0 := rfl
    rw [Option.getD_none, h0, totalNanos, totalNanos]
    omega
  | some c =>
    have hfields := checkedSub_fields ha (le_of_lt hb) h
    rw [Option.getD_some, totalNanos, totalNanos, totalNanos]
    omega

theorem checkedMul_normalized (h : a.checkedMul k = some c) : c.Normalized := by
  obtain ⟨mulSecs,_,hrest⟩ := Option.bind_eq_some_iff.mp h
  obtain ⟨addedSecs,_,rfl⟩ := Option.map_eq_some_iff.mp hrest
  exact toUInt32_normalized (mod_nanos_lt _) _

theorem valueOrThrow_eq_ok {msg : String} {r : Option Duration} :
    valueOrThrow msg r = .ok c ↔ r = some c := by
  cases r <;> simp [valueOrThrow]

theorem add_eq_ok : a.add b = .ok c ↔ a.checkedAdd b = some c := valueOrThrow_eq_ok

theorem mul_eq_ok : a.mul k = .ok c ↔ a.checkedMul k = some c := valueOrThrow_eq_ok

theorem div_normalized (h : a.div k = .ok c) : c.Normalized := by
  unfold div at h
  dsimp only at h
  split_ifs at h <;> cases h <;> exact ctor_normalized _ _

end Arithmetic

section Order
variable {a b : Duration}

/-- On normalized durations the lexicographic comparison is that of the totals. -/
theorem cmp_eq_compare (ha : a.Normalized) (hb : b.Normalized) :
    a.cmp b = compare a.totalNanos b.totalNanos := by
  simp only [cmp, UInt64.lt_iff_toNat_lt, UInt32.lt_iff_toNat_lt, gt_iff_lt]
  rw [Radix.ite_eq_then, Radix.then_eq_compare (Nat.zero_le _) ha (Nat.zero_le _) hb]
  rfl

theorem cmp_ne_gt_iff (ha : a.Normalized) (hb : b.Normalized) :
    a.cmp b ≠ .gt ↔ a.totalNanos ≤ b.totalNanos := by
  rw [cmp_eq_compare ha hb, Ne, compare_gt_iff_gt, not_lt]

theorem seconds_eq (ha : a.Normalized) : a.seconds = a.m_seconds := by
  have hl := a.m_seconds.toNat_lt
  rw [← UInt64.toNat_inj, seconds_toNat, Nat.div_eq_of_lt ha, Nat.add_zero, Nat.mod_eq_of_lt hl]

theorem getterNanos_of_normalized (ha : a.Normalized) : a.getterNanos = a.totalNanos := by
  rw [getterNanos, seconds_eq ha, subsecNanos_toNat, totalNanos]

/-- A second kept in m_nanos is counted twice by the getters, modulo the width of seconds(). -/
theorem getterNanos_of_full (ha : a.m_nanos.toNat = 10^9) :
    ∃ k ≤ 1, a.getterNanos + k*(2^64*10^9) = a.totalNanos + 10^9 := by
  have hl := a.m_seconds.toNat_lt
  rw [getterNanos, seconds_toNat, subsecNanos_toNat, totalNanos, ha]
  by_cases hw : a.m_seconds.toNat + 1 < 2^64
  · exact ⟨0,by omega,by omega⟩
  · exact ⟨1,by omega,by omega⟩

theorem eq_iff_totalNanos (ha : a.Normalized) (hb : b.Normalized) :
    a.eq b = true ↔ a.totalNanos = b.totalNanos := by
  simp only [eq, seconds_eq ha, seconds_eq hb, subsecNanos, Bool.and_eq_true, beq_iff_eq,
    ← UInt64.toNat_inj, UInt32.toNat_toUInt64]
  simp only [Normalized] at ha hb
  simp only [totalNanos]
  omega

theorem ext_totalNanos (ha : a.Normalized) (hb : b.Normalized)
    (h : a.totalNanos = b.totalNanos) : a = b := by
  obtain ⟨s,n⟩ := a
  obtain ⟨s',n'⟩ := b
  simp only [Normalized, totalNanos] at ha hb h
  rw [mk.injEq, ← UInt64.toNat_inj, ← UInt32.toNat_inj]
  omega

end Order

end Duration
end Asp
