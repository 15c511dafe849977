import Mathlib.Tactic.Ring
import Mathlib.Tactic.Linarith

/-! Checked 64-bit arithmetic of `asp::nums`. The bodies are the portable branches; for an
unsigned type the overflow builtins compute the same results. -/
namespace Asp.Nums

/-- `std::numeric_limits<u64>::max()` -/
def maxU64 : UInt64 := 18446744073709551615

@[simp] theorem maxU64_toNat : maxU64.toNat = 2^64-1 := rfl

/-- `checkedAdd<u64>`: refuses when `b > max - a`. -/
def checkedAdd (a b : UInt64) : Option UInt64 :=
  if b > maxU64 - a then none else some (a + b)

/-- `checkedSub<u64>`: refuses when `b > a`. -/
def checkedSub (a b : UInt64) : Option UInt64 :=
  if b > a then none else some (a - b)

/-- `checkedMul<u64>`: refuses when `a != 0 && b > max / a`. -/
def checkedMul (a b : UInt64) : Option UInt64 :=
  if a ≠ 0 ∧ b > maxU64 / a then none else some (a * b)

theorem checkedAdd_eq_some {a b c : UInt64} :
    checkedAdd a b = some c ↔ c.toNat = a.toNat + b.toNat := by
  have ha := a.toNat_lt
  have hc := c.toNat_lt
  have hle : a ≤ maxU64 := by rw [UInt64.le_iff_toNat_le, maxU64_toNat]; omega
  unfold checkedAdd
  split_ifs with h <;>
    rw [gt_iff_lt, UInt64.lt_iff_toNat_lt, UInt64.toNat_sub_of_le _ _ hle, maxU64_toNat] at h
  · simp only [false_iff]
    omega
  · rw [Option.some_inj, ← UInt64.toNat_inj, UInt64.toNat_add]
    omega

theorem checkedAdd_eq_none {a b : UInt64} :
    checkedAdd a b = none ↔ 2^64 ≤ a.toNat + b.toNat := by
  rw [Option.eq_none_iff_forall_ne_some]
  constructor
  · intro h
    by_contra hlt
    refine h (a+b) (checkedAdd_eq_some.mpr ?_)
    rw [UInt64.toNat_add]
    omega
  · intro h c hc
    have hs := checkedAdd_eq_some.mp hc
    have hl := c.toNat_lt
    omega

theorem checkedSub_eq_some {a b c : UInt64} :
    checkedSub a b = some c ↔ a.toNat = b.toNat + c.toNat := by
  have hc := c.toNat_lt
  unfold checkedSub
  split_ifs with h <;> rw [gt_iff_lt, UInt64.lt_iff_toNat_lt] at h
  · simp only [false_iff]
    omega
  · rw [Option.some_inj, ← UInt64.toNat_inj,
      UInt64.toNat_sub_of_le _ _ (UInt64.le_iff_toNat_le.mpr (by omega))]
    omega

theorem checkedSub_eq_none {a b : UInt64} :
    checkedSub a b = none ↔ a.toNat < b.toNat := by
  unfold checkedSub
  split_ifs with h <;> rw [gt_iff_lt, UInt64.lt_iff_toNat_lt] at h <;> simp [h]

theorem checkedMul_eq_some {a b c : UInt64} :
    checkedMul a b = some c ↔ c.toNat = a.toNat*b.toNat := by
  have hc := c.toNat_lt
  have hz : a = 0 ↔ a.toNat = 0 := by rw [← UInt64.toNat_inj]; rfl
  unfold checkedMul
  split_ifs with h <;>
    rw [gt_iff_lt, UInt64.lt_iff_toNat_lt, UInt64.toNat_div, maxU64_toNat, Ne, hz] at h
  · simp only [false_iff]
    obtain ⟨hpos,hlt⟩ := h
    rw [Nat.div_lt_iff_lt_mul (Nat.pos_of_ne_zero hpos), Nat.mul_comm] at hlt
    omega
  · have hle : a.toNat*b.toNat ≤ 2^64-1 := by
      rcases Nat.eq_zero_or_pos a.toNat with ha | ha
      · rw [ha]; omega
      · have hb : b.toNat ≤ (2^64-1) / a.toNat := by
          by_contra hb
          exact h ⟨by omega,by omega⟩
        exact (Nat.mul_comm _ _).trans_le ((Nat.le_div_iff_mul_le ha).mp hb)
    rw [Option.some_inj, ← UInt64.toNat_inj, UInt64.toNat_mul]
    omega

theorem checkedMul_eq_none {a b : UInt64} :
    checkedMul a b = none ↔ 2^64 ≤ a.toNat*b.toNat := by
  rw [Option.eq_none_iff_forall_ne_some]
  constructor
  · intro h
    by_contra hlt
    refine h (a*b) (checkedMul_eq_some.mpr ?_)
    rw [UInt64.toNat_mul]
    omega
  · intro h c hc
    have hs := checkedMul_eq_some.mp hc
    have hl := c.toNat_lt
    omega

theorem compare_eq_toNat (a b : UInt64) : compare a b = compare a.toNat b.toNat := by
  change (if a < b then Ordering.lt else if a = b then .eq else .gt) = _
  simp only [UInt64.lt_iff_toNat_lt, ← UInt64.toNat_inj]
  rcases lt_trichotomy a.toNat b.toNat with h | h | h
  · rw [if_pos h, compare_lt_iff_lt.mpr h]
  · rw [if_neg (by omega), if_pos h, compare_eq_iff_eq.mpr h]
  · rw [if_neg (not_lt_of_gt h), if_neg (ne_of_gt h), compare_gt_iff_gt.mpr h]

end Asp.Nums
