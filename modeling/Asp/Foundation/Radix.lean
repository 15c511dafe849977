import Mathlib.Algebra.Order.Ring.Defs
import Mathlib.Algebra.Order.SuccPred
import Mathlib.Order.Compare

/-! Numbers of two digits: a leading part counts whole units of B, a trailing part less than one.
Their order, field by field, is that of the numbers. -/
namespace Asp.Foundation.Radix

/-- A comparison chain over two fields is the lexicographic comparison. -/
theorem ite_eq_then {α β : Type*} [LinearOrder α] [LinearOrder β] (a b : α) (c d : β) :
    (if a < b then Ordering.lt else if b < a then .gt
      else if c < d then .lt else if d < c then .gt else .eq) =
      (compare a b).then (compare c d) := by
  rcases lt_trichotomy a b with h | h | h
  · rw [if_pos h, compare_lt_iff_lt.mpr h, Ordering.lt_then]
  · rw [if_neg h.not_lt, if_neg h.not_gt, compare_eq_iff_eq.mpr h, Ordering.eq_then]
    rcases lt_trichotomy c d with h' | h' | h'
    · rw [if_pos h', compare_lt_iff_lt.mpr h']
    · rw [if_neg h'.not_lt, if_neg h'.not_gt, compare_eq_iff_eq.mpr h']
    · rw [if_neg h'.not_gt, if_pos h', compare_gt_iff_gt.mpr h']
  · rw [if_neg h.not_gt, if_pos h, compare_gt_iff_gt.mpr h, Ordering.gt_then]

section
variable {α : Type*} [CommSemiring α] [LinearOrder α] [IsStrictOrderedRing α] [SuccAddOrder α]
  {B q q' r r' : α}

/-- The leading part decides. -/
lemma lt_of_leading (hr : 0 ≤ r) (hrB : r < B) (hr' : 0 ≤ r') (h : q < q') :
    q*B + r < q'*B + r' := by
  have hB : 0 ≤ B := hr.trans hrB.le
  have hone : q + 1 ≤ q' := Order.add_one_le_of_lt h
  calc q*B + r < q*B + B := (add_lt_add_iff_left _).mpr hrB
    _ = (q + 1)*B := by rw [add_mul, one_mul]
    _ ≤ q'*B := mul_le_mul_of_nonneg_right hone hB
    _ ≤ q'*B + r' := le_add_of_nonneg_right hr'

/-- With trailing parts below one unit, comparing field by field compares the numbers. -/
theorem then_eq_compare (hr : 0 ≤ r) (hrB : r < B) (hr' : 0 ≤ r') (hrB' : r' < B) :
    (compare q q').then (compare r r') = compare (q*B + r) (q'*B + r') := by
  rcases lt_trichotomy q q' with h | h | h
  · rw [compare_lt_iff_lt.mpr h, compare_lt_iff_lt.mpr (lt_of_leading hr hrB hr' h),
      Ordering.lt_then]
  · rw [compare_eq_iff_eq.mpr h, h, Ordering.eq_then]
    rcases lt_trichotomy r r' with h' | h' | h'
    · rw [compare_lt_iff_lt.mpr h', compare_lt_iff_lt.mpr ((add_lt_add_iff_left _).mpr h')]
    · rw [h', compare_eq_iff_eq.mpr rfl, compare_eq_iff_eq.mpr rfl]
    · rw [compare_gt_iff_gt.mpr h', compare_gt_iff_gt.mpr ((add_lt_add_iff_left _).mpr h')]
  · rw [compare_gt_iff_gt.mpr h, compare_gt_iff_gt.mpr (lt_of_leading hr' hrB' hr h),
      Ordering.gt_then]

end

section
variable {B q r k : ℕ}

/-- Long division: the remainder of the leading part is brought down to the trailing part. -/
theorem div_digits (hk : 0 < k) : (q*B + r) / k = q / k*B + (q % k*B + r) / k := by
  have hq : q*B + r = k*(q / k*B) + (q % k*B + r) := by
    rw [← Nat.mul_assoc, ← Nat.add_assoc, ← Nat.add_mul, Nat.div_add_mod]
  rw [hq, Nat.mul_add_div hk]

/-- The dividend that is brought down is less than the divisor in units of B. -/
lemma mod_digits_lt (hk : 0 < k) (hr : r < B) : q % k*B + r < k*B := by
  have hmod : q % k + 1 ≤ k := Nat.mod_lt q hk
  calc q % k*B + r < q % k*B + B := Nat.add_lt_add_left hr _
    _ = (q % k + 1)*B := (Nat.succ_mul _ _).symm
    _ ≤ k*B := Nat.mul_le_mul_right B hmod

/-- Its quotient is a trailing part. -/
theorem div_digits_lt (hk : 0 < k) (hr : r < B) : (q % k*B + r) / k < B :=
  Nat.div_lt_of_lt_mul (mod_digits_lt hk hr)

/-- Multiplication carries what the trailing part exceeds one unit by. -/
theorem mul_digits : (q*B + r)*k = (q*k + r*k / B)*B + r*k % B := by
  have hr := Nat.div_add_mod' (r*k) B
  calc (q*B + r)*k = q*k*B + r*k := by rw [Nat.add_mul, Nat.mul_right_comm]
    _ = q*k*B + (r*k / B*B + r*k % B) := by rw [hr]
    _ = (q*k + r*k / B)*B + r*k % B := by rw [Nat.add_mul, Nat.add_assoc]

end
end Asp.Foundation.Radix
