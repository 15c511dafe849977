import Asp.Time.Duration
import Mathlib.Data.Nat.Dist

/-! Differences and distances of durations against their order. A distance is a metric on the
totals. -/
namespace Asp.Duration

/-- What subtraction and distance owe to the order of two durations. -/
structure DifferenceAgrees (a b : Duration) : Prop where
  succeeds : (a.checkedSub b).isSome = true ↔ b.cmp a ≠ .gt
  exact : ∀ c ∈ a.checkedSub b, c.Normalized ∧ a.totalNanos = b.totalNanos + c.totalNanos
  subtracts : b.cmp a ≠ .gt → a.checkedSub b = some (a.sub b)
  cutsOff : b.cmp a = .gt → a.sub b = zero
  apart : ∃ d, a.absDiff b = some d ∧ b.absDiff a = some d ∧
    (d.isZero = true ↔ a.eq b = true)

section
variable {a b c : Duration}

/-- A difference is refused where it would be negative. -/
theorem checkedSub_eq_none_iff (ha : a.Normalized) (hb : b.Normalized) :
    a.checkedSub b = none ↔ a.totalNanos < b.totalNanos := by
  constructor
  · intro hnone
    have hfields := checkedSub_eq_none hnone
    simp only [Normalized] at ha hb
    rw [totalNanos, totalNanos]
    omega
  · intro hlt
    cases h : a.checkedSub b with
    | none => rfl
    | some c =>
      have htotal := (checkedSub_spec ha hb h).2
      omega

lemma checkedSub_isSome_iff (ha : a.Normalized) (hb : b.Normalized) :
    (a.checkedSub b).isSome = true ↔ b.totalNanos ≤ a.totalNanos := by
  rw [← not_iff_not, Bool.not_eq_true, Option.isSome_eq_false_iff, Option.isNone_iff_eq_none,
    checkedSub_eq_none_iff ha hb, not_le]

/-- One of the two differences always exists: the distance never fails, and is that of the
totals. -/
theorem absDiff_spec (ha : a.Normalized) (hb : b.Normalized) :
    ∃ d, a.absDiff b = some d ∧ d.Normalized ∧
      d.totalNanos = Nat.dist a.totalNanos b.totalNanos := by
  rw [absDiff]
  cases h : a.checkedSub b with
  | some d =>
    obtain ⟨hd,htotal⟩ := checkedSub_spec ha hb h
    exact ⟨d,rfl,hd,by rw [Nat.dist_eq_sub_of_le_right] <;> omega⟩
  | none =>
    have hlt := (checkedSub_eq_none_iff ha hb).mp h
    obtain ⟨d,hsome⟩ := Option.isSome_iff_exists.mp ((checkedSub_isSome_iff hb ha).mpr hlt.le)
    obtain ⟨hd,htotal⟩ := checkedSub_spec hb ha hsome
    exact ⟨d,hsome,hd,by rw [Nat.dist_eq_sub_of_le] <;> omega⟩

theorem absDiff_comm (ha : a.Normalized) (hb : b.Normalized) : a.absDiff b = b.absDiff a := by
  obtain ⟨d,h,hd,htotal⟩ := absDiff_spec ha hb
  obtain ⟨d',h',hd',htotal'⟩ := absDiff_spec hb ha
  rw [h, h', ext_totalNanos hd hd' (by rw [htotal, htotal', Nat.dist_comm])]

theorem differenceAgrees (ha : a.Normalized) (hb : b.Normalized) : DifferenceAgrees a b := by
  have hle := cmp_ne_gt_iff hb ha
  refine ⟨(checkedSub_isSome_iff ha hb).trans hle.symm,fun _ => checkedSub_spec ha hb,?_,?_,?_⟩
  · intro h
    obtain ⟨c,hc⟩ := Option.isSome_iff_exists.mp ((checkedSub_isSome_iff ha hb).mpr (hle.mp h))
    rw [sub, hc, Option.getD_some]
  · intro h
    have hlt : a.totalNanos < b.totalNanos := not_le.mp (mt hle.mpr (not_not_intro h))
    rw [sub, (checkedSub_eq_none_iff ha hb).mpr hlt]
    rfl
  · obtain ⟨d,h,hd,htotal⟩ := absDiff_spec ha hb
    refine ⟨d,h,absDiff_comm ha hb ▸ h,?_⟩
    rw [isZero_iff, eq_iff_totalNanos ha hb, htotal]
    exact ⟨Nat.eq_of_dist_eq_zero,Nat.dist_eq_zero⟩

/-- Subtraction, distance and order are coherent, and distances obey the triangle inequality. -/
theorem subtraction_coherent (ha : a.Normalized) (hb : b.Normalized) (hc : c.Normalized) :
    DifferenceAgrees a b ∧ ∃ ab bc ac, a.absDiff b = some ab ∧ b.absDiff c = some bc ∧
      a.absDiff c = some ac ∧ ac.totalNanos ≤ ab.totalNanos + bc.totalNanos := by
  obtain ⟨ab,hab,_,htotal⟩ := absDiff_spec ha hb
  obtain ⟨bc,hbc,_,htotal'⟩ := absDiff_spec hb hc
  obtain ⟨ac,hac,_,htotal''⟩ := absDiff_spec ha hc
  refine ⟨differenceAgrees ha hb,ab,bc,ac,hab,hbc,hac,?_⟩
  rw [htotal, htotal', htotal'']
  exact Nat.dist.triangle_inequality _ _ _

theorem subtraction_coherent_at :
    DifferenceAgrees ⟨2,3⟩ ⟨1,700⟩ ∧ ∃ ab bc ac, absDiff ⟨2,3⟩ ⟨1,700⟩ = some ab ∧
      absDiff ⟨1,700⟩ ⟨5,0⟩ = some bc ∧ absDiff ⟨2,3⟩ ⟨5,0⟩ = some ac ∧
      ac.totalNanos ≤ ab.totalNanos + bc.totalNanos :=
  subtraction_coherent (a := ⟨2,3⟩) (b := ⟨1,700⟩) (c := ⟨5,0⟩) (by decide) (by decide) (by decide)

end
end Asp.Duration
