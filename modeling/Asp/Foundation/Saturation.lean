import Mathlib.Order.Lattice

/-! Saturation at a limit: what reaches the limit is replaced by a fixed value, which need not be
the largest below it. -/
namespace Asp.Foundation

variable {α : Type*} [LinearOrder α] {limit top x y : α}

def saturate (limit top x : α) : α := if x < limit then x else top

lemma saturate_of_lt (h : x < limit) : saturate limit top x = x := if_pos h

lemma saturate_of_le (h : limit ≤ x) : saturate limit top x = top := if_neg h.not_gt

/-- Saturation keeps an inequality unless it replaces the larger side by something smaller. -/
theorem le_saturate_iff (h : x ≤ y) : x ≤ saturate limit top y ↔ y < limit ∨ x ≤ top := by
  rcases lt_or_ge y limit with hy | hy
  · rw [saturate_of_lt hy]
    exact ⟨fun _ => .inl hy,fun _ => h⟩
  · rw [saturate_of_le hy]
    exact ⟨.inr,fun hor => hor.resolve_left hy.not_gt⟩

/-- Where saturation is monotone, although its value may lie below unsaturated ones. -/
theorem saturate_le_saturate_iff (h : x ≤ y) :
    saturate limit top x ≤ saturate limit top y ↔ y < limit ∨ saturate limit top x ≤ top := by
  rcases lt_or_ge x limit with hx | hx
  · rw [saturate_of_lt hx, le_saturate_iff h]
  · rw [saturate_of_le hx, saturate_of_le (hx.trans h)]
    exact ⟨.inr,fun _ => le_rfl⟩

end Asp.Foundation
