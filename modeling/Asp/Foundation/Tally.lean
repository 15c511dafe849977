import Mathlib.Algebra.BigOperators.Group.Finset.Piecewise
import Mathlib.Algebra.Order.BigOperators.Group.Finset

/-! Weighted counts over the entries of a finite table, and how they change when one entry
is overwritten. -/
namespace Asp.Foundation
variable {ι α : Type*} [Fintype ι]

/-- The total weight of the entries of `f`. -/
def tally (w : α → ℕ) (f : ι → α) : ℕ := ∑ i, w (f i)

theorem tally_pos_iff {w : α → ℕ} {f : ι → α} : 0 < tally w f ↔ ∃ i, 0 < w (f i) := by
  simp [tally, Nat.pos_iff_ne_zero]

theorem tally_eq_zero {w : α → ℕ} {f : ι → α} : tally w f = 0 ↔ ∀ i, w (f i) = 0 := by
  simp [tally]

variable [DecidableEq ι]

/-- Overwriting one entry exchanges its old weight for the new one. -/
theorem tally_update (w : α → ℕ) (f : ι → α) (i : ι) (a : α) :
    tally w (Function.update f i a) + w (f i) = tally w f + w a := by
  have hrest : ∀ b, tally w (Function.update f i b) = w b + ∑ j ∈ Finset.univ \ {i}, w (f j) := by
    intro b
    change ∑ j, (w ∘ Function.update f i b) j = _
    rw [Function.comp_update, Finset.sum_update_of_mem (Finset.mem_univ i)]
    rfl
  have hself := hrest (f i)
  rw [Function.update_eq_self] at hself
  rw [hrest a, hself]
  omega

end Asp.Foundation
