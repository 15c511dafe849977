import Mathlib.Data.Int.ModEq
import Mathlib.Tactic.SplitIfs

/-! Steps around the cycle of the integers from `a` to `b`, where `a` follows `b`. -/
namespace Asp.Foundation

/-- The place `x` steps after `a`. -/
def place (a b x : ℤ) : ℤ := a + x % (b - a + 1)

section Place
variable {a b c x y : ℤ}

lemma place_mem (h : a ≤ b) (x : ℤ) : a ≤ place a b x ∧ place a b x ≤ b := by
  have h0 := Int.emod_nonneg x (b := b - a + 1) (by omega)
  have h1 := Int.emod_lt_of_pos x (b := b - a + 1) (by omega)
  rw [place]
  omega

/-- A number of the cycle is its own place. -/
lemma place_self (hac : a ≤ c) (hcb : c ≤ b) : place a b (c - a) = c := by
  rw [place, Int.emod_eq_of_lt (by omega) (by omega)]
  omega

/-- Steps are added up. -/
lemma place_place (a b x y : ℤ) : place a b (place a b x - a + y) = place a b (x + y) := by
  rw [place, place, add_sub_cancel_left, Int.emod_add_emod, place]

lemma place_add_self (a b x : ℤ) : place a b (x + (b - a + 1)) = place a b x := by
  rw [place, Int.add_emod_right, place]

lemma place_eq_iff : place a b x = place a b y ↔ b - a + 1 ∣ x - y := by
  rw [place, place, add_right_inj, Int.emod_eq_emod_iff_emod_sub_eq_zero, Int.dvd_iff_emod_eq_zero]

/-- A step forwards, by a comparison with the end. -/
lemma place_succ (hac : a ≤ c) (hcb : c ≤ b) :
    place a b (c - a + 1) = if b < c + 1 then a else c + 1 := by
  split_ifs with h
  · obtain rfl : c = b := by omega
    rw [place, Int.emod_self, add_zero]
  · have hself := place_self (a := a) (b := b) (c := c + 1) (by omega) (by omega)
    rwa [show c + 1 - a = c - a + 1 by omega] at hself

/-- A step backwards, by a comparison with the beginning. -/
lemma place_pred (hac : a ≤ c) (hcb : c ≤ b) :
    place a b (c - a - 1) = if c - 1 < a then b else c - 1 := by
  split_ifs with h
  · obtain rfl : c = a := by omega
    have hself := place_self (hac.trans hcb) (Int.le_refl b)
    rw [← place_add_self, show c - c - 1 + (b - c + 1) = b - c by omega, hself]
  · have hself := place_self (a := a) (b := b) (c := c - 1) (by omega) (by omega)
    rwa [show c - 1 - a = c - a - 1 by omega] at hself

end Place
end Asp.Foundation
