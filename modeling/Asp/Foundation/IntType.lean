import Mathlib.Data.Int.Order.Lemmas
import Mathlib.Tactic.Ring
import Mathlib.Tactic.Linarith

/-! Integer types of a language with integral promotion: an operand narrower than `int` is
computed in `int`, overflow of a signed type is undefined and an unsigned type wraps. -/
namespace Asp.Foundation

structure IntType where
  width : ℕ
  signed : Bool
  width_pos : 0 < width

namespace IntType

def min (T : IntType) : ℤ := if T.signed then -2^(T.width-1) else 0

/-- A type of width w has 2^w values. -/
def max (T : IntType) : ℤ := T.min + 2^T.width - 1

def InRange (T : IntType) (x : ℤ) : Prop := T.min ≤ x ∧ x ≤ T.max

instance (T : IntType) (x : ℤ) : Decidable (T.InRange x) :=
  inferInstanceAs (Decidable (_ ∧ _))

/-- Conversion to the type: the representative of x modulo 2^w. -/
def wrap (T : IntType) (x : ℤ) : ℤ := T.min + (x - T.min) % 2^T.width

structure Value (T : IntType) where
  val : ℤ
  inRange : T.InRange val
  deriving DecidableEq

def int : IntType := ⟨32,true,by decide⟩
def i64 : IntType := ⟨64,true,by decide⟩
def u64 : IntType := ⟨64,false,by decide⟩

/-- The type in which operands of the type are computed. -/
def promoted (T : IntType) : IntType := if T.width < int.width then int else T

/-- An operator applied to operands of the type, with exact result x; `none` is undefined. -/
def arith (T : IntType) (x : ℤ) : Option ℤ :=
  if T.promoted.signed then
    if T.promoted.InRange x then some x else none
  else some (T.promoted.wrap x)

/-- Division truncates, and is undefined at a zero divisor. -/
def quotient (T : IntType) (x y : ℤ) : Option ℤ :=
  if y = 0 then none else T.arith (x.tdiv y)

variable {T : IntType} {x y : ℤ}

lemma two_pow_width (T : IntType) : (2 : ℤ)^T.width = 2*2^(T.width-1) := by
  have h := T.width_pos
  rw [← pow_succ']
  congr 1
  omega

lemma half_pos (T : IntType) : (0 : ℤ) < 2^(T.width-1) := by positivity

lemma min_nonpos (T : IntType) : T.min ≤ 0 := by
  have h := T.half_pos
  unfold min
  split_ifs <;> omega

lemma max_nonneg (T : IntType) : 0 ≤ T.max := by
  have h := T.half_pos
  rw [max, two_pow_width, min]
  split_ifs <;> omega

lemma max_of_signed (h : T.signed = true) : T.max = -T.min - 1 := by
  rw [max, two_pow_width, min, if_pos h]
  ring

lemma min_of_unsigned (h : T.signed = false) : T.min = 0 := by
  rw [min, h]
  rfl

theorem wrap_inRange (T : IntType) (x : ℤ) : T.InRange (T.wrap x) := by
  have hpos : (0 : ℤ) < 2^T.width := by positivity
  have h0 := Int.emod_nonneg (x - T.min) (ne_of_gt hpos)
  have h1 := Int.emod_lt_of_pos (x - T.min) hpos
  rw [InRange, max, wrap]
  omega

/-- The result x of such an operator, assigned to a variable of the type. -/
def assigned (T : IntType) (x : ℤ) : Option T.Value :=
  (T.arith x).map fun y => ⟨T.wrap y,wrap_inRange T y⟩

/-- Conversion keeps what the type represents. -/
theorem wrap_of_inRange (h : T.InRange x) : T.wrap x = x := by
  obtain ⟨hmin,hmax⟩ := h
  rw [max] at hmax
  rw [wrap, Int.emod_eq_of_lt (by omega) (by omega)]
  omega

/-- No operator goes wrong whose result the computing type represents. -/
theorem arith_of_inRange (h : T.promoted.InRange x) : T.arith x = some x := by
  unfold arith
  split_ifs with hs
  · rfl
  · rw [wrap_of_inRange h]

/-- A signed operator is undefined outside the computing type. -/
theorem arith_of_not_inRange (hs : T.promoted.signed = true) (h : ¬T.promoted.InRange x) :
    T.arith x = none := by
  rw [arith, if_pos hs, if_neg h]

lemma assigned_of_not_inRange (hs : T.promoted.signed = true) (h : ¬T.promoted.InRange x) :
    T.assigned x = none := by
  rw [assigned, arith_of_not_inRange hs h]
  rfl

lemma promoted_of_le (h : int.width ≤ T.width) : T.promoted = T := by
  rw [promoted, if_neg (by omega)]

lemma promoted_of_lt (h : T.width < int.width) : T.promoted = int := by
  rw [promoted, if_pos h]

/-- A type narrower than `int` leaves it room for the sum of two of its values. -/
lemma narrow_bounds (h : T.width < int.width) :
    -2^30 ≤ T.min ∧ T.max ≤ 2^31 - 1 ∧ (T.signed = true → T.max ≤ 2^30 - 1) := by
  have hpow : (2 : ℤ)^(T.width-1) ≤ 2^30 := by
    apply pow_le_pow_right₀ (by norm_num)
    simp only [int] at h
    omega
  rw [max, two_pow_width, min]
  split_ifs with hs
  · omega
  · exact ⟨by omega,by omega,fun h => absurd h hs⟩

lemma int_inRange : int.InRange x ↔ -2^31 ≤ x ∧ x ≤ 2^31 - 1 := by
  have hmin : int.min = -2^31 := by rw [min]; rfl
  rw [InRange, max_of_signed rfl, hmin]
  omega

lemma i64_inRange : i64.InRange x ↔ -2^63 ≤ x ∧ x < 2^63 := by
  have hmin : i64.min = -2^63 := by rw [min]; rfl
  rw [InRange, max_of_signed rfl, hmin]
  omega

lemma u64_inRange : u64.InRange x ↔ 0 ≤ x ∧ x < 2^64 := by
  have hmin : u64.min = 0 := min_of_unsigned rfl
  rw [InRange, max, hmin]
  change 0 ≤ x ∧ x ≤ 0 + 2^64 - 1 ↔ _
  omega

lemma i64_arith_of_inRange (h : -2^63 ≤ x ∧ x < 2^63) : i64.arith x = some x :=
  arith_of_inRange (i64_inRange.mpr h)

lemma i64_arith_of_not_inRange (h : ¬(-2^63 ≤ x ∧ x < 2^63)) : i64.arith x = none :=
  arith_of_not_inRange rfl (mt i64_inRange.mp h)

/-- Promotion keeps every value. -/
theorem InRange.promoted (h : T.InRange x) : T.promoted.InRange x := by
  obtain ⟨hmin,hmax⟩ := h
  by_cases hw : T.width < int.width
  · obtain ⟨h1,h2,_⟩ := narrow_bounds hw
    rw [promoted_of_lt hw, int_inRange]
    omega
  · rw [promoted_of_le (by omega)]
    exact ⟨hmin,hmax⟩

/-- A result that the type represents is kept. -/
lemma assigned_of_inRange (h : T.InRange x) : T.assigned x = some ⟨x,h⟩ := by
  rw [assigned, arith_of_inRange h.promoted, Option.map_some]
  simp only [wrap_of_inRange h]

lemma Value.ext {a b : T.Value} (h : a.val = b.val) : a = b := by
  cases a
  cases b
  cases h
  rfl

lemma zero_inRange (T : IntType) : T.InRange 0 := ⟨T.min_nonpos,T.max_nonneg⟩

end IntType
end Asp.Foundation
