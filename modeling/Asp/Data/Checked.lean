import Asp.Foundation.IntType
import Asp.Data.Nums

/-! The checked arithmetic helpers at every integer type: the portable branches, which compare
before they compute, beside the overflow builtins. -/
namespace Asp.Nums
open Foundation
open Foundation.IntType (int u64 u64_inRange)

/-- What a helper does: an intermediate expression is undefined, it returns false, or it returns
true with the output stored. -/
inductive Outcome (T : IntType)
  | undefined
  | refused
  | done (out : T.Value)
  deriving DecidableEq

namespace Portable
variable {T : IntType}

/-- `out = e; return true;`, with the conversion of the assignment. -/
def store : Option ℤ → Outcome T
  | none => .undefined
  | some x => .done ⟨T.wrap x,T.wrap_inRange x⟩

def checkedAdd (a b : T.Value) : Outcome T :=
  match T.arith (T.max - a.val) with
  | none => .undefined
  | some limit => if b.val > limit then .refused else store (T.arith (a.val + b.val))

def checkedSub (a b : T.Value) : Outcome T :=
  if b.val > a.val then .refused else store (T.arith (a.val - b.val))

def checkedMul (a b : T.Value) : Outcome T :=
  -- && does not divide for a zero operand
  if a.val ≠ 0 then
    match T.quotient T.max a.val with
    | none => .undefined
    | some limit => if b.val > limit then .refused else store (T.arith (a.val * b.val))
  else store (T.arith (a.val * b.val))

end Portable

namespace Builtin
variable {T : IntType}

/-- The overflow builtins on an operation with exact result x. -/
def overflow (T : IntType) (x : ℤ) : Outcome T := if h : T.InRange x then .done ⟨x,h⟩ else .refused

def checkedAdd (a b : T.Value) : Outcome T := overflow T (a.val + b.val)
def checkedSub (a b : T.Value) : Outcome T := overflow T (a.val - b.val)
def checkedMul (a b : T.Value) : Outcome T := overflow T (a.val * b.val)

end Builtin

section
variable {T : IntType} {x : ℤ}

/-- What is stored is what the builtin stores exactly when the type represents it. -/
lemma store_eq_overflow_iff : Portable.store (T.arith x) = Builtin.overflow T x ↔ T.InRange x := by
  rw [Builtin.overflow]
  split_ifs with hx
  · rw [IntType.arith_of_inRange hx.promoted, Portable.store]
    simp only [IntType.wrap_of_inRange hx, hx]
  · cases T.arith x with
    | none => simp [Portable.store, hx]
    | some y => simp [Portable.store, hx]

lemma refused_eq_overflow_iff : Outcome.refused = Builtin.overflow T x ↔ ¬T.InRange x := by
  rw [Builtin.overflow]
  split_ifs with hx <;> simp [hx]

lemma undefined_ne_overflow : Outcome.undefined ≠ Builtin.overflow T x := by
  rw [Builtin.overflow]
  split_ifs <;> simp

end
section
variable {T : IntType}

/-- The limit of the addition is exact for an operand from zero on, and decides. -/
lemma checkedAdd_of_nonneg {a b : T.Value} (ha : 0 ≤ a.val) :
    Portable.checkedAdd a b = Builtin.checkedAdd a b := by
  obtain ⟨hmin,hmax⟩ := a.inRange
  obtain ⟨hmin',hmax'⟩ := b.inRange
  have hneg := T.min_nonpos
  have hlimit : T.InRange (T.max - a.val) := ⟨by omega,by omega⟩
  rw [Portable.checkedAdd, IntType.arith_of_inRange hlimit.promoted, Builtin.checkedAdd]
  dsimp only
  split_ifs with hc
  · rw [refused_eq_overflow_iff, IntType.InRange]
    omega
  · rw [store_eq_overflow_iff, IntType.InRange]
    omega

/-- For a negative operand the limit is past the maximum: undefined at the width of `int` and
above, and below it no limit at all. -/
lemma checkedAdd_of_neg {a b : T.Value} (ha : a.val < 0) :
    Portable.checkedAdd a b = Builtin.checkedAdd a b ↔ T.width < int.width ∧ T.min ≤ a.val + b.val := by
  obtain ⟨hmin,hmax⟩ := a.inRange
  obtain ⟨hmin',hmax'⟩ := b.inRange
  have hsigned : T.signed = true := by
    by_contra hs
    have h0 := IntType.min_of_unsigned (Bool.eq_false_iff.mpr hs)
    omega
  rw [Portable.checkedAdd, Builtin.checkedAdd]
  by_cases hw : T.width < int.width
  · obtain ⟨hnarrow,_,hnarrow'⟩ := IntType.narrow_bounds hw
    have hlimit : T.promoted.InRange (T.max - a.val) := by
      have hle := hnarrow' hsigned
      have hpos := T.max_nonneg
      rw [IntType.promoted_of_lt hw, IntType.int_inRange]
      omega
    rw [IntType.arith_of_inRange hlimit]
    dsimp only
    rw [if_neg (by omega), store_eq_overflow_iff, IntType.InRange]
    omega
  · have hpromoted := IntType.promoted_of_le (T := T) (by omega)
    have hlimit : ¬T.promoted.InRange (T.max - a.val) := by
      rw [hpromoted, IntType.InRange]
      omega
    rw [IntType.arith_of_not_inRange (by rw [hpromoted, hsigned]) hlimit]
    exact iff_of_false undefined_ne_overflow (fun h => hw h.1)

/-- The subtraction refuses every negative difference, and computes every other one. -/
lemma checkedSub_iff (a b : T.Value) :
    Portable.checkedSub a b = Builtin.checkedSub a b ↔
      b.val ≤ a.val ∧ a.val - b.val ≤ T.max ∨ a.val < b.val ∧ a.val - b.val < T.min := by
  have hneg := T.min_nonpos
  have hpos := T.max_nonneg
  rw [Portable.checkedSub, Builtin.checkedSub]
  split_ifs with hc
  · rw [refused_eq_overflow_iff, IntType.InRange]
    omega
  · rw [store_eq_overflow_iff, IntType.InRange]
    omega

lemma checkedMul_of_zero {a b : T.Value} (ha : a.val = 0) :
    Portable.checkedMul a b = Builtin.checkedMul a b := by
  rw [Portable.checkedMul, if_neg (not_not.mpr ha), Builtin.checkedMul, store_eq_overflow_iff, ha,
    Int.zero_mul]
  exact T.zero_inRange

/-- The limit of the multiplication decides for a positive operand, but nothing bounds the
product from below. -/
lemma checkedMul_of_pos {a b : T.Value} (ha : 0 < a.val) :
    Portable.checkedMul a b = Builtin.checkedMul a b ↔ T.min ≤ a.val * b.val := by
  have hneg := T.min_nonpos
  have hpos := T.max_nonneg
  have hdiv : T.max.tdiv a.val = T.max / a.val := Int.tdiv_eq_ediv_of_nonneg hpos
  have hlimit : T.InRange (T.max / a.val) := by
    have h0 := Int.ediv_nonneg hpos (le_of_lt ha)
    have h1 := Int.ediv_le_self a.val hpos
    exact ⟨by omega,by omega⟩
  rw [Portable.checkedMul, if_pos (by omega), IntType.quotient, if_neg (by omega), hdiv,
    IntType.arith_of_inRange hlimit.promoted, Builtin.checkedMul]
  dsimp only
  have hiff : T.max / a.val < b.val ↔ T.max < a.val * b.val := by
    rw [Int.ediv_lt_iff_lt_mul ha, mul_comm]
  split_ifs with hc
  · have hmax := hiff.mp hc
    rw [refused_eq_overflow_iff, IntType.InRange]
    omega
  · have hmax := mt hiff.mpr hc
    rw [store_eq_overflow_iff, IntType.InRange]
    omega

/-- For a negative operand the comparison is the wrong way round. -/
lemma checkedMul_of_neg {a b : T.Value} (ha : a.val < 0) :
    Portable.checkedMul a b = Builtin.checkedMul a b ↔
      b.val = T.max.tdiv a.val ∨ 0 < b.val ∧ a.val * b.val < T.min := by
  obtain ⟨hmin,hmax⟩ := a.inRange
  have hpos := T.max_nonneg
  have hsigned : T.signed = true := by
    by_contra hs
    have h0 := IntType.min_of_unsigned (Bool.eq_false_iff.mpr hs)
    omega
  have hmaxmin := IntType.max_of_signed hsigned
  have hdiv : T.max.tdiv a.val = -(T.max / -a.val) := by
    rw [← Int.tdiv_eq_ediv_of_nonneg hpos, Int.tdiv_neg, neg_neg]
  have h0 : 0 ≤ T.max / -a.val := Int.ediv_nonneg hpos (by omega)
  have h1 := Int.ediv_le_self (-a.val) hpos
  have hlimit : T.InRange (-(T.max / -a.val)) := ⟨by omega,by omega⟩
  have hprod : -b.val ≤ T.max / -a.val ↔ a.val * b.val ≤ T.max := by
    rw [Int.le_ediv_iff_mul_le (by omega), neg_mul_neg, mul_comm]
  rw [Portable.checkedMul, if_pos (by omega), IntType.quotient, if_neg (by omega), hdiv,
    IntType.arith_of_inRange hlimit.promoted, Builtin.checkedMul]
  dsimp only
  split_ifs with hc
  · rw [refused_eq_overflow_iff, IntType.InRange]
    have hle := hprod.mp (by omega)
    by_cases hb : 0 < b.val
    · omega
    · have hnonneg : 0 ≤ a.val * b.val :=
        mul_nonneg_of_nonpos_of_nonpos (le_of_lt ha) (by omega)
      omega
  · rw [store_eq_overflow_iff, IntType.InRange]
    have hnonneg : 0 ≤ a.val * b.val := mul_nonneg_of_nonpos_of_nonpos (le_of_lt ha) (by omega)
    omega

/-- Where the portable branches are the overflow builtins: at every unsigned type, and at a
signed type only while no negative value steers a comparison. -/
theorem portable_iff (T : IntType) (a b : T.Value) :
    (Portable.checkedAdd a b = Builtin.checkedAdd a b ↔
      0 ≤ a.val ∨ T.width < int.width ∧ T.min ≤ a.val + b.val) ∧
    (Portable.checkedSub a b = Builtin.checkedSub a b ↔
      b.val ≤ a.val ∧ a.val - b.val ≤ T.max ∨ a.val < b.val ∧ a.val - b.val < T.min) ∧
    (Portable.checkedMul a b = Builtin.checkedMul a b ↔
      a.val = 0 ∨ 0 < a.val ∧ T.min ≤ a.val * b.val ∨
        a.val < 0 ∧ (b.val = T.max.tdiv a.val ∨ 0 < b.val ∧ a.val * b.val < T.min)) := by
  refine ⟨?_,checkedSub_iff a b,?_⟩
  · by_cases ha : 0 ≤ a.val
    · simp only [checkedAdd_of_nonneg ha, ha, true_or]
    · rw [checkedAdd_of_neg (by omega)]
      simp only [ha, false_or]
  · rcases lt_trichotomy a.val 0 with ha | ha | ha
    · rw [checkedMul_of_neg ha]
      simp only [ha, ne_of_lt ha, not_lt_of_gt ha, true_and, false_and, false_or]
    · simp only [checkedMul_of_zero ha, ha, true_or]
    · rw [checkedMul_of_pos ha]
      simp only [ha, ne_of_gt ha, not_lt_of_gt ha, true_and, false_and, false_or, or_false]

/-- At `int` itself: an undefined sum, and a difference and a product that are refused. -/
theorem portable_ne_builtin :
    let minus : int.Value := ⟨-1,by decide⟩
    let one : int.Value := ⟨1,by decide⟩
    Portable.checkedAdd minus one = .undefined ∧
      Builtin.checkedAdd minus one = .done ⟨0,by decide⟩ ∧
    Portable.checkedSub minus one = .refused ∧
      Builtin.checkedSub minus one = .done ⟨-2,by decide⟩ ∧
    Portable.checkedMul minus one = .refused ∧
      Builtin.checkedMul minus one = .done minus := by
  decide

end

/-- The branches agree on every pair of values of an unsigned type. -/
theorem portable_of_unsigned {T : IntType} (h : T.signed = false) (a b : T.Value) :
    Portable.checkedAdd a b = Builtin.checkedAdd a b ∧
    Portable.checkedSub a b = Builtin.checkedSub a b ∧
    Portable.checkedMul a b = Builtin.checkedMul a b := by
  have hmin := IntType.min_of_unsigned h
  have ha : 0 ≤ a.val := hmin ▸ a.inRange.1
  have hb : 0 ≤ b.val := hmin ▸ b.inRange.1
  have hmax := a.inRange.2
  refine ⟨checkedAdd_of_nonneg ha,(checkedSub_iff a b).mpr (by omega),?_⟩
  rcases eq_or_lt_of_le ha with h0 | hpos
  · exact checkedMul_of_zero h0.symm
  · rw [checkedMul_of_pos hpos, hmin]
    exact mul_nonneg ha hb

/-! The helpers at u64, as the rest of the library calls them. -/

def ofU64 (x : UInt64) : u64.Value :=
  ⟨x.toNat,u64_inRange.mpr ⟨by omega,by have h := x.toNat_lt; omega⟩⟩

def ofOption : Option UInt64 → Outcome u64
  | none => .refused
  | some out => .done (ofU64 out)

/-- An optional u64 that is the exact result where that fits is what the builtin answers. -/
lemma overflow_u64 {x : ℤ} {r : Option UInt64} (hsome : ∀ c, r = some c → (c.toNat : ℤ) = x)
    (hnone : r = none → ¬u64.InRange x) : Builtin.overflow u64 x = ofOption r := by
  cases r with
  | none => exact (refused_eq_overflow_iff.mpr (hnone rfl)).symm
  | some c =>
    have hx := hsome c rfl
    have hrange : u64.InRange x := hx ▸ (ofU64 c).inRange
    rw [Builtin.overflow, dif_pos hrange, ofOption]
    simp only [ofU64, hx]

/-- The u64 helpers of the model are both branches of the source. -/
theorem checked_u64 (a b : UInt64) :
    Portable.checkedAdd (ofU64 a) (ofU64 b) = ofOption (checkedAdd a b) ∧
    Portable.checkedSub (ofU64 a) (ofU64 b) = ofOption (checkedSub a b) ∧
    Portable.checkedMul (ofU64 a) (ofU64 b) = ofOption (checkedMul a b) := by
  obtain ⟨hadd,hsub,hmul⟩ := portable_of_unsigned rfl (ofU64 a) (ofU64 b)
  rw [hadd, hsub, hmul]
  refine ⟨overflow_u64 ?_ ?_,overflow_u64 ?_ ?_,overflow_u64 ?_ ?_⟩
  · intro c hc
    rw [checkedAdd_eq_some.mp hc]
    exact Nat.cast_add _ _
  · intro hn
    rw [checkedAdd_eq_none] at hn
    rw [u64_inRange, ofU64, ofU64]
    dsimp only
    omega
  · intro c hc
    rw [checkedSub_eq_some] at hc
    change (c.toNat : ℤ) = a.toNat - b.toNat
    omega
  · intro hn
    rw [checkedSub_eq_none] at hn
    rw [u64_inRange, ofU64, ofU64]
    dsimp only
    omega
  · intro c hc
    rw [checkedMul_eq_some.mp hc]
    exact Nat.cast_mul _ _
  · intro hn
    rw [checkedMul_eq_none] at hn
    rw [u64_inRange, ofU64, ofU64]
    have hcast : ((a.toNat * b.toNat : ℕ) : ℤ) = a.toNat * b.toNat := Nat.cast_mul _ _
    dsimp only
    omega

end Asp.Nums
