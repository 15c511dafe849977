import Mathlib.Data.Nat.Log
import Mathlib.Tactic.SplitIfs
import Mathlib.Tactic.Ring

/-! The capacities that `SmallVec` grows to. A `size_t` is a natural number below `2 ^ 64`. -/
namespace Asp.Collections

def nextPowerOfTwo (n : ℕ) : ℕ :=
  if n = 0 then 1 else
    let n := n - 1
    let n := n ||| n >>> 1
    let n := n ||| n >>> 2
    let n := n ||| n >>> 4
    let n := n ||| n >>> 8
    let n := n ||| n >>> 16
    let n := n ||| n >>> 32
    (n + 1) % 2 ^ 64

/-- The loop of `growFor`, for at most `fuel` tests of its condition. -/
def growLoop (need : ℕ) : (fuel : ℕ) → (newCap : ℕ) → Option ℕ
  | 0, _ => none
  | fuel + 1, newCap =>
    if newCap < need then growLoop need fuel (nextPowerOfTwo ((newCap + 1) % 2 ^ 64)) else some newCap

/-- `y` has a bit wherever `m` has one at most `w - 1` places further up. -/
def Smeared (m w y : ℕ) : Prop := ∀ i, y.testBit i = true ↔ ∃ d < w, m.testBit (i + d) = true

lemma smeared_one (m : ℕ) : Smeared m 1 m := by
  intro i
  constructor
  · intro h
    exact ⟨0, Nat.one_pos, h⟩
  · rintro ⟨d, hd, h⟩
    obtain rfl : d = 0 := by omega
    exact h

lemma Smeared.double {m w y : ℕ} (h : Smeared m w y) : Smeared m (w + w) (y ||| y >>> w) := by
  intro i
  rw [Nat.testBit_or, Nat.testBit_shiftRight, Bool.or_eq_true, h i, h (w + i)]
  constructor
  · rintro (⟨d, hd, hb⟩ | ⟨d, hd, hb⟩)
    · exact ⟨d, by omega, hb⟩
    · exact ⟨w + d, by omega, by rwa [← Nat.add_assoc, Nat.add_comm i w]⟩
  · rintro ⟨d, hd, hb⟩
    rcases Nat.lt_or_ge d w with hw | hw
    · exact .inl ⟨d, hw, hb⟩
    · exact .inr ⟨d - w, by omega, by rwa [show w + i + (d - w) = i + d by omega]⟩

/-- Smearing every bit to the right fills a number up to its highest bit. -/
lemma Smeared.eq_pow {n y : ℕ} (hn : 1 ≤ n) (h63 : n ≤ 2 ^ 63) (h : Smeared (n - 1) 64 y) :
    y + 1 = 2 ^ Nat.clog 2 n := by
  have hk : Nat.clog 2 n ≤ 63 := Nat.clog_le_of_le_pow h63
  have hle := Nat.le_pow_clog Nat.one_lt_two n
  have hy : y = 2 ^ Nat.clog 2 n - 1 := by
    apply Nat.eq_of_testBit_eq
    intro i
    rw [Nat.testBit_two_pow_sub_one, Bool.eq_iff_iff, h i, decide_eq_true_iff]
    constructor
    · rintro ⟨d, -, hb⟩
      by_contra hi
      have hpow : 2 ^ Nat.clog 2 n ≤ 2 ^ (i + d) := Nat.pow_le_pow_right (by omega) (by omega)
      rw [Nat.testBit_lt_two_pow (show n - 1 < 2 ^ (i + d) by omega)] at hb
      cases hb
    · intro hi
      -- the highest bit of `n - 1` is the one below `clog 2 n`
      have hlt : 2 ^ (Nat.clog 2 n - 1) < n := Nat.pow_lt_of_lt_clog (by omega)
      have hdouble : 2 ^ Nat.clog 2 n = 2 * 2 ^ (Nat.clog 2 n - 1) := by
        rw [← Nat.pow_succ', show (Nat.clog 2 n - 1).succ = Nat.clog 2 n by omega]
      refine ⟨Nat.clog 2 n - 1 - i, by omega, ?_⟩
      rw [show i + (Nat.clog 2 n - 1 - i) = Nat.clog 2 n - 1 by omega, Nat.testBit_eq_decide_div_mod_eq,
        Nat.div_eq_of_lt_le (k := 1) (by omega) (by omega)]
      rfl
  have hpos := Nat.two_pow_pos (Nat.clog 2 n)
  omega

/-- `nextPowerOfTwo` is the least power of two that is at least its argument. -/
theorem nextPowerOfTwo_eq {n : ℕ} (hn : 1 ≤ n) (h63 : n ≤ 2 ^ 63) :
    nextPowerOfTwo n = 2 ^ Nat.clog 2 n := by
  have hs := (smeared_one (n - 1)).double.double.double.double.double.double
  have hpow : 2 ^ Nat.clog 2 n ≤ 2 ^ 63 :=
    Nat.pow_le_pow_right (by omega) (Nat.clog_le_of_le_pow h63)
  rw [nextPowerOfTwo, if_neg (by omega)]
  change (_ + 1) % 2 ^ 64 = _
  rw [hs.eq_pow hn h63]
  exact Nat.mod_eq_of_lt (by omega)

/-- The loop ends, with the least power of two that is large enough. -/
theorem growLoop_eq {need newCap fuel : ℕ} (hlt : newCap < need) (h63 : need ≤ 2 ^ 63)
    (hfuel : need < newCap + fuel) : growLoop need fuel newCap = some (2 ^ Nat.clog 2 need) := by
  induction fuel generalizing newCap with
  | zero => omega
  | succ fuel ih =>
    have hnext : nextPowerOfTwo ((newCap + 1) % 2 ^ 64) = 2 ^ Nat.clog 2 (newCap + 1) := by
      rw [Nat.mod_eq_of_lt (by omega)]
      exact nextPowerOfTwo_eq (by omega) (by omega)
    have hle := Nat.le_pow_clog Nat.one_lt_two (newCap + 1)
    rw [growLoop, if_pos hlt, hnext]
    rcases Nat.lt_or_ge (2 ^ Nat.clog 2 (newCap + 1)) need with h | h
    · exact ih h (by omega)
    · cases fuel with
      | zero => omega
      | succ fuel =>
        have hup : Nat.clog 2 (newCap + 1) ≤ Nat.clog 2 need := Nat.clog_mono_right 2 hlt
        have hdown : Nat.clog 2 need ≤ Nat.clog 2 (newCap + 1) := Nat.clog_le_of_le_pow h
        rw [growLoop, if_neg (Nat.not_lt.mpr h), Nat.le_antisymm hup hdown]

end Asp.Collections
