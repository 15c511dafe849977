import Mathlib.Order.Bounds.Basic
import Asp.Collections.Reserve

/-! The capacities that vectors get, where memory does not run out. -/
namespace Asp.Collections
open Asp.Foundation
variable {α : Type} {N : ℕ}

/-- The powers of two from `n` on. -/
def PowersFrom (n : ℕ) : Set ℕ := {p | (∃ k, p = 2 ^ k) ∧ n ≤ p}

lemma isLeast_pow_clog (n : ℕ) : IsLeast (PowersFrom n) (2 ^ Nat.clog 2 n) := by
  refine ⟨⟨⟨_, rfl⟩, Nat.le_pow_clog Nat.one_lt_two n⟩, ?_⟩
  rintro _ ⟨⟨k, rfl⟩, hk⟩
  exact Nat.pow_le_pow_right Nat.two_pos (Nat.clog_le_of_le_pow hk)

/-- No step of the relocation throws, whatever storage the vector has. -/
lemma wp_relocation {w : World α} (data dest : Base) (n : ℕ) :
    Prog.wp (Prog.forUp (fun i => do
      let x ← moveFrom N data i
      init N dest i x
      destroy N data i) n) (fun _ _ => True) Prog.never w :=
  Prog.wp_forUp (I := fun _ _ => True) trivial fun _ _ _ _ => trivial

lemma installed_capacity (w : World α) (v newCap : ℕ) (p : Option ℕ) :
    (((w.setLarge N v p).setCapacity v newCap).vec v).m_capacity = newCap := by
  simp [World.setCapacity, World.setVec]

lemma wp_reserve_capacity {w : World α} {v newCap : ℕ} (hlt : (w.vec v).m_capacity < newCap) :
    Prog.wp (SmallVec.reserve N v newCap) (fun _ w' => (w'.vec v).m_capacity = newCap)
      Prog.never w := by
  rw [SmallVec.reserve, Prog.wp_bind, Prog.wp_get, Prog.wp_ite, if_neg (Nat.not_le.mpr hlt),
    Prog.wp_bind]
  change Prog.wp _ _ _ (w.allocated newCap)
  rw [Prog.wp_bind]
  apply (wp_relocation _ _ _).then
  rintro _ w' -
  rw [Prog.wp_bind, Prog.wp_when]
  split_ifs
  · cases (w.vec v).m_large with
    | none => exact installed_capacity w' v newCap _
    | some a => exact installed_capacity _ v newCap _
  · exact installed_capacity w' v newCap _

/-- The loop of `growFor` starts from the capacity that the vector has, or from one. -/
lemma growLoop_capacity {need cap : ℕ} (hlt : cap < need) (h63 : need ≤ 2 ^ 63) :
    growLoop need (need + 1) (max cap 1) = some (2 ^ Nat.clog 2 need) := by
  rcases Nat.lt_or_ge (max cap 1) need with h | h
  · exact growLoop_eq h h63 (by omega)
  · obtain rfl : need = 1 := by omega
    rw [growLoop, if_neg (Nat.not_lt.mpr h), Nat.clog_one_right]
    congr 1
    omega

lemma wp_growFor_capacity {w : World α} {v extra : ℕ}
    (hlt : (w.vec v).m_capacity < (w.vec v).m_size + extra)
    (h63 : (w.vec v).m_size + extra ≤ 2 ^ 63) :
    Prog.wp (SmallVec.growFor N v extra)
      (fun _ w' => IsLeast (PowersFrom ((w.vec v).m_size + extra)) (w'.vec v).m_capacity)
      Prog.never w := by
  rw [SmallVec.growFor, Prog.wp_bind, Prog.wp_get, Nat.mod_eq_of_lt (by omega), Prog.wp_ite,
    if_neg (Nat.not_le.mpr hlt), growLoop_capacity hlt h63]
  have hpow := Nat.le_pow_clog Nat.one_lt_two ((w.vec v).m_size + extra)
  apply (wp_reserve_capacity (hlt.trans_le hpow)).then
  intro _ w' hcap
  rw [hcap]
  exact isLeast_pow_clog _

lemma wp_growFor_fits {w : World α} {v extra : ℕ}
    (hle : (w.vec v).m_size + extra ≤ (w.vec v).m_capacity)
    (h63 : (w.vec v).m_size + extra ≤ 2 ^ 63) :
    Prog.wp (SmallVec.growFor N v extra) (fun _ w' => w' = w) Prog.never w := by
  rw [SmallVec.growFor, Prog.wp_bind, Prog.wp_get, Nat.mod_eq_of_lt (by omega), Prog.wp_ite,
    if_pos hle]
  rfl

/-- Growth is tight, from any capacity and with any storage behind it. -/
theorem growth_tight (N : ℕ) :
    (∀ n, 1 ≤ n → n ≤ 2 ^ 63 → IsLeast (PowersFrom n) (nextPowerOfTwo n)) ∧
      ∀ (w : World α) (v extra : ℕ), (w.vec v).m_size + extra ≤ 2 ^ 63 →
        Prog.wp (SmallVec.growFor N v extra) (fun _ w' =>
          if (w.vec v).m_size + extra ≤ (w.vec v).m_capacity then w' = w
          else IsLeast (PowersFrom ((w.vec v).m_size + extra)) (w'.vec v).m_capacity)
          Prog.never w := by
  constructor
  · intro n hn h63
    rw [nextPowerOfTwo_eq hn h63]
    exact isLeast_pow_clog n
  · intro w v extra h63
    split_ifs with hle
    · exact wp_growFor_fits hle h63
    · exact wp_growFor_capacity (Nat.not_le.mp hle) h63

end Asp.Collections
