import Mathlib.Tactic.SplitIfs
import Mathlib.Data.Nat.Notation

/-! How many calls of `next()` on an iterator are known to return the items of a list. -/
namespace Asp.Iter

/-- Either at least `n` calls or every call. -/
inductive Polls
  | upTo (n : ℕ)
  | all
  deriving DecidableEq

namespace Polls

/-- The first `m` calls are among those counted. -/
def covers : Polls → ℕ → Prop
  | upTo n, m => m ≤ n
  | all, _ => True

instance : ∀ (p : Polls) (m : ℕ), Decidable (p.covers m)
  | upTo n, m => inferInstanceAs (Decidable (m ≤ n))
  | all, _ => .isTrue trivial

/-- The calls that follow the first `k`. -/
def drop (k : ℕ) : Polls → Polls
  | upTo n => upTo (n - k)
  | all => all

def div (N : ℕ) : Polls → Polls
  | upTo n => upTo (n / N)
  | all => all

def min : Polls → Polls → Polls
  | upTo n, upTo m => upTo (Nat.min n m)
  | upTo n, all => upTo n
  | all, q => q

/-- The calls counted by `q`, and `k` calls before them. -/
def after (k : ℕ) : Polls → Polls
  | upTo n => upTo (k + n)
  | all => all

/-- The calls counted by `p` for a list of length `len`; where they go past the end of the
list, the ones counted by `q` come after it. -/
def append (p : Polls) (len : ℕ) (q : Polls) : Polls :=
  if p.covers (len + 1) then q.after len else p

/-- The calls counted for the lists that belong to the members of `is`, one after another,
and then those counted by `fin`. -/
def spread {ι : Type} (polls : ι → Polls) (len : ι → ℕ) (fin : Polls) : List ι → Polls
  | [] => fin
  | i :: is => (polls i).append (len i) (spread polls len fin is)

/-- As `spread`, where the members of `is` are themselves served by calls counted by `o`. -/
def spreadOver {ι : Type} (polls : ι → Polls) (len : ι → ℕ) (o : Polls) (is : List ι) : Polls :=
  match o with
  | all => spread polls len all is
  | upTo n => spread polls len (upTo (n - is.length)) (is.take n)

@[simp] theorem covers_all (m : ℕ) : all.covers m := trivial

@[simp] theorem covers_upTo (n m : ℕ) : (upTo n).covers m ↔ m ≤ n := Iff.rfl

theorem covers_zero (p : Polls) : p.covers 0 := by
  cases p with
  | upTo n => exact Nat.zero_le n
  | all => exact trivial

theorem covers.mono {p : Polls} {m k : ℕ} (h : p.covers m) (hk : k ≤ m) : p.covers k := by
  cases p with
  | upTo n => exact Nat.le_trans hk h
  | all => exact trivial

theorem eq_all {p : Polls} (h : ∀ m, p.covers m) : p = all := by
  cases p with
  | upTo n => exact absurd (h (n + 1)) (Nat.not_succ_le_self n)
  | all => rfl

theorem covers_after {p : Polls} {k m : ℕ} : (p.after k).covers m ↔ p.covers (m - k) := by
  cases p with
  | upTo n =>
    change m ≤ k + n ↔ m - k ≤ n
    omega
  | all => exact Iff.rfl

theorem covers_drop {p : Polls} {k m : ℕ} (h : p.covers (k + m)) : (p.drop k).covers m := by
  cases p with
  | upTo n => exact Nat.le_sub_of_add_le' h
  | all => exact trivial

theorem covers_of_drop {p : Polls} {k m : ℕ} (h : (p.drop k).covers m) (hm : 0 < m) :
    p.covers (k + m) := by
  cases p with
  | upTo n =>
    change m ≤ n - k at h
    change k + m ≤ n
    omega
  | all => exact trivial

theorem covers_div {p : Polls} {N m : ℕ} (hN : 0 < N) :
    (p.div N).covers m ↔ p.covers (N * m) := by
  cases p with
  | upTo n =>
    change m ≤ n / N ↔ N * m ≤ n
    rw [Nat.le_div_iff_mul_le hN, Nat.mul_comm]
  | all => exact Iff.rfl

theorem covers_min {p q : Polls} {m : ℕ} : (p.min q).covers m ↔ p.covers m ∧ q.covers m := by
  cases p with
  | upTo n =>
    cases q with
    | upTo n' => exact Nat.le_min
    | all => exact (and_iff_left trivial).symm
  | all => exact (and_iff_right trivial).symm

/-- The two ways in which `append` covers `m` calls. -/
theorem covers_append {p q : Polls} {len m : ℕ} (h : (p.append len q).covers m) :
    (p.covers m ∧ m ≤ len) ∨ (p.covers (len + 1) ∧ q.covers (m - len)) := by
  rw [append] at h
  split_ifs at h with hp
  · exact .inr ⟨hp, covers_after.mp h⟩
  · exact .inl ⟨h, Nat.le_of_not_lt fun hm => hp (h.mono hm)⟩

theorem covers_append_of {p q : Polls} {len m : ℕ} (hp : p.covers m) (hq : q.covers (m - len)) :
    (p.append len q).covers m := by
  rw [append]
  split_ifs
  · exact covers_after.mpr hq
  · exact hp

theorem covers_spread {ι : Type} {polls : ι → Polls} (len : ι → ℕ) {fin : Polls} {is : List ι}
    {m : ℕ} (hfin : fin.covers m) (h : ∀ i ∈ is, (polls i).covers m) :
    (spread polls len fin is).covers m := by
  induction is with
  | nil => exact hfin
  | cons i is ih =>
    have hrest := ih fun j hj => h j (List.mem_cons_of_mem i hj)
    exact covers_append_of (h i List.mem_cons_self) (hrest.mono (Nat.sub_le m _))

theorem covers_spreadOver {ι : Type} {polls : ι → Polls} (len : ι → ℕ) {o : Polls} {is : List ι}
    {m : ℕ} (ho : ∀ k, o.covers k) (h : ∀ i ∈ is, (polls i).covers m) :
    (spreadOver polls len o is).covers m := by
  rw [eq_all ho]
  exact covers_spread len trivial h

end Polls

end Asp.Iter
