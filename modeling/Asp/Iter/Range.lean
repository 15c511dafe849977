import Asp.Foundation.IntType
import Asp.Iter.Concrete

/-! `asp::iter::range` over an integer type. -/
namespace Asp
open Foundation

structure RangeIter (T : IntType) where
  m_current : T.Value
  m_end : T.Value

namespace RangeIter
variable {T : IntType}

/-- `RangeIter::next`; `none` is an increment that overflows, which is undefined. -/
def next (s : RangeIter T) : Option (Option T.Value × RangeIter T) :=
  if s.m_current = s.m_end then some (none,s)
  else (T.assigned (s.m_current.val + 1)).map fun m_current => (some s.m_current,⟨m_current,s.m_end⟩)

def concrete (T : IntType) : Concrete T.Value where
  State := RangeIter T
  next _ s := s.next

def range (start end_ : T.Value) : Concrete.Object T.Value := ⟨concrete T,⟨start,end_⟩⟩

/-- The state that k calls of `next` leave behind. -/
def after : ℕ → RangeIter T → Option (RangeIter T)
  | 0, s => some s
  | k+1, s => s.next.bind fun r => after k r.2

/-- The range yields the numbers from `start` up to `end_` without it, and the counter passes
neither `end_` nor the largest number of the type. -/
structure HalfOpen (start end_ : T.Value) : Prop where
  yields : ∃ l, (range start end_).Yields l ∧ l.map IntType.Value.val =
    (List.range (end_.val - start.val).toNat).map (fun i : ℕ => start.val + i)
  counter : ∀ k, ∃ s, (RangeIter.mk start end_).after k = some s ∧
    start.val ≤ s.m_current.val ∧ s.m_current.val ≤ max start.val end_.val

section Steps
variable {s : RangeIter T}

lemma next_end (h : s.m_current.val = s.m_end.val) : s.next = some (none,s) :=
  if_pos (IntType.Value.ext h)

/-- Below the largest number the counter goes on by one. -/
lemma next_step (h : s.m_current.val ≠ s.m_end.val) (hmax : s.m_current.val < T.max) :
    ∃ t, s.next = some (some s.m_current,t) ∧ t.m_end.val = s.m_end.val ∧
      t.m_current.val = s.m_current.val + 1 := by
  have hmin := s.m_current.inRange.1
  have hr : T.InRange (s.m_current.val + 1) := ⟨by omega,by omega⟩
  have hne : s.m_current ≠ s.m_end := fun he => h (congrArg IntType.Value.val he)
  rw [next, if_neg hne, IntType.assigned_of_inRange hr]
  exact ⟨_,rfl,rfl,rfl⟩

lemma next_below (h : s.m_current.val < s.m_end.val) :
    ∃ t, s.next = some (some s.m_current,t) ∧ t.m_end.val = s.m_end.val ∧
      t.m_current.val = s.m_current.val + 1 :=
  next_step h.ne (h.trans_le s.m_end.inRange.2)

/-- Induction on what is left of the range. -/
lemma yields_of_le (h : s.m_current.val ≤ s.m_end.val) :
    ∃ l, (concrete T).Yields s l ∧ l.map IntType.Value.val =
      (List.range (s.m_end.val - s.m_current.val).toNat).map (fun i : ℕ => s.m_current.val + i) := by
  induction hk : (s.m_end.val - s.m_current.val).toNat generalizing s with
  | zero =>
    have heq : s.m_current.val = s.m_end.val := by omega
    refine ⟨[],?_,rfl⟩
    refine Concrete.yields_nil_of_inv (C := concrete T) (· = s) ?_ rfl
    rintro _ rfl
    have hnext := next_end heq
    exact ⟨_,⟨0,fun _ _ => hnext⟩,rfl⟩
  | succ k ih =>
    obtain ⟨t,hnext,hend,hcur⟩ := next_below (s := s) (by omega)
    obtain ⟨l,hl,hvals⟩ := ih (s := t) (by omega) (by omega)
    refine ⟨s.m_current :: l,⟨t,⟨0,fun _ _ => hnext⟩,hl⟩,?_⟩
    have hshift : (fun i : ℕ => t.m_current.val + i) =
        (fun i : ℕ => s.m_current.val + i) ∘ Nat.succ := by
      funext i
      rw [hcur, Function.comp_apply, Nat.cast_succ]
      omega
    rw [List.map_cons, hvals, List.range_succ_eq_map, List.map_cons, List.map_map, hshift,
      Nat.cast_zero, add_zero]

lemma after_of_le (h : s.m_current.val ≤ s.m_end.val) (k : ℕ) :
    ∃ t, s.after k = some t ∧ s.m_current.val ≤ t.m_current.val ∧
      t.m_current.val ≤ s.m_end.val := by
  induction k generalizing s with
  | zero => exact ⟨s,rfl,le_rfl,h⟩
  | succ k ih =>
    rcases h.eq_or_lt with heq | hlt
    · obtain ⟨t,ht,hbounds⟩ := ih h
      exact ⟨t,by rw [after, next_end heq]; exact ht,hbounds⟩
    · obtain ⟨u,hnext,hend,hcur⟩ := next_below hlt
      obtain ⟨t,ht,hlow,hhigh⟩ := ih (s := u) (by omega)
      refine ⟨t,?_,by omega,by omega⟩
      rw [after, hnext]
      exact ht

end Steps

/-- Between reversed bounds the first call returns an item. -/
lemma HalfOpen.le {start end_ : T.Value} (h : HalfOpen start end_) : start.val ≤ end_.val := by
  by_contra hlt
  obtain ⟨l,hl,hvals⟩ := h.yields
  rw [Int.toNat_of_nonpos (by omega), List.range_zero, List.map_nil, List.map_eq_nil_iff] at hvals
  subst hvals
  obtain ⟨s,⟨n,hn⟩,_⟩ := hl 1
  have hnext : (RangeIter.mk start end_).next = some (none,s) := hn n (Nat.le_refl n)
  have hne : start ≠ end_ := fun he => hlt (by rw [he])
  rw [next, if_neg hne] at hnext
  obtain ⟨_,_,hitem⟩ := Option.map_eq_some_iff.mp hnext
  cases (Prod.mk.inj hitem).1

/-- The stop test is for equality, so a range is what it should be unless its bounds are
reversed. -/
theorem halfOpen_iff (start end_ : T.Value) : HalfOpen start end_ ↔ start.val ≤ end_.val := by
  refine ⟨HalfOpen.le,fun h => ⟨yields_of_le h,fun k => ?_⟩⟩
  rw [max_eq_right h]
  exact after_of_le (s := ⟨start,end_⟩) h k

/-- `range(1, 0)` starts with 1. -/
theorem reversed_not_empty : ¬HalfOpen (T := .int) ⟨1,by decide⟩ ⟨0,by decide⟩ :=
  fun h => absurd h.le (by decide)

lemma after_succ (k : ℕ) (s : RangeIter T) :
    s.after (k+1) = (s.after k).bind fun t => t.next.map Prod.snd := by
  induction k generalizing s with
  | zero =>
    rw [after, after, Option.bind_some]
    cases s.next <;> rfl
  | succ k ih =>
    calc s.after (k+1+1) = s.next.bind fun r => r.2.after (k+1) := rfl
      _ = s.next.bind fun r => (r.2.after k).bind fun t => t.next.map Prod.snd := by simp only [ih]
      _ = (s.after (k+1)).bind fun t => t.next.map Prod.snd := (Option.bind_assoc ..).symm

/-- A reversed range counts up to the largest number of its type. -/
lemma after_reversed {s : RangeIter T} (h : s.m_end.val < s.m_current.val) (k : ℕ)
    (hk : s.m_current.val + k ≤ T.max) : ∃ t, s.after k = some t ∧
      t.m_end.val = s.m_end.val ∧ t.m_current.val = s.m_current.val + k := by
  induction k generalizing s with
  | zero => exact ⟨s,rfl,rfl,(add_zero _).symm⟩
  | succ k ih =>
    obtain ⟨u,hnext,hend,hcur⟩ := next_step h.ne' (by omega)
    obtain ⟨t,ht,hend',hcur'⟩ := ih (s := u) (by omega) (by omega)
    refine ⟨t,?_,by omega,by omega⟩
    rw [after, hnext]
    exact ht

/-- In a signed type as wide as `int` the counter then overflows. -/
theorem reversed_overflows {s : RangeIter T} (hs : T.signed = true)
    (hw : IntType.int.width ≤ T.width) (h : s.m_end.val < s.m_current.val) :
    ∃ k, s.after k = none := by
  have hmax := s.m_current.inRange.2
  obtain ⟨t,ht,hend,hcur⟩ := after_reversed h (T.max - s.m_current.val).toNat (by omega)
  have hlast : t.m_current.val = T.max := by omega
  have hne : t.m_current ≠ t.m_end := by
    intro he
    rw [← he] at hend
    omega
  refine ⟨(T.max - s.m_current.val).toNat + 1,?_⟩
  rw [after_succ, ht, Option.bind_some, next, if_neg hne, hlast,
    IntType.assigned_of_not_inRange]
  · rfl
  · rwa [IntType.promoted_of_le hw]
  · rw [IntType.promoted_of_le hw]
    exact fun hr => by have hle := hr.2; omega

end RangeIter
end Asp
