import Mathlib.Order.Basic
import Mathlib.Tactic.Tauto

/-! The life of one block that is destroyed when its last strong reference goes and deallocated
when its last weak reference goes, where all strong references together own one weak reference.
The counters are compared with the references that exist. A reference may be handed out before
the strong counter is incremented for it; it is then owed. -/
namespace Asp.Foundation

@[ext] structure RefCount where
  born : ℕ        -- allocations of the block, 0 or 1
  strong : ℕ
  weak : ℕ
  dtors : ℕ
  frees : ℕ
  refs : ℕ        -- strong references
  owes : ℕ        -- strong references the counter does not contain yet
  wrefs : ℕ       -- weak references
  dying : ℕ       -- destructor runs that are due
  freeing : ℕ     -- deallocations that are due

namespace RefCount

/-- What the counting scheme may do to one block in one step. -/
inductive Step (a : RefCount) : RefCount → Prop
  | stay : Step a a
  | create (h : a.born = 0) :
      Step a { a with born := 1, strong := 1, weak := 1, refs := a.refs + 1 }
  | lend (h : 0 < a.refs) : Step a { a with refs := a.refs + 1, owes := a.owes + 1 }
  | settle (h : 0 < a.owes) : Step a { a with strong := a.strong + 1, owes := a.owes - 1 }
  | retain (h : 0 < a.refs) :
      Step a { a with strong := a.strong + 1, refs := a.refs + 1 }
  | release (h : 0 < a.refs) (hs : a.strong ≠ 1) :
      Step a { a with strong := a.strong - 1, refs := a.refs - 1 }
  | releaseLast (h : 0 < a.refs) (hs : a.strong = 1) :
      Step a { a with strong := 0, refs := a.refs - 1, dying := a.dying + 1 }
  | destroy (h : 0 < a.dying) :
      Step a { a with dying := a.dying - 1, dtors := a.dtors + 1, wrefs := a.wrefs + 1 }
  | retainWeak (h : 0 < a.wrefs ∨ 0 < a.refs) :
      Step a { a with weak := a.weak + 1, wrefs := a.wrefs + 1 }
  | releaseWeak (h : 0 < a.wrefs) (hw : a.weak ≠ 1) :
      Step a { a with weak := a.weak - 1, wrefs := a.wrefs - 1 }
  | releaseWeakLast (h : 0 < a.wrefs) (hw : a.weak = 1) :
      Step a { a with weak := 0, wrefs := a.wrefs - 1, freeing := a.freeing + 1 }
  | deallocate (h : 0 < a.freeing) :
      Step a { a with freeing := a.freeing - 1, frees := a.frees + 1 }

/-- 1 while the counter `n` is positive. -/
def held (n : ℕ) : ℕ := if 0 < n then 1 else 0

@[simp] theorem held_zero : held 0 = 0 := rfl

theorem held_of_pos {n : ℕ} (h : 0 < n) : held n = 1 := if_pos h

theorem held_le_one (n : ℕ) : held n ≤ 1 := by unfold held; split <;> omega

/-- The books balance: the counters are the numbers of references, the destructor and the
deallocation are due or done exactly when their counter is zero, and nothing is owed on a dead
block. -/
structure Balanced (a : RefCount) : Prop where
  born_le : a.born ≤ 1
  strong_eq : a.strong + a.owes = a.refs
  weak_eq : a.weak = a.wrefs + a.dying + held a.strong
  dtors_eq : a.dtors + a.dying + held a.strong = a.born
  frees_eq : a.frees + a.freeing + held a.weak = a.born
  owes_eq : a.strong = 0 → a.owes = 0

variable {a a' : RefCount}

namespace Balanced

theorem strong_pos (h : a.Balanced) (hr : 0 < a.refs) : 0 < a.strong := by
  have hs := h.strong_eq
  have ho := h.owes_eq
  omega

theorem weak_pos (h : a.Balanced) (hr : 0 < a.refs ∨ 0 < a.strong ∨ 0 < a.wrefs ∨ 0 < a.dying) :
    0 < a.weak := by
  have hw := h.weak_eq
  by_cases hs : 0 < a.strong
  · rw [held_of_pos hs] at hw
    omega
  · have hp := h.strong_pos
    omega

theorem not_freed (h : a.Balanced) (hr : 0 < a.refs ∨ 0 < a.strong ∨ 0 < a.wrefs ∨ 0 < a.dying) :
    a.frees = 0 := by
  have hf := h.frees_eq
  rw [held_of_pos (h.weak_pos hr)] at hf
  have hb := h.born_le
  omega

theorem not_freed_of_freeing (h : a.Balanced) (hr : 0 < a.freeing) : a.frees = 0 := by
  have hf := h.frees_eq
  have hb := h.born_le
  omega

theorem refs_pos (h : a.Balanced) (hs : 0 < a.strong) : 0 < a.refs := by
  have hr := h.strong_eq
  omega

theorem not_destroyed (h : a.Balanced) (hr : 0 < a.refs) : a.dtors = 0 := by
  have hd := h.dtors_eq
  rw [held_of_pos (h.strong_pos hr)] at hd
  have hb := h.born_le
  omega

theorem refs_eq_zero (h : a.Balanced) (hd : 0 < a.dtors) : a.refs = 0 := by
  by_contra hr
  have h0 := h.not_destroyed (Nat.pos_of_ne_zero hr)
  omega

/-- What is deallocated has no references left, and its destructor has run. -/
theorem of_freed (h : a.Balanced) (hf : 0 < a.frees) :
    a.refs = 0 ∧ a.wrefs = 0 ∧ a.dtors = 1 := by
  have hnot : ¬ (0 < a.refs ∨ 0 < a.strong ∨ 0 < a.wrefs ∨ 0 < a.dying) := by
    intro hr
    have h0 := h.not_freed hr
    omega
  have hd := h.dtors_eq
  have hb := h.frees_eq
  have hborn := h.born_le
  have hs : a.strong = 0 := by omega
  rw [hs, held_zero] at hd
  omega

/-- Without references the destructor has run or is due. -/
theorem destroyed_of_unreferred (h : a.Balanced) (hr : a.refs = 0) (hd : a.dying = 0) :
    a.dtors = a.born := by
  have hs := h.strong_eq
  have hdt := h.dtors_eq
  rw [show a.strong = 0 by omega, held_zero] at hdt
  omega

/-- Without references of either kind the deallocation has happened or is due. -/
theorem freed_of_unreferred (h : a.Balanced) (hr : a.refs = 0) (hw : a.wrefs = 0)
    (hd : a.dying = 0) (hf : a.freeing = 0) : a.frees = a.born := by
  have hs := h.strong_eq
  have hwk := h.weak_eq
  have hfr := h.frees_eq
  rw [show a.strong = 0 by omega, held_zero] at hwk
  rw [show a.weak = 0 by omega, held_zero] at hfr
  omega

/-- Before its allocation a block has no references and nothing happens to it. -/
theorem unborn (h : a.Balanced) (hb : a.born = 0) :
    a.strong = 0 ∧ a.weak = 0 ∧ a.refs = 0 ∧ a.owes = 0 ∧ a.wrefs = 0 ∧ a.dying = 0 ∧
      a.freeing = 0 ∧ a.dtors = 0 ∧ a.frees = 0 := by
  have hd := h.dtors_eq
  have hf := h.frees_eq
  have hs := h.strong_eq
  have hw := h.weak_eq
  have ho := h.owes_eq
  have hs0 : a.strong = 0 := by
    by_contra hne
    rw [held_of_pos (Nat.pos_of_ne_zero hne)] at hd
    omega
  have hw0 : a.weak = 0 := by
    by_contra hne
    rw [held_of_pos (Nat.pos_of_ne_zero hne)] at hf
    omega
  omega

end Balanced

/-- One step of the scheme keeps the books balanced, provided that the strong counter reaches
zero only when nothing is owed. -/
theorem Step.balanced (hs : Step a a') (h : a.Balanced)
    (hsafe : a.strong = 1 → a'.strong = 0 → a.owes = 0) : a'.Balanced := by
  obtain ⟨hborn,hstrong,hweak,hdtors,hfrees,howes⟩ := id h
  have hl := held_le_one a.strong
  cases hs with
  | stay => exact h
  | create hb =>
    obtain ⟨_,_,hr,ho,hw,hd,hf,ht,hz⟩ := h.unborn hb
    constructor <;> simp [hr, ho, hw, hd, hf, ht, hz, held]
  | lend hr =>
    have hp := h.strong_pos hr
    exact ⟨hborn,by simp only; omega,hweak,hdtors,hfrees,fun h0 => absurd h0 (Nat.pos_iff_ne_zero.mp hp)⟩
  | settle ho =>
    have hp := h.strong_pos (by omega)
    have hk : held (a.strong + 1) = held a.strong := by simp [held, hp]
    exact ⟨hborn,by simp only; omega,by simp only [hk]; exact hweak,by simp only [hk]; exact hdtors,
      hfrees,by simp⟩
  | retain hr =>
    have hp := h.strong_pos hr
    have hk : held (a.strong + 1) = held a.strong := by simp [held, hp]
    exact ⟨hborn,by simp only; omega,by simp only [hk]; exact hweak,by simp only [hk]; exact hdtors,
      hfrees,by simp⟩
  | release hr h1 =>
    have hp := h.strong_pos hr
    have hk : held (a.strong - 1) = held a.strong := by
      rw [held_of_pos hp, held_of_pos (by omega)]
    exact ⟨hborn,by simp only; omega,by simp only [hk]; exact hweak,by simp only [hk]; exact hdtors,
      hfrees,by simp only; omega⟩
  | releaseLast hr h1 =>
    have ho := hsafe h1 rfl
    rw [h1, held_of_pos Nat.one_pos] at hweak hdtors
    exact ⟨hborn,by simp only; omega,by simp only [held_zero]; omega,by simp only [held_zero]; omega,
      hfrees,fun _ => ho⟩
  | destroy hd =>
    exact ⟨hborn,hstrong,by simp only; omega,by simp only; omega,hfrees,howes⟩
  | retainWeak hr =>
    have hp : 0 < a.weak := h.weak_pos (by tauto)
    have hk : held (a.weak + 1) = held a.weak := by simp [held, hp]
    exact ⟨hborn,hstrong,by simp only; omega,hdtors,by simp only [hk]; exact hfrees,howes⟩
  | releaseWeak hr h1 =>
    have hp : 0 < a.weak := h.weak_pos (by tauto)
    have hk : held (a.weak - 1) = held a.weak := by
      rw [held_of_pos hp, held_of_pos (by omega)]
    exact ⟨hborn,hstrong,by simp only; omega,hdtors,by simp only [hk]; exact hfrees,howes⟩
  | releaseWeakLast hr h1 =>
    rw [h1, held_of_pos Nat.one_pos] at hfrees
    exact ⟨hborn,hstrong,by simp only; omega,hdtors,by simp only [held_zero]; omega,howes⟩
  | deallocate hf =>
    exact ⟨hborn,hstrong,hweak,hdtors,by simp only; omega,howes⟩

/-- A reference exists after a step only if one existed before or the block is new. -/
theorem Step.refs_pos (hs : Step a a') (hr : 0 < a'.refs) :
    0 < a.refs ∨ a.born = 0 ∧ a'.born = 1 := by
  cases hs with
  | create hb => exact .inr ⟨hb,rfl⟩
  | release h => exact .inl h
  | releaseLast h => exact .inl h
  | lend h => exact .inl h
  | retain h => exact .inl h
  | _ => exact .inl hr

theorem Step.born_le (hs : Step a a') (h : a.born ≤ 1) : a.born ≤ a'.born := by
  cases hs with
  | create => exact h
  | _ => exact Nat.le_refl _

theorem Step.frees_le (hs : Step a a') : a.frees ≤ a'.frees := by
  cases hs with
  | deallocate => exact Nat.le_succ _
  | _ => exact Nat.le_refl _

end RefCount
end Asp.Foundation
