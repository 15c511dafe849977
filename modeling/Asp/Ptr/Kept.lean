import Asp.Ptr.SelfReference
import Asp.Ptr.SharedPtr

/-! What the weak references of objects to their own blocks keep, and what `sharedFromThis()`
returns. -/
namespace Asp.Ptr.FromThis
open Foundation

namespace State
variable {T H W O : Type*}

section Counts
variable [Fintype H] [Fintype W]

/-- How many SharedPtr variables refer to `b`. -/
def sharedPtrs (s : State T H W O) (b : ℕ) : ℕ := (Finset.univ.filter fun k => s.ptr k = some b).card

def weakPtrs (s : State T H W O) (b : ℕ) : ℕ := (Finset.univ.filter fun w => s.wptr w = some b).card

end Counts

/-- What the users of the class rely on. A SharedPtr that is being reset has given its reference up,
and does not count. -/
structure Kept [Fintype T] [Fintype H] [Fintype W] (s : State T H W O) : Prop where
  untouched : s.fault = false
  destroyed_once : ∀ b, s.dtors b ≤ 1
  destroyed_last : ∀ b, 0 < s.dtors b → ∀ k, s.ptr k ≠ some b
  freed_once : ∀ b, s.frees b ≤ 1
  freed_last : ∀ b, 0 < s.frees b →
    s.life b = .destroyed ∧ (∀ k, s.ptr k ≠ some b) ∧ ∀ w, s.wptr w ≠ some b
  -- an object refers to no other object, and to itself as long as someone refers to it
  own : ∀ o b, s.m_weak o = some b → o = .inBlock b
  attached : ∀ k b, s.ptr k = some b → s.m_weak (.inBlock b) = some b
  -- when nothing is in progress
  none_leaving : (∀ t, s.stack t = []) → ∀ k, s.leaving k = none
  strong_eq : (∀ t, s.stack t = []) → ∀ b, s.strong b = s.sharedPtrs b
  weak_eq : (∀ t, s.stack t = []) → ∀ b,
    s.weak b = s.weakPtrs b + if 0 < s.strong b then 2 else 0
  all_destroyed : (∀ t, s.stack t = []) → ∀ b, s.life b = .alive → ∃ k, s.ptr k = some b
  all_freed : (∀ t, s.stack t = []) → ∀ b, s.life b = .destroyed →
    (∀ w, s.wptr w ≠ some b) → s.frees b = 1

section Results
variable [Fintype T] [Fintype H] [Fintype W] {s s' : State T H W O} {t : T} {b : ℕ}

namespace Sound

lemma alive_of_ptr (h : s.Sound) {k : H} (hk : s.ptr k = some b) : s.life b = .alive := by
  have hr := refs_pos_of_ptr hk
  obtain ⟨-,hl | hl⟩ := h.present (.inl hr)
  · exact hl
  · have hdtors := h.destructing b
    rw [if_pos hl] at hdtors
    have h0 : s.dtors b = 0 := (h.balanced b).not_destroyed hr
    omega

/-- The books while nothing is in progress. -/
lemma account_of_rest (h : s.Sound) (hrest : ∀ t, s.stack t = []) (b : ℕ) :
    (s.account b).refs = s.sharedPtrs b ∧
      (s.account b).wrefs = s.weakPtrs b + (if s.life b = .alive then 1 else 0) ∧
      (s.account b).dying = 0 ∧ (s.account b).freeing = 0 ∧
      s.dtors b = if s.life b = .destroyed then 1 else 0 := by
  have hframes : ∀ w : Frame H W O → ℕ, s.frames w = 0 :=
    fun w => tally_eq_zero.mpr fun t => by rw [hrest t, weigh_nil]
  have hdtors := h.destructing b
  rw [hframes, Nat.zero_add] at hdtors
  have hself : one b (s.m_weak (.inBlock b)) = if s.life b = .alive then 1 else 0 := by
    by_cases hl : s.life b = .alive
    · rw [if_pos hl, h.attached b hl, one, if_pos rfl]
    · rw [if_neg hl, one, if_neg fun hm => hl (h.own _ b hm).2]
  refine ⟨?_,?_,hframes _,hframes _,hdtors⟩
  · change tally (one b) s.ptr + s.frames _ = _
    rw [hframes, Ptr.State.tally_one_eq_card]
    rfl
  · change tally (one b) s.wptr + one b _ + s.frames _ = _
    rw [hframes, Ptr.State.tally_one_eq_card, hself]
    rfl

/-- Of the weak references that are counted, one is the object's and one that of the SharedPtrs. -/
lemma weak_of_rest (h : s.Sound) (hrest : ∀ t, s.stack t = []) (b : ℕ) :
    s.weak b = s.weakPtrs b + if 0 < s.strong b then 2 else 0 := by
  obtain ⟨-,hw,hdying,-,hdtors⟩ := h.account_of_rest hrest b
  have hwk : s.weak b = (s.account b).wrefs + (s.account b).dying + RefCount.held (s.strong b) :=
    (h.balanced b).weak_eq
  have hd : s.dtors b + (s.account b).dying + RefCount.held (s.strong b) = (s.account b).born :=
    (h.balanced b).dtors_eq
  have hborn : (s.account b).born = if s.life b = .alive ∨ s.life b = .destroyed then 1 else 0 :=
    rfl
  rw [hwk, hw, hdying]
  rw [hdying, hborn, hdtors] at hd
  by_cases hs : 0 < s.strong b
  · rw [RefCount.held_of_pos hs] at hd ⊢
    have halive : s.life b = .alive := by
      by_contra hl
      simp only [hl, false_or] at hd
      split_ifs at hd
      omega
    rw [if_pos hs, if_pos halive]
  · have h0 : s.strong b = 0 := Nat.eq_zero_of_not_pos hs
    rw [h0, RefCount.held_zero] at hd ⊢
    have hdead : s.life b ≠ .alive := by
      intro hl
      simp [hl] at hd
    simp [hdead]

lemma exists_ptr (h : s.Sound) (hrest : ∀ t, s.stack t = []) (b : ℕ) (hl : s.life b = .alive) :
    ∃ k, s.ptr k = some b := by
  obtain ⟨hr,-,hdying,-,hdtors⟩ := h.account_of_rest hrest b
  have hd := fun h0 => (h.balanced b).destroyed_of_unreferred h0 hdying
  have hnot : s.sharedPtrs b ≠ 0 := by
    intro h0
    have hborn : (s.account b).born = 1 := if_pos (.inl hl)
    have hone : s.dtors b = 1 := (hd (hr.trans h0)).trans hborn
    simp [hl, hone] at hdtors
  obtain ⟨k,hk⟩ := Finset.card_pos.mp (Nat.pos_of_ne_zero hnot)
  exact ⟨k,(Finset.mem_filter.mp hk).2⟩

lemma freed_of_rest (h : s.Sound) (hrest : ∀ t, s.stack t = []) (b : ℕ)
    (hl : s.life b = .destroyed) (hw : ∀ w, s.wptr w ≠ some b) : s.frees b = 1 := by
  obtain ⟨hr,hwr,hdying,hfreeing,-⟩ := h.account_of_rest hrest b
  have hborn : (s.account b).born = 1 := if_pos (.inr hl)
  have hnone : s.sharedPtrs b = 0 := by
    refine Finset.card_eq_zero.mpr (Finset.filter_eq_empty_iff.mpr fun k _ hk => ?_)
    cases hl.symm.trans (h.alive_of_ptr hk)
  have hweak : (s.account b).wrefs = 0 := by
    have h0 : s.weakPtrs b = 0 :=
      Finset.card_eq_zero.mpr (Finset.filter_eq_empty_iff.mpr fun w _ => hw w)
    rw [hwr, h0, if_neg (by simp [hl])]
  exact ((h.balanced b).freed_of_unreferred (hr.trans hnone) hweak hdying hfreeing).trans hborn

theorem kept (h : s.Sound) : s.Kept where
  untouched := h.clean
  destroyed_once b := by
    have hd : s.dtors b + (s.account b).dying + RefCount.held (s.account b).strong =
      (s.account b).born := (h.balanced b).dtors_eq
    have hborn := (h.balanced b).born_le
    omega
  destroyed_last b hd k hk := by
    have hr := (h.balanced b).refs_eq_zero hd
    have hpos := refs_pos_of_ptr hk
    omega
  freed_once b := by
    have hf : s.frees b + (s.account b).freeing + RefCount.held (s.account b).weak =
      (s.account b).born := (h.balanced b).frees_eq
    have hborn := (h.balanced b).born_le
    omega
  freed_last b hf := by
    obtain ⟨hr,hw,-⟩ := (h.balanced b).of_freed hf
    refine ⟨?_,fun k hk => (refs_pos_of_ptr hk).ne' hr,fun w hk => (wrefs_pos_of_wptr hk).ne' hw⟩
    by_contra hl
    have hnot : s.life b ≠ .alive := by
      intro halive
      have hself : s.m_block (.m_weak (.inBlock b)) = some b := h.attached b halive
      exact (h.wrefs_pos hself).ne' hw
    have h0 := ((h.balanced b).unborn (if_neg (by simp [hl, hnot]))).2.2.2.2.2.2.2.2
    exact hf.ne' h0
  own o b ho := (h.own o b ho).1
  attached k b hk := h.attached b (h.alive_of_ptr hk)
  none_leaving hrest k := by
    by_contra hk
    obtain ⟨t,ht⟩ := h.resetting k hk
    rw [hrest t] at ht
    cases ht
  strong_eq hrest b := by
    have hs : s.strong b + 0 = (s.account b).refs := (h.balanced b).strong_eq
    rw [(h.account_of_rest hrest b).1] at hs
    exact hs
  weak_eq := h.weak_of_rest
  all_destroyed := h.exists_ptr
  all_freed := h.freed_of_rest

end Sound
end Results

section Calls
variable [Fintype T] [Fintype H] [Fintype W]
variable [DecidableEq T] [DecidableEq H] [DecidableEq W] [DecidableEq O]
variable {s s' : State T H W O} {t : T} {rest : List (Frame H W O)}

theorem reaches_sound (h : machine.Reaches Allowed (init T H W O) s) : s.Sound := by
  refine h.invariant Sound ?_ fun u a v hu ha hs => step_sound hu ha hs
  refine ⟨fun b => ?_,nofun,nofun,fun _ _ => rfl,fun b => ?_,fun b => ?_,fun _ hk => absurd rfl hk,
    nofun,rfl⟩
  · constructor <;> simp [account, frames, init, tally, one]
  · simp [frames, init, tally]
  · simp [frames, init, tally]

end Calls
end State

section Results
variable {T H W O : Type*} [Fintype T] [Fintype H] [Fintype W]
variable [DecidableEq T] [DecidableEq H] [DecidableEq W] [DecidableEq O]

end Results
end Asp.Ptr.FromThis
