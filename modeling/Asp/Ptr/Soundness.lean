import Asp.Ptr.Steps

/-! The invariant of the runs in which no counted reference vanishes too early. -/
namespace Asp.Ptr
open Foundation

namespace State
variable {T H W S V : Type*} [Fintype T] [Fintype H] [Fintype W] [Fintype S]
variable [DecidableEq T] [DecidableEq H] [DecidableEq W] [DecidableEq S]
variable {s s' : State T H W S V} {t : T} {c : Choice H V} {a : Action T H W S V}

/-- The invariant: balanced books, blocks in memory at distinct addresses, upgrades in progress
on a non-null WeakPtr, and nothing touched after its deallocation. -/
structure Sound (s : State T H W S V) : Prop where
  balanced : ∀ b, (s.account b).Balanced
  placed : ∀ b b', b < s.next → b' < s.next → s.frees b = 0 → s.frees b' = 0 →
    s.addr b = s.addr b' → b = b'
  upgrading : ∀ t d w n, s.stage t = .upgradeLoop d w n → n ≠ 0 ∧ s.wptr (t,w) ≠ none
  clean : s.fault = false

namespace Sound
omit [DecidableEq T] [DecidableEq H] [DecidableEq W] [DecidableEq S]

lemma born (h : s.Sound) {b : ℕ} (hb : 0 < s.refs b) : b < s.next := by
  by_contra hn
  have h0 := ((h.balanced b).unborn (by simp [account, hn])).2.2.1
  exact hb.ne' h0

lemma not_freed (h : s.Sound) {b : ℕ} (hb : 0 < s.refs b) : s.frees b = 0 :=
  (h.balanced b).not_freed (.inl hb)

lemma not_freed_weak (h : s.Sound) {b : ℕ} (hb : 0 < s.wrefs b) : s.frees b = 0 :=
  (h.balanced b).not_freed (.inr (.inr (.inl hb)))

lemma distinct (h : s.Sound) : s.Distinct := fun b b' hb hb' =>
  h.placed b b' (h.born hb) (h.born hb') (h.not_freed hb) (h.not_freed hb')

lemma upgrade_pos (h : s.Sound) : s.Upgrading := fun t d w n hg =>
  ⟨(h.upgrading t d w n hg).1,fun b => (h.balanced b).refs_pos⟩

end Sound

omit [DecidableEq T] [DecidableEq H] [DecidableEq W] [DecidableEq S] in
theorem init_sound : (init T H W S V).Sound where
  balanced b := by
    constructor <;> simp [account, refs, owes, wrefs, dying, freeing, init, tally, one, Stage.holds,
      Stage.holdsWeak]
  placed b b' hb := by simp [init] at hb
  upgrading t d w n hg := by simp [init] at hg
  clean := rfl

/-- If the next operation of a list releases the last counted reference to a block, no increment
of its strong counter is outstanding. -/
def ReleaseSafe (s : State T H W S V) : List Micro → Prop
  | .release b :: _ => s.strong b = 1 → ∀ t', .retain b ∉ s.todo t'
  | _ => True

/-- The last counted reference to a block is released only while no increment of its strong
counter is outstanding: no thread stands between reading the address of the block in a PtrSwap,
or storing it there, and the increment for it. -/
def ReleaseGuard (s : State T H W S V) : Action T H W S V → Prop
  | .step t _ => s.ReleaseSafe (s.todo t)
  | _ => True

instance (s : State T H W S V) : ∀ l, Decidable (s.ReleaseSafe l)
  | .release b :: _ => inferInstanceAs (Decidable (s.strong b = 1 → ∀ t', .retain b ∉ s.todo t'))
  | [] | .retain _ :: _ | .destroyData _ :: _ | .releaseWeak _ :: _ | .destroyBlock _ :: _ =>
    .isTrue trivial

instance (s : State T H W S V) : ∀ a, Decidable (s.ReleaseGuard a)
  | .step t _ => inferInstanceAs (Decidable (s.ReleaseSafe (s.todo t)))
  | .start .. | .handOver .. | .handOverWeak .. => .isTrue trivial

omit [Fintype H] [Fintype W] [Fintype S] [DecidableEq T] [DecidableEq H] [DecidableEq W]
  [DecidableEq S] in
lemma owes_eq_zero_iff {b : ℕ} : s.owes b = 0 ↔ ∀ t, .retain b ∉ s.todo t := by
  simp [owes, tally_eq_zero, List.count_eq_zero]

omit [Fintype H] [Fintype W] [Fintype S] in
/-- A strong counter falls to zero only in a guarded release. -/
lemma step_releases_last (hg : s.ReleaseGuard a) (h : s.step a = some s') {b : ℕ}
    (h1 : s.strong b = 1) (h0 : s'.strong b = 0) : s.owes b = 0 := by
  cases a with
  | start t op =>
    obtain ⟨-,rfl⟩ := guarded_eq_some.mp h
    exact absurd h0 (by simp [h1])
  | step t c =>
    simp only [step] at h
    split at h
    · next m rest ht =>
      cases h
      cases m with
      | release b' =>
        by_cases hb : b = b'
        · subst b'
          simp only [ReleaseGuard, ht, ReleaseSafe] at hg
          exact owes_eq_zero_iff.mpr (hg h1)
        · simp [micro, Function.update_of_ne hb, h1] at h0
      | retain b' =>
        by_cases hb : b = b' <;> simp [micro, hb, h1] at h0
      | _ => simp [micro, h1] at h0
    · have hb := (advance_frame h).strong b h0
      omega
  | handOver t x t' x' =>
    obtain ⟨-,rfl⟩ := guarded_eq_some.mp h
    exact absurd h0 (by simp [h1])
  | handOverWeak t x t' x' =>
    obtain ⟨-,rfl⟩ := guarded_eq_some.mp h
    exact absurd h0 (by simp [h1])

omit [DecidableEq T] [DecidableEq H] [DecidableEq W] [DecidableEq S] in
/-- Blocks in memory keep distinct addresses: a new one is put where no block is. -/
lemma placed_step (h : s.Sound) (hm : Memory s s' c) (hf : ∀ b, s.frees b ≤ s'.frees b) (b b' : ℕ)
    (hb : b < s'.next) (hb' : b' < s'.next) (h0 : s'.frees b = 0) (h0' : s'.frees b' = 0)
    (he : s'.addr b = s'.addr b') : b = b' := by
  have hfb := hf b
  have hfb' := hf b'
  cases hm with
  | same hn ha hv =>
    rw [ha] at he
    exact h.placed b b' (by omega) (by omega) (by omega) (by omega) he
  | created a v hc hu hn ha hv =>
    by_cases hbn : b = s.next <;> by_cases hbn' : b' = s.next
    · rw [hbn, hbn']
    · rw [ha, hbn, Function.update_self, Function.update_of_ne hbn'] at he
      exact absurd he.symm (hu b' (by omega) (by omega))
    · rw [ha, hbn', Function.update_self, Function.update_of_ne hbn] at he
      exact absurd he (hu b (by omega) (by omega))
    · rw [ha, Function.update_of_ne hbn, Function.update_of_ne hbn'] at he
      exact h.placed b b' (by omega) (by omega) (by omega) (by omega) he

omit [DecidableEq H] [DecidableEq W] [DecidableEq S] in
lemma micro_clean (h : s.Sound) {m : Micro} {rest : List Micro} (ht : s.todo t = m :: rest) :
    (s.micro t rest m).fault = false := by
  have hm : m ∈ s.todo t := by simp [ht]
  have hc := h.clean
  cases m with
  | retain b =>
    have ho : 0 < s.owes b := tally_count_pos hm
    have hr : 0 < s.refs b := by
      have hb := (h.balanced b).strong_eq
      simp only [account] at hb
      omega
    simp [micro, hc, h.not_freed hr]
  | release b => simp [micro, hc, h.not_freed (refs_pos_of_todo hm)]
  | destroyData b =>
    have hf : s.frees b = 0 :=
      (h.balanced b).not_freed (.inr (.inr (.inr (tally_count_pos hm))))
    simp [micro, hc, hf]
  | releaseWeak b => simp [micro, hc, h.not_freed_weak (wrefs_pos_of_todo hm)]
  | destroyBlock b =>
    have hf : s.frees b = 0 := (h.balanced b).not_freed_of_freeing (tally_count_pos hm)
    simp [micro, hc, hf]

theorem step_clean (h : s.Sound) (hs : s.step a = some s') : s'.fault = false := by
  cases a with
  | step t c =>
    simp only [step] at hs
    split at hs
    · next ht =>
      cases hs
      exact micro_clean h ht
    · have hold : ∀ u d b, s.stage t = .rcuApply u d (some b) → s.frees b = 0 := fun u d b hg =>
        h.not_freed (refs_pos_of_stage (t := t) (by simp [hg, Stage.holds, one]))
      exact (advance_fault hs (fun _ _ hk => h.not_freed (refs_pos_of_ptr hk))
        (fun _ _ hk => h.not_freed_weak (wrefs_pos_of_wptr hk)) hold
        fun d w n hg => (h.upgrading t d w n hg).2).trans h.clean
  | start t op =>
    obtain ⟨-,rfl⟩ := guarded_eq_some.mp hs
    exact h.clean
  | handOver t x t' x' =>
    obtain ⟨-,rfl⟩ := guarded_eq_some.mp hs
    exact h.clean
  | handOverWeak t x t' x' =>
    obtain ⟨-,rfl⟩ := guarded_eq_some.mp hs
    exact h.clean

theorem step_upgrading (h : s.Sound) (hs : s.step a = some s') (t : T) (d : H) (w : W) (n : ℕ)
    (hg : s'.stage t = .upgradeLoop d w n) : n ≠ 0 ∧ s'.wptr (t,w) ≠ none := by
  cases a with
  | step t' c =>
    simp only [step] at hs
    split at hs
    · next m rest ht =>
      cases hs
      cases m <;> exact h.upgrading t d w n hg
    · by_cases htt : t = t'
      · subst htt
        exact advance_upgradeLoop hs (fun d w n hg => (h.upgrading t d w n hg).2) hg
      · have hf := advance_frame hs
        rw [hf.stage t htt] at hg
        rw [hf.wptr t htt]
        exact h.upgrading t d w n hg
  | start t' op =>
    obtain ⟨-,rfl⟩ := guarded_eq_some.mp hs
    by_cases htt : t = t'
    · subst htt
      cases op <;> simp [Op.entry] at hg
    · exact h.upgrading t d w n (by simpa [Function.update_of_ne htt] using hg)
  | handOver t' x t'' x' =>
    obtain ⟨-,rfl⟩ := guarded_eq_some.mp hs
    exact h.upgrading t d w n hg
  | handOverWeak t' x t'' x' =>
    obtain ⟨⟨hi,hi',-⟩,rfl⟩ := guarded_eq_some.mp hs
    -- a thread inside upgrade() is not one of the two idle threads
    have hne : ∀ u, s.Idle u → t ≠ u := by
      rintro u hu rfl
      have hidle := hu.2
      rw [show s.stage t = _ from hg] at hidle
      cases hidle
    have hw : ∀ u y, s.Idle u → (t,w) ≠ (u,y) := fun u y hu he => hne u hu (Prod.mk.inj he).1
    simp only [setWptr, Function.update_of_ne (hw t' x hi), Function.update_of_ne (hw t'' x' hi')]
    exact h.upgrading t d w n hg

/-- One guarded step keeps the invariant. -/
theorem step_sound (h : s.Sound) (hg : s.ReleaseGuard a) (hs : s.step a = some s') :
    s'.Sound := by
  have hacc := step_account h.distinct h.upgrade_pos hs
  refine ⟨fun b => (hacc b).balanced (h.balanced b) (step_releases_last hg hs),?_,
    step_upgrading h hs,step_clean h hs⟩
  cases a with
  | step t c => exact placed_step h (step_memory hs) fun b => (hacc b).frees_le
  | start t op =>
    obtain ⟨-,rfl⟩ := guarded_eq_some.mp hs
    exact h.placed
  | handOver t x t' x' =>
    obtain ⟨-,rfl⟩ := guarded_eq_some.mp hs
    exact h.placed
  | handOverWeak t x t' x' =>
    obtain ⟨-,rfl⟩ := guarded_eq_some.mp hs
    exact h.placed

/-- Guarded runs keep the invariant. -/
theorem reaches_sound {s : State T H W S V}
    (h : machine.Reaches ReleaseGuard (init T H W S V) s) : s.Sound :=
  h.invariant Sound init_sound fun _ _ _ hi hg hs => step_sound hi hg hs

end State
end Asp.Ptr
