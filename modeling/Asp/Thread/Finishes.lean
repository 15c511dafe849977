import Asp.Thread.Shutdown

/-! When the destructor of a pool comes to an end. -/
namespace Asp.ThreadPool.Shutdown
open Foundation
variable {P J : Type*} {n : ℕ} [DecidableEq P] [DecidableEq J] [Fintype P] [Fintype J]
  {p : Platform} {s t : State P J n}

/-- A worker has to test the flag before it can take a task. -/
def Life.away : Life → ℕ
  | testing => 1
  | calling | ended => 0

/-- How far the thread of a worker is from its end once the flag is set. -/
def Life.left : Life → ℕ
  | calling => 2
  | testing => 1
  | ended => 0

/-- The destructor is in `join()`, no worker has left its loop, and no code that a worker runs waits
for the pool. -/
structure Working (p : Platform) (s : State P J n) : Prop where
  inv : Inv p s
  left : ∀ w, (s.pool.worker w).left = false
  outside : ∀ w, (s.pool.joiner (.inr w)).inside = false
  destroyer : ∀ w, s.destroyer ≠ some w
  place : s.destructor = .testing ∨ s.destructor = .waiting

omit [DecidableEq P] [DecidableEq J] [Fintype J] in
theorem Working.stopped (h : Working p s) (w : Fin n) : s.stopped w = false := by
  have hfits := h.inv.destructor
  obtain hd | hd := h.place <;> rw [hd] at hfits <;> exact (hfits w).1

omit [DecidableEq P] [DecidableEq J] [Fintype J] in
/-- The workers are alive, and those that have a task are in their loop functions. -/
theorem Working.life (h : Working p s) (w : Fin n) :
    s.life w = .calling ∨ s.life w = .testing ∧ s.pool.worker w = .polling := by
  cases hl : s.life w with
  | calling => exact .inl rfl
  | testing => exact .inr ⟨rfl,h.inv.testing w hl⟩
  | ended =>
    obtain hexited | ⟨-,hstopped⟩ := h.inv.ended w hl
    · have hleft := h.left w
      rw [hexited] at hleft
      cases hleft
    · cases (h.stopped w).symm.trans hstopped

/-- Steps that a worker makes in its loop function. -/
theorem step_work {w : Fin n} {a : PoolAction P J n}
    {pool : ThreadPool.State (P ⊕ Fin n) (Fin n) (J ⊕ Fin n)}
    (hl : s.life w = .calling) (ha : worker? a = some w) (hd : s.destroyer ≠ some w)
    (hs : nested.step s.pool a = some pool) :
    step p s (.work w a) = some { s.setLife w (lifeAfter a) with pool := pool } := by
  rw [step, if_pos ⟨hl,ha,hd⟩, hs]
  rfl

omit [DecidableEq P] [DecidableEq J] [Fintype P] [Fintype J] in
theorem tally_setLife (weight : Life → ℕ) (s : State P J n) (w : Fin n) (l : Life) :
    tally weight (s.setLife w l).life + weight (s.life w) = tally weight s.life + weight l :=
  tally_update weight s.life w l

/-- How far the work of the pool is from its end. -/
def State.distance (s : State P J n) : ℕ := 2 * s.pool.effort + tally Life.away s.life

/-- What a worker does in its loop function brings that end nearer if the pool says so. -/
theorem Working.work (h : Working p s) {w : Fin n} {a : PoolAction P J n}
    {pool : ThreadPool.State (P ⊕ Fin n) (Fin n) (J ⊕ Fin n)} (hl : s.life w = .calling)
    (ha : worker? a = some w) (hguard : HandlerGuard s.pool a) (hs : nested.step s.pool a = some pool)
    (haway : (lifeAfter a).away ≤ 1)
    (hless : pool.effort < s.pool.effort ∧ pool.joiner = s.pool.joiner) :
    ∃ a t, Shutdown.step p s a = some t ∧ Working p t ∧ t.distance < s.distance := by
  obtain ⟨heffort,hjoiner⟩ := hless
  have hstep := step_work (p := p) hl ha (h.destroyer w) hs
  have htally := tally_setLife Life.away s w (lifeAfter a)
  rw [hl] at htally
  refine ⟨.work w a,_,hstep,⟨step_inv h.inv hstep,fun v => ?_,fun v => ?_,h.destroyer,h.place⟩,?_⟩
  · change (pool.worker v).left = false
    rw [← Bool.not_eq_true, step_left (Machine.restrict_step.mp hs).2 v, h.left v]
    rintro (hv | rfl)
    · cases hv
    · cases hguard
  · change (pool.joiner (.inr v)).inside = false
    rw [hjoiner]
    exact h.outside v
  · change 2 * pool.effort + tally Life.away (s.setLife w (lifeAfter a)).life < _
    simp only [State.distance, Life.away] at htally haway ⊢
    omega

/-- While work remains, some step of a worker brings its end nearer. -/
theorem Working.step (h : Working p s) (hn : 0 < n) (h0 : s.pool.remainingWork ≠ 0) :
    ∃ a t, Shutdown.step p s a = some t ∧ Working p t ∧ t.distance < s.distance := by
  have hcalling : ∀ w, s.pool.worker w ≠ .polling → s.life w = .calling :=
    fun w hw => (h.life w).resolve_right fun hl => hw hl.2
  obtain ⟨q,task,hq⟩ | ⟨w,hw,hbetween⟩ | ⟨hq,hpoll⟩ := exists_turn h.inv.accounted h.outside h0
  · -- a call of pushTask: it is made by code that a worker runs
    cases q with
    | inl q =>
      have hidle := h.inv.unused (by obtain hd | hd := h.place <;> rw [hd] <;> exact nofun) q
      cases hq.symm.trans hidle
    | inr w =>
      have hbusy := (h.inv.nested w).resolve_left fun hbetween => by cases hq.symm.trans hbetween.1
      have hl := hcalling w fun hp => by
        rw [hp] at hbusy
        cases hbusy
      obtain ⟨pool,hs,hless⟩ := effort_push hq
      exact h.work (a := .push (.inr w)) hl rfl trivial
        (Machine.restrict_step.mpr ⟨trivial,hs⟩) (Nat.zero_le 1) hless
  · obtain ⟨a,pool,hcalm,hs,hless⟩ := effort_worker (h.left w) hw
    have hafter : worker? a = some w ∧ (lifeAfter a).away ≤ 1 := by
      cases hcalm with
      | runTask | handle => exact ⟨rfl,Nat.zero_le 1⟩
      | finish => exact ⟨rfl,Nat.le_refl 1⟩
    exact h.work (hcalling w hw) hafter.1 hcalm.guard
      (Machine.restrict_step.mpr ⟨hcalm.within hbetween,hs⟩) hafter.2 hless
  · let w : Fin n := ⟨0,hn⟩
    obtain ⟨pool,hs,hless⟩ := effort_pop (hpoll w) hq
    obtain hl | ⟨hl,-⟩ := h.life w
    · exact h.work (a := .pop w) hl rfl trivial
        (Machine.restrict_step.mpr ⟨trivial,hs⟩) (Nat.zero_le 1) hless
    · have hstep : Shutdown.step p s (.loop w) = some (s.setLife w .calling) := by
        refine guarded_eq_some.mpr ⟨hl,?_⟩
        rw [h.stopped w]
        rfl
      have htally := tally_setLife Life.away s w .calling
      rw [hl] at htally
      refine ⟨.loop w,_,hstep,⟨step_inv h.inv hstep,h.left,h.outside,h.destroyer,h.place⟩,?_⟩
      change 2 * s.pool.effort + tally Life.away (s.setLife w .calling).life < _
      simp only [State.distance, Life.away] at htally ⊢
      omega

/-- `join()` in the destructor is over, and the workers have nothing to do. -/
structure Ending (p : Platform) (s : State P J n) : Prop where
  inv : Inv p s
  polling : ∀ w, s.pool.worker w = .polling
  place : (∃ rest, s.destructor = .stopping rest ∧ ∀ w, w ∉ rest → s.stopped w = true) ∨
    (∃ rest, s.destructor = .joining rest ∧ ∀ w, s.stopped w = true) ∨ s.destructor = .done

/-- How many calls of the destructor are left. -/
def Destructor.left : Destructor n → ℕ
  | idle | testing | waiting => 0
  | stopping rest => rest.length + n + 2
  | joining rest => rest.length + 1
  | done => 0

/-- The workers and the destructor together come to an end. -/
theorem Ending.step (h : Ending p s) (hd : s.destructor ≠ .done) :
    ∃ a t, Shutdown.step p s a = some t ∧ Ending p t ∧
      t.destructor.left + tally Life.left t.life < s.destructor.left + tally Life.left s.life := by
  obtain ⟨rest,hrest,hstopped⟩ | ⟨rest,hrest,hstopped⟩ | hdone := h.place
  · cases rest with
    | nil =>
      have hstep : Shutdown.step p s .stop =
          some { s with destructor := .joining (List.finRange n) } := by
        simp only [Shutdown.step, hrest]
      refine ⟨.stop,_,hstep,⟨step_inv h.inv hstep,h.polling,?_⟩,?_⟩
      · exact .inr (.inl ⟨_,rfl,fun w => hstopped w List.not_mem_nil⟩)
      · rw [hrest]
        simp only [Destructor.left, List.length_finRange, List.length_nil]
        omega
    | cons w rest =>
      have hstep : Shutdown.step p s .stop = some { s with
          stopped := Function.update s.stopped w true, destructor := .stopping rest } := by
        simp only [Shutdown.step, hrest]
      refine ⟨.stop,_,hstep,⟨step_inv h.inv hstep,h.polling,.inl ⟨rest,rfl,fun v hv => ?_⟩⟩,?_⟩
      · by_cases hvw : v = w
        · subst hvw
          exact Function.update_self ..
        · refine (Function.update_of_ne hvw ..).trans (hstopped v fun hm => ?_)
          exact (List.mem_cons.mp hm).elim hvw hv
      · rw [hrest]
        simp only [Destructor.left, List.length_cons]
        omega
  · cases rest with
    | nil =>
      have hstep : Shutdown.step p s .join = some { s with destructor := .done } := by
        simp only [Shutdown.step, hrest]
      refine ⟨.join,_,hstep,⟨step_inv h.inv hstep,h.polling,.inr (.inr rfl)⟩,?_⟩
      rw [hrest]
      exact Nat.add_lt_add_right Nat.one_pos _
    | cons w rest =>
      cases hl : s.life w with
      | ended =>
        have hstep : Shutdown.step p s .join = some { s with
            joinable := Function.update s.joinable w false, destructor := .joining rest } := by
          simp only [Shutdown.step, hrest]
          exact guarded_eq_some.mpr ⟨hl,rfl⟩
        refine ⟨.join,_,hstep,⟨step_inv h.inv hstep,h.polling,.inr (.inl ⟨rest,rfl,hstopped⟩)⟩,?_⟩
        rw [hrest]
        exact Nat.add_lt_add_right (Nat.lt_succ_self _) _
      | testing =>
        have hstep : Shutdown.step p s (.loop w) = some (s.setLife w .ended) := by
          refine guarded_eq_some.mpr ⟨hl,?_⟩
          rw [hstopped w]
          rfl
        have htally := tally_setLife Life.left s w .ended
        rw [hl] at htally
        refine ⟨.loop w,_,hstep,⟨step_inv h.inv hstep,h.polling,h.place⟩,?_⟩
        refine Nat.add_lt_add_left ?_ _
        simp only [Life.left] at htally
        omega
      | calling =>
        have hempty : nested.step s.pool (.popEmpty w) = some s.pool :=
          Machine.restrict_step.mpr ⟨trivial,guarded_eq_some.mpr ⟨h.polling w,rfl⟩⟩
        have hdestroyer : s.destroyer ≠ some w := by
          intro hd
          have hbusy := h.inv.destroyer w hd
          rw [h.polling w] at hbusy
          cases hbusy
        have hstep := step_work (p := p) hl rfl hdestroyer hempty
        have htally := tally_setLife Life.left s w .testing
        rw [hl] at htally
        refine ⟨.work w (.popEmpty w),_,hstep,⟨step_inv h.inv hstep,h.polling,h.place⟩,?_⟩
        change s.destructor.left + tally Life.left (s.setLife w .testing).life < _
        simp only [Life.left] at htally
        omega
  · exact absurd hdone hd

/-- The destructor on POSIX never leaves `join()`: the handles of the workers can still be joined,
and there is a task that is never given back. -/
structure Hangs (s : State P J n) : Prop where
  inv : Inv .posix s
  work : 0 < s.pool.remainingWork
  stuck : Stuck s.pool ∨ ∃ w, s.destroyer = some w
  place : s.destructor = .testing ∨ s.destructor = .waiting

omit [DecidableEq P] [DecidableEq J] [Fintype J] in
theorem Inv.hangs (h : Inv .posix s) {w : Fin n}
    (hw : (s.pool.worker w).left = true ∨ (s.pool.joiner (.inr w)).inside = true ∨
      s.destroyer = some w)
    (hplace : s.destructor = .testing ∨ s.destructor = .waiting) : Hangs s := by
  have hbusy : (s.pool.joiner (.inr w)).inside = true → (s.pool.worker w).busy = true :=
    fun hinside => (h.nested w).resolve_left fun hw => by cases hw.2.symm.trans hinside
  have hpos : ∀ {b : Worker → Bool}, b .polling = false → b (s.pool.worker w) = true →
      0 < s.pool.remainingWork := fun hb hw => h.accounted.pos_of_worker (w := w) fun hp => by
    rw [hp, hb] at hw
    cases hw
  obtain hleft | hinside | hd := hw
  · exact ⟨h,hpos rfl hleft,.inl (.inr ⟨w,.inl hleft⟩),hplace⟩
  · have hb := hbusy hinside
    exact ⟨h,hpos rfl hb,.inl (.inr ⟨w,.inr ⟨hb,hinside⟩⟩),hplace⟩
  · exact ⟨h,hpos rfl (h.destroyer w hd),.inr ⟨w,hd⟩,hplace⟩

theorem Hangs.step {a : Action P J n} (h : Hangs s) (hn : 0 < n)
    (hs : Shutdown.step .posix s a = some t) : Hangs t := by
  have hinv := step_inv h.inv hs
  cases a with
  | use a =>
    rw [Shutdown.step] at hs
    split_ifs at hs with hc
    obtain hd | hd := h.place <;> cases hd.symm.trans hc.1
  | work v a =>
    rw [Shutdown.step] at hs
    split_ifs at hs with hc
    obtain ⟨pool,hpool,rfl⟩ := Option.map_eq_some_iff.mp hs
    obtain hstuck | ⟨w,hw⟩ := h.stuck
    · obtain ⟨hstuck,hwork⟩ := hstuck.step h.inv.accounted hinv.accounted hpool h.work
      exact ⟨hinv,hwork,.inl hstuck,h.place⟩
    · exact hinv.hangs (.inr (.inr hw)) h.place
  | loop v =>
    obtain ⟨-,rfl⟩ := guarded_eq_some.mp hs
    exact ⟨hinv,h.work,h.stuck,h.place⟩
  | destroy =>
    obtain ⟨⟨hidle,-⟩,-⟩ := guarded_eq_some.mp hs
    obtain hd | hd := h.place <;> cases hd.symm.trans hidle
  | test =>
    obtain ⟨htesting,rfl⟩ := guarded_eq_some.mp hs
    have hfits := h.inv.destructor
    rw [htesting] at hfits
    have hnot : ¬(s.allDead .posix ∨ s.pool.remainingWork = 0) := by
      rintro (hdead | h0)
      · cases (hdead ⟨0,hn⟩).symm.trans (hfits ⟨0,hn⟩).2
      · exact absurd h.work (h0 ▸ Nat.lt_irrefl 0)
    exact ⟨hinv,h.work,h.stuck,.inr (if_neg hnot)⟩
  | timeout =>
    obtain ⟨-,rfl⟩ := guarded_eq_some.mp hs
    exact ⟨hinv,h.work,h.stuck,.inl rfl⟩
  | stop | join =>
    rw [Shutdown.step] at hs
    obtain hd | hd := h.place <;> rw [hd] at hs <;> cases hs

end Asp.ThreadPool.Shutdown
