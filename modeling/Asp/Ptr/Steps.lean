import Asp.Ptr.Calls

/-! Every action of the machine, seen from the books, from the allocator and from the other
threads. -/
namespace Asp.Ptr
open Foundation

/-- The address of the memory that a step may allocate. -/
def Choice.address {H V : Type*} : Choice H V → Option ℕ
  | .alloc a => some a
  | .fresh _ a => some a
  | _ => none

namespace State
variable {T H W S V : Type*} {s s' : State T H W S V} {t : T} {c : Choice H V}

/-- What a step does to the memory of the blocks: nothing, or one new block. -/
inductive Memory (s s' : State T H W S V) (c : Choice H V) : Prop
  | same (hn : s'.next = s.next) (ha : s'.addr = s.addr) (hv : s'.val = s.val)
  | created (a : ℕ) (v : V) (hc : c.address = some a) (hu : s.Unoccupied a)
      (hn : s'.next = s.next + 1) (ha : s'.addr = Function.update s.addr s.next a)
      (hv : s'.val = Function.update s.val s.next (some v))

/-- What a step of a call of thread `t` leaves alone: the other threads, and every counted
reference. -/
structure Advanced (s s' : State T H W S V) (t : T) (c : Choice H V) : Prop where
  memory : Memory s s' c
  stage : ∀ t', t' ≠ t → s'.stage t' = s.stage t'
  todo : ∀ t', t' ≠ t → s'.todo t' = s.todo t'
  wptr : ∀ t', t' ≠ t → ∀ w, s'.wptr (t',w) = s.wptr (t',w)
  strong : ∀ b, s'.strong b = 0 → s.strong b = 0

section Frame
variable (r : Option ℕ)

@[simp] lemma share_next : (s.share r).next = s.next := by cases r <;> rfl
@[simp] lemma share_addr : (s.share r).addr = s.addr := by cases r <;> rfl
@[simp] lemma share_val : (s.share r).val = s.val := by cases r <;> rfl
@[simp] lemma share_slot : (s.share r).slot = s.slot := by cases r <;> rfl
@[simp] lemma share_wptr : (s.share r).wptr = s.wptr := by cases r <;> rfl
@[simp] lemma share_todo : (s.share r).todo = s.todo := by cases r <;> rfl
@[simp] lemma share_stage : (s.share r).stage = s.stage := by cases r <;> rfl
@[simp] lemma share_called : (s.share r).called = s.called := by cases r <;> rfl
@[simp] lemma share_installed : (s.share r).installed = s.installed := by cases r <;> rfl
@[simp] lemma share_returned : (s.share r).returned = s.returned := by cases r <;> rfl

lemma share_strong {b : ℕ} (h : (s.share r).strong b = 0) : s.strong b = 0 := by
  cases r with
  | none => exact h
  | some b' =>
    simp only [share, Option.elim_some, addStrong, touch, Function.update_apply] at h
    split_ifs at h
    exact h

end Frame

lemma share_fault {r : Option ℕ} (h : ∀ b, r = some b → s.frees b = 0) :
    (s.share r).fault = s.fault := by
  cases r with
  | none => rfl
  | some b => simp [share, h b rfl]

namespace Advanced
variable {s'' : State T H W S V}

theorem refl : Advanced s s t c where
  memory := .same rfl rfl rfl
  stage _ _ := rfl
  todo _ _ := rfl
  wptr _ _ _ := rfl
  strong _ := id

/-- Something else is written that neither other threads nor the allocator see. -/
theorem next (h : Advanced s s' t c) (hn : s''.next = s'.next) (ha : s''.addr = s'.addr)
    (hv : s''.val = s'.val) (hstage : ∀ t', t' ≠ t → s''.stage t' = s'.stage t')
    (htodo : ∀ t', t' ≠ t → s''.todo t' = s'.todo t')
    (hwptr : ∀ t', t' ≠ t → ∀ w, s''.wptr (t',w) = s'.wptr (t',w))
    (hstrong : ∀ b, s''.strong b = 0 → s'.strong b = 0) : Advanced s s'' t c where
  memory := by
    cases h.memory with
    | same hn' ha' hv' => exact .same (hn.trans hn') (ha.trans ha') (hv.trans hv')
    | created a v hc hu hn' ha' hv' =>
      exact .created a v hc hu (hn.trans hn') (ha.trans ha') (hv.trans hv')
  stage t' hne := (hstage t' hne).trans (h.stage t' hne)
  todo t' hne := (htodo t' hne).trans (h.todo t' hne)
  wptr t' hne w := (hwptr t' hne w).trans (h.wptr t' hne w)
  strong b hb := h.strong b (hstrong b hb)

section Writes
variable (h : Advanced s s' t c)
include h

theorem setStage [DecidableEq T] (g : Stage H W S V) : Advanced s (s'.setStage t g) t c :=
  h.next rfl rfl rfl (fun _ hne => Function.update_of_ne hne ..) (fun _ _ => rfl)
    (fun _ _ _ => rfl) fun _ => id

theorem setTodo [DecidableEq T] (l : List Micro) : Advanced s (s'.setTodo t l) t c :=
  h.next rfl rfl rfl (fun _ _ => rfl) (fun _ hne => Function.update_of_ne hne ..)
    (fun _ _ _ => rfl) fun _ => id

theorem setPtr [DecidableEq T] [DecidableEq H] (t' : T) (d : H) (r : Option ℕ) :
    Advanced s (s'.setPtr t' d r) t c :=
  h.next rfl rfl rfl (fun _ _ => rfl) (fun _ _ => rfl) (fun _ _ _ => rfl) fun _ => id

theorem setWptr [DecidableEq T] [DecidableEq W] (w : W) (r : Option ℕ) :
    Advanced s (s'.setWptr t w r) t c := by
  refine h.next rfl rfl rfl (fun _ _ => rfl) (fun _ _ => rfl) (fun t' hne w' => ?_) fun _ => id
  have hkey : (t',w') ≠ (t,w) := fun he => hne (congrArg Prod.fst he)
  exact Function.update_of_ne hkey ..

theorem setSlot [DecidableEq S] (x : S) (r : Option ℕ) : Advanced s (s'.setSlot x r) t c :=
  h.next rfl rfl rfl (fun _ _ => rfl) (fun _ _ => rfl) (fun _ _ _ => rfl) fun _ => id

theorem touch (b : ℕ) : Advanced s (s'.touch b) t c :=
  h.next rfl rfl rfl (fun _ _ => rfl) (fun _ _ => rfl) (fun _ _ _ => rfl) fun _ => id

theorem addWeak (b : ℕ) : Advanced s (s'.addWeak b) t c :=
  h.next rfl rfl rfl (fun _ _ => rfl) (fun _ _ => rfl) (fun _ _ _ => rfl) fun _ => id

theorem share (r : Option ℕ) : Advanced s (s'.share r) t c := by
  refine h.next (share_next r) (share_addr r) (share_val r) (fun t' _ => ?_) (fun t' _ => ?_)
    (fun t' _ w => ?_) fun b => share_strong r
  · rw [share_stage]
  · rw [share_todo]
  · rw [share_wptr]

theorem vacate [DecidableEq T] [DecidableEq H] (d : H) (b : ℕ) :
    Advanced s (s'.vacate t d b) t c := (h.setPtr t d none).setTodo _

theorem vacateWeak [DecidableEq T] [DecidableEq W] (w : W) (b : ℕ) :
    Advanced s (s'.vacateWeak t w b) t c := (h.setWptr w none).setTodo _

theorem swapped [DecidableEq T] (new old : Option ℕ) (d : Option H) :
    Advanced s (s'.swapped t new old d) t c := by
  cases d with
  | none => exact (h.setTodo _).setStage _
  | some d => exact (h.setTodo _).setStage _

/-- The `rcu` calls that have gone through are only recorded. -/
theorem record (i : List (T × Update S V × Option ℕ)) (r : T → List (Update S V × Option ℕ)) :
    Advanced s { s' with installed := i, returned := r } t c :=
  h.next rfl rfl rfl (fun _ _ => rfl) (fun _ _ => rfl) (fun _ _ _ => rfl) fun _ => id

end Writes

theorem create {a : ℕ} (hc : c.address = some a) (hu : s.Unoccupied a) (v : V) :
    Advanced s (s.create a v) t c where
  memory := .created a v hc hu rfl rfl rfl
  stage _ _ := rfl
  todo _ _ := rfl
  wptr _ _ _ := rfl
  strong b hb := by
    by_cases he : b = s.next
    · subst he
      cases (Function.update_self s.next 1 s.strong).symm.trans hb
    · exact (Function.update_of_ne he ..).symm.trans hb

end Advanced

variable [DecidableEq T] [DecidableEq H] [DecidableEq W] [DecidableEq S]

/-- The writes of a step of a call are to its own thread, but for slots and counters. -/
theorem advance_frame {g : Stage H W S V} (h : s.advance t c g = some s') :
    Advanced s s' t c := by
  have hs : Advanced s s t c := .refl
  cases g with
  | idle => cases h
  | assign d r =>
    simp only [advance] at h
    split at h <;> cases h
    · exact hs.vacate ..
    · exact (hs.setPtr ..).setStage _
  | copy d x =>
    simp only [advance] at h
    split_ifs at h
    · cases h
      exact hs.setStage _
    · split at h <;> cases h
      · exact hs.vacate ..
      · exact ((hs.share _).setPtr ..).setStage _
  | move d x =>
    simp only [advance] at h
    split_ifs at h
    · cases h
      exact hs.setStage _
    · split at h <;> cases h
      · exact hs.vacate ..
      · exact ((hs.setPtr ..).setPtr ..).setStage _
  | reset d =>
    simp only [advance] at h
    split at h <;> cases h
    · exact hs.vacate ..
    · exact hs.setStage _
  | make d v =>
    simp only [advance] at h
    split at h
    · obtain ⟨hu,rfl⟩ := guarded_eq_some.mp h
      exact (Advanced.create rfl hu v).setStage _
    · cases h
  | weaken w x =>
    cases h
    cases s.ptr (t,x) with
    | none => exact hs.setStage _
    | some b => exact (hs.addWeak b).setStage _
  | assignWeak w r =>
    simp only [advance] at h
    split at h <;> cases h
    · exact hs.vacateWeak ..
    · exact (hs.setWptr ..).setStage _
  | copyWeak w x =>
    simp only [advance] at h
    split_ifs at h
    · cases h
      exact hs.setStage _
    · split at h <;> cases h
      · exact hs.vacateWeak ..
      · cases s.wptr (t,x) with
        | none => exact (hs.setWptr ..).setStage _
        | some b => exact ((hs.addWeak b).setWptr ..).setStage _
  | moveWeak w x =>
    simp only [advance] at h
    split_ifs at h
    · cases h
      exact hs.setStage _
    · split at h <;> cases h
      · exact hs.vacateWeak ..
      · exact ((hs.setWptr ..).setWptr ..).setStage _
  | resetWeak w =>
    simp only [advance] at h
    split at h <;> cases h
    · exact hs.vacateWeak ..
    · exact hs.setStage _
  | upgrade d w =>
    simp only [advance] at h
    split at h <;> cases h
    · exact hs.setStage _
    · exact (hs.touch _).setStage _
  | upgradeLoop d w n =>
    simp only [advance] at h
    split at h
    · cases h
      exact hs.next rfl rfl rfl (fun _ _ => rfl) (fun _ _ => rfl) (fun _ _ _ => rfl) fun _ => id
    · next b hw =>
      split at h <;> cases h
      · exact (hs.share (some b)).setStage _
      · exact (hs.touch b).setStage _
  | load d x =>
    cases h
    exact (hs.setTodo _).setStage _
  | exchange x a d =>
    cases h
    exact (hs.setSlot ..).swapped ..
  | exchangeMove x a d =>
    cases h
    exact ((hs.setSlot ..).setPtr ..).swapped ..
  | rcuLoad u d o n =>
    cases h
    exact (hs.setTodo _).setStage _
  | rcuApply u d o =>
    obtain ⟨r,hr,rfl⟩ := Option.map_eq_some_iff.mp h
    cases c with
    | fresh v a =>
      obtain ⟨hu,rfl⟩ := guarded_eq_some.mp hr
      exact (Advanced.create rfl hu v).setStage _
    | share x =>
      cases hr
      exact (hs.share _).setStage _
    | same =>
      cases hr
      exact (hs.share _).setStage _
    | null =>
      cases hr
      exact hs.setStage _
    | _ => cases hr
  | rcuExchange u d o n =>
    simp only [advance] at h
    split at h <;> cases h
    · exact (((hs.setSlot ..).setTodo _).setStage _).record ..
    · exact hs.setStage _
  | rcuReturn u d n =>
    simp only [advance] at h
    split at h <;> cases h
    · exact hs.vacate ..
    · exact ((hs.setPtr ..).setStage _).record ..

/-- No step touches freed memory when every block that is referred to is allocated. -/
theorem advance_fault {g : Stage H W S V} (h : s.advance t c g = some s')
    (hptr : ∀ k b, s.ptr k = some b → s.frees b = 0)
    (hwptr : ∀ k b, s.wptr k = some b → s.frees b = 0)
    (hold : ∀ u d b, g = .rcuApply u d (some b) → s.frees b = 0)
    (hloop : ∀ d w n, g = .upgradeLoop d w n → s.wptr (t,w) ≠ none) : s'.fault = s.fault := by
  cases g with
  | idle => cases h
  | make d v =>
    simp only [advance] at h
    split at h
    · obtain ⟨-,rfl⟩ := guarded_eq_some.mp h
      rfl
    · cases h
  | copy d x =>
    simp only [advance] at h
    split_ifs at h
    · cases h
      rfl
    · split at h <;> cases h
      · rfl
      · exact share_fault fun b => hptr _ b
  | weaken w x =>
    cases h
    cases hx : s.ptr (t,x) with
    | none => rfl
    | some b => simp [hptr _ b hx]
  | copyWeak w x =>
    simp only [advance] at h
    split_ifs at h
    · cases h
      rfl
    · split at h <;> cases h
      · rfl
      · cases hx : s.wptr (t,x) with
        | none => rfl
        | some b => simp [hwptr _ b hx]
  | upgrade d w =>
    simp only [advance] at h
    split at h
    · cases h
      rfl
    · next b hw =>
      cases h
      simp [hwptr _ b hw]
  | upgradeLoop d w n =>
    simp only [advance] at h
    split at h
    · next hw => exact absurd hw (hloop d w n rfl)
    · next b hw =>
      split at h <;> cases h <;> simp [hwptr _ b hw]
  | exchange x a d => cases h; cases d <;> rfl
  | exchangeMove x a d => cases h; cases d <;> rfl
  | rcuApply u d o =>
    obtain ⟨r,hr,rfl⟩ := Option.map_eq_some_iff.mp h
    cases c with
    | fresh v a =>
      obtain ⟨-,rfl⟩ := guarded_eq_some.mp hr
      rfl
    | share x => cases hr; exact share_fault fun b => hptr _ b
    | same => cases hr; exact share_fault fun b hb => hold u d b (hb ▸ rfl)
    | null => cases hr; rfl
    | _ => cases hr
  | _ =>
    simp only [advance] at h
    repeat' split at h
    all_goals
      cases h
      rfl

variable [Fintype T] [Fintype H] [Fintype W] [Fintype S] {a : Action T H W S V}

/-- No two blocks that are referred to share an address. -/
def Distinct (s : State T H W S V) : Prop :=
  ∀ b b', 0 < s.refs b → 0 < s.refs b' → s.addr b = s.addr b' → b = b'

/-- An upgrade that read a positive counter has a block to increment. -/
def Upgrading (s : State T H W S V) : Prop :=
  ∀ t d w n, s.stage t = .upgradeLoop d w n → n ≠ 0 ∧ ∀ b, 0 < s.strong b → 0 < s.refs b

omit [DecidableEq T] [DecidableEq H] [DecidableEq W] [DecidableEq S] [Fintype W] in
/-- Compare-exchange on addresses compares blocks. -/
lemma slot_eq_of_addr {u : Update S V} {d : H} {o n : Option ℕ} (hd : s.Distinct)
    (hg : s.stage t = .rcuExchange u d o n)
    (h : (s.slot u.target).map s.addr = o.map s.addr) : s.slot u.target = o := by
  cases hx : s.slot u.target with
  | none =>
    cases o with
    | none => rfl
    | some b' => simp [hx] at h
  | some b =>
    cases o with
    | none => simp [hx] at h
    | some b' =>
      have hb' : 0 < s.refs b' := refs_pos_of_stage (t := t) (by simp [hg, Stage.holds, one])
      have haddr : s.addr b = s.addr b' := by simpa [hx] using h
      rw [hd b b' (refs_pos_of_slot hx) hb' haddr]

theorem advance_account (hd : s.Distinct) (hup : s.Upgrading) (ht : s.todo t = [])
    (h : s.advance t c (s.stage t) = some s') :
    ∀ b, RefCount.Step (s.account b) (s'.account b) := by
  cases hg : s.stage t with
  | idle =>
    rw [hg] at h
    cases h
  | assign d r => exact assign_account ht hg (hg ▸ h)
  | copy d x => exact copy_account ht hg (hg ▸ h)
  | move d x => exact move_account ht hg (hg ▸ h)
  | reset d => exact reset_account ht hg (hg ▸ h)
  | make d v => exact make_account hg (hg ▸ h)
  | weaken w x => exact weaken_account hg (hg ▸ h)
  | assignWeak w r => exact assignWeak_account ht hg (hg ▸ h)
  | copyWeak w x => exact copyWeak_account ht hg (hg ▸ h)
  | moveWeak w x => exact moveWeak_account ht hg (hg ▸ h)
  | resetWeak w => exact resetWeak_account ht hg (hg ▸ h)
  | upgrade d w => exact upgrade_account hg (hg ▸ h)
  | upgradeLoop d w n =>
    obtain ⟨hn,hr⟩ := hup t d w n hg
    exact upgradeLoop_account hg hn hr (hg ▸ h)
  | load d x => exact load_account ht hg (hg ▸ h)
  | exchange x a d => exact exchange_account ht hg (hg ▸ h)
  | exchangeMove x a d => exact exchangeMove_account ht hg (hg ▸ h)
  | rcuLoad u d o n => exact rcuLoad_account ht hg (hg ▸ h)
  | rcuApply u d o => exact rcuApply_account hg (hg ▸ h)
  | rcuExchange u d o n => exact rcuExchange_account ht hg (slot_eq_of_addr hd hg) (hg ▸ h)
  | rcuReturn u d n => exact rcuReturn_account ht hg (hg ▸ h)

omit [DecidableEq H] [DecidableEq W] [DecidableEq S] in
/-- Starting a call and handing a handle over move no reference in or out of the books. -/
lemma start_account {op : Op H W S V} (ht : s.Idle t) :
    ∀ b, RefCount.Step (s.account b) ((s.setStage t op.entry).account b) := by
  have hidle : s.stage t = .idle := by
    have h := ht.2
    cases hg : s.stage t <;> simp_all [Stage.isIdle]
  exact setStage_account (fun b => by cases op <;> simp [Op.entry, Stage.holds, one, hidle])
    (fun b => by cases op <;> simp [Op.entry, Stage.holdsWeak, hidle])

omit [DecidableEq W] [DecidableEq S] in
lemma handOver_account {h h' : H} {t' : T} (hn : s.ptr (t',h') = none) :
    ∀ b, RefCount.Step (s.account b)
      (((s.setPtr t' h' (s.ptr (t,h))).setPtr t h none).account b) := by
  refine step_of_eq fun b => ?_
  ext <;> simp [account, refs, owes, wrefs, dying, freeing] <;> grind

omit [DecidableEq H] [DecidableEq S] in
lemma handOverWeak_account {w w' : W} {t' : T} (hn : s.wptr (t',w') = none) :
    ∀ b, RefCount.Step (s.account b)
      (((s.setWptr t' w' (s.wptr (t,w))).setWptr t w none).account b) := by
  refine step_of_eq fun b => ?_
  ext <;> simp [account, refs, owes, wrefs, dying, freeing] <;> grind

/-- Every action is at most one step of the counting scheme for each block. -/
theorem step_account (hd : s.Distinct) (hup : s.Upgrading) (h : s.step a = some s') :
    ∀ b, RefCount.Step (s.account b) (s'.account b) := by
  cases a with
  | start t op =>
    obtain ⟨hi,rfl⟩ := guarded_eq_some.mp h
    exact start_account hi
  | step t c =>
    simp only [step] at h
    split at h
    · next ht =>
      cases h
      exact micro_account ht
    · next ht => exact advance_account hd hup ht h
  | handOver t x t' x' =>
    obtain ⟨⟨-,-,hn⟩,rfl⟩ := guarded_eq_some.mp h
    exact handOver_account hn
  | handOverWeak t x t' x' =>
    obtain ⟨⟨-,-,hn⟩,rfl⟩ := guarded_eq_some.mp h
    exact handOverWeak_account hn

omit [Fintype T] [Fintype H] [Fintype W] [Fintype S] in
/-- Only upgrade() and its own retries lead into the compare-exchange loop. -/
lemma advance_upgradeLoop {d : H} {w : W} {n : ℕ} (h : s.advance t c (s.stage t) = some s')
    (hup : ∀ d w n, s.stage t = .upgradeLoop d w n → s.wptr (t,w) ≠ none)
    (hw : s'.stage t = .upgradeLoop d w n) : n ≠ 0 ∧ s'.wptr (t,w) ≠ none := by
  cases hg : s.stage t with
  | upgrade d' w' =>
    rw [hg] at h
    simp only [advance] at h
    split at h <;> cases h
    · simp at hw
    · next b hb =>
      simp only [setStage, Function.update_self] at hw
      split_ifs at hw with h0
      obtain ⟨-,rfl,rfl⟩ := Stage.upgradeLoop.inj hw
      exact ⟨h0,by simp [hb]⟩
  | upgradeLoop d' w' n' =>
    rw [hg] at h
    simp only [advance] at h
    split at h
    · next hb => exact absurd hb (hup d' w' n' hg)
    · next b hb =>
      split at h <;> cases h
      · simp at hw
      · simp only [setStage, Function.update_self] at hw
        split_ifs at hw with h0
        obtain ⟨-,rfl,rfl⟩ := Stage.upgradeLoop.inj hw
        exact ⟨h0,by simp [hb]⟩
  | make d' v =>
    rw [hg] at h
    simp only [advance] at h
    split at h
    · obtain ⟨-,rfl⟩ := guarded_eq_some.mp h
      simp at hw
    · cases h
  | rcuApply u d' o =>
    rw [hg] at h
    obtain ⟨r,-,rfl⟩ := Option.map_eq_some_iff.mp h
    simp at hw
  | exchange x a d' =>
    rw [hg] at h
    cases h
    cases d' <;> simp [swapped] at hw
  | exchangeMove x a d' =>
    rw [hg] at h
    cases h
    cases d' <;> simp [swapped] at hw
  | idle =>
    rw [hg] at h
    cases h
  | _ =>
    rw [hg] at h
    simp only [advance] at h
    repeat' split at h
    all_goals
      cases h
      simp [hg] at hw

omit [Fintype T] [Fintype H] [Fintype W] [Fintype S] in
/-- A step of the machine allocates at most one block. -/
lemma step_memory (h : s.step (.step t c) = some s') : Memory s s' c := by
  simp only [step] at h
  split at h
  · next m rest ht =>
    cases h
    cases m <;> exact .same rfl rfl rfl
  · exact (advance_frame h).memory

end State
end Asp.Ptr
