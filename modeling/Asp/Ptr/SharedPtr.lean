import Asp.Ptr.Soundness

/-! Programs that use SharedPtr and WeakPtr only, without a PtrSwap: there every increment is
made on behalf of a handle that keeps the block alive, so the guard of the releases holds by
itself and the reference counts are sound in every run. -/
namespace Asp.Ptr
open Foundation

/-- Calls on a PtrSwap. -/
def Op.onPtrSwap {H W S V : Type*} : Op H W S V → Bool
  | .load .. | .store .. | .storeMove .. | .swap .. | .swapMove .. | .rcu .. => true
  | _ => false

def Stage.onPtrSwap {H W S V : Type*} : Stage H W S V → Bool
  | .load .. | .exchange .. | .exchangeMove .. | .rcuLoad .. | .rcuApply .. | .rcuExchange ..
  | .rcuReturn .. => true
  | _ => false

namespace State
variable {T H W S V : Type*} {s s' : State T H W S V} {t : T} {c : Choice H V}

/-- Only calls on SharedPtr and WeakPtr are started. -/
def HandlesOnly (_ : State T H W S V) : Action T H W S V → Prop
  | .start _ op => op.onPtrSwap = false
  | _ => True

instance (s : State T H W S V) : ∀ a, Decidable (s.HandlesOnly a)
  | .start _ op => Bool.decEq op.onPtrSwap false
  | .step .. | .handOver .. | .handOverWeak .. => .isTrue trivial

/-- No PtrSwap is in use and no increment is outstanding. -/
structure Unshared (s : State T H W S V) : Prop where
  slot : ∀ x, s.slot x = none
  todo : ∀ t b, .retain b ∉ s.todo t
  stage : ∀ t, (s.stage t).onPtrSwap = false

variable [DecidableEq T] [DecidableEq H] [DecidableEq W] [DecidableEq S]

omit [DecidableEq H] [DecidableEq W] [DecidableEq S] in
lemma unshared_update {u : State T H W S V} (h : s.Unshared) (hslot : u.slot = s.slot)
    (hu : ∀ t', t' ≠ t → u.todo t' = s.todo t' ∧ u.stage t' = s.stage t')
    (htodo : ∀ b, .retain b ∉ u.todo t) (hstage : (u.stage t).onPtrSwap = false) : u.Unshared := by
  refine ⟨fun x => hslot ▸ h.slot x,fun t' => ?_,fun t' => ?_⟩
  · by_cases ht : t' = t
    · exact ht ▸ htodo
    · rw [(hu t' ht).1]
      exact h.todo t'
  · by_cases ht : t' = t
    · exact ht ▸ hstage
    · rw [(hu t' ht).2]
      exact h.stage t'

omit [DecidableEq H] [DecidableEq W] [DecidableEq S] in
lemma micro_unshared {m : Micro} {rest : List Micro} (h : s.Unshared) (ht : s.todo t = m :: rest) :
    (s.micro t rest m).Unshared := by
  have hrest : ∀ b, .retain b ∉ m :: rest := ht ▸ h.todo t
  refine unshared_update (t := t) h (by cases m <;> rfl) (fun t' ht' => ?_) (fun b hb => ?_) ?_
  · cases m <;> simp [micro, Function.update_of_ne ht']
  · have hb' := hrest b
    cases m <;> simp [micro] at hb hb' <;> grind
  · cases m <;> exact h.stage t

/-- What is left to a call on handles: no increment to come, and no PtrSwap. -/
lemma advance_unshared {g : Stage H W S V} (hg : g.onPtrSwap = false) (hst : s.stage t = g)
    (htodo : s.todo t = []) (h : s.advance t c g = some s') :
    s'.slot = s.slot ∧ (∀ b, .retain b ∉ s'.todo t) ∧ (s'.stage t).onPtrSwap = false := by
  cases g with
  | idle => cases h
  | make d v =>
    simp only [advance] at h
    split at h
    · obtain ⟨-,rfl⟩ := guarded_eq_some.mp h
      simp [create, htodo, Stage.onPtrSwap]
    · cases h
  | load | exchange | exchangeMove | rcuLoad | rcuApply | rcuExchange | rcuReturn => cases hg
  | weaken w x =>
    cases h
    cases hx : s.ptr (t,x) <;> simp [htodo, Stage.onPtrSwap]
  | copyWeak w x =>
    simp only [advance] at h
    split_ifs at h
    · cases h
      simp [htodo, Stage.onPtrSwap]
    · split at h <;> cases h
      · simp [hst, Stage.onPtrSwap]
      · cases hx : s.wptr (t,x) <;> simp [htodo, Stage.onPtrSwap]
  | upgrade d w =>
    simp only [advance] at h
    split at h <;> cases h
    · simp [htodo, Stage.onPtrSwap]
    · simp only [touch, setStage, Function.update_self, htodo]
      split_ifs <;> simp [Stage.onPtrSwap]
  | upgradeLoop d w n =>
    simp only [advance] at h
    split at h
    · cases h
      simp [htodo, hst, Stage.onPtrSwap]
    · split at h <;> cases h
      · simp [htodo, Stage.onPtrSwap]
      · simp only [touch, setStage, Function.update_self, htodo]
        split_ifs <;> simp [Stage.onPtrSwap]
  | _ =>
    simp only [advance] at h
    repeat' split at h
    all_goals
      cases h
      simp [htodo, hst, Stage.onPtrSwap]

theorem step_unshared {a : Action T H W S V} (h : s.Unshared) (ha : s.HandlesOnly a)
    (hs : s.step a = some s') : s'.Unshared := by
  cases a with
  | start t op =>
    obtain ⟨hi,rfl⟩ := guarded_eq_some.mp hs
    refine unshared_update (t := t) h rfl (fun t' ht' => by simp [Function.update_of_ne ht'])
      (h.todo t) ?_
    cases op <;> simp_all [HandlesOnly, Op.onPtrSwap, Op.entry, Stage.onPtrSwap]
  | step t c =>
    simp only [step] at hs
    split at hs
    · next ht =>
      cases hs
      exact micro_unshared h ht
    · next ht =>
      obtain ⟨hslot,htodo,hstage⟩ := advance_unshared (h.stage t) rfl ht hs
      have hf := advance_frame hs
      exact unshared_update h hslot (fun t' ht' => ⟨hf.todo t' ht',hf.stage t' ht'⟩) htodo hstage
  | handOver t x t' x' =>
    obtain ⟨-,rfl⟩ := guarded_eq_some.mp hs
    exact ⟨h.slot,h.todo,h.stage⟩
  | handOverWeak t x t' x' =>
    obtain ⟨-,rfl⟩ := guarded_eq_some.mp hs
    exact ⟨h.slot,h.todo,h.stage⟩

omit [DecidableEq T] [DecidableEq H] [DecidableEq W] [DecidableEq S] in
/-- Without outstanding increments every release satisfies the guard. -/
lemma Unshared.guard (h : s.Unshared) (a : Action T H W S V) : s.ReleaseGuard a := by
  cases a with
  | step t c =>
    change s.ReleaseSafe (s.todo t)
    unfold ReleaseSafe
    split
    · exact fun _ t' => h.todo t' _
    · trivial
  | _ => trivial

variable [Fintype T] [Fintype H] [Fintype W] [Fintype S]

theorem reaches_unshared (h : machine.Reaches HandlesOnly (init T H W S V) s) :
    s.Sound ∧ s.Unshared := by
  have hinit : (init T H W S V).Unshared := ⟨fun _ => rfl,fun _ _ => by simp [init],fun _ => rfl⟩
  refine h.invariant (fun u => u.Sound ∧ u.Unshared) ⟨init_sound,hinit⟩ ?_
  intro u a v hu ha hs
  exact ⟨step_sound hu.1 (hu.2.guard a) hs,step_unshared hu.2 ha hs⟩

/-- How many SharedPtr handles refer to `b`. -/
def sharedPtrs (s : State T H W S V) (b : ℕ) : ℕ :=
  (Finset.univ.filter fun k => s.ptr k = some b).card

/-- How many WeakPtr handles refer to `b`. -/
def weakPtrs (s : State T H W S V) (b : ℕ) : ℕ :=
  (Finset.univ.filter fun k => s.wptr k = some b).card

/-- A SharedPtr to `b`: a handle, or a temporary or a local variable of a call in progress. -/
def HasSharedPtr (s : State T H W S V) (b : ℕ) : Prop :=
  (∃ k, s.ptr k = some b) ∨ ∃ t, 0 < (s.stage t).holds b ∨ .release b ∈ s.todo t

def HasWeakPtr (s : State T H W S V) (b : ℕ) : Prop :=
  (∃ k, s.wptr k = some b) ∨ ∃ t, 0 < (s.stage t).holdsWeak b ∨ .releaseWeak b ∈ s.todo t

/-- What reference counting owes to its users. -/
structure Refcounted (s : State T H W S V) : Prop where
  untouched : s.fault = false
  destroyed_once : ∀ b, s.dtors b ≤ 1
  destroyed_last : ∀ b, 0 < s.dtors b → ¬ s.HasSharedPtr b
  freed_once : ∀ b, s.frees b ≤ 1
  freed_last : ∀ b, 0 < s.frees b → s.dtors b = 1 ∧ ¬ s.HasSharedPtr b ∧ ¬ s.HasWeakPtr b
  -- the last stage of upgrade(), among others: the result is about to be returned
  upgraded : ∀ t d b, s.stage t = .assign d (some b) → s.dtors b = 0
  -- when no operation is in progress
  strong_eq : (∀ t, s.Idle t) → ∀ b, s.strong b = s.sharedPtrs b
  weak_eq : (∀ t, s.Idle t) → ∀ b,
    s.weak b = s.weakPtrs b + if 0 < s.strong b then 1 else 0
  all_destroyed : (∀ t, s.Idle t) → ∀ b, b < s.next → ¬ s.HasSharedPtr b → s.dtors b = 1
  all_freed : (∀ t, s.Idle t) → ∀ b, b < s.next → ¬ s.HasSharedPtr b → ¬ s.HasWeakPtr b →
    s.frees b = 1

section
omit [DecidableEq T] [DecidableEq H] [DecidableEq W] [DecidableEq S]

omit [Fintype W] in
lemma HasSharedPtr.refs_pos {b : ℕ} (h : s.HasSharedPtr b) : 0 < s.refs b := by
  obtain ⟨k,hk⟩ | ⟨t,ht | ht⟩ := h
  · exact refs_pos_of_ptr hk
  · exact refs_pos_of_stage ht
  · exact refs_pos_of_todo ht

omit [Fintype H] [Fintype S] in
lemma HasWeakPtr.wrefs_pos {b : ℕ} (h : s.HasWeakPtr b) : 0 < s.wrefs b := by
  obtain ⟨k,hk⟩ | ⟨t,ht | ht⟩ := h
  · exact wrefs_pos_of_wptr hk
  · have hw := tally_pos_iff.mpr ⟨t,ht⟩
    unfold wrefs
    omega
  · exact wrefs_pos_of_todo ht

lemma tally_one_eq_card {ι : Type*} [Fintype ι] (f : ι → Option ℕ) (b : ℕ) :
    tally (one b) f = (Finset.univ.filter fun i => f i = some b).card :=
  (Finset.card_filter _ _).symm

/-- The books of a block while no call is in progress. -/
lemma account_of_idle (h : s.Unshared) (hi : ∀ t, s.Idle t) (b : ℕ) :
    s.refs b = s.sharedPtrs b ∧ s.wrefs b = s.weakPtrs b ∧ s.owes b = 0 ∧ s.dying b = 0 ∧
      s.freeing b = 0 := by
  have htodo : ∀ t, s.todo t = [] := fun t => (hi t).1
  have hstage : ∀ t, s.stage t = .idle := by
    intro t
    have ht := (hi t).2
    cases hg : s.stage t <;> simp_all [Stage.isIdle]
  have hcount : ∀ m, tally (List.count m) s.todo = 0 :=
    fun m => tally_eq_zero.mpr fun t => by simp [htodo]
  refine ⟨?_,?_,hcount _,hcount _,hcount _⟩
  · have hslot : tally (one b) s.slot = 0 := tally_eq_zero.mpr fun x => by simp [h.slot x, one]
    have hheld : tally (Stage.holds b) s.stage = 0 :=
      tally_eq_zero.mpr fun t => by simp [hstage, Stage.holds]
    have hcard : tally (one b) s.ptr = s.sharedPtrs b := tally_one_eq_card s.ptr b
    have hzero := hcount (.release b)
    unfold refs
    omega
  · have hheld : tally (Stage.holdsWeak b) s.stage = 0 :=
      tally_eq_zero.mpr fun t => by simp [hstage, Stage.holdsWeak]
    have hcard : tally (one b) s.wptr = s.weakPtrs b := tally_one_eq_card s.wptr b
    have hzero := hcount (.releaseWeak b)
    unfold wrefs
    omega

omit [Fintype W] [Fintype S] in
lemma sharedPtrs_eq_zero {b : ℕ} (h : ¬ s.HasSharedPtr b) : s.sharedPtrs b = 0 := by
  rw [sharedPtrs, Finset.card_eq_zero, Finset.filter_eq_empty_iff]
  exact fun k _ hk => h (.inl ⟨k,hk⟩)

omit [Fintype H] [Fintype S] in
lemma weakPtrs_eq_zero {b : ℕ} (h : ¬ s.HasWeakPtr b) : s.weakPtrs b = 0 := by
  rw [weakPtrs, Finset.card_eq_zero, Finset.filter_eq_empty_iff]
  exact fun k _ hk => h (.inl ⟨k,hk⟩)

theorem Sound.refcounted (h : s.Sound) (hu : s.Unshared) : s.Refcounted where
  untouched := h.clean
  destroyed_once b := by
    have hb := h.balanced b
    have hd : s.dtors b + s.dying b + RefCount.held (s.strong b) = (s.account b).born := hb.dtors_eq
    have hborn := hb.born_le
    omega
  destroyed_last b hd hs := hs.refs_pos.ne' ((h.balanced b).refs_eq_zero hd)
  freed_once b := by
    have hb := h.balanced b
    have hf : s.frees b + s.freeing b + RefCount.held (s.weak b) = (s.account b).born := hb.frees_eq
    have hborn := hb.born_le
    omega
  freed_last b hf := by
    obtain ⟨hr,hw,hd⟩ := (h.balanced b).of_freed hf
    exact ⟨hd,fun hs => hs.refs_pos.ne' hr,fun hs => hs.wrefs_pos.ne' hw⟩
  upgraded t d b hg :=
    (h.balanced b).not_destroyed (refs_pos_of_stage (t := t) (by simp [hg, Stage.holds, one]))
  strong_eq hi b := by
    obtain ⟨hr,-,ho,-,-⟩ := account_of_idle hu hi b
    have hs : s.strong b + s.owes b = s.refs b := (h.balanced b).strong_eq
    omega
  weak_eq hi b := by
    obtain ⟨-,hw,-,hd,-⟩ := account_of_idle hu hi b
    have hs : s.weak b = s.wrefs b + s.dying b + RefCount.held (s.strong b) :=
      (h.balanced b).weak_eq
    rw [hs, hw, hd]
    rfl
  all_destroyed hi b hb hs := by
    obtain ⟨hr,-,-,hd,-⟩ := account_of_idle hu hi b
    rw [sharedPtrs_eq_zero hs] at hr
    exact ((h.balanced b).destroyed_of_unreferred hr hd).trans (if_pos hb)
  all_freed hi b hb hs hw := by
    obtain ⟨hr,hwr,-,hd,hf⟩ := account_of_idle hu hi b
    rw [sharedPtrs_eq_zero hs] at hr
    rw [weakPtrs_eq_zero hw] at hwr
    exact ((h.balanced b).freed_of_unreferred hr hwr hd hf).trans (if_pos hb)
end

end State

variable {T H W S V : Type*} [Fintype T] [Fintype H] [Fintype W] [Fintype S]
variable [DecidableEq T] [DecidableEq H] [DecidableEq W] [DecidableEq S]

/-- Reference counting is sound in every run of SharedPtr and WeakPtr operations. -/
theorem handles_refcounted (s : State T H W S V)
    (h : machine.Reaches State.HandlesOnly (init T H W S V) s) : s.Refcounted :=
  (State.reaches_unshared h).1.refcounted (State.reaches_unshared h).2

/-- One thread upgrades a WeakPtr that was handed to it while the other one drops the SharedPtr;
then both handles go. -/
theorem handles_refcounted_example :
    ∃ s : State (Fin 2) Unit Unit Empty ℕ,
      machine.Reaches State.HandlesOnly (init (Fin 2) Unit Unit Empty ℕ) s ∧ s.frees 0 = 1 ∧
        s.Refcounted := by
  let go (t : Fin 2) : Action (Fin 2) Unit Unit Empty ℕ := .step t .go
  let acts : List (Action (Fin 2) Unit Unit Empty ℕ) :=
    [.start 0 (.makeShared () 7),.step 0 (.alloc 100),go 0,.start 0 (.weakOf () ()),go 0,go 0,
      .handOverWeak 0 () 1 (),.start 1 (.upgrade () ()),go 1,.start 0 (.reset ()),go 0,
      .step 1 .spurious,go 1,go 0,go 0,go 1,.start 1 (.resetWeak ()),go 1,go 1,go 1,
      .start 1 (.reset ()),go 1,go 1,go 1,go 1,go 1]
  have hrun : (machine.runGuarded State.HandlesOnly (init (Fin 2) Unit Unit Empty ℕ) acts).map
      (fun s => s.frees 0) = some 1 := by decide
  obtain ⟨s,hs,hf⟩ := Option.map_eq_some_iff.mp hrun
  have h := Machine.reaches_of_runGuarded hs
  exact ⟨s,h,hf,handles_refcounted s h⟩

end Asp.Ptr
