import Asp.Ptr.Ledger

/-! The calls of the public interface, step by step: what each of them does to the books. -/
namespace Asp.Ptr
open Foundation

namespace State
variable {T H W S V : Type*} [Fintype T] [Fintype H] [Fintype W] [Fintype S]
variable [DecidableEq T] [DecidableEq H] [DecidableEq W] [DecidableEq S]

omit [DecidableEq W] [DecidableEq S] in
lemma vacate_account {s : State T H W S V} {t : T} {d : H} {c : ℕ} (ht : s.todo t = [])
    (hd : s.ptr (t,d) = some c) :
    ∀ b, RefCount.Step (s.account b) ((s.vacate t d c).account b) := by
  refine step_of_eq fun b => ?_
  ext <;> simp [account, refs, owes, wrefs, dying, freeing] <;> grind

omit [DecidableEq H] [DecidableEq S] in
lemma vacateWeak_account {s : State T H W S V} {t : T} {w : W} {c : ℕ} (ht : s.todo t = [])
    (hw : s.wptr (t,w) = some c) :
    ∀ b, RefCount.Step (s.account b) ((s.vacateWeak t w c).account b) := by
  refine step_of_eq fun b => ?_
  ext <;> simp [account, refs, owes, wrefs, dying, freeing] <;> grind

omit [DecidableEq H] [DecidableEq W] [DecidableEq S] in
/-- Replacing a stage by one that owns the same pointers. -/
lemma setStage_account {s : State T H W S V} {t : T} {g : Stage H W S V}
    (hg : ∀ b, g.holds b = (s.stage t).holds b)
    (hw : ∀ b, g.holdsWeak b = (s.stage t).holdsWeak b) :
    ∀ b, RefCount.Step (s.account b) ((s.setStage t g).account b) := by
  refine step_of_eq fun b => ?_
  ext <;> simp [account, refs, owes, wrefs, dying, freeing] <;> grind

section Calls
variable {s s' : State T H W S V} {t : T} {c : Choice H V}

lemma assign_account {d : H} {r : Option ℕ} (ht : s.todo t = []) (hg : s.stage t = .assign d r)
    (h : s.advance t c (.assign d r) = some s') :
    ∀ b, RefCount.Step (s.account b) (s'.account b) := by
  simp only [advance] at h
  split at h
  · next hd =>
    cases h
    exact vacate_account ht hd
  · next hd =>
    cases h
    refine step_of_eq fun b => ?_
    ext <;> simp [account, refs, owes, wrefs, dying, freeing] <;> grind

lemma copy_account {d x : H} (ht : s.todo t = []) (hg : s.stage t = .copy d x)
    (h : s.advance t c (.copy d x) = some s') :
    ∀ b, RefCount.Step (s.account b) (s'.account b) := by
  simp only [advance] at h
  split at h
  · cases h
    exact setStage_account (by simp [hg, Stage.holds]) (by simp [hg, Stage.holdsWeak])
  split at h
  · next hd =>
    cases h
    exact vacate_account ht hd
  · next hd =>
    cases h
    refine retain_step (r := s.ptr (t,x)) (fun c => refs_pos_of_ptr) fun b => ?_
    cases hx : s.ptr (t,x) <;> ext <;>
      simp [account, refs, owes, wrefs, dying, freeing, share] <;> grind

lemma move_account {d x : H} (ht : s.todo t = []) (hg : s.stage t = .move d x)
    (h : s.advance t c (.move d x) = some s') :
    ∀ b, RefCount.Step (s.account b) (s'.account b) := by
  simp only [advance] at h
  split at h
  · cases h
    exact setStage_account (by simp [hg, Stage.holds]) (by simp [hg, Stage.holdsWeak])
  split at h
  · next hd =>
    cases h
    exact vacate_account ht hd
  · next hd =>
    cases h
    refine step_of_eq fun b => ?_
    ext <;> simp [account, refs, owes, wrefs, dying, freeing] <;> grind

lemma reset_account {d : H} (ht : s.todo t = []) (hg : s.stage t = .reset d)
    (h : s.advance t c (.reset d) = some s') :
    ∀ b, RefCount.Step (s.account b) (s'.account b) := by
  simp only [advance] at h
  split at h
  · next hd =>
    cases h
    exact vacate_account ht hd
  · cases h
    exact setStage_account (by simp [hg, Stage.holds]) (by simp [hg, Stage.holdsWeak])

omit [DecidableEq H] [DecidableEq W] [DecidableEq S] in
/-- Storing a new block in a stage that owned nothing. -/
lemma create_account {a : ℕ} {v : V} {g : Stage H W S V}
    (hg : ∀ b, g.holds b = (s.stage t).holds b + one b (some s.next))
    (hw : ∀ b, g.holdsWeak b = (s.stage t).holdsWeak b) :
    ∀ b, RefCount.Step (s.account b) (((s.create a v).setStage t g).account b) := by
  refine step_at s.next ?_ fun b hb => ?_
  · have he : ((s.create a v).setStage t g).account s.next =
        { s.account s.next with born := 1, strong := 1, weak := 1, refs := s.refs s.next + 1 } := by
      ext <;> simp [account, refs, owes, wrefs, dying, freeing, create] <;> grind
    exact he ▸ .create (by simp [account])
  · ext <;> simp [account, refs, owes, wrefs, dying, freeing, create] <;> grind

lemma make_account {d : H} {v : V} (hg : s.stage t = .make d v)
    (h : s.advance t c (.make d v) = some s') :
    ∀ b, RefCount.Step (s.account b) (s'.account b) := by
  simp only [advance] at h
  split at h
  · obtain ⟨-,rfl⟩ := guarded_eq_some.mp h
    exact create_account (by simp [hg, Stage.holds]) (by simp [hg, Stage.holdsWeak])
  · cases h

lemma weaken_account {w : W} {x : H} (hg : s.stage t = .weaken w x)
    (h : s.advance t c (.weaken w x) = some s') :
    ∀ b, RefCount.Step (s.account b) (s'.account b) := by
  cases h
  refine retainWeak_step (r := s.ptr (t,x)) (fun c hc => .inr (refs_pos_of_ptr hc)) fun b => ?_
  cases hx : s.ptr (t,x) <;> ext <;> simp [account, refs, owes, wrefs, dying, freeing] <;> grind

lemma assignWeak_account {w : W} {r : Option ℕ} (ht : s.todo t = [])
    (hg : s.stage t = .assignWeak w r) (h : s.advance t c (.assignWeak w r) = some s') :
    ∀ b, RefCount.Step (s.account b) (s'.account b) := by
  simp only [advance] at h
  split at h
  · next hw =>
    cases h
    exact vacateWeak_account ht hw
  · next hw =>
    cases h
    refine step_of_eq fun b => ?_
    ext <;> simp [account, refs, owes, wrefs, dying, freeing] <;> grind

lemma copyWeak_account {w x : W} (ht : s.todo t = []) (hg : s.stage t = .copyWeak w x)
    (h : s.advance t c (.copyWeak w x) = some s') :
    ∀ b, RefCount.Step (s.account b) (s'.account b) := by
  simp only [advance] at h
  split at h
  · cases h
    exact setStage_account (by simp [hg, Stage.holds]) (by simp [hg, Stage.holdsWeak])
  split at h
  · next hw =>
    cases h
    exact vacateWeak_account ht hw
  · next hw =>
    cases h
    refine retainWeak_step (r := s.wptr (t,x)) (fun c hc => .inl (wrefs_pos_of_wptr hc)) fun b => ?_
    cases hx : s.wptr (t,x) <;> ext <;> simp [account, refs, owes, wrefs, dying, freeing] <;> grind

lemma moveWeak_account {w x : W} (ht : s.todo t = []) (hg : s.stage t = .moveWeak w x)
    (h : s.advance t c (.moveWeak w x) = some s') :
    ∀ b, RefCount.Step (s.account b) (s'.account b) := by
  simp only [advance] at h
  split at h
  · cases h
    exact setStage_account (by simp [hg, Stage.holds]) (by simp [hg, Stage.holdsWeak])
  split at h
  · next hw =>
    cases h
    exact vacateWeak_account ht hw
  · next hw =>
    cases h
    refine step_of_eq fun b => ?_
    ext <;> simp [account, refs, owes, wrefs, dying, freeing] <;> grind

lemma resetWeak_account {w : W} (ht : s.todo t = []) (hg : s.stage t = .resetWeak w)
    (h : s.advance t c (.resetWeak w) = some s') :
    ∀ b, RefCount.Step (s.account b) (s'.account b) := by
  simp only [advance] at h
  split at h
  · next hw =>
    cases h
    exact vacateWeak_account ht hw
  · cases h
    exact setStage_account (by simp [hg, Stage.holds]) (by simp [hg, Stage.holdsWeak])

omit [DecidableEq H] [DecidableEq W] [DecidableEq S] in
/-- Reading the strong counter of a block changes no books. -/
lemma touch_account {b' : ℕ} {g : Stage H W S V} (hg : ∀ b, g.holds b = (s.stage t).holds b)
    (hw : ∀ b, g.holdsWeak b = (s.stage t).holdsWeak b) :
    ∀ b, RefCount.Step (s.account b) (((s.touch b').setStage t g).account b) :=
  setStage_account (s := s.touch b') hg hw

lemma upgrade_account {d : H} {w : W} (hg : s.stage t = .upgrade d w)
    (h : s.advance t c (.upgrade d w) = some s') :
    ∀ b, RefCount.Step (s.account b) (s'.account b) := by
  simp only [advance] at h
  split at h
  · cases h
    exact setStage_account (by simp [hg, Stage.holds, one]) (by simp [hg, Stage.holdsWeak])
  · cases h
    split_ifs
    · exact touch_account (by simp [hg, Stage.holds, one]) (by simp [hg, Stage.holdsWeak])
    · exact touch_account (by simp [hg, Stage.holds]) (by simp [hg, Stage.holdsWeak])

lemma upgradeLoop_account {d : H} {w : W} {n : ℕ} (hg : s.stage t = .upgradeLoop d w n)
    (hn : n ≠ 0) (hr : ∀ b, 0 < s.strong b → 0 < s.refs b)
    (h : s.advance t c (.upgradeLoop d w n) = some s') :
    ∀ b, RefCount.Step (s.account b) (s'.account b) := by
  simp only [advance] at h
  split at h
  · cases h
    exact step_of_eq fun b => rfl
  · next b' hw =>
    split at h
    · next hs =>
      cases h
      have hpos : 0 < s.strong b' := by
        rw [of_decide_eq_true hs]
        exact Nat.pos_of_ne_zero hn
      refine step_at b' ?_ fun b hb => ?_
      · have he : ((s.addStrong b').setStage t (.assign d (some b'))).account b' =
            { s.account b' with strong := s.strong b' + 1, refs := s.refs b' + 1 } := by
          ext <;> simp [account, refs, owes, wrefs, dying, freeing] <;> grind
        exact he ▸ .retain (hr b' hpos)
      · ext <;> simp [account, refs, owes, wrefs, dying, freeing] <;> grind
    · cases h
      split_ifs
      · exact touch_account (by simp [hg, Stage.holds, one]) (by simp [hg, Stage.holdsWeak])
      · exact touch_account (by simp [hg, Stage.holds]) (by simp [hg, Stage.holdsWeak])

lemma load_account {d : H} {x : S} (ht : s.todo t = []) (hg : s.stage t = .load d x)
    (h : s.advance t c (.load d x) = some s') :
    ∀ b, RefCount.Step (s.account b) (s'.account b) := by
  cases h
  refine lend_step (r := s.slot x) (fun c => refs_pos_of_slot) fun b => ?_
  cases hx : s.slot x <;> ext <;>
    simp [account, refs, owes, wrefs, dying, freeing, retains] <;> grind

lemma exchange_account {x : S} {a : H} {d : Option H} (ht : s.todo t = [])
    (hg : s.stage t = .exchange x a d) (h : s.advance t c (.exchange x a d) = some s') :
    ∀ b, RefCount.Step (s.account b) (s'.account b) := by
  cases h
  refine lend_step (r := s.ptr (t,a)) (fun c => refs_pos_of_ptr) fun b => ?_
  cases ha : s.ptr (t,a) <;> cases hx : s.slot x <;> cases d <;> ext <;>
    simp [account, refs, owes, wrefs, dying, freeing, swapped, retains, releases] <;> grind

lemma exchangeMove_account {x : S} {a : H} {d : Option H} (ht : s.todo t = [])
    (hg : s.stage t = .exchangeMove x a d) (h : s.advance t c (.exchangeMove x a d) = some s') :
    ∀ b, RefCount.Step (s.account b) (s'.account b) := by
  cases h
  refine step_of_eq fun b => ?_
  cases hx : s.slot x <;> cases d <;> ext <;>
    simp [account, refs, owes, wrefs, dying, freeing, swapped, retains, releases] <;> grind

lemma rcuLoad_account {u : Update S V} {d : H} {o n : Option ℕ} (ht : s.todo t = [])
    (hg : s.stage t = .rcuLoad u d o n) (h : s.advance t c (.rcuLoad u d o n) = some s') :
    ∀ b, RefCount.Step (s.account b) (s'.account b) := by
  cases h
  refine lend_step (r := s.slot u.target) (fun c => refs_pos_of_slot) fun b => ?_
  cases hx : s.slot u.target <;> cases o <;> cases n <;> ext <;>
    simp [account, refs, owes, wrefs, dying, freeing, retains, releases] <;> grind

lemma rcuApply_account {u : Update S V} {d : H} {o : Option ℕ} (hg : s.stage t = .rcuApply u d o)
    (h : s.advance t c (.rcuApply u d o) = some s') :
    ∀ b, RefCount.Step (s.account b) (s'.account b) := by
  have hold : ∀ e, o = some e → 0 < s.refs e := by
    intro e he
    exact refs_pos_of_stage (t := t) (by simp [hg, he, Stage.holds, one])
  obtain ⟨r,hr,rfl⟩ := Option.map_eq_some_iff.mp h
  cases c with
  | null =>
    cases hr
    exact setStage_account (by simp [hg, Stage.holds, one]) (by simp [hg, Stage.holdsWeak])
  | fresh v a =>
    obtain ⟨-,rfl⟩ := guarded_eq_some.mp hr
    exact create_account (by simp [hg, Stage.holds]) (by simp [hg, Stage.holdsWeak])
  | share x =>
    cases hr
    refine retain_step (r := s.ptr (t,x)) (fun e => refs_pos_of_ptr) fun b => ?_
    cases hx : s.ptr (t,x) <;> ext <;>
      simp [account, refs, owes, wrefs, dying, freeing, share] <;> grind
  | same =>
    cases hr
    refine retain_step (r := o) hold fun b => ?_
    cases o <;> ext <;> simp [account, refs, owes, wrefs, dying, freeing, share] <;> grind
  | _ => cases hr

lemma rcuExchange_account {u : Update S V} {d : H} {o n : Option ℕ} (ht : s.todo t = [])
    (hg : s.stage t = .rcuExchange u d o n)
    (heq : (s.slot u.target).map s.addr = o.map s.addr → s.slot u.target = o)
    (h : s.advance t c (.rcuExchange u d o n) = some s') :
    ∀ b, RefCount.Step (s.account b) (s'.account b) := by
  simp only [advance] at h
  split at h
  · next ha =>
    cases h
    have hx := heq (of_decide_eq_true ha)
    have hnew : ∀ e, n = some e → 0 < s.refs e := by
      intro e he
      exact refs_pos_of_stage (t := t) (by simp [hg, he, Stage.holds, one])
    refine lend_step (r := n) hnew fun b => ?_
    cases o <;> cases n <;> ext <;>
      simp [account, refs, owes, wrefs, dying, freeing, retains, releases] <;> grind
  · cases h
    exact setStage_account (by simp [hg, Stage.holds]) (by simp [hg, Stage.holdsWeak])

lemma rcuReturn_account {u : Update S V} {d : H} {n : Option ℕ} (ht : s.todo t = [])
    (hg : s.stage t = .rcuReturn u d n) (h : s.advance t c (.rcuReturn u d n) = some s') :
    ∀ b, RefCount.Step (s.account b) (s'.account b) := by
  simp only [advance] at h
  split at h
  · next hd =>
    cases h
    exact vacate_account ht hd
  · next hd =>
    cases h
    refine step_of_eq fun b => ?_
    ext <;> simp [account, refs, owes, wrefs, dying, freeing] <;> grind

end Calls

end State
end Asp.Ptr
