import Asp.Ptr.Soundness

/-! Memory safety of `PtrSwap`: which runs are safe, and a run that is not. -/
namespace Asp.Ptr
open Foundation

namespace State
variable {T H W S V : Type*}

/-- No freed block has been touched, and no SharedPtr, PtrSwap or call in progress refers to
destroyed data. -/
def Safe (s : State T H W S V) : Prop :=
  s.fault = false ∧ ∀ b, 0 < s.dtors b → (∀ x, s.slot x ≠ some b) ∧ (∀ k, s.ptr k ≠ some b) ∧
    ∀ t, (s.stage t).holds b = 0 ∧ .release b ∉ s.todo t

variable [Fintype T] [Fintype H] [Fintype W] [Fintype S]

lemma Sound.safe {s : State T H W S V} (h : s.Sound) : s.Safe := by
  refine ⟨h.clean,fun b hb => ?_⟩
  have hr : s.refs b = 0 := (h.balanced b).refs_eq_zero hb
  refine ⟨fun x hx => ?_,fun k hk => ?_,fun t => ⟨?_,fun ht => ?_⟩⟩
  · exact (refs_pos_of_slot hx).ne' hr
  · exact (refs_pos_of_ptr hk).ne' hr
  · by_contra hh
    exact (refs_pos_of_stage (Nat.pos_of_ne_zero hh)).ne' hr
  · exact (refs_pos_of_todo ht).ne' hr

end State

variable {T H W S V : Type*} [Fintype T] [Fintype H] [Fintype W] [Fintype S]
variable [DecidableEq T] [DecidableEq H] [DecidableEq W] [DecidableEq S]

/-- Runs are memory safe as long as the last counted reference to a block is not released while
a thread stands between reading or storing its address and incrementing its counter. -/
theorem guarded_run_safe (s : State T H W S V)
    (h : machine.Reaches State.ReleaseGuard (init T H W S V) s) : s.Safe :=
  (State.reaches_sound h).safe

/-- A block is stored, loaded by the other thread, replaced, and destroyed with the handle. -/
theorem guarded_run_safe_example :
    ∃ s : State (Fin 2) Unit Unit Unit ℕ,
      machine.Reaches State.ReleaseGuard (init (Fin 2) Unit Unit Unit ℕ) s ∧ s.dtors 0 = 1 ∧
        s.Safe := by
  let go (t : Fin 2) : Action (Fin 2) Unit Unit Unit ℕ := .step t .go
  let acts : List (Action (Fin 2) Unit Unit Unit ℕ) :=
    [.start 0 (.makeShared () 7),.step 0 (.alloc 100),go 0,.start 0 (.storeMove () ()),go 0,
      .start 1 (.load () ()),go 1,go 1,go 1,.start 0 (.storeMove () ()),go 0,go 0,
      .start 1 (.reset ()),go 1,go 1,go 1,go 1,go 1,go 1]
  have hrun : (machine.runGuarded State.ReleaseGuard (init (Fin 2) Unit Unit Unit ℕ) acts).map
      (fun s => s.dtors 0) = some 1 := by decide
  obtain ⟨s,hs,hd⟩ := Option.map_eq_some_iff.mp hrun
  have h := Machine.reaches_of_runGuarded hs
  exact ⟨s,h,hd,guarded_run_safe s h⟩

/-- One thread reads the address of the stored block, the other one replaces the block and
releases it, and the first one increments the counter of freed memory. -/
theorem load_races_release :
    ¬ ∀ s : State (Fin 2) Unit Unit Unit ℕ,
      machine.Reaches (fun _ _ => True) (init (Fin 2) Unit Unit Unit ℕ) s → s.Safe := by
  intro h
  let go (t : Fin 2) : Action (Fin 2) Unit Unit Unit ℕ := .step t .go
  let acts : List (Action (Fin 2) Unit Unit Unit ℕ) :=
    [.start 0 (.makeShared () 7),.step 0 (.alloc 100),go 0,.start 0 (.storeMove () ()),go 0,
      .start 1 (.load () ()),go 1,.start 0 (.storeMove () ()),go 0,go 0,go 0,go 0,go 0,go 1]
  have hrun : (machine.run (init (Fin 2) Unit Unit Unit ℕ) acts).map (fun s => s.fault) =
      some true := by decide
  obtain ⟨s,hs,hf⟩ := Option.map_eq_some_iff.mp hrun
  have hsafe := (h s (Machine.reaches_of_run hs)).1
  rw [hf] at hsafe
  cases hsafe

omit [Fintype W] [DecidableEq H] [DecidableEq W] [DecidableEq S] in
lemma release_refs {s : State T H W S V} {t : T} {b : ℕ} {rest : List Micro}
    (ht : s.todo t = .release b :: rest) : (s.micro t rest (.release b)).refs b + 1 = s.refs b := by
  simp [State.micro, State.refs]
  grind

omit [Fintype W] [DecidableEq H] [DecidableEq W] [DecidableEq S] in
lemma destroyData_refs {s : State T H W S V} {t : T} {b : ℕ} {rest : List Micro}
    (ht : s.todo t = .destroyData b :: rest) :
    (s.micro t rest (.destroyData b)).refs b = s.refs b := by
  simp [State.micro, State.refs]
  grind

/-- The guard is exact: when it fails, the releasing thread goes on to destroy data that a
SharedPtr, a PtrSwap or a call in progress still refers to. -/
theorem unguarded_release_dangles {s : State T H W S V} {t : T} {c : Choice H V} (h : s.Sound)
    (hg : ¬ s.ReleaseGuard (.step t c)) :
    ∃ s' b, machine.run s [.step t c,.step t c] = some s' ∧ 0 < s'.dtors b ∧ 0 < s'.refs b := by
  change ¬ s.ReleaseSafe (s.todo t) at hg
  unfold State.ReleaseSafe at hg
  split at hg
  · next b rest ht =>
    push Not at hg
    obtain ⟨h1,t',ht'⟩ := hg
    have hrefs : 1 < s.refs b := by
      have hb := (h.balanced b).strong_eq
      have ho : 0 < s.owes b := State.tally_count_pos ht'
      simp only [State.account] at hb
      omega
    let s₁ := s.micro t rest (.release b)
    have ht₁ : s₁.todo t = .destroyData b :: rest := by simp [s₁, State.micro, h1]
    let s₂ := s₁.micro t rest (.destroyData b)
    have hs₁ : machine.step s (.step t c) = some s₁ := by simp [machine, State.step, ht, s₁]
    have hs₂ : machine.step s₁ (.step t c) = some s₂ := by simp [machine, State.step, ht₁, s₂]
    refine ⟨s₂,b,?_,by simp [s₂, State.micro],?_⟩
    · rw [Machine.run_cons, hs₁, Option.bind_some, Machine.run_cons, hs₂, Option.bind_some,
        Machine.run_nil]
    · have hr₁ : s₁.refs b + 1 = s.refs b := release_refs ht
      have hr₂ : s₂.refs b = s₁.refs b := destroyData_refs ht₁
      omega
  · exact absurd trivial hg

end Asp.Ptr
