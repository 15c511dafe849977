import Asp.Collections.Objects

/-! Runs of operations on vectors, and the lifetimes of the elements in them: proper as long as
no shift meets a slot that it has emptied itself. -/
namespace Asp.Collections
open Asp.Foundation SmallVec
variable {α : Type} {N : ℕ}

namespace Act

/-- The vectors that the operation needs exist, and its positions are in range. -/
def Enabled (w : World α) : Act α → Prop
  | construct v => w.alive v = false
  | copyConstruct v other | moveConstruct v other => w.alive v = false ∧ w.alive other = true
  | copyAssign v other | moveAssign v other => w.alive v = true ∧ w.alive other = true
  | destruct v => w.alive v = true
  | call v op => w.alive v = true ∧ op.Legal (w.vec v).m_size

instance (w : World α) : ∀ a : Act α, Decidable (a.Enabled w)
  | construct _ | destruct _ => inferInstanceAs (Decidable (_ = _))
  | copyConstruct _ _ | moveConstruct _ _ | copyAssign _ _ | moveAssign _ _ =>
    inferInstanceAs (Decidable (_ ∧ _))
  | call _ _ => inferInstanceAs (Decidable (_ ∧ _))

/-- A move leaves its source empty. -/
def Empties (N : ℕ) (w : World α) (other : ℕ) : Prop :=
  w.isLarge N other = true ∨ (w.vec other).m_size = 0

instance (w : World α) (other : ℕ) : Decidable (Empties N w other) :=
  inferInstanceAs (Decidable (_ ∨ _))

/-- The operation handles lifetimes properly. -/
def Proper (N : ℕ) (w : World α) : Act α → Prop
  | construct _ | copyConstruct _ _ | copyAssign _ _ | destruct _ => True
  | moveConstruct _ other => Empties N w other
  | moveAssign v other => v = other ∨ Empties N w other
  | call v op => op.Proper (w.vec v).m_size

instance (w : World α) : ∀ a : Act α, Decidable (a.Proper N w)
  | construct _ | copyConstruct _ _ | copyAssign _ _ | destruct _ => .isTrue trivial
  | moveConstruct _ _ => inferInstanceAs (Decidable (Empties _ _ _))
  | moveAssign _ _ => inferInstanceAs (Decidable (_ ∨ _))
  | call _ op => inferInstanceAs (Decidable (op.Proper _))

end Act

/-- The program with its vectors; an operation that throws ends in the state it has reached. -/
def vectors (α : Type) (N : ℕ) : Machine (World α) (Act α) where
  step w a := guarded (a.Enabled w) (a.prog N w).2

/-- Every slot was used as its state allows, and exactly the elements of the vectors are live. -/
def LifetimesKept (N : ℕ) (w : World α) : Prop :=
  w.faults = [] ∧ ∀ b i, (w.cell b i).isLive = true ↔
    ∃ v, w.alive v = true ∧ b = w.idata N v ∧ i < (w.vec v).m_size

theorem Clean.lifetimesKept {w : World α} (h : Clean N w) : LifetimesKept N w := by
  refine ⟨h.faults, fun b i => ⟨h.live b i, ?_⟩⟩
  rintro ⟨v, hv, rfl, hi⟩
  exact h.all_live hv i hi

lemma Clean.moved_empties {w w' : World α} (h : Clean N w) {v o : ℕ} (hne : v ≠ o) {l : List α}
    {g : Prop} (hm : Moved N v o w w' l g) (hg : g) (he : Act.Empties N w o) : Clean N w' := by
  apply h.moved hne hm hg
  cases hl : w.isLarge N o
  · rw [hm.kept hl]
    rcases he with he | he
    · rw [hl] at he
      cases he
    · exact he
  · rw [hm.emptied hl]

/-- A single operation that is proper keeps everything in order. -/
theorem clean_prog {w : World α} (h : Clean N w) (a : Act α) (ha : a.Enabled w)
    (hp : a.Proper N w) : Prog.wp (a.prog N) (fun _ => Clean N) (fun _ => Clean N) w := by
  cases a with
  | construct v => exact (wp_construct (h.gone v ha)).then fun _ _ hd => h.does hd trivial
  | copyConstruct v other =>
    obtain ⟨l, hl⟩ := h.holds other ha.2
    exact (wp_copyConstruct h.toValid ha.1 hl).then fun _ _ hd => h.does hd trivial
  | moveConstruct v other =>
    obtain ⟨l, hl⟩ := h.holds other ha.2
    have hne : v ≠ other := by
      rintro rfl
      cases ha.1.symm.trans ha.2
    apply (wp_moveConstruct h.toValid ha.1 hl).then
    rintro _ w' ⟨w₁, hd, hm⟩
    apply (h.does hd trivial).moved_empties hne hm trivial
    unfold Act.Empties World.isLarge
    rw [hd.frame.vec other hne.symm]
    exact hp
  | copyAssign v other =>
    by_cases hne : v = other
    · subst hne
      exact wp_copyAssign_self h
    · obtain ⟨l, hl⟩ := h.holds other ha.2
      exact (wp_copyAssign (h.stored v ha.1) hl hne (h.apart other v ha.2 (Ne.symm hne))
        h.budget).then fun _ _ hd => h.does hd (h.all_live ha.1)
  | moveAssign v other =>
    by_cases hne : v = other
    · subst hne
      exact wp_moveAssign_self h
    · obtain ⟨l, hl⟩ := h.holds other ha.2
      exact (wp_moveAssign hne (h.stored v ha.1) hl (h.apart other v ha.2 (Ne.symm hne))).then
        fun _ _ hm => h.moved_empties hne hm (h.all_live ha.1) (hp.resolve_left hne)
  | destruct v =>
    apply (wp_destruct (h.stored v ha)).then
    rintro _ w' ⟨he, hdead, hvec⟩
    refine h.effect he (h.all_live ha) (fun hv => ?_) fun _ => hvec
    rw [hdead] at hv
    cases hv
  | call v op =>
    obtain ⟨l, hl⟩ := h.holds v ha.1
    have hlegal := ha.2
    change op.Proper (w.vec v).m_size at hp
    rw [hl.size] at hlegal hp
    apply (call_spec hl h.budget op hlegal).mono
    · rintro _ w' ⟨l', -, hd⟩
      exact h.does hd hp
    · rintro _ w' ⟨rfl, -⟩
      exact h

/-- Everything stays in order in a run of proper operations. -/
theorem clean_of_reaches {w w' : World α} (hw : Clean N w)
    (h : (vectors α N).Reaches (Act.Proper N) w w') : Clean N w' := by
  apply h.invariant (Clean N) hw
  intro u a u' hu hg hs
  obtain ⟨ha, rfl⟩ := guarded_eq_some.mp hs
  exact (clean_prog hu a ha hg).state

/-- Lifetimes are kept in every run in which an insertion moves no more elements than it makes
room for, an erasure moves as many as it erases, and a move leaves its source empty. -/
theorem guarded_run_lifetimesKept (N : ℕ) {w : World α}
    (h : (vectors α N).Reaches (Act.Proper N) (World.empty N α) w) : LifetimesKept N w :=
  (clean_of_reaches (clean_empty N) h).lifetimesKept

/-- A vector that grows, and loses an element from its middle. -/
def growAndErase : List (Act ℕ) :=
  [.construct 0, .call 0 (.push_back 10), .call 0 (.push_back 20), .call 0 (.emplace_back 30),
    .call 0 (.insertCount 2 2 40), .call 0 (.insertRange 5 [50]), .call 0 (.eraseRange 2 4),
    .construct 1, .copyAssign 1 0, .call 1 .pop_back, .call 0 .clear, .destruct 0]

theorem guarded_run_lifetimesKept_example :
    ∃ w, (vectors ℕ 2).runGuarded (Act.Proper 2) (World.empty 2 ℕ) growAndErase = some w ∧
      LifetimesKept 2 w := by
  have h : ((vectors ℕ 2).runGuarded (Act.Proper 2) (World.empty 2 ℕ) growAndErase).isSome = true := by
    decide +kernel
  obtain ⟨w, hw⟩ := Option.isSome_iff_exists.mp h
  exact ⟨w, hw, guarded_run_lifetimesKept 2 (Machine.reaches_of_runGuarded hw)⟩

/-- Three elements, and one inserted before them: the second and the third are moved to the
right, and what was in their slots is destroyed once more. -/
theorem insert_destroys_twice :
    ¬ ∀ (as : List (Act ℕ)) (w : World ℕ),
      (vectors ℕ 4).run (World.empty 4 ℕ) as = some w → LifetimesKept 4 w := by
  intro h
  have hr : ((vectors ℕ 4).run (World.empty 4 ℕ) [.construct 0, .call 0 (.push_back 1),
      .call 0 (.push_back 2), .call 0 (.push_back 3), .call 0 (.insert 0 9)]).map (·.faults) =
      some [.destroyDead, .destroyDead] := by decide +kernel
  obtain ⟨w, hw, hf⟩ := Option.map_eq_some_iff.mp hr
  rw [(h _ w hw).1] at hf
  cases hf

end Asp.Collections
