import Asp.Foundation.Machine
import Asp.Collections.Calls
import Asp.Collections.Move

/-! Any number of vector objects: what they construct, assign and destroy, and what holds of all
of them between the operations. -/
namespace Asp.Collections
open Asp.Foundation SmallVec
variable {α : Type} {N : ℕ}

/-- An operation on the vector objects of a program. -/
inductive Act (α : Type)
  | construct (v : ℕ)
  | copyConstruct (v other : ℕ)
  | moveConstruct (v other : ℕ)
  | copyAssign (v other : ℕ)
  | moveAssign (v other : ℕ)
  | destruct (v : ℕ)
  | call (v : ℕ) (op : Op α)

def Act.prog (N : ℕ) : Act α → VecM α Unit
  | construct v => SmallVec.construct N v
  | copyConstruct v other => SmallVec.copyConstruct N v other
  | moveConstruct v other => SmallVec.moveConstruct N v other
  | copyAssign v other => SmallVec.copyAssign N v other
  | moveAssign v other => SmallVec.moveAssign N v other
  | destruct v => SmallVec.destruct N v
  | call v op => op.call N v

/-- Every vector has its storage, and no two have any of it in common. -/
structure Valid (N : ℕ) (w : World α) : Prop where
  stored : ∀ v, w.alive v = true → Stored N w v
  gone : ∀ v, w.alive v = false → w.vec v = ⟨none, 0, N⟩
  apart : ∀ u v, w.alive u = true → u ≠ v → Foreign N w v (w.idata N u)
  budget : w.budget = none

/-- Besides, every vector holds elements, exactly these are live, and nothing was done wrong. -/
structure Clean (N : ℕ) (w : World α) : Prop extends Valid N w where
  holds : ∀ v, w.alive v = true → ∃ l, Holds N w v l
  faults : w.faults = []
  live : ∀ b i, (w.cell b i).isLive = true →
    ∃ v, w.alive v = true ∧ b = w.idata N v ∧ i < (w.vec v).m_size

lemma foreign_congr {w w' : World α} {u : ℕ} {b : Base} (hvec : w'.vec u = w.vec u)
    (hfresh : w.fresh ≤ w'.fresh) (h : Foreign N w u b) : Foreign N w' u b := by
  cases b with
  | inline _ => exact h
  | heap a =>
    refine ⟨h.1.trans_le hfresh, ?_⟩
    rw [World.isLarge, hvec]
    exact h.2
  | null => trivial

lemma foreign_gone {w : World α} {u v : ℕ} (hs : Stored N w v) (huv : v ≠ u)
    (hu : w.vec u = ⟨none, 0, N⟩) : Foreign N w u (w.idata N v) := by
  refine hs.foreign_iff_ne huv fun _ hl => ?_
  rw [World.isLarge, hu, decide_eq_true_iff] at hl
  exact absurd hl (Nat.lt_irrefl N)

/-- Two vectors that are stored are apart as soon as one is foreign to the other. -/
lemma foreign_symm {w : World α} {u v : ℕ} (hu : Stored N w u) (hv : Stored N w v) (huv : u ≠ v)
    (h : Foreign N w v (w.idata N u)) : Foreign N w u (w.idata N v) := by
  refine hv.foreign_iff_ne huv.symm fun hlv hlu he => ?_
  rcases hu.cases with ⟨hn, -⟩ | ⟨-, -, a, ha, -, -, hb⟩
  · rw [hlu] at hn
    cases hn
  · rw [hb] at h
    exact h.2 hlv (he.trans ha)

lemma idata_congr {w w' : World α} {u : ℕ} (hvec : w'.vec u = w.vec u) :
    w'.idata N u = w.idata N u := by
  unfold World.idata World.isLarge
  rw [hvec]

/-- The world before any vector exists is in order. -/
theorem clean_empty (N : ℕ) : Clean N (World.empty N α) where
  stored _ h := nomatch h
  gone _ _ := rfl
  apart _ _ h := nomatch h
  budget := rfl
  holds _ h := nomatch h
  faults := rfl
  live _ _ h := nomatch h

namespace Valid
variable {w w' : World α} {v : ℕ}

/-- An operation on `v` keeps the others in order. -/
theorem framed (h : Valid N w) (hl : Local N v w w') (hs : w'.alive v = true → Stored N w' v)
    (hg : w'.alive v = false → w'.vec v = ⟨none, 0, N⟩) : Valid N w' := by
  have hstored : ∀ u, w'.alive u = true → Stored N w' u := by
    intro u hu
    by_cases huv : u = v
    · subst huv
      exact hs hu
    · rw [hl.alive u huv] at hu
      exact hl.stored huv (h.stored u hu) (h.apart u v hu huv)
  have hgone : ∀ u, w'.alive u = false → w'.vec u = ⟨none, 0, N⟩ := by
    intro u hu
    by_cases huv : u = v
    · subst huv
      exact hg hu
    · rw [hl.alive u huv] at hu
      exact (hl.vec u huv).trans (h.gone u hu)
  have hother : ∀ u, u ≠ v → w'.alive u = true → Foreign N w' v (w'.idata N u) := by
    intro u huv hu
    rw [hl.alive u huv] at hu
    rw [hl.idata_eq huv]
    exact hl.foreign _ (h.apart u v hu huv)
  refine ⟨hstored, hgone, fun u u' hu huu => ?_, hl.budget.trans h.budget⟩
  by_cases hu' : u' = v
  · subst hu'
    exact hother u huu hu
  by_cases huv : u = v
  · subst huv
    cases ha : w'.alive u'
    · exact foreign_gone (hstored u hu) huu (hgone u' ha)
    · exact foreign_symm (hstored u' ha) (hstored u hu) huu.symm (hother u' huu.symm ha)
  · rw [hl.alive u huv] at hu
    rw [hl.idata_eq huv]
    exact foreign_congr (hl.vec u' hu') hl.fresh (h.apart u u' hu huu)

theorem does (h : Valid N w) {l : List α} {g : Prop} (hd : Does N v w w' l g) : Valid N w' :=
  h.framed hd.frame (fun _ => hd.holds.toStored) fun hn => by rw [hd.holds.alive] at hn; cases hn

/-- A move from `o` to `v` keeps all in order. -/
theorem moved (h : Valid N w) {o : ℕ} (hne : v ≠ o) {l : List α} {g : Prop}
    (hm : Moved N v o w w' l g) : Valid N w' := by
  have hstored : ∀ u, w'.alive u = true → Stored N w' u := by
    intro u hu
    by_cases huv : u = v
    · exact huv ▸ hm.holds.toStored
    by_cases huo : u = o
    · exact huo ▸ hm.source
    rw [hm.alive] at hu
    have hs := h.stored u hu
    refine ⟨hm.alive ▸ hu, ?_, ?_, ?_⟩ <;> rw [hm.vec u huv huo]
    · exact hs.small
    · exact hs.room
    rcases hs.cases with ⟨-, hc, -⟩ | ⟨-, hc, a, ha, hb, hlt, hd⟩
    · exact .inl hc
    · have hv := h.apart u v hu huv
      have ho := h.apart u o hu huo
      rw [hd] at hv ho
      exact .inr ⟨hc, a, ha, (hm.block a hv ho).trans hb, hlt.trans_le hm.fresh⟩
  have hgone : ∀ u, w'.alive u = false → w'.vec u = ⟨none, 0, N⟩ := by
    intro u hu
    have huv : u ≠ v := by
      rintro rfl
      rw [hm.holds.alive] at hu
      cases hu
    have huo : u ≠ o := by
      rintro rfl
      rw [hm.source.alive] at hu
      cases hu
    rw [hm.alive] at hu
    exact (hm.vec u huv huo).trans (h.gone u hu)
  have hother : ∀ u, u ≠ v → u ≠ o → w'.alive u = true →
      Foreign N w' v (w'.idata N u) ∧ Foreign N w' o (w'.idata N u) := by
    intro u huv huo hu
    rw [hm.alive] at hu
    rw [idata_congr (hm.vec u huv huo)]
    exact hm.foreign _ (h.apart u v hu huv) (h.apart u o hu huo)
  have hpair : ∀ u, (u = v ∨ u = o) → w'.alive u = true → ∀ u', u ≠ u' →
      Foreign N w' u' (w'.idata N u) := by
    intro u huvo hu u' huu
    cases ha : w'.alive u'
    · exact foreign_gone (hstored u hu) huu (hgone u' ha)
    by_cases hu' : u' = v ∨ u' = o
    · rcases huvo with rfl | rfl <;> rcases hu' with rfl | rfl
      · exact absurd rfl huu
      · exact foreign_symm hm.source hm.holds.toStored huu.symm hm.apart
      · exact hm.apart
      · exact absurd rfl huu
    · have hf := hother u' (fun he => hu' (.inl he)) (fun he => hu' (.inr he)) ha
      rcases huvo with rfl | rfl
      · exact foreign_symm (hstored u' ha) (hstored u hu) huu.symm hf.1
      · exact foreign_symm (hstored u' ha) (hstored u hu) huu.symm hf.2
  refine ⟨hstored, hgone, fun u u' hu huu => ?_, hm.budget.trans h.budget⟩
  by_cases huvo : u = v ∨ u = o
  · exact hpair u huvo hu u' huu
  have huv : u ≠ v := fun he => huvo (.inl he)
  have huo : u ≠ o := fun he => huvo (.inr he)
  by_cases hv : u' = v
  · exact hv ▸ (hother u huv huo hu).1
  by_cases ho : u' = o
  · exact ho ▸ (hother u huv huo hu).2
  rw [hm.alive] at hu
  rw [idata_congr (hm.vec u huv huo)]
  exact foreign_congr (hm.vec u' hv ho) hm.fresh (h.apart u u' hu huu)

/-- A move leaves the elements of the other vectors alone. -/
theorem moved_holds (h : Valid N w) {o : ℕ} (hne : v ≠ o) {l l' : List α} {g : Prop}
    (hm : Moved N v o w w' l g) {u : ℕ} (huv : u ≠ v) (huo : u ≠ o) (hu : Holds N w u l') :
    Holds N w' u l' := by
  refine ⟨(h.moved hne hm).stored u (hm.alive ▸ hu.alive), ?_, fun i a hi => ?_⟩
  · rw [hm.vec u huv huo]
    exact hu.size
  · rw [idata_congr (hm.vec u huv huo),
      hm.cell _ (h.apart u v hu.alive huv) (h.apart u o hu.alive huo)]
    exact hu.cells i a hi

end Valid

namespace Clean
variable {w w' : World α} {v : ℕ}

theorem tidy (h : Clean N w) (v : ℕ) : Tidy N w v := by
  intro b hb i hi
  obtain ⟨u, hu, rfl, hlt⟩ := h.live b i hi
  obtain rfl : u = v := by
    by_contra huv
    exact hb (h.apart u v hu huv)
  exact ⟨rfl, hlt⟩

lemma all_live (h : Clean N w) (hv : w.alive v = true) :
    ∀ i < (w.vec v).m_size, (w.cell (w.idata N v) i).isLive = true := by
  intro i hi
  obtain ⟨l, hl⟩ := h.holds v hv
  obtain ⟨x, hx⟩ := hl.cell_eq hi
  rw [hx]
  rfl

/-- An operation on `v` that handles lifetimes properly keeps all in order. -/
theorem effect (h : Clean N w) {g : Prop} (he : Effect N v w w' g) (hg : g)
    (hs : w'.alive v = true → ∃ l, Holds N w' v l)
    (hgone : w'.alive v = false → w'.vec v = ⟨none, 0, N⟩) : Clean N w' where
  toValid := h.toValid.framed he.frame (fun hv => by
    obtain ⟨l, hl⟩ := hs hv
    exact hl.toStored) hgone
  holds u hu := by
    by_cases huv : u = v
    · subst huv
      exact hs hu
    · rw [he.frame.alive u huv] at hu
      obtain ⟨l, hl⟩ := h.holds u hu
      exact ⟨l, he.frame.holds huv hl (h.apart u v hu huv)⟩
  faults := by
    obtain ⟨f, hf, -, hn⟩ := he.faults
    rw [hf, hn hg (h.tidy v), h.faults]
    rfl
  live b i hi := by
    by_cases hb : Foreign N w v b
    · rw [he.frame.cell b hb] at hi
      obtain ⟨u, hu, rfl, hlt⟩ := h.live b i hi
      have huv : u ≠ v := by
        rintro rfl
        exact (h.stored u hu).not_foreign_idata hb
      refine ⟨u, (he.frame.alive u huv).trans hu, (he.frame.idata_eq huv).symm, ?_⟩
      rwa [he.frame.vec u huv]
    · obtain ⟨hd, hlt⟩ := he.tidy hg (h.tidy v) b hb i hi
      refine ⟨v, ?_, hd, hlt⟩
      by_contra hv
      rw [hgone (Bool.eq_false_iff.mpr hv)] at hlt
      exact Nat.not_lt_zero i hlt

theorem does (h : Clean N w) {l : List α} {g : Prop} (hd : Does N v w w' l g) (hg : g) :
    Clean N w' :=
  h.effect hd.toEffect hg (fun _ => ⟨l, hd.holds⟩) fun hn => by rw [hd.holds.alive] at hn; cases hn

/-- So does a move whose source is empty afterwards. -/
theorem moved (h : Clean N w) {o : ℕ} (hne : v ≠ o) {l : List α} {g : Prop}
    (hm : Moved N v o w w' l g) (hg : g) (hsize : (w'.vec o).m_size = 0) : Clean N w' where
  toValid := h.toValid.moved hne hm
  holds u hu := by
    by_cases huv : u = v
    · exact ⟨l, huv ▸ hm.holds⟩
    by_cases huo : u = o
    · subst huo
      exact ⟨[], hm.source, hsize, nofun⟩
    rw [hm.alive] at hu
    obtain ⟨l', hl'⟩ := h.holds u hu
    exact ⟨l', h.toValid.moved_holds hne hm huv huo hl'⟩
  faults := by
    obtain ⟨f, hf, -, hn⟩ := hm.faults
    rw [hf, hn ⟨hg, h.tidy v, h.tidy o⟩, h.faults]
    rfl
  live b i hi := by
    by_cases hb : Foreign N w v b ∧ Foreign N w o b
    · rw [hm.cell b hb.1 hb.2] at hi
      obtain ⟨u, hu, rfl, hlt⟩ := h.live b i hi
      have huv : u ≠ v := by
        rintro rfl
        exact (h.stored u hu).not_foreign_idata hb.1
      have huo : u ≠ o := by
        rintro rfl
        exact (h.stored u hu).not_foreign_idata hb.2
      refine ⟨u, hm.alive ▸ hu, (idata_congr (hm.vec u huv huo)).symm, ?_⟩
      rwa [hm.vec u huv huo]
    · obtain ⟨hd, hlt⟩ := hm.tidy hg (h.tidy v) (h.tidy o) b hb i hi
      exact ⟨v, hm.holds.alive, hd, hm.holds.size ▸ hlt⟩

end Clean

/-! What the special members do among the other vectors -/
section Specials
variable {w : World α} {v o : ℕ} {l : List α}

theorem wp_copyConstruct (hw : Valid N w) (hv : w.alive v = false) (h : Holds N w o l) :
    Prog.wp (copyConstruct N v o) (fun _ w' => Does N v w w' l True) Prog.never w := by
  have hne : v ≠ o := by
    rintro rfl
    rw [h.alive] at hv
    cases hv
  rw [copyConstruct, Prog.wp_bind]
  apply (wp_construct (hw.gone v hv)).then
  intro _ w₁ hd
  have hw₁ := hw.does hd
  have h₁ := hd.frame.holds hne.symm h (hw.apart o v h.alive hne.symm)
  apply (wp_copyAssign hd.holds.toStored h₁ hne (hw₁.apart o v h₁.alive hne.symm) hw₁.budget).then
  intro _ w' hd'
  refine (hd.trans hd').weaken fun _ => ⟨trivial, fun i hi => ?_⟩
  rw [hd.holds.size] at hi
  exact absurd hi (Nat.not_lt_zero i)

/-- The new vector is first empty. -/
theorem wp_moveConstruct (hw : Valid N w) (hv : w.alive v = false) (h : Holds N w o l) :
    Prog.wp (moveConstruct N v o) (fun _ w' => ∃ w₁, Does N v w w₁ [] True ∧
      Moved N v o w₁ w' l True) Prog.never w := by
  have hne : v ≠ o := by
    rintro rfl
    rw [h.alive] at hv
    cases hv
  rw [moveConstruct, Prog.wp_bind]
  apply (wp_construct (hw.gone v hv)).then
  intro _ w₁ hd
  have hw₁ := hw.does hd
  have h₁ := hd.frame.holds hne.symm h (hw.apart o v h.alive hne.symm)
  apply (wp_moveAssign hne hd.holds.toStored h₁ (hw₁.apart o v h₁.alive hne.symm)).then
  intro _ w' hm
  refine ⟨w₁, hd, hm.weaken fun _ i hi => ?_⟩
  rw [hd.holds.size] at hi
  exact absurd hi (Nat.not_lt_zero i)

end Specials
end Asp.Collections
