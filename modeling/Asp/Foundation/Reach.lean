import Mathlib.Data.Fintype.Card
import Mathlib.Data.Nat.Notation
import Mathlib.Logic.Relation

/-! Pointers to nodes, some of them outside of the nodes (the roots) and others inside: which
nodes are reached from the roots, and what becomes of that when a pointer is moved on. -/
namespace Asp.Foundation
variable {R B : Type*}

/-- Where a pointer stands. -/
inductive Place (R B : Type*)
  | outside (r : R)
  | inside (b : B) (i : ℕ)
  deriving DecidableEq

/-- `P q d` says that the pointer at q points at d. -/
inductive Reached (P : Place R B → B → Prop) : B → Prop
  | outside {r : R} {d : B} (h : P (.outside r) d) : Reached P d
  | inside {c : B} {i : ℕ} {d : B} (hc : Reached P c) (h : P (.inside c i) d) : Reached P d

/-- The node c has a pointer to d. -/
def Edge (P : Place R B → B → Prop) (c d : B) : Prop := ∃ i, P (.inside c i) d

def Acyclic (P : Place R B → B → Prop) : Prop := ∀ b, ¬Relation.TransGen (Edge P) b b

variable {P P' : Place R B → B → Prop} {p : Place R B} {b : B} {i : ℕ}

lemma Acyclic.wellFounded [Finite B] (h : Acyclic P) : WellFounded (Edge P) := by
  have htrans : IsTrans B (Relation.TransGen (Edge P)) := ⟨fun _ _ _ => Relation.TransGen.trans⟩
  have hirrefl : Std.Irrefl (Relation.TransGen (Edge P)) := ⟨h⟩
  exact Subrelation.wf Relation.TransGen.single
    (Finite.wellFounded_of_trans_of_irrefl (Relation.TransGen (Edge P)))

/-- Pointers that all go upwards make no cycle. -/
lemma acyclic_of_rank (rank : B → ℕ) (h : ∀ c d, Edge P c d → rank c < rank d) : Acyclic P := by
  have hup : ∀ c d, Relation.TransGen (Edge P) c d → rank c < rank d := by
    intro c d hcd
    induction hcd with
    | single hd => exact h c _ hd
    | tail _ hd ih => exact ih.trans (h _ _ hd)
  exact fun b hb => absurd (hup b b hb) (lt_irrefl _)

/-- Among finitely many nodes without a cycle, those that something points at are reached, if
nothing but such nodes points at them. -/
theorem Acyclic.reached [Finite B] (h : Acyclic P) {A : B → Prop}
    (hsource : ∀ b, A b → ∃ q, P q b ∧ ∀ c j, q = .inside c j → A c) (b : B) (hb : A b) :
    Reached P b := by
  induction b using h.wellFounded.induction with
  | h b ih =>
    obtain ⟨q,hq,hin⟩ := hsource b hb
    cases q with
    | outside r => exact .outside hq
    | inside c j => exact .inside (ih c ⟨j,hq⟩ (hin c j rfl)) hq

/-- In `P'` the pointer at p, which points at b in `P`, points where the i-th one inside b did.
That one may be gone; all others are as they were. -/
structure MovedOn (P P' : Place R B → B → Prop) (p : Place R B) (b : B) (i : ℕ) : Prop where
  acyclic : Acyclic P
  at_p : ∀ d, P p d ↔ d = b
  next : ∀ d, P (.inside b i) d → P' p d
  keeps : ∀ q d, q ≠ p → q ≠ .inside b i → P q d → P' q d
  shared : ∃ q, q ≠ p ∧ P q b
  live : ∀ c j d, P (.inside c j) d → Reached P c

namespace MovedOn

/-- What leads to b does not come from b. -/
lemma not_below (h : MovedOn P P' p b i) {c : B} (hc : Edge P c b) :
    ¬Relation.ReflTransGen (Edge P) b c := fun hbc => h.acyclic b (Relation.TransGen.tail' hbc hc)

/-- What is not below b is reached as before. -/
lemma reached_of_not_below (h : MovedOn P P' p b i) {c : B} (hc : Reached P c)
    (hbc : ¬Relation.ReflTransGen (Edge P) b c) : Reached P' c := by
  induction hc with
  | @outside r d hd =>
    refine .outside (h.keeps _ d ?_ (by rintro ⟨⟩) hd)
    rintro rfl
    exact hbc ((h.at_p d).mp hd ▸ Relation.ReflTransGen.refl)
  | @inside c j d hc hd ih =>
    have hbc' : ¬Relation.ReflTransGen (Edge P) b c := fun hp => hbc (hp.tail ⟨j,hd⟩)
    refine .inside (ih hbc') (h.keeps _ d ?_ ?_ hd)
    · rintro rfl
      exact hbc ((h.at_p d).mp hd ▸ Relation.ReflTransGen.refl)
    · rintro ⟨⟩
      exact hbc' Relation.ReflTransGen.refl

/-- The node that p has left has another pointer to it. -/
lemma reached_node (h : MovedOn P P' p b i) : Reached P' b := by
  obtain ⟨q,hne,hq⟩ := h.shared
  cases q with
  | outside r => exact .outside (h.keeps _ b hne (by rintro ⟨⟩) hq)
  | inside c j =>
    have hbc := h.not_below ⟨j,hq⟩
    refine .inside (h.reached_of_not_below (h.live c j b hq) hbc) (h.keeps _ b hne ?_ hq)
    rintro ⟨⟩
    exact hbc Relation.ReflTransGen.refl

lemma reached_next (h : MovedOn P P' p b i) {d : B} (hd : P (.inside b i) d) : Reached P' d := by
  have hp := h.next d hd
  have hb := (h.at_p b).mpr rfl
  cases p with
  | outside r => exact .outside hp
  | inside c j => exact .inside (h.reached_of_not_below (h.live c j b hb) (h.not_below ⟨j,hb⟩)) hp

/-- Nothing is lost. -/
theorem reached (h : MovedOn P P' p b i) {d : B}
    (hd : Reached P d) : Reached P' d := by
  induction hd with
  | @outside r d hd =>
    by_cases hp : Place.outside r = p
    · rw [(h.at_p d).mp (hp ▸ hd)]
      exact h.reached_node
    · exact .outside (h.keeps _ d hp (by rintro ⟨⟩) hd)
  | @inside c j d hc hd ih =>
    by_cases hp : Place.inside c j = p
    · rw [(h.at_p d).mp (hp ▸ hd)]
      exact h.reached_node
    by_cases hn : (Place.inside c j : Place R B) = .inside b i
    · exact h.reached_next (hn ▸ hd)
    · exact .inside ih (h.keeps _ d hp hn hd)

end MovedOn
end Asp.Foundation
