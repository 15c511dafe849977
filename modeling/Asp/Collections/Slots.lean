import Asp.Collections.Layout

/-! The operations on one slot of allocated storage: when they are proper, and the loop that
moves the elements into other storage. -/
namespace Asp.Collections
open Asp.Foundation
variable {α : Type} {N : ℕ}

/-- Faults of the use of slots only, and none of them where `g` holds. -/
def Harmless (g : Prop) (f : List Fault) : Prop := (∀ e ∈ f, e.isLifetime = true) ∧ (g → f = [])

lemma Harmless.nil (g : Prop) : Harmless g [] := ⟨fun _ he => (List.not_mem_nil he).elim, fun _ => rfl⟩

lemma Harmless.append {g g' g'' : Prop} {f f' : List Fault} (h : Harmless g f) (h' : Harmless g' f')
    (hg : g'' → g ∧ g') : Harmless g'' (f ++ f') := by
  constructor
  · intro e he
    rcases List.mem_append.mp he with he | he
    · exact h.1 e he
    · exact h'.1 e he
  · intro hg'
    rw [h.2 (hg hg').1, h'.2 (hg hg').2]
    rfl

lemma Harmless.weaken {g g' : Prop} {f : List Fault} (h : Harmless g f) (hg : g' → g) :
    Harmless g' f := ⟨h.1, fun hg' => h.2 (hg hg')⟩

lemma harmless_faultUnless {ok : Bool} {e : Fault} (he : e.isLifetime = true) :
    Harmless (ok = true) (faultUnless ok e) := by
  cases ok
  · refine ⟨fun e' h => ?_, nofun⟩
    rw [List.mem_singleton.mp h]
    exact he
  · exact Harmless.nil _

/-- `init` into any slot of an allocated array. -/
lemma wp_init {w : World α} {b : Base} {i : ℕ} (x : Option α) (hb : w.inBounds N b i = true)
    {E : Err → World α → Prop} {Q : Unit → World α → Prop}
    (h : ∀ f, Harmless ((w.cell b i).isLive = false) f →
      Q () (w.edit b (Function.update (w.cell b) i (.live x)) f)) :
    Prog.wp (init N b i x) Q E w := by
  change Q () (w.edit b (Function.update (w.cell b) i (.live x))
    (faultUnless (w.inBounds N b i) .outOfBounds ++ faultUnless (!(w.cell b i).isLive) .initLive))
  rw [hb]
  apply h
  exact (harmless_faultUnless rfl).weaken fun hl => by rw [hl]; rfl

/-- `destroy` on any slot of an allocated array. -/
lemma wp_destroy {w : World α} {b : Base} {i : ℕ} (hb : w.inBounds N b i = true)
    {E : Err → World α → Prop} {Q : Unit → World α → Prop}
    (h : ∀ f, Harmless ((w.cell b i).isLive = true) f →
      Q () (w.edit b (Function.update (w.cell b) i .dead) f)) :
    Prog.wp (destroy N b i) Q E w := by
  change Q () (w.edit b (Function.update (w.cell b) i .dead)
    (faultUnless (w.inBounds N b i) .outOfBounds ++ faultUnless (w.cell b i).isLive .destroyDead))
  rw [hb]
  apply h
  exact harmless_faultUnless rfl

section Slots
variable {w : World α} {b : Base} {i : ℕ} {E : Err → World α → Prop}

theorem wp_moveFrom_live {x : Option α} {Q : Option α → World α → Prop}
    (hb : w.inBounds N b i = true) (hc : w.cell b i = .live x)
    (h : Q x (w.edit b (Function.update (w.cell b) i (.live none)) [])) :
    Prog.wp (moveFrom N b i) Q E w := by
  change Q (w.cell b i).value (w.edit b (Function.update (w.cell b) i (w.cell b i).movedFrom)
    (faultUnless (w.inBounds N b i) .outOfBounds ++ faultUnless (w.cell b i).isLive .readDead))
  rw [hb, hc]
  exact h

theorem wp_init_dead (x : Option α) {Q : Unit → World α → Prop} (hb : w.inBounds N b i = true)
    (hc : w.cell b i = .dead) (h : Q () (w.edit b (Function.update (w.cell b) i (.live x)) [])) :
    Prog.wp (init N b i x) Q E w := by
  change Q () (w.edit b (Function.update (w.cell b) i (.live x))
    (faultUnless (w.inBounds N b i) .outOfBounds ++ faultUnless (!(w.cell b i).isLive) .initLive))
  rw [hb, hc]
  exact h

theorem wp_destroy_live {x : Option α} {Q : Unit → World α → Prop}
    (hb : w.inBounds N b i = true) (hc : w.cell b i = .live x)
    (h : Q () (w.edit b (Function.update (w.cell b) i .dead) [])) :
    Prog.wp (destroy N b i) Q E w := by
  change Q () (w.edit b (Function.update (w.cell b) i .dead)
    (faultUnless (w.inBounds N b i) .outOfBounds ++ faultUnless (w.cell b i).isLive .destroyDead))
  rw [hb, hc]
  exact h

end Slots

/-- The world once the first `n` elements have been relocated from `src` to `dst`. -/
def World.relocated (w : World α) (src dst : Base) (n : ℕ) (f : List Fault) : World α :=
  (w.edit dst (fun j => if j < n then w.cell src j else w.cell dst j) f).edit src
    (fun j => if j < n then .dead else w.cell src j) []

/-- The loop that moves elements slot by slot: each is destroyed where it was. -/
theorem wp_relocate {w : World α} {src dst : Base} {n : ℕ} (hne : src ≠ dst)
    (hsrc : ∀ i < n, w.inBounds N src i = true) (hdst : ∀ i < n, w.inBounds N dst i = true)
    (hlive : ∀ i < n, ∃ x, w.cell src i = .live x) :
    Prog.wp (Prog.forUp (fun i => do
      let x ← moveFrom N src i
      init N dst i x
      destroy N src i) n) (fun _ w' => ∃ f, w' = w.relocated src dst n f ∧
        Harmless (∀ i < n, (w.cell dst i).isLive = false) f) Prog.never w := by
  apply Prog.wp_forUp (I := fun i w' => ∃ f, w' = w.relocated src dst i f ∧
    Harmless (∀ i < n, (w.cell dst i).isLive = false) f)
  · refine ⟨[], ?_, Harmless.nil _⟩
    simp only [World.relocated, Nat.not_lt_zero, if_false]
    rw [World.edit_self, World.edit_self]
  · rintro i hi t ⟨f, rfl, hf⟩
    obtain ⟨x, hx⟩ := hlive i hi
    have hs : (w.relocated src dst i f).cell src i = .live x := by simp [World.relocated, hx]
    have hd : (w.relocated src dst i f).cell dst i = w.cell dst i := by
      rw [World.relocated, World.edit_cell_of_ne _ _ _ _ hne.symm, World.edit_cell_self,
        if_neg (Nat.lt_irrefl i)]
    rw [Prog.wp_bind]
    refine wp_moveFrom_live (hsrc i hi) hs ?_
    rw [Prog.wp_bind]
    refine wp_init x (by exact hdst i hi) fun f' hf' => ?_
    rw [World.edit_cell_of_ne _ _ _ _ hne.symm, hd] at hf'
    refine wp_destroy_live (x := none) (hsrc i hi) ?_ ?_
    · rw [World.edit_cell_of_ne _ _ _ _ hne, World.edit_cell_self, Function.update_self]
    refine ⟨f ++ f', ?_, hf.append hf' fun hg => ⟨hg, hg i hi⟩⟩
    have hsucc : ∀ j, (j < i + 1) = (j < i ∨ j = i) := fun j => propext (by omega)
    simp only [World.relocated, World.edit, List.append_nil, List.append_assoc, hsucc]
    congr 1
    funext b j
    by_cases hb : b = src
    · subst hb
      rcases Nat.lt_trichotomy j i with hj | rfl | hj
      · simp [hne, hj, hj.ne]
      · simp [hne]
      · simp [hj.ne', Nat.not_lt.mpr hj.le, hne]
    · by_cases hb' : b = dst
      · subst hb'
        rcases Nat.lt_trichotomy j i with hj | rfl | hj
        · simp [hb, hj, hj.ne]
        · simp [hb, hx]
        · simp [hb, hj.ne', Nat.not_lt.mpr hj.le]
      · simp [hb, hb']

end Asp.Collections
