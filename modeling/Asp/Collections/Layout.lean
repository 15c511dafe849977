import Asp.Collections.SmallVec

/-! What a vector owns, what it holds, and what one of its operations leaves alone. -/
namespace Asp.Collections
open Asp.Foundation
variable {α : Type} {N : ℕ}

lemma heap_ne_inline (a v : ℕ) : Base.heap a ≠ .inline v := by
  intro h
  cases h

/-! Rewriting rules for the updates of a world -/
namespace World
variable (w : World α) (b : Base) (c : ℕ → Slot α) (f : List Fault) (v u n : ℕ)

@[simp] theorem edit_cell_self : (w.edit b c f).cell b = c := Function.update_self ..

theorem edit_cell_of_ne {b' : Base} (h : b' ≠ b) : (w.edit b c f).cell b' = w.cell b' :=
  Function.update_of_ne h ..

@[simp] theorem edit_faults : (w.edit b c f).faults = w.faults ++ f := rfl
@[simp] theorem edit_vec : (w.edit b c f).vec = w.vec := rfl
@[simp] theorem edit_alive : (w.edit b c f).alive = w.alive := rfl
@[simp] theorem edit_block : (w.edit b c f).block = w.block := rfl
@[simp] theorem edit_fresh : (w.edit b c f).fresh = w.fresh := rfl
@[simp] theorem edit_budget : (w.edit b c f).budget = w.budget := rfl
@[simp] theorem idata_edit : (w.edit b c f).idata N v = w.idata N v := rfl
@[simp] theorem isLarge_edit : (w.edit b c f).isLarge N v = w.isLarge N v := rfl
@[simp] theorem inBounds_edit : (w.edit b c f).inBounds N = w.inBounds N := rfl

@[simp] theorem edit_edit (c' : ℕ → Slot α) (f' : List Fault) :
    (w.edit b c f).edit b c' f' = w.edit b c' (f ++ f') := by
  simp only [edit, Function.update_idem, List.append_assoc]

theorem edit_self : w.edit b (w.cell b) [] = w := by
  simp only [edit, Function.update_eq_self, List.append_nil]

@[simp] theorem setVec_cell (x : Vec) : (w.setVec v x).cell = w.cell := rfl
@[simp] theorem setVec_faults (x : Vec) : (w.setVec v x).faults = w.faults := rfl
@[simp] theorem setVec_alive (x : Vec) : (w.setVec v x).alive = w.alive := rfl
@[simp] theorem setVec_block (x : Vec) : (w.setVec v x).block = w.block := rfl
@[simp] theorem setVec_fresh (x : Vec) : (w.setVec v x).fresh = w.fresh := rfl
@[simp] theorem setVec_budget (x : Vec) : (w.setVec v x).budget = w.budget := rfl
@[simp] theorem setVec_vec_self (x : Vec) : (w.setVec v x).vec v = x := Function.update_self ..

theorem setVec_vec_of_ne {x : Vec} {u : ℕ} (h : u ≠ v) : (w.setVec v x).vec u = w.vec u :=
  Function.update_of_ne h ..

@[simp] theorem setSize_cell : (w.setSize v n).cell = w.cell := rfl
@[simp] theorem setSize_block : (w.setSize v n).block = w.block := rfl
@[simp] theorem inBounds_setSize : (w.setSize v n).inBounds N = w.inBounds N := rfl

theorem setSize_edit : (w.setSize v n).edit b c f = (w.edit b c f).setSize v n := rfl

@[simp] theorem isLarge_setSize : (w.setSize v n).isLarge N u = w.isLarge N u := by
  by_cases h : u = v
  · subst h; simp [isLarge, setSize]
  · simp [isLarge, setSize, setVec_vec_of_ne _ _ h]

@[simp] theorem idata_setSize : (w.setSize v n).idata N u = w.idata N u := by
  unfold idata
  rw [isLarge_setSize]
  by_cases h : u = v
  · subst h; simp [setSize]
  · simp [setSize, setVec_vec_of_ne _ _ h]

end World

/-- The vector exists, is no larger than a `ptrdiff_t` can count, and has the storage that its
capacity promises. -/
structure Stored (N : ℕ) (w : World α) (v : ℕ) : Prop where
  alive : w.alive v = true
  small : (w.vec v).m_size < 2 ^ 63
  room : (w.vec v).m_size ≤ (w.vec v).m_capacity
  storage : (w.vec v).m_capacity = N ∨ N < (w.vec v).m_capacity ∧
    ∃ a, (w.vec v).m_large = some a ∧ w.block a = some (w.vec v).m_capacity ∧ a < w.fresh

/-- The elements of the vector are those of `l`. -/
structure Holds (N : ℕ) (w : World α) (v : ℕ) (l : List α) : Prop extends Stored N w v where
  size : (w.vec v).m_size = l.length
  cells : ∀ i a, l[i]? = some a → w.cell (w.idata N v) i = .live (some a)

/-- Storage that is not the vector's, nor will be allocated by its next operations. -/
def Foreign (N : ℕ) (w : World α) (v : ℕ) : Base → Prop
  | .inline u => u ≠ v
  | .heap a => a < w.fresh ∧ (w.isLarge N v = true → (w.vec v).m_large ≠ some a)
  | .null => True

theorem Foreign.ne_inline {w : World α} {v : ℕ} {b : Base} (h : Foreign N w v b) :
    b ≠ .inline v := by
  rintro rfl
  exact h rfl

/-- What an operation on the vector `v` leaves alone. -/
structure Local (N v : ℕ) (w w' : World α) : Prop where
  vec : ∀ u, u ≠ v → w'.vec u = w.vec u
  alive : ∀ u, u ≠ v → w'.alive u = w.alive u
  fresh : w.fresh ≤ w'.fresh
  budget : w'.budget = w.budget
  cell : ∀ b, Foreign N w v b → w'.cell b = w.cell b
  block : ∀ a, Foreign N w v (.heap a) → w'.block a = w.block a
  foreign : ∀ b, Foreign N w v b → Foreign N w' v b

/-- No slot that belonged to the vector in `w` is live in `w'`, except for its elements. -/
def TidyFrom (N : ℕ) (w w' : World α) (v : ℕ) : Prop :=
  ∀ b, ¬Foreign N w v b → ∀ i, (w'.cell b i).isLive = true →
    b = w'.idata N v ∧ i < (w'.vec v).m_size

abbrev Tidy (N : ℕ) (w : World α) (v : ℕ) : Prop := TidyFrom N w w v

/-- An operation on `v` leads from `w` to `w'`. Where `g` says so, it handles the lifetimes of
the elements properly. -/
structure Effect (N v : ℕ) (w w' : World α) (g : Prop) : Prop where
  frame : Local N v w w'
  faults : ∃ f, w'.faults = w.faults ++ f ∧ (∀ e ∈ f, e.isLifetime = true) ∧
    (g → Tidy N w v → f = [])
  tidy : g → Tidy N w v → TidyFrom N w w' v

/-- An operation on `v` after which it holds `l`. -/
structure Does (N v : ℕ) (w w' : World α) (l : List α) (g : Prop) : Prop
    extends Effect N v w w' g where
  holds : Holds N w' v l

namespace Stored
variable {w : World α} {v : ℕ}

/-- The two storage modes. -/
theorem cases (h : Stored N w v) :
    (w.isLarge N v = false ∧ (w.vec v).m_capacity = N ∧ w.idata N v = .inline v) ∨
    (w.isLarge N v = true ∧ N < (w.vec v).m_capacity ∧ ∃ a, (w.vec v).m_large = some a ∧
      w.block a = some (w.vec v).m_capacity ∧ a < w.fresh ∧ w.idata N v = .heap a) := by
  rcases h.storage with hc | ⟨hc, a, ha, hb, hf⟩
  · have hl : w.isLarge N v = false := by
      rw [World.isLarge, hc]
      exact decide_eq_false (Nat.lt_irrefl N)
    exact .inl ⟨hl, hc, by simp [World.idata, hl]⟩
  · have hl : w.isLarge N v = true := decide_eq_true hc
    exact .inr ⟨hl, hc, a, ha, hb, hf, by simp [World.idata, hl, ha]⟩

theorem small_storage (h : Stored N w v) (hl : w.isLarge N v = false) :
    (w.vec v).m_capacity = N ∧ w.idata N v = .inline v := by
  rcases h.cases with ⟨-, hc, hb⟩ | ⟨hn, -⟩
  · exact ⟨hc, hb⟩
  · cases hl.symm.trans hn

theorem large_storage (h : Stored N w v) (hl : w.isLarge N v = true) {a : ℕ}
    (ha : (w.vec v).m_large = some a) : w.block a = some (w.vec v).m_capacity ∧ a < w.fresh ∧
      w.idata N v = .heap a := by
  rcases h.cases with ⟨hn, -⟩ | ⟨-, -, a', ha', hb⟩
  · cases hl.symm.trans hn
  · obtain rfl := Option.some.inj (ha.symm.trans ha')
    exact hb

theorem le_capacity (h : Stored N w v) : N ≤ (w.vec v).m_capacity := by
  rcases h.storage with hc | ⟨hc, -⟩ <;> omega

theorem inBounds (h : Stored N w v) {i : ℕ} (hi : i < (w.vec v).m_capacity) :
    w.inBounds N (w.idata N v) i = true := by
  rcases h.cases with ⟨-, hc, hb⟩ | ⟨-, -, a, -, hblock, -, hb⟩
  · rw [hb, World.inBounds, h.alive, Bool.true_and, decide_eq_true_iff]
    omega
  · rw [hb, World.inBounds, hblock]
    exact decide_eq_true hi

/-- The slots of a vector are its own. -/
theorem not_foreign_idata (h : Stored N w v) : ¬Foreign N w v (w.idata N v) := by
  rcases h.cases with ⟨-, -, hb⟩ | ⟨hl, -, a, ha, -, -, hb⟩ <;> rw [hb]
  · exact fun hu => hu rfl
  · exact fun hu => hu.2 hl ha

theorem foreign_iff_ne {u : ℕ} (hu : Stored N w u) (huv : u ≠ v)
    (h : w.isLarge N u = true → w.isLarge N v = true → (w.vec u).m_large ≠ (w.vec v).m_large) :
    Foreign N w v (w.idata N u) := by
  rcases hu.cases with ⟨-, -, hb⟩ | ⟨hl, -, a, ha, -, hf, hb⟩ <;> rw [hb]
  · exact huv
  · refine ⟨hf, fun hv hva => h hl hv ?_⟩
    rw [ha, hva]

end Stored

/-- Every element of the vector is live. -/
theorem Holds.cell_eq {w : World α} {v : ℕ} {l : List α} (h : Holds N w v l) {i : ℕ}
    (hi : i < (w.vec v).m_size) : ∃ x, w.cell (w.idata N v) i = .live (some x) := by
  rw [h.size] at hi
  exact ⟨l[i], h.cells i l[i] (List.getElem?_eq_getElem hi)⟩

namespace Local
variable {w w' w'' : World α} {v : ℕ}

theorem refl (w : World α) : Local N v w w :=
  ⟨fun _ _ => rfl, fun _ _ => rfl, Nat.le_refl _, rfl, fun _ _ => rfl, fun _ _ => rfl, fun _ h => h⟩

theorem trans (h : Local N v w w') (h' : Local N v w' w'') : Local N v w w'' where
  vec u hu := (h'.vec u hu).trans (h.vec u hu)
  alive u hu := (h'.alive u hu).trans (h.alive u hu)
  fresh := h.fresh.trans h'.fresh
  budget := h'.budget.trans h.budget
  cell b hb := (h'.cell b (h.foreign b hb)).trans (h.cell b hb)
  block a ha := (h'.block a (h.foreign _ ha)).trans (h.block a ha)
  foreign b hb := h'.foreign b (h.foreign b hb)

/-- Another vector keeps its slots. -/
theorem idata_eq (h : Local N v w w') {u : ℕ} (hu : u ≠ v) : w'.idata N u = w.idata N u := by
  unfold World.idata World.isLarge
  rw [h.vec u hu]

/-- Foreign storage stays allocated. -/
theorem inBounds (h : Local N v w w') {b : Base} (hb : Foreign N w v b) (i : ℕ) :
    w'.inBounds N b i = w.inBounds N b i := by
  cases b with
  | inline u => simp only [World.inBounds, h.alive u hb]
  | heap a => simp only [World.inBounds, h.block a hb]
  | null => rfl

theorem stored (h : Local N v w w') {u : ℕ} (hu : u ≠ v) (hs : Stored N w u)
    (hf : Foreign N w v (w.idata N u)) : Stored N w' u := by
  refine ⟨(h.alive u hu).trans hs.alive, ?_, ?_, ?_⟩ <;> rw [h.vec u hu]
  · exact hs.small
  · exact hs.room
  rcases hs.cases with ⟨-, hc, -⟩ | ⟨-, hc, a, ha, hb, hlt, hd⟩
  · exact .inl hc
  · rw [hd] at hf
    exact .inr ⟨hc, a, ha, (h.block a hf).trans hb, hlt.trans_le h.fresh⟩

theorem holds (h : Local N v w w') {u : ℕ} (hu : u ≠ v) {l : List α} (hs : Holds N w u l)
    (hf : Foreign N w v (w.idata N u)) : Holds N w' u l where
  toStored := h.stored hu hs.toStored hf
  size := by rw [h.vec u hu]; exact hs.size
  cells i a hi := by
    rw [h.idata_eq hu, h.cell _ hf]
    exact hs.cells i a hi

end Local

namespace Effect
variable {w w' w'' : World α} {v : ℕ} {g g' : Prop}

theorem refl (w : World α) : Effect N v w w True where
  frame := Local.refl w
  faults := ⟨[], (List.append_nil _).symm, fun _ he => (List.not_mem_nil he).elim, fun _ _ => rfl⟩
  tidy _ h := h

theorem tidy_of (h : Effect N v w w' g) (hg : g) (ht : Tidy N w v) : Tidy N w' v :=
  fun b hb => h.tidy hg ht b fun hf => hb (h.frame.foreign b hf)

theorem trans (h : Effect N v w w' g) (hs : Stored N w' v) (h' : Effect N v w' w'' g') :
    Effect N v w w'' (g ∧ g') where
  frame := h.frame.trans h'.frame
  faults := by
    obtain ⟨f, hf, hl, hn⟩ := h.faults
    obtain ⟨f', hf', hl', hn'⟩ := h'.faults
    refine ⟨f ++ f', by rw [hf', hf, List.append_assoc], fun e he => ?_, fun hg ht => ?_⟩
    · rcases List.mem_append.mp he with he | he
      · exact hl e he
      · exact hl' e he
    · rw [hn hg.1 ht, hn' hg.2 (h.tidy_of hg.1 ht)]
      rfl
  tidy hg ht b hb i hi := by
    by_cases hb' : Foreign N w' v b
    · -- storage given up on the way keeps no live slot
      rw [h'.frame.cell b hb'] at hi
      rw [(h.tidy hg.1 ht b hb i hi).1] at hb'
      exact absurd hb' hs.not_foreign_idata
    · exact h'.tidy hg.2 (h.tidy_of hg.1 ht) b hb' i hi

theorem weaken (h : Effect N v w w' g) (hg : g' → g) : Effect N v w w' g' where
  frame := h.frame
  faults := by
    obtain ⟨f, hf, hl, hn⟩ := h.faults
    exact ⟨f, hf, hl, fun hg' => hn (hg hg')⟩
  tidy hg' := h.tidy (hg hg')

end Effect

namespace Does
variable {w w' w'' : World α} {v : ℕ} {l l' : List α} {g g' : Prop}

theorem refl (h : Holds N w v l) : Does N v w w l True := ⟨Effect.refl w, h⟩

theorem trans (h : Does N v w w' l g) (h' : Does N v w' w'' l' g') :
    Does N v w w'' l' (g ∧ g') := ⟨h.toEffect.trans h.holds.toStored h'.toEffect, h'.holds⟩

theorem weaken (h : Does N v w w' l g) (hg : g' → g) : Does N v w w' l g' :=
  ⟨h.toEffect.weaken hg, h.holds⟩

end Does

/-- An operation that changes the slots and the size of a vector in place. -/
theorem does_put {w : World α} {v : ℕ} (hs : Stored N w v) {c : ℕ → Slot α} {f : List Fault}
    {l : List α} {g : Prop} (hsmall : l.length < 2 ^ 63) (hroom : l.length ≤ (w.vec v).m_capacity)
    (hcells : ∀ i a, l[i]? = some a → c i = .live (some a))
    (hf : ∀ e ∈ f, e.isLifetime = true) (hnone : g → Tidy N w v → f = [])
    (htidy : g → Tidy N w v → ∀ i, (c i).isLive = true → i < l.length) :
    Does N v w ((w.edit (w.idata N v) c f).setSize v l.length) l g where
  frame :=
    { vec := fun u hu => World.setVec_vec_of_ne _ _ hu
      alive := fun u _ => rfl
      fresh := Nat.le_refl _
      budget := rfl
      cell := fun b hb => World.edit_cell_of_ne w _ c f fun he =>
        hs.not_foreign_idata (he ▸ hb)
      block := fun a _ => rfl
      foreign := fun b hb => by
        cases b with
        | inline u => exact hb
        | heap a =>
          refine ⟨hb.1, fun hl => ?_⟩
          rw [World.isLarge_setSize] at hl
          simpa [World.setSize] using hb.2 hl
        | null => trivial }
  holds :=
    { alive := hs.alive
      small := by simpa [World.setSize] using hsmall
      room := by simpa [World.setSize] using hroom
      storage := by simpa [World.setSize] using hs.storage
      size := by simp [World.setSize]
      cells := fun i a hi => by
        rw [World.idata_setSize, World.idata_edit]
        change (w.edit (w.idata N v) c f).cell (w.idata N v) i = _
        rw [World.edit_cell_self]
        exact hcells i a hi }
  faults := ⟨f, rfl, hf, hnone⟩
  tidy hg ht b hb i hi := by
    rw [World.idata_setSize, World.idata_edit]
    change ((w.edit (w.idata N v) c f).cell b i).isLive = true at hi
    by_cases he : b = w.idata N v
    · subst he
      rw [World.edit_cell_self] at hi
      exact ⟨rfl, by simpa [World.setSize] using htidy hg ht i hi⟩
    · rw [World.edit_cell_of_ne _ _ _ _ he] at hi
      exact absurd (ht b hb i hi).1 he

end Asp.Collections
