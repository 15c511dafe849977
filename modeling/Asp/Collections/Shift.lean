import Asp.Collections.Reserve

/-! The loops of `shift`: which elements end up in which slots, and when the destructor runs
only on live elements. -/
namespace Asp.Collections
open Asp.Foundation SmallVec
variable {α : Type} {N : ℕ}

/-- The slots after the element at `source` has been moved to `dest`. -/
def movedCells (c : ℕ → Slot α) (source dest : ℕ) : ℕ → Slot α :=
  Function.update (Function.update c dest (c source)) source .dead

/-- `moveOne` is proper where the destination is below the size just if it is live. -/
lemma wp_moveOne {w : World α} {v source dest : ℕ} {x : α}
    (hs : w.inBounds N (w.idata N v) source = true) (hd : w.inBounds N (w.idata N v) dest = true)
    (hne : source ≠ dest) (hx : w.cell (w.idata N v) source = .live (some x)) :
    Prog.wp (moveOne N v source dest) (fun _ w' => ∃ f,
      w' = w.edit (w.idata N v) (movedCells (w.cell (w.idata N v)) source dest) f ∧
      Harmless (dest < (w.vec v).m_size ↔ (w.cell (w.idata N v) dest).isLive = true) f)
      Prog.never w := by
  have hmoved : ∀ y, Function.update (Function.update (Function.update (Function.update
      (w.cell (w.idata N v)) dest y) source (.live none)) dest (.live (some x))) source .dead =
      movedCells (w.cell (w.idata N v)) source dest := by
    intro y
    rw [movedCells, hx]
    funext j
    by_cases hj : j = source
    · simp [hj]
    · by_cases hj' : j = dest <;> simp [hj, hj', hne.symm]
  have hmoved' : Function.update (Function.update (Function.update
      (w.cell (w.idata N v)) source (.live none)) dest (.live (some x))) source .dead =
      movedCells (w.cell (w.idata N v)) source dest := by
    rw [← hmoved (w.cell (w.idata N v) dest), Function.update_eq_self]
  rw [moveOne, if_neg hne, Prog.wp_bind, Prog.wp_get, Prog.wp_bind, Prog.wp_when]
  split_ifs with hlt
  · apply wp_destroy hd
    intro f hf
    rw [Prog.wp_bind]
    refine wp_moveFrom_live (x := some x) hs ?_ ?_
    · rw [World.edit_cell_self, Function.update_of_ne hne]
      exact hx
    rw [World.edit_edit, World.edit_cell_self, Prog.wp_bind]
    refine wp_init_dead (some x) hd ?_ ?_
    · rw [World.edit_cell_self, Function.update_of_ne hne.symm, Function.update_self]
    rw [World.edit_edit, World.edit_cell_self]
    refine wp_destroy_live (x := none) hs ?_ ?_
    · rw [World.edit_cell_self, Function.update_of_ne hne, Function.update_self]
    rw [World.edit_edit, World.edit_cell_self, hmoved]
    refine ⟨_, rfl, ?_⟩
    simp only [List.append_nil]
    exact hf.weaken fun hiff => hiff.mp hlt
  · rw [Prog.wp_bind]
    refine wp_moveFrom_live hs hx ?_
    rw [Prog.wp_bind]
    refine wp_init (some x) (by exact hd) fun f hf => ?_
    rw [World.edit_cell_self, Function.update_of_ne hne.symm] at hf
    rw [World.edit_edit, World.edit_cell_self]
    refine wp_destroy_live (x := none) hs ?_ ?_
    · rw [World.edit_cell_self, Function.update_of_ne hne, Function.update_self]
    rw [World.edit_edit, World.edit_cell_self, hmoved']
    refine ⟨_, rfl, ?_⟩
    rw [List.nil_append, List.append_nil]
    exact hf.weaken fun hiff => by
      rw [← Bool.not_eq_true]
      exact fun hl => hlt (hiff.mpr hl)

/-- The slots once the elements from `i` up to `s` have been moved `k` places to the right. -/
def rightCells (c : ℕ → Slot α) (k s i : ℕ) : ℕ → Slot α := fun j =>
  if i + k ≤ j ∧ j < s + k then c (j - k) else if i ≤ j ∧ j < s then .dead else c j

/-- The slots once the elements from `index` up to `i` have been moved `k` places to the left. -/
def leftCells (c : ℕ → Slot α) (k index i : ℕ) : ℕ → Slot α := fun j =>
  if index - k ≤ j ∧ j < i - k then c (j + k) else if index ≤ j ∧ j < i then .dead else c j

lemma rightCells_step (c : ℕ → Slot α) {k s i : ℕ} (hk : 0 < k) (hi : i < s) :
    movedCells (rightCells c k s (i + 1)) i (i + k) = rightCells c k s i := by
  funext j
  have hsrc : rightCells c k s (i + 1) i = c i := by
    rw [rightCells, if_neg (by omega), if_neg (by omega)]
  rw [movedCells, hsrc]
  by_cases hj : j = i
  · subst hj
    rw [Function.update_self, rightCells, if_neg (by omega), if_pos ⟨Nat.le_refl j, hi⟩]
  · rw [Function.update_of_ne hj]
    by_cases hj' : j = i + k
    · subst hj'
      rw [Function.update_self, rightCells, if_pos (by omega), Nat.add_sub_cancel]
    · rw [Function.update_of_ne hj', rightCells, rightCells]
      have h1 : i + 1 + k ≤ j ↔ i + k ≤ j := by omega
      have h2 : i + 1 ≤ j ↔ i ≤ j := by omega
      simp only [h1, h2]

lemma leftCells_step (c : ℕ → Slot α) {k index i : ℕ} (hk : 0 < k) (hki : k ≤ index)
    (hi : index ≤ i) : movedCells (leftCells c k index i) i (i - k) = leftCells c k index (i + 1) := by
  funext j
  have hsrc : leftCells c k index i i = c i := by
    rw [leftCells, if_neg (by omega), if_neg (by omega)]
  rw [movedCells, hsrc]
  by_cases hj : j = i
  · subst hj
    rw [Function.update_self, leftCells, if_neg (by omega), if_pos ⟨hi, Nat.lt_succ_self j⟩]
  · rw [Function.update_of_ne hj]
    by_cases hj' : j = i - k
    · subst hj'
      rw [Function.update_self, leftCells, if_pos (by omega), show i - k + k = i by omega]
    · rw [Function.update_of_ne hj', leftCells, leftCells]
      have h1 : j < i - k ↔ j < i + 1 - k := by omega
      have h2 : j < i ↔ j < i + 1 := by omega
      simp only [h1, h2]

/-- The loop to the right destroys only live elements where the vector ends before the first
element's new slot. -/
lemma wp_shiftRight {w : World α} {v k index : ℕ} (hs : Stored N w v) (hk : 0 < k)
    (hcap : (w.vec v).m_size + k ≤ (w.vec v).m_capacity) (hindex : index ≤ (w.vec v).m_size)
    (hlive : ∀ j < (w.vec v).m_size, ∃ x, w.cell (w.idata N v) j = .live (some x)) :
    Prog.wp (Prog.forDown (fun i => moveOne N v i (i + k)) index (w.vec v).m_size)
      (fun _ w' => ∃ f, w' = w.edit (w.idata N v)
        (rightCells (w.cell (w.idata N v)) k (w.vec v).m_size index) f ∧
        Harmless ((w.vec v).m_size ≤ index + k ∧ Tidy N w v) f) Prog.never w := by
  generalize hc : w.cell (w.idata N v) = c at hlive
  apply Prog.wp_forDown (I := fun i w' => ∃ f, w' = w.edit (w.idata N v)
    (rightCells c k (w.vec v).m_size i) f ∧
    Harmless ((w.vec v).m_size ≤ index + k ∧ Tidy N w v) f) hindex
  · refine ⟨[], ?_, Harmless.nil _⟩
    have hrefl : rightCells c k (w.vec v).m_size (w.vec v).m_size = w.cell (w.idata N v) := by
      funext j
      rw [rightCells, if_neg (by omega), if_neg (by omega), hc]
    rw [hrefl, World.edit_self]
  · rintro i hlo hi t ⟨f, rfl, hf⟩
    obtain ⟨x, hx⟩ := hlive i hi
    have hbounds : ∀ j < (w.vec v).m_capacity, w.inBounds N (w.idata N v) j = true :=
      fun j hj => hs.inBounds hj
    have hmove := wp_moveOne (N := N) (w := w.edit (w.idata N v)
      (rightCells c k (w.vec v).m_size (i + 1)) f) (v := v) (x := x)
      (hbounds i (by omega)) (hbounds (i + k) (by omega)) (by omega) (by
        rw [World.idata_edit, World.edit_cell_self, rightCells, if_neg (by omega),
          if_neg (by omega), hx])
    apply hmove.mono
    · rintro _ w' ⟨f', rfl, hf'⟩
      rw [World.idata_edit, World.edit_cell_self, rightCells_step c hk hi, World.edit_edit]
      refine ⟨f ++ f', rfl, hf.append hf' fun hg => ⟨hg, ?_⟩⟩
      -- the new slot lies beyond the vector, where a tidy vector has no live slot
      rw [World.idata_edit, World.edit_vec, World.edit_cell_self, rightCells, if_neg (by omega),
        if_neg (by omega), ← hc]
      constructor
      · intro hlt
        omega
      · intro hl
        exact (hg.2 _ hs.not_foreign_idata _ hl).2
    · exact fun _ _ h => h

/-- The loop to the left destroys only live elements where it ends as far from its start as the
elements move. -/
lemma wp_shiftLeft {w : World α} {v k index : ℕ} (hs : Stored N w v) (hk : 0 < k)
    (hki : k ≤ index) (hindex : index ≤ (w.vec v).m_size)
    (hlive : ∀ j < (w.vec v).m_size, ∃ x, w.cell (w.idata N v) j = .live (some x)) :
    Prog.wp (Prog.forFrom (fun i => moveOne N v i (i - k)) index (w.vec v).m_size)
      (fun _ w' => ∃ f, w' = w.edit (w.idata N v)
        (leftCells (w.cell (w.idata N v)) k index (w.vec v).m_size) f ∧
        Harmless ((w.vec v).m_size - index = k) f) Prog.never w := by
  generalize hc : w.cell (w.idata N v) = c at hlive
  apply Prog.wp_forFrom (I := fun i w' => ∃ f, w' = w.edit (w.idata N v) (leftCells c k index i) f ∧
    Harmless ((w.vec v).m_size - index = k) f) hindex
  · refine ⟨[], ?_, Harmless.nil _⟩
    have hrefl : leftCells c k index index = w.cell (w.idata N v) := by
      funext j
      rw [leftCells, if_neg (by omega), if_neg (by omega), hc]
    rw [hrefl, World.edit_self]
  · rintro i hlo hi t ⟨f, rfl, hf⟩
    obtain ⟨x, hx⟩ := hlive i hi
    have hroom := hs.room
    have hbounds : ∀ j < (w.vec v).m_capacity, w.inBounds N (w.idata N v) j = true :=
      fun j hj => hs.inBounds hj
    have hmove := wp_moveOne (N := N) (w := w.edit (w.idata N v) (leftCells c k index i) f) (v := v)
      (x := x) (hbounds i (by omega)) (hbounds (i - k) (by omega)) (by omega) (by
        rw [World.idata_edit, World.edit_cell_self, leftCells, if_neg (by omega),
          if_neg (by omega), hx])
    apply hmove.mono
    · rintro _ w' ⟨f', rfl, hf'⟩
      rw [World.idata_edit, World.edit_cell_self, leftCells_step c hk hki hlo, World.edit_edit]
      refine ⟨f ++ f', rfl, hf.append hf' fun hg => ⟨hg, ?_⟩⟩
      -- the new slot is one of the elements before `index`, none of which has been touched
      obtain ⟨y, hy⟩ := hlive (i - k) (by omega)
      rw [World.idata_edit, World.edit_vec, World.edit_cell_self, leftCells, if_neg (by omega),
        if_neg (by omega), hy]
      exact ⟨fun _ => rfl, fun _ => by omega⟩
    · exact fun _ _ h => h

end Asp.Collections
