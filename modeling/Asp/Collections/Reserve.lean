import Asp.Collections.Slots

/-! The growth of a vector: its elements move into a new array. -/
namespace Asp.Collections
open Asp.Foundation
variable {α : Type} {N : ℕ}

/-- The world after `allocate`. -/
def World.allocated (w : World α) (n : ℕ) : World α :=
  { w.edit (.heap w.fresh) (fun _ => .dead) [] with
    block := Function.update w.block w.fresh (some n), fresh := w.fresh + 1 }

/-- The world after the pointer and the capacity have been set to a new array `a`. -/
def World.installed (N : ℕ) (w : World α) (v a newCap : ℕ) : World α :=
  (w.setLarge N v (some a)).setCapacity v newCap

theorem wp_deleteArray {w : World α} {a : ℕ} (ha : (w.block a).isSome = true)
    {Q : Unit → World α → Prop} {E : Err → World α → Prop}
    (h : Q () { w with block := Function.update w.block a none }) :
    Prog.wp (deleteArray (some a)) Q E w := by
  change Q () { w with
    block := Function.update w.block a none
    faults := w.faults ++ faultUnless (w.block a).isSome .badDelete }
  rw [ha]
  change Q () { w with block := Function.update w.block a none, faults := w.faults ++ [] }
  rwa [List.append_nil]

theorem Stored.idata_ne_fresh {w : World α} {v : ℕ} (h : Stored N w v) :
    w.idata N v ≠ .heap w.fresh := by
  rcases h.cases with ⟨-, -, hb⟩ | ⟨-, -, a, -, -, hlt, hb⟩ <;> rw [hb]
  · exact (heap_ne_inline w.fresh v).symm
  · intro he
    cases he
    exact Nat.lt_irrefl _ hlt

/-- The pointer overwrites inline slots that hold no element. -/
lemma harmless_overwrite {w : World α} {v : ℕ} {g : Prop}
    (h : g → ∀ i, (w.cell (.inline v) i).isLive = false) :
    Harmless g (faultUnless ((List.range N).all fun i => !(w.cell (.inline v) i).isLive)
      .overwriteLive) := by
  refine (harmless_faultUnless rfl).weaken fun hg => ?_
  rw [List.all_eq_true]
  intro i _
  rw [h hg i]
  rfl

/-- After the relocation of a tidy vector only its elements in the new array are live. -/
lemma live_relocated {w : World α} {v : ℕ} (newCap : ℕ) (hs : Stored N w v) (ht : Tidy N w v)
    {b : Base} (hb : ¬Foreign N w v b) {i : ℕ} (hi : (((w.allocated newCap).relocated (w.idata N v)
      (.heap w.fresh) (w.vec v).m_size []).cell b i).isLive = true) :
    b = .heap w.fresh ∧ i < (w.vec v).m_size := by
  have hne := hs.idata_ne_fresh
  by_cases hd : b = w.idata N v
  · subst hd
    rw [World.relocated, World.edit_cell_self] at hi
    split_ifs at hi with hlt
    · cases hi
    · change (Function.update w.cell _ _ _ i).isLive = true at hi
      rw [Function.update_of_ne hne] at hi
      exact absurd (ht _ hb i hi).2 hlt
  · rw [World.relocated, World.edit_cell_of_ne _ _ _ _ hd] at hi
    by_cases hf : b = .heap w.fresh
    · subst hf
      rw [World.edit_cell_self] at hi
      split_ifs at hi with hlt
      · exact ⟨rfl, hlt⟩
      · simp [World.allocated, Slot.isLive] at hi
    · rw [World.edit_cell_of_ne _ _ _ _ hf] at hi
      change (Function.update w.cell _ _ _ i).isLive = true at hi
      rw [Function.update_of_ne hf] at hi
      exact absurd (ht b hb i hi).1 hd

section Regrown
variable {w : World α} {v newCap : ℕ} {blk : ℕ → Option ℕ} {l : List α}

/-- The world in which the elements of `v` have moved to a new array, with `blk` for the table of
arrays. -/
def World.regrown (N : ℕ) (w : World α) (v newCap : ℕ) (blk : ℕ → Option ℕ) : World α :=
  World.installed N { (w.allocated newCap).relocated (w.idata N v) (.heap w.fresh)
    (w.vec v).m_size [] with block := blk } v w.fresh newCap

lemma regrown_vec_self :
    (w.regrown N v newCap blk).vec v = ⟨some w.fresh, (w.vec v).m_size, newCap⟩ := by
  simp [World.regrown, World.installed, World.setLarge, World.setCapacity, World.relocated,
    World.allocated, World.edit]

lemma regrown_vec_of_ne {u : ℕ} (hu : u ≠ v) : (w.regrown N v newCap blk).vec u = w.vec u := by
  simp [World.regrown, World.installed, World.setLarge, World.setCapacity, World.relocated,
    World.allocated, World.edit, World.setVec_vec_of_ne _ _ hu]

lemma regrown_idata (hcap : N < newCap) :
    (w.regrown N v newCap blk).idata N v = .heap w.fresh := by
  simp [World.idata, World.isLarge, regrown_vec_self, hcap]

lemma regrown_cell_inline : (w.regrown N v newCap blk).cell (.inline v) = fun _ => .dead :=
  Function.update_self ..

/-- The pointer overwrites nothing outside the inline slots. -/
lemma regrown_cell {b : Base} (hb : b ≠ .inline v) : (w.regrown N v newCap blk).cell b =
    ((w.allocated newCap).relocated (w.idata N v) (.heap w.fresh) (w.vec v).m_size []).cell b :=
  Function.update_of_ne hb ..

lemma regrown_cell_fresh (h : Stored N w v) :
    (w.regrown N v newCap blk).cell (.heap w.fresh) = fun j =>
      if j < (w.vec v).m_size then w.cell (w.idata N v) j else .dead := by
  have hne := h.idata_ne_fresh
  rw [regrown_cell (heap_ne_inline w.fresh v), World.relocated,
    World.edit_cell_of_ne _ _ _ _ hne.symm, World.edit_cell_self]
  funext j
  simp [World.allocated, World.edit, Function.update_of_ne hne]

lemma regrown_cell_foreign (h : Stored N w v) {b : Base} (hb : Foreign N w v b) :
    (w.regrown N v newCap blk).cell b = w.cell b := by
  have hidata : b ≠ w.idata N v := by
    rintro rfl
    exact h.not_foreign_idata hb
  have hfresh : b ≠ .heap w.fresh := by
    rintro rfl
    exact Nat.lt_irrefl _ hb.1
  rw [regrown_cell hb.ne_inline, World.relocated, World.edit_cell_of_ne _ _ _ _ hidata,
    World.edit_cell_of_ne _ _ _ _ hfresh]
  exact Function.update_of_ne hfresh ..

lemma local_regrown (h : Stored N w v)
    (hold : ∀ a, Foreign N w v (.heap a) → blk a = w.block a) :
    Local N v w (w.regrown N v newCap blk) where
  vec _ hu := regrown_vec_of_ne hu
  alive _ _ := rfl
  fresh := Nat.le_succ _
  budget := rfl
  cell _ hb := regrown_cell_foreign h hb
  block a ha := hold a ha
  foreign b hb := by
    cases b with
    | inline u => exact hb
    | heap a =>
      refine ⟨Nat.lt_succ_of_lt hb.1, fun _ => ?_⟩
      rw [regrown_vec_self]
      rintro ⟨⟩
      exact Nat.lt_irrefl _ hb.1
    | null => trivial

/-- Of a tidy vector no element is left where the pointer is written. -/
lemma faults_regrown (h : Stored N w v) :
    ∃ f, (w.regrown N v newCap blk).faults = w.faults ++ f ∧
      (∀ e ∈ f, e.isLifetime = true) ∧ (True → Tidy N w v → f = []) := by
  have hdead : Tidy N w v → ∀ i, (((w.allocated newCap).relocated (w.idata N v) (.heap w.fresh)
      (w.vec v).m_size []).cell (.inline v) i).isLive = false := by
    intro ht i
    rw [Bool.eq_false_iff]
    intro hi
    cases (live_relocated newCap h ht (b := .inline v) (fun hb => hb rfl) hi).1
  have hharmless := harmless_overwrite (N := N) hdead
  refine ⟨_, ?_, hharmless.1, fun _ => hharmless.2⟩
  simp [World.regrown, World.installed, World.setLarge, World.setCapacity, World.relocated,
    World.allocated]

lemma tidy_regrown (h : Stored N w v) (hcap : N < newCap) (ht : Tidy N w v) :
    TidyFrom N w (w.regrown N v newCap blk) v := by
  intro b hb i hi
  rw [regrown_idata hcap, regrown_vec_self]
  by_cases hbi : b = .inline v
  · subst hbi
    rw [regrown_cell_inline] at hi
    cases hi
  · rw [regrown_cell hbi] at hi
    exact live_relocated newCap h ht hb hi

lemma holds_regrown (h : Holds N w v l) (hlt : (w.vec v).m_capacity < newCap)
    (hnew : blk w.fresh = some newCap) : Holds N (w.regrown N v newCap blk) v l := by
  have hcap := h.le_capacity.trans_lt hlt
  refine { alive := h.alive, small := ?_, room := ?_, storage := ?_, size := ?_, cells := ?_ }
  · rw [regrown_vec_self]
    exact h.small
  · rw [regrown_vec_self]
    exact h.room.trans hlt.le
  · rw [regrown_vec_self]
    exact .inr ⟨hcap, w.fresh, rfl, hnew, Nat.lt_succ_self _⟩
  · rw [regrown_vec_self]
    exact h.size
  · intro i a hi
    have hsize : i < (w.vec v).m_size := by
      rw [h.size]
      exact (List.getElem?_eq_some_iff.mp hi).1
    rw [regrown_idata hcap, regrown_cell_fresh h.toStored]
    simp only [hsize, if_true]
    exact h.cells i a hi

/-- The vector after the relocation, for any table of arrays that has the new one and agrees
with the old table on what is not the vector's. -/
lemma does_regrown (h : Holds N w v l) (hlt : (w.vec v).m_capacity < newCap)
    (hnew : blk w.fresh = some newCap) (hold : ∀ a, Foreign N w v (.heap a) → blk a = w.block a) :
    Does N v w (w.regrown N v newCap blk) l True where
  frame := local_regrown h.toStored hold
  faults := faults_regrown h.toStored
  tidy _ ht := tidy_regrown h.toStored (h.le_capacity.trans_lt hlt) ht
  holds := holds_regrown h hlt hnew

end Regrown

/-- The slots that the elements have left are dead. -/
lemma regrown_left (w : World α) (v newCap : ℕ) (blk : ℕ → Option ℕ) {j : ℕ}
    (hj : j < (w.vec v).m_size) :
    ((w.regrown N v newCap blk).cell (w.idata N v) j).isLive = false := by
  by_cases hb : w.idata N v = .inline v
  · rw [hb, regrown_cell_inline]
    rfl
  · rw [regrown_cell hb, World.relocated, World.edit_cell_self, if_pos hj]
    rfl

/-- A capacity that is too small for `newCap` takes a new array. -/
lemma wp_reserve_regrown {w : World α} {v newCap : ℕ} {l : List α} (h : Holds N w v l)
    (hlt : (w.vec v).m_capacity < newCap) :
    Prog.wp (SmallVec.reserve N v newCap) (fun _ w' => ∃ blk, w' = w.regrown N v newCap blk ∧
      blk w.fresh = some newCap ∧ ∀ a, Foreign N w v (.heap a) → blk a = w.block a)
      Prog.never w := by
  rw [SmallVec.reserve, Prog.wp_bind, Prog.wp_get, Prog.wp_ite, if_neg (Nat.not_le.mpr hlt)]
  have hne := h.idata_ne_fresh
  have hcell : (w.allocated newCap).cell (w.idata N v) = w.cell (w.idata N v) :=
    Function.update_of_ne hne ..
  have hbounds : ∀ i < (w.vec v).m_size,
      (w.allocated newCap).inBounds N (w.idata N v) i = true := by
    intro i hi
    rw [← h.inBounds (hi.trans_le h.room)]
    rcases h.toStored.cases with ⟨-, -, hb⟩ | ⟨-, -, a, -, -, ha, hb⟩ <;> rw [hb]
    · rfl
    · simp only [World.inBounds, World.allocated, Function.update_of_ne ha.ne]
  rw [Prog.wp_bind]
  change Prog.wp _ _ _ (w.allocated newCap)
  rw [Prog.wp_bind]
  have hreloc := wp_relocate (N := N) (w := w.allocated newCap) (n := (w.vec v).m_size) hne hbounds
    (fun i hi => by
      have hi' := (hi.trans_le h.room).trans hlt
      simpa [World.inBounds, World.allocated] using hi')
    (fun i hi => by
      obtain ⟨x, hx⟩ := h.cell_eq hi
      exact ⟨some x, by rw [hcell, hx]⟩)
  apply hreloc.then
  rintro _ _ ⟨f, rfl, hf⟩
  obtain rfl : f = [] := hf.2 fun i _ => by simp [World.allocated, Slot.isLive]
  rw [Prog.wp_bind, Prog.wp_when]
  rcases h.toStored.cases with ⟨hl, -, -⟩ | ⟨hl, -, a, ha, hblock, hfresh, -⟩
  · rw [if_neg (by rw [hl]; exact Bool.false_ne_true)]
    refine ⟨_, rfl, Function.update_self .., fun a ha => ?_⟩
    exact Function.update_of_ne ha.1.ne ..
  · rw [if_pos hl, ha]
    apply wp_deleteArray
    · simp [World.relocated, World.allocated, World.edit, Function.update_of_ne hfresh.ne, hblock]
    · refine ⟨_, rfl, ?_, fun b hb => ?_⟩
      · exact (Function.update_of_ne hfresh.ne' ..).trans (Function.update_self ..)
      · have hne : b ≠ a := fun he => hb.2 hl (by rw [ha, he])
        exact (Function.update_of_ne hne ..).trans (Function.update_of_ne hb.1.ne ..)

/-- The elements move to a new array where the capacity is too small for `newCap`. -/
theorem wp_reserve {w : World α} {v : ℕ} {l : List α} (h : Holds N w v l) (newCap : ℕ) :
    Prog.wp (SmallVec.reserve N v newCap) (fun _ w' => Does N v w w' l True ∧
      (w'.vec v).m_capacity = max (w.vec v).m_capacity newCap) Prog.never w := by
  rcases Nat.lt_or_ge (w.vec v).m_capacity newCap with hlt | hle
  · apply (wp_reserve_regrown h hlt).then
    rintro _ _ ⟨blk, rfl, hnew, hold⟩
    refine ⟨does_regrown h hlt hnew hold, ?_⟩
    rw [Nat.max_eq_right hlt.le]
    exact congrArg Vec.m_capacity regrown_vec_self
  · rw [SmallVec.reserve, Prog.wp_bind, Prog.wp_get, Prog.wp_ite, if_pos hle]
    exact ⟨Does.refl h, (Nat.max_eq_left hle).symm⟩

/-- The vector has room for `extra` further elements: it was large enough already, or its
elements have left their old slots. -/
structure Grown (N v : ℕ) (w w' : World α) (l : List α) (extra : ℕ) : Prop
    extends Does N v w w' l True where
  room : l.length + extra ≤ (w'.vec v).m_capacity
  stays : l.length + extra ≤ (w.vec v).m_capacity → w' = w
  leaves : (w.vec v).m_capacity < l.length + extra →
    ∀ j < l.length, (w'.cell (w.idata N v) j).isLive = false

lemma wp_reserve_grown {w : World α} {v newCap extra : ℕ} {l : List α} (h : Holds N w v l)
    (hlt : (w.vec v).m_capacity < l.length + extra) (hcap : l.length + extra ≤ newCap) :
    Prog.wp (SmallVec.reserve N v newCap) (fun _ w' => Grown N v w w' l extra) Prog.never w := by
  have hnew := hlt.trans_le hcap
  apply (wp_reserve_regrown h hnew).then
  rintro _ _ ⟨blk, rfl, hblk, hold⟩
  refine ⟨does_regrown h hnew hblk hold, ?_, fun hle => by omega, fun _ j hj => ?_⟩
  · rwa [regrown_vec_self]
  · rw [← h.size] at hj
    exact regrown_left w v newCap blk hj

/-- A vector that is not too large gets room for `extra` further elements. -/
theorem wp_growFor_grown {w : World α} {v : ℕ} {l : List α} (h : Holds N w v l) {extra : ℕ}
    (hmax : l.length + extra ≤ 2 ^ 63) :
    Prog.wp (SmallVec.growFor N v extra) (fun _ w' => Grown N v w w' l extra) Prog.never w := by
  rw [SmallVec.growFor, Prog.wp_bind, Prog.wp_get, h.size, Nat.mod_eq_of_lt (by omega)]
  rw [Prog.wp_ite]
  split_ifs with hle
  · exact ⟨Does.refl h, hle, fun _ => rfl, fun hlt => by omega⟩
  · have hroom := h.room
    rw [h.size] at hroom
    rcases Nat.lt_or_ge (max (w.vec v).m_capacity 1) (l.length + extra) with hlt | hge
    · rw [growLoop_eq hlt hmax (by omega)]
      exact wp_reserve_grown h (by omega) (Nat.le_pow_clog Nat.one_lt_two _)
    · -- an empty vector without any storage grows to one slot
      have hone : max (w.vec v).m_capacity 1 = 1 ∧ l.length + extra = 1 := by omega
      rw [hone.1, hone.2]
      exact wp_reserve_grown h (by omega) hone.2.le

theorem wp_growFor {w : World α} {v : ℕ} {l : List α} (h : Holds N w v l) {extra : ℕ}
    (hmax : l.length + extra ≤ 2 ^ 63) :
    Prog.wp (SmallVec.growFor N v extra) (fun _ w' => Does N v w w' l True ∧
      l.length + extra ≤ (w'.vec v).m_capacity) Prog.never w :=
  (wp_growFor_grown h hmax).then fun _ _ hg => ⟨hg.toDoes, hg.room⟩

end Asp.Collections
