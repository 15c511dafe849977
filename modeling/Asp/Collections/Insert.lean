import Asp.Collections.Shift

/-! The insertions and erasures: the list they leave, and when the lifetimes of the elements
are handled properly. -/
namespace Asp.Collections
open Asp.Foundation SmallVec
variable {α : Type} {N : ℕ}

lemma toPtrdiff_eq {n : ℕ} (h : n < 2 ^ 63) : toPtrdiff n = n := by
  unfold toPtrdiff
  apply Int.bmod_eq_of_le
  · omega
  · omega

/-- `shift` to the right: room is made first, with the elements as they were. -/
lemma wp_shift_right_grown {w : World α} {v index k : ℕ} {l : List α} (h : Holds N w v l)
    (hindex : index ≤ l.length) (hk : 0 < k) (hmax : l.length + k < 2 ^ 63) :
    Prog.wp (shift N v index k) (fun r w' => ∃ w₁ f, Grown N v w w₁ l k ∧
      r = (w₁.idata N v, index) ∧
      w' = (w₁.edit (w₁.idata N v) (rightCells (w₁.cell (w₁.idata N v)) k l.length index) f).setSize
        v (l.length + k) ∧ Harmless (l.length ≤ index + k ∧ Tidy N w₁ v) f) Prog.never w := by
  have hpos : (k : ℤ) > 0 := by omega
  have hbody : (fun i : ℕ => moveOne (α := α) N v i ((i : ℤ) + k).toNat) =
      fun i => moveOne N v i (i + k) := by
    funext i
    rw [show ((i : ℤ) + k).toNat = i + k by omega]
  rw [shift, Prog.wp_bind, Prog.wp_get, Prog.wp_ite, if_neg (by rw [h.size]; omega), Prog.wp_bind,
    Prog.wp_when, if_pos hpos, Int.toNat_natCast]
  apply (wp_growFor_grown h hmax.le).then
  rintro _ w₁ hd
  have hsize := hd.holds.size
  rw [Prog.wp_bind, if_pos hpos, hbody, Int.toNat_natCast, h.size, ← hsize]
  apply (wp_shiftRight hd.holds.toStored hk (by rw [hsize]; exact hd.room) (by rwa [hsize])
    fun j hj => hd.holds.cell_eq hj).then
  rintro _ t ⟨f, rfl, hf⟩
  rw [hsize] at hf ⊢
  refine ⟨w₁, f, hd, ?_, ?_, hf⟩
  · simp
  · simp only [World.edit_vec, hsize]
    rw [show ((l.length : ℤ) + (k : ℤ)).toNat = l.length + k by omega]

lemma wp_shift_right {w : World α} {v index k : ℕ} {l : List α} (h : Holds N w v l)
    (hindex : index ≤ l.length) (hk : 0 < k) (hmax : l.length + k < 2 ^ 63) :
    Prog.wp (shift N v index k) (fun r w' => ∃ w₁ f, Does N v w w₁ l True ∧
      l.length + k ≤ (w₁.vec v).m_capacity ∧ r = (w₁.idata N v, index) ∧
      w' = (w₁.edit (w₁.idata N v) (rightCells (w₁.cell (w₁.idata N v)) k l.length index) f).setSize
        v (l.length + k) ∧ Harmless (l.length ≤ index + k ∧ Tidy N w₁ v) f) Prog.never w := by
  apply (wp_shift_right_grown h hindex hk hmax).then
  rintro _ _ ⟨w₁, f, hg, hr, hw', hf⟩
  exact ⟨w₁, f, hg.toDoes, hg.room, hr, hw', hf⟩

lemma wp_shift_left {w : World α} {v index k : ℕ} {l : List α} (h : Holds N w v l)
    (hindex : index ≤ l.length) (hk : 0 < k) (hki : k ≤ index) :
    Prog.wp (shift N v index (-k)) (fun r w' => ∃ f, r = (w.idata N v, index) ∧
      w' = (w.edit (w.idata N v) (leftCells (w.cell (w.idata N v)) k index l.length) f).setSize
        v (l.length - k) ∧ Harmless (l.length - index = k) f) Prog.never w := by
  have hneg : ¬(-(k : ℤ) > 0) := by omega
  have hneg' : -(k : ℤ) < 0 := by omega
  have hbody : (fun i : ℕ => moveOne (α := α) N v i ((i : ℤ) + -k).toNat) =
      fun i => moveOne N v i (i - k) := by
    funext i
    rw [show ((i : ℤ) + -k).toNat = i - k by omega]
  rw [shift, Prog.wp_bind, Prog.wp_get, Prog.wp_ite, if_neg (by rw [h.size]; omega), Prog.wp_bind,
    Prog.wp_when, if_neg hneg, Prog.wp_bind, if_neg hneg, if_pos hneg', hbody, Int.toNat_natCast]
  apply (wp_shiftLeft h.toStored hk hki (by rwa [h.size]) fun j hj => h.cell_eq hj).then
  rintro _ t ⟨f, rfl, hf⟩
  rw [h.size] at hf ⊢
  refine ⟨f, ?_, ?_, hf⟩
  · simp
  · simp only [World.edit_vec, h.size]
    rw [show ((l.length : ℤ) + -(k : ℤ)).toNat = l.length - k by omega]

/-- `shift` by nothing. -/
lemma wp_shift_zero {w : World α} {v index : ℕ} {l : List α} (h : Holds N w v l)
    (hindex : index ≤ l.length) :
    Prog.wp (shift N v index 0) (fun r w' => r = (w.idata N v, index) ∧ w' = w) Prog.never w := by
  rw [shift, Prog.wp_bind, Prog.wp_get, Prog.wp_ite, if_neg (by rw [h.size]; omega), Prog.wp_bind,
    Prog.wp_when, if_neg (by omega), Prog.wp_bind, if_neg (by omega), if_neg (by omega)]
  have hw : w.setSize v ((w.vec v).m_size + (0 : ℤ)).toNat = w := by
    rw [Int.add_zero, Int.toNat_natCast]
    simp [World.setSize, World.setVec]
  change (((w.setSize v ((w.vec v).m_size + (0 : ℤ)).toNat).idata N v, (index : ℤ).toNat) = _ ∧
    w.setSize v ((w.vec v).m_size + (0 : ℤ)).toNat = w)
  rw [hw, Int.toNat_natCast]
  exact ⟨rfl, rfl⟩

/-- The slots after the first `i` of the values `xs` have been constructed from `index` on. -/
def filledCells (c : ℕ → Slot α) (index : ℕ) (xs : List α) (i : ℕ) : ℕ → Slot α := fun j =>
  if index ≤ j ∧ j < index + i then .live xs[j - index]? else c j

lemma filledCells_zero (c : ℕ → Slot α) (index : ℕ) (xs : List α) : filledCells c index xs 0 = c := by
  funext j
  rw [filledCells, if_neg (by omega)]

lemma filledCells_succ (c : ℕ → Slot α) (index i : ℕ) (xs : List α) :
    Function.update (filledCells c index xs i) (index + i) (.live xs[i]?) =
      filledCells c index xs (i + 1) := by
  funext j
  by_cases hj : j = index + i
  · subst hj
    rw [Function.update_self, filledCells, if_pos (by omega), Nat.add_sub_cancel_left]
  · rw [Function.update_of_ne hj, filledCells, filledCells]
    have h1 : j < index + i ↔ j < index + (i + 1) := by omega
    simp only [h1]

/-- The argument can be read as the value `x`, without a fault. -/
def Reads (N : ℕ) (w : World α) (arg : Arg α) (x : α) : Prop :=
  Prog.wp (arg.get N) (fun y w' => y = some x ∧ w' = w) Prog.never w

lemma reads_value (w : World α) (x : α) : Reads N w (.value x) x := ⟨rfl, rfl⟩

lemma reads_ref {w : World α} {b : Base} {i : ℕ} {x : α} (hb : w.inBounds N b i = true)
    (hc : w.cell b i = .live (some x)) : Reads N w (.ref b i) x := by
  change (w.cell b i).value = some x ∧ w.edit b (w.cell b)
    (faultUnless (w.inBounds N b i) .outOfBounds ++ faultUnless (w.cell b i).isLive .readDead) = w
  rw [hb, hc]
  exact ⟨rfl, World.edit_self w b⟩

/-- Construction from an argument where constructors do not throw. -/
lemma wp_initFrom {w : World α} {b : Base} {i : ℕ} {arg : Arg α} {x : α} (hread : Reads N w arg x)
    (hbudget : w.budget = none) (hb : w.inBounds N b i = true) {E : Err → World α → Prop}
    {Q : Unit → World α → Prop} (h : ∀ f, Harmless ((w.cell b i).isLive = false) f →
      Q () (w.edit b (Function.update (w.cell b) i (.live (some x))) f)) :
    Prog.wp (initFrom N b i arg) Q E w := by
  rw [initFrom, Prog.wp_bind, spend, Prog.wp_bind, Prog.wp_get, hbudget]
  change Prog.wp (arg.get N >>= fun x => init N b i x) Q E w
  rw [Prog.wp_bind]
  apply Prog.wp.then hread
  rintro _ _ ⟨rfl, rfl⟩
  exact wp_init (some x) hb h

/-- A loop that constructs the values `xs` in consecutive slots, from arguments that can be read
as these values when it is their turn. -/
lemma wp_fill_reads {w : World α} {b : Base} {index : ℕ} {xs : List α} {body : ℕ → VecM α Unit}
    (hbudget : w.budget = none) (hb : ∀ j < index + xs.length, w.inBounds N b j = true)
    (hbody : ∀ i x, xs[i]? = some x → ∃ arg, body i = initFrom N b (index + i) arg ∧
      ∀ f, Reads N (w.edit b (filledCells (w.cell b) index xs i) f) arg x) :
    Prog.wp (Prog.forUp body xs.length) (fun _ w' => ∃ f,
      w' = w.edit b (filledCells (w.cell b) index xs xs.length) f ∧
      Harmless (∀ j, index ≤ j → j < index + xs.length → (w.cell b j).isLive = false) f)
      Prog.never w := by
  apply Prog.wp_forUp (I := fun i w' => ∃ f, w' = w.edit b (filledCells (w.cell b) index xs i) f ∧
    Harmless (∀ j, index ≤ j → j < index + xs.length → (w.cell b j).isLive = false) f)
  · refine ⟨[], ?_, Harmless.nil _⟩
    rw [filledCells_zero, World.edit_self]
  · rintro i hi t ⟨f, rfl, hf⟩
    have hx : xs[i]? = some xs[i] := List.getElem?_eq_getElem hi
    obtain ⟨arg, harg, hread⟩ := hbody i _ hx
    rw [harg]
    refine wp_initFrom (hread f) (by exact hbudget) (by exact hb (index + i) (by omega)) fun f' hf' => ?_
    rw [World.edit_edit, World.edit_cell_self, ← hx, filledCells_succ]
    refine ⟨f ++ f', rfl, hf.append hf' fun hg => ⟨hg, ?_⟩⟩
    rw [World.edit_cell_self, filledCells, if_neg (by omega)]
    exact hg _ (by omega) (by omega)

/-- The list after the values `xs` have been inserted at `index`. -/
def inserted (l xs : List α) (index : ℕ) : List α := l.take index ++ xs ++ l.drop index

lemma length_inserted (l xs : List α) (index : ℕ) :
    (inserted l xs index).length = l.length + xs.length := by
  rw [inserted, List.length_append, List.length_append, List.length_take, List.length_drop]
  omega

lemma getElem?_inserted {l : List α} (xs : List α) {index : ℕ} (hindex : index ≤ l.length) (j : ℕ) :
    (inserted l xs index)[j]? = if j < index then l[j]? else
      if j < index + xs.length then xs[j - index]? else l[j - xs.length]? := by
  have hlen : (l.take index).length = index := by rw [List.length_take]; omega
  rw [inserted, List.append_assoc]
  split_ifs with h1 h2
  · rw [List.getElem?_append_left (by omega), List.getElem?_take_of_lt h1]
  · rw [List.getElem?_append_right (by omega), hlen, List.getElem?_append_left (by omega)]
  · rw [List.getElem?_append_right (by omega), hlen, List.getElem?_append_right (by omega),
      List.getElem?_drop]
    congr 1
    omega

/-- Room made by `shift` and filled with `xs`: an insertion. -/
lemma does_insert {w w₁ : World α} {v index : ℕ} {l : List α} (xs : List α) {f f' : List Fault}
    (hd : Does N v w w₁ l True) (hindex : index ≤ l.length)
    (hmax : l.length + xs.length < 2 ^ 63) (hcap : l.length + xs.length ≤ (w₁.vec v).m_capacity)
    (hf : Harmless (l.length ≤ index + xs.length ∧ Tidy N w₁ v) f)
    (hf' : Harmless (∀ j, index ≤ j → j < index + xs.length →
      (rightCells (w₁.cell (w₁.idata N v)) xs.length l.length index j).isLive = false) f') :
    Does N v w (((w₁.edit (w₁.idata N v)
      (rightCells (w₁.cell (w₁.idata N v)) xs.length l.length index) f).setSize v
      (l.length + xs.length)).edit (w₁.idata N v)
      (filledCells (rightCells (w₁.cell (w₁.idata N v)) xs.length l.length index) index xs xs.length)
      f') (inserted l xs index) (l.length ≤ index + xs.length) := by
  have hlen := length_inserted l xs index
  have hsize := hd.holds.size
  -- beyond the vector a tidy one has no live slot
  have hbeyond : Tidy N w₁ v → ∀ j, l.length ≤ j → (w₁.cell (w₁.idata N v) j).isLive = false := by
    intro ht j hj
    rw [← Bool.not_eq_true]
    intro hl
    have hlt := (ht _ hd.holds.not_foreign_idata j hl).2
    omega
  rw [World.setSize_edit, World.edit_edit, ← hlen]
  refine (hd.trans (does_put hd.holds.toStored (g := l.length ≤ index + xs.length) ?_ ?_ ?_ ?_ ?_ ?_)
    ).weaken fun hg => ⟨trivial, hg⟩
  · rwa [hlen]
  · rwa [hlen]
  · intro j a hj
    rw [getElem?_inserted xs hindex] at hj
    split_ifs at hj with h1 h2
    · rw [filledCells, if_neg (by omega), rightCells, if_neg (by omega), if_neg (by omega)]
      exact hd.holds.cells j a hj
    · rw [filledCells, if_pos (by omega), hj]
    · have hjl : j - xs.length < l.length := (List.getElem?_eq_some_iff.mp hj).1
      rw [filledCells, if_neg (by omega), rightCells, if_pos (by omega)]
      exact hd.holds.cells _ a hj
  · intro e he
    rcases List.mem_append.mp he with he | he
    · exact hf.1 e he
    · exact hf'.1 e he
  · intro hg ht
    rw [hf.2 ⟨hg, ht⟩, hf'.2, List.append_nil]
    intro j hj hj'
    rw [rightCells, if_neg (by omega)]
    split_ifs with h1
    · rfl
    · exact hbeyond ht j (by omega)
  · intro hg ht j hl
    rw [hlen]
    by_contra hj
    rw [filledCells, if_neg (by omega), rightCells, if_neg (by omega), if_neg (by omega),
      hbeyond ht j (by omega)] at hl
    cases hl

/-- The insertions of several values: `shift`, and then a loop that constructs them from what
stands in the slots by then. -/
lemma wp_shift_fill_reads {w : World α} {v index : ℕ} {l : List α} (xs : List α)
    (h : Holds N w v l) (hbudget : w.budget = none) (hindex : index ≤ l.length)
    (hmax : l.length + xs.length < 2 ^ 63) (body : Base × ℕ → ℕ → VecM α Unit)
    (hbody : ∀ w₁, Grown N v w w₁ l xs.length → ∀ i x, xs[i]? = some x →
      ∃ arg, body (w₁.idata N v, index) i = initFrom N (w₁.idata N v) (index + i) arg ∧
        ∀ t : World α, t.inBounds N = w₁.inBounds N → t.cell (w₁.idata N v) = filledCells
          (rightCells (w₁.cell (w₁.idata N v)) xs.length l.length index) index xs i →
          Reads N t arg x) :
    Prog.wp (shift N v index xs.length >>= fun ptr => Prog.forUp (body ptr) xs.length)
      (fun _ w' => Does N v w w' (inserted l xs index) (xs = [] ∨ l.length ≤ index + xs.length))
      Prog.never w := by
  rw [Prog.wp_bind]
  rcases Nat.eq_zero_or_pos xs.length with h0 | hk
  · have hnil : xs = [] := List.eq_nil_of_length_eq_zero h0
    subst hnil
    apply (wp_shift_zero h hindex).then
    rintro r _ ⟨-, rfl⟩
    rw [List.length_nil, Prog.forUp, Prog.wp_pure, inserted, List.append_nil, List.take_append_drop]
    exact (Does.refl h).weaken fun _ => trivial
  · apply (wp_shift_right_grown h hindex hk hmax).then
    rintro r _ ⟨w₁, f, hg, rfl, rfl, hf⟩
    have hd := hg.toDoes
    have hcap := hg.room
    have hbudget₁ : w₁.budget = none := hd.frame.budget.trans hbudget
    have hreads : ∀ t : World α, t.inBounds N = w₁.inBounds N → t.cell (w₁.idata N v) =
        rightCells (w₁.cell (w₁.idata N v)) xs.length l.length index → ∀ i x, xs[i]? = some x →
        ∃ arg, body (w₁.idata N v, index) i = initFrom N (w₁.idata N v) (index + i) arg ∧
          ∀ f', Reads N (t.edit (w₁.idata N v)
            (filledCells (t.cell (w₁.idata N v)) index xs i) f') arg x := by
      intro t hin hcell i x hx
      obtain ⟨arg, harg, hread⟩ := hbody w₁ hg i x hx
      refine ⟨arg, harg, fun f' => hread _ hin ?_⟩
      rw [World.edit_cell_self, hcell]
    refine (wp_fill_reads (by exact hbudget₁) (fun j hj => ?_) (hreads _ (by rfl) ?_)).then ?_
    · have hj' : j < index + xs.length := hj
      exact hd.holds.inBounds (by omega)
    · simp
    · rintro _ _ ⟨f', rfl, hf'⟩
      simp only [World.setSize_cell, World.edit_cell_self] at hf' ⊢
      refine (does_insert xs hd hindex hmax hcap hf ?_).weaken ?_
      · exact hf'
      · rintro (rfl | hg)
        · exact absurd hk (Nat.lt_irrefl 0)
        · exact hg

lemma wp_shift_fill {w : World α} {v index : ℕ} {l : List α} (xs : List α) (h : Holds N w v l)
    (hbudget : w.budget = none) (hindex : index ≤ l.length) (hmax : l.length + xs.length < 2 ^ 63)
    (body : Base × ℕ → ℕ → VecM α Unit)
    (hbody : ∀ p i x, xs[i]? = some x → body p i = initFrom N p.1 (p.2 + i) (.value x)) :
    Prog.wp (shift N v index xs.length >>= fun ptr => Prog.forUp (body ptr) xs.length)
      (fun _ w' => Does N v w w' (inserted l xs index) (xs = [] ∨ l.length ≤ index + xs.length))
      Prog.never w :=
  wp_shift_fill_reads xs h hbudget hindex hmax body fun _ _ i x hx =>
    ⟨.value x, hbody _ i x hx, fun t _ _ => reads_value t x⟩

theorem wp_insertRange {w : World α} {v index : ℕ} {l xs : List α} (h : Holds N w v l)
    (hbudget : w.budget = none) (hindex : index ≤ l.length) (hmax : l.length + xs.length < 2 ^ 63) :
    Prog.wp (insertRange N v index (xs.map .value))
      (fun _ w' => Does N v w w' (inserted l xs index) (xs = [] ∨ l.length ≤ index + xs.length))
      Prog.never w := by
  rw [insertRange, List.length_map, toPtrdiff_eq (by omega)]
  apply wp_shift_fill xs h hbudget hindex hmax
  intro p i x hx
  rw [List.getElem?_map, hx]
  rfl

theorem wp_insertCount {w : World α} {v index count : ℕ} {l : List α} {x : α} (h : Holds N w v l)
    (hbudget : w.budget = none) (hindex : index ≤ l.length) (hmax : l.length + count < 2 ^ 63) :
    Prog.wp (insertCount N v index count (.value x))
      (fun _ w' => Does N v w w' (inserted l (List.replicate count x) index)
        (count = 0 ∨ l.length ≤ index + count)) Prog.never w := by
  rw [insertCount, toPtrdiff_eq (by omega)]
  have hfill := wp_shift_fill (List.replicate count x) h hbudget hindex
    (by rwa [List.length_replicate])
    (fun ptr i => initFrom N ptr.1 (ptr.2 + i) (.value x)) fun p i y hy => by
      rw [List.getElem?_replicate] at hy
      split_ifs at hy
      cases hy
      rfl
  rw [List.length_replicate] at hfill
  refine hfill.then fun _ w' hd => hd.weaken ?_
  rintro (rfl | hg)
  · exact .inl rfl
  · exact .inr hg

/-- `insert` of one value; it returns the position where the value now stands. -/
theorem wp_insert {w : World α} {v index : ℕ} {l : List α} {x : α} (h : Holds N w v l)
    (hbudget : w.budget = none) (hindex : index ≤ l.length) (hmax : l.length + 1 < 2 ^ 63) :
    Prog.wp (insert N v index (.value x)) (fun r w' => r = (w'.idata N v, index) ∧
      Does N v w w' (inserted l [x] index) (l.length ≤ index + 1)) Prog.never w := by
  rw [SmallVec.insert, Prog.wp_bind]
  apply (wp_shift_right (k := 1) h hindex Nat.one_pos hmax).then
  rintro r _ ⟨w₁, f, hd, hcap, rfl, rfl, hf⟩
  have hbudget₁ : w₁.budget = none := hd.frame.budget.trans hbudget
  rw [Prog.wp_bind]
  refine wp_initFrom (reads_value _ _) (by exact hbudget₁) (by exact hd.holds.inBounds (by omega)) fun f' hf' => ?_
  have hfilled := filledCells_succ (rightCells (w₁.cell (w₁.idata N v)) 1 l.length index) index 0 [x]
  rw [filledCells_zero] at hfilled
  simp only [World.setSize_cell, World.edit_cell_self] at hf' ⊢
  rw [Prog.wp_pure]
  refine ⟨by simp, ?_⟩
  have hdoes := does_insert [x] hd hindex hmax hcap hf (hf'.weaken fun hg =>
    hg index (Nat.le_refl index) (Nat.lt_succ_self index))
  rw [List.length_singleton, ← hfilled] at hdoes
  exact hdoes

/-- The list after the elements from `first` up to `last` have been erased. -/
def erased (l : List α) (first last : ℕ) : List α := l.take first ++ l.drop last

lemma length_erased {l : List α} {first last : ℕ} (hfl : first ≤ last) (hl : last ≤ l.length) :
    (erased l first last).length = l.length - (last - first) := by
  rw [erased, List.length_append, List.length_take, List.length_drop]
  omega

lemma getElem?_erased {l : List α} {first last : ℕ} (hfl : first ≤ last) (hl : last ≤ l.length)
    (j : ℕ) : (erased l first last)[j]? = if j < first then l[j]? else l[j + (last - first)]? := by
  have hlen : (l.take first).length = first := by rw [List.length_take]; omega
  rw [erased]
  split_ifs with h
  · rw [List.getElem?_append_left (by omega), List.getElem?_take_of_lt h]
  · rw [List.getElem?_append_right (by omega), hlen, List.getElem?_drop]
    congr 1
    omega

/-- `erase` handles lifetimes properly where as many elements follow the range as it has. It
returns the position where the range ended. -/
theorem wp_eraseRange_returns {w : World α} {v first last : ℕ} {l : List α} (h : Holds N w v l)
    (hfl : first ≤ last) (hl : last ≤ l.length) :
    Prog.wp (eraseRange N v first last) (fun r w' => r = (w'.idata N v, last) ∧
      Does N v w w' (erased l first last) (first = last ∨ l.length - last = last - first))
      Prog.never w := by
  have hsmall := h.small
  have hsize := h.size
  rw [eraseRange, Prog.wp_bind, Prog.wp_get, Prog.wp_ite, if_neg (by omega),
    show ((last : ℤ) - first).toNat = last - first by omega]
  change Prog.wp (shift N v (first + (last - first : ℕ)) (-toPtrdiff (last - first))) _ _ _
  rw [toPtrdiff_eq (by omega), show (first : ℤ) + (last - first : ℕ) = last by omega]
  rcases Nat.eq_zero_or_pos (last - first) with h0 | hk
  · obtain rfl : first = last := by omega
    rw [h0]
    apply (wp_shift_zero h hl).then
    rintro r _ ⟨rfl, rfl⟩
    rw [erased, List.take_append_drop]
    exact ⟨rfl, (Does.refl h).weaken fun _ => trivial⟩
  · apply (wp_shift_left h hl hk (Nat.sub_le last first)).then
    rintro r _ ⟨f, rfl, rfl, hf⟩
    have hlen := length_erased hfl hl
    rw [← hlen]
    refine ⟨by rw [World.idata_setSize, World.idata_edit], ?_⟩
    refine does_put h.toStored (by omega) ?_ ?_ hf.1 ?_ ?_
    · have hroom := h.room
      omega
    · intro j a hj
      rw [getElem?_erased hfl hl] at hj
      split_ifs at hj with h1
      · rw [leftCells, if_neg (by omega), if_neg (by omega)]
        exact h.cells j a hj
      · have hjl : j + (last - first) < l.length := (List.getElem?_eq_some_iff.mp hj).1
        rw [leftCells, if_pos (by omega)]
        exact h.cells _ a hj
    · intro hg _
      exact hf.2 (by omega)
    · intro hg ht j hj
      rw [hlen]
      by_contra hjl
      rw [leftCells, if_neg (by omega)] at hj
      split_ifs at hj with h1
      · cases hj
      · have hlt := (ht _ h.not_foreign_idata j hj).2
        omega

theorem wp_eraseRange {w : World α} {v first last : ℕ} {l : List α} (h : Holds N w v l)
    (hfl : first ≤ last) (hl : last ≤ l.length) :
    Prog.wp (eraseRange N v first last) (fun _ w' => Does N v w w' (erased l first last)
      (first = last ∨ l.length - last = last - first)) Prog.never w :=
  (wp_eraseRange_returns h hfl hl).then fun _ _ hd => hd.2

/-- `erase` throws for a range that is not inside the vector, and changes nothing. -/
theorem wp_eraseRange_throws {w : World α} {v : ℕ} {first last : ℤ} {l : List α}
    (h : Holds N w v l) (hbad : first < 0 ∨ last > l.length ∨ first > last) :
    Prog.wp (eraseRange N v first last) (fun _ _ => False) (fun e w' => w' = w ∧
      e = .outOfRange "SmallVec::erase: iterator range out of range") w := by
  have hsize := h.size
  rw [eraseRange, Prog.wp_bind, Prog.wp_get, Prog.wp_ite, if_pos (by omega)]
  exact ⟨rfl, rfl⟩

end Asp.Collections
