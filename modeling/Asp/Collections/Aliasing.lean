import Asp.Collections.Erase

/-! Insertions of an element of the vector itself, by a reference to its slot: when the slot still
holds the element by the time it is read. -/
namespace Asp.Collections
open Asp.Foundation SmallVec
variable {α : Type} {N : ℕ}

/-- The program returns with the vector holding `l`, and has read live elements only. -/
def Gives {β : Type} (N v : ℕ) (w : World α) (p : VecM α β) (l : List α) : Prop :=
  Prog.wp p (fun _ w' => Holds N w' v l ∧
    ∃ f, w'.faults = w.faults ++ f ∧ ∀ e ∈ f, e.isLifetime = true) Prog.never w

section Reading
variable {β : Type} {w : World α} {v : ℕ} {p : VecM α β} {l l' : List α}

lemma gives_iff_of_does {g : Prop} (h : Prog.wp p (fun _ w' => Does N v w w' l' g) Prog.never w) :
    Gives N v w p l ↔ l' = l := by
  refine wp_iff_of h fun _ w' hd => ⟨fun hl => hd.holds.unique hl.1,?_⟩
  rintro rfl
  obtain ⟨f,hf,hlife,_⟩ := hd.faults
  exact ⟨hd.holds,f,hf,hlife⟩

/-- A slot that was not live has been read since. -/
def ReadsDead (w w' : World α) : Prop := ∃ f, w'.faults = w.faults ++ f ∧ Fault.readDead ∈ f

lemma not_gives (h : Prog.wp p (fun _ w' => ReadsDead w w') Prog.never w) : ¬Gives N v w p l := by
  intro hg
  obtain ⟨b,w',hrun,f,hf,hmem⟩ := h.elim
  obtain ⟨b',w'',hrun',_,f',hf',hlife⟩ := hg.elim
  rw [hrun] at hrun'
  cases hrun'
  rw [hf] at hf'
  obtain rfl := List.append_cancel_left hf'
  cases hlife _ hmem

/-- Construction from a reference to a slot: the fault where it is dead. -/
lemma wp_initFrom_ref {b b' : Base} {i j : ℕ} (hbudget : w.budget = none) :
    Prog.wp (initFrom N b i (.ref b' j)) (fun _ w' => w'.budget = none ∧ w'.vec = w.vec ∧
      ∃ f, w'.faults = w.faults ++ f ∧ ((w.cell b' j).isLive = false → Fault.readDead ∈ f))
      Prog.never w := by
  rw [initFrom, Prog.wp_bind, spend, Prog.wp_bind, Prog.wp_get, hbudget]
  refine ⟨hbudget,rfl,_,List.append_assoc ..,fun hdead => ?_⟩
  rw [hdead]
  simp [faultUnless]

/-- A loop of such constructions, the first of which reads a dead slot. -/
lemma wp_fill_dead {b b' : Base} {index j count : ℕ} (hbudget : w.budget = none)
    (hcount : 0 < count) (hdead : (w.cell b' j).isLive = false) :
    Prog.wp (Prog.forUp (fun i => initFrom N b (index + i) (.ref b' j)) count)
      (fun _ w' => ReadsDead w w') Prog.never w := by
  have hloop : Prog.wp (Prog.forUp (fun i => initFrom N b (index + i) (.ref b' j)) count)
      (fun _ w' => w'.budget = none ∧ (count = 0 ∧ w' = w ∨ ReadsDead w w')) Prog.never w := by
    apply Prog.wp_forUp (I := fun i t => t.budget = none ∧ (i = 0 ∧ t = w ∨ ReadsDead w t))
    · exact ⟨hbudget,Or.inl ⟨rfl,rfl⟩⟩
    · rintro i _ t ⟨ht,hread⟩
      apply (wp_initFrom_ref ht).then
      rintro _ t' ⟨ht',_,f,hf,hfault⟩
      refine ⟨ht',Or.inr ?_⟩
      rcases hread with ⟨_,rfl⟩ | ⟨f',hf',hmem⟩
      · exact ⟨f,hf,hfault hdead⟩
      · exact ⟨f' ++ f,by rw [hf, hf', List.append_assoc],List.mem_append_left _ hmem⟩
  apply hloop.then
  rintro _ w' ⟨_,⟨h0,_⟩ | hread⟩
  · omega
  · exact hread

lemma ReadsDead.after {w₁ w₂ : World α} {f : List Fault} (hf : w₁.faults = w.faults ++ f)
    (h : ReadsDead w₁ w₂) : ReadsDead w w₂ := by
  obtain ⟨f',hf',hmem⟩ := h
  exact ⟨f ++ f',by rw [hf', hf, List.append_assoc],List.mem_append_right _ hmem⟩

end Reading

section Growth
variable {w w₁ : World α} {v j : ℕ} {l : List α} {extra : ℕ}

/-- Where the vector has to grow, the reference is to a slot of its old storage. -/
lemma Grown.dead (h : Grown N v w w₁ l extra) (hlt : (w.vec v).m_capacity < l.length + extra)
    (hj : j < l.length) : w.idata N v ≠ w₁.idata N v ∧
      (w₁.cell (w.idata N v) j).isLive = false := by
  have hdead := h.leaves hlt j hj
  refine ⟨fun he => ?_,hdead⟩
  rw [he, h.holds.cells j l[j] (List.getElem?_eq_getElem hj)] at hdead
  cases hdead

/-- An element that is appended to its own vector. -/
lemma emplace_back_self_iff {x : α} (h : Holds N w v l) (hbudget : w.budget = none)
    (hj : l[j]? = some x) (hmax : l.length + 1 < 2 ^ 63) :
    Gives N v w (emplace_back N v (.ref (w.idata N v) j)) (l ++ [x]) ↔
      l.length + 1 ≤ (w.vec v).m_capacity := by
  have hjl := (List.getElem?_eq_some_iff.mp hj).1
  rcases Nat.lt_or_ge (w.vec v).m_capacity (l.length + 1) with hlt | hle
  · refine iff_of_false (not_gives ?_) (by omega)
    rw [emplace_back, Prog.wp_bind]
    apply (wp_growFor_grown h hmax.le).then
    intro _ w₁ hg
    obtain ⟨f,hf,_⟩ := hg.faults
    rw [Prog.wp_bind, Prog.wp_get, Prog.wp_bind]
    apply (wp_initFrom_ref (hg.frame.budget.trans hbudget)).then
    rintro _ w₂ ⟨_,_,f',hf',hread⟩
    exact ReadsDead.after hf ⟨f',hf',hread (hg.dead hlt hjl).2⟩
  · refine iff_of_true ((gives_iff_of_does (wp_emplace_back_grown h hbudget ?_ hmax)).mpr rfl) hle
    intro w' hg
    rw [hg.stays hle]
    exact reads_ref (h.inBounds (by omega)) (h.cells j x hj)

end Growth

section Insertion
variable {w : World α} {v i j count : ℕ} {l : List α} {x y : α}

/-- The slot is read as `y` throughout the insertion: it lies before the gap, or behind it and
holds what the gap has displaced. -/
lemma wp_insertCount_ref (h : Holds N w v l) (hbudget : w.budget = none) (hi : i ≤ l.length)
    (hmax : l.length + count < 2 ^ 63) (hread : 0 < count →
      l.length + count ≤ (w.vec v).m_capacity ∧
        (j < i ∧ l[j]? = some y ∨ i + count ≤ j ∧ j < l.length ∧ l[j - count]? = some y)) :
    Prog.wp (insertCount N v i count (.ref (w.idata N v) j))
      (fun _ w' => Does N v w w' (inserted l (List.replicate count y) i) False) Prog.never w := by
  have hfill := wp_shift_fill_reads (List.replicate count y) h hbudget hi
    (by rwa [List.length_replicate])
    (fun ptr k => initFrom N ptr.1 (ptr.2 + k) (.ref (w.idata N v) j)) ?_
  · rw [insertCount, toPtrdiff_eq (by omega)]
    rw [List.length_replicate] at hfill
    exact hfill.then fun _ _ hd => hd.weaken False.elim
  intro w₁ hg k z hz
  rw [List.length_replicate] at hg ⊢
  rw [List.getElem?_replicate] at hz
  split_ifs at hz with hk
  cases hz
  obtain ⟨hfits,hslot⟩ := hread (by omega)
  obtain rfl := hg.stays hfits
  refine ⟨_,rfl,fun t hin hcell => reads_ref ?_ ?_⟩
  · rw [hin]
    apply h.inBounds
    rcases hslot with ⟨hlt,_⟩ | ⟨_,hlt,_⟩ <;> omega
  · rw [hcell]
    rcases hslot with ⟨hlt,hy⟩ | ⟨hle,hlt,hy⟩
    · rw [filledCells, if_neg (by omega), rightCells, if_neg (by omega), if_neg (by omega)]
      exact h.cells j y hy
    · rw [filledCells, if_neg (by omega), rightCells, if_pos (by omega)]
      exact h.cells _ y hy

/-- The slot is dead before the first element is constructed: the vector has grown, or the slot
is in the gap. -/
lemma wp_insertCount_dead (h : Holds N w v l) (hbudget : w.budget = none) (hi : i ≤ l.length)
    (hmax : l.length + count < 2 ^ 63) (hcount : 0 < count) (hj : j < l.length)
    (hdead : (w.vec v).m_capacity < l.length + count ∨ i ≤ j ∧ j < i + count) :
    Prog.wp (insertCount N v i count (.ref (w.idata N v) j))
      (fun _ w' => ReadsDead w w') Prog.never w := by
  rw [insertCount, toPtrdiff_eq (by omega), Prog.wp_bind]
  apply (wp_shift_right_grown h hi hcount hmax).then
  rintro _ _ ⟨w₁,f,hg,rfl,rfl,_⟩
  obtain ⟨f₁,hf₁,_⟩ := hg.faults
  have hslot : (((w₁.edit (w₁.idata N v) (rightCells (w₁.cell (w₁.idata N v)) count l.length i)
      f).setSize v (l.length + count)).cell (w.idata N v) j).isLive = false := by
    rw [World.setSize_cell]
    by_cases hlt : (w.vec v).m_capacity < l.length + count
    · obtain ⟨hne,hold⟩ := hg.dead hlt hj
      rwa [World.edit_cell_of_ne _ _ _ _ hne]
    · obtain rfl := hg.stays (by omega)
      rw [World.edit_cell_self, rightCells, if_neg (by omega), if_pos (by omega)]
      rfl
  refine (wp_fill_dead (by exact hg.frame.budget.trans hbudget) hcount hslot).then
    fun _ _ hread => ReadsDead.after (f := f₁ ++ f) ?_ hread
  change w₁.faults ++ f = _
  rw [hf₁, List.append_assoc]

lemma inserted_replicate_inj (hi : i ≤ l.length) (hcount : 0 < count)
    (h : inserted l (List.replicate count y) i = inserted l (List.replicate count x) i) : y = x := by
  have hat := congrArg (·[i]?) h
  simp only [getElem?_inserted _ hi, List.length_replicate, List.getElem?_replicate] at hat
  simpa [hcount] using hat

/-- An element that is inserted into its own vector. -/
lemma insertCount_self_iff (h : Holds N w v l) (hbudget : w.budget = none) (hj : l[j]? = some x)
    (hi : i ≤ l.length) (hmax : l.length + count < 2 ^ 63) :
    Gives N v w (insertCount N v i count (.ref (w.idata N v) j))
      (inserted l (List.replicate count x) i) ↔
      count = 0 ∨ l.length + count ≤ (w.vec v).m_capacity ∧
        (j < i ∨ i + count ≤ j ∧ l[j - count]? = l[j]?) := by
  have hjl := (List.getElem?_eq_some_iff.mp hj).1
  have hroom := h.room
  rw [h.size] at hroom
  by_cases hsame : count = 0 ∨ l.length + count ≤ (w.vec v).m_capacity ∧
      (j < i ∨ i + count ≤ j ∧ l[j - count]? = l[j]?)
  · refine iff_of_true ?_ hsame
    refine (gives_iff_of_does (wp_insertCount_ref (y := x) h hbudget hi hmax fun hpos => ?_)).mpr rfl
    obtain ⟨hfits,hslot⟩ := hsame.resolve_left (by omega)
    rw [hj] at hslot
    exact ⟨hfits,hslot.imp (fun hlt => ⟨hlt,hj⟩) fun hgap => ⟨hgap.1,hjl,hgap.2⟩⟩
  · refine iff_of_false ?_ hsame
    rw [not_or, not_and_or, not_or, not_and_or] at hsame
    obtain ⟨hcount,hslot⟩ := hsame
    have hpos := Nat.pos_of_ne_zero hcount
    by_cases hdead : (w.vec v).m_capacity < l.length + count ∨ i ≤ j ∧ j < i + count
    · exact not_gives (wp_insertCount_dead h hbudget hi hmax hpos hjl hdead)
    · -- the slot holds an element that the gap has displaced
      have hy := List.getElem?_eq_getElem (l := l) (i := j - count) (by omega)
      rw [gives_iff_of_does (wp_insertCount_ref h hbudget hi hmax
        fun _ => ⟨by omega,Or.inr ⟨by omega,hjl,hy⟩⟩)]
      intro heq
      have hne : l[j - count]? ≠ l[j]? := by
        rcases hslot with hcap | ⟨hij,hgap | hne⟩
        · omega
        · omega
        · exact hne
      rw [hy, hj, inserted_replicate_inj hi hpos heq] at hne
      exact hne rfl

/-- `insert` of one element constructs it as the other overload does for a count of one. -/
lemma gives_insert_iff {r : List α} {arg : Arg α} :
    Gives N v w (SmallVec.insert N v i arg) r ↔ Gives N v w (insertCount N v i 1 arg) r := by
  have hone : toPtrdiff 1 = 1 := toPtrdiff_eq (by decide)
  rw [Gives, Gives, SmallVec.insert, insertCount, hone, Prog.wp_bind, Prog.wp_bind]
  have hbody : ∀ (ptr : Base × ℕ) (t : World α) (Q : World α → Prop),
      Prog.wp (initFrom N ptr.1 ptr.2 arg >>= fun _ => pure ptr) (fun _ => Q) Prog.never t ↔
        Prog.wp (Prog.forUp (fun k => initFrom N ptr.1 (ptr.2 + k) arg) 1) (fun _ => Q)
          Prog.never t := by
    intro ptr t Q
    rw [Prog.wp_bind]
    exact Iff.rfl
  constructor
  · exact fun hw => hw.mono (fun ptr t ht => (hbody ptr t _).mp ht) fun _ _ hf => hf
  · exact fun hw => hw.mono (fun ptr t ht => (hbody ptr t _).mpr ht) fun _ _ hf => hf

end Insertion

/-- Inserting an element of the vector itself, by a reference to its slot j: at the end it is
right just if the vector need not grow, and elsewhere if, besides, the slot lies before the gap,
or behind it and has been filled with an equal element. -/
theorem self_insert_iff {w : World α} {v j : ℕ} {l : List α} {x : α} (h : Holds N w v l)
    (hbudget : w.budget = none) (hj : l[j]? = some x) :
    (l.length + 1 < 2 ^ 63 →
      (Gives N v w (push_back N v (.ref (w.idata N v) j)) (l ++ [x]) ↔
        l.length + 1 ≤ (w.vec v).m_capacity) ∧
      (Gives N v w (emplace_back N v (.ref (w.idata N v) j)) (l ++ [x]) ↔
        l.length + 1 ≤ (w.vec v).m_capacity)) ∧
    ∀ i ≤ l.length,
      (l.length + 1 < 2 ^ 63 →
        (Gives N v w (SmallVec.insert N v i (.ref (w.idata N v) j)) (inserted l [x] i) ↔
          l.length + 1 ≤ (w.vec v).m_capacity ∧
            (j < i ∨ i + 1 ≤ j ∧ l[j - 1]? = l[j]?))) ∧
      ∀ count, l.length + count < 2 ^ 63 →
        (Gives N v w (insertCount N v i count (.ref (w.idata N v) j))
          (inserted l (List.replicate count x) i) ↔
          count = 0 ∨ l.length + count ≤ (w.vec v).m_capacity ∧
            (j < i ∨ i + count ≤ j ∧ l[j - count]? = l[j]?)) := by
  refine ⟨fun hmax => ?_,fun i hi => ⟨fun hmax => ?_,fun count hmax => ?_⟩⟩
  · have hback := emplace_back_self_iff h hbudget hj hmax
    exact ⟨hback,hback⟩
  · have hone := insertCount_self_iff h hbudget hj hi hmax
    rw [gives_insert_iff]
    simpa using hone
  · exact insertCount_self_iff h hbudget hj hi hmax

theorem self_insert_iff_at : ∃ w : World ℕ, Holds 4 w 0 [7,8] ∧ w.budget = none ∧
    Gives 4 0 w (push_back 4 0 (.ref (w.idata 4 0) 1)) [7,8,8] := by
  obtain ⟨w,hw,h⟩ := exists_holds 4 [7,8] (by decide)
  have hcap := h.le_capacity
  exact ⟨w,h,hw.budget,(((self_insert_iff h hw.budget (j := 1) (x := 8) rfl).1 (by decide)).1).mpr
    (Nat.le_trans (by decide) hcap)⟩

/-- A full vector of two elements appends its first one: the growth comes first. -/
theorem push_back_self_reads_dead :
    ¬∀ (w : World ℕ) (v j : ℕ) (l : List ℕ) (x : ℕ), Clean 2 w → Holds 2 w v l →
      l[j]? = some x → Gives 2 v w (push_back 2 v (.ref (w.idata 2 v) j)) (l ++ [x]) := by
  intro hall
  have hr : ((vectors ℕ 2).runGuarded (Act.Proper 2) (World.empty 2 ℕ)
      [.construct 0, .call 0 (.push_back 7), .call 0 (.push_back 8)]).map
        (fun w => (w.alive 0,(w.vec 0).m_size,
          (push_back 2 0 (.ref (w.idata 2 0) 0) w).2.faults)) =
      some (true,2,[.readDead]) := by decide +kernel
  obtain ⟨w,hw,hf⟩ := Option.map_eq_some_iff.mp hr
  obtain ⟨halive,hf⟩ := Prod.mk.inj hf
  obtain ⟨hsize,hfaults⟩ := Prod.mk.inj hf
  have hclean := clean_of_reaches (clean_empty 2) (Machine.reaches_of_runGuarded hw)
  obtain ⟨l,hl⟩ := hclean.holds 0 halive
  have hlen : 0 < l.length := by
    rw [← hl.size, hsize]
    decide
  obtain ⟨_,w',hrun,_,f,hf',hlife⟩ :=
    (hall w 0 0 l l[0] hclean hl (List.getElem?_eq_getElem hlen)).elim
  rw [hrun, hf', hclean.faults, List.nil_append] at hfaults
  cases hlife Fault.readDead (hfaults ▸ List.mem_cons_self)

end Asp.Collections
