import Asp.Collections.Insert

/-! The other member functions: at the end of the vector, access, and the special members. -/
namespace Asp.Collections
open Asp.Foundation SmallVec
variable {α : Type} {N : ℕ}

/-- Beyond the vector a tidy one has no live slot. -/
lemma Tidy.dead {w : World α} {v : ℕ} (ht : Tidy N w v) (hs : Stored N w v) {j : ℕ}
    (hj : (w.vec v).m_size ≤ j) : (w.cell (w.idata N v) j).isLive = false := by
  rw [← Bool.not_eq_true]
  intro hl
  exact absurd (ht _ hs.not_foreign_idata j hl).2 (Nat.not_lt.mpr hj)

lemma getElem?_concat (l : List α) (x : α) (j : ℕ) :
    (l ++ [x])[j]? = if j = l.length then some x else l[j]? := by
  split_ifs with h
  · rw [h, List.getElem?_append_right (Nat.le_refl _), Nat.sub_self]
    rfl
  · rcases Nat.lt_or_ge j l.length with hj | hj
    · rw [List.getElem?_append_left hj]
    · rw [List.getElem?_eq_none hj, List.getElem?_eq_none]
      rw [List.length_append, List.length_singleton]
      omega

/-- A value that has been constructed behind the elements. -/
lemma does_append {w : World α} {v : ℕ} {l : List α} (x : α) {f : List Fault} (h : Holds N w v l)
    (hcap : l.length + 1 ≤ (w.vec v).m_capacity) (hmax : l.length + 1 < 2 ^ 63)
    (hf : Harmless ((w.cell (w.idata N v) (w.vec v).m_size).isLive = false) f) :
    Does N v w ((w.edit (w.idata N v) (Function.update (w.cell (w.idata N v)) (w.vec v).m_size
      (.live (some x))) f).setSize v ((w.vec v).m_size + 1)) (l ++ [x]) True := by
  have hsize := h.size
  have hlen : (l ++ [x]).length = (w.vec v).m_size + 1 := by
    rw [List.length_append, List.length_singleton, hsize]
  rw [← hlen]
  refine does_put h.toStored ?_ ?_ ?_ hf.1 ?_ ?_
  · omega
  · omega
  · intro j a hj
    rw [getElem?_concat] at hj
    split_ifs at hj with hjl
    · rw [hjl, ← hsize, Function.update_self, hj]
    · rw [Function.update_of_ne (by omega)]
      exact h.cells j a hj
  · intro _ ht
    exact hf.2 (ht.dead h.toStored (Nat.le_refl _))
  · intro _ ht j hj
    by_contra hjl
    rw [Function.update_of_ne (by omega), ht.dead h.toStored (by omega)] at hj
    cases hj

/-- The argument is read after the vector may have grown. -/
lemma wp_emplace_back_grown {w : World α} {v : ℕ} {l : List α} {arg : Arg α} {x : α}
    (h : Holds N w v l) (hbudget : w.budget = none)
    (harg : ∀ w', Grown N v w w' l 1 → Reads N w' arg x) (hmax : l.length + 1 < 2 ^ 63) :
    Prog.wp (emplace_back N v arg) (fun _ w' => Does N v w w' (l ++ [x]) True) Prog.never w := by
  rw [emplace_back, Prog.wp_bind]
  apply (wp_growFor_grown h hmax.le).then
  rintro _ w₁ hg
  have hroom := hg.room
  have hsize := hg.holds.size
  rw [Prog.wp_bind, Prog.wp_get, Prog.wp_bind]
  refine wp_initFrom (harg w₁ hg) (hg.frame.budget.trans hbudget)
    (hg.holds.inBounds (by omega)) fun f hf => ?_
  exact (hg.toDoes.trans (does_append x hg.holds hroom hmax hf)).weaken fun _ => ⟨trivial, trivial⟩

theorem wp_emplace_back {w : World α} {v : ℕ} {l : List α} {arg : Arg α} {x : α}
    (h : Holds N w v l) (hbudget : w.budget = none)
    (harg : ∀ w', Local N v w w' → Reads N w' arg x) (hmax : l.length + 1 < 2 ^ 63) :
    Prog.wp (emplace_back N v arg) (fun _ w' => Does N v w w' (l ++ [x]) True) Prog.never w :=
  wp_emplace_back_grown h hbudget (fun w' hg => harg w' hg.frame) hmax

theorem wp_pop_back {w : World α} {v : ℕ} {l : List α} (h : Holds N w v l) (hl : l ≠ []) :
    Prog.wp (pop_back N v) (fun _ w' => Does N v w w' l.dropLast True) Prog.never w := by
  have hpos := List.length_pos_iff.mpr hl
  have hsize := h.size
  have hroom := h.room
  have hsmall := h.small
  obtain ⟨x, hx⟩ := h.cell_eq (i := (w.vec v).m_size - 1) (by omega)
  have hlen : l.dropLast.length = (w.vec v).m_size - 1 := by rw [List.length_dropLast, hsize]
  rw [pop_back, Prog.wp_bind, Prog.wp_get, Prog.wp_ite, if_neg (by omega), Prog.wp_bind,
    Prog.wp_modify, ← hlen]
  rw [← hlen] at hx
  refine wp_destroy_live (x := some x) (by exact h.inBounds (by omega)) hx ?_
  rw [World.setSize_edit, World.setSize_cell]
  refine does_put h.toStored (by omega) (by omega) ?_ (fun e he => (List.not_mem_nil he).elim)
    (fun _ _ => rfl) ?_
  · intro j a hj
    rw [List.getElem?_dropLast] at hj
    split_ifs at hj with hjl
    rw [Function.update_of_ne (by omega)]
    exact h.cells j a hj
  · intro _ ht j hj
    by_contra hjl
    by_cases he : j = l.dropLast.length
    · rw [he, Function.update_self] at hj
      cases hj
    · rw [Function.update_of_ne he, ht.dead h.toStored (by omega)] at hj
      cases hj

theorem wp_pop_back_throws {w : World α} {v : ℕ} (h : Holds N w v []) :
    Prog.wp (pop_back N v) (fun _ _ => False) (fun e w' => w' = w ∧
      e = .outOfRange "SmallVec::pop_back: empty vector") w := by
  have hsize : (w.vec v).m_size = 0 := h.size
  rw [pop_back, Prog.wp_bind, Prog.wp_get, Prog.wp_ite, if_pos hsize]
  exact ⟨rfl, rfl⟩

/-- `clear` handles lifetimes properly where every slot below the size is live. -/
theorem wp_clear {w : World α} {v : ℕ} (h : Stored N w v) :
    Prog.wp (clear N v) (fun _ w' => Does N v w w' []
      (∀ i < (w.vec v).m_size, (w.cell (w.idata N v) i).isLive = true)) Prog.never w := by
  rw [clear, Prog.wp_bind, Prog.wp_get, Prog.wp_bind]
  have hloop : Prog.wp (Prog.forUp (fun i => destroy N (w.idata N v) i) (w.vec v).m_size)
      (fun _ w' => ∃ f, w' = w.edit (w.idata N v)
        (fun j => if j < (w.vec v).m_size then .dead else w.cell (w.idata N v) j) f ∧
        Harmless (∀ i < (w.vec v).m_size, (w.cell (w.idata N v) i).isLive = true) f)
      Prog.never w := by
    apply Prog.wp_forUp (I := fun n w' => ∃ f, w' = w.edit (w.idata N v)
      (fun j => if j < n then .dead else w.cell (w.idata N v) j) f ∧
      Harmless (∀ i < (w.vec v).m_size, (w.cell (w.idata N v) i).isLive = true) f)
    · refine ⟨[], ?_, Harmless.nil _⟩
      simp only [Nat.not_lt_zero, if_false]
      exact (World.edit_self w _).symm
    · rintro i hi t ⟨f, rfl, hf⟩
      refine wp_destroy (by exact h.inBounds (hi.trans_le h.room)) fun f' hf' => ?_
      rw [World.edit_edit, World.edit_cell_self]
      refine ⟨f ++ f', ?_, hf.append hf' fun hg => ⟨hg, ?_⟩⟩
      · congr 1
        funext j
        rcases Nat.lt_trichotomy j i with hj | rfl | hj
        · rw [Function.update_of_ne hj.ne, if_pos hj, if_pos (Nat.lt_succ_of_lt hj)]
        · rw [Function.update_self, if_pos (Nat.lt_succ_self j)]
        · rw [Function.update_of_ne hj.ne', if_neg (by omega), if_neg (by omega)]
      · rw [World.edit_cell_self, if_neg (Nat.lt_irrefl i)]
        exact hg i hi
  apply hloop.then
  rintro _ _ ⟨f, rfl, hf⟩
  refine does_put h (l := []) ?_ (Nat.zero_le _) ?_ hf.1 (fun hg _ => hf.2 hg) ?_
  · exact Nat.two_pow_pos 63
  · intro j a hj
    cases hj
  · intro _ ht j hj
    by_contra hjl
    split_ifs at hj with hlt
    · cases hj
    · rw [ht.dead h (Nat.not_lt.mp hlt)] at hj
      cases hj

theorem wp_subscript {w : World α} {v i : ℕ} {l : List α} {x : α} (h : Holds N w v l)
    (hx : l[i]? = some x) :
    Prog.wp (subscript N v i) (fun r w' => r = some x ∧ w' = w) Prog.never w := by
  have hi : i < l.length := (List.getElem?_eq_some_iff.mp hx).1
  have hsize := h.size
  exact reads_ref (h.inBounds (by have := h.room; omega)) (h.cells i x hx)

theorem wp_atIndex {w : World α} {v i : ℕ} {l : List α} {x : α} (h : Holds N w v l)
    (hx : l[i]? = some x) :
    Prog.wp (atIndex N v i) (fun r w' => r = some x ∧ w' = w) Prog.never w := by
  have hi : i < l.length := (List.getElem?_eq_some_iff.mp hx).1
  have hsize := h.size
  rw [atIndex, Prog.wp_bind, Prog.wp_get, Prog.wp_ite, if_neg (by omega)]
  exact reads_ref (h.inBounds (by have := h.room; omega)) (h.cells i x hx)

theorem wp_atIndex_throws {w : World α} {v i : ℕ} {l : List α} (h : Holds N w v l)
    (hi : l.length ≤ i) :
    Prog.wp (atIndex N v i) (fun _ _ => False) (fun e w' => w' = w ∧
      e = .outOfRange "SmallVec::at: index out of range") w := by
  have hsize := h.size
  rw [atIndex, Prog.wp_bind, Prog.wp_get, Prog.wp_ite, if_pos (by omega)]
  exact ⟨rfl, rfl⟩

/-- Copy assignment from another vector, whose storage it does not touch. -/
theorem wp_copyAssign {w : World α} {v other : ℕ} {l : List α} (hs : Stored N w v)
    (h : Holds N w other l) (hne : v ≠ other) (hf : Foreign N w v (w.idata N other))
    (hbudget : w.budget = none) :
    Prog.wp (copyAssign N v other) (fun _ w' => Does N v w w' l
      (∀ i < (w.vec v).m_size, (w.cell (w.idata N v) i).isLive = true)) Prog.never w := by
  have hsmall := h.small
  have hsize := h.size
  rw [copyAssign, if_neg hne, Prog.wp_bind]
  apply (wp_clear hs).then
  intro _ w₁ hd₁
  rw [Prog.wp_bind, Prog.wp_get, Prog.wp_bind]
  apply (wp_reserve hd₁.holds _).then
  rintro _ w₂ ⟨hd₂, -⟩
  have hd := hd₁.trans hd₂
  rw [Prog.wp_bind, Prog.wp_get, hd.frame.idata_eq hne.symm, hd.frame.vec other hne.symm, hsize]
  -- after `i` rounds the vector holds the first `i` elements
  have hloop : Prog.wp (Prog.forUp (fun i => emplace_back N v (.ref (w.idata N other) i)) l.length)
      (fun _ t => Does N v w t (l.take l.length)
        ((∀ i < (w.vec v).m_size, (w.cell (w.idata N v) i).isLive = true) ∧ True)) Prog.never w₂ := by
    apply Prog.wp_forUp (I := fun i t => Does N v w t (l.take i)
      ((∀ i < (w.vec v).m_size, (w.cell (w.idata N v) i).isLive = true) ∧ True))
    · rw [List.take_zero]
      exact hd
    · intro i hi t ht
      have hlen : (l.take i).length = i := by rw [List.length_take]; omega
      have hx : l[i]? = some l[i] := List.getElem?_eq_getElem hi
      apply (wp_emplace_back (x := l[i]) ht.holds (ht.frame.budget.trans hbudget)
        (fun t' hl => ?_) (by omega)).then
      · intro _ t' ht'
        rw [← List.take_append_getElem hi]
        exact (ht.trans ht').weaken fun hg => ⟨hg, trivial⟩
      · have hframe := ht.frame.trans hl
        apply reads_ref
        · rw [hframe.inBounds hf]
          exact h.inBounds (by have := h.room; omega)
        · rw [hframe.cell _ hf]
          exact h.cells i _ hx
  apply hloop.then
  intro _ t ht
  rw [List.take_length] at ht
  exact ht.weaken fun hg => ⟨hg, trivial⟩

lemma wp_copyAssign_self {w : World α} {v : ℕ} {Q : Unit → World α → Prop}
    {E : Err → World α → Prop} (h : Q () w) : Prog.wp (copyAssign N v v) Q E w := by
  rw [copyAssign, if_pos rfl]
  exact h

/-- The state after the default constructor. -/
def World.built (N : ℕ) (w : World α) (v : ℕ) : World α :=
  { (w.setVec v ⟨none, 0, N⟩).edit (.inline v) (fun _ => .dead) [] with
    alive := Function.update w.alive v true }

section Built
variable {w : World α} {v : ℕ}

lemma isLarge_of_empty (h : w.vec v = ⟨none, 0, N⟩) : w.isLarge N v = false := by
  rw [World.isLarge, h]
  exact decide_eq_false (Nat.lt_irrefl N)

lemma idata_of_empty (h : w.vec v = ⟨none, 0, N⟩) : w.idata N v = .inline v := by
  simp [World.idata, isLarge_of_empty h]

lemma built_vec_self : (w.built N v).vec v = ⟨none, 0, N⟩ := World.setVec_vec_self ..

lemma built_cell_inline : (w.built N v).cell (.inline v) = fun _ => .dead :=
  Function.update_self ..

lemma built_cell {b : Base} (hb : b ≠ .inline v) : (w.built N v).cell b = w.cell b :=
  Function.update_of_ne hb ..

lemma local_built : Local N v w (w.built N v) where
  vec _ hu := World.setVec_vec_of_ne _ _ hu
  alive _ hu := Function.update_of_ne hu ..
  fresh := Nat.le_refl _
  budget := rfl
  cell _ hb := built_cell hb.ne_inline
  block _ _ := rfl
  foreign b hb := by
    cases b with
    | inline u => exact hb
    | heap a =>
      refine ⟨hb.1, fun hl => ?_⟩
      rw [isLarge_of_empty built_vec_self] at hl
      cases hl
    | null => trivial

lemma tidy_built (h : w.vec v = ⟨none, 0, N⟩) (ht : Tidy N w v) : TidyFrom N w (w.built N v) v := by
  intro b hb i hi
  by_cases he : b = .inline v
  · rw [he, built_cell_inline] at hi
    cases hi
  · rw [built_cell he] at hi
    exact absurd ((ht b hb i hi).1.trans (idata_of_empty h)) he

lemma holds_built : Holds N (w.built N v) v [] := by
  refine ⟨⟨Function.update_self .., ?_, ?_, ?_⟩, ?_, ?_⟩
  · rw [built_vec_self]
    exact Nat.two_pow_pos 63
  · rw [built_vec_self]
    exact Nat.zero_le N
  · rw [built_vec_self]
    exact .inl rfl
  · rw [built_vec_self]
    rfl
  · intro j a hj
    cases hj

end Built

/-- The default constructor makes an empty vector where there was none. -/
theorem wp_construct {w : World α} {v : ℕ} (h : w.vec v = ⟨none, 0, N⟩) :
    Prog.wp (construct N v) (fun _ w' => Does N v w w' [] True) Prog.never w := by
  rw [construct, Prog.wp_modify]
  change Does N v w (w.built N v) [] True
  have hfaults : (w.built N v).faults = w.faults ++ [] := rfl
  exact ⟨⟨local_built, ⟨[], hfaults, fun _ he => (List.not_mem_nil he).elim, fun _ _ => rfl⟩,
    fun _ ht => tidy_built h ht⟩, holds_built⟩

/-- Releasing the array of a large vector. -/
lemma wp_release {w : World α} {v : ℕ} (h : Stored N w v) {E : Err → World α → Prop}
    {Q : Unit → World α → Prop} (hQ : ∀ blk, (∀ a, Foreign N w v (.heap a) → blk a = w.block a) →
      Q () { w with block := blk }) :
    Prog.wp (Prog.when (w.isLarge N v) (deleteArray (w.vec v).m_large)) Q E w := by
  rw [Prog.wp_when]
  rcases h.cases with ⟨hl, -, -⟩ | ⟨hl, -, a, ha, hblock, -, -⟩
  · rw [if_neg (by rw [hl]; exact Bool.false_ne_true)]
    exact hQ w.block fun _ _ => rfl
  · rw [if_pos hl, ha]
    apply wp_deleteArray (by rw [hblock]; rfl)
    apply hQ
    intro b hb
    exact Function.update_of_ne (fun he => hb.2 hl (by rw [ha, he])) ..

/-- The destructor leaves nothing of the vector behind. -/
theorem wp_destruct {w : World α} {v : ℕ} (h : Stored N w v) :
    Prog.wp (destruct N v) (fun _ w' => Effect N v w w'
      (∀ i < (w.vec v).m_size, (w.cell (w.idata N v) i).isLive = true) ∧
      w'.alive v = false ∧ w'.vec v = ⟨none, 0, N⟩) Prog.never w := by
  rw [destruct, Prog.wp_bind]
  apply (wp_clear h).then
  intro _ w₁ hd
  rw [Prog.wp_bind, Prog.wp_get, Prog.wp_bind]
  apply wp_release hd.holds.toStored
  intro blk hblk
  rw [Prog.wp_modify]
  refine ⟨(hd.toEffect.trans hd.holds.toStored ?_).weaken fun hg => ⟨hg, trivial⟩,
    Function.update_self .., Function.update_self ..⟩
  have hsize : (w₁.vec v).m_size = 0 := hd.holds.size
  refine ⟨⟨fun u hu => Function.update_of_ne hu .., fun u hu => Function.update_of_ne hu ..,
    Nat.le_refl _, rfl, fun _ _ => rfl, hblk, fun b hb => ?_⟩, ?_, fun _ ht b hb i hi => ?_⟩
  · cases b with
    | inline u => exact hb
    | heap a =>
      refine ⟨hb.1, fun hl => ?_⟩
      simp [World.isLarge, World.setVec] at hl
    | null => trivial
  · exact ⟨[], (List.append_nil _).symm, fun e he => (List.not_mem_nil he).elim, fun _ _ => rfl⟩
  · have hlt := (ht b hb i hi).2
    omega

end Asp.Collections
