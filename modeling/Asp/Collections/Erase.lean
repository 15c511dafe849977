import Asp.Collections.Transfer

/-! The position that `erase` returns, and the loop that relies on it. -/
namespace Asp.Collections
open Asp.Foundation SmallVec
variable {α : Type} {N : ℕ}

/-- `if (p(*it)) it = v.erase(it); else ++it;` from the position `it` until it is the end, for
at most `fuel` tests of that. It is undefined where an iterator beyond the end is used. -/
def eraseIf (N v : ℕ) (p : α → Bool) : (fuel : ℕ) → (it : ℕ) → World α → Option (World α)
  | 0, _, _ => none
  | n+1, it, w =>
    if it = (w.vec v).m_size then some w
    else if (w.vec v).m_size < it then none
    else
      match subscript N v it w with
      | (.ok (some x), w) =>
        if p x then
          match erase N v it w with
          | (.ok r, w) => eraseIf N v p n r.2 w
          | (.error _, _) => none
        else eraseIf N v p n (it+1) w
      | _ => none

/-- Every element that satisfies p has one behind it that does not. -/
def Spaced (p : α → Bool) (l : List α) : Prop :=
  ∀ i x, l[i]? = some x → p x = true → ∃ y, l[i+1]? = some y ∧ p y = false

lemma spaced_cons {p : α → Bool} {x : α} {l : List α} :
    Spaced p (x :: l) ↔ (p x = true → ∃ y, l[0]? = some y ∧ p y = false) ∧ Spaced p l := by
  constructor
  · intro h
    exact ⟨h 0 x rfl,fun i => h (i+1)⟩
  · rintro ⟨hx,hl⟩ i y hy hp
    cases i with
    | zero =>
      cases hy
      exact hx hp
    | succ i => exact hl i y hy hp

/-- The loop on a list: an element that is erased takes the test of the next one along. -/
def skipErase (p : α → Bool) : List α → Option (List α)
  | [] => some []
  | [x] => if p x then none else some [x]
  | x :: y :: l => if p x then (skipErase p l).map (y :: ·) else (skipErase p (y :: l)).map (x :: ·)

/-- The loop leaves the right elements where the one that it skips is always to be kept. -/
lemma skipErase_iff (p : α → Bool) (l : List α) :
    skipErase p l = some (l.filter (!p ·)) ↔ Spaced p l := by
  induction l using skipErase.induct p with
  | case1 => exact iff_of_true rfl nofun
  | case2 x hx =>
    rw [skipErase, if_pos hx, spaced_cons]
    simp [hx]
  | case3 x hx =>
    rw [skipErase, if_neg hx, spaced_cons]
    simp [hx, Spaced]
  | case4 x y l hx ih =>
    rw [skipErase, if_pos hx, spaced_cons, spaced_cons, ← ih, List.filter_cons_of_neg (by simp [hx])]
    cases hy : p y with
    | false => simp [hx, hy]
    | true =>
      refine iff_of_false ?_ (by simp [hx, hy])
      intro h
      obtain ⟨r,_,hr⟩ := Option.map_eq_some_iff.mp h
      have hmem : y ∈ (y :: l).filter (!p ·) := hr ▸ List.mem_cons_self
      simp [hy] at hmem
  | case5 x y l hx ih =>
    rw [skipErase, if_neg hx, spaced_cons, ← ih, List.filter_cons_of_pos (by simp [hx])]
    simp [hx]

section Loop
variable {w : World α} {v n : ℕ} {p : α → Bool} {kept rest : List α} {x : α}

lemma eraseIf_end (h : Holds N w v kept) : eraseIf N v p (n+1) kept.length w = some w := by
  rw [eraseIf, if_pos h.size.symm]

/-- Beyond the end the loop is lost. -/
lemma eraseIf_beyond (h : Holds N w v kept) {it : ℕ} (hit : kept.length < it) :
    eraseIf N v p n it w = none := by
  cases n with
  | zero => rfl
  | succ n => rw [eraseIf, h.size, if_neg (by omega), if_pos hit]

/-- The element that the loop looks at. -/
lemma eraseIf_at (h : Holds N w v (kept ++ x :: rest)) :
    eraseIf N v p (n+1) kept.length w =
      if p x then
        match erase N v kept.length w with
        | (.ok r, w) => eraseIf N v p n r.2 w
        | (.error _, _) => none
      else eraseIf N v p n (kept.length+1) w := by
  have hx : (kept ++ x :: rest)[kept.length]? = some x := by simp
  obtain ⟨_,_,hread,rfl,rfl⟩ := (wp_subscript h hx).elim
  have hsize := h.size
  simp only [List.length_append, List.length_cons] at hsize
  rw [eraseIf, if_neg (by omega), if_neg (by omega), hread]

/-- An element that is kept. -/
lemma eraseIf_keep (h : Holds N w v (kept ++ x :: rest)) (hx : p x = false) :
    eraseIf N v p (n+1) kept.length w = eraseIf N v p n (kept ++ [x]).length w := by
  rw [eraseIf_at h, if_neg (by simp [hx]), List.length_append, List.length_singleton]

/-- An element that is erased: the loop goes on behind the one that has taken its place. -/
lemma eraseIf_erase (h : Holds N w v (kept ++ x :: rest)) (hx : p x = true) :
    ∃ w', Holds N w' v (kept ++ rest) ∧
      ∀ n, eraseIf N v p (n+1) kept.length w = eraseIf N v p n (kept.length+1) w' := by
  have herase := wp_eraseRange_returns h (Nat.le_succ kept.length) (by simp)
  obtain ⟨r,w',hrun,rfl,hd⟩ := herase.elim
  have hlist : erased (kept ++ x :: rest) kept.length (kept.length+1) = kept ++ rest := by
    rw [erased, List.take_left, List.drop_append]
    simp
  refine ⟨w',hlist ▸ hd.holds,fun n => ?_⟩
  have hrun' : erase N v kept.length w = (.ok (w'.idata N v,kept.length+1),w') := hrun
  rw [eraseIf_at h, if_pos hx, hrun']

/-- The vector holds one list. -/
lemma Holds.unique {l l' : List α} (h : Holds N w v l) (h' : Holds N w v l') : l = l' := by
  have hlen : l.length = l'.length := h.size.symm.trans h'.size
  apply List.ext_getElem hlen
  intro i hi hi'
  have hcell := h.cells i l[i] (List.getElem?_eq_getElem hi)
  rw [h'.cells i l'[i] (List.getElem?_eq_getElem hi')] at hcell
  exact (Option.some.inj (Slot.live.inj hcell)).symm

/-- With some bound the loop ends with the elements `r`. -/
def ErasesTo (N v : ℕ) (p : α → Bool) (it : ℕ) (w : World α) (r : List α) : Prop :=
  ∃ n w', eraseIf N v p n it w = some w' ∧ Holds N w' v r

lemma erasesTo_step {it it' : ℕ} {w' : World α} {r : List α}
    (h : ∀ n, eraseIf N v p (n+1) it w = eraseIf N v p n it' w') :
    ErasesTo N v p it w r ↔ ErasesTo N v p it' w' r := by
  constructor
  · rintro ⟨n,t,ht,hr⟩
    cases n with
    | zero => cases ht
    | succ n => exact ⟨n,t,h n ▸ ht,hr⟩
  · rintro ⟨n,t,ht,hr⟩
    exact ⟨n+1,t,(h n).trans ht,hr⟩

lemma erasesTo_end {r : List α} (h : Holds N w v kept) :
    ErasesTo N v p kept.length w r ↔ r = kept := by
  constructor
  · rintro ⟨n,t,ht,hr⟩
    cases n with
    | zero => cases ht
    | succ n =>
      rw [eraseIf_end h] at ht
      cases ht
      exact hr.unique h
  · rintro rfl
    exact ⟨1,w,eraseIf_end h,h⟩

lemma not_erasesTo_beyond {r : List α} (h : Holds N w v kept) {it : ℕ} (hit : kept.length < it) :
    ¬ErasesTo N v p it w r := by
  rintro ⟨n,t,ht,_⟩
  rw [eraseIf_beyond h hit] at ht
  cases ht

/-- The loop on a vector is that on the list of the elements it has not passed. -/
lemma erasesTo_iff (h : Holds N w v (kept ++ rest)) (r : List α) :
    ErasesTo N v p kept.length w r ↔ ∃ r', skipErase p rest = some r' ∧ r = kept ++ r' := by
  induction rest using skipErase.induct p generalizing kept w with
  | case1 =>
    rw [List.append_nil] at h
    simp [erasesTo_end h, skipErase]
  | case2 x hx =>
    obtain ⟨w',h',hrun⟩ := eraseIf_erase h hx
    rw [List.append_nil] at h'
    rw [erasesTo_step hrun, skipErase, if_pos hx]
    exact iff_of_false (not_erasesTo_beyond h' (Nat.lt_succ_self _)) (by simp)
  | case3 x hx =>
    rw [erasesTo_step (fun n => eraseIf_keep h (by simpa using hx)), erasesTo_end h]
    simp [skipErase, hx]
  | case4 x y l hx ih =>
    obtain ⟨w',h',hrun⟩ := eraseIf_erase h hx
    have hassoc : kept ++ y :: l = (kept ++ [y]) ++ l := by simp
    have hpos : kept.length+1 = (kept ++ [y]).length := by simp
    rw [erasesTo_step hrun, hpos, ih (hassoc ▸ h'), skipErase, if_pos hx]
    simp
  | case5 x y l hx ih =>
    have hassoc : kept ++ x :: y :: l = (kept ++ [x]) ++ y :: l := by simp
    rw [erasesTo_step (fun n => eraseIf_keep h (by simpa using hx)), ih (hassoc ▸ h), skipErase,
      if_neg hx]
    simp

end Loop

/-- `erase` returns the position where the range began just if the range is empty, and the loop
that erases the elements that satisfy p leaves the others just if these are spaced. -/
theorem erase_position_iff {w : World α} {v : ℕ} {l : List α} (h : Holds N w v l) :
    (∀ first last : ℕ, first ≤ last → last ≤ l.length →
      (Prog.wp (eraseRange N v first last) (fun r w' => r = (w'.idata N v,first)) Prog.never w ↔
        first = last)) ∧
    ∀ p : α → Bool, (∃ n w', eraseIf N v p n 0 w = some w' ∧ Holds N w' v (l.filter (!p ·))) ↔
      Spaced p l := by
  constructor
  · intro first last hfl hl
    apply wp_iff_of (wp_eraseRange_returns h hfl hl)
    rintro _ w' ⟨rfl,_⟩
    rw [Prod.mk.injEq]
    exact ⟨fun he => he.2.symm,fun he => ⟨rfl,he.symm⟩⟩
  · intro p
    rw [← skipErase_iff]
    have hrun : ErasesTo N v p ([] : List α).length w (l.filter (!p ·)) ↔ _ := erasesTo_iff h _
    rw [ErasesTo, List.length_nil] at hrun
    simpa using hrun

theorem erase_position_iff_at : ∃ w : World ℕ, Holds 2 w 0 [4,5,6,7] ∧
    ∃ n w', eraseIf 2 0 (fun x => x % 2 == 0) n 0 w = some w' ∧ Holds 2 w' 0 [5,7] := by
  obtain ⟨w,_,h⟩ := exists_holds 2 [4,5,6,7] (by decide)
  refine ⟨w,h,((erase_position_iff h).2 (fun x => x % 2 == 0)).mpr ?_⟩
  simp only [spaced_cons]
  simp [Spaced]

/-- The first of three elements is erased; what follows it stands at the beginning, but the
position that is returned is the second. -/
theorem erase_returns_second :
    ¬∀ (w : World ℕ) (v : ℕ) (l : List ℕ) (first last : ℕ), Clean 2 w → Holds 2 w v l →
      first ≤ last → last ≤ l.length →
      Prog.wp (eraseRange 2 v first last) (fun r w' => r = (w'.idata 2 v,first)) Prog.never w := by
  intro hall
  obtain ⟨w,hw,h⟩ := exists_holds 2 [10,20,30] (by decide)
  have hright := hall w 0 [10,20,30] 0 1 hw h (by decide) (by decide)
  obtain ⟨r,w',hrun,hr⟩ := hright.elim
  obtain ⟨r',w'',hrun',hr',_⟩ := (wp_eraseRange_returns h (Nat.zero_le 1) (by decide)).elim
  rw [hrun] at hrun'
  cases hrun'
  rw [hr] at hr'
  cases (Prod.mk.inj hr').2

end Asp.Collections
