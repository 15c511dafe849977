import Asp.Foundation.Pieces

/-! The tokens of a list by their positions: the longest stretches without a delimiter. -/
namespace Asp.Foundation
variable {α : Type*} {p : α → Bool} {s out inp : List α}

/-- The positions from i up to j are a longest stretch of s, not empty, without a delimiter. -/
structure IsRun (p : α → Bool) (s : List α) (i j : ℕ) : Prop where
  nonempty : i < j
  free : ∀ k, i ≤ k → k < j → ∃ x, s[k]? = some x ∧ p x = false
  left : ∀ k x, i = k + 1 → s[k]? = some x → p x = true
  right : ∀ x, s[j]? = some x → p x = true

/-- The runs of s from the left to the right. -/
def MaximalRuns (p : α → Bool) (s : List α) (l : List (List α)) : Prop :=
  ∃ rs : List (ℕ × ℕ), rs.Pairwise (fun a b => a.2 < b.1) ∧
    (∀ i j, (i,j) ∈ rs ↔ IsRun p s i j) ∧ l = rs.map (fun r => (s.take r.2).drop r.1)

lemma Cuts.getElem?_out (h : Cuts p s out inp) {k : ℕ} (hk : k < out.length) :
    ∃ x, s[k]? = some x ∧ p x = false := by
  refine ⟨out[k],?_,h.1 _ (List.getElem_mem hk)⟩
  obtain ⟨_,⟨rfl,_⟩ | ⟨sep,_,rfl⟩⟩ := h
  · exact List.getElem?_eq_getElem hk
  · rw [List.getElem?_append_left hk, List.getElem?_eq_getElem hk]

lemma Cuts.getElem?_sep (h : Cuts p s out inp) {x : α} (hx : s[out.length]? = some x) :
    p x = true := by
  obtain ⟨_,⟨rfl,_⟩ | ⟨sep,hsep,rfl⟩⟩ := h
  · simp at hx
  · simp only [List.getElem?_append_right (Nat.le_refl _), Nat.sub_self, List.getElem?_cons_zero,
      Option.some.injEq] at hx
    exact hx ▸ hsep

lemma Cuts.getElem?_inp (h : Cuts p s out inp) (k : ℕ) : s[k + (out.length + 1)]? = inp[k]? := by
  obtain ⟨_,⟨rfl,rfl⟩ | ⟨sep,_,rfl⟩⟩ := h
  · simp; omega
  · rw [List.getElem?_append_right (by omega)]
    have hpos : k + (out.length + 1) - out.length = k + 1 := by omega
    rw [hpos, List.getElem?_cons_succ]

/-- The part before the cut is a run. -/
lemma Cuts.isRun_out (h : Cuts p s out inp) (hout : out ≠ []) : IsRun p s 0 out.length where
  nonempty := List.length_pos_of_ne_nil hout
  free := fun _ _ hk => h.getElem?_out hk
  left := fun k _ hk => absurd hk.symm (Nat.succ_ne_zero k)
  right := fun _ hx => h.getElem?_sep hx

/-- No other run starts before the delimiter. -/
lemma Cuts.isRun_eq_out (h : Cuts p s out inp) {i j : ℕ} (hrun : IsRun p s i j)
    (hi : i ≤ out.length) : i = 0 ∧ j = out.length := by
  constructor
  · cases i with
    | zero => rfl
    | succ k =>
      obtain ⟨x,hx,hpx⟩ := h.getElem?_out (Nat.lt_of_succ_le hi)
      rw [hrun.left k x rfl hx] at hpx
      cases hpx
  · apply Nat.le_antisymm
    · by_contra hgt
      obtain ⟨x,hx,hpx⟩ := hrun.free out.length hi (by omega)
      rw [h.getElem?_sep hx] at hpx
      cases hpx
    · by_contra hlt
      obtain ⟨x,hx,hpx⟩ := h.getElem?_out (k := j) (by omega)
      rw [hrun.right x hx] at hpx
      cases hpx

/-- Behind the delimiter the runs are those of the rest. -/
lemma Cuts.isRun_inp (h : Cuts p s out inp) (i j : ℕ) :
    IsRun p s (i + (out.length + 1)) (j + (out.length + 1)) ↔ IsRun p inp i j := by
  constructor
  · intro hrun
    have hij := hrun.nonempty
    refine ⟨by omega,?_,?_,?_⟩
    · intro k hik hkj
      rw [← h.getElem?_inp]
      exact hrun.free _ (by omega) (by omega)
    · intro k x hk hx
      rw [← h.getElem?_inp] at hx
      exact hrun.left _ x (by omega) hx
    · intro x hx
      rw [← h.getElem?_inp] at hx
      exact hrun.right x hx
  · intro hrun
    have hij := hrun.nonempty
    refine ⟨by omega,?_,?_,?_⟩
    · intro k hik hkj
      obtain ⟨k',rfl⟩ := Nat.exists_eq_add_of_le' (show out.length + 1 ≤ k by omega)
      rw [h.getElem?_inp]
      exact hrun.free k' (by omega) (by omega)
    · intro k x hk hx
      cases i with
      | zero =>
        obtain rfl : k = out.length := by omega
        exact h.getElem?_sep hx
      | succ i =>
        obtain rfl : k = i + (out.length + 1) := by omega
        rw [h.getElem?_inp] at hx
        exact hrun.left i x rfl hx
    · intro x hx
      rw [h.getElem?_inp] at hx
      exact hrun.right x hx

/-- A run lies before the cut and is all of that part, or it is a run of what is behind. -/
lemma Cuts.isRun_iff (h : Cuts p s out inp) (i j : ℕ) :
    IsRun p s i j ↔ out ≠ [] ∧ i = 0 ∧ j = out.length ∨
      ∃ i' j', IsRun p inp i' j' ∧ i = i' + (out.length + 1) ∧ j = j' + (out.length + 1) := by
  constructor
  · intro hrun
    have hij := hrun.nonempty
    by_cases hi : i ≤ out.length
    · obtain ⟨hzero,hlength⟩ := h.isRun_eq_out hrun hi
      exact Or.inl ⟨List.ne_nil_of_length_pos (by omega),hzero,hlength⟩
    · obtain ⟨i',rfl⟩ := Nat.exists_eq_add_of_le' (show out.length + 1 ≤ i by omega)
      obtain ⟨j',rfl⟩ := Nat.exists_eq_add_of_le' (show out.length + 1 ≤ j by omega)
      exact Or.inr ⟨i',j',(h.isRun_inp i' j').mp hrun,rfl,rfl⟩
  · rintro (⟨hout,rfl,rfl⟩ | ⟨i',j',hrun,rfl,rfl⟩)
    · exact h.isRun_out hout
    · exact (h.isRun_inp i' j').mpr hrun

/-- What is behind a cut. -/
lemma Cuts.slice_inp (h : Cuts p s out inp) (i j : ℕ) :
    (s.take (j + (out.length + 1))).drop (i + (out.length + 1)) = (inp.take j).drop i := by
  apply List.ext_getElem?
  intro k
  simp only [List.getElem?_drop, List.getElem?_take]
  have hk := h.getElem?_inp (i + k)
  have hpos : i + (out.length + 1) + k = i + k + (out.length + 1) := by omega
  rw [hpos, hk]
  have hiff : i + k + (out.length + 1) < j + (out.length + 1) ↔ i + k < j := by omega
  simp only [hiff]

lemma Cuts.take_out (h : Cuts p s out inp) : s.take out.length = out := by
  obtain ⟨_,⟨rfl,_⟩ | ⟨sep,_,rfl⟩⟩ := h
  · exact List.take_length
  · exact List.take_left

lemma Cuts.tokens_eq (h : Cuts p s out inp) (hs : s ≠ []) :
    tokens p s = if out = [] then tokens p inp else out :: tokens p inp := by
  rw [← filter_pieces, ← filter_pieces, h.pieces_eq hs]
  cases out <;> simp

/-- A cut puts the part before it, unless that is empty, in front of the runs behind it. -/
lemma Cuts.maximalRuns (h : Cuts p s out inp) {l : List (List α)} (hl : MaximalRuns p inp l) :
    MaximalRuns p s (if out = [] then l else out :: l) := by
  obtain ⟨rs,hsorted,hruns,rfl⟩ := hl
  let shift : ℕ × ℕ → ℕ × ℕ := fun r => (r.1 + (out.length + 1),r.2 + (out.length + 1))
  have hshift : (rs.map shift).Pairwise (fun a b => a.2 < b.1) := by
    rw [List.pairwise_map]
    exact hsorted.imp (fun hab => Nat.add_lt_add_right hab _)
  have hmem : ∀ i j, (i,j) ∈ rs.map shift ↔
      ∃ i' j', IsRun p inp i' j' ∧ i = i' + (out.length + 1) ∧ j = j' + (out.length + 1) := by
    intro i j
    rw [List.mem_map]
    constructor
    · rintro ⟨⟨i',j'⟩,hr,heq⟩
      cases heq
      exact ⟨i',j',(hruns i' j').mp hr,rfl,rfl⟩
    · rintro ⟨i',j',hr,rfl,rfl⟩
      exact ⟨(i',j'),(hruns i' j').mpr hr,rfl⟩
  have hslice : (rs.map shift).map (fun r => (s.take r.2).drop r.1) =
      rs.map (fun r => (inp.take r.2).drop r.1) := by
    rw [List.map_map]
    exact List.map_congr_left (fun r _ => h.slice_inp r.1 r.2)
  split_ifs with hout
  · refine ⟨rs.map shift,hshift,?_,hslice.symm⟩
    intro i j
    rw [hmem, h.isRun_iff]
    simp [hout]
  · refine ⟨(0,out.length) :: rs.map shift,?_,?_,?_⟩
    · refine List.pairwise_cons.mpr ⟨?_,hshift⟩
      rintro ⟨i,j⟩ hr
      obtain ⟨i',j',_,rfl,rfl⟩ := (hmem i j).mp hr
      change out.length < i' + (out.length + 1)
      omega
    · intro i j
      rw [List.mem_cons, hmem, h.isRun_iff, Prod.mk.injEq]
      simp [hout]
    · rw [List.map_cons, hslice, List.drop_zero, h.take_out]

/-- The tokens are the runs. -/
theorem maximalRuns_tokens (p : α → Bool) (s : List α) : MaximalRuns p s (tokens p s) := by
  induction hlen : s.length using Nat.strongRecOn generalizing s with
  | ind k ih =>
    by_cases hs : s = []
    · subst hs
      refine ⟨[],List.Pairwise.nil,?_,rfl⟩
      intro i j
      refine iff_of_false (List.not_mem_nil) ?_
      intro hrun
      obtain ⟨x,hx,_⟩ := hrun.free i (Nat.le_refl _) hrun.nonempty
      cases hx
    · have hcut := cuts_findIdx? p s
      rw [hcut.tokens_eq hs]
      exact hcut.maximalRuns (ih _ (hlen ▸ hcut.length_lt hs) _ rfl)

end Asp.Foundation
