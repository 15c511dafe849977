import Asp.Foundation.Substring
import Asp.Iter.Split

/-! `split` at a substring: which pieces it yields, and when it comes to an end. -/
namespace Asp.Split
open Asp.Foundation
variable {α : Type} [DecidableEq α] {delim s : List α}

/-- `find` returns the first position where the substring occurs. -/
lemma findView_some {pos : ℕ} (h : findView delim s = some pos) :
    delim <+: s.drop pos ∧ pos ≤ s.length ∧ ∀ j < pos, ¬delim <+: s.drop j := by
  induction s generalizing pos with
  | nil =>
    rw [findView] at h
    split_ifs at h with hempty
    cases h
    exact ⟨by simp [List.isEmpty_iff.mp hempty],Nat.le_refl _,by simp⟩
  | cons a s ih =>
    rw [findView] at h
    split_ifs at h with hhere
    · cases h
      exact ⟨List.isPrefixOf_iff_prefix.mp hhere,Nat.zero_le _,by simp⟩
    · obtain ⟨k,hk,rfl⟩ := Option.map_eq_some_iff.mp h
      obtain ⟨hat,hle,hbefore⟩ := ih hk
      refine ⟨hat,by simpa using hle,?_⟩
      intro j hj
      cases j with
      | zero => exact fun hpre => hhere (List.isPrefixOf_iff_prefix.mpr hpre)
      | succ j => exact hbefore j (by omega)

/-- `find` returns `npos` where the substring does not occur. -/
lemma findView_none (h : findView delim s = none) (j : ℕ) : ¬delim <+: s.drop j := by
  induction s generalizing j with
  | nil =>
    rw [findView] at h
    split_ifs at h with hempty
    rw [List.drop_nil, List.prefix_nil]
    exact fun hd => hempty (List.isEmpty_iff.mpr hd)
  | cons a s ih =>
    rw [findView] at h
    split_ifs at h with hhere
    cases j with
    | zero => exact fun hpre => hhere (List.isPrefixOf_iff_prefix.mpr hpre)
    | succ j => exact ih (Option.map_eq_none_iff.mp h) j

/-- What `_nextSplit` does with the input: the cut at the first occurrence, or all of it. -/
lemma nextSplitView_cases (s delim : List α) :
    ((∀ j, ¬delim <+: s.drop j) ∧ _nextSplitView s delim = (s,[])) ∨
      LeftmostCut delim s (_nextSplitView s delim).1 (_nextSplitView s delim).2 := by
  rw [_nextSplitView]
  cases h : findView delim s with
  | none => exact Or.inl ⟨findView_none h,rfl⟩
  | some pos =>
    obtain ⟨⟨rest,hrest⟩,hle,hbefore⟩ := findView_some h
    refine Or.inr ⟨?_,?_⟩ <;> dsimp only
    · have hdrop : s.drop (pos + delim.length) = rest := by
        rw [← List.drop_drop, ← hrest, List.drop_left]
      rw [hdrop, hrest, List.take_append_drop]
    · rw [List.length_take, Nat.min_eq_left hle]
      exact hbefore

lemma yields_splitView_nil (delim : List α) : (splitView [] delim).Yields [] := by
  refine Concrete.yields_nil_of_inv (C := concrete _nextSplitView) (· = ⟨[],delim⟩) ?_ rfl
  intro t ht
  exact ⟨t,ht ▸ Returns.pure _,ht⟩

lemma next_splitView (hs : s ≠ []) (delim : List α) :
    (concrete (α := α) _nextSplitView).Next ⟨s,delim⟩ (some (_nextSplitView s delim).1)
      ⟨(_nextSplitView s delim).2,delim⟩ := by
  refine ⟨0,fun m _ => ?_⟩
  simp [concrete, hs]

/-- The piece that `next()` returns comes before those of the input it leaves. -/
lemma yields_splitView_cons (hs : s ≠ []) {ps : List (List α)}
    (h : (splitView (_nextSplitView s delim).2 delim).Yields ps) :
    (splitView s delim).Yields ((_nextSplitView s delim).1 :: ps) :=
  ⟨_,next_splitView hs delim,h⟩

/-- Behind each piece the input that is left is shorter. -/
lemma exists_yields_splitView (hd : delim ≠ []) (s : List α) :
    ∃ ps, (splitView s delim).Yields ps ∧ LeftmostSplit delim s ps := by
  induction hlen : s.length using Nat.strong_induction_on generalizing s with
  | h k ih =>
    by_cases hs : s = []
    · exact hs ▸ ⟨[],yields_splitView_nil delim,leftmostSplit_nil⟩
    · rcases nextSplitView_cases s delim with ⟨hfree,heq⟩ | hcut
      · have hend : (splitView (_nextSplitView s delim).2 delim).Yields [] := by
          rw [heq]
          exact yields_splitView_nil delim
        have hy := yields_splitView_cons hs hend
        rw [heq] at hy
        exact ⟨[s],hy,leftmostSplit_single hs hfree⟩
      · have hshort : (_nextSplitView s delim).2.length < k := by
          have hparts := congrArg List.length hcut.parts
          have hpos := List.length_pos_of_ne_nil hd
          simp only [List.length_append] at hparts
          omega
        obtain ⟨ps,hy,hsplit⟩ := ih _ hshort _ rfl
        exact ⟨_,yields_splitView_cons hs hy,hcut.split hd hsplit⟩

/-- The pieces of `split` at a substring are those of the leftmost split. -/
theorem yields_splitView_iff (hd : delim ≠ []) (s : List α) (ps : List (List α)) :
    (splitView s delim).Yields ps ↔ LeftmostSplit delim s ps := by
  obtain ⟨qs,hy,hsplit⟩ := exists_yields_splitView hd s
  constructor
  · intro h
    exact (Concrete.Yields.unique h hy).symm ▸ hsplit
  · intro h
    exact (h.unique hd hsplit).symm ▸ hy

theorem leftmostSplit_bars : LeftmostSplit ['|','|'] ['a','|','|','|'] [['a'],['|']] :=
  (yields_splitView_iff (by decide) _ _).mp
    (yields_splitView_cons (s := ['a','|','|','|']) (by decide)
      (yields_splitView_cons (s := ['|']) (by decide) (yields_splitView_nil ['|','|'])))

/-- An empty delimiter is found at once and takes nothing off the input. -/
lemma not_yields_splitView_nil (hs : s ≠ []) (l : List (List α)) :
    ¬(splitView s []).Yields l := by
  have hnext := next_splitView hs []
  have hstay : _nextSplitView s [] = ([],s) := by
    cases s with
    | nil => exact absurd rfl hs
    | cons a s => rfl
  rw [hstay] at hnext
  induction l with
  | nil =>
    intro h
    obtain ⟨t,hend,_⟩ := h 1
    cases (hnext.unique hend).1
  | cons a l ih =>
    rintro ⟨t,hitem,hrest⟩
    obtain ⟨_,rfl⟩ := hnext.unique hitem
    exact ih hrest

/-- `split` at a substring comes to an end, with no more pieces than characters, unless the
delimiter is empty and the string is not. -/
theorem splitView_finishes_iff (s delim : List α) :
    (∃ l, (splitView s delim).Yields l ∧ l.length ≤ s.length) ↔ delim ≠ [] ∨ s = [] := by
  by_cases hd : delim = []
  · subst hd
    by_cases hs : s = []
    · exact iff_of_true ⟨[],hs ▸ yields_splitView_nil [],Nat.zero_le _⟩ (Or.inr hs)
    · refine iff_of_false ?_ (by simp [hs])
      rintro ⟨l,hy,_⟩
      exact not_yields_splitView_nil hs l hy
  · obtain ⟨ps,hy,hsplit⟩ := exists_yields_splitView hd s
    exact iff_of_true ⟨ps,hy,hsplit.length_le hd⟩ (Or.inl hd)

/-- `split("a", "")` goes on for ever. -/
theorem splitView_empty_delim :
    ¬∃ l, (splitView ['a'] []).Yields l ∧ l.length ≤ ['a'].length := by
  rintro ⟨l,hy,_⟩
  exact not_yields_splitView_nil (by decide) l hy

end Asp.Split
