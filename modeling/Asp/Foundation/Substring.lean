import Mathlib.Data.List.Basic

/-! A list cut at the leftmost occurrences of a sublist. An occurrence of `d` in `s` at j is
`d <+: s.drop j`. -/
namespace Asp.Foundation
variable {α : Type*} {d s rest p : List α} {ps : List (List α)}

/-- The pieces of s between the occurrences of d, each found behind the one before. -/
structure LeftmostSplit (d s : List α) (ps : List (List α)) : Prop where
  empty : ps = [] ↔ s = []
  joined : (s = d.intercalate ps ∧ ∀ p, ps.getLast? = some p → p ≠ [] ∧ ∀ j, ¬d <+: p.drop j) ∨
    (ps ≠ [] ∧ s = d.intercalate ps ++ d)
  /-- The part of s that starts at p has no occurrence before the one behind p. -/
  leftmost : ∀ pre p post, ps = pre ++ p :: post →
    p ++ d <+: s.drop (pre.flatMap (· ++ d)).length →
      ∀ j < p.length, ¬d <+: (s.drop (pre.flatMap (· ++ d)).length).drop j

/-- One cut: the first occurrence of d in s lies behind p. -/
structure LeftmostCut (d s p rest : List α) : Prop where
  parts : s = p ++ (d ++ rest)
  first : ∀ j < p.length, ¬d <+: s.drop j

lemma LeftmostCut.prefix_drop (h : LeftmostCut d s p rest) : d <+: s.drop p.length := by
  rw [h.parts, List.drop_left]
  exact List.prefix_append d rest

lemma LeftmostCut.length_le {q rest' : List α} (h : LeftmostCut d s p rest)
    (h' : LeftmostCut d s q rest') : p.length ≤ q.length := by
  by_contra hlt
  exact h.first q.length (by omega) h'.prefix_drop

lemma LeftmostCut.unique {q rest' : List α} (h : LeftmostCut d s p rest)
    (h' : LeftmostCut d s q rest') : p = q ∧ rest = rest' := by
  have hlen := Nat.le_antisymm (h.length_le h') (h'.length_le h)
  have hparts := h.parts.symm.trans h'.parts
  obtain ⟨hp,hrest⟩ := List.append_inj hparts hlen
  exact ⟨hp,List.append_cancel_left hrest⟩

/-- Nothing is left to cut. -/
lemma leftmostSplit_nil : LeftmostSplit d [] [] where
  empty := iff_of_true rfl rfl
  joined := Or.inl ⟨rfl,by simp⟩
  leftmost := by simp

/-- Without an occurrence the list is its only piece. -/
lemma leftmostSplit_single (hs : s ≠ []) (hfree : ∀ j, ¬d <+: s.drop j) : LeftmostSplit d s [s] where
  empty := by simp [hs]
  joined := by
    refine Or.inl ⟨by simp,?_⟩
    intro p hp
    cases hp
    exact ⟨hs,hfree⟩
  leftmost := by
    intro pre p post h _ j _
    rw [List.drop_drop]
    exact hfree _

/-- Behind a cut the pieces start at the rest. -/
lemma LeftmostCut.drop_pieces (hcut : LeftmostCut d s p rest) (pre : List (List α)) :
    s.drop ((p :: pre).flatMap (· ++ d)).length = rest.drop (pre.flatMap (· ++ d)).length := by
  rw [List.flatMap_cons, List.length_append, ← List.drop_drop, hcut.parts, ← List.append_assoc,
    List.drop_left]

/-- A cut puts its piece in front of those of the rest. -/
lemma LeftmostCut.split (hd : d ≠ []) (hcut : LeftmostCut d s p rest)
    (h : LeftmostSplit d rest ps) : LeftmostSplit d s (p :: ps) where
  empty := by simp [hcut.parts, hd]
  joined := by
    have hparts := hcut.parts
    cases ps with
    | nil =>
      rw [h.empty.mp rfl, List.append_nil] at hparts
      exact Or.inr ⟨by simp,by simpa using hparts⟩
    | cons q ps =>
      rcases h.joined with ⟨hrest,hlast⟩ | ⟨_,hrest⟩
      · refine Or.inl ⟨?_,?_⟩
        · rw [hparts, List.intercalate_cons_cons, List.append_assoc, ← hrest]
        · simpa only [List.getLast?_cons_cons] using hlast
      · refine Or.inr ⟨by simp,?_⟩
        rw [hparts, hrest, List.intercalate_cons_cons]
        simp only [List.append_assoc]
  leftmost := by
    intro pre q post hsplit hq j hj
    cases pre with
    | nil =>
      obtain ⟨rfl,_⟩ := List.cons.inj hsplit
      exact hcut.first j hj
    | cons p' pre =>
      obtain ⟨rfl,hps⟩ := List.cons.inj hsplit
      rw [hcut.drop_pieces] at hq ⊢
      exact h.leftmost pre q post hps hq j hj

/-- What is left of the joined pieces behind the first delimiter. -/
lemma LeftmostSplit.joined_tail (hd : d ≠ []) (h : LeftmostSplit d s (p :: ps)) (hps : ps ≠ []) :
    ∃ rest, rest ≠ [] ∧ s = p ++ (d ++ rest) ∧
      ((rest = d.intercalate ps ∧ ∀ p, ps.getLast? = some p → p ≠ [] ∧ ∀ j, ¬d <+: p.drop j) ∨
        (ps ≠ [] ∧ rest = d.intercalate ps ++ d)) := by
  cases ps with
  | nil => exact absurd rfl hps
  | cons q ps =>
    rcases h.joined with ⟨hs,hlast⟩ | ⟨_,hs⟩
    · rw [List.getLast?_cons_cons] at hlast
      refine ⟨d.intercalate (q :: ps),?_,?_,Or.inl ⟨rfl,hlast⟩⟩
      · cases ps with
        | nil => simpa using (hlast q rfl).1
        | cons r ps => simp [List.intercalate_cons_cons, hd]
      · rw [hs, List.intercalate_cons_cons, List.append_assoc]
    · refine ⟨d.intercalate (q :: ps) ++ d,by simp [hd],?_,Or.inr ⟨hps,rfl⟩⟩
      rw [hs, List.intercalate_cons_cons]
      simp only [List.append_assoc]

/-- The first piece is all of the list, or the first occurrence follows it. -/
lemma LeftmostSplit.head (hd : d ≠ []) (h : LeftmostSplit d s (p :: ps)) :
    (s = p ∧ ps = [] ∧ ∀ j, ¬d <+: s.drop j) ∨
      ∃ rest, LeftmostCut d s p rest ∧ LeftmostSplit d rest ps := by
  have hfirst : ∀ rest, s = p ++ (d ++ rest) → LeftmostCut d s p rest := by
    intro rest hs
    refine ⟨hs,h.leftmost [] p ps rfl ?_⟩
    rw [hs, ← List.append_assoc]
    exact List.prefix_append _ rest
  by_cases hps : ps = []
  · subst hps
    rcases h.joined with ⟨hs,hlast⟩ | ⟨_,hs⟩
    · rw [List.intercalate_singleton] at hs
      exact Or.inl ⟨hs,rfl,hs ▸ (hlast p rfl).2⟩
    · rw [List.intercalate_singleton] at hs
      exact Or.inr ⟨[],hfirst [] (by simpa using hs),leftmostSplit_nil⟩
  · obtain ⟨rest,hne,hs,hjoined⟩ := h.joined_tail hd hps
    have hcut := hfirst rest hs
    refine Or.inr ⟨rest,hcut,iff_of_false hps hne,hjoined,?_⟩
    intro pre q post hsplit hq
    have hleft := h.leftmost (p :: pre) q post (by rw [hsplit, List.cons_append])
    rw [hcut.drop_pieces] at hleft
    exact hleft hq

/-- There is one leftmost split. -/
theorem LeftmostSplit.unique (hd : d ≠ []) {qs : List (List α)} (h : LeftmostSplit d s ps)
    (h' : LeftmostSplit d s qs) : ps = qs := by
  induction ps generalizing s qs with
  | nil => exact (h'.empty.mpr (h.empty.mp rfl)).symm
  | cons p ps ih =>
    cases qs with
    | nil => exact h.empty.mpr (h'.empty.mp rfl)
    | cons q qs =>
      rcases h.head hd with ⟨hp,hps,hfree⟩ | ⟨rest,hcut,hrest⟩ <;>
        rcases h'.head hd with ⟨hq,hqs,hfree'⟩ | ⟨rest',hcut',hrest'⟩
      · rw [← hp, ← hq, hps, hqs]
      · exact absurd hcut'.prefix_drop (hfree _)
      · exact absurd hcut.prefix_drop (hfree' _)
      · obtain ⟨rfl,rfl⟩ := hcut.unique hcut'
        rw [ih hrest hrest']

/-- There are no more pieces than elements. -/
theorem LeftmostSplit.length_le (hd : d ≠ []) (h : LeftmostSplit d s ps) :
    ps.length ≤ s.length := by
  induction ps generalizing s with
  | nil => exact Nat.zero_le _
  | cons p ps ih =>
    rcases h.head hd with ⟨_,rfl,_⟩ | ⟨rest,hcut,hrest⟩
    · have hs : s ≠ [] := by
        intro hs
        exact List.cons_ne_nil p [] (h.empty.mpr hs)
      exact List.length_pos_of_ne_nil hs
    · have hlen := congrArg List.length hcut.parts
      have hpos := List.length_pos_of_ne_nil hd
      have hle := ih hrest
      simp only [List.length_append, List.length_cons] at hlen ⊢
      omega

end Asp.Foundation
