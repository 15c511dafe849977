import Asp.Foundation.Pieces

/-! The fields of a list, where those that a delimiter ends are treated apart from the last one. -/
namespace Asp.Foundation
variable {α : Type*} {p : α → Bool} {f : List α → List α} {s : List α}

/-- The fields without a final empty one, with `f` applied to those that a delimiter ends. -/
def endedFields (f : List α → List α) (p : α → Bool) (s : List α) : List (List α) :=
  omitFinal ((s.splitOnP p).dropLast.map f ++ (s.splitOnP p).getLast?.toList)

lemma omitFinal_cons {l : List (List α)} (x : List α) (h : l ≠ []) :
    omitFinal (x :: l) = x :: omitFinal l := by
  obtain ⟨y,ys,rfl⟩ := List.exists_cons_of_ne_nil h
  rw [omitFinal, omitFinal, List.getLast?_cons_cons, List.dropLast_cons_cons]
  cases hlast : (y :: ys).getLast? with
  | none => rfl
  | some z => cases z <;> rfl

lemma omitFinal_concat_nil (l : List (List α)) : omitFinal (l ++ [[]]) = l := by
  rw [omitFinal, List.getLast?_concat, List.dropLast_concat]

lemma omitFinal_concat (l : List (List α)) {x : List α} (h : x ≠ []) :
    omitFinal (l ++ [x]) = l ++ [x] := by
  rw [omitFinal, List.getLast?_concat]
  cases x with
  | nil => exact absurd rfl h
  | cons a x => rfl

lemma endedFields_of_splitOnP {l : List (List α)} {t : List α} (h : s.splitOnP p = l ++ [t]) :
    endedFields f p s = omitFinal (l.map f ++ [t]) := by
  rw [endedFields, h, List.dropLast_concat, List.getLast?_concat, Option.toList_some]

lemma endedFields_nil : endedFields f p [] = [] :=
  (endedFields_of_splitOnP (l := []) List.splitOnP_nil).trans (omitFinal_concat_nil [])

lemma endedFields_all (hs : s ≠ []) (h : ∀ x ∈ s, p x = false) : endedFields f p s = [s] :=
  (endedFields_of_splitOnP (l := []) (List.splitOnP_eq_singleton h)).trans
    (omitFinal_concat [] hs)

/-- The first field and the others. -/
lemma endedFields_cons {out inp : List α} {sep : α} (h : ∀ x ∈ out, p x = false)
    (hsep : p sep = true) : endedFields f p (out ++ sep :: inp) = f out :: endedFields f p inp := by
  have hinp := List.dropLast_concat_getLast (List.splitOnP_ne_nil p inp)
  have hsplit := List.splitOnP_append_cons_of_forall_mem h sep hsep inp
  rw [← hinp, ← List.cons_append] at hsplit
  rw [endedFields_of_splitOnP hsplit, endedFields_of_splitOnP hinp.symm, List.map_cons,
    List.cons_append, omitFinal_cons]
  exact List.append_ne_nil_of_right_ne_nil _ (List.cons_ne_nil _ _)

/-- Every field is ended where the list ends with a delimiter. -/
lemma endedFields_concat_sep {sep : α} (hsep : p sep = true) (s : List α) :
    endedFields f p (s ++ [sep]) = (s.splitOnP p).map f := by
  have hsplit : (s ++ [sep]).splitOnP p = s.splitOnP p ++ [[]] :=
    List.splitOnP_append_cons s [] hsep
  rw [endedFields_of_splitOnP hsplit, omitFinal_concat_nil]

/-- What follows without a delimiter belongs to the last field. -/
lemma splitOnP_append (s : List α) : ∃ init t, ∀ u : List α, (∀ x ∈ u, p x = false) →
    (s ++ u).splitOnP p = init ++ [t ++ u] := by
  induction s with
  | nil => exact ⟨[],[],fun u hu => List.splitOnP_eq_singleton hu⟩
  | cons a s ih =>
    obtain ⟨init,t,ht⟩ := ih
    by_cases ha : p a = true
    · refine ⟨[] :: init,t,fun u hu => ?_⟩
      rw [List.cons_append, List.splitOnP_cons_eq_if_modifyHead, if_pos ha, ht u hu]
      rfl
    · cases init with
      | nil =>
        refine ⟨[],a :: t,fun u hu => ?_⟩
        rw [List.cons_append, List.splitOnP_cons_eq_if_modifyHead, if_neg ha, ht u hu]
        rfl
      | cons x init =>
        refine ⟨(a :: x) :: init,t,fun u hu => ?_⟩
        rw [List.cons_append, List.splitOnP_cons_eq_if_modifyHead, if_neg ha, ht u hu]
        rfl

end Asp.Foundation
