import Asp.Iter.Split

/-! Splitting at several characters by nested `flatMap`, and splitting beside joining. -/
namespace Asp.Split
open Asp.Foundation
variable {α : Type} [DecidableEq α]

/-- `split(text, c).flatMap(split by c₁) ... .flatMap(split by cₖ)` -/
def nested (text : List α) (c : α) (cs : List α) : Concrete.Object (List α) :=
  cs.foldl (fun it c => it.flatMap (concrete _nextSplit) (fun sv => ⟨sv,c⟩)) (split text c)

lemma yields_nested (it : Concrete.Object (List α)) (l : List (List α)) (h : it.Yields l)
    (cs : List α) :
    (cs.foldl (fun it c => it.flatMap (concrete _nextSplit) (fun sv => ⟨sv,c⟩)) it).Yields
      (cs.foldl (fun l c => l.flatMap (pieces (· == c))) l) := by
  induction cs generalizing it l with
  | nil => exact h
  | cons c cs ih => exact ih _ _ (h.flatMap (fun sv => yields_split sv c))

/-- Whatever empty pieces a level adds, the tokens are those at all delimiters so far. -/
lemma filter_nested (text : List α) (p : α → Bool) (l : List (List α))
    (h : l.filter (!·.isEmpty) = tokens p text) (cs : List α) :
    (cs.foldl (fun l c => l.flatMap (pieces (· == c))) l).filter (!·.isEmpty) =
      tokens (fun a => p a || cs.contains a) text := by
  induction cs generalizing p l with
  | nil => simpa using h
  | cons c cs ih =>
    have hlevel : (l.flatMap (pieces (· == c))).filter (!·.isEmpty) =
        tokens (fun a => p a || a == c) text := by
      rw [List.filter_flatMap]
      simp only [filter_pieces]
      rw [← flatMap_tokens_filter, h, tokens_flatMap]
    have hall := ih _ _ hlevel
    simpa only [List.foldl_cons, List.contains_cons, Bool.or_assoc] using hall

/-- The non-empty pieces of nested splits are the pieces of one split at any of the characters
that skips empty ones. -/
theorem nested_splitAny (text : List α) (c : α) (cs : List α) :
    ∃ l, (nested text c cs).Yields l ∧
      (splitAny text (c :: cs) true).Yields (l.filter (!·.isEmpty)) := by
  refine ⟨_,yields_nested _ _ (yields_split text c) cs,?_⟩
  rw [filter_nested text (· == c) _ (filter_pieces _ text) cs, ← filter_pieces]
  have hany := yields_splitAny text (c :: cs) true
  simpa only [List.contains_cons, Bool.not_true, Bool.false_or] using hany

/-- A list without a last delimiter has no field beside its pieces. -/
lemma pieces_eq_splitOn {s : List α} {c : α} (hs : s ≠ []) (hlast : s.getLast? ≠ some c) :
    pieces (· == c) s = s.splitOn c := by
  have hnone : ¬s.getLast?.all (· == c) = true := by
    cases h : s.getLast? with
    | none => exact absurd (List.getLast?_eq_none_iff.mp h) hs
    | some a =>
      rw [h] at hlast
      simpa using hlast
  rw [List.splitOn_eq_splitOnP, splitOnP_eq_pieces, if_neg hnone, List.append_nil]

/-- The joined list ends in the last character of its last string. -/
lemma pieces_intercalate {c : α} {ps : List (List α)} (hfree : ∀ p ∈ ps, c ∉ p)
    (hlast : ps.getLast? ≠ some []) : pieces (· == c) ([c].intercalate ps) = ps := by
  cases ps with
  | nil => rfl
  | cons p ps =>
    have hsplit := List.splitOn_intercalate c hfree (List.cons_ne_nil p ps)
    rw [List.splitOn_eq_splitOnP, splitOnP_eq_pieces] at hsplit
    split_ifs at hsplit
    · rw [← hsplit, List.getLast?_append] at hlast
      exact absurd rfl hlast
    · rwa [List.append_nil] at hsplit

/-- `split` and `join` at one character undo each other, where the split leaves out no field. -/
theorem split_join (c : α) :
    (∀ ps : List (List α), (∀ p ∈ ps, c ∉ p) → ps.getLast? ≠ some [] →
      ∃ str, Returns ((Concrete.Object.ofItems ps).join [c]) str ∧ (split str c).Yields ps) ∧
    (∀ s : List α, s.getLast? ≠ some c → Returns ((split s c).join [c]) s) := by
  constructor
  · intro ps hfree hlast
    refine ⟨_,(Concrete.yields_ofItems ps).join,?_⟩
    have h := yields_split ([c].intercalate ps) c
    rwa [pieces_intercalate hfree hlast] at h
  · intro s hlast
    have h : Returns ((split s c).join [c]) ([c].intercalate (pieces (· == c) s)) :=
      (yields_split s c).join
    by_cases hs : s = []
    · rw [hs] at h ⊢
      exact h
    · rwa [pieces_eq_splitOn hs hlast, List.intercalate_splitOn] at h

theorem split_join_commas :
    (∃ str, Returns ((Concrete.Object.ofItems [[],['a']]).join [',']) str ∧
      (split str ',').Yields [[],['a']]) ∧
    Returns ((split [',','a'] ',').join [',']) [',','a'] :=
  ⟨(split_join ',').1 [[],['a']] (by decide) (by decide),(split_join ',').2 [',','a'] (by decide)⟩

end Asp.Split
