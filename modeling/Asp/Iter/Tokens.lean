import Asp.Foundation.Runs
import Asp.Iter.Split

/-! `splitAny` as a tokeniser, with and without the empty strings. -/
namespace Asp.Split
open Asp.Foundation
variable {α : Type} [DecidableEq α]

def splitWhitespace (sv : List Char) : Concrete.Object (List Char) :=
  splitAny sv [' ','\t','\n','\r'] true

lemma yields_splitAny_all (s delims : List α) :
    (splitAny s delims false).Yields (omitFinal (s.splitOnP (fun a => delims.contains a))) := by
  rw [omitFinal_splitOnP]
  simpa only [Bool.not_false, Bool.true_or, List.filter_true] using yields_splitAny s delims false

lemma yields_splitAny_skip (s delims : List α) :
    (splitAny s delims true).Yields (tokens (fun a => delims.contains a) s) := by
  rw [← filter_pieces]
  simpa only [Bool.not_true, Bool.false_or] using yields_splitAny s delims true

/-- `splitAny` yields the segments between the delimiters without a final empty one; with
`skipEmpty` it yields the runs of other characters, which are the segments that are not empty. -/
theorem splitAny_tokenises :
    (∀ s delims : List α,
      let p := fun a => delims.contains a
      let segments := omitFinal (s.splitOnP p)
      (splitAny s delims false).Yields segments ∧
        (splitAny s delims true).Yields (segments.filter (!·.isEmpty)) ∧
        MaximalRuns p s (segments.filter (!·.isEmpty))) ∧
    ∀ sv : List Char, ∃ l, (splitWhitespace sv).Yields l ∧
      MaximalRuns (fun c => [' ','\t','\n','\r'].contains c) sv l := by
  refine ⟨?_,fun sv => ⟨_,yields_splitAny_skip sv _,maximalRuns_tokens _ sv⟩⟩
  intro s delims p segments
  have hfilter : segments.filter (!·.isEmpty) = tokens p s := by
    change (omitFinal (s.splitOnP p)).filter (!·.isEmpty) = tokens p s
    rw [omitFinal_splitOnP, filter_pieces]
  rw [hfilter]
  exact ⟨yields_splitAny_all s delims,yields_splitAny_skip s delims,maximalRuns_tokens p s⟩

end Asp.Split
