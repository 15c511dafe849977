import Asp.Foundation.Pieces
import Asp.Iter.Concrete

/-! `Split` and `SplitAny`, and the four ways to advance them. A `string_view` and a `span` of
bytes are lists of their characters. -/
namespace Asp
open Asp.Foundation
variable {α : Type}

structure Split (α D : Type) where
  m_input : List α
  m_delim : D

structure SplitAny (α : Type) where
  m_input : List α
  m_delim : List α
  m_skipEmpty : Bool

namespace Split

/-- The class `Split<T, D>`, with the specialisation of `_nextSplit` for its arguments. -/
def concrete {D : Type} (nextSplit : List α → D → List α × List α) : Concrete (List α) where
  State := Split α D
  next _ s :=
    if s.m_input.isEmpty then some (none,s)
    else
      let (out,inp) := nextSplit s.m_input s.m_delim
      some (some out,⟨inp,s.m_delim⟩)

/-- A splitter whose advance function cuts at the delimiters yields the pieces between them. -/
theorem yields_of_cuts {D : Type} {nextSplit : List α → D → List α × List α} {delim : D}
    {p : α → Bool} (hcuts : ∀ s, Cuts p s (nextSplit s delim).1 (nextSplit s delim).2)
    (s : List α) : (concrete nextSplit).Yields ⟨s,delim⟩ (pieces p s) := by
  induction hlen : s.length using Nat.strong_induction_on generalizing s with
  | h k ih =>
    cases s with
    | nil =>
      refine Concrete.yields_nil_of_inv (C := concrete nextSplit) (· = ⟨[],delim⟩) ?_ rfl
      intro t ht
      exact ⟨t,ht ▸ Returns.pure _,ht⟩
    | cons a s =>
      have hcut := hcuts (a :: s)
      have hlt := hcut.length_lt (by simp)
      rw [hcut.pieces_eq (by simp)]
      exact ⟨_,Returns.pure _,ih _ (hlen ▸ hlt) _ rfl⟩

variable [DecidableEq α]

/-- `string_view::find` of a substring: the least position where it occurs. -/
def findView (delim : List α) : List α → Option ℕ
  | [] => if delim.isEmpty then some 0 else none
  | a :: s => if delim.isPrefixOf (a :: s) then some 0 else (findView delim s).map (· + 1)

/-- `_nextSplit(string_view, char)`: the piece that is returned, and the input left behind. -/
def _nextSplit (inp : List α) (delim : α) : List α × List α :=
  match inp.findIdx? (· == delim) with
  | none => (inp,[])
  | some pos => (inp.take pos,inp.drop (pos + 1))

/-- `_nextSplit(string_view, string_view)` -/
def _nextSplitView (inp delim : List α) : List α × List α :=
  match findView delim inp with
  | none => (inp,[])
  | some pos => (inp.take pos,inp.drop (pos + delim.length))

/-- The loop of `_nextSplit(span, unsigned char)`. -/
def scan (inp : List α) (delim : α) (pos : ℕ) : ℕ :=
  if h : pos < inp.length then
    if inp[pos] ≠ delim then scan inp delim (pos + 1) else pos
  else pos
termination_by inp.length - pos

/-- `_nextSplit(span, unsigned char)` -/
def _nextSplitSpan (inp : List α) (delim : α) : List α × List α :=
  let pos := scan inp delim 0
  (inp.take pos,if pos < inp.length then inp.drop (pos + 1) else [])

/-- `_nextSplitAny(string_view, string_view)` -/
def _nextSplitAny (inp delim : List α) : List α × List α :=
  match inp.findIdx? (fun a => delim.contains a) with
  | none => (inp,[])
  | some pos => (inp.take pos,inp.drop (pos + 1))

/-- `SplitAny::next` -/
def nextAny : ℕ → SplitAny α → Option (Option (List α) × SplitAny α)
  | 0, _ => none
  | n+1, s =>
    if s.m_input.isEmpty then some (none,s)
    else
      let (ret,inp) := _nextSplitAny s.m_input s.m_delim
      if !s.m_skipEmpty || !ret.isEmpty then some (some ret,⟨inp,s.m_delim,s.m_skipEmpty⟩)
      else nextAny n ⟨inp,s.m_delim,s.m_skipEmpty⟩

def concreteAny (α : Type) [DecidableEq α] : Concrete (List α) := ⟨SplitAny α,nextAny⟩

/-- `split(string_view, char)` -/
def split (sv : List α) (delim : α) : Concrete.Object (List α) := ⟨concrete _nextSplit,⟨sv,delim⟩⟩
/-- `split(string_view, string_view)` -/
def splitView (sv delim : List α) : Concrete.Object (List α) := ⟨concrete _nextSplitView,⟨sv,delim⟩⟩
/-- `split(const std::vector<unsigned char>&, unsigned char)` -/
def splitVector (sv : List α) (delim : α) : Concrete.Object (List α) :=
  ⟨concrete _nextSplitSpan,⟨sv,delim⟩⟩
def splitAny (sv delims : List α) (skipEmpty : Bool) : Concrete.Object (List α) :=
  ⟨concreteAny α,⟨sv,delims,skipEmpty⟩⟩

/-! Each of them makes one cut, at the delimiters it looks for. -/

lemma cuts_nextSplit (s : List α) (c : α) :
    Cuts (· == c) s (_nextSplit s c).1 (_nextSplit s c).2 := cuts_findIdx? (· == c) s

lemma cuts_nextSplitAny (s delim : List α) :
    Cuts (fun a => delim.contains a) s (_nextSplitAny s delim).1 (_nextSplitAny s delim).2 :=
  cuts_findIdx? _ s

/-- A substring of one character occurs where the character does. -/
lemma findView_singleton (s : List α) (c : α) : findView [c] s = s.findIdx? (· == c) := by
  induction s with
  | nil => rfl
  | cons a s ih =>
    rw [findView, ih, List.findIdx?_cons]
    by_cases h : a = c
    · simp [List.isPrefixOf, h]
    · simp [List.isPrefixOf, h, Ne.symm h]

lemma nextSplitView_singleton (s : List α) (c : α) : _nextSplitView s [c] = _nextSplit s c := by
  rw [_nextSplitView, findView_singleton, _nextSplit]
  rfl

/-- The loop stops at the first delimiter from its start on, or at the end. -/
lemma scan_spec (s : List α) (c : α) (pos : ℕ) (hpos : pos ≤ s.length)
    (hbefore : ∀ x ∈ s.take pos, (x == c) = false) :
    (∀ x ∈ s.take (scan s c pos), (x == c) = false) ∧ scan s c pos ≤ s.length ∧
      ∀ h : scan s c pos < s.length, s[scan s c pos] = c := by
  induction pos using scan.induct s c with
  | case1 pos h hne ih =>
    rw [scan, dif_pos h, if_pos hne]
    apply ih (by omega)
    intro x hx
    rw [List.take_succ_eq_append_getElem h, List.mem_append, List.mem_singleton] at hx
    rcases hx with hx | rfl
    · exact hbefore x hx
    · simpa using hne
  | case2 pos h heq =>
    rw [scan, dif_pos h, if_neg heq]
    exact ⟨hbefore,hpos,fun _ => not_not.mp heq⟩
  | case3 pos h =>
    rw [scan, dif_neg h]
    exact ⟨hbefore,hpos,fun h' => absurd h' h⟩

lemma cuts_nextSplitSpan (s : List α) (c : α) :
    Cuts (· == c) s (_nextSplitSpan s c).1 (_nextSplitSpan s c).2 := by
  obtain ⟨hbefore,hle,hat⟩ := scan_spec s c 0 (Nat.zero_le _) (by simp)
  simp only [_nextSplitSpan]
  split_ifs with h
  · exact cuts_take h (by simp [hat h]) hbefore
  · have hall : s.take (scan s c 0) = s := List.take_of_length_le (by omega)
    rw [hall] at hbefore ⊢
    exact cuts_all hbefore

/-- `splitAny` yields the pieces between its delimiters, if wanted only those not empty. -/
theorem yields_splitAny (s delims : List α) (skipEmpty : Bool) :
    (splitAny s delims skipEmpty).Yields
      ((pieces (fun a => delims.contains a) s).filter (fun x => !skipEmpty || !x.isEmpty)) := by
  induction hlen : s.length using Nat.strong_induction_on generalizing s with
  | h k ih =>
    cases s with
    | nil =>
      refine Concrete.yields_nil_of_inv (C := concreteAny α) (· = ⟨[],delims,skipEmpty⟩) ?_ rfl
      intro t ht
      exact ⟨t,ht ▸ Returns.succ (Returns.pure _) (fun _ => rfl),ht⟩
    | cons a s =>
      have hcut := cuts_nextSplitAny (a :: s) delims
      have hlt := hcut.length_lt (by simp)
      have hrest := ih _ (hlen ▸ hlt) _ rfl
      rw [hcut.pieces_eq (by simp), List.filter_cons]
      by_cases hkeep : (!skipEmpty || !(_nextSplitAny (a :: s) delims).1.isEmpty) = true
      · rw [if_pos hkeep]
        refine ⟨_,Returns.succ (Returns.pure _) (fun n => ?_),hrest⟩
        change nextAny (n+1) ⟨a :: s,delims,skipEmpty⟩ = _
        simp only [nextAny, List.isEmpty_cons, Bool.false_eq_true, if_false, if_pos hkeep]
        rfl
      · rw [if_neg hkeep]
        -- an empty piece is skipped within the same call
        refine hrest.of_next (fun item t ht => Returns.succ ht (fun n => ?_))
        change nextAny (n+1) ⟨a :: s,delims,skipEmpty⟩ = _
        simp only [nextAny, List.isEmpty_cons, Bool.false_eq_true, if_false, if_neg hkeep]
        rfl

lemma yields_split (s : List α) (c : α) : (split s c).Yields (pieces (· == c) s) :=
  yields_of_cuts (fun s => cuts_nextSplit s c) s

/-- The splitters at one character yield the same pieces. -/
theorem splitters_agree (s : List α) (c : α) :
    (split s c).Yields (pieces (· == c) s) ∧
    (splitView s [c]).Yields (pieces (· == c) s) ∧
    (splitAny s [c] false).Yields (pieces (· == c) s) ∧
    (splitVector s c).Yields (pieces (· == c) s) := by
  refine ⟨yields_split s c,?_,?_,yields_of_cuts (fun s => cuts_nextSplitSpan s c) s⟩
  · exact yields_of_cuts (fun s => (nextSplitView_singleton s c).symm ▸ cuts_nextSplit s c) s
  · have hany := yields_splitAny s [c] false
    have hp : (fun a => [c].contains a) = (· == c) := by
      funext a
      rw [List.contains_cons, List.contains_nil, Bool.or_false]
    simpa only [hp, Bool.not_false, Bool.true_or, List.filter_true] using hany

end Split
end Asp
