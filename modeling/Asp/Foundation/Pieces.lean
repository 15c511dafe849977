import Mathlib.Data.List.Basic

/-! A list cut at its delimiters. The fields lie between them (`List.splitOnP`); the pieces are
the fields without an empty one at the end, and the tokens the fields that are not empty. -/
namespace Asp.Foundation
variable {α : Type*} {p q : α → Bool} {s : List α}

/-- The pieces of a list that has one more element in front, which is no delimiter. -/
def consHead (a : α) : List (List α) → List (List α)
  | [] => [[a]]
  | x :: xs => (a :: x) :: xs

def pieces (p : α → Bool) : List α → List (List α)
  | [] => []
  | a :: s => if p a then [] :: pieces p s else consHead a (pieces p s)

def tokens (p : α → Bool) (s : List α) : List (List α) := (s.splitOnP p).filter (!·.isEmpty)

/-- One cut: `out` has no delimiter, and `inp` is what follows the delimiter behind it. -/
def Cuts (p : α → Bool) (s out inp : List α) : Prop :=
  (∀ x ∈ out, p x = false) ∧ (s = out ∧ inp = [] ∨ ∃ sep, p sep = true ∧ s = out ++ sep :: inp)

lemma cuts_take {i : ℕ} (hi : i < s.length) (hp : p s[i] = true)
    (hbefore : ∀ x ∈ s.take i, p x = false) : Cuts p s (s.take i) (s.drop (i + 1)) := by
  refine ⟨hbefore,Or.inr ⟨s[i],hp,?_⟩⟩
  rw [← List.drop_eq_getElem_cons hi, List.take_append_drop]

lemma cuts_all (h : ∀ x ∈ s, p x = false) : Cuts p s s [] := ⟨h,Or.inl ⟨rfl,rfl⟩⟩

/-- A search for the first delimiter cuts there. -/
lemma cuts_findIdx? (p : α → Bool) (s : List α) :
    let r := match s.findIdx? p with
      | none => (s,[])
      | some pos => (s.take pos,s.drop (pos + 1))
    Cuts p s r.1 r.2 := by
  dsimp only
  cases h : s.findIdx? p with
  | none => exact cuts_all (by simpa using List.findIdx?_eq_none_iff.mp h)
  | some pos =>
    obtain ⟨hpos,hp,hbefore⟩ := List.findIdx?_eq_some_iff_getElem.mp h
    refine cuts_take hpos hp ?_
    intro x hx
    obtain ⟨i,hi,rfl⟩ := List.mem_take_iff_getElem.mp hx
    simpa using hbefore i (by omega)

lemma pieces_all (hs : s ≠ []) (h : ∀ x ∈ s, p x = false) : pieces p s = [s] := by
  induction s with
  | nil => exact absurd rfl hs
  | cons a s ih =>
    have ha := h a (by simp)
    cases s with
    | nil => simp [pieces, ha, consHead]
    | cons b s =>
      have hrest := ih (by simp) (fun x hx => h x (List.mem_cons_of_mem a hx))
      rw [pieces, if_neg (by simp [ha]), hrest, consHead]

lemma pieces_append_cons {out inp : List α} {sep : α} (h : ∀ x ∈ out, p x = false)
    (hsep : p sep = true) : pieces p (out ++ sep :: inp) = out :: pieces p inp := by
  induction out with
  | nil => simp [pieces, hsep]
  | cons a out ih =>
    have ha := h a (by simp)
    have hrest := ih (fun x hx => h x (List.mem_cons_of_mem a hx))
    rw [List.cons_append, pieces, if_neg (by simp [ha]), hrest, consHead]

/-- A cut takes the first piece off. -/
theorem Cuts.pieces_eq {out inp : List α} (h : Cuts p s out inp) (hs : s ≠ []) :
    pieces p s = out :: pieces p inp := by
  obtain ⟨hout,⟨rfl,rfl⟩ | ⟨sep,hsep,rfl⟩⟩ := h
  · rw [pieces_all hs hout, pieces]
  · exact pieces_append_cons hout hsep

lemma Cuts.length_lt {out inp : List α} (h : Cuts p s out inp) (hs : s ≠ []) :
    inp.length < s.length := by
  have hpos := List.length_pos_of_ne_nil hs
  obtain ⟨hout,⟨rfl,rfl⟩ | ⟨sep,hsep,rfl⟩⟩ := h
  · exact hpos
  · simp only [List.length_append, List.length_cons]
    omega

lemma pieces_ne_nil (hs : s ≠ []) : pieces p s ≠ [] := by
  cases s with
  | nil => exact absurd rfl hs
  | cons a s =>
    rw [pieces]
    split_ifs with h
    · simp
    · cases pieces p s <;> simp [consHead]

/-- The field that the pieces leave out: the empty one behind a last delimiter. -/
theorem splitOnP_eq_pieces (p : α → Bool) (s : List α) :
    s.splitOnP p = pieces p s ++ if s.getLast?.all p then [[]] else [] := by
  induction s with
  | nil => rfl
  | cons a s ih =>
    rw [List.splitOnP_cons_eq_if_modifyHead, ih, pieces]
    cases s with
    | nil => cases h : p a <;> simp [pieces, consHead, h]
    | cons b s =>
      obtain ⟨x,xs,hx⟩ := List.exists_cons_of_ne_nil (pieces_ne_nil (p := p) (s := b :: s) (by simp))
      cases h : p a <;> simp [hx, consHead]

/-- A list of fields without a final empty one. -/
def omitFinal (fields : List (List α)) : List (List α) :=
  match fields.getLast? with
  | some [] => fields.dropLast
  | _ => fields

/-- Unless a delimiter is the last element, the last piece is not empty. -/
lemma pieces_getLast? (h : ¬s.getLast?.all p = true) : (pieces p s).getLast? ≠ some [] := by
  induction s with
  | nil => simp [pieces]
  | cons a s ih =>
    cases s with
    | nil =>
      have ha : p a = false := by simpa using h
      simp [pieces, ha, consHead]
    | cons b s =>
      rw [List.getLast?_cons_cons] at h
      have hrest := ih h
      obtain ⟨x,xs,hx⟩ := List.exists_cons_of_ne_nil (pieces_ne_nil (p := p) (s := b :: s) (by simp))
      rw [pieces, hx]
      rw [hx] at hrest
      split_ifs with hp
      · rwa [List.getLast?_cons_cons]
      · rw [consHead]
        cases xs with
        | nil => simp
        | cons y ys => rwa [List.getLast?_cons_cons] at hrest ⊢

/-- The pieces are the fields but for a final empty one. -/
theorem omitFinal_splitOnP (p : α → Bool) (s : List α) : omitFinal (s.splitOnP p) = pieces p s := by
  rw [splitOnP_eq_pieces, omitFinal]
  split_ifs with hlast
  · simp
  · rw [List.append_nil]
    split
    · exact absurd ‹_› (pieces_getLast? hlast)
    · rfl

theorem filter_pieces (p : α → Bool) (s : List α) :
    (pieces p s).filter (!·.isEmpty) = tokens p s := by
  rw [tokens, splitOnP_eq_pieces, List.filter_append]
  split_ifs <;> simp

/-- Cutting at either kind of delimiter is cutting at one kind and every field at the other. -/
theorem splitOnP_or (p q : α → Bool) (s : List α) :
    s.splitOnP (fun a => p a || q a) = (s.splitOnP p).flatMap (List.splitOnP q) := by
  induction s with
  | nil => rfl
  | cons a s ih =>
    obtain ⟨x,xs,hx⟩ := List.exists_cons_of_ne_nil (List.splitOnP_ne_nil p s)
    obtain ⟨y,ys,hy⟩ := List.exists_cons_of_ne_nil (List.splitOnP_ne_nil q x)
    rw [hx, List.flatMap_cons, hy] at ih
    cases hp : p a <;> cases hq : q a <;>
      simp [List.splitOnP_cons_eq_if_modifyHead, hp, hq, hx, hy, ih]

@[simp] lemma tokens_nil (p : α → Bool) : tokens p [] = [] := rfl

/-- Fields that are empty have no tokens. -/
lemma flatMap_tokens_filter (q : α → Bool) (l : List (List α)) :
    (l.filter (!·.isEmpty)).flatMap (tokens q) = l.flatMap (tokens q) := by
  induction l with
  | nil => rfl
  | cons x l ih =>
    cases x with
    | nil => simpa using ih
    | cons a x => simpa using ih

theorem tokens_flatMap (p q : α → Bool) (s : List α) :
    (tokens p s).flatMap (tokens q) = tokens (fun a => p a || q a) s := by
  rw [tokens, flatMap_tokens_filter, tokens, splitOnP_or, List.filter_flatMap]
  rfl

end Asp.Foundation
