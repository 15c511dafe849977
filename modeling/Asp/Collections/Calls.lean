import Asp.Collections.Operations

/-! A call of any member function on one vector, beside the same operation on a list. -/
namespace Asp.Collections
open Asp.Foundation SmallVec
variable {α : Type} {N : ℕ}

/-- The member functions that work on one vector; values come from outside of it. -/
inductive Op (α : Type)
  | emplace_back (x : α)
  | push_back (x : α)
  | push_backMove (x : α)
  | insert (iter : ℤ) (x : α)
  | insertMove (iter : ℤ) (x : α)
  | insertCount (iter : ℤ) (count : ℕ) (x : α)
  | insertRange (iter : ℤ) (range : List α)
  | erase (iter : ℤ)
  | eraseRange (first last : ℤ)
  | pop_back
  | reserve (newCap : ℕ)
  | clear

namespace Op

/-- The call, without its result. -/
def call (N v : ℕ) : Op α → VecM α Unit
  | emplace_back x => SmallVec.emplace_back N v (.value x)
  | push_back x => SmallVec.push_back N v (.value x)
  | push_backMove x => SmallVec.push_backMove N v (.value x)
  | insert iter x => SmallVec.insert N v iter (.value x) >>= fun _ => pure ()
  | insertMove iter x => SmallVec.insertMove N v iter (.value x) >>= fun _ => pure ()
  | insertCount iter count x => SmallVec.insertCount N v iter count (.value x)
  | insertRange iter range => SmallVec.insertRange N v iter (range.map .value)
  | erase iter => SmallVec.erase N v iter >>= fun _ => pure ()
  | eraseRange first last => SmallVec.eraseRange N v first last >>= fun _ => pure ()
  | pop_back => SmallVec.pop_back N v
  | reserve newCap => SmallVec.reserve N v newCap
  | clear => SmallVec.clear N v

/-- The position is in a list of length `n`, and the result is not too large. -/
def Legal (n : ℕ) : Op α → Prop
  | emplace_back _ | push_back _ | push_backMove _ => n + 1 < 2 ^ 63
  | insert iter _ | insertMove iter _ => 0 ≤ iter ∧ iter.toNat ≤ n ∧ n + 1 < 2 ^ 63
  | insertCount iter count _ => 0 ≤ iter ∧ iter.toNat ≤ n ∧ n + count < 2 ^ 63
  | insertRange iter range => 0 ≤ iter ∧ iter.toNat ≤ n ∧ n + range.length < 2 ^ 63
  | erase _ | eraseRange _ _ | pop_back | reserve _ | clear => True

instance (n : ℕ) : ∀ op : Op α, Decidable (op.Legal n)
  | emplace_back _ | push_back _ | push_backMove _ => inferInstanceAs (Decidable (n + 1 < 2 ^ 63))
  | insert iter _ | insertMove iter _ =>
    inferInstanceAs (Decidable (0 ≤ iter ∧ iter.toNat ≤ n ∧ n + 1 < 2 ^ 63))
  | insertCount iter count _ =>
    inferInstanceAs (Decidable (0 ≤ iter ∧ iter.toNat ≤ n ∧ n + count < 2 ^ 63))
  | insertRange iter range =>
    inferInstanceAs (Decidable (0 ≤ iter ∧ iter.toNat ≤ n ∧ n + range.length < 2 ^ 63))
  | erase _ | eraseRange _ _ | pop_back | reserve _ | clear => .isTrue trivial

/-- Erasure from a list, with the exception for a range that is not inside it. -/
def eraseList (first last : ℤ) (l : List α) : Except String (List α) :=
  if first < 0 ∨ last > l.length ∨ first > last then
    .error "SmallVec::erase: iterator range out of range"
  else .ok (erased l first.toNat last.toNat)

/-- The operation on a list. -/
def apply : Op α → List α → Except String (List α)
  | emplace_back x, l | push_back x, l | push_backMove x, l => .ok (l ++ [x])
  | insert iter x, l | insertMove iter x, l => .ok (inserted l [x] iter.toNat)
  | insertCount iter count x, l => .ok (inserted l (List.replicate count x) iter.toNat)
  | insertRange iter range, l => .ok (inserted l range iter.toNat)
  | erase iter, l => eraseList iter (iter + 1) l
  | eraseRange first last, l => eraseList first last l
  | pop_back, l => if l = [] then .error "SmallVec::pop_back: empty vector" else .ok l.dropLast
  | reserve _, l => .ok l
  | clear, _ => .ok []

/-- An erased range inside a vector of size `n` is empty or is followed by as many elements. -/
def ErasesProperly (n : ℕ) (first last : ℤ) : Prop :=
  first < 0 ∨ last > n ∨ first > last ∨ first = last ∨ n - last = last - first

instance (n : ℕ) (first last : ℤ) : Decidable (ErasesProperly n first last) :=
  inferInstanceAs (Decidable (_ ∨ _))

/-- In a vector of size `n` the call handles lifetimes properly: the elements it moves to the
right end up beyond the old end, or those it moves to the left replace all that is erased. -/
def Proper (n : ℕ) : Op α → Prop
  | insert iter _ | insertMove iter _ => n ≤ iter.toNat + 1
  | insertCount iter count _ => count = 0 ∨ n ≤ iter.toNat + count
  | insertRange iter range => range.length = 0 ∨ n ≤ iter.toNat + range.length
  | erase iter => ErasesProperly n iter (iter + 1)
  | eraseRange first last => ErasesProperly n first last
  | emplace_back _ | push_back _ | push_backMove _ | pop_back | reserve _ | clear => True

instance (n : ℕ) : ∀ op : Op α, Decidable (op.Proper n)
  | insert iter _ | insertMove iter _ => inferInstanceAs (Decidable (n ≤ iter.toNat + 1))
  | insertCount iter count _ => inferInstanceAs (Decidable (count = 0 ∨ n ≤ iter.toNat + count))
  | insertRange iter range =>
    inferInstanceAs (Decidable (range.length = 0 ∨ n ≤ iter.toNat + range.length))
  | erase iter => inferInstanceAs (Decidable (ErasesProperly n iter (iter + 1)))
  | eraseRange first last => inferInstanceAs (Decidable (ErasesProperly n first last))
  | emplace_back _ | push_back _ | push_backMove _ | pop_back | reserve _ | clear => .isTrue trivial

end Op

/-- The specification of a call: it does what the operation does on the list `l`. -/
def CallSpec (N v : ℕ) (w : World α) (p : VecM α Unit) (r : Except String (List α)) (g : Prop) :
    Prop :=
  Prog.wp p (fun _ w' => ∃ l', r = .ok l' ∧ Does N v w w' l' g)
    (fun e w' => w' = w ∧ ∃ what, e = .outOfRange what ∧ r = .error what) w

lemma callSpec_of_does {w : World α} {v : ℕ} {p : VecM α Unit} {l' : List α} {g g' : Prop}
    (h : Prog.wp p (fun _ w' => Does N v w w' l' g) Prog.never w) (hg : g' → g) :
    CallSpec N v w p (.ok l') g' :=
  h.then fun _ _ hd => ⟨l', rfl, hd.weaken hg⟩

lemma callSpec_erase {w : World α} {v : ℕ} {l : List α} (h : Holds N w v l) (first last : ℤ) :
    CallSpec N v w (SmallVec.eraseRange N v first last >>= fun _ => pure ())
      (Op.eraseList first last l) (Op.ErasesProperly l.length first last) := by
  unfold CallSpec Op.eraseList
  rw [Prog.wp_bind]
  split_ifs with hbad
  · exact (wp_eraseRange_throws h hbad).mono (fun _ _ hf => hf.elim)
      fun _ _ he => ⟨he.1, _, he.2, rfl⟩
  · obtain ⟨i, rfl⟩ : ∃ i : ℕ, first = i := ⟨first.toNat, by omega⟩
    obtain ⟨j, rfl⟩ : ∃ j : ℕ, last = j := ⟨last.toNat, by omega⟩
    rw [Int.toNat_natCast, Int.toNat_natCast]
    apply (wp_eraseRange h (by omega) (by omega)).then
    intro _ w' hd
    refine ⟨_, rfl, hd.weaken fun hg => ?_⟩
    rcases hg with hg | hg | hg | hg | hg <;> omega

/-- Every member function on a vector does what the list operation does. -/
theorem call_spec {w : World α} {v : ℕ} {l : List α} (h : Holds N w v l)
    (hbudget : w.budget = none) (op : Op α) (hlegal : op.Legal l.length) :
    CallSpec N v w (op.call N v) (op.apply l) (op.Proper l.length) := by
  have hins : ∀ iter : ℤ, 0 ≤ iter → ∃ i : ℕ, iter = i := fun iter hi => ⟨iter.toNat, by omega⟩
  cases op with
  | emplace_back x | push_back x | push_backMove x =>
    exact callSpec_of_does (wp_emplace_back h hbudget (fun w' _ => reads_value w' x) hlegal) id
  | insert iter x | insertMove iter x =>
    obtain ⟨hpos, hindex, hmax⟩ := hlegal
    obtain ⟨i, rfl⟩ := hins iter hpos
    rw [Int.toNat_natCast] at hindex
    refine callSpec_of_does ?_ id
    exact (Prog.wp_bind _ _).mpr ((wp_insert h hbudget hindex hmax).then fun _ _ hd => hd.2)
  | insertCount iter count x =>
    obtain ⟨hpos, hindex, hmax⟩ := hlegal
    obtain ⟨i, rfl⟩ := hins iter hpos
    exact callSpec_of_does (wp_insertCount h hbudget hindex hmax) id
  | insertRange iter range =>
    obtain ⟨hpos, hindex, hmax⟩ := hlegal
    obtain ⟨i, rfl⟩ := hins iter hpos
    refine callSpec_of_does (wp_insertRange h hbudget hindex hmax) fun hg => ?_
    exact hg.imp List.eq_nil_of_length_eq_zero id
  | erase iter => exact callSpec_erase h iter (iter + 1)
  | eraseRange first last => exact callSpec_erase h first last
  | pop_back =>
    by_cases hl : l = []
    · subst hl
      exact (wp_pop_back_throws h).mono (fun _ _ hf => hf.elim) fun _ _ he => ⟨he.1, _, he.2, rfl⟩
    · have hr : Op.apply .pop_back l = .ok l.dropLast := if_neg hl
      rw [hr]
      exact callSpec_of_does (wp_pop_back h hl) id
  | reserve newCap =>
    exact callSpec_of_does ((wp_reserve h newCap).then fun _ _ hd => hd.1) id
  | clear =>
    refine callSpec_of_does (wp_clear h.toStored) fun _ i hi => ?_
    obtain ⟨x, hx⟩ := h.cell_eq hi
    rw [hx]
    rfl

end Asp.Collections
