import Mathlib.Order.Defs.Unbundled
import Mathlib.Tactic.ByContra
import Mathlib.Tactic.SplitIfs

/-! The first of the best items of a list, for a strict weak order: items that neither beats the
other need not be equal. -/
namespace Asp.Foundation
variable {α : Type*}

/-- `m` beats all items before it, and none behind it beats `m`. -/
def FirstBest (better : α → α → Bool) (l : List α) (m : α) : Prop :=
  ∃ before after, l = before ++ m :: after ∧ (∀ x ∈ before, better m x = true) ∧
    ∀ x ∈ after, better x m = false

variable {better : α → α → Bool} {l : List α}

/-- Two items cannot both be the first of the best. -/
theorem FirstBest.unique {m m' : α} (h : FirstBest better l m) (h' : FirstBest better l m') :
    m = m' := by
  -- of two different positions, the later item would have to beat the earlier one, and not to
  have hlater : ∀ {a b' a' c : List α} {m m' : α}, m :: a = c ++ m' :: a' →
      (∀ x ∈ a, better x m = false) → (∀ x ∈ b' ++ c, better m' x = true) → m = m' := by
    intro a b' a' c m m' hl ha hc
    cases c with
    | nil => exact (List.cons.inj hl).1
    | cons x c =>
      obtain ⟨rfl,rfl⟩ := List.cons.inj hl
      have hbeats := hc m (List.mem_append_right b' List.mem_cons_self)
      cases hbeats.symm.trans (ha m' (List.mem_append_right c List.mem_cons_self))
  obtain ⟨b,a,rfl,hb,ha⟩ := h
  obtain ⟨b',a',hl,hb',ha'⟩ := h'
  obtain ⟨c,rfl,hc⟩ | ⟨c,rfl,hc⟩ := List.append_eq_append_iff.mp hl
  · exact hlater hc ha hb'
  · exact (hlater hc ha' hb).symm

section Order
variable [IsStrictWeakOrder α (fun a b => better a b = true)]

end Order

end Asp.Foundation
