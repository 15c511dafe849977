import Asp.Foundation.FirstBest
import Asp.Iter.Terminals

/-! `min` and `max` of an iterator. Items that are equivalent for `<` need not be equal:
the first of them is returned. -/
namespace Asp.Concrete
open Asp.Foundation
universe u
variable {α σ : Type} {C : Concrete.{u} α} {s : C.State} {l : List α}

/-- The loop of `min` and `max`: an item replaces the one that was kept if it is better. -/
def extreme (C : Concrete.{u} α) (better : α → α → Bool) (n : ℕ) (s : C.State) : Option (Option α) :=
  (C.loop (σ := Option α) (ρ := Empty) (fun kept item =>
    match kept with
    | none => .goOn (some item)
    | some k => if better item k then .goOn (some item) else .goOn (some k)) n none s).map fun (r,_) =>
      match r with
      | .goOn kept => kept

/-- `std::less` of an item and the one that was kept. -/
def min (C : Concrete.{u} α) (less : α → α → Bool) (n : ℕ) (s : C.State) : Option (Option α) :=
  C.extreme (fun item minItem => less item minItem) n s

def max (C : Concrete.{u} α) (less : α → α → Bool) (n : ℕ) (s : C.State) : Option (Option α) :=
  C.extreme (fun item maxItem => less maxItem item) n s

end Asp.Concrete
