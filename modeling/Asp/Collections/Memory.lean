import Mathlib.Logic.Function.Basic
import Asp.Foundation.Prog

/-! The storage that vectors work on: the inline slots of every vector object and the arrays on
the heap, with a record of what is done wrong to them. -/
namespace Asp.Collections
open Asp.Foundation

/-- One `Uninit<T>`. The value of a live element is unspecified once it has been moved from. -/
inductive Slot (α : Type)
  | dead
  | live (value : Option α)

/-- What a pointer to slots points into: the `m_small` of a vector, or an array on the heap. -/
inductive Base
  | inline (v : ℕ)
  | heap (a : ℕ)
  | null
  deriving DecidableEq

inductive Fault
  | initLive
  | overwriteLive
  | destroyDead
  | readDead
  | outOfBounds
  | badDelete
  deriving DecidableEq

/-- The members of a vector beside its inline slots. The pointer overlaps them in a union. -/
structure Vec where
  m_large : Option ℕ
  m_size : ℕ
  m_capacity : ℕ
  deriving DecidableEq

/-- `block a` is the length of an array that is allocated at `a`, and `budget`, when it is a
number, how many elements can still be constructed from values before a constructor throws. -/
structure World (α : Type) where
  cell : Base → ℕ → Slot α
  block : ℕ → Option ℕ
  fresh : ℕ
  vec : ℕ → Vec
  alive : ℕ → Bool
  budget : Option ℕ
  faults : List Fault

/-- How an operation can end other than by returning. -/
inductive Err
  | outOfRange (what : String)
  | assertion (what : String)
  | constructor
  | diverged
  deriving DecidableEq

abbrev VecM (α β : Type) : Type := Prog Err (World α) β

namespace Slot
variable {α : Type}

def isLive : Slot α → Bool
  | dead => false
  | live _ => true

def value : Slot α → Option α
  | dead => none
  | live x => x

def movedFrom : Slot α → Slot α
  | dead => dead
  | live _ => live none

end Slot

/-- The faults of a slot's use as an element, as opposed to those of a memory access. -/
def Fault.isLifetime : Fault → Bool
  | initLive | overwriteLive | destroyDead => true
  | readDead | outOfBounds | badDelete => false

def faultUnless (ok : Bool) (f : Fault) : List Fault := if ok then [] else [f]

namespace World
variable {α : Type} (N : ℕ)

def isLarge (w : World α) (v : ℕ) : Bool := decide (N < (w.vec v).m_capacity)

def idata (w : World α) (v : ℕ) : Base :=
  if w.isLarge N v then
    match (w.vec v).m_large with
    | some a => .heap a
    | none => .null
  else .inline v

/-- The storage of slot `i` exists. -/
def inBounds (w : World α) : Base → ℕ → Bool
  | .inline v, i => w.alive v && decide (i < N)
  | .heap a, i =>
    match w.block a with
    | some n => decide (i < n)
    | none => false
  | .null, _ => false

/-- Give the slots at `b` new contents. -/
def edit (w : World α) (b : Base) (c : ℕ → Slot α) (f : List Fault) : World α :=
  { w with cell := Function.update w.cell b c, faults := w.faults ++ f }

def setVec (w : World α) (v : ℕ) (x : Vec) : World α :=
  { w with vec := Function.update w.vec v x }

def setSize (w : World α) (v n : ℕ) : World α := w.setVec v { w.vec v with m_size := n }

def setCapacity (w : World α) (v n : ℕ) : World α := w.setVec v { w.vec v with m_capacity := n }

/-- Writing the pointer overwrites the inline slots. -/
def setLarge (w : World α) (v : ℕ) (p : Option ℕ) : World α :=
  (w.setVec v { w.vec v with m_large := p }).edit (.inline v) (fun _ => .dead)
    (faultUnless ((List.range N).all fun i => !(w.cell (.inline v) i).isLive) .overwriteLive)

/-- The world before any vector exists. -/
def empty (α : Type) : World α where
  cell := fun _ _ => .dead
  block := fun _ => none
  fresh := 0
  vec := fun _ => ⟨none, 0, N⟩
  alive := fun _ => false
  budget := none
  faults := []

end World

/-! The operations on one slot -/
section Uninit
variable {α : Type} (N : ℕ)

/-- `Uninit::init` with a value that has been read already. -/
def init (b : Base) (i : ℕ) (x : Option α) : VecM α Unit :=
  Prog.modify fun w => w.edit b (Function.update (w.cell b) i (.live x))
    (faultUnless (w.inBounds N b i) .outOfBounds ++ faultUnless (!(w.cell b i).isLive) .initLive)

/-- `Uninit::destroy`. -/
def destroy (b : Base) (i : ℕ) : VecM α Unit :=
  Prog.modify fun w => w.edit b (Function.update (w.cell b) i .dead)
    (faultUnless (w.inBounds N b i) .outOfBounds ++ faultUnless (w.cell b i).isLive .destroyDead)

/-- Use of `Uninit::get` as the value of the element. -/
def read (b : Base) (i : ℕ) : VecM α (Option α) := do
  let w ← Prog.get
  Prog.modify fun w => w.edit b (w.cell b)
    (faultUnless (w.inBounds N b i) .outOfBounds ++ faultUnless (w.cell b i).isLive .readDead)
  pure (w.cell b i).value

/-- `std::move` out of `Uninit::get`. -/
def moveFrom (b : Base) (i : ℕ) : VecM α (Option α) := do
  let w ← Prog.get
  Prog.modify fun w => w.edit b (Function.update (w.cell b) i (w.cell b i).movedFrom)
    (faultUnless (w.inBounds N b i) .outOfBounds ++ faultUnless (w.cell b i).isLive .readDead)
  pure (w.cell b i).value

/-- A constructor argument: a value, or a reference to a slot that is copied or moved from. -/
inductive Arg (α : Type)
  | value (x : α)
  | ref (b : Base) (i : ℕ)
  | rvalue (b : Base) (i : ℕ)

namespace Arg

/-- `std::move` of an argument. -/
def moved : Arg α → Arg α
  | value x => .value x
  | ref b i => .rvalue b i
  | rvalue b i => .rvalue b i

def get : Arg α → VecM α (Option α)
  | value x => pure (some x)
  | ref b i => Collections.read N b i
  | rvalue b i => moveFrom N b i

end Arg

/-- The constructor of an element throws when the budget is used up. -/
def spend : VecM α Unit := do
  let w ← Prog.get
  match w.budget with
  | none => pure ()
  | some 0 => Prog.throw .constructor
  | some (k + 1) => Prog.modify fun w => { w with budget := some k }

/-- `Uninit::init` from an argument. -/
def initFrom (b : Base) (i : ℕ) (arg : Arg α) : VecM α Unit := do
  spend
  let x ← arg.get N
  init N b i x

/-- `std::make_unique<Uninit<T>[]>(n)`. -/
def allocate (n : ℕ) : VecM α ℕ := do
  let w ← Prog.get
  Prog.modify fun w =>
    { w.edit (.heap w.fresh) (fun _ => .dead) [] with
      block := Function.update w.block w.fresh (some n), fresh := w.fresh + 1 }
  pure w.fresh

/-- `delete[] p`, which does nothing for a null pointer. -/
def deleteArray : Option ℕ → VecM α Unit
  | none => pure ()
  | some a => Prog.modify fun w =>
    { w with
      block := Function.update w.block a none
      faults := w.faults ++ faultUnless (w.block a).isSome .badDelete }

end Uninit
end Asp.Collections
