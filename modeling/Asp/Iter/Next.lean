import Mathlib.Data.Vector.Basic
import Asp.Foundation.Fuel

/-! The adapters of `asp::iter` as the states of their classes, and `next()` on them. A loop
of the source is bounded by the first argument of `next`; `none` means the bound ran out. -/
namespace Asp
open Asp.Foundation

/-- An iterator with items of type `α`: the class and its members. Functions are pure. -/
inductive Iter : Type → Type 1
  | cxxIter {α : Type} (items : List α) : Iter α
  | map {α β : Type} (m_func : α → β) (m_iter : Iter α) : Iter β
  | copied {α : Type} (m_iter : Iter α) : Iter α
  | inspect {α : Type} (m_func : α → Unit) (m_iter : Iter α) : Iter α
  | filter {α : Type} (m_func : α → Bool) (m_iter : Iter α) : Iter α
  | filterMap {α β : Type} (m_func : α → Option β) (m_iter : Iter α) : Iter β
  | enumerate {α : Type} (n : ℕ) (m_iter : Iter α) : Iter (ℕ × α)
  | chain {α : Type} (m_iter1 m_iter2 : Iter α) : Iter α
  | zip {α β : Type} (m_iter1 : Iter α) (m_iter2 : Iter β) : Iter (α × β)
  | take {α : Type} (m_n : ℕ) (m_iter : Iter α) : Iter α
  | skip {α : Type} (m_n : ℕ) (m_iter : Iter α) : Iter α
  | arrayChunks {α : Type} (N : ℕ) (hN : 0 < N) (m_iter : Iter α) : Iter (List.Vector α N)
  -- `Flatten` with `m_curIter` empty. `wrap` is `WrapContainerOrIterator`: it makes an item,
  -- a container or the value an inner pipeline is made of, into an iterator.
  | flatten {ι α : Type} (wrap : ι → Iter α) (m_iter : Iter ι) : Iter α
  -- `Flatten` with an iterator in `m_curIter`.
  | flattenCur {ι α : Type} (wrap : ι → Iter α) (m_iter : Iter ι) (m_curIter : Iter α) : Iter α
  | cycle {α : Type} (m_original m_iter : Iter α) : Iter α

namespace Iter

/-- The constructor of `Cycle`: `m_iter` starts as a copy of `m_original`. -/
def cycled {α : Type} (iter : Iter α) : Iter α := .cycle iter iter

def flatMap {α ι β : Type} (f : α → ι) (wrap : ι → Iter β) (iter : Iter α) : Iter β :=
  .flatten wrap (.map f iter)

/-- The loop of `ArrayChunks::next`: fill `k` more slots, or give up at the first `nullopt`. -/
def fillArray {α : Type} (next : Iter α → Option (Option α × Iter α)) :
    (k : ℕ) → Iter α → Option (Option (List.Vector α k) × Iter α)
  | 0, it => some (some .nil, it)
  | k + 1, it => (next it).bind fun (item, it') =>
      match item with
      | none => some (none, it')
      | some a => (fillArray next k it').map fun (arr, it'') => (arr.map (List.Vector.cons a), it'')

/-- `next()`: the returned item and the state left behind. -/
def next : ℕ → {α : Type} → Iter α → Option (Option α × Iter α)
  | 0, _, _ => none
  | _ + 1, _, .cxxIter [] => some (none, .cxxIter [])
  | _ + 1, _, .cxxIter (a :: items) => some (some a, .cxxIter items)
  | n + 1, _, .map f it => (next n it).map fun (item, it') => (item.map f, .map f it')
  | n + 1, _, .copied it => (next n it).map fun (item, it') => (item, .copied it')
  | n + 1, _, .inspect f it => (next n it).map fun (item, it') => (item, .inspect f it')
  | n + 1, _, .filter f it => (next n it).bind fun (item, it') =>
      match item with
      | none => some (none, .filter f it')
      | some a => if f a then some (some a, .filter f it') else next n (.filter f it')
  | n + 1, _, .filterMap f it => (next n it).bind fun (item, it') =>
      match item with
      | none => some (none, .filterMap f it')
      | some a =>
        match f a with
        | some b => some (some b, .filterMap f it')
        | none => next n (.filterMap f it')
  | n + 1, _, .enumerate k it => (next n it).map fun (item, it') =>
      match item with
      | none => (none, .enumerate k it')
      | some a => (some (k, a), .enumerate (k + 1) it')
  | n + 1, _, .chain it1 it2 => (next n it1).bind fun (item, it1') =>
      match item with
      | some a => some (some a, .chain it1' it2)
      | none => (next n it2).map fun (item, it2') => (item, .chain it1' it2')
  | n + 1, _, .zip it1 it2 => (next n it1).bind fun (item1, it1') =>
      -- the second iterator advances also when the first one has ended
      (next n it2).map fun (item2, it2') =>
        match item1, item2 with
        | some a, some b => (some (a, b), .zip it1' it2')
        | _, _ => (none, .zip it1' it2')
  | _ + 1, _, .take 0 it => some (none, .take 0 it)
  | n + 1, _, .take (k + 1) it => (next n it).map fun (item, it') => (item, .take k it')
  | n + 1, _, .skip 0 it => (next n it).map fun (item, it') => (item, .skip 0 it')
  | n + 1, _, .skip (k + 1) it => (next n it).bind fun (item, it') =>
      match item with
      | none => some (none, .skip (k + 1) it')
      | some _ => next n (.skip k it')
  | n + 1, _, .arrayChunks N hN it =>
      (fillArray (fun it => next n it) N it).map fun (arr, it') => (arr, .arrayChunks N hN it')
  | n + 1, _, .flatten wrap it => (next n it).bind fun (m_curValue, it') =>
      match m_curValue with
      | none => some (none, .flatten wrap it')
      | some i => next n (.flattenCur wrap it' (wrap i))
  | n + 1, _, .flattenCur wrap it cur => (next n cur).bind fun (item, cur') =>
      match item with
      | some a => some (some a, .flattenCur wrap it cur')
      | none => next n (.flatten wrap it)
  | n + 1, _, .cycle m_original it => (next n it).bind fun (item, it') =>
      match item with
      | some a => some (some a, .cycle m_original it')
      | none => (next n m_original).map fun (item, it') => (item, .cycle m_original it')

/-! The consumers. Each runs the iterator until `next()` returns `nullopt`. -/
section Consumers
variable {α : Type}

def countFrom : ℕ → ℕ → Iter α → Option ℕ
  | 0, _, _ => none
  | n + 1, cnt, it => (next n it).bind fun (item, it') =>
      match item with
      | none => some cnt
      | some _ => countFrom n (cnt + 1) it'

def count (n : ℕ) (it : Iter α) : Option ℕ := countFrom n 0 it

/-- `Iter::iterator`, with the iterator that its reference `m_iter` points to. -/
structure iterator (α : Type) where
  m_item : Option α
  m_iter : Iter α

namespace iterator

def getNext (n : ℕ) (it : iterator α) : Option (iterator α) :=
  (next n it.m_iter).map fun (item, iter) => ⟨item, iter⟩

/-- `operator!=` for two iterators over one `Iter` object. -/
def ne (it other : iterator α) : Bool := it.m_item.isSome != other.m_item.isSome

/-- `operator++`; the end iterator fails the assertion. -/
def increment (n : ℕ) (it : iterator α) : Option (iterator α) :=
  if it.m_item.isSome then getNext n it else none

end iterator

end Consumers
end Iter
end Asp
