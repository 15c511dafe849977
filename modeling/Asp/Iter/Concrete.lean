import Asp.Iter.Rules
import Mathlib.Data.List.Basic

/-! Iterators over classes of their own, beside the adapters of `Iter`: the concrete class of
`Iter<Concrete, Item>` with its state, `flatMap` and `join` on it, and the sequence it yields. -/
namespace Asp
open Asp.Foundation

/-- The template argument `Concrete`: the members of the class and its `next()`, where the
first argument bounds the loops. -/
structure Concrete.{u} (Item : Type) where
  State : Type u
  next : ℕ → State → Option (Option Item × State)

namespace Concrete
universe u
variable {α β ι : Type}

/-- The adapters of `Iter` as one class. -/
def iter (α : Type) : Concrete α := ⟨Iter α,fun n it => Iter.next n it⟩

def map (m_func : α → β) (C : Concrete.{u} α) : Concrete.{u} β where
  State := C.State
  next n s := (C.next n s).map fun (item,s') => (item.map m_func,s')

/-- The members of `Flatten`; an item of the outer iterator is an iterator already. -/
structure Flatten (Outer Inner : Type) where
  m_iter : Outer
  m_curIter : Option Inner

namespace Flatten

/-- `Flatten::next` -/
def next (C : Concrete ι) (D : Concrete α) (wrap : ι → D.State) :
    ℕ → Flatten C.State D.State → Option (Option α × Flatten C.State D.State)
  | 0, _ => none
  | n+1, ⟨it,some cur⟩ => (D.next n cur).bind fun (item,cur') =>
      match item with
      | some a => some (some a,⟨it,some cur'⟩)
      | none => next C D wrap n ⟨it,none⟩
  | n+1, ⟨it,none⟩ => (C.next n it).bind fun (m_curValue,it') =>
      match m_curValue with
      | some i => next C D wrap n ⟨it',some (wrap i)⟩
      | none => some (none,⟨it',none⟩)

end Flatten

def flatten (C : Concrete ι) (D : Concrete α) (wrap : ι → D.State) : Concrete α where
  State := Flatten C.State D.State
  next := Flatten.next C D wrap

/-- An iterator: its class and the state of its members. -/
structure Object (α : Type) where
  cls : Concrete.{u} α
  state : cls.State

namespace Object

/-- `flatMap(f)`, for an f that makes iterators of the class D. -/
def flatMap (it : Object.{0} α) (D : Concrete.{0} β) (f : α → D.State) : Object.{0} β where
  cls := flatten (it.cls.map f) D id
  state := ⟨it.state,none⟩

end Object

/-- The loop of `join`, with its locals; formatting appends a string as it is. -/
def joinLoop (C : Concrete.{u} (List α)) (separator : List α) :
    ℕ → (first : Bool) → (result : List α) → C.State → Option (List α)
  | 0, _, _, _ => none
  | n+1, first, result, s => (C.next n s).bind fun (item,s') =>
      match item with
      | none => some result
      | some a =>
        let result := if !first then result ++ separator else result
        joinLoop C separator n false (result ++ a) s'

/-- `join(separator)` -/
def Object.join (it : Object.{u} (List α)) (separator : List α) (n : ℕ) : Option (List α) :=
  joinLoop it.cls separator n true [] it.state

section Yields
variable {C : Concrete.{u} α} {s s' : C.State}

/-- A call of `next()` terminates, returns `item` and leaves `s'` behind. -/
def Next (C : Concrete.{u} α) (s : C.State) (item : Option α) (s' : C.State) : Prop :=
  Returns (fun n => C.next n s) (item,s')

/-- The next m calls return `nullopt`. -/
def Ends (C : Concrete.{u} α) : ℕ → C.State → Prop
  | 0, _ => True
  | m+1, s => ∃ s', C.Next s none s' ∧ C.Ends m s'

/-- `next()` returns the items of the list and then `nullopt`, however often it is called. -/
def Yields (C : Concrete.{u} α) : C.State → List α → Prop
  | s, [] => ∀ m, C.Ends m s
  | s, a :: l => ∃ s', C.Next s (some a) s' ∧ C.Yields s' l

def Object.Yields (it : Object.{u} α) (l : List α) : Prop := it.cls.Yields it.state l

theorem Next.unique {s'' : C.State} {item item' : Option α} (h : C.Next s item s')
    (h' : C.Next s item' s'') : item = item' ∧ s' = s'' :=
  Prod.mk.inj (Returns.unique h h')

/-- A body that polls the iterator first. -/
theorem Next.bind {γ : Type} {run : ℕ → Option γ} {f : ℕ → Option α × C.State → Option γ} {c : γ}
    {item : Option α} (h : C.Next s item s') (hrun : ∀ n, run (n+1) = (C.next n s).bind (f n))
    (hf : Returns (fun n => f n (item,s')) c) : Returns run c :=
  Returns.succ (Returns.bind h hf) hrun

/-- An iterator yields one sequence. -/
theorem Yields.unique {l l' : List α} (h : C.Yields s l) (h' : C.Yields s l') : l = l' := by
  induction l generalizing s l' with
  | nil =>
    cases l' with
    | nil => rfl
    | cons a l' =>
      obtain ⟨_,hn,_⟩ := h 1
      obtain ⟨_,hn',_⟩ := h'
      cases (hn.unique hn').1
  | cons a l ih =>
    obtain ⟨t,hn,hy⟩ := h
    cases l' with
    | nil =>
      obtain ⟨_,hn',_⟩ := h' 1
      cases (hn.unique hn').1
    | cons b l' =>
      obtain ⟨t',hn',hy'⟩ := h'
      obtain ⟨hitem,rfl⟩ := hn.unique hn'
      rw [Option.some.inj hitem, ih hy hy']

/-- A poll of an exhausted iterator. -/
lemma Yields.next_none (h : C.Yields s []) : ∃ s', C.Next s none s' ∧ C.Yields s' [] := by
  obtain ⟨t,hn,_⟩ := h 1
  refine ⟨t,hn,?_⟩
  intro m
  obtain ⟨t',hn',hends⟩ := h (m+1)
  rwa [(hn.unique hn').2]

/-- What every state of a family leaves behind in the family is exhausted for good. -/
lemma yields_nil_of_inv (P : C.State → Prop) (hstep : ∀ s, P s → ∃ s', C.Next s none s' ∧ P s')
    (hs : P s) : C.Yields s [] := by
  intro m
  induction m generalizing s with
  | zero => trivial
  | succ m ih =>
    obtain ⟨t,hn,ht⟩ := hstep s hs
    exact ⟨t,hn,ih ht⟩

end Yields
/-- `iter::from` on a container. -/
def Object.ofItems (items : List α) : Object.{1} α := ⟨iter α,.cxxIter items⟩

theorem yields_ofItems (l : List α) : (Object.ofItems l).Yields l := by
  induction l with
  | nil => exact yields_nil_of_inv (· = .cxxIter []) (fun _ h => ⟨_,h ▸ Iter.next_cxxIter [],rfl⟩) rfl
  | cons a l ih => exact ⟨_,Iter.next_cxxIter (a :: l),ih⟩

section Map
variable {C : Concrete.{u} α} {s : C.State} (f : α → β)

lemma Next.map {s' : C.State} {item : Option α} (h : C.Next s item s') :
    (C.map f).Next s (item.map f) s' :=
  Returns.map (fun r : Option α × C.State => (r.1.map f,r.2)) h

theorem Yields.map {l : List α} (h : C.Yields s l) : (C.map f).Yields s (l.map f) := by
  induction l generalizing s with
  | nil =>
    refine yields_nil_of_inv (C := C.map f) (fun t => C.Yields t []) ?_ h
    intro t ht
    obtain ⟨t',hn,ht'⟩ := Yields.next_none ht
    exact ⟨t',Next.map f hn,ht'⟩
  | cons a l ih =>
    obtain ⟨t,hn,hy⟩ := h
    exact ⟨t,Next.map f hn,ih hy⟩

end Map

section Flat
variable {C : Concrete.{0} ι} {D : Concrete.{0} α} {wrap : ι → D.State} {it it' : C.State}
  {cur cur' : D.State} {item : Option α} {fl : (flatten C D wrap).State}

/-- The inner iterator goes on. -/
lemma next_flatten_item {a : α} (h : D.Next cur (some a) cur') :
    (flatten C D wrap).Next ⟨it,some cur⟩ (some a) ⟨it,some cur'⟩ :=
  h.bind (fun _ => rfl) (Returns.pure _)

/-- The inner iterator has ended. -/
lemma next_flatten_end (h : D.Next cur none cur')
    (h' : (flatten C D wrap).Next ⟨it,none⟩ item fl) :
    (flatten C D wrap).Next ⟨it,some cur⟩ item fl :=
  h.bind (fun _ => rfl) h'

/-- The outer iterator supplies the next one. -/
lemma next_flatten_outer {i : ι} (h : C.Next it (some i) it')
    (h' : (flatten C D wrap).Next ⟨it',some (wrap i)⟩ item fl) :
    (flatten C D wrap).Next ⟨it,none⟩ item fl :=
  h.bind (fun _ => rfl) h'

lemma next_flatten_none (h : C.Next it none it') :
    (flatten C D wrap).Next ⟨it,none⟩ none ⟨it',none⟩ :=
  h.bind (fun _ => rfl) (Returns.pure _)

/-- Moving on without an item does not change what is yielded. -/
lemma Yields.of_next {t t' : C.State} {l : List ι}
    (hnext : ∀ item s, C.Next t item s → C.Next t' item s) (h : C.Yields t l) : C.Yields t' l := by
  cases l with
  | nil =>
    intro m
    cases m with
    | zero => trivial
    | succ m =>
      obtain ⟨s,hn,hends⟩ := h (m+1)
      exact ⟨s,hnext _ _ hn,hends⟩
  | cons a l =>
    obtain ⟨s,hn,hy⟩ := h
    exact ⟨s,hnext _ _ hn,hy⟩

/-- What is left of the current iterator comes first. -/
lemma yields_flatten_cur {l r : List α} (hcur : D.Yields cur l)
    (hrest : (flatten C D wrap).Yields ⟨it,none⟩ r) :
    (flatten C D wrap).Yields ⟨it,some cur⟩ (l ++ r) := by
  induction l generalizing cur with
  | nil =>
    obtain ⟨_,hn,_⟩ := hcur.next_none
    exact hrest.of_next (fun _ _ h => next_flatten_end hn h)
  | cons a l ih =>
    obtain ⟨t,hn,hy⟩ := hcur
    exact ⟨_,next_flatten_item hn,ih hy⟩

/-- `Flatten` yields the items of the inner iterators in the order of the outer one. -/
theorem yields_flatten {κ : Type} {k : κ → ι} {l : List κ} {g : κ → List α}
    (h : C.Yields it (l.map k)) (hg : ∀ x, D.Yields (wrap (k x)) (g x)) :
    (flatten C D wrap).Yields ⟨it,none⟩ (l.flatMap g) := by
  induction l generalizing it with
  | nil =>
    refine yields_nil_of_inv (C := flatten C D wrap)
      (fun s => ∃ it, s = ⟨it,none⟩ ∧ C.Yields it []) ?_ ⟨it,rfl,h⟩
    intro s ⟨t,hs,ht⟩
    obtain ⟨t',hn,ht'⟩ := ht.next_none
    exact ⟨_,hs ▸ next_flatten_none hn,t',rfl,ht'⟩
  | cons i l ih =>
    obtain ⟨t,hn,hy⟩ := h
    exact (yields_flatten_cur (hg i) (ih hy)).of_next (fun _ _ h => next_flatten_outer hn h)

/-- `flatMap` concatenates what the iterators of the items yield. -/
theorem Object.Yields.flatMap {it : Object.{0} ι} {f : ι → D.State} {l : List ι} {g : ι → List α}
    (h : it.Yields l) (hg : ∀ x, D.Yields (f x) (g x)) :
    (it.flatMap D f).Yields (l.flatMap g) := by
  refine yields_flatten (k := f) ?_ hg
  exact Concrete.Yields.map f h

end Flat

section Join
variable {C : Concrete.{u} (List α)} {s : C.State} {separator : List α}

/-- From the second item on, each one is appended behind a separator. -/
lemma joinLoop_returns {l : List (List α)} (h : C.Yields s l) (result : List α) :
    Returns (fun n => joinLoop C separator n false result s)
      (result ++ l.flatMap (separator ++ ·)) := by
  induction l generalizing s result with
  | nil =>
    obtain ⟨_,hn,_⟩ := h.next_none
    rw [List.flatMap_nil, List.append_nil]
    exact hn.bind (fun _ => rfl) (Returns.pure _)
  | cons a l ih =>
    obtain ⟨t,hn,hy⟩ := h
    have hloop := ih hy (result ++ separator ++ a)
    simp only [List.flatMap_cons, List.append_assoc] at hloop ⊢
    apply hn.bind (fun _ => rfl)
    simpa using hloop

lemma intercalate_cons (a : List α) (l : List (List α)) :
    separator.intercalate (a :: l) = a ++ l.flatMap (separator ++ ·) := by
  induction l generalizing a with
  | nil => simp
  | cons b l ih => simp [List.intercalate_cons_cons, ih]

/-- `join` returns the items with the separator between them. -/
theorem Object.Yields.join {it : Object.{u} (List α)} {l : List (List α)} (h : it.Yields l) :
    Returns (it.join separator) (separator.intercalate l) := by
  cases l with
  | nil =>
    obtain ⟨_,hn,_⟩ := Concrete.Yields.next_none h
    exact hn.bind (fun _ => rfl) (Returns.pure _)
  | cons a l =>
    obtain ⟨t,hn,hy⟩ := h
    rw [intercalate_cons]
    exact hn.bind (fun _ => rfl) (joinLoop_returns hy a)

end Join

end Concrete
end Asp
