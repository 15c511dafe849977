import Asp.Iter.Concrete
import Asp.Iter.Denotation

/-! The functions of `Iter` that consume an iterator in a loop, over any class: what they return,
what they leave behind, and on which iterators they terminate. -/
namespace Asp.Concrete
open Asp.Foundation
universe u
variable {α β σ ρ : Type}

/-- What the body of a loop does: go on with a new value of the local variable, or return. -/
inductive Turn (σ ρ : Type)
  | goOn (x : σ)
  | stop (r : ρ)

/-- `while (auto item = this->derived().next())`, with a local variable `x`. The result is the
value of `x` after the loop, or what the body returns, beside the iterator that is left. -/
def loop (C : Concrete.{u} α) (body : σ → α → Turn σ ρ) :
    ℕ → σ → C.State → Option (Turn σ ρ × C.State)
  | 0, _, _ => none
  | n+1, x, s => (C.next n s).bind fun (item,s') =>
      match item with
      | none => some (.goOn x,s')
      | some a =>
        match body x a with
        | .goOn x' => loop C body n x' s'
        | .stop r => some (.stop r,s')

section Functions
variable (C : Concrete.{u} α)

def all (f : α → Bool) (n : ℕ) (s : C.State) : Option (Bool × C.State) :=
  (C.loop (fun _ item => if !f item then .stop false else .goOn ()) n () s).map fun (r,s') =>
    match r with
    | .goOn _ => (true,s')
    | .stop r => (r,s')

def any (f : α → Bool) (n : ℕ) (s : C.State) : Option (Bool × C.State) :=
  (C.loop (fun _ item => if f item then .stop true else .goOn ()) n () s).map fun (r,s') =>
    match r with
    | .goOn _ => (false,s')
    | .stop r => (r,s')

def find (f : α → Bool) (n : ℕ) (s : C.State) : Option (Option α × C.State) :=
  (C.loop (fun _ item => if f item then .stop (some item) else .goOn ()) n () s).map fun (r,s') =>
    match r with
    | .goOn _ => (none,s')
    | .stop item => (item,s')

end Functions

section Feeds
variable {C : Concrete.{u} α} {s t : C.State}

/-- The next calls of `next()` return the items of the list and leave `t` behind. -/
def Feeds (C : Concrete.{u} α) : C.State → List α → C.State → Prop
  | s, [], t => s = t
  | s, a :: l, t => ∃ s', C.Next s (some a) s' ∧ C.Feeds s' l t

theorem Yields.feeds {l l' : List α} (h : C.Yields s (l ++ l')) :
    ∃ t, C.Feeds s l t ∧ C.Yields t l' := by
  induction l generalizing s with
  | nil => exact ⟨s,rfl,h⟩
  | cons a l ih =>
    obtain ⟨s',hn,hs⟩ := h
    obtain ⟨t,ht,hy⟩ := ih hs
    exact ⟨t,⟨s',hn,ht⟩,hy⟩

end Feeds

/-- The local variable after items that the body goes on from. -/
inductive GoesOn (body : σ → α → Turn σ ρ) : σ → List α → σ → Prop
  | nil (x : σ) : GoesOn body x [] x
  | cons {x x' y : σ} {a : α} {l : List α} (h : body x a = .goOn x') (hl : GoesOn body x' l y) :
      GoesOn body x (a :: l) y

section Loop
variable {C : Concrete.{u} α} {s t t' : C.State} {body : σ → α → Turn σ ρ} {x y : σ} {l : List α}

theorem loop_none (hs : C.Next s none t) :
    Returns (fun n => C.loop body n x s) (.goOn x,t) :=
  Returns.succ (Returns.bind (f := fun n (item,s') => match item with
    | none => some (.goOn x,s')
    | some a => match body x a with
      | .goOn x' => C.loop body n x' s'
      | .stop r => some (.stop r,s')) hs (Returns.pure _)) fun _ => rfl

theorem loop_some {a : α} {b : Turn σ ρ × C.State} (hs : C.Next s (some a) t)
    (hb : Returns (fun n => match body x a with
      | .goOn x' => C.loop body n x' t
      | .stop r => some (.stop r,t)) b) :
    Returns (fun n => C.loop body n x s) b :=
  Returns.succ (Returns.bind (f := fun n (item,s') => match item with
    | none => some (.goOn x,s')
    | some a => match body x a with
      | .goOn x' => C.loop body n x' s'
      | .stop r => some (.stop r,s')) hs hb) fun _ => rfl

theorem loop_ends (hs : C.Feeds s l t) (hx : GoesOn body x l y) (ht : C.Next t none t') :
    Returns (fun n => C.loop body n x s) (.goOn y,t') := by
  induction hx generalizing s with
  | nil x =>
    cases hs
    exact loop_none ht
  | @cons x x' y a l h hl ih =>
    obtain ⟨s',hn,hs'⟩ := hs
    refine loop_some hn ?_
    simp only [h]
    exact ih hs'

theorem loop_stops {a : α} {r : ρ} (hs : C.Feeds s l t) (hx : GoesOn body x l y)
    (ht : C.Next t (some a) t') (hstop : body y a = .stop r) :
    Returns (fun n => C.loop body n x s) (.stop r,t') := by
  induction hx generalizing s with
  | nil x =>
    cases hs
    refine loop_some ht ?_
    simp only [hstop]
    exact Returns.pure _
  | @cons x x' y b l h hl ih =>
    obtain ⟨s',hn,hs'⟩ := hs
    refine loop_some hn ?_
    simp only [h]
    exact ih hs' hstop

end Loop

/-- What the three searches for an item with f make of the iterator s: the first such item, if
there is one, and the iterator behind it. -/
structure Searches (C : Concrete.{u} α) (f : α → Bool) (s : C.State) (hit : Option α) (t : C.State) :
    Prop where
  find : Returns (fun n => C.find f n s) (hit,t)
  any : Returns (fun n => C.any f n s) (hit.isSome,t)
  all : Returns (fun n => C.all (fun a => !f a) n s) (!hit.isSome,t)

section Searches
variable {C : Concrete.{u} α} {s t t' : C.State} {f : α → Bool} {l : List α}

/-- A body that goes on from all items without f. -/
theorem goesOn_of_forall (body : Unit → α → Turn Unit ρ)
    (hbody : ∀ a, f a = false → body () a = .goOn ())
    (hl : ∀ a ∈ l, f a = false) : GoesOn body () l () := by
  induction l with
  | nil => exact .nil ()
  | cons a l ih =>
    exact .cons (hbody a (hl a List.mem_cons_self)) (ih fun b hb => hl b (List.mem_cons_of_mem a hb))

/-- Only the items up to the first one with f are asked for, whatever comes after them. -/
theorem searches_hit {a : α} (hs : C.Feeds s l t) (hl : ∀ x ∈ l, f x = false)
    (ht : C.Next t (some a) t') (ha : f a = true) : C.Searches f s (some a) t' where
  find := by
    have hgo := goesOn_of_forall (fun _ item => if f item then .stop (some item) else .goOn ())
      (fun x hx => by rw [hx]; rfl) hl
    exact Returns.map _ (loop_stops hs hgo ht (if_pos ha))
  any := by
    have hgo := goesOn_of_forall (fun _ item => if f item then .stop true else .goOn ())
      (fun x hx => by rw [hx]; rfl) hl
    exact Returns.map _ (loop_stops hs hgo ht (if_pos ha))
  all := by
    have hgo := goesOn_of_forall
      (fun _ item => if !!f item then .stop false else .goOn ())
      (fun x hx => by rw [hx]; rfl) hl
    exact Returns.map _ (loop_stops hs hgo ht (if_pos (by rw [ha]; rfl)))

theorem searches_miss (hs : C.Feeds s l t) (hl : ∀ x ∈ l, f x = false) (ht : C.Next t none t') :
    C.Searches f s none t' where
  find := by
    have hgo := goesOn_of_forall (fun _ item => if f item then .stop (some item) else .goOn ())
      (fun x hx => by rw [hx]; rfl) hl
    exact Returns.map _ (loop_ends hs hgo ht)
  any := by
    have hgo := goesOn_of_forall (fun _ item => if f item then .stop true else .goOn ())
      (fun x hx => by rw [hx]; rfl) hl
    exact Returns.map _ (loop_ends hs hgo ht)
  all := by
    have hgo := goesOn_of_forall
      (fun _ item => if !!f item then .stop false else .goOn ())
      (fun x hx => by rw [hx]; rfl) hl
    exact Returns.map _ (loop_ends hs hgo ht)

/-- The items before the first one with f, and those from there on. -/
theorem cut_first (f : α → Bool) (l : List α) :
    (∀ x ∈ l, f x = false) ∧ l.find? f = none ∧ (l.dropWhile fun a => !f a) = [] ∨
      ∃ before a rest, l = before ++ a :: rest ∧ (∀ x ∈ before, f x = false) ∧ f a = true ∧
        l.find? f = some a ∧ (l.dropWhile fun a => !f a) = a :: rest := by
  induction l with
  | nil => exact .inl ⟨fun _ hx => absurd hx List.not_mem_nil,rfl,rfl⟩
  | cons b l ih =>
    cases hb : f b with
    | true =>
      refine .inr ⟨[],b,l,rfl,fun _ hx => absurd hx List.not_mem_nil,hb,List.find?_cons_of_pos hb,?_⟩
      exact List.dropWhile_cons_of_neg (by simp [hb])
    | false =>
      have hfind : (b :: l).find? f = l.find? f := List.find?_cons_of_neg (by simp [hb])
      have hdrop : ((b :: l).dropWhile fun a => !f a) = l.dropWhile fun a => !f a :=
        List.dropWhile_cons_of_pos (by simp [hb])
      rw [hfind, hdrop]
      obtain ⟨hnone,hrest⟩ | ⟨before,a,rest,rfl,hbefore,ha,hrest⟩ := ih
      · exact .inl ⟨List.forall_mem_cons.mpr ⟨hb,hnone⟩,hrest⟩
      · exact .inr ⟨b :: before,a,rest,rfl,List.forall_mem_cons.mpr ⟨hb,hbefore⟩,ha,hrest⟩

/-- A search of a finite iterator finds what a search of its items finds, and leaves the items
behind that. -/
theorem searches_yields (h : C.Yields s l) (f : α → Bool) :
    ∃ t, C.Searches f s (l.find? f) t ∧ C.Yields t (l.dropWhile fun a => !f a).tail := by
  obtain ⟨hnone,hfind,hdrop⟩ | ⟨before,a,rest,hl,hbefore,ha,hfind,hdrop⟩ := cut_first f l
  · rw [← List.append_nil l] at h
    obtain ⟨t,ht,hend⟩ := h.feeds
    obtain ⟨t',hn,ht'⟩ := hend.next_none
    rw [hfind, hdrop]
    exact ⟨t',searches_miss ht hnone hn,ht'⟩
  · rw [hl] at h
    obtain ⟨t,ht,t',hn,ht'⟩ := h.feeds
    rw [hfind, hdrop]
    exact ⟨t',searches_hit ht hbefore hn ha,ht'⟩

/-- The class whose `next()` is `find(f)`. -/
def finding (C : Concrete.{u} α) (f : α → Bool) : Concrete.{u} α := ⟨C.State,C.find f⟩

/-- Calling `find(f)` again and again enumerates the items with f. -/
theorem find_filters (h : C.Yields s l) (f : α → Bool) : (C.finding f).Yields s (l.filter f) := by
  induction hlen : l.length using Nat.strongRecOn generalizing s l with
  | ind k ih =>
    obtain ⟨t,hsearch,ht⟩ := searches_yields h f
    obtain ⟨hnone,hfind,hdrop⟩ | ⟨before,a,rest,rfl,hbefore,ha,hfind,hdrop⟩ := cut_first f l
    · have hfilter : l.filter f = [] := List.filter_eq_nil_iff.mpr fun a ha => by simp [hnone a ha]
      rw [hfilter]
      refine yields_nil_of_inv (C := C.finding f)
        (fun s => ∃ l, C.Yields s l ∧ ∀ x ∈ l, f x = false) ?_ ⟨l,h,hnone⟩
      rintro s ⟨l,h,hnone⟩
      obtain ⟨t,hsearch,ht⟩ := searches_yields h f
      have hfind : l.find? f = none := List.find?_eq_none.mpr fun x hx => by simp [hnone x hx]
      rw [hfind] at hsearch
      refine ⟨t,hsearch.find,_,ht,fun x hx => hnone x ?_⟩
      exact (List.dropWhile_sublist _).mem (List.mem_of_mem_tail hx)
    · have hfilter : (before ++ a :: rest).filter f = a :: rest.filter f := by
        rw [List.filter_append, List.filter_cons_of_pos ha,
          List.filter_eq_nil_iff.mpr fun x hx => by simp [hbefore x hx], List.nil_append]
      rw [hfind] at hsearch
      rw [hdrop] at ht
      rw [hfilter]
      refine ⟨t,hsearch.find,ih rest.length ?_ ht rfl⟩
      rw [← hlen, List.length_append, List.length_cons]
      omega

end Searches

/-- An iterator of the adapters that serves a list on any number of calls. -/
theorem yields_of_serves {it : Iter α} {l : List α} (h : ∀ m, Iter.Serves m it l) :
    (iter α).Yields it l := by
  have hrest : ∀ {it it' : Iter α} {l : List α}, (∀ m, Iter.Serves m it l) →
      Iter.Next it l.head? it' → ∀ m, Iter.Serves m it' l.tail := by
    intro it it' l h hn m
    obtain ⟨jt,hn',hs⟩ := h (m + 1)
    rwa [← (hn'.unique hn).2]
  induction l generalizing it with
  | nil =>
    refine yields_nil_of_inv (C := iter α) (fun it => ∀ m, Iter.Serves m it []) ?_ h
    intro it h
    obtain ⟨it',hn,-⟩ := h 1
    exact ⟨it',hn,hrest h hn⟩
  | cons a l ih =>
    obtain ⟨it',hn,-⟩ := h 1
    exact ⟨it',hn,ih (hrest h hn)⟩

/-- The words of a pipeline: the numbers up to 5 that are odd, then 6. -/
def oddsThenSix : Iter ℕ := .chain (.filter (· % 2 == 1) (.cxxIter [1,2,3,4,5])) (.cxxIter [6])

theorem yields_oddsThenSix : (iter ℕ).Yields oddsThenSix [1,3,5,6] := by
  have hcycles : Iter.CyclesUnderTake false oddsThenSix := ⟨trivial,trivial⟩
  have hcover : ∀ m, (Iter.polls 0 0 oddsThenSix).covers m := fun m =>
    Iter.covers_of_cyclesUnderTake 0 hcycles nofun
  have hlist : Iter.listOf 0 0 oddsThenSix = [1,3,5,6] := by decide
  exact yields_of_serves fun m => hlist ▸ Iter.serves_listOf 0 0 oddsThenSix m (hcover m)

theorem searches_yields_oddsThenSix :
    ∃ t, (iter ℕ).Searches (3 ≤ ·) oddsThenSix (some 3) t ∧ (iter ℕ).Yields t [5,6] :=
  searches_yields yields_oddsThenSix (3 ≤ ·)

theorem find_filters_oddsThenSix :
    ((iter ℕ).finding (· != 3)).Yields oddsThenSix [1,5,6] :=
  find_filters yields_oddsThenSix (· != 3)

/-- Items that an iterator of the adapters serves. -/
theorem feeds_of_serves {m : ℕ} {it : Iter α} {l : List α} (h : Iter.Serves (m + 1) it l)
    (hm : m < l.length) :
    ∃ t t', (iter α).Feeds it (l.take m) t ∧ (iter α).Next t (some l[m]) t' := by
  induction m generalizing it l with
  | zero =>
    obtain ⟨it',hn,-⟩ := h
    cases l with
    | nil => cases hm
    | cons a l => exact ⟨it,it',rfl,hn⟩
  | succ m ih =>
    obtain ⟨it',hn,hs⟩ := h
    cases l with
    | nil => cases hm
    | cons a l =>
      obtain ⟨t,t',ht,hn'⟩ := ih hs (Nat.lt_of_succ_lt_succ hm)
      exact ⟨t,t',⟨it',hn,ht⟩,hn'⟩

/-- A search of a pipeline terminates at the first item with f of the list that the pipeline
denotes, as soon as the denotation covers that item: a cycle need not be under a take. It leaves
the iterator that the calls of `next()` up to that item leave. -/
theorem pipeline_searches (K d : ℕ) (it : Iter α) (f : α → Bool) (i : ℕ)
    (hcover : (Iter.polls K d it).covers (i + 1)) (hi : i < (Iter.listOf K d it).length)
    (hfirst : ∀ x ∈ (Iter.listOf K d it).take i, f x = false)
    (hhit : f (Iter.listOf K d it)[i] = true) :
    ∃ t t', (iter α).Feeds it ((Iter.listOf K d it).take i) t ∧
      (iter α).Next t (some (Iter.listOf K d it)[i]) t' ∧
      (iter α).Searches f it (some (Iter.listOf K d it)[i]) t' := by
  obtain ⟨t,t',ht,hn⟩ := feeds_of_serves (Iter.serves_listOf K d it (i + 1) hcover) hi
  exact ⟨t,t',ht,hn,searches_hit ht hfirst hn hhit⟩

/-- A number above 4 in the list 3, 4, 5 over and over. -/
theorem pipeline_searches_cycle :
    ∃ t t', (iter ℕ).Feeds (Iter.cycled (.cxxIter [3,4,5])) [3,4] t ∧
      (iter ℕ).Next t (some 5) t' ∧
      (iter ℕ).Searches (4 < ·) (Iter.cycled (.cxxIter [3,4,5])) (some 5) t' := by
  have hlist : Iter.listOf 0 3 (Iter.cycled (.cxxIter [3,4,5])) = [3,4,5,3,4,5,3,4,5,3,4,5] := by
    decide
  have hcover : (Iter.polls 0 3 (Iter.cycled (.cxxIter [3,4,5]))).covers 3 := by decide
  have h := pipeline_searches 0 3 (Iter.cycled (.cxxIter [3,4,5])) (4 < ·) 2 hcover
  simp only [hlist] at h
  exact h (by decide) (by decide) rfl

end Asp.Concrete
