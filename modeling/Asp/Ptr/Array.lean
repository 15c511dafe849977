import Asp.Foundation.Prog
import Mathlib.Algebra.Group.Nat.Defs
import Mathlib.Data.Nat.Find
import Mathlib.Data.Nat.Notation
import Mathlib.Logic.Function.Basic
import Mathlib.Tactic.SplitIfs

/-! `SharedPtrBlock<T[]>`: the memory of a block with a number of elements that is not known in
advance, and the life of its elements, whose constructors may throw. -/
namespace Asp.Ptr.Array
open Foundation

/-- `sizeof(SharedPtrBlock<T[]>)`, which is also the offset of `data`, and `sizeof(T)`. -/
structure Layout where
  block : UInt64
  element : UInt64
  pos : 0 < element.toNat

inductive Err
  | badAlloc
  | constructor

structure World where
  bytes : ℕ                             -- of the memory of the block
  allocs : ℕ
  frees : ℕ
  live : ℕ → Bool
  outside : Bool                        -- something was stored outside of the memory
  misused : Bool                        -- a constructor ran on an element, or a destructor on none

def World.fresh : World := ⟨0,0,0,fun _ => false,false,false⟩

variable (l : Layout) (available : UInt64 → Bool) (throws : ℕ → Bool) (size : UInt64)

/-- `sizeof(SharedPtrBlock) + sizeof(T) * size` -/
def bytes : UInt64 := l.block + l.element * size

def allocate (n : UInt64) : Prog Err World Unit :=
  if available n then Prog.modify fun w => { w with bytes := n.toNat, allocs := w.allocs + 1 }
  else Prog.throw .badAlloc

def deallocate : Prog Err World Unit := Prog.modify fun w => { w with frees := w.frees + 1 }

/-- Something is stored in front of the end, counted from the beginning of the block. -/
def store (stop : ℕ) : Prog Err World Unit :=
  Prog.modify fun w => { w with outside := w.outside || decide (w.bytes < stop) }

/-- `new (&mem->data[i]) T()` -/
def construct (i : ℕ) : Prog Err World Unit := do
  store (l.block.toNat + l.element.toNat * (i + 1))
  Prog.when (throws i = true) (Prog.throw .constructor)
  Prog.modify fun w => { w with
    live := Function.update w.live i true, misused := w.misused || w.live i }

def destroy (i : ℕ) : Prog Err World Unit := Prog.modify fun w => { w with
  live := Function.update w.live i false, misused := w.misused || !w.live i }

/-- The destructor of a local variable that runs `q` in front of an exception. -/
def unwinding (p q : Prog Err World Unit) : Prog Err World Unit := fun w =>
  match p w with
  | (.ok (),w) => (.ok (),w)
  | (.error e,w) => (q >>= fun _ => Prog.throw e) w

/-- `SharedPtrBlock<T[]>::create`; the counters, the destructor and the size are stored first. -/
def create : Prog Err World Unit := do
  allocate available (bytes l size)
  unwinding (do
    store l.block.toNat
    Prog.forUp (construct l throws) size.toNat) deallocate

/-- `dtor` -/
def dtor : Prog Err World Unit := Prog.forUp destroy size.toNat

/-- The life of a block, from `make_shared` to its last reference. -/
def life : Prog Err World Unit := do
  create l available throws size
  dtor size
  deallocate

section Rules
variable {l available throws size} {w : World}

lemma wp_unwinding {p q : Prog Err World Unit} {Q : Unit → World → Prop} {E : Err → World → Prop}
    (h : Prog.wp p Q (fun e => Prog.wp (q >>= fun _ => Prog.throw e) Q E) w) :
    Prog.wp (unwinding p q) Q E w := by
  unfold Prog.wp at h ⊢
  rcases hp : p w with ⟨e | ⟨⟩,w'⟩
  · rw [hp] at h
    simp only [unwinding, hp]
    exact h
  · rw [hp] at h
    simp only [unwinding, hp]
    exact h

/-- The first `i` elements are there. -/
structure Filled (l : Layout) (n i : ℕ) (w : World) : Prop where
  bytes : w.bytes = n
  allocs : w.allocs = 1
  frees : w.frees = 0
  live : ∀ j, w.live j = decide (j < i)
  outside : w.outside = decide (n < l.block.toNat + l.element.toNat * i)
  misused : w.misused = false

lemma outside_or {n i : ℕ} : (decide (n < l.block.toNat + l.element.toNat * i) ||
    decide (n < l.block.toNat + l.element.toNat * (i + 1))) =
      decide (n < l.block.toNat + l.element.toNat * (i + 1)) := by
  rw [← Bool.decide_or]
  have hmul : l.element.toNat * (i + 1) = l.element.toNat * i + l.element.toNat := Nat.mul_succ ..
  congr 1
  rw [eq_iff_iff]
  omega

lemma wp_construct {n i : ℕ} (h : Filled l n i w) (hi : throws i = false) :
    Prog.wp (construct l throws i) (fun _ => Filled l n (i + 1)) Prog.never w := by
  simp only [construct, store, Prog.wp_bind, Prog.wp_modify, Prog.wp_when, hi, Bool.false_eq_true,
    if_false]
  refine ⟨h.bytes,h.allocs,h.frees,fun j => ?_,?_,?_⟩
  · change Function.update w.live i true j = _
    by_cases hj : j = i
    · subst hj
      simp
    · rw [Function.update_of_ne hj, h.live j]
      have hiff : j < i + 1 ↔ j < i := by omega
      simp only [hiff]
  · change (w.outside || decide (w.bytes < _)) = _
    rw [h.outside, h.bytes, outside_or]
  · change (w.misused || w.live i) = false
    rw [h.misused, h.live i]
    simp

lemma wp_construct_throws {n i : ℕ} (h : Filled l n i w) (hi : throws i = true) :
    Prog.wp (construct l throws i) (fun _ _ => False) (fun _ w' =>
      w' = { w with outside := decide (n < l.block.toNat + l.element.toNat * (i + 1)) }) w := by
  simp only [construct, store, Prog.wp_bind, Prog.wp_modify, Prog.wp_when, hi, if_true,
    Prog.wp_throw]
  rw [h.outside, h.bytes, outside_or]

/-- No constructor throws, or one does first. -/
lemma first_throws (throws : ℕ → Bool) (n : ℕ) : (∀ i < n, throws i = false) ∨
    ∃ k < n, throws k = true ∧ ∀ i < k, throws i = false := by
  by_cases h : ∃ k, k < n ∧ throws k = true
  · obtain ⟨hk,hthrows⟩ := Nat.find_spec h
    refine .inr ⟨Nat.find h,hk,hthrows,fun i hi => ?_⟩
    have hmin := Nat.find_min h hi
    rw [Bool.eq_false_iff]
    exact fun ht => hmin ⟨Nat.lt_trans hi hk,ht⟩
  · refine .inl fun i hi => ?_
    rw [Bool.eq_false_iff]
    exact fun ht => h ⟨i,hi,ht⟩

/-- What `create` leaves behind when the constructor of element `k` throws: the memory is freed, but
the elements before are not destroyed. -/
structure Abandoned (l : Layout) (n k : ℕ) (w : World) : Prop where
  allocs : w.allocs = 1
  frees : w.frees = 1
  live : ∀ j, w.live j = decide (j < k)
  outside : w.outside = decide (n < l.block.toNat + l.element.toNat * (k + 1))
  misused : w.misused = false

lemma filled_zero : Filled l (bytes l size).toNat 0 { World.fresh with
    bytes := (bytes l size).toNat, allocs := 1
    outside := decide ((bytes l size).toNat < l.block.toNat) } :=
  ⟨rfl,rfl,rfl,fun _ => rfl,by rw [Nat.mul_zero, Nat.add_zero],rfl⟩

section Create
variable (hav : available (bytes l size) = true)
include hav

lemma wp_create (h : ∀ i < size.toNat, throws i = false) :
    Prog.wp (create l available throws size) (fun _ => Filled l (bytes l size).toNat size.toNat)
      Prog.never World.fresh := by
  rw [create, Prog.wp_bind, allocate, Prog.wp_ite, if_pos hav, Prog.wp_modify]
  apply wp_unwinding
  rw [store, Prog.wp_bind, Prog.wp_modify]
  exact (Prog.wp_forUp filled_zero fun i hi _ ht => wp_construct ht (h i hi)).then
    fun _ _ ht => ht

lemma wp_create_throws {k : ℕ} (hk : k < size.toNat) (hthrows : throws k = true)
    (h : ∀ i < k, throws i = false) :
    Prog.wp (create l available throws size) (fun _ _ => False)
      (fun _ => Abandoned l (bytes l size).toNat k) World.fresh := by
  rw [create, Prog.wp_bind, allocate, Prog.wp_ite, if_pos hav, Prog.wp_modify]
  apply wp_unwinding
  rw [store, Prog.wp_bind, Prog.wp_modify]
  refine Prog.wp_forUp_throws hk filled_zero
    (fun i hi _ ht => (wp_construct ht (h i hi)).then fun _ _ ht => ht) fun t ht => ?_
  refine (wp_construct_throws ht hthrows).mono (fun _ _ hf => hf) ?_
  rintro e _ rfl
  exact ⟨ht.allocs,congrArg (· + 1) ht.frees,ht.live,rfl,ht.misused⟩

end Create

/-- `create` stays in the memory as far as it comes, unless the size wraps. -/
lemma outside_iff {n k : ℕ} (hk : k ≤ size.toNat) (hn : n = (bytes l size).toNat)
    (hw : w.outside = decide (n < l.block.toNat + l.element.toNat * k))
    (hfits : l.block.toNat + l.element.toNat * size.toNat < 2^64) : w.outside = false := by
  have hmul : l.element.toNat * k ≤ l.element.toNat * size.toNat := Nat.mul_le_mul_left _ hk
  have hbytes : (bytes l size).toNat = l.block.toNat + l.element.toNat * size.toNat := by
    rw [bytes, UInt64.toNat_add, UInt64.toNat_mul, Nat.add_mod_mod, Nat.mod_eq_of_lt hfits]
  rw [hw, hn, hbytes, decide_eq_false_iff_not]
  omega

/-- The elements that the destructor has still to destroy are there. -/
structure Emptying (n i : ℕ) (w : World) : Prop where
  allocs : w.allocs = 1
  frees : w.frees = 0
  live : ∀ j, w.live j = decide (i ≤ j ∧ j < n)
  misused : w.misused = false

lemma wp_dtor {n : ℕ} (h : Filled l n size.toNat w) :
    Prog.wp (dtor size) (fun _ => Emptying size.toNat size.toNat) Prog.never w := by
  refine Prog.wp_forUp ⟨h.allocs,h.frees,fun j => ?_,h.misused⟩ fun i hi t ht => ?_
  · rw [h.live j]
    simp
  · rw [destroy, Prog.wp_modify]
    refine ⟨ht.allocs,ht.frees,fun j => ?_,?_⟩
    · change Function.update t.live i false j = _
      by_cases hj : j = i
      · subst hj
        rw [Function.update_self]
        exact (decide_eq_false (by omega)).symm
      · rw [Function.update_of_ne hj, ht.live j]
        have hiff : i + 1 ≤ j ↔ i ≤ j := by omega
        simp only [hiff]
    · change (t.misused || !t.live i) = false
      rw [ht.misused, ht.live i]
      simp [hi]

lemma wp_life (hav : available (bytes l size) = true) (h : ∀ i < size.toNat, throws i = false) :
    Prog.wp (life l available throws size) (fun _ w' => w'.allocs = 1 ∧ w'.frees = 1 ∧
      (∀ i, w'.live i = false) ∧ w'.misused = false) Prog.never World.fresh := by
  rw [life, Prog.wp_bind]
  apply (wp_create hav h).then
  intro _ w₁ h₁
  rw [Prog.wp_bind]
  apply (wp_dtor h₁).then
  intro _ w₂ h₂
  rw [deallocate, Prog.wp_modify]
  refine ⟨h₂.allocs,congrArg (· + 1) h₂.frees,fun i => ?_,h₂.misused⟩
  change w₂.live i = false
  rw [h₂.live i]
  simp

lemma wp_life_throws {k : ℕ} (hav : available (bytes l size) = true) (hk : k < size.toNat)
    (hthrows : throws k = true) (h : ∀ i < k, throws i = false) :
    Prog.wp (life l available throws size) (fun _ _ => False)
      (fun _ => Abandoned l (bytes l size).toNat k) World.fresh := by
  rw [life, Prog.wp_bind]
  exact (wp_create_throws hav hk hthrows h).mono (fun _ _ hf => hf.elim) fun _ _ hw => hw

lemma life_unavailable (hav : available (bytes l size) = false) :
    life l available throws size World.fresh = (.error .badAlloc,World.fresh) := by
  have hcreate : Prog.wp (life l available throws size) (fun _ _ => False)
      (fun e w' => e = .badAlloc ∧ w' = World.fresh) World.fresh := by
    rw [life, create, Prog.wp_bind, Prog.wp_bind, allocate, Prog.wp_ite, hav]
    exact ⟨rfl,rfl⟩
  obtain ⟨_,_,hrun,rfl,rfl⟩ := Prog.wp.throws hcreate
  exact hrun

end Rules

/-- Whatever the constructors do, the memory of a block is given back, and every element that was
constructed is destroyed once, just if the first constructor to throw is that of the first element. -/
theorem life_clean_iff (l : Layout) (available : UInt64 → Bool) (throws : ℕ → Bool) (size : UInt64) :
    (life l available throws size World.fresh).2.frees =
        (life l available throws size World.fresh).2.allocs ∧
      (life l available throws size World.fresh).2.misused = false ∧
      ((∀ i, (life l available throws size World.fresh).2.live i = false) ↔
        (available (bytes l size) = true → ∀ i < size.toNat, throws i = true → throws 0 = true)) := by
  cases hav : available (bytes l size) with
  | false =>
    rw [life_unavailable hav]
    exact ⟨rfl,rfl,iff_of_true (fun _ => rfl) nofun⟩
  | true =>
    obtain h | ⟨k,hk,hthrows,h⟩ := first_throws throws size.toNat
    · obtain ⟨_,w',hrun,halloc,hfrees,hlive,hmisused⟩ := (wp_life hav h).elim
      rw [hrun]
      refine ⟨hfrees.trans halloc.symm,hmisused,iff_of_true hlive fun _ i hi hthrows => ?_⟩
      exact absurd (h i hi) (by simp [hthrows])
    · obtain ⟨_,w',hrun,hw⟩ := (wp_life_throws hav hk hthrows h).throws
      rw [hrun]
      refine ⟨hw.frees.trans hw.allocs.symm,hw.misused,?_⟩
      constructor
      · intro hclean _ i _ _
        have h0 := (hw.live 0).symm.trans (hclean 0)
        have hk0 : k = 0 := Nat.eq_zero_of_not_pos (of_decide_eq_false h0)
        exact hk0 ▸ hthrows
      · intro hfirst i
        have hk0 : k = 0 := by
          by_contra hne
          have hthrows0 := hfirst rfl k hk hthrows
          rw [h 0 (Nat.pos_of_ne_zero hne)] at hthrows0
          cases hthrows0
        rw [hw.live i, hk0]
        rfl

/-- Nothing is ever stored outside of the memory of a block just if its size does not wrap. -/
theorem create_inside_iff (l : Layout) (available : UInt64 → Bool) (size : UInt64)
    (hav : available (bytes l size) = true) :
    (∀ throws, (create l available throws size World.fresh).2.outside = false) ↔
      l.block.toNat + l.element.toNat * size.toNat < 2^64 := by
  constructor
  · intro h
    have hfilled : Prog.wp (create l available (fun _ => false) size)
        (fun _ => Filled l (bytes l size).toNat size.toNat) Prog.never World.fresh :=
      wp_create hav fun _ _ => rfl
    obtain ⟨_,w',hrun,hw⟩ := hfilled.elim
    have hout := h fun _ => false
    rw [hrun, hw.outside, decide_eq_false_iff_not] at hout
    exact Nat.lt_of_le_of_lt (Nat.le_of_not_lt hout) (UInt64.toNat_lt _)
  · intro hfits throws
    obtain h | ⟨k,hk,hthrows,h⟩ := first_throws throws size.toNat
    · obtain ⟨_,w',hrun,hw⟩ := (wp_create hav h).elim
      rw [hrun]
      exact outside_iff (Nat.le_refl _) rfl hw.outside hfits
    · obtain ⟨_,w',hrun,hw⟩ := (wp_create_throws hav hk hthrows h).throws
      rw [hrun]
      exact outside_iff (k := k + 1) hk rfl hw.outside hfits

/-- Elements of 16 bytes behind 32 bytes, `2^60` of them. -/
theorem create_inside_iff_wraps : ¬∀ throws,
    (create ⟨32,16,by decide⟩ (fun _ => true) throws 1152921504606846976
      World.fresh).2.outside = false := fun h =>
  absurd ((create_inside_iff ⟨32,16,by decide⟩ (fun _ => true) 1152921504606846976 rfl).mp h)
    (by decide)

end Asp.Ptr.Array
