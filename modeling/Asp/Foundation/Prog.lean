import Mathlib.Data.Nat.Notation

/-! Programs on a state of type `σ` that return a value or throw, their preconditions, and
counting loops with an invariant. -/
namespace Asp.Foundation

/-- A thrown exception leaves the state as it was at that moment. -/
def Prog (ε σ β : Type) : Type := σ → Except ε β × σ

namespace Prog
variable {ε σ β γ : Type}

def bind (p : Prog ε σ β) (f : β → Prog ε σ γ) : Prog ε σ γ := fun s =>
  match p s with
  | (.ok b, s') => f b s'
  | (.error e, s') => (.error e, s')

instance : Monad (Prog ε σ) where
  pure b := fun s => (.ok b, s)
  bind := bind

def get : Prog ε σ σ := fun s => (.ok s, s)

def modify (f : σ → σ) : Prog ε σ Unit := fun s => (.ok (), f s)

def throw (e : ε) : Prog ε σ β := fun s => (.error e, s)

/-- A conditional statement without an `else`. -/
def when (c : Prop) [Decidable c] (p : Prog ε σ Unit) : Prog ε σ Unit := if c then p else pure ()

/-- Run from `s`, `p` returns with `Q` or throws with `E`. -/
def wp (p : Prog ε σ β) (Q : β → σ → Prop) (E : ε → σ → Prop) (s : σ) : Prop :=
  match p s with
  | (.ok b, s') => Q b s'
  | (.error e, s') => E e s'

/-- The exceptional postcondition of a program that does not throw. -/
def never : ε → σ → Prop := fun _ _ => False

section Rules
variable {Q : β → σ → Prop} {E : ε → σ → Prop} {s : σ}

@[simp] theorem wp_pure (b : β) : wp (pure b) Q E s ↔ Q b s := Iff.rfl

@[simp] theorem wp_get {Q : σ → σ → Prop} : wp get Q E s ↔ Q s s := Iff.rfl

@[simp] theorem wp_modify (f : σ → σ) {Q : Unit → σ → Prop} : wp (modify f) Q E s ↔ Q () (f s) :=
  Iff.rfl

@[simp] theorem wp_throw (e : ε) : wp (throw e) Q E s ↔ E e s := Iff.rfl

@[simp] theorem wp_bind (p : Prog ε σ γ) (f : γ → Prog ε σ β) :
    wp (p >>= f) Q E s ↔ wp p (fun c => wp (f c) Q E) E s := by
  change wp (bind p f) Q E s ↔ _
  unfold wp bind
  rcases p s with ⟨_ | _, s'⟩ <;> exact Iff.rfl

@[simp] theorem wp_ite (c : Prop) [Decidable c] (p q : Prog ε σ β) :
    wp (if c then p else q) Q E s ↔ if c then wp p Q E s else wp q Q E s := by
  by_cases h : c
  · rw [if_pos h, if_pos h]
  · rw [if_neg h, if_neg h]

@[simp] theorem wp_when (c : Prop) [Decidable c] (p : Prog ε σ Unit) {Q : Unit → σ → Prop} :
    wp (when c p) Q E s ↔ if c then wp p Q E s else Q () s := by
  rw [when, wp_ite, wp_pure]

/-- The rule of consequence. -/
theorem wp.mono {p : Prog ε σ β} {Q' : β → σ → Prop} {E' : ε → σ → Prop} (h : wp p Q E s)
    (hQ : ∀ b s', Q b s' → Q' b s') (hE : ∀ e s', E e s' → E' e s') : wp p Q' E' s := by
  unfold wp at h ⊢
  match hp : p s with
  | (.ok b, s') =>
    rw [hp] at h
    exact hQ b s' h
  | (.error e, s') =>
    rw [hp] at h
    exact hE e s' h

/-- A specification of the first part of a program that does not throw. -/
theorem wp.then {p : Prog ε σ β} (h : wp p Q never s) {Q' : β → σ → Prop} {E' : ε → σ → Prop}
    (hQ : ∀ b s', Q b s' → Q' b s') : wp p Q' E' s :=
  h.mono hQ fun _ _ hf => hf.elim

theorem wp.elim {p : Prog ε σ β} (h : wp p Q never s) : ∃ b s', p s = (.ok b, s') ∧ Q b s' := by
  unfold wp at h
  match hp : p s with
  | (.ok b, s') =>
    rw [hp] at h
    exact ⟨b, s', rfl, h⟩
  | (.error e, s') =>
    rw [hp] at h
    exact h.elim

theorem wp.throws {p : Prog ε σ β} (h : wp p (fun _ _ => False) E s) :
    ∃ e s', p s = (.error e, s') ∧ E e s' := by
  unfold wp at h
  match hp : p s with
  | (.ok b, s') =>
    rw [hp] at h
    exact h.elim
  | (.error e, s') =>
    rw [hp] at h
    exact ⟨e, s', rfl, h⟩

/-- What holds however a program ends. -/
theorem wp.state {p : Prog ε σ β} {P : σ → Prop} (h : wp p (fun _ => P) (fun _ => P) s) :
    P (p s).2 := by
  unfold wp at h
  match hp : p s with
  | (.ok _, s') | (.error _, s') =>
    rw [hp] at h
    exact h

end Rules

/-- `for (i = 0; i < n; i++) body(i)`. -/
def forUp (body : ℕ → Prog ε σ Unit) : ℕ → Prog ε σ Unit
  | 0 => pure ()
  | n + 1 => do
    forUp body n
    body n

/-- `for (i = lo; i < hi; i++) body(i)`. -/
def forFrom (body : ℕ → Prog ε σ Unit) (lo hi : ℕ) : Prog ε σ Unit :=
  forUp (fun j => body (lo + j)) (hi - lo)

/-- `for (i = hi - 1; i >= lo; i--) body(i)`. -/
def forDown (body : ℕ → Prog ε σ Unit) (lo : ℕ) : (hi : ℕ) → Prog ε σ Unit
  | 0 => pure ()
  | i + 1 =>
    if lo ≤ i then do
      body i
      forDown body lo i
    else pure ()

/-- The invariant rule: `I i` holds before the iteration for `i`. -/
theorem wp_forUp {body : ℕ → Prog ε σ Unit} {n : ℕ} {I : ℕ → σ → Prop} {E : ε → σ → Prop} {s : σ}
    (hinit : I 0 s) (hbody : ∀ i < n, ∀ t, I i t → wp (body i) (fun _ => I (i + 1)) E t) :
    wp (forUp body n) (fun _ => I n) E s := by
  induction n with
  | zero => exact hinit
  | succ n ih =>
    rw [forUp, wp_bind]
    apply (ih fun i hi => hbody i (Nat.lt_succ_of_lt hi)).mono
    · intro _ t ht
      exact hbody n (Nat.lt_succ_self n) t ht
    · intro e t ht
      exact ht

/-- A loop that does not get beyond the iteration for `k`. -/
theorem wp_forUp_throws {body : ℕ → Prog ε σ Unit} {n k : ℕ} {I : ℕ → σ → Prop} {E : ε → σ → Prop}
    {s : σ} (hk : k < n) (hinit : I 0 s)
    (hbody : ∀ i < k, ∀ t, I i t → wp (body i) (fun _ => I (i + 1)) E t)
    (hthrow : ∀ t, I k t → wp (body k) (fun _ _ => False) E t) :
    wp (forUp body n) (fun _ _ => False) E s := by
  induction n with
  | zero => exact absurd hk (Nat.not_lt_zero k)
  | succ n ih =>
    rw [forUp, wp_bind]
    rcases Nat.lt_succ_iff_lt_or_eq.mp hk with hlt | rfl
    · apply (ih hlt).mono
      · intro _ _ hf
        exact hf.elim
      · intro e t ht
        exact ht
    · apply (wp_forUp hinit hbody).mono
      · intro _ t ht
        exact hthrow t ht
      · intro e t ht
        exact ht

theorem wp_forFrom {body : ℕ → Prog ε σ Unit} {lo hi : ℕ} {I : ℕ → σ → Prop} {E : ε → σ → Prop}
    {s : σ} (hlo : lo ≤ hi) (hinit : I lo s)
    (hbody : ∀ i, lo ≤ i → i < hi → ∀ t, I i t → wp (body i) (fun _ => I (i + 1)) E t) :
    wp (forFrom body lo hi) (fun _ => I hi) E s := by
  have h : wp (forUp (fun j => body (lo + j)) (hi - lo)) (fun _ => I (lo + (hi - lo))) E s :=
    wp_forUp (I := fun j => I (lo + j)) hinit fun j hj t ht =>
      hbody (lo + j) (Nat.le_add_right lo j) (by omega) t ht
  rwa [Nat.add_sub_cancel' hlo] at h

/-- The invariant rule for a loop downwards: `I (i + 1)` holds before the iteration for `i`. -/
theorem wp_forDown {body : ℕ → Prog ε σ Unit} {lo hi : ℕ} {I : ℕ → σ → Prop} {E : ε → σ → Prop}
    {s : σ} (hlo : lo ≤ hi) (hinit : I hi s)
    (hbody : ∀ i, lo ≤ i → i < hi → ∀ t, I (i + 1) t → wp (body i) (fun _ => I i) E t) :
    wp (forDown body lo hi) (fun _ => I lo) E s := by
  induction hi generalizing s with
  | zero =>
    obtain rfl : lo = 0 := Nat.le_zero.mp hlo
    exact hinit
  | succ i ih =>
    rw [forDown, wp_ite]
    split
    · rename_i hle
      rw [wp_bind]
      apply (hbody i hle (Nat.lt_succ_self i) s hinit).mono
      · intro _ t ht
        exact ih hle ht fun j hj hji => hbody j hj (Nat.lt_succ_of_lt hji)
      · intro e t ht
        exact ht
    · rename_i hlt
      obtain rfl : lo = i + 1 := by omega
      exact hinit

end Prog
end Asp.Foundation
