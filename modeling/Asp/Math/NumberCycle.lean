import Asp.Foundation.Cycle
import Asp.Foundation.IntType
import Asp.Foundation.Machine
import Mathlib.Algebra.BigOperators.Group.List.Basic

/-! `asp::NumberCycle`: a number that goes around between two bounds. An overflow of `int` is
undefined. -/
namespace Asp
open Foundation Foundation.IntType

structure NumberCycle where
  from_ : int.Value
  to_ : int.Value
  current : int.Value
  deriving DecidableEq

namespace NumberCycle

/-- `NumberCycle(from, to)` -/
def ofBounds (from_ to_ : int.Value) : NumberCycle := ⟨from_,to_,from_⟩

def set (s : NumberCycle) (val : int.Value) : NumberCycle :=
  { s with current :=
      if val.val > s.to_.val then s.to_ else if val.val < s.from_.val then s.from_ else val }

def increment (s : NumberCycle) : Option NumberCycle :=
  (int.assigned (s.current.val + 1)).map fun current =>
    { s with current := if current.val > s.to_.val then s.from_ else current }

def decrement (s : NumberCycle) : Option NumberCycle :=
  (int.assigned (s.current.val - 1)).map fun current =>
    { s with current := if current.val < s.from_.val then s.to_ else current }

/-- `operator+(int)`, whose argument has no name -/
def plus (s : NumberCycle) (_ : int.Value) : Option NumberCycle :=
  (int.assigned (s.current.val + 1)).map fun n =>
    ⟨s.from_,s.to_,if n.val > s.to_.val then s.from_ else n⟩

/-- `operator-(int)` -/
def minus (s : NumberCycle) (_ : int.Value) : Option NumberCycle :=
  (int.assigned (s.current.val - 1)).map fun n =>
    ⟨s.from_,s.to_,if n.val < s.from_.val then s.to_ else n⟩

/-- The operations that change a cycle. Both forms of `++` and `--` are the first two. -/
inductive Op
  | increment
  | decrement
  | set (val : int.Value)
  deriving DecidableEq

def step (s : NumberCycle) : Op → Option NumberCycle
  | .increment => s.increment
  | .decrement => s.decrement
  | .set val => some (s.set val)

def machine : Machine NumberCycle Op := ⟨step⟩

/-- The value lies between the bounds. -/
structure Inside (s : NumberCycle) : Prop where
  from_le : s.from_.val ≤ s.current.val
  le_to : s.current.val ≤ s.to_.val

/-- The cycle `x` steps after its beginning. -/
structure At (s : NumberCycle) (x : ℤ) (t : NumberCycle) : Prop where
  from_ : t.from_ = s.from_
  to_ : t.to_ = s.to_
  current : t.current.val = place s.from_.val s.to_.val x

/-- The stepping itself does not overflow. -/
def Clear (s : NumberCycle) : Op → Prop
  | .increment => s.current.val < int.max
  | .decrement => int.min < s.current.val
  | .set _ => True

/-- How far an operation moves. -/
def Op.moves : Op → ℤ
  | .increment => 1
  | .decrement => -1
  | .set _ => 0

section Steps
variable {s t u : NumberCycle} {x y : ℤ}

lemma At.unique (h : s.At x t) (h' : s.At x u) : t = u := by
  obtain ⟨hf,ht,hc⟩ := h
  obtain ⟨hf',ht',hc'⟩ := h'
  have hcur : t.current = u.current := Value.ext (hc.trans hc'.symm)
  cases t
  cases u
  simp_all

lemma Inside.at_self (hs : s.Inside) : s.At (s.current.val - s.from_.val) s :=
  ⟨rfl,rfl,(place_self hs.from_le hs.le_to).symm⟩

lemma At.trans (h : s.At x t) (h' : t.At (t.current.val - t.from_.val + y) u) : s.At (x + y) u where
  from_ := h'.from_.trans h.from_
  to_ := h'.to_.trans h.to_
  current := by
    rw [h'.current, h.from_, h.to_, h.current, place_place]

lemma At.inside (h : s.At x t) (hle : s.from_.val ≤ s.to_.val) : t.Inside := by
  obtain ⟨hfrom,hto⟩ := place_mem hle x
  constructor
  · rwa [h.from_, h.current]
  · rwa [h.to_, h.current]

lemma Inside.bounds (hs : s.Inside) : s.from_.val ≤ s.to_.val := hs.from_le.trans hs.le_to

lemma increment_eq_none (h : ¬s.current.val < int.max) : s.increment = none := by
  have hmin := s.current.inRange.1
  rw [increment, assigned_of_not_inRange rfl, Option.map_none]
  rintro ⟨_,hmax⟩
  exact h (by change s.current.val + 1 ≤ int.max at hmax; omega)

lemma decrement_eq_none (h : ¬int.min < s.current.val) : s.decrement = none := by
  rw [decrement, assigned_of_not_inRange rfl, Option.map_none]
  rintro ⟨hmin,_⟩
  exact h (by change int.min ≤ s.current.val - 1 at hmin; omega)

/-- Without an overflow the value goes one place on. -/
lemma increment_spec (hs : s.Inside) (h : s.current.val < int.max) :
    ∃ t, s.increment = some t ∧ s.At (s.current.val - s.from_.val + 1) t := by
  have hmin := s.current.inRange.1
  have hr : int.InRange (s.current.val + 1) := ⟨by omega,by omega⟩
  rw [increment, assigned_of_inRange hr]
  refine ⟨_,rfl,rfl,rfl,?_⟩
  rw [place_succ hs.from_le hs.le_to]
  dsimp only
  split_ifs <;> rfl

lemma decrement_spec (hs : s.Inside) (h : int.min < s.current.val) :
    ∃ t, s.decrement = some t ∧ s.At (s.current.val - s.from_.val + -1) t := by
  have hmax := s.current.inRange.2
  have hr : int.InRange (s.current.val - 1) := ⟨by omega,by omega⟩
  rw [decrement, assigned_of_inRange hr]
  refine ⟨_,rfl,rfl,rfl,?_⟩
  rw [← sub_eq_add_neg, place_pred hs.from_le hs.le_to]
  dsimp only
  split_ifs <;> rfl

/-- `set` clamps. -/
lemma set_inside (hle : s.from_.val ≤ s.to_.val) (val : int.Value) : (s.set val).Inside := by
  rw [set]
  split_ifs with h1 h2
  · exact ⟨hle,le_rfl⟩
  · exact ⟨le_rfl,hle⟩
  · exact ⟨not_lt.mp h2,not_lt.mp h1⟩

/-- A step that does not overflow. -/
lemma step_of_clear (hs : s.Inside) {a : Op} (h : s.Clear a) : ∃ t, s.step a = some t := by
  cases a with
  | increment =>
    obtain ⟨t,hstep,_⟩ := increment_spec hs h
    exact ⟨t,hstep⟩
  | decrement =>
    obtain ⟨t,hstep,_⟩ := decrement_spec hs h
    exact ⟨t,hstep⟩
  | set val => exact ⟨s.set val,rfl⟩

lemma clear_of_step {a : Op} (h : s.step a = some t) : s.Clear a := by
  cases a with
  | increment =>
    by_contra hmax
    rw [step, increment_eq_none hmax] at h
    cases h
  | decrement =>
    by_contra hmin
    rw [step, decrement_eq_none hmin] at h
    cases h
  | set val => trivial

/-- A step other than `set` moves the value along. -/
lemma step_at (hs : s.Inside) {a : Op} (h : s.step a = some t) (hset : ∀ val, a ≠ .set val) :
    s.At (s.current.val - s.from_.val + a.moves) t := by
  have hclear := clear_of_step h
  cases a with
  | increment =>
    obtain ⟨t',hstep,hat⟩ := increment_spec hs hclear
    cases h.symm.trans hstep
    exact hat
  | decrement =>
    obtain ⟨t',hstep,hat⟩ := decrement_spec hs hclear
    cases h.symm.trans hstep
    exact hat
  | set val => exact absurd rfl (hset val)

lemma step_inside (hs : s.Inside) {a : Op} (h : s.step a = some t) :
    t.Inside ∧ t.from_ = s.from_ ∧ t.to_ = s.to_ := by
  cases a with
  | increment | decrement =>
    have hat := step_at hs h fun _ => Op.noConfusion
    exact ⟨hat.inside hs.bounds,hat.from_,hat.to_⟩
  | set val =>
    cases h
    exact ⟨set_inside hs.bounds val,rfl,rfl⟩

end Steps

section Runs
variable {s t : NumberCycle} {ops : List Op}

/-- No step of the sequence overflows. -/
def ClearRun (s : NumberCycle) (ops : List Op) : Prop :=
  ∀ pre a post t, ops = pre ++ a :: post → machine.run s pre = some t → t.Clear a

lemma run_inside (hs : s.Inside) (h : machine.run s ops = some t) :
    t.Inside ∧ t.from_ = s.from_ ∧ t.to_ = s.to_ := by
  induction ops generalizing s with
  | nil =>
    cases h
    exact ⟨hs,rfl,rfl⟩
  | cons a ops ih =>
    obtain ⟨u,hu,ht⟩ := Option.bind_eq_some_iff.mp h
    obtain ⟨hin,hfrom,hto⟩ := step_inside hs hu
    obtain ⟨hin',hfrom',hto'⟩ := ih hin ht
    exact ⟨hin',hfrom'.trans hfrom,hto'.trans hto⟩

/-- A sequence can be carried out exactly if no step of it overflows. -/
lemma run_isSome_iff (hs : s.Inside) (ops : List Op) :
    (∃ t, machine.run s ops = some t) ↔ ClearRun s ops := by
  constructor
  · rintro ⟨t,ht⟩ pre a post u rfl hpre
    rw [Machine.run_append, hpre, Option.bind_some, Machine.run_cons] at ht
    obtain ⟨v,hv,_⟩ := Option.bind_eq_some_iff.mp ht
    exact clear_of_step hv
  · intro hclear
    induction ops generalizing s with
    | nil => exact ⟨s,rfl⟩
    | cons a ops ih =>
      obtain ⟨u,hu⟩ := step_of_clear hs (hclear [] a ops s rfl rfl)
      obtain ⟨t,ht⟩ := ih (step_inside hs hu).1 fun pre b post v hops hpre =>
        hclear (a :: pre) b post v (by rw [hops]; rfl) (Option.bind_eq_some_iff.mpr ⟨u,hu,hpre⟩)
      exact ⟨t,Option.bind_eq_some_iff.mpr ⟨u,hu,ht⟩⟩

/-- Without `set` the moves add up. -/
lemma run_at (hs : s.Inside) (h : machine.run s ops = some t) (hset : ∀ val, Op.set val ∉ ops) :
    s.At (s.current.val - s.from_.val + (ops.map Op.moves).sum) t := by
  induction ops generalizing s with
  | nil =>
    cases h
    rw [List.map_nil, List.sum_nil, add_zero]
    exact hs.at_self
  | cons a ops ih =>
    obtain ⟨u,hu,ht⟩ := Option.bind_eq_some_iff.mp h
    have hfirst := step_at hs hu fun val ha => hset val (ha ▸ List.mem_cons_self)
    have hrest := ih (step_inside hs hu).1 ht fun val hmem => hset val (List.mem_cons_of_mem a hmem)
    rw [List.map_cons, List.sum_cons, ← add_assoc]
    exact hfirst.trans hrest

lemma sum_moves (hset : ∀ val, Op.set val ∉ ops) :
    (ops.map Op.moves).sum = ops.count .increment - ops.count .decrement := by
  induction ops with
  | nil => rfl
  | cons a ops ih =>
    have hrest := ih fun val hmem => hset val (List.mem_cons_of_mem a hmem)
    rw [List.map_cons, List.sum_cons, hrest]
    cases a with
    | increment | decrement => simp [Op.moves]; omega
    | set val => exact absurd List.mem_cons_self (hset val)

end Runs

section Walk
variable {from_ to_ : int.Value} {ops : List Op}

/-- What a sequence of operations makes of a cycle that starts at its beginning: the value stays
between the bounds, two steps in opposite directions cancel out, and without `set` the value
moves modulo the length of the cycle. -/
structure Walks (from_ to_ : int.Value) (ops : List Op) : Prop where
  stays : ∀ pre, pre <+: ops → ∃ s, machine.run (ofBounds from_ to_) pre = some s ∧
    from_.val ≤ s.current.val ∧ s.current.val ≤ to_.val
  restores : ∀ pre tail s t, ops = pre ++ tail →
    tail = [.increment,.decrement] ∨ tail = [.decrement,.increment] →
    machine.run (ofBounds from_ to_) pre = some s → machine.run (ofBounds from_ to_) ops = some t →
    t = s
  law : ∀ pre tail s t, ops = pre ++ tail → (∀ val, Op.set val ∉ tail) →
    machine.run (ofBounds from_ to_) pre = some s → machine.run (ofBounds from_ to_) ops = some t →
    t.current.val = from_.val + (s.current.val - from_.val + tail.count .increment -
      tail.count .decrement) % (to_.val - from_.val + 1)

lemma ofBounds_inside (h : from_.val ≤ to_.val) : (ofBounds from_ to_).Inside := ⟨le_rfl,h⟩

lemma run_ofBounds {s : NumberCycle} (h : from_.val ≤ to_.val)
    (hs : machine.run (ofBounds from_ to_) ops = some s) :
    s.Inside ∧ s.from_ = from_ ∧ s.to_ = to_ :=
  run_inside (ofBounds_inside h) hs

lemma Walks.clear (h : from_.val ≤ to_.val) (hw : Walks from_ to_ ops) :
    ClearRun (ofBounds from_ to_) ops := by
  obtain ⟨s,hs,_⟩ := hw.stays ops List.prefix_rfl
  exact (run_isSome_iff (ofBounds_inside h) ops).mp ⟨s,hs⟩

lemma ClearRun.walks (h : from_.val ≤ to_.val) (hclear : ClearRun (ofBounds from_ to_) ops) :
    Walks from_ to_ ops := by
  obtain ⟨last,hlast⟩ := (run_isSome_iff (ofBounds_inside h) ops).mpr hclear
  -- the rest of the sequence, from what has been reached before it
  have hrest : ∀ pre tail s t, ops = pre ++ tail →
      machine.run (ofBounds from_ to_) pre = some s →
      machine.run (ofBounds from_ to_) ops = some t → machine.run s tail = some t := by
    rintro pre tail s t rfl hs ht
    rwa [Machine.run_append, hs, Option.bind_some] at ht
  refine ⟨?_,?_,?_⟩
  · rintro pre ⟨tail,rfl⟩
    rw [Machine.run_append] at hlast
    obtain ⟨s,hs,_⟩ := Option.bind_eq_some_iff.mp hlast
    obtain ⟨hin,rfl,rfl⟩ := run_ofBounds h hs
    exact ⟨s,hs,hin.from_le,hin.le_to⟩
  · intro pre tail s t hops htail hs ht
    obtain ⟨hin,_,_⟩ := run_ofBounds h hs
    have hat := run_at hin (hrest pre tail s t hops hs ht) (by rcases htail with rfl | rfl <;> simp)
    have hsum : (tail.map Op.moves).sum = 0 := by rcases htail with rfl | rfl <;> rfl
    rw [hsum, add_zero] at hat
    exact hat.unique hin.at_self
  · intro pre tail s t hops hset hs ht
    obtain ⟨hin,rfl,rfl⟩ := run_ofBounds h hs
    have hat := (run_at hin (hrest pre tail s t hops hs ht) hset).current
    rwa [sum_moves hset, place, ← add_sub_assoc] at hat

/-- A sequence walks around the cycle exactly if no step of it is an increment at the largest
`int` or a decrement at the smallest. -/
theorem walks_iff (from_ to_ : int.Value) (h : from_.val ≤ to_.val) (ops : List Op) :
    Walks from_ to_ ops ↔ ClearRun (ofBounds from_ to_) ops :=
  ⟨Walks.clear h,ClearRun.walks h⟩

theorem walks_iff_at : Walks ⟨0,by decide⟩ ⟨3,by decide⟩ [.decrement,.set ⟨7,by decide⟩,.increment] ↔
    ClearRun (ofBounds ⟨0,by decide⟩ ⟨3,by decide⟩)
      [.decrement,.set ⟨7,by decide⟩,.increment] :=
  walks_iff _ _ (by decide) _

/-- An increment at the largest `int`. -/
theorem increment_overflows :
    ¬Walks ⟨0,by decide⟩ ⟨2147483647,by decide⟩ [.set ⟨2147483647,by decide⟩,.increment] := by
  intro h
  obtain ⟨s,hs,_⟩ := h.stays _ List.prefix_rfl
  have hnone : machine.run (ofBounds ⟨0,by decide⟩ ⟨2147483647,by decide⟩)
      [.set ⟨2147483647,by decide⟩,.increment] = none := by decide +kernel
  cases hnone.symm.trans hs

/-- The bounds of the cycles on which every sequence walks around. -/
theorem all_walk_iff (h : from_.val ≤ to_.val) :
    (∀ ops, Walks from_ to_ ops) ↔ int.min < from_.val ∧ to_.val < int.max := by
  constructor
  · intro hall
    constructor
    · exact (hall [.decrement]).clear h [] .decrement [] _ rfl rfl
    · have hlast : (ofBounds from_ to_).set to_ = ⟨from_,to_,to_⟩ := by
        rw [set, ofBounds]
        simp [h]
      have hstep := (hall [.set to_,.increment]).clear h [.set to_] .increment [] _ rfl rfl
      change ((ofBounds from_ to_).set to_).current.val < int.max at hstep
      rwa [hlast] at hstep
  · rintro ⟨hlow,hhigh⟩ ops
    refine ClearRun.walks h fun pre a post s _ hs => ?_
    obtain ⟨hin,rfl,rfl⟩ := run_ofBounds h hs
    cases a with
    | increment => exact hin.le_to.trans_lt hhigh
    | decrement => exact hlow.trans_le hin.from_le
    | set val => trivial

end Walk

section Operators
variable {c s t : NumberCycle} {n : int.Value}

/-- The binary operators as repeated steps. -/
structure AgreesWithStepping (c : NumberCycle) (n : int.Value) : Prop where
  plus : ∃ t, c.plus n = some t ∧ machine.run c (List.replicate n.val.toNat .increment) = some t
  minus : ∃ t, c.minus n = some t ∧ machine.run c (List.replicate n.val.toNat .decrement) = some t
  back : (c.plus n).bind (·.minus n) = some c

lemma plus_eq (c : NumberCycle) (n : int.Value) : c.plus n = c.increment := rfl

lemma minus_eq (c : NumberCycle) (n : int.Value) : c.minus n = c.decrement := rfl

lemma run_replicate_at (hc : c.Inside) {a : Op} {k : ℕ} (hset : ∀ val, a ≠ .set val)
    (h : machine.run c (List.replicate k a) = some t) :
    c.At (c.current.val - c.from_.val + k * a.moves) t := by
  have hat := run_at hc h fun val hmem => hset val (List.eq_of_mem_replicate hmem).symm
  rwa [List.map_replicate, List.sum_replicate, nsmul_eq_mul] at hat

lemma run_replicate_succ {a : Op} (h : c.step a = some t) (k : ℕ) :
    machine.run c (List.replicate (k+1) a) = machine.run t (List.replicate k a) := by
  rw [List.replicate_succ, Machine.run_cons]
  change (c.step a).bind _ = _
  rw [h, Option.bind_some]

lemma not_run_replicate {a : Op} (h : ¬c.Clear a) (k : ℕ) :
    ¬∃ t, machine.run c (List.replicate (k+1) a) = some t := by
  rintro ⟨u,hu⟩
  obtain ⟨t,hstep,_⟩ := Option.bind_eq_some_iff.mp hu
  exact h (clear_of_step hstep)

/-- Repeated increments get on unless they reach the largest `int`. -/
lemma run_increments_iff (hc : c.Inside) (k : ℕ) :
    (∃ t, machine.run c (List.replicate k .increment) = some t) ↔
      (c.to_.val = int.max → c.current.val + k ≤ c.to_.val) := by
  induction k generalizing c with
  | zero =>
    refine iff_of_true ⟨c,rfl⟩ fun _ => ?_
    have hle := hc.le_to
    omega
  | succ k ih =>
    have hle := hc.le_to
    have hmax := c.to_.inRange.2
    by_cases hclear : c.current.val < int.max
    · obtain ⟨t,hstep,hat⟩ := increment_spec hc hclear
      have hcur := hat.current
      rw [place_succ hc.from_le hc.le_to] at hcur
      rw [run_replicate_succ (a := .increment) hstep, ih (hat.inside hc.bounds), hat.to_, hcur]
      split_ifs <;> omega
    · exact iff_of_false (not_run_replicate (a := .increment) hclear k) (by omega)

lemma run_decrements_iff (hc : c.Inside) (k : ℕ) :
    (∃ t, machine.run c (List.replicate k .decrement) = some t) ↔
      (c.from_.val = int.min → c.from_.val ≤ c.current.val - k) := by
  induction k generalizing c with
  | zero =>
    refine iff_of_true ⟨c,rfl⟩ fun _ => ?_
    have hle := hc.from_le
    omega
  | succ k ih =>
    have hle := hc.from_le
    have hmin := c.from_.inRange.1
    by_cases hclear : int.min < c.current.val
    · obtain ⟨t,hstep,hat⟩ := decrement_spec hc hclear
      have hcur := hat.current
      rw [← sub_eq_add_neg, place_pred hc.from_le hc.le_to] at hcur
      rw [run_replicate_succ (a := .decrement) hstep, ih (hat.inside hc.bounds), hat.from_, hcur]
      have hto := hc.le_to
      split_ifs <;> omega
    · exact iff_of_false (not_run_replicate (a := .decrement) hclear k) (by omega)

/-- One step ends where `k` do if the cycle divides the difference. -/
lemma step_agrees_iff (hc : c.Inside) {a : Op} (hset : ∀ val, a ≠ .set val) (k : ℕ) :
    (∃ t, c.step a = some t ∧ machine.run c (List.replicate k a) = some t) ↔
      c.Clear a ∧ (∃ t, machine.run c (List.replicate k a) = some t) ∧
        c.to_.val - c.from_.val + 1 ∣ (k : ℤ) - 1 := by
  have hplace : place c.from_.val c.to_.val (c.current.val - c.from_.val + k * a.moves) =
      place c.from_.val c.to_.val (c.current.val - c.from_.val + a.moves) ↔
      c.to_.val - c.from_.val + 1 ∣ (k : ℤ) - 1 := by
    rw [place_eq_iff, add_sub_add_left_eq_sub]
    cases a with
    | increment => rw [Op.moves, mul_one]
    | decrement => rw [Op.moves, ← dvd_neg, neg_sub, mul_neg_one, sub_neg_eq_add, neg_add_eq_sub]
    | set val => exact absurd rfl (hset val)
  constructor
  · rintro ⟨t,hstep,hrun⟩
    have hone := step_at hc hstep hset
    have hmany := run_replicate_at hc hset hrun
    exact ⟨clear_of_step hstep,⟨t,hrun⟩,hplace.mp (hmany.current.symm.trans hone.current)⟩
  · rintro ⟨hclear,⟨t,hrun⟩,hdvd⟩
    obtain ⟨u,hstep⟩ := step_of_clear hc hclear
    have hone := step_at hc hstep hset
    have hmany := run_replicate_at hc hset hrun
    have hsame : t = u :=
      At.unique ⟨hmany.from_,hmany.to_,hmany.current.trans (hplace.mpr hdvd)⟩ hone
    exact ⟨u,hstep,hsame ▸ hrun⟩

/-- The way forwards and back. -/
lemma back_iff (hc : c.Inside) (n : int.Value) :
    (c.plus n).bind (·.minus n) = some c ↔
      c.current.val < int.max ∧ ¬(c.current.val = c.to_.val ∧ c.from_.val = int.min) := by
  have hmin := c.current.inRange.1
  by_cases hclear : c.current.val < int.max
  · obtain ⟨t,hstep,hat⟩ := increment_spec hc hclear
    have hcur := hat.current
    rw [place_succ hc.from_le hc.le_to] at hcur
    have hle := hc.le_to
    have hmove : int.min < t.current.val ↔
        ¬(c.current.val = c.to_.val ∧ c.from_.val = int.min) := by
      have hfrom := c.from_.inRange.1
      rw [hcur]
      split_ifs <;> omega
    rw [plus_eq, hstep, Option.bind_some, minus_eq, ← hmove]
    constructor
    · exact fun h => ⟨hclear,clear_of_step (a := .decrement) h⟩
    · rintro ⟨_,hlow⟩
      obtain ⟨u,hu,hback⟩ := decrement_spec (hat.inside hc.bounds) hlow
      have hsum := hat.trans hback
      rw [add_neg_cancel_right] at hsum
      rw [hu, hsum.unique hc.at_self]
  · refine iff_of_false ?_ fun h => hclear h.1
    rw [plus_eq, increment_eq_none hclear, Option.bind_none]
    exact (Option.some_ne_none c).symm

/-- The binary operators, which ignore their argument, agree with repeated steps exactly if the
argument is one modulo the length of the cycle and no step overflows. -/
theorem agreesWithStepping_iff (c : NumberCycle) (hc : c.Inside) (n : int.Value) (hn : 0 ≤ n.val) :
    AgreesWithStepping c n ↔
      c.to_.val - c.from_.val + 1 ∣ n.val - 1 ∧
        (c.current.val < int.max ∧ (c.to_.val = int.max → c.current.val + n.val ≤ c.to_.val)) ∧
        (int.min < c.current.val ∧ (c.from_.val = int.min → c.from_.val ≤ c.current.val - n.val)) ∧
        ¬(c.current.val = c.to_.val ∧ c.from_.val = int.min) := by
  have hk : ((n.val.toNat : ℕ) : ℤ) = n.val := Int.toNat_of_nonneg hn
  have hup := step_agrees_iff hc (a := .increment) (fun _ => Op.noConfusion) n.val.toNat
  have hdown := step_agrees_iff hc (a := .decrement) (fun _ => Op.noConfusion) n.val.toNat
  rw [run_increments_iff hc, hk] at hup
  rw [run_decrements_iff hc, hk] at hdown
  constructor
  · rintro ⟨hplus,hminus,hback⟩
    obtain ⟨hhigh,hroom,hdvd⟩ := hup.mp hplus
    obtain ⟨hlow,hroom',_⟩ := hdown.mp hminus
    exact ⟨hdvd,⟨hhigh,hroom⟩,⟨hlow,hroom'⟩,((back_iff hc n).mp hback).2⟩
  · rintro ⟨hdvd,⟨hhigh,hroom⟩,⟨hlow,hroom'⟩,hback⟩
    exact ⟨hup.mpr ⟨hhigh,hroom,hdvd⟩,hdown.mpr ⟨hlow,hroom',hdvd⟩,
      (back_iff hc n).mpr ⟨hhigh,hback⟩⟩

theorem agreesWithStepping_iff_at :
    AgreesWithStepping (ofBounds ⟨0,by decide⟩ ⟨10,by decide⟩) ⟨12,by decide⟩ :=
  (agreesWithStepping_iff _ ⟨by decide,by decide⟩ _ (by decide)).mpr
    ⟨by decide,⟨by decide,by decide⟩,⟨by decide,by decide⟩,by decide⟩

/-- Adding two adds one. -/
theorem plus_two_adds_one :
    ¬AgreesWithStepping (ofBounds ⟨0,by decide⟩ ⟨10,by decide⟩) ⟨2,by decide⟩ := by
  intro h
  obtain ⟨t,hplus,hrun⟩ := h.plus
  have hne : (ofBounds ⟨0,by decide⟩ ⟨10,by decide⟩).plus ⟨2,by decide⟩ ≠
      machine.run (ofBounds ⟨0,by decide⟩ ⟨10,by decide⟩) [.increment,.increment] := by
    decide +kernel
  exact hne (hplus.trans hrun.symm)

end Operators

end NumberCycle
end Asp
