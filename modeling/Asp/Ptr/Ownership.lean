import Asp.Foundation.Machine
import Asp.Foundation.RefCount
import Asp.Foundation.Tally
import Mathlib.Tactic.Ring

/-! `asp::SharedPtr` and `asp::PtrSwap` in one thread, one call at a time, but that the function
given to `rcu` may make any calls itself. A control block is named by a number that is never
reused. A variable that holds null may also be one that is not constructed or is destroyed. The
managed values contain no handles. -/
namespace Asp.Ownership
open Foundation

/-- An `rcu` call in progress with its local variable `oldPtr`. -/
structure Rcu (S : Type*) where
  target : S
  oldPtr : Option ℕ

/-- `dtors` counts the runs of the data destructor. -/
structure State (H S : Type*) where
  next : ℕ
  strong : ℕ → ℕ
  dtors : ℕ → ℕ
  ptr : H → Option ℕ
  slot : S → Option ℕ
  calls : List (Rcu S)

/-- A call whose result is a SharedPtr constructs it in `d`. -/
inductive Op (H S : Type*)
  | makeShared (d : H)
  | copy (d h : H)
  | copyAssign (d h : H)
  | move (d h : H)
  | moveAssign (d h : H)
  | destroy (h : H)                     -- also reset()
  | construct (x : S)
  | constructFrom (x : S) (h : H)
  | load (d : H) (x : S)
  | store (x : S) (h : H)
  | storeMove (x : S) (h : H)
  | swap (d : H) (x : S) (h : H)
  | swapMove (d : H) (x : S) (h : H)
  | moveConstruct (x y : S)
  | moveAssignSlot (x y : S)
  | destroySlot (x : S)
  | rcu (x : S)                         -- rcu up to the first call of the function
  | argument (d : H)                    -- the function copies its argument
  | rcuReturn (h d : H) (spurious : Bool)
    -- the function returns std::move(h); rcu goes on to its end or to the next call

variable {H S : Type*}

section Ops
variable [DecidableEq H] [DecidableEq S]

namespace State

def setPtr (s : State H S) (h : H) (r : Option ℕ) : State H S :=
  { s with ptr := Function.update s.ptr h r }

def setSlot (s : State H S) (x : S) (r : Option ℕ) : State H S :=
  { s with slot := Function.update s.slot x r }

def setCalls (s : State H S) (l : List (Rcu S)) : State H S := { s with calls := l }

/-- strong.fetch_add(1), unless null -/
def retain (s : State H S) : Option ℕ → State H S
  | none => s
  | some b => { s with strong := Function.update s.strong b (s.strong b + 1) }

/-- SharedPtr::release() -/
def release (s : State H S) : Option ℕ → State H S
  | none => s
  | some b => { s with
      strong := Function.update s.strong b (if s.strong b = 0 then 2^64 - 1 else s.strong b - 1)
      dtors := Function.update s.dtors b (if s.strong b = 1 then s.dtors b + 1 else s.dtors b) }

/-- SharedPtrBlock::create -/
def create (s : State H S) : State H S :=
  { s with next := s.next + 1, strong := Function.update s.strong s.next 1 }

/-- `store(const Ptr&)`: the pointer returned by swap is dropped. -/
def store (s : State H S) (x : S) (h : H) : State H S :=
  ((s.setSlot x (s.ptr h)).retain (s.ptr h)).release (s.slot x)

/-- The end of an iteration of `rcu`, with the pointer that the function has returned. -/
def rcuExchange (s : State H S) (c : Rcu S) (rest : List (Rcu S)) (newPtr : Option ℕ) (d : H)
    (spurious : Bool) : Option (State H S) :=
  if spurious = false ∧ s.slot c.target = c.oldPtr then
    -- released twice: for the swap and, with the local variable, for the load
    guarded (s.ptr d = none)
      ((((((s.setSlot c.target newPtr).retain newPtr).setPtr d newPtr).setCalls rest).release
        c.oldPtr).release c.oldPtr)
  else
    -- cas fail, reload
    some ((((s.retain (s.slot c.target)).setCalls (⟨c.target,s.slot c.target⟩ :: rest)).release
      c.oldPtr).release newPtr)

def step (s : State H S) : Op H S → Option (State H S)
  | .makeShared d => guarded (s.ptr d = none) (s.create.setPtr d (some s.next))
  | .copy d h => guarded (s.ptr d = none) ((s.retain (s.ptr h)).setPtr d (s.ptr h))
  | .copyAssign d h =>
    if d = h then some s
    else some (((s.release (s.ptr d)).setPtr d (s.ptr h)).retain (s.ptr h))
  | .move d h => guarded (s.ptr d = none) ((s.setPtr h none).setPtr d (s.ptr h))
  | .moveAssign d h =>
    if d = h then some s
    else some (((s.release (s.ptr d)).setPtr h none).setPtr d (s.ptr h))
  | .destroy h => some ((s.release (s.ptr h)).setPtr h none)
  | .construct x => guarded (s.slot x = none) s
  | .constructFrom x h => guarded (s.slot x = none) (s.store x h)
  | .load d x => guarded (s.ptr d = none) ((s.retain (s.slot x)).setPtr d (s.slot x))
  | .store x h => some (s.store x h)
  | .storeMove x h => some (((s.setSlot x (s.ptr h)).setPtr h none).release (s.slot x))
  | .swap d x h => guarded (s.ptr d = none)
      (((s.setSlot x (s.ptr h)).retain (s.ptr h)).setPtr d (s.slot x))
  | .swapMove d x h => guarded (s.ptr d = none)
      (((s.setSlot x (s.ptr h)).setPtr h none).setPtr d (s.slot x))
  -- the source keeps its pointer
  | .moveConstruct x y => guarded (s.slot x = none) (s.setSlot x (s.slot y))
  | .moveAssignSlot x y =>
    if x = y then some s else some ((s.release (s.slot x)).setSlot x (s.slot y))
  | .destroySlot x => some ((s.release (s.slot x)).setSlot x none)
  | .rcu x => some ((s.retain (s.slot x)).setCalls (⟨x,s.slot x⟩ :: s.calls))
  | .argument d =>
    match s.calls with
    | c :: _ => guarded (s.ptr d = none) ((s.retain c.oldPtr).setPtr d c.oldPtr)
    | [] => none
  | .rcuReturn h d spurious =>
    match s.calls with
    | c :: rest => (s.setPtr h none).rcuExchange c rest (s.ptr h) d spurious
    | [] => none

end State

def machine : Machine (State H S) (Op H S) where
  step := State.step

end Ops

def init (H S : Type*) : State H S where
  next := 0
  strong := fun _ => 0
  dtors := fun _ => 0
  ptr := fun _ => none
  slot := fun _ => none
  calls := []

/-- 1 for a pointer to block `b`. -/
def holds (b : ℕ) (r : Option ℕ) : ℕ := if r = some b then 1 else 0

@[simp] theorem holds_none (b : ℕ) : holds b none = 0 := rfl

@[simp] theorem holds_self (b : ℕ) : holds b (some b) = 1 := if_pos rfl

theorem holds_of_ne {b c : ℕ} (h : c ≠ b) : holds b (some c) = 0 :=
  if_neg fun he => h (Option.some.inj he)

namespace State
variable [Fintype H] [Fintype S]

/-- The SharedPtr handles, local variables of `rcu` included, and the PtrSwap slots that hold
block `b`. -/
def holders (s : State H S) (b : ℕ) : ℕ :=
  tally (holds b) s.ptr + tally (holds b) s.slot + (s.calls.map fun c => holds b c.oldPtr).sum

/-- Each strong counter is the number of holders, and the data is destroyed once there are none. -/
structure Owned (s : State H S) : Prop where
  strong : ∀ b, s.strong b = s.holders b
  dtors : ∀ b, s.dtors b = if b < s.next ∧ s.holders b = 0 then 1 else 0

/-- The same in the middle of a call, where `temps` are the pointers with a reference that no
variable holds. -/
structure Balanced (s : State H S) (temps : List (Option ℕ)) : Prop where
  strong : ∀ b, s.strong b = s.holders b + (temps.map (holds b)).sum
  alive : ∀ b, s.dtors b + RefCount.held (s.strong b) = if b < s.next then 1 else 0

end State

section Equations
variable {s : State H S} {r r' : Option ℕ}

namespace State

theorem retain_strong (s : State H S) (r : Option ℕ) (b : ℕ) :
    (s.retain r).strong b = s.strong b + holds b r := by
  cases r with
  | none => rfl
  | some c =>
    by_cases hb : c = b
    · subst hb
      rw [holds_self]
      exact Function.update_self ..
    · rw [holds_of_ne hb]
      exact Function.update_of_ne (Ne.symm hb) ..

@[simp] theorem retain_ptr : (s.retain r).ptr = s.ptr := by cases r <;> rfl

@[simp] theorem retain_slot : (s.retain r).slot = s.slot := by cases r <;> rfl

@[simp] theorem retain_calls : (s.retain r).calls = s.calls := by cases r <;> rfl

@[simp] theorem release_ptr : (s.release r).ptr = s.ptr := by cases r <;> rfl

@[simp] theorem release_slot : (s.release r).slot = s.slot := by cases r <;> rfl

section Ptr
variable [DecidableEq H] (d : H)

theorem release_setPtr : (s.release r).setPtr d r' = (s.setPtr d r').release r := by
  cases r <;> rfl

theorem retain_setPtr : (s.retain r).setPtr d r' = (s.setPtr d r').retain r := by
  cases r <;> rfl

theorem ptr_setPtr_none {d p : H} (hd : s.ptr d = none) : (s.setPtr p none).ptr d = none := by
  by_cases hdp : d = p
  · subst hdp
    exact Function.update_self ..
  · exact (Function.update_of_ne hdp ..).trans hd

theorem setPtr_setPtr : (s.setPtr d r).setPtr d r' = s.setPtr d r' := by
  rw [setPtr, setPtr, Function.update_idem]
  rfl

end Ptr

section Slot
variable [DecidableEq S] (x : S)

theorem release_setSlot : (s.release r).setSlot x r' = (s.setSlot x r').release r := by
  cases r <;> rfl

theorem retain_setSlot : (s.retain r).setSlot x r' = (s.setSlot x r').retain r := by
  cases r <;> rfl

theorem setSlot_setSlot : (s.setSlot x r).setSlot x r' = s.setSlot x r' := by
  rw [setSlot, setSlot, Function.update_idem]
  rfl

end Slot
end State
end Equations

section Rules
variable [Fintype H] [Fintype S] {s : State H S} {r r' : Option ℕ}
  {temps : List (Option ℕ)}

namespace State

theorem retain_holders (s : State H S) (r : Option ℕ) (b : ℕ) :
    (s.retain r).holders b = s.holders b := by
  cases r <;> rfl

theorem release_holders (s : State H S) (r : Option ℕ) (b : ℕ) :
    (s.release r).holders b = s.holders b := by
  cases r <;> rfl

namespace Balanced

theorem owned (h : s.Balanced []) : s.Owned where
  strong := h.strong
  dtors b := by
    have hs : s.strong b = s.holders b := h.strong b
    have ha := h.alive b
    rw [hs] at ha
    by_cases h0 : s.holders b = 0
    · rw [h0, RefCount.held_zero, Nat.add_zero] at ha
      rw [ha, h0]
      simp only [and_true]
    · rw [RefCount.held_of_pos (Nat.pos_of_ne_zero h0)] at ha
      rw [if_neg fun hb => h0 hb.2]
      split_ifs at ha
      · omega

theorem cons_none (h : s.Balanced temps) : s.Balanced (none :: temps) where
  strong b := by
    rw [h.strong b, List.map_cons, List.sum_cons, holds_none, Nat.zero_add]
  alive := h.alive

theorem drop (h : s.Balanced (none :: temps)) : s.Balanced temps where
  strong b := by
    rw [h.strong b, List.map_cons, List.sum_cons, holds_none, Nat.zero_add]
  alive := h.alive

theorem swap (h : s.Balanced (r :: r' :: temps)) : s.Balanced (r' :: r :: temps) where
  strong b := by
    have hs := h.strong b
    simp only [List.map_cons, List.sum_cons] at hs ⊢
    omega
  alive := h.alive

/-- A block that is referred to can be retained. -/
theorem retain (h : s.Balanced temps) (hr : ∀ b, r = some b → 0 < s.strong b) :
    (s.retain r).Balanced (r :: temps) where
  strong b := by
    have hs := h.strong b
    rw [s.retain_strong r b, s.retain_holders r b, List.map_cons, List.sum_cons]
    omega
  alive b := by
    have ha := h.alive b
    rw [s.retain_strong r b]
    cases r with
    | none => exact ha
    | some c =>
      by_cases hb : c = b
      · subst hb
        rw [RefCount.held_of_pos (hr c rfl)] at ha
        rw [RefCount.held_of_pos (Nat.add_pos_left (hr c rfl) _)]
        exact ha
      · rw [holds_of_ne hb]
        exact ha

/-- Dropping the last reference destroys the data. -/
theorem release (h : s.Balanced (r :: temps)) : (s.release r).Balanced temps := by
  cases r with
  | none => exact h.drop
  | some c =>
    have hc := h.strong c
    rw [List.map_cons, List.sum_cons, holds_self] at hc
    refine ⟨fun b => ?_,fun b => ?_⟩
    · have hs := h.strong b
      rw [s.release_holders (some c) b]
      by_cases hb : b = c
      · subst hb
        have hne : s.strong b ≠ 0 := by omega
        refine (Function.update_self ..).trans ?_
        rw [if_neg hne]
        omega
      · refine (Function.update_of_ne hb ..).trans ?_
        rw [hs, List.map_cons, List.sum_cons, holds_of_ne (Ne.symm hb), Nat.zero_add]
    · have ha := h.alive b
      by_cases hb : b = c
      · subst hb
        change Function.update s.dtors b _ b + RefCount.held (Function.update s.strong b _ b) = _
        rw [Function.update_self, Function.update_self]
        have hpos : 0 < s.strong b := by omega
        rw [RefCount.held_of_pos hpos] at ha
        change _ = if b < s.next then 1 else 0
        rw [← ha, if_neg hpos.ne']
        split_ifs with h1
        · rw [h1, Nat.sub_self, RefCount.held_zero]
        · rw [RefCount.held_of_pos (by omega)]
      · change Function.update s.dtors c _ b + RefCount.held (Function.update s.strong c _ b) = _
        rw [Function.update_of_ne hb, Function.update_of_ne hb]
        exact ha

/-- What a variable refers to is alive. -/
theorem pos (h : s.Balanced temps) {b : ℕ} (hb : 0 < s.holders b + (temps.map (holds b)).sum) :
    0 < s.strong b := hb.trans_eq (h.strong b).symm

theorem pos_ptr (h : s.Balanced temps) (d : H) (b : ℕ) (hb : s.ptr d = some b) :
    0 < s.strong b := by
  have htally : 0 < tally (holds b) s.ptr :=
    tally_pos_iff.mpr ⟨d,by rw [hb, holds_self]; exact Nat.one_pos⟩
  refine h.pos ?_
  rw [holders]
  omega

theorem pos_slot (h : s.Balanced temps) (x : S) (b : ℕ) (hb : s.slot x = some b) :
    0 < s.strong b := by
  have htally : 0 < tally (holds b) s.slot :=
    tally_pos_iff.mpr ⟨x,by rw [hb, holds_self]; exact Nat.one_pos⟩
  refine h.pos ?_
  rw [holders]
  omega

theorem pos_temp (h : s.Balanced (r :: temps)) (b : ℕ) (hb : r = some b) : 0 < s.strong b := by
  refine h.pos ?_
  rw [hb, List.map_cons, List.sum_cons, holds_self]
  omega

/-- A new block has one reference. -/
theorem create (h : s.Balanced temps) : s.create.Balanced (some s.next :: temps) := by
  have hnew := h.alive s.next
  rw [if_neg (Nat.lt_irrefl _)] at hnew
  have hstrong : s.strong s.next = 0 := by
    by_contra h0
    rw [RefCount.held_of_pos (Nat.pos_of_ne_zero h0)] at hnew
    omega
  refine ⟨fun b => ?_,fun b => ?_⟩
  · have hs := h.strong b
    change Function.update s.strong s.next 1 b = s.holders b + _
    rw [List.map_cons, List.sum_cons]
    by_cases hb : b = s.next
    · subst hb
      rw [Function.update_self, holds_self]
      omega
    · rw [Function.update_of_ne hb, holds_of_ne (Ne.symm hb)]
      omega
  · have ha := h.alive b
    change s.dtors b + RefCount.held (Function.update s.strong s.next 1 b) =
      if b < s.next + 1 then 1 else 0
    by_cases hb : b = s.next
    · subst hb
      rw [Function.update_self, if_pos (Nat.lt_succ_self _)]
      rw [hstrong, RefCount.held_zero] at hnew
      rw [RefCount.held_of_pos Nat.one_pos]
      omega
    · rw [Function.update_of_ne hb, ha]
      have hiff : b < s.next + 1 ↔ b < s.next := by omega
      simp only [hiff]

/-- An `rcu` call keeps a pointer in its local variable. -/
theorem pushCall (h : s.Balanced (r :: temps)) (x : S) :
    (s.setCalls (⟨x,r⟩ :: s.calls)).Balanced temps where
  strong b := by
    have hs := h.strong b
    have hcalls : ((⟨x,r⟩ :: s.calls : List (Rcu S)).map fun c => holds b c.oldPtr).sum =
        holds b r + (s.calls.map fun c => holds b c.oldPtr).sum := List.sum_cons
    rw [List.map_cons, List.sum_cons, holders] at hs
    change s.strong b = tally (holds b) s.ptr + tally (holds b) s.slot +
      ((⟨x,r⟩ :: s.calls : List (Rcu S)).map fun c => holds b c.oldPtr).sum + _
    omega
  alive := h.alive

theorem popCall (h : s.Balanced temps) {c : Rcu S} {rest : List (Rcu S)}
    (hl : s.calls = c :: rest) : (s.setCalls rest).Balanced (c.oldPtr :: temps) where
  strong b := by
    have hs := h.strong b
    rw [holders, hl, List.map_cons, List.sum_cons] at hs
    change s.strong b = _
    rw [hs, holders, List.map_cons, List.sum_cons]
    change _ = tally (holds b) s.ptr + tally (holds b) s.slot +
      (rest.map fun c => holds b c.oldPtr).sum + _
    omega
  alive := h.alive

end Balanced

section Ptr
variable [DecidableEq H] (d : H)

theorem holders_setPtr (r : Option ℕ) (b : ℕ) :
    (s.setPtr d r).holders b + holds b (s.ptr d) = s.holders b + holds b r := by
  have hu := tally_update (holds b) s.ptr d r
  change tally (holds b) (Function.update s.ptr d r) + tally (holds b) s.slot +
    (s.calls.map fun c => holds b c.oldPtr).sum + _ = _
  rw [holders]
  omega

/-- A variable takes a pointer and gives up the one it has. -/
theorem Balanced.setPtr (h : s.Balanced (r :: temps)) :
    (s.setPtr d r).Balanced (s.ptr d :: temps) where
  strong b := by
    have hs := h.strong b
    have hh := holders_setPtr (s := s) d r b
    rw [List.map_cons, List.sum_cons] at hs ⊢
    change s.strong b = _
    omega
  alive := h.alive

/-- A variable is emptied. -/
theorem Balanced.take (h : s.Balanced temps) : (s.setPtr d none).Balanced (s.ptr d :: temps) :=
  h.cons_none.setPtr d

/-- A pointer is constructed in an empty variable. -/
theorem Balanced.put (h : s.Balanced (r :: temps)) (hd : s.ptr d = none) :
    (s.setPtr d r).Balanced temps := by
  have hput := h.setPtr d
  rw [hd] at hput
  exact hput.drop

/-- A pointer is copied to an empty variable. -/
theorem Balanced.putCopy (h : s.Balanced temps) (hr : ∀ b, r = some b → 0 < s.strong b)
    (hd : s.ptr d = none) : ((s.retain r).setPtr d r).Balanced temps :=
  (h.retain hr).put d (by rw [retain_ptr, hd])

/-- What a variable holds is let go. -/
theorem Balanced.clear (h : s.Balanced temps) :
    ((s.setPtr d none).release (s.ptr d)).Balanced temps := (h.take d).release

theorem Balanced.copyAssign {p : H} (h : s.Balanced temps) (hdp : d ≠ p) :
    (((s.release (s.ptr d)).setPtr d (s.ptr p)).retain (s.ptr p)).Balanced temps := by
  have hfree := h.clear d
  have hp : ((s.setPtr d none).release (s.ptr d)).ptr p = s.ptr p := by
    rw [release_ptr]
    exact Function.update_of_ne (Ne.symm hdp) ..
  have hd : ((s.setPtr d none).release (s.ptr d)).ptr d = none := by
    rw [release_ptr]
    exact Function.update_self ..
  have hput := hfree.putCopy d (hfree.pos_ptr p) hd
  rw [hp, retain_setPtr, release_setPtr, setPtr_setPtr] at hput
  rwa [release_setPtr]

theorem Balanced.moveAssign {p : H} (h : s.Balanced temps) (hdp : d ≠ p) :
    (((s.release (s.ptr d)).setPtr p none).setPtr d (s.ptr p)).Balanced temps := by
  have hput := (h.take p).setPtr d (r := s.ptr p)
  have hd : (s.setPtr p none).ptr d = s.ptr d := Function.update_of_ne hdp ..
  rw [hd] at hput
  rw [release_setPtr, release_setPtr]
  exact hput.release

end Ptr

section Slot
variable [DecidableEq S] (x : S)

theorem holders_setSlot (r : Option ℕ) (b : ℕ) :
    (s.setSlot x r).holders b + holds b (s.slot x) = s.holders b + holds b r := by
  have hu := tally_update (holds b) s.slot x r
  change tally (holds b) s.ptr + tally (holds b) (Function.update s.slot x r) +
    (s.calls.map fun c => holds b c.oldPtr).sum + _ = _
  rw [holders]
  omega

theorem Balanced.setSlot (h : s.Balanced (r :: temps)) :
    (s.setSlot x r).Balanced (s.slot x :: temps) where
  strong b := by
    have hs := h.strong b
    have hh := holders_setSlot (s := s) x r b
    rw [List.map_cons, List.sum_cons] at hs ⊢
    change s.strong b = _
    omega
  alive := h.alive

theorem Balanced.takeSlot (h : s.Balanced temps) :
    (s.setSlot x none).Balanced (s.slot x :: temps) := h.cons_none.setSlot x

theorem Balanced.store (h : s.Balanced []) (p : H) : (s.store x p).Balanced [] := by
  have hstore := (h.retain (h.pos_ptr p)).setSlot x
  rw [retain_setSlot, retain_slot] at hstore
  exact hstore.release

/-- A PtrSwap that takes over a pointer without a reference of its own. -/
theorem Balanced.uncounted (h : s.Balanced []) {b : ℕ} (hx : s.slot x = none) :
    ¬(s.setSlot x (some b)).Owned := by
  intro ho
  have hs : s.strong b = s.holders b := h.strong b
  have ht : s.strong b = (s.setSlot x (some b)).holders b := ho.strong b
  have hh := holders_setSlot (s := s) x (some b) b
  rw [hx, holds_none, holds_self] at hh
  omega

end Slot
end State
end Rules

/-- A PtrSwap is moved only when it holds null, or onto itself. -/
def MoveGuard (s : State H S) : Op H S → Prop
  | .moveConstruct _ y => s.slot y = none
  | .moveAssignSlot x y => x = y ∨ s.slot y = none
  | _ => True

section Runs
variable [Fintype H] [Fintype S] [DecidableEq H] [DecidableEq S] {s t : State H S}

instance (s : State H S) (a : Op H S) : Decidable (MoveGuard s a) := by
  cases a <;> unfold MoveGuard <;> infer_instance

/-- The end of an iteration of `rcu`. -/
theorem rcuExchange_balanced {c : Rcu S} {rest : List (Rcu S)} {newPtr : Option ℕ} {d : H}
    {spurious : Bool} (h : s.Balanced [newPtr]) (hl : s.calls = c :: rest)
    (hs : s.rcuExchange c rest newPtr d spurious = some t) : t.Balanced [] := by
  rw [State.rcuExchange] at hs
  split_ifs at hs with hcas
  · obtain ⟨hd,rfl⟩ := guarded_eq_some.mp hs
    have hset := (h.retain h.pos_temp).setSlot c.target
    rw [State.retain_slot, hcas.2, State.retain_setSlot] at hset
    have hput := hset.swap.put d (by rw [State.retain_ptr]; exact hd)
    have hcalls : ((s.setSlot c.target newPtr).retain newPtr).calls = c :: rest := by
      rw [State.retain_calls]
      exact hl
    exact (hput.popCall hcalls).release.release
  · cases hs
    have hload := h.retain (h.pos_slot c.target)
    have hcalls : (s.retain (s.slot c.target)).calls = c :: rest := by
      rw [State.retain_calls, hl]
    exact ((hload.popCall hcalls).swap.pushCall c.target).release.release

/-- Every call that moves no PtrSwap with a block in it is balanced. -/
theorem step_balanced {a : Op H S} (h : s.Balanced []) (hg : MoveGuard s a)
    (hs : s.step a = some t) : t.Balanced [] := by
  cases a with
  | makeShared d =>
    obtain ⟨hd,rfl⟩ := guarded_eq_some.mp hs
    exact h.create.put d hd
  | copy d p =>
    obtain ⟨hd,rfl⟩ := guarded_eq_some.mp hs
    exact h.putCopy d (h.pos_ptr p) hd
  | copyAssign d p =>
    rw [State.step] at hs
    split_ifs at hs with hdp <;> cases hs
    · exact h
    · exact h.copyAssign d hdp
  | move d p =>
    obtain ⟨hd,rfl⟩ := guarded_eq_some.mp hs
    exact (h.take p).put d (State.ptr_setPtr_none hd)
  | moveAssign d p =>
    rw [State.step] at hs
    split_ifs at hs with hdp <;> cases hs
    · exact h
    · exact h.moveAssign d hdp
  | destroy p =>
    cases hs
    rw [State.release_setPtr]
    exact h.clear p
  | construct x =>
    obtain ⟨-,rfl⟩ := guarded_eq_some.mp hs
    exact h
  | constructFrom x p =>
    obtain ⟨-,rfl⟩ := guarded_eq_some.mp hs
    exact h.store x p
  | load d x =>
    obtain ⟨hd,rfl⟩ := guarded_eq_some.mp hs
    exact h.putCopy d (h.pos_slot x) hd
  | store x p =>
    cases hs
    exact h.store x p
  | storeMove x p =>
    cases hs
    exact ((h.take p).setSlot x).release
  | swap d x p =>
    obtain ⟨hd,rfl⟩ := guarded_eq_some.mp hs
    have hset := (h.retain (h.pos_ptr p)).setSlot x
    rw [State.retain_slot, State.retain_setSlot] at hset
    exact hset.put d (by rw [State.retain_ptr]; exact hd)
  | swapMove d x p =>
    obtain ⟨hd,rfl⟩ := guarded_eq_some.mp hs
    exact ((h.take p).setSlot x).put d (State.ptr_setPtr_none hd)
  | moveConstruct x y =>
    obtain ⟨hx,rfl⟩ := guarded_eq_some.mp hs
    have hset := h.takeSlot x
    rw [hx] at hset
    rw [show s.slot y = none from hg]
    exact hset.drop
  | moveAssignSlot x y =>
    rw [State.step] at hs
    split_ifs at hs with hxy <;> cases hs
    · exact h
    · rw [hg.resolve_left hxy, State.release_setSlot]
      exact (h.takeSlot x).release
  | destroySlot x =>
    cases hs
    rw [State.release_setSlot]
    exact (h.takeSlot x).release
  | rcu x =>
    cases hs
    have hpush := (h.retain (h.pos_slot x)).pushCall x
    rw [State.retain_calls] at hpush
    exact hpush
  | argument d =>
    rw [State.step] at hs
    split at hs
    · rename_i c rest hl
      obtain ⟨hd,rfl⟩ := guarded_eq_some.mp hs
      exact h.putCopy d (h.popCall hl).pos_temp hd
    · cases hs
  | rcuReturn p d spurious =>
    rw [State.step] at hs
    split at hs
    · rename_i c rest hl
      exact rcuExchange_balanced (h.take p) hl hs
    · cases hs

omit [DecidableEq H] [DecidableEq S] in
theorem init_balanced : (init H S).Balanced [] where
  strong b := by
    have hp : tally (holds b) (init H S).ptr = 0 := tally_eq_zero.mpr fun _ => rfl
    have hs : tally (holds b) (init H S).slot = 0 := tally_eq_zero.mpr fun _ => rfl
    rw [State.holders, hp, hs]
    rfl
  alive b := (if_neg (Nat.not_lt_zero b)).symm

/-- In a run that moves no PtrSwap with a block in it, every reference is counted and every block's
data is destroyed exactly when its last reference has gone. -/
theorem guarded_run_owned (s : State H S) (h : machine.Reaches MoveGuard (init H S) s) :
    s.Owned := by
  have hbalanced : s.Balanced [] :=
    h.invariant (fun s => s.Balanced []) init_balanced fun _ _ _ hi hg hs => step_balanced hi hg hs
  exact hbalanced.owned

/-- The guard is exact: after any other move of a PtrSwap the block has a holder too many. -/
theorem unguarded_move_unowned {a : Op H S} (h : s.Balanced []) (hg : ¬MoveGuard s a)
    (hs : machine.step s a = some t) : ¬t.Owned := by
  cases a with
  | moveConstruct x y =>
    obtain ⟨hx,rfl⟩ := guarded_eq_some.mp hs
    obtain ⟨b,hb⟩ := Option.ne_none_iff_exists'.mp hg
    rw [hb]
    exact h.uncounted x hx
  | moveAssignSlot x y =>
    obtain ⟨hxy,hy⟩ := not_or.mp hg
    obtain ⟨b,hb⟩ := Option.ne_none_iff_exists'.mp hy
    change (if x = y then some s else some ((s.release (s.slot x)).setSlot x (s.slot y))) =
      some t at hs
    rw [if_neg hxy, hb] at hs
    cases hs
    have hfree := (h.takeSlot x).release
    have hx : ((s.setSlot x none).release (s.slot x)).slot x = none := by
      rw [State.release_slot]
      exact Function.update_self ..
    have hnot := hfree.uncounted (b := b) x hx
    rw [State.release_setSlot, State.setSlot_setSlot] at hnot
    rw [State.release_setSlot]
    exact hnot
  | _ => exact absurd trivial hg

end Runs

/-- A block is stored, loaded and replaced in an `rcu` call with a spurious failure; a PtrSwap
that holds null is moved onto another. -/
theorem guarded_run_owned_example :
    ∃ s : State (Fin 4) (Fin 2), machine.runGuarded MoveGuard (init (Fin 4) (Fin 2))
        [.makeShared 0,.constructFrom 0 0,.load 1 0,.rcu 0,.argument 2,.rcuReturn 2 3 true,
          .makeShared 2,.rcuReturn 2 3 false,.moveAssignSlot 0 1,.destroy 0,.destroy 1] = some s ∧
      s.strong 1 = 1 ∧ s.dtors 0 = 1 ∧ s.Owned := by
  have hrun : (machine.runGuarded MoveGuard (init (Fin 4) (Fin 2))
      [.makeShared 0,.constructFrom 0 0,.load 1 0,.rcu 0,.argument 2,.rcuReturn 2 3 true,
        .makeShared 2,.rcuReturn 2 3 false,.moveAssignSlot 0 1,.destroy 0,.destroy 1]).map
      (fun s => (s.strong 1,s.dtors 0)) = some (1,1) := by decide +kernel
  obtain ⟨s,hs,hv⟩ := Option.map_eq_some_iff.mp hrun
  obtain ⟨hstrong,hdtors⟩ := Prod.mk.inj hv
  exact ⟨s,hs,hstrong,hdtors,guarded_run_owned s (Machine.reaches_of_runGuarded hs)⟩

/-- A PtrSwap that shares its block with a handle is moved, and both PtrSwaps are destroyed: so is
the data, which the handle still refers to. -/
theorem moved_slot_destroys :
    ¬∀ s : State (Fin 1) (Fin 2), machine.Reaches (fun _ _ => True) (init (Fin 1) (Fin 2)) s →
      s.Owned := by
  intro h
  have hrun : (machine.run (init (Fin 1) (Fin 2)) [.makeShared 0,.constructFrom 0 0,
      .moveConstruct 1 0,.destroySlot 1,.destroySlot 0]).map
      (fun s => (s.strong 0,s.holders 0,s.dtors 0,s.ptr 0)) = some (0,1,1,some 0) := by
    decide +kernel
  obtain ⟨s,hs,hv⟩ := Option.map_eq_some_iff.mp hrun
  obtain ⟨hstrong,hv⟩ := Prod.mk.inj hv
  obtain ⟨hholders,-⟩ := Prod.mk.inj hv
  have hcount := (h s (Machine.reaches_of_run hs)).strong 0
  rw [hstrong, hholders] at hcount
  cases hcount

end Asp.Ownership
