import Asp.Foundation.Machine
import Mathlib.Data.Nat.Notation
import Mathlib.Logic.Function.Basic

/-! Threads that use `asp::SharedPtr`, `asp::WeakPtr` and `asp::PtrSwap`, one atomic operation at
a time. A control block is named by a number that is never reused; the address its memory has is
kept apart, since compare-exchange compares addresses and the allocator may reuse them. The
managed values contain no handles. -/
namespace Asp.Ptr
open Foundation

/-- What a thread still has to do to a control block before its current call goes on. -/
inductive Micro
  | retain (b : ℕ)        -- strong.fetch_add(1)
  | release (b : ℕ)       -- SharedPtr::release(), strong.fetch_sub(1)
  | destroyData (b : ℕ)   -- SharedPtr::destroyData(): owns the adopted weak reference, runs dtor
  | releaseWeak (b : ℕ)   -- WeakPtr::release(), weak.fetch_sub(1)
  | destroyBlock (b : ℕ)  -- WeakPtr::destroyBlock(), operator delete
  deriving DecidableEq

/-- One `rcu(f)` call: the PtrSwap and the function, seen on values (`none` for a null pointer). -/
structure Update (S V : Type*) where
  target : S
  f : Option V → Option V

/-- Where a thread is inside its current call. A pointer carried by a stage is a temporary or a
local variable of the call that owns a reference. -/
inductive Stage (H W S V : Type*)
  | idle
  | assign (d : H) (r : Option ℕ)      -- d = std::move(temporary)
  | copy (d h : H)
  | move (d h : H)
  | reset (d : H)
  | make (d : H) (v : V)
  | weaken (w : W) (h : H)
  | assignWeak (w : W) (r : Option ℕ)
  | copyWeak (w x : W)
  | moveWeak (w x : W)
  | resetWeak (w : W)
  | upgrade (d : H) (w : W)
  | upgradeLoop (d : H) (w : W) (strong : ℕ)
  | load (d : H) (x : S)
  | exchange (x : S) (h : H) (d : Option H)
  | exchangeMove (x : S) (h : H) (d : Option H)
  | rcuLoad (u : Update S V) (d : H) (oldPtr newPtr : Option ℕ)
  | rcuApply (u : Update S V) (d : H) (oldPtr : Option ℕ)
  | rcuExchange (u : Update S V) (d : H) (oldPtr newPtr : Option ℕ)
  | rcuReturn (u : Update S V) (d : H) (newPtr : Option ℕ)

def Stage.isIdle {H W S V : Type*} : Stage H W S V → Bool
  | .idle => true
  | _ => false

/-- The public calls; `d` receives the result. -/
inductive Op (H W S V : Type*)
  | makeShared (d : H) (v : V)
  | copy (d h : H)
  | move (d h : H)
  | reset (d : H)                       -- also the destructor
  | weakOf (w : W) (h : H)
  | copyWeak (w x : W)
  | moveWeak (w x : W)
  | resetWeak (w : W)
  | upgrade (d : H) (w : W)
  | load (d : H) (x : S)
  | store (x : S) (h : H)
  | storeMove (x : S) (h : H)
  | swap (d : H) (x : S) (h : H)
  | swapMove (d : H) (x : S) (h : H)
  | rcu (d : H) (u : Update S V)

def Op.entry {H W S V : Type*} : Op H W S V → Stage H W S V
  | .makeShared d v => .make d v
  | .copy d h => .copy d h
  | .move d h => .move d h
  | .reset d => .reset d
  | .weakOf w h => .weaken w h
  | .copyWeak w x => .copyWeak w x
  | .moveWeak w x => .moveWeak w x
  | .resetWeak w => .resetWeak w
  | .upgrade d w => .upgrade d w
  | .load d x => .load d x
  | .store x h => .exchange x h none
  | .storeMove x h => .exchangeMove x h none
  | .swap d x h => .exchange x h (some d)
  | .swapMove d x h => .exchangeMove x h (some d)
  | .rcu d u => .rcuLoad u d none none

/-- The `rcu` call that an operation makes. -/
def Op.update? {H W S V : Type*} : Op H W S V → Option (Update S V)
  | .rcu _ u => some u
  | _ => none

/-- What the environment decides in a step: the address of new memory, a spurious failure of
compare_exchange_weak, the pointer that the function given to rcu returns. -/
inductive Choice (H V : Type*)
  | go
  | spurious
  | alloc (a : ℕ)
  | null
  | fresh (v : V) (a : ℕ)
  | share (h : H)                       -- a copy of a handle of the thread
  | same                                -- a copy of the argument

structure State (T H W S V : Type*) where
  next : ℕ
  addr : ℕ → ℕ
  val : ℕ → Option V
  strong : ℕ → ℕ
  weak : ℕ → ℕ
  dtors : ℕ → ℕ                         -- runs of the data destructor
  frees : ℕ → ℕ                         -- deallocations
  slot : S → Option ℕ
  ptr : T × H → Option ℕ
  wptr : T × W → Option ℕ
  todo : T → List Micro
  stage : T → Stage H W S V
  fault : Bool                          -- a block was touched after its deallocation
  called : T → List (Update S V)
  installed : List (T × Update S V × Option ℕ)
  returned : T → List (Update S V × Option ℕ)

inductive Action (T H W S V : Type*)
  | start (t : T) (op : Op H W S V)
  | step (t : T) (c : Choice H V)
  | handOver (t : T) (h : H) (t' : T) (h' : H)
  | handOverWeak (t : T) (w : W) (t' : T) (w' : W)

variable {T H W S V : Type*} [DecidableEq T] [DecidableEq H] [DecidableEq W] [DecidableEq S]

/-- Nothing has been allocated and all handles are null. -/
def init (T H W S V : Type*) : State T H W S V where
  next := 0
  addr := fun _ => 0
  val := fun _ => none
  strong := fun _ => 0
  weak := fun _ => 0
  dtors := fun _ => 0
  frees := fun _ => 0
  slot := fun _ => none
  ptr := fun _ => none
  wptr := fun _ => none
  todo := fun _ => []
  stage := fun _ => .idle
  fault := false
  called := fun _ => []
  installed := []
  returned := fun _ => []

namespace State

def Idle (s : State T H W S V) (t : T) : Prop := s.todo t = [] ∧ (s.stage t).isIdle = true

instance (s : State T H W S V) (t : T) : Decidable (s.Idle t) := inferInstanceAs (Decidable (_ ∧ _))

@[simp] def setTodo (s : State T H W S V) (t : T) (l : List Micro) : State T H W S V :=
  { s with todo := Function.update s.todo t l }

@[simp] def setStage (s : State T H W S V) (t : T) (g : Stage H W S V) : State T H W S V :=
  { s with stage := Function.update s.stage t g }

@[simp] def setPtr (s : State T H W S V) (t : T) (h : H) (r : Option ℕ) : State T H W S V :=
  { s with ptr := Function.update s.ptr (t,h) r }

@[simp] def setWptr (s : State T H W S V) (t : T) (w : W) (r : Option ℕ) : State T H W S V :=
  { s with wptr := Function.update s.wptr (t,w) r }

@[simp] def setSlot (s : State T H W S V) (x : S) (r : Option ℕ) : State T H W S V :=
  { s with slot := Function.update s.slot x r }

/-- An access to the memory of block `b`. -/
@[simp] def touch (s : State T H W S V) (b : ℕ) : State T H W S V :=
  { s with fault := s.fault || decide (0 < s.frees b) }

@[simp] def addStrong (s : State T H W S V) (b : ℕ) : State T H W S V :=
  { s.touch b with strong := Function.update s.strong b (s.strong b + 1) }

@[simp] def subStrong (s : State T H W S V) (b : ℕ) : State T H W S V :=
  { s.touch b with strong := Function.update s.strong b (s.strong b - 1) }

@[simp] def addWeak (s : State T H W S V) (b : ℕ) : State T H W S V :=
  { s.touch b with weak := Function.update s.weak b (s.weak b + 1) }

@[simp] def subWeak (s : State T H W S V) (b : ℕ) : State T H W S V :=
  { s.touch b with weak := Function.update s.weak b (s.weak b - 1) }

@[simp] def runDtor (s : State T H W S V) (b : ℕ) : State T H W S V :=
  { s.touch b with dtors := Function.update s.dtors b (s.dtors b + 1) }

@[simp] def deallocate (s : State T H W S V) (b : ℕ) : State T H W S V :=
  { s.touch b with frees := Function.update s.frees b (s.frees b + 1) }

/-- The allocator hands out memory that no allocated block occupies. -/
def Unoccupied (s : State T H W S V) (a : ℕ) : Prop :=
  ∀ b < s.next, s.frees b = 0 → s.addr b ≠ a

instance (s : State T H W S V) (a : ℕ) : Decidable (s.Unoccupied a) :=
  inferInstanceAs (Decidable (∀ b < s.next, _))

/-- SharedPtrBlock::create: both counters start at 1. -/
def create (s : State T H W S V) (a : ℕ) (v : V) : State T H W S V :=
  { s with
    next := s.next + 1
    addr := Function.update s.addr s.next a
    val := Function.update s.val s.next (some v)
    strong := Function.update s.strong s.next 1
    weak := Function.update s.weak s.next 1 }

/-- The atomic operation at the head of a thread's list; `rest` is the remaining list. -/
def micro (s : State T H W S V) (t : T) (rest : List Micro) : Micro → State T H W S V
  | .retain b => (s.addStrong b).setTodo t rest
  | .release b =>
    (s.subStrong b).setTodo t (if s.strong b = 1 then .destroyData b :: rest else rest)
  | .destroyData b => (s.runDtor b).setTodo t (.releaseWeak b :: rest)
  | .releaseWeak b =>
    (s.subWeak b).setTodo t (if s.weak b = 1 then .destroyBlock b :: rest else rest)
  | .destroyBlock b => (s.deallocate b).setTodo t rest

/-- release() on a handle that is about to be overwritten; nobody reads it in between. -/
@[simp] def vacate (s : State T H W S V) (t : T) (h : H) (b : ℕ) : State T H W S V :=
  (s.setPtr t h none).setTodo t [.release b]

@[simp] def vacateWeak (s : State T H W S V) (t : T) (w : W) (b : ℕ) : State T H W S V :=
  (s.setWptr t w none).setTodo t [.releaseWeak b]

@[simp] def finish (s : State T H W S V) (t : T) : State T H W S V := s.setStage t .idle

/-- SharedPtr(block): increments unless null. -/
def share (s : State T H W S V) (r : Option ℕ) : State T H W S V := r.elim s s.addStrong

/-- The pointer that the function given to rcu returns. -/
def invoke (s : State T H W S V) (t : T) (oldPtr : Option ℕ) :
    Choice H V → Option (State T H W S V × Option ℕ)
  | .null => some (s,none)
  | .fresh v a => guarded (s.Unoccupied a) (s.create a v,some s.next)
  | .share h => some (s.share (s.ptr (t,h)),s.ptr (t,h))
  | .same => some (s.share oldPtr,oldPtr)
  | _ => none

def retains (r : Option ℕ) : List Micro := r.toList.map .retain

def releases (r : Option ℕ) : List Micro := r.toList.map .release

/-- Where a call to swap goes with the pointer it took out. -/
def swapped (s : State T H W S V) (t : T) (new old : Option ℕ) : Option H → State T H W S V
  | some d => (s.setTodo t (retains new)).setStage t (.assign d old)
  | none => (s.setTodo t (retains new ++ releases old)).setStage t .idle

/-- One step of a call whose pending atomic operations are done. -/
def advance (s : State T H W S V) (t : T) (c : Choice H V) :
    Stage H W S V → Option (State T H W S V)
  | .idle => none
  | .assign d r => match s.ptr (t,d) with
    | some b => some (s.vacate t d b)
    | none => some ((s.setPtr t d r).finish t)
  | .copy d h => if d = h then some (s.finish t) else match s.ptr (t,d) with
    | some b => some (s.vacate t d b)
    | none => some (((s.share (s.ptr (t,h))).setPtr t d (s.ptr (t,h))).finish t)
  | .move d h => if d = h then some (s.finish t) else match s.ptr (t,d) with
    | some b => some (s.vacate t d b)
    | none => some (((s.setPtr t d (s.ptr (t,h))).setPtr t h none).finish t)
  | .reset d => match s.ptr (t,d) with
    | some b => some (s.vacate t d b)
    | none => some (s.finish t)
  | .make d v => match c with
    | .alloc a => guarded (s.Unoccupied a) ((s.create a v).setStage t (.assign d (some s.next)))
    | _ => none
  | .weaken w h =>
    some (((s.ptr (t,h)).elim s s.addWeak).setStage t (.assignWeak w (s.ptr (t,h))))
  | .assignWeak w r => match s.wptr (t,w) with
    | some b => some (s.vacateWeak t w b)
    | none => some ((s.setWptr t w r).finish t)
  | .copyWeak w x => if w = x then some (s.finish t) else match s.wptr (t,w) with
    | some b => some (s.vacateWeak t w b)
    | none => some (((((s.wptr (t,x)).elim s s.addWeak).setWptr t w (s.wptr (t,x)))).finish t)
  | .moveWeak w x => if w = x then some (s.finish t) else match s.wptr (t,w) with
    | some b => some (s.vacateWeak t w b)
    | none => some (((s.setWptr t w (s.wptr (t,x))).setWptr t x none).finish t)
  | .resetWeak w => match s.wptr (t,w) with
    | some b => some (s.vacateWeak t w b)
    | none => some (s.finish t)
  | .upgrade d w => match s.wptr (t,w) with
    | none => some (s.setStage t (.assign d none))
    | some b => some ((s.touch b).setStage t
        (if s.strong b = 0 then .assign d none else .upgradeLoop d w (s.strong b)))
  | .upgradeLoop d w strong => match s.wptr (t,w) with
    -- a null m_block cannot get here; dereferencing it would be a fault
    | none => some { s with fault := true }
    | some b => match c, decide (s.strong b = strong) with
      | .go, true => some ((s.addStrong b).setStage t (.assign d (some b)))
      | _, _ => some ((s.touch b).setStage t
          (if s.strong b = 0 then .assign d none else .upgradeLoop d w (s.strong b)))
  | .load d x => some ((s.setTodo t (retains (s.slot x))).setStage t (.assign d (s.slot x)))
  | .exchange x h d =>
    some ((s.setSlot x (s.ptr (t,h))).swapped t (s.ptr (t,h)) (s.slot x) d)
  | .exchangeMove x h d =>
    some (((s.setSlot x (s.ptr (t,h))).setPtr t h none).swapped t none (s.slot x) d)
  | .rcuLoad u d oldPtr newPtr =>
    -- oldPtr = this->load(); the previous oldPtr and newPtr are destroyed
    some ((s.setTodo t (retains (s.slot u.target) ++ releases oldPtr ++ releases newPtr)).setStage t
      (.rcuApply u d (s.slot u.target)))
  | .rcuApply u d oldPtr =>
    (s.invoke t oldPtr c).map fun r => r.1.setStage t (.rcuExchange u d oldPtr r.2)
  | .rcuExchange u d oldPtr newPtr =>
    match c, decide ((s.slot u.target).map s.addr = oldPtr.map s.addr) with
    | .go, true =>
      -- oldPtr is released twice: for the load and for the swap
      some { ((s.setSlot u.target newPtr).setTodo t
          (retains newPtr ++ releases oldPtr ++ releases oldPtr)).setStage t
          (.rcuReturn u d newPtr) with installed := s.installed ++ [(t,u,newPtr)] }
    | _, _ => some (s.setStage t (.rcuLoad u d oldPtr newPtr))
  | .rcuReturn u d newPtr => match s.ptr (t,d) with
    | some b => some (s.vacate t d b)
    | none => some { (s.setPtr t d newPtr).finish t with
        returned := Function.update s.returned t (s.returned t ++ [(u,newPtr)]) }

def step (s : State T H W S V) : Action T H W S V → Option (State T H W S V)
  | .start t op => guarded (s.Idle t)
      { s.setStage t op.entry with
        called := Function.update s.called t (s.called t ++ op.update?.toList) }
  | .step t c => match s.todo t with
    | m :: rest => some (s.micro t rest m)
    | [] => s.advance t c (s.stage t)
  | .handOver t h t' h' => guarded (s.Idle t ∧ s.Idle t' ∧ s.ptr (t',h') = none)
      ((s.setPtr t' h' (s.ptr (t,h))).setPtr t h none)
  | .handOverWeak t w t' w' => guarded (s.Idle t ∧ s.Idle t' ∧ s.wptr (t',w') = none)
      ((s.setWptr t' w' (s.wptr (t,w))).setWptr t w none)

end State

def machine : Machine (State T H W S V) (Action T H W S V) where
  step := State.step

end Asp.Ptr
