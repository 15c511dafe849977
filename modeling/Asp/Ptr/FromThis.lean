import Asp.Ptr.Ledger
import Mathlib.Tactic.Ring

/-! Threads that use `EnableSharedFromThis`, one atomic operation at a time. The objects have a
weak reference to their own block, which goes with them. A constructor may throw, and what a
constructor or a destructor runs is any calls. A variable that holds null may also be one that is
not constructed. `reset()` first releases the block, which may run a destructor, and then stores
null. -/
namespace Asp.Ptr.FromThis
open Foundation

/-- An object of the class: the data of a control block, or one that is not in a block. -/
inductive Object (O : Type*)
  | inBlock (b : ℕ)
  | outside (o : O)
  deriving DecidableEq

/-- The WeakPtr that `upgrade()` is called on. -/
inductive Source (W O : Type*)
  | handle (w : W)
  | m_weak (o : Object O)
  deriving DecidableEq

/-- What a thread is in the middle of; the frame on top runs. -/
inductive Frame (H W O : Type*)
  | construct (d : H) (b : ℕ)           -- make_shared(): the constructor of the object runs
  | upgrade (d : H) (x : Source W O)
  | upgradeLoop (d : H) (x : Source W O) (strong : ℕ)
  | release (b : ℕ)                     -- SharedPtr::release(), strong.fetch_sub(1)
  | null (h : H)                        -- reset() stores nullptr
  | destroyData (b : ℕ)
  | destructor (b : ℕ)                  -- the same after it has adopted a weak reference
  | releaseWeak (b : ℕ)                 -- WeakPtr::release(), weak.fetch_sub(1)
  | destroyBlock (b : ℕ)

inductive Life
  | unborn
  | constructing
  | alive
  | destroyed
  | discarded                           -- the constructor has thrown
  deriving DecidableEq

/-- `ptr` is the block that a SharedPtr has a reference to, `leaving` the one that a SharedPtr which
is being reset has given up, and still points to. -/
structure State (T H W O : Type*) where
  next : ℕ
  life : ℕ → Life
  strong : ℕ → ℕ
  weak : ℕ → ℕ
  dtors : ℕ → ℕ
  frees : ℕ → ℕ
  m_weak : Object O → Option ℕ
  ptr : H → Option ℕ
  leaving : H → Option ℕ
  wptr : W → Option ℕ
  stack : T → List (Frame H W O)
  fault : Bool                          -- memory was used that is not there

/-- The calls, also those that constructors and destructors make; `d` and `w` are constructed. -/
inductive Call (H W O : Type*)
  | makeShared (d : H)
  | copy (d h : H)
  | reset (h : H)                       -- also the destructor
  | weaken (w : W) (h : H)
  | copyWeak (w x : W)
  | resetWeak (w : W)
  | upgrade (d : H) (w : W)
  | sharedFromThis (d : H) (o : Object O)
  | weakFromThis (w : W) (o : Object O)
  | copyConstruct (o : O) (p : Object O)
  | copyAssign (o p : Object O)

inductive Action (T H W O : Type*)
  | call (t : T) (c : Call H W O)
  | step (t : T) (spurious : Bool)      -- a constructor or a destructor on top returns
  | throw (t : T)                       -- the constructor on top throws

def init (T H W O : Type*) : State T H W O where
  next := 0
  life := fun _ => .unborn
  strong := fun _ => 0
  weak := fun _ => 0
  dtors := fun _ => 0
  frees := fun _ => 0
  m_weak := fun _ => none
  ptr := fun _ => none
  leaving := fun _ => none
  wptr := fun _ => none
  stack := fun _ => []
  fault := false

/-- The frame on top lets its thread make calls. -/
def callable {H W O : Type*} : List (Frame H W O) → Bool
  | [] | .construct .. :: _ | .destructor .. :: _ => true
  | _ => false

namespace State
variable {T H W O : Type*}

/-- An access to the memory of block `b`. -/
def touch (s : State T H W O) (b : ℕ) : State T H W O :=
  { s with fault := s.fault || decide (0 < s.frees b ∨ s.life b = .discarded) }

/-- The object is being constructed, or its destructor has not ended. -/
def Exists (s : State T H W O) : Object O → Prop
  | .inBlock b => s.life b = .constructing ∨ s.life b = .alive
  | .outside _ => True

instance (s : State T H W O) : ∀ o, Decidable (s.Exists o)
  | .inBlock _ => inferInstanceAs (Decidable (_ ∨ _))
  | .outside _ => .isTrue trivial

/-- An access to the object. -/
def use (s : State T H W O) : Object O → State T H W O
  | .inBlock b => { s.touch b with
      fault := (s.touch b).fault || decide ¬(s.life b = .constructing ∨ s.life b = .alive) }
  | .outside _ => s

/-- The access of `upgrade()` to the WeakPtr. -/
def enter (s : State T H W O) : Source W O → State T H W O
  | .handle _ => s
  | .m_weak o => s.use o

def m_block (s : State T H W O) : Source W O → Option ℕ
  | .handle w => s.wptr w
  | .m_weak o => s.m_weak o

/-- The pointer in a SharedPtr. -/
def get (s : State T H W O) (h : H) : Option ℕ := (s.ptr h).or (s.leaving h)

/-- A SharedPtr that can be constructed. -/
def Free (s : State T H W O) (d : H) : Prop := s.ptr d = none ∧ s.leaving d = none

instance (s : State T H W O) (d : H) : Decidable (s.Free d) :=
  inferInstanceAs (Decidable (_ ∧ _))

def addStrong (s : State T H W O) (b : ℕ) : State T H W O :=
  { s.touch b with strong := Function.update s.strong b (s.strong b + 1) }

def subStrong (s : State T H W O) (b : ℕ) : State T H W O :=
  { s.touch b with strong := Function.update s.strong b (s.strong b - 1) }

def addWeak (s : State T H W O) (b : ℕ) : State T H W O :=
  { s.touch b with weak := Function.update s.weak b (s.weak b + 1) }

def subWeak (s : State T H W O) (b : ℕ) : State T H W O :=
  { s.touch b with weak := Function.update s.weak b (s.weak b - 1) }

def setLife (s : State T H W O) (b : ℕ) (l : Life) : State T H W O :=
  { s with life := Function.update s.life b l }

section Writes
variable [DecidableEq T] [DecidableEq H] [DecidableEq W] [DecidableEq O]

def setStack (s : State T H W O) (t : T) (l : List (Frame H W O)) : State T H W O :=
  { s with stack := Function.update s.stack t l }

def push (s : State T H W O) (t : T) (f : Frame H W O) : State T H W O :=
  s.setStack t (f :: s.stack t)

def setPtr (s : State T H W O) (h : H) (r : Option ℕ) : State T H W O :=
  { s with ptr := Function.update s.ptr h r }

def setLeaving (s : State T H W O) (h : H) (r : Option ℕ) : State T H W O :=
  { s with leaving := Function.update s.leaving h r }

def setWptr (s : State T H W O) (w : W) (r : Option ℕ) : State T H W O :=
  { s with wptr := Function.update s.wptr w r }

def setSelf (s : State T H W O) (o : Object O) (r : Option ℕ) : State T H W O :=
  { s with m_weak := Function.update s.m_weak o r }

/-- A new WeakPtr to the block of `r`. -/
def weaken (s : State T H W O) (w : W) (r : Option ℕ) : State T H W O :=
  (r.elim s s.addWeak).setWptr w r

/-- `operator new`; the EnableSharedFromThis of the object starts with a null `m_weak`. -/
def allocate (s : State T H W O) : State T H W O :=
  { (s.setLife s.next .constructing).setSelf (.inBlock s.next) none with next := s.next + 1 }

def call (s : State T H W O) (t : T) : Call H W O → Option (State T H W O)
  | .makeShared d => some (s.allocate.push t (.construct d s.next))
  | .copy d h => guarded (s.Free d) (((s.get h).elim s s.addStrong).setPtr d (s.get h))
  | .reset h => match s.get h with
    | some b => some (((s.setPtr h none).setLeaving h (some b)).setStack t
        (.release b :: .null h :: s.stack t))
    | none => some s
  | .weaken w h => guarded (s.wptr w = none) (s.weaken w (s.get h))
  | .copyWeak w x => guarded (s.wptr w = none) (s.weaken w (s.wptr x))
  | .resetWeak w => match s.wptr w with
    | some b => some ((s.setWptr w none).push t (.releaseWeak b))
    | none => some s
  | .upgrade d w => some (s.push t (.upgrade d (.handle w)))
  | .sharedFromThis d o => some (s.push t (.upgrade d (.m_weak o)))
  | .weakFromThis w o => guarded (s.wptr w = none) ((s.use o).weaken w (s.m_weak o))
  -- EnableSharedFromThis copies nothing
  | .copyConstruct o _ => some (s.setSelf (.outside o) none)
  | .copyAssign _ _ => some s

/-- The constructor has returned: `create` has stored 1 in both counters, before it ran, and
`_initSharedFromThis` assigns to the null `m_weak`. -/
def publish (s : State T H W O) (b : ℕ) : State T H W O :=
  (({ s.setLife b .alive with
    strong := Function.update s.strong b 1, weak := Function.update s.weak b 1 }).addWeak b).setSelf
    (.inBlock b) (some b)

/-- `upgrade()` with the value of the strong counter it has read. -/
def reread (s : State T H W O) (t : T) (d : H) (x : Source W O) (rest : List (Frame H W O))
    (strong : ℕ) : State T H W O :=
  s.setStack t (if strong = 0 then rest else .upgradeLoop d x strong :: rest)

/-- The step of the frame on top of the others. -/
def run (s : State T H W O) (t : T) (spurious : Bool) (rest : List (Frame H W O)) :
    Frame H W O → Option (State T H W O)
  | .construct d b => guarded (s.Free d) (((s.publish b).setPtr d (some b)).setStack t rest)
  | .upgrade d x => match s.m_block x with
    | none => some ((s.enter x).setStack t rest)
    | some b => some (((s.enter x).touch b).reread t d x rest (s.strong b))
  | .upgradeLoop d x strong => match s.m_block x with
    -- a null m_block cannot get here
    | none => some { s with fault := true }
    | some b =>
      if spurious = false ∧ s.strong b = strong then
        guarded (s.Free d) ((((s.enter x).addStrong b).setPtr d (some b)).setStack t rest)
      else some (((s.enter x).touch b).reread t d x rest (s.strong b))
  | .release b =>
    some ((s.subStrong b).setStack t (if s.strong b = 1 then .destroyData b :: rest else rest))
  | .null h => some ((s.setLeaving h none).setStack t rest)
  | .destroyData b =>
    some ({ s.touch b with dtors := Function.update s.dtors b (s.dtors b + 1) }.setStack t
      (.destructor b :: rest))
  | .destructor b =>
    -- the members of the object go, then the adopted weak reference
    some ((((s.use (.inBlock b)).setLife b .destroyed).setSelf (.inBlock b) none).setStack t
      ((s.m_weak (.inBlock b)).toList.map .releaseWeak ++ .releaseWeak b :: rest))
  | .releaseWeak b =>
    some ((s.subWeak b).setStack t (if s.weak b = 1 then .destroyBlock b :: rest else rest))
  | .destroyBlock b =>
    some ({ s.touch b with frees := Function.update s.frees b (s.frees b + 1) }.setStack t rest)

def step (s : State T H W O) : Action T H W O → Option (State T H W O)
  | .call t c => if callable (s.stack t) then s.call t c else none
  | .step t spurious => match s.stack t with
    | [] => none
    | f :: rest => s.run t spurious rest f
  | .throw t => match s.stack t with
    -- the memory goes with the unique_ptr
    | .construct _ b :: rest => some ((s.setLife b .discarded).setStack t rest)
    | _ => none

end Writes
end State

section Machine
variable {T H W O : Type*} [DecidableEq T] [DecidableEq H] [DecidableEq W] [DecidableEq O]

def machine : Machine (State T H W O) (Action T H W O) where
  step := State.step

end Machine

/-- The WeakPtr that a call in progress reads. -/
def Frame.reads {H W O : Type*} : Frame H W O → Option (Source W O)
  | .upgrade _ x | .upgradeLoop _ x _ => some x
  | _ => none

namespace State
variable {T H W O : Type*}

/-- No call in progress reads it. -/
def Unread (s : State T H W O) (x : Source W O) : Prop :=
  ∀ t, ∀ f ∈ s.stack t, f.reads ≠ some x

instance [Fintype T] [DecidableEq W] [DecidableEq O] (s : State T H W O) (x : Source W O) :
    Decidable (s.Unread x) :=
  inferInstanceAs (Decidable (∀ t, ∀ f ∈ s.stack t, f.reads ≠ some x))

/-- No object goes in the middle of a call on it if the destructor on top returns. -/
def ReturnSafe (s : State T H W O) : List (Frame H W O) → Prop
  | .destructor b :: _ => s.Unread (.m_weak (.inBlock b))
  | _ => True

/-- The same if the constructor on top throws. -/
def ThrowSafe (s : State T H W O) : List (Frame H W O) → Prop
  | .construct _ b :: _ => s.Unread (.m_weak (.inBlock b))
  | _ => True

/-- What callers promise: member functions are called on objects that exist, neither an object nor
a WeakPtr goes while a call on it is in progress, and no SharedPtr is used while it is being
reset. -/
def Allowed (s : State T H W O) : Action T H W O → Prop
  | .call _ (.sharedFromThis _ o) | .call _ (.weakFromThis _ o) => s.Exists o
  | .call _ (.resetWeak w) => s.Unread (.handle w)
  | .call _ (.copy _ h) | .call _ (.reset h) | .call _ (.weaken _ h) => s.leaving h = none
  | .step t _ => s.ReturnSafe (s.stack t)
  | .throw t => s.ThrowSafe (s.stack t)
  | _ => True

section Decide
variable [Fintype T] [DecidableEq W] [DecidableEq O] (s : State T H W O)

instance : ∀ l, Decidable (s.ReturnSafe l)
  | .destructor b :: _ => inferInstanceAs (Decidable (s.Unread (.m_weak (.inBlock b))))
  | [] | .construct .. :: _ | .upgrade .. :: _ | .upgradeLoop .. :: _ | .release _ :: _
  | .null _ :: _ | .destroyData _ :: _ | .releaseWeak _ :: _ | .destroyBlock _ :: _ => .isTrue trivial

instance : ∀ l, Decidable (s.ThrowSafe l)
  | .construct _ b :: _ => inferInstanceAs (Decidable (s.Unread (.m_weak (.inBlock b))))
  | [] | .destructor .. :: _ | .upgrade .. :: _ | .upgradeLoop .. :: _ | .release _ :: _
  | .null _ :: _ | .destroyData _ :: _ | .releaseWeak _ :: _ | .destroyBlock _ :: _ => .isTrue trivial

instance : ∀ a, Decidable (s.Allowed a)
  | .call _ (.sharedFromThis _ o) | .call _ (.weakFromThis _ o) =>
    inferInstanceAs (Decidable (s.Exists o))
  | .call _ (.resetWeak w) => inferInstanceAs (Decidable (s.Unread (.handle w)))
  | .call _ (.copy _ h) | .call _ (.reset h) | .call _ (.weaken _ h) =>
    inferInstanceAs (Decidable (s.leaving h = none))
  | .step t _ => inferInstanceAs (Decidable (s.ReturnSafe (s.stack t)))
  | .throw t => inferInstanceAs (Decidable (s.ThrowSafe (s.stack t)))
  | .call _ (.makeShared _) | .call _ (.copyWeak ..) | .call _ (.upgrade ..)
  | .call _ (.copyConstruct ..) | .call _ (.copyAssign ..) => .isTrue trivial

end Decide
end State

def Frame.refs {H W O : Type*} (b : ℕ) : Frame H W O → ℕ
  | .release c => if c = b then 1 else 0
  | _ => 0

/-- The adopted weak reference is a local variable while the destructor runs. -/
def Frame.wrefs {H W O : Type*} (b : ℕ) : Frame H W O → ℕ
  | .destructor c | .releaseWeak c => if c = b then 1 else 0
  | _ => 0

def Frame.dying {H W O : Type*} (b : ℕ) : Frame H W O → ℕ
  | .destroyData c => if c = b then 1 else 0
  | _ => 0

def Frame.freeing {H W O : Type*} (b : ℕ) : Frame H W O → ℕ
  | .destroyBlock c => if c = b then 1 else 0
  | _ => 0

def Frame.constructing {H W O : Type*} (b : ℕ) : Frame H W O → ℕ
  | .construct _ c => if c = b then 1 else 0
  | _ => 0

def Frame.destructing {H W O : Type*} (b : ℕ) : Frame H W O → ℕ
  | .destructor c => if c = b then 1 else 0
  | _ => 0

/-- The weight of a stack. -/
def weigh {H W O : Type*} (w : Frame H W O → ℕ) (l : List (Frame H W O)) : ℕ := (l.map w).sum

section
variable {H W O : Type*} (w : Frame H W O → ℕ)

@[simp] lemma weigh_nil : weigh w [] = 0 := rfl

@[simp] lemma weigh_cons (f : Frame H W O) (l : List (Frame H W O)) :
    weigh w (f :: l) = w f + weigh w l := List.sum_cons

lemma weigh_append (l l' : List (Frame H W O)) : weigh w (l ++ l') = weigh w l + weigh w l' := by
  rw [weigh, List.map_append, List.sum_append]
  rfl

end

namespace State
variable {T H W O : Type*} [Fintype T]

def frames (s : State T H W O) (w : Frame H W O → ℕ) : ℕ := tally (weigh w) s.stack

def account [Fintype H] [Fintype W] (s : State T H W O) (b : ℕ) : RefCount where
  born := if s.life b = .alive ∨ s.life b = .destroyed then 1 else 0
  strong := s.strong b
  weak := s.weak b
  dtors := s.dtors b
  frees := s.frees b
  refs := tally (one b) s.ptr + s.frames (Frame.refs b)
  owes := 0
  wrefs := tally (one b) s.wptr + one b (s.m_weak (.inBlock b)) + s.frames (Frame.wrefs b)
  dying := s.frames (Frame.dying b)
  freeing := s.frames (Frame.freeing b)

section Books
variable {s : State T H W O} {t : T} {b : ℕ}

lemma frames_pos {w : Frame H W O → ℕ} {f : Frame H W O} (hf : f ∈ s.stack t) (hw : 0 < w f) :
    0 < s.frames w :=
  tally_pos_iff.mpr
    ⟨t,hw.trans_le (List.single_le_sum (fun _ _ => Nat.zero_le _) _ (List.mem_map_of_mem hf))⟩

variable [Fintype H] [Fintype W]

lemma refs_pos_of_ptr {h : H} (hp : s.ptr h = some b) : 0 < (s.account b).refs :=
  Nat.add_pos_left (Ptr.State.tally_one_pos hp) _

lemma wrefs_pos_of_wptr {w : W} (hw : s.wptr w = some b) : 0 < (s.account b).wrefs :=
  Nat.add_pos_left (Nat.add_pos_left (Ptr.State.tally_one_pos hw) _) _

end Books

section Ledger
variable {s : State T H W O} {t : T} {b c : ℕ} {rest : List (Frame H W O)}

attribute [local grind =] one weigh_cons weigh_nil Frame.refs Frame.wrefs Frame.dying Frame.freeing

/-- Frames that own nothing come and go. -/
lemma setStack_account [DecidableEq T] [Fintype H] [Fintype W] {l : List (Frame H W O)}
    (hr : ∀ b, weigh (Frame.refs b) l = weigh (Frame.refs b) (s.stack t))
    (hw : ∀ b, weigh (Frame.wrefs b) l = weigh (Frame.wrefs b) (s.stack t))
    (hd : ∀ b, weigh (Frame.dying b) l = weigh (Frame.dying b) (s.stack t))
    (hf : ∀ b, weigh (Frame.freeing b) l = weigh (Frame.freeing b) (s.stack t)) (b : ℕ) :
    (s.setStack t l).account b = s.account b := by
  ext <;> simp [account, frames, setStack] <;> grind

lemma copy_account [DecidableEq H] [Fintype H] [Fintype W] {d : H} {r : Option ℕ}
    (hr : ∀ c, r = some c → 0 < (s.account c).refs) (hd : s.ptr d = none) :
    ∀ b, RefCount.Step (s.account b) (((r.elim s s.addStrong).setPtr d r).account b) := by
  refine Ptr.State.retain_step (r := r) hr fun b => ?_
  cases r <;> ext <;> simp [account, frames, setPtr, addStrong, touch] <;> grind

lemma weaken_account [DecidableEq W] [Fintype H] [Fintype W] {w : W} {r : Option ℕ}
    (hr : ∀ c, r = some c → 0 < (s.account c).wrefs ∨ 0 < (s.account c).refs)
    (hw : s.wptr w = none) :
    ∀ b, RefCount.Step (s.account b) ((s.weaken w r).account b) := by
  refine Ptr.State.retainWeak_step (r := r) hr fun b => ?_
  cases r <;> ext <;> simp [account, frames, weaken, setWptr, addWeak, touch] <;> grind

variable [DecidableEq T] [Fintype H] [Fintype W]

lemma reset_account [DecidableEq H] {h : H} (hp : s.ptr h = some c) (b : ℕ) :
    (((s.setPtr h none).setLeaving h (some c)).setStack t
      (.release c :: .null h :: s.stack t)).account b = s.account b := by
  ext <;> simp [account, frames, setPtr, setLeaving, setStack] <;> grind

lemma resetWeak_account [DecidableEq W] {w : W} (hw : s.wptr w = some c) (b : ℕ) :
    ((s.setWptr w none).push t (.releaseWeak c)).account b = s.account b := by
  ext <;> simp [account, frames, setWptr, push, setStack] <;> grind

lemma release_account (ht : s.stack t = .release c :: rest) : ∀ b, RefCount.Step (s.account b)
    (((s.subStrong c).setStack t
      (if s.strong c = 1 then .destroyData c :: rest else rest)).account b) := by
  have hr : 0 < (s.account c).refs :=
    Nat.add_pos_right _ (frames_pos (t := t) (f := .release c) (by simp [ht]) (by simp [Frame.refs]))
  refine Ptr.State.step_at c ?_ fun b hb => ?_
  · by_cases h1 : s.strong c = 1
    · have he : ((s.subStrong c).setStack t
          (if s.strong c = 1 then .destroyData c :: rest else rest)).account c =
          { s.account c with
            strong := 0
            refs := (s.account c).refs - 1
            dying := (s.account c).dying + 1 } := by
        ext <;> simp [account, frames, setStack, subStrong, touch, h1] <;> grind
      exact he ▸ .releaseLast hr h1
    · have he : ((s.subStrong c).setStack t
          (if s.strong c = 1 then .destroyData c :: rest else rest)).account c =
          { s.account c with strong := s.strong c - 1, refs := (s.account c).refs - 1 } := by
        ext <;> simp [account, frames, setStack, subStrong, touch, h1] <;> grind
      exact he ▸ .release hr h1
  · ext <;> simp [account, frames, setStack, subStrong, touch] <;> grind

lemma releaseWeak_account (ht : s.stack t = .releaseWeak c :: rest) :
    ∀ b, RefCount.Step (s.account b) (((s.subWeak c).setStack t
      (if s.weak c = 1 then .destroyBlock c :: rest else rest)).account b) := by
  have hr : 0 < (s.account c).wrefs := Nat.add_pos_right _
    (frames_pos (t := t) (f := .releaseWeak c) (by simp [ht]) (by simp [Frame.wrefs]))
  refine Ptr.State.step_at c ?_ fun b hb => ?_
  · by_cases h1 : s.weak c = 1
    · have he : ((s.subWeak c).setStack t
          (if s.weak c = 1 then .destroyBlock c :: rest else rest)).account c =
          { s.account c with
            weak := 0
            wrefs := (s.account c).wrefs - 1
            freeing := (s.account c).freeing + 1 } := by
        ext <;> simp [account, frames, setStack, subWeak, touch, h1] <;> grind
      exact he ▸ .releaseWeakLast hr h1
    · have he : ((s.subWeak c).setStack t
          (if s.weak c = 1 then .destroyBlock c :: rest else rest)).account c =
          { s.account c with weak := s.weak c - 1, wrefs := (s.account c).wrefs - 1 } := by
        ext <;> simp [account, frames, setStack, subWeak, touch, h1] <;> grind
      exact he ▸ .releaseWeak hr h1
  · ext <;> simp [account, frames, setStack, subWeak, touch] <;> grind

lemma destroyData_account (ht : s.stack t = .destroyData c :: rest) :
    ∀ b, RefCount.Step (s.account b) ((({ s.touch c with
      dtors := Function.update s.dtors c (s.dtors c + 1) } : State T H W O).setStack t
        (.destructor c :: rest)).account b) := by
  have hd : 0 < (s.account c).dying :=
    frames_pos (t := t) (f := .destroyData c) (by simp [ht]) (by simp [Frame.dying])
  refine Ptr.State.step_at c ?_ fun b hb => ?_
  · have he : (({ s.touch c with
        dtors := Function.update s.dtors c (s.dtors c + 1) } : State T H W O).setStack t
          (.destructor c :: rest)).account c =
        { s.account c with
          dying := (s.account c).dying - 1
          dtors := s.dtors c + 1
          wrefs := (s.account c).wrefs + 1 } := by
      ext <;> simp [account, frames, setStack, touch] <;> grind
    exact he ▸ .destroy hd
  · ext <;> simp [account, frames, setStack, touch] <;> grind

lemma destroyBlock_account (ht : s.stack t = .destroyBlock c :: rest) :
    ∀ b, RefCount.Step (s.account b) ((({ s.touch c with
      frees := Function.update s.frees c (s.frees c + 1) } : State T H W O).setStack t
        rest).account b) := by
  have hf : 0 < (s.account c).freeing :=
    frames_pos (t := t) (f := .destroyBlock c) (by simp [ht]) (by simp [Frame.freeing])
  refine Ptr.State.step_at c ?_ fun b hb => ?_
  · have he : (({ s.touch c with
        frees := Function.update s.frees c (s.frees c + 1) } : State T H W O).setStack t
          rest).account c =
        { s.account c with
          freeing := (s.account c).freeing - 1
          frees := s.frees c + 1 } := by
      ext <;> simp [account, frames, setStack, touch] <;> grind
    exact he ▸ .deallocate hf
  · ext <;> simp [account, frames, setStack, touch] <;> grind

variable [DecidableEq O]

lemma allocate_account {d : H} (hl : s.life s.next = .unborn)
    (hm : s.m_weak (.inBlock s.next) = none) (b : ℕ) :
    (s.allocate.push t (.construct d s.next)).account b = s.account b := by
  ext <;> simp [account, frames, allocate, setLife, setSelf, push, setStack] <;> grind

omit [DecidableEq O] in
lemma discard_account {d : H} (ht : s.stack t = .construct d c :: rest)
    (hl : s.life c = .constructing) (b : ℕ) :
    ((s.setLife c .discarded).setStack t rest).account b = s.account b := by
  ext <;> simp [account, frames, setLife, setStack] <;> grind

/-- The object takes its weak reference along, and the adopted one is due. -/
lemma destructor_account (ht : s.stack t = .destructor c :: rest) (hl : s.life c = .alive)
    (hm : s.m_weak (.inBlock c) = some c) (b : ℕ) :
    ((((s.use (.inBlock c)).setLife c .destroyed).setSelf (.inBlock c) none).setStack t
      (.releaseWeak c :: .releaseWeak c :: rest)).account b = s.account b := by
  ext <;> simp [account, frames, use, touch, setLife, setSelf, setStack] <;> grind

/-- A new block, with the reference that is returned, and then the one in the object. -/
lemma publish_account [DecidableEq H] {d : H} (ht : s.stack t = .construct d c :: rest)
    (hd : s.ptr d = none) (hl : s.life c = .constructing) (hm : s.m_weak (.inBlock c) = none)
    (b : ℕ) : ∃ a, RefCount.Step (s.account b) a ∧ a.owes = 0 ∧
      RefCount.Step a ((((s.publish c).setPtr d (some c)).setStack t rest).account b) := by
  by_cases hb : b = c
  · subst hb
    refine ⟨_,.create (by simp [account, hl]),rfl,?_⟩
    have he : (((s.publish b).setPtr d (some b)).setStack t rest).account b =
        { s.account b with
          born := 1
          strong := 1
          weak := 2
          refs := (s.account b).refs + 1
          wrefs := (s.account b).wrefs + 1 } := by
      ext <;> simp [account, frames, publish, setLife, setSelf, setPtr, setStack, addWeak, touch] <;>
        grind
    exact he ▸ .retainWeak (.inr (Nat.succ_pos _))
  · refine ⟨_,.stay,rfl,?_⟩
    have he : (((s.publish c).setPtr d (some c)).setStack t rest).account b = s.account b := by
      ext <;> simp [account, frames, publish, setLife, setSelf, setPtr, setStack, addWeak, touch] <;>
        grind
    exact he ▸ .stay

end Ledger

end State
end Asp.Ptr.FromThis
