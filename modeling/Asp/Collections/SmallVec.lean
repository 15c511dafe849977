import Asp.Collections.Growth
import Asp.Collections.Memory

/-! The member functions of `SmallVec<T, N>` on the vector object `v`. An iterator is its
distance from `data()`. -/
namespace Asp.Collections.SmallVec
open Asp.Foundation
variable {α : Type} (N : ℕ)

/-- `static_cast<ptrdiff_t>`. -/
def toPtrdiff (n : ℕ) : ℤ := (n : ℤ).bmod (2 ^ 64)

def reserve (v newCap : ℕ) : VecM α Unit := do
  let w ← Prog.get
  if newCap ≤ (w.vec v).m_capacity then pure () else do
    let newStorage ← allocate newCap
    let data := w.idata N v
    Prog.forUp (fun i => do
      let x ← moveFrom N data i
      init N (.heap newStorage) i x
      destroy N data i) (w.vec v).m_size
    Prog.when (w.isLarge N v) (deleteArray (w.vec v).m_large)
    Prog.modify (World.setLarge N · v (some newStorage))
    Prog.modify (World.setCapacity · v newCap)

def growFor (v extra : ℕ) : VecM α Unit := do
  let w ← Prog.get
  let need := ((w.vec v).m_size + extra) % 2 ^ 64
  if need ≤ (w.vec v).m_capacity then pure () else
    match growLoop need (need + 1) (max (w.vec v).m_capacity 1) with
    | some newCap => reserve N v newCap
    | none => Prog.throw .diverged

/-- Moves the element at `source` to `dest` and destroys the original and, where `dest` is below
the size, the element that was there. -/
def moveOne (v source dest : ℕ) : VecM α Unit :=
  if source = dest then pure () else do
    let w ← Prog.get
    let data := w.idata N v
    Prog.when (dest < (w.vec v).m_size) (destroy N data dest)
    let x ← moveFrom N data source
    init N data dest x
    destroy N data source

/-- The result is the slot at the old distance `iter`. -/
def shift (v : ℕ) (iter offset : ℤ) : VecM α (Base × ℕ) := do
  let w ← Prog.get
  let index := iter
  if ¬(0 ≤ index ∧ index.toNat ≤ (w.vec v).m_size) then
    Prog.throw (.assertion "SmallVec::shift: iterator out of range")
  else do
    Prog.when (offset > 0) (growFor N v offset.toNat)
    let body := fun i : ℕ => moveOne N v i (i + offset).toNat
    let moves :=
      if offset > 0 then Prog.forDown body index.toNat (w.vec v).m_size
      else if offset < 0 then Prog.forFrom body index.toNat (w.vec v).m_size
      else pure ()
    moves
    Prog.modify fun w => w.setSize v ((w.vec v).m_size + offset).toNat
    let w ← Prog.get
    pure (w.idata N v, index.toNat)

def emplace_back (v : ℕ) (arg : Arg α) : VecM α Unit := do
  growFor N v 1
  let w ← Prog.get
  initFrom N (w.idata N v) (w.vec v).m_size arg
  Prog.modify fun w => w.setSize v ((w.vec v).m_size + 1)

/-- `push_back(const T&)`. -/
def push_back (v : ℕ) (value : Arg α) : VecM α Unit := emplace_back N v value

/-- `push_back(T&&)`. -/
def push_backMove (v : ℕ) (value : Arg α) : VecM α Unit := emplace_back N v value.moved

/-- `insert(T*, const T&)`. -/
def insert (v : ℕ) (iter : ℤ) (value : Arg α) : VecM α (Base × ℕ) := do
  let ptr ← shift N v iter 1
  initFrom N ptr.1 ptr.2 value
  pure ptr

/-- `insert(T*, T&&)`. -/
def insertMove (v : ℕ) (iter : ℤ) (value : Arg α) : VecM α (Base × ℕ) := do
  let ptr ← shift N v iter 1
  initFrom N ptr.1 ptr.2 value.moved
  pure ptr

/-- `insert(T*, size_t, const T&)`. -/
def insertCount (v : ℕ) (iter : ℤ) (count : ℕ) (value : Arg α) : VecM α Unit := do
  let ptr ← shift N v iter (toPtrdiff count)
  Prog.forUp (fun i => initFrom N ptr.1 (ptr.2 + i) value) count

/-- `insert(T*, const T*, const T*)`, where `range` lists what the two pointers enclose. -/
def insertRange (v : ℕ) (iter : ℤ) (range : List (Arg α)) : VecM α Unit := do
  let count := range.length
  let ptr ← shift N v iter (toPtrdiff count)
  Prog.forUp (fun i =>
    match range[i]? with
    | some value => initFrom N ptr.1 (ptr.2 + i) value
    | none => pure ()) count

/-- `erase(T*, T*)`. -/
def eraseRange (v : ℕ) (first last : ℤ) : VecM α (Base × ℕ) := do
  let w ← Prog.get
  if first < 0 ∨ last > (w.vec v).m_size ∨ first > last then
    Prog.throw (.outOfRange "SmallVec::erase: iterator range out of range")
  else do
    let count := (last - first).toNat
    shift N v (first + count) (-toPtrdiff count)

/-- `erase(T*)`. -/
def erase (v : ℕ) (iter : ℤ) : VecM α (Base × ℕ) := eraseRange N v iter (iter + 1)

def pop_back (v : ℕ) : VecM α Unit := do
  let w ← Prog.get
  if (w.vec v).m_size = 0 then
    Prog.throw (.outOfRange "SmallVec::pop_back: empty vector")
  else do
    Prog.modify fun w => w.setSize v ((w.vec v).m_size - 1)
    destroy N (w.idata N v) ((w.vec v).m_size - 1)

def clear (v : ℕ) : VecM α Unit := do
  let w ← Prog.get
  Prog.forUp (fun i => destroy N (w.idata N v) i) (w.vec v).m_size
  Prog.modify (World.setSize · v 0)

/-- `operator[]`, and the value of the element it refers to. -/
def subscript (v index : ℕ) : VecM α (Option α) := do
  let w ← Prog.get
  read N (w.idata N v) index

/-- `at`, and the value of the element it refers to. -/
def atIndex (v index : ℕ) : VecM α (Option α) := do
  let w ← Prog.get
  if index ≥ (w.vec v).m_size then
    Prog.throw (.outOfRange "SmallVec::at: index out of range")
  else read N (w.idata N v) index

/-- The default constructor. -/
def construct (v : ℕ) : VecM α Unit :=
  Prog.modify fun w =>
    { (w.setVec v ⟨none, 0, N⟩).edit (.inline v) (fun _ => .dead) [] with
      alive := Function.update w.alive v true }

/-- `operator=(const SmallVec&)`. -/
def copyAssign (v other : ℕ) : VecM α Unit :=
  if v = other then pure () else do
    clear N v
    let w ← Prog.get
    reserve N v (w.vec other).m_size
    let w ← Prog.get
    let otherData := w.idata N other
    Prog.forUp (fun i => emplace_back N v (.ref otherData i)) (w.vec other).m_size

/-- `operator=(SmallVec&&)`. -/
def moveAssign (v other : ℕ) : VecM α Unit :=
  if v = other then pure () else do
    clear N v
    let w ← Prog.get
    Prog.when (w.isLarge N v) (deleteArray (w.vec v).m_large)
    if w.isLarge N other then do
      Prog.modify (World.setCapacity · v (w.vec other).m_capacity)
      Prog.modify (World.setSize · v (w.vec other).m_size)
      Prog.modify (World.setLarge N · v (w.vec other).m_large)
      Prog.modify (World.setLarge N · other none)
      Prog.modify (World.setSize · other 0)
      Prog.modify (World.setCapacity · other N)
    else do
      Prog.modify (World.setCapacity · v N)
      Prog.modify (World.setSize · v (w.vec other).m_size)
      Prog.forUp (fun i => do
        let x ← moveFrom N (.inline other) i
        init N (.inline v) i x
        destroy N (.inline other) i) (w.vec other).m_size

def copyConstruct (v other : ℕ) : VecM α Unit := do
  construct N v
  copyAssign N v other

def moveConstruct (v other : ℕ) : VecM α Unit := do
  construct N v
  moveAssign N v other

/-- The destructor; the members end with the object. -/
def destruct (v : ℕ) : VecM α Unit := do
  clear N v
  let w ← Prog.get
  Prog.when (w.isLarge N v) (deleteArray (w.vec v).m_large)
  Prog.modify fun w => { w.setVec v ⟨none, 0, N⟩ with alive := Function.update w.alive v false }

end Asp.Collections.SmallVec
