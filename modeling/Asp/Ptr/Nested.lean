import Asp.Foundation.Reach
import Mathlib.Data.Set.Card

/-! Values that hold `SharedPtr` handles themselves, on one thread: the recursive destruction, and
an assignment from a handle that the target owns. Blocks are named by `B`, and the handles outside
of the blocks by `H`. -/
namespace Asp.Ptr.Nested
open Asp.Foundation
variable {H B : Type*}

inductive Fault
  | deadHandle      -- a handle inside a destroyed value was used
  | deadBlock       -- a counter of a deallocated block was used
  deriving DecidableEq

/-- `root` and `fields` are the `m_block` of the handles, those of a value in the order in which
its destructor gets to them. `dtors` and `frees` count the runs of the data destructor and the
deallocations. -/
structure Heap (H B : Type*) where
  root : H → Option B
  fields : B → List (Option B)
  strong : B → ℕ
  weak : B → ℕ
  dtors : B → ℕ
  frees : B → ℕ
  faults : List Fault

namespace Heap

def m_block (s : Heap H B) : Place H B → Option B
  | .outside h => s.root h
  | .inside b i => (s.fields b)[i]?.join

/-- There is a handle at this place, in a value that has not been destroyed. -/
def Alive (s : Heap H B) : Place H B → Prop
  | .outside _ => True
  | .inside b i => i < (s.fields b).length ∧ s.dtors b = 0

instance (s : Heap H B) : ∀ q, Decidable (s.Alive q)
  | .outside _ => .isTrue trivial
  | .inside _ _ => inferInstanceAs (Decidable (_ ∧ _))

/-- A use of the handle at this place. -/
def use (s : Heap H B) (q : Place H B) : Heap H B :=
  if s.Alive q then s else { s with faults := s.faults ++ [.deadHandle] }

/-- An access to the memory of block `b`. -/
def touch (s : Heap H B) (b : B) : Heap H B :=
  if s.frees b = 0 then s else { s with faults := s.faults ++ [.deadBlock] }

section Update
variable [DecidableEq H] [DecidableEq B]

def assign (s : Heap H B) (q : Place H B) (m : Option B) : Heap H B :=
  match q with
  | .outside h => { s with root := Function.update s.root h m }
  | .inside b i => { s with fields := Function.update s.fields b ((s.fields b).set i m) }

def setStrong (s : Heap H B) (b : B) (n : ℕ) : Heap H B :=
  { s with strong := Function.update s.strong b n }

def runDtor (s : Heap H B) (b : B) : Heap H B :=
  { s with dtors := Function.update s.dtors b (s.dtors b + 1) }

/-- `WeakPtr::release()`, with `destroyBlock()` -/
def releaseWeak (s : Heap H B) (b : B) : Heap H B :=
  let weak := s.weak b
  let s := s.touch b
  let s := { s with weak := Function.update s.weak b (weak - 1) }
  if weak = 1 then { s with frees := Function.update s.frees b (s.frees b + 1) } else s

/-- `SharedPtr::release()` of a handle with this `m_block`. The last one runs `destroyData()`: the
destructor of the value releases its handles in turn. -/
def release : ℕ → Option B → Heap H B → Option (Heap H B)
  | _, none, s => some s
  | 0, some _, _ => none
  | n+1, some b, s =>
    let strong := s.strong b
    let s := (s.touch b).setStrong b (strong - 1)
    if strong = 1 then
      let s := s.touch b
      ((s.fields b).foldlM (fun s r => release n r s) s).map fun s => (s.runDtor b).releaseWeak b
    else some s

/-- `SharedPtr(block)`: increments unless null. -/
def retain (s : Heap H B) : Option B → Heap H B
  | none => s
  | some c => (s.touch c).setStrong c (s.strong c + 1)

/-- `operator=(const SharedPtr&)` on the handle at p -/
def copyAssign (n : ℕ) (p other : Place H B) (s : Heap H B) : Option (Heap H B) :=
  if p = other then some s
  else (release n (s.m_block p) (s.use p)).map fun s =>
    let s := s.use other
    let m := s.m_block other
    ((s.use p).assign p m).retain m

/-- `operator=(SharedPtr&&)` on the handle at p -/
def moveAssign (n : ℕ) (p other : Place H B) (s : Heap H B) : Option (Heap H B) :=
  if p = other then some s
  else (release n (s.m_block p) (s.use p)).map fun s =>
    let s := s.use other
    let m := s.m_block other
    ((s.assign other none).use p).assign p m

end Update

/-- The handle at q keeps block `b`. -/
def Holds (s : Heap H B) (q : Place H B) (b : B) : Prop := s.Alive q ∧ s.m_block q = some b

/-- Between the operations: every live value is counted by the handles to it and in turn has none
to a value that is gone, its block is allocated, and no value keeps itself alive. -/
structure WellFormed (s : Heap H B) : Prop where
  counted : ∀ b, s.dtors b = 0 → (s.strong b : ℕ∞) = {q | s.Holds q b}.encard
  owned : ∀ b, s.dtors b = 0 → 0 < s.strong b
  alive : ∀ q b, s.Holds q b → s.dtors b = 0
  allocated : ∀ b, s.dtors b = 0 → s.frees b = 0
  acyclic : Acyclic s.Holds

/-- The assignment to the handle at p has come to an end with `m` in it and without any fault, and
exactly the values that are not reached any more have been destroyed, each once. -/
structure Assigned (s s' : Heap H B) (p : Place H B) (m : Option B) : Prop where
  target : s'.Alive p ∧ s'.m_block p = m
  faults : s'.faults = s.faults
  kept : ∀ c, s.dtors c = 0 → Reached s'.Holds c → s'.dtors c = 0
  destroyed : ∀ c, s.dtors c = 0 → ¬Reached s'.Holds c → s'.dtors c = 1
  gone : ∀ c, s.dtors c ≠ 0 → s'.dtors c = s.dtors c

section Runs
variable {s s' : Heap H B} {p q : Place H B} {b : B} {i : ℕ}

lemma use_eq (h : s.Alive q) : s.use q = s := if_pos h

lemma touch_eq (h : s.frees b = 0) : s.touch b = s := if_pos h

/-- A later state: faults and destructions are not undone. -/
structure Later (s s' : Heap H B) : Prop where
  faults : s.faults <+: s'.faults
  dtors : ∀ c, s.dtors c ≤ s'.dtors c

lemma Later.refl (s : Heap H B) : Later s s := ⟨List.prefix_rfl,fun _ => Nat.le_refl _⟩

lemma Later.trans {s'' : Heap H B} (h : Later s s') (h' : Later s' s'') : Later s s'' :=
  ⟨h.faults.trans h'.faults,fun c => (h.dtors c).trans (h'.dtors c)⟩

lemma later_use (s : Heap H B) (q : Place H B) : Later s (s.use q) := by
  rw [use]
  split_ifs
  · exact Later.refl s
  · exact ⟨List.prefix_append _ _,fun _ => Nat.le_refl _⟩

lemma later_touch (s : Heap H B) (b : B) : Later s (s.touch b) := by
  rw [touch]
  split_ifs
  · exact Later.refl s
  · exact ⟨List.prefix_append _ _,fun _ => Nat.le_refl _⟩

/-- A handle in a value that has been destroyed. -/
lemma use_destroyed (h : s.dtors b ≠ 0) : (s.use (.inside b i)).faults = s.faults ++ [.deadHandle] := by
  rw [use, if_neg]
  exact fun ha => h ha.2

lemma later_foldlM {f : Heap H B → Option B → Option (Heap H B)}
    (hf : ∀ s r s', f s r = some s' → Later s s') (l : List (Option B))
    (h : l.foldlM f s = some s') : Later s s' := by
  induction l generalizing s with
  | nil =>
    cases h
    exact Later.refl _
  | cons r l ih =>
    rw [List.foldlM_cons] at h
    obtain ⟨t,ht,hrest⟩ := Option.bind_eq_some_iff.mp h
    exact (hf s r t ht).trans (ih hrest)

variable [DecidableEq B]

lemma later_setStrong (s : Heap H B) (b : B) (n : ℕ) : Later s (s.setStrong b n) :=
  ⟨List.prefix_rfl,fun _ => Nat.le_refl _⟩

lemma later_retain (s : Heap H B) (m : Option B) : Later s (s.retain m) := by
  cases m with
  | none => exact Later.refl s
  | some c => exact (later_touch s c).trans (later_setStrong _ c _)

lemma later_runDtor (s : Heap H B) (b : B) : Later s (s.runDtor b) := by
  refine ⟨List.prefix_rfl,fun c => ?_⟩
  simp only [runDtor, Function.update_apply]
  split_ifs with h
  · rw [h]
    exact Nat.le_succ _
  · exact Nat.le_refl _

lemma later_releaseWeak (s : Heap H B) (b : B) : Later s (s.releaseWeak b) := by
  have ht := later_touch s b
  simp only [releaseWeak]
  split_ifs <;> exact ⟨ht.faults,ht.dtors⟩

/-- Whatever `release()` destroys on the way, it is not undone. -/
lemma later_release {n : ℕ} {r : Option B} (h : release n r s = some s') : Later s s' := by
  induction n generalizing r s s' with
  | zero =>
    cases r with
    | none =>
      cases h
      exact Later.refl s
    | some b => cases h
  | succ n ih =>
    cases r with
    | none =>
      cases h
      exact Later.refl s
    | some b =>
      have hfirst := (later_touch s b).trans (later_setStrong _ b (s.strong b - 1))
      simp only [release] at h
      split_ifs at h with hone
      · obtain ⟨t,ht,rfl⟩ := Option.map_eq_some_iff.mp h
        have hfields := later_foldlM (fun _ _ _ hr => ih hr) _ ht
        exact ((hfirst.trans (later_touch _ b)).trans hfields).trans
          ((later_runDtor t b).trans (later_releaseWeak _ b))
      · cases h
        exact hfirst

/-- The last handle takes the value with it. -/
lemma release_destroys {n : ℕ} (h : release n (some b) s = some s') (hone : s.strong b = 1) :
    s'.dtors b ≠ 0 := by
  cases n with
  | zero => cases h
  | succ n =>
    simp only [release, if_pos hone] at h
    obtain ⟨t,_,rfl⟩ := Option.map_eq_some_iff.mp h
    have hlater := (later_releaseWeak (t.runDtor b) b).dtors b
    have hrun : (t.runDtor b).dtors b = t.dtors b + 1 := Function.update_self ..
    omega

/-- Of several handles one is let go. -/
lemma release_shared (hshared : 2 ≤ s.strong b) (halloc : s.frees b = 0) :
    release 1 (some b) s = some (s.setStrong b (s.strong b - 1)) := by
  rw [release, touch_eq halloc, if_neg (by omega)]

/-- A block that is allocated is only counted. -/
lemma retain_eq {m : Option B} (h : ∀ c, m = some c → s.frees c = 0) :
    ∃ f, s.retain m = { s with strong := f } := by
  cases m with
  | none => exact ⟨s.strong,rfl⟩
  | some c => exact ⟨_,by rw [retain, touch_eq (h c rfl), setStrong]⟩

variable [DecidableEq H]

lemma later_assign (s : Heap H B) (q : Place H B) (m : Option B) : Later s (s.assign q m) := by
  cases q <;> exact ⟨List.prefix_rfl,fun _ => Nat.le_refl _⟩

lemma frees_assign (s : Heap H B) (q : Place H B) (m : Option B) :
    (s.assign q m).frees = s.frees := by cases q <;> rfl

lemma dtors_assign (s : Heap H B) (q : Place H B) (m : Option B) :
    (s.assign q m).dtors = s.dtors := by cases q <;> rfl

lemma faults_assign (s : Heap H B) (q : Place H B) (m : Option B) :
    (s.assign q m).faults = s.faults := by cases q <;> rfl

lemma m_block_assign (h : s.Alive p) (m : Option B) (q : Place H B) :
    (s.assign p m).m_block q = if q = p then m else s.m_block q := by
  cases p with
  | outside h => cases q <;> simp [assign, m_block, Function.update_apply]
  | inside b i =>
    cases q with
    | outside h => simp [assign, m_block]
    | inside c j =>
      simp only [assign, m_block, Function.update_apply, Place.inside.injEq]
      by_cases hc : c = b
      · subst hc
        by_cases hj : j = i
        · subst hj
          simp [h.1]
        · simp [hj, List.getElem?_set_ne (Ne.symm hj)]
      · simp [hc]

lemma alive_assign (s : Heap H B) (p : Place H B) (m : Option B) (q : Place H B) :
    (s.assign p m).Alive q ↔ s.Alive q := by
  cases p with
  | outside h => cases q <;> exact Iff.rfl
  | inside b i =>
    cases q with
    | outside h => exact Iff.rfl
    | inside c j =>
      simp only [assign, Alive, Function.update_apply]
      by_cases hc : c = b
      · simp [hc]
      · simp [hc]

end Runs

section Shared
variable {s s' : Heap H B} {p q : Place H B} {b : B} {i : ℕ}

lemma WellFormed.source (hs : s.WellFormed) (hb : s.dtors b = 0) :
    ∃ q, s.Holds q b ∧ ∀ c j, q = .inside c j → s.dtors c = 0 := by
  have hne : {q | s.Holds q b}.encard ≠ 0 := by
    rw [← hs.counted b hb]
    exact_mod_cast (hs.owned b hb).ne'
  obtain ⟨q,hq⟩ := Set.encard_ne_zero.mp hne
  refine ⟨q,hq,?_⟩
  rintro c j rfl
  exact hq.1.2

lemma WellFormed.reached [Finite B] (hs : s.WellFormed) (hb : s.dtors b = 0) :
    Reached s.Holds b := hs.acyclic.reached (A := fun b => s.dtors b = 0)
  (fun _ hc => hs.source hc) b hb

lemma WellFormed.shared (hs : s.WellFormed) (hb : s.dtors b = 0) (h : 2 ≤ s.strong b)
    (p : Place H B) : ∃ q, q ≠ p ∧ s.Holds q b := by
  have hlt : 1 < {q | s.Holds q b}.encard := by
    rw [← hs.counted b hb]
    exact_mod_cast h
  obtain ⟨q,r,hq,hr,hne⟩ := Set.one_lt_encard_iff.mp hlt
  by_cases hqp : q = p
  · exact ⟨r,fun hrp => hne (hqp.trans hrp.symm),hr⟩
  · exact ⟨q,hqp,hq⟩

/-- A handle is not inside the value that it keeps alive. -/
lemma WellFormed.ne_inside (hs : s.WellFormed) (hp : s.Holds p b) (i : ℕ) : p ≠ .inside b i := by
  rintro rfl
  exact hs.acyclic b (.single ⟨i,hp⟩)

/-- A state in which the handle at p has been moved on, and nothing has been destroyed. -/
lemma assigned_of_moved [Finite B] (hs : s.WellFormed) (hp : s.Holds p b)
    (hshared : 2 ≤ s.strong b) (hfaults : s'.faults = s.faults) (hdtors : s'.dtors = s.dtors)
    (halive : ∀ q, s'.Alive q ↔ s.Alive q)
    (htarget : s'.m_block p = s.m_block (.inside b i))
    (hkeeps : ∀ q, q ≠ p → q ≠ .inside b i → s'.m_block q = s.m_block q) :
    Assigned s s' p (s.m_block (.inside b i)) := by
  have hmoved : MovedOn s.Holds s'.Holds p b i :=
    { acyclic := hs.acyclic
      at_p := fun d => by
        constructor
        · intro hd
          exact Option.some.inj (hd.2.symm.trans hp.2)
        · rintro rfl
          exact hp
      next := fun d hd => ⟨(halive p).mpr hp.1,htarget.trans hd.2⟩
      keeps := fun q d hq hn hd => ⟨(halive q).mpr hd.1,(hkeeps q hq hn).trans hd.2⟩
      shared := hs.shared (hs.alive p b hp) hshared p
      live := fun c j d hd => hs.reached hd.1.2 }
  refine ⟨⟨(halive p).mpr hp.1,htarget⟩,hfaults,?_,?_,?_⟩
  · intro c hc _
    rw [hdtors, hc]
  · intro c hc hgone
    exact absurd (hmoved.reached (hs.reached hc)) hgone
  · intro c _
    rw [hdtors]

end Shared

section Owned
variable [DecidableEq H] [DecidableEq B] {s s' : Heap H B} {p : Place H B} {b : B} {i n : ℕ}

/-- With another handle to the block nothing is destroyed. -/
lemma copyAssign_shared [Finite B] (hs : s.WellFormed) (hp : s.Holds p b)
    (hi : i < (s.fields b).length) (hshared : 2 ≤ s.strong b) :
    ∃ s', copyAssign 1 p (.inside b i) s = some s' ∧
      Assigned s s' p (s.m_block (.inside b i)) := by
  have hb := hs.alive p b hp
  have hother : (s.setStrong b (s.strong b - 1)).Alive (.inside b i) := ⟨hi,hb⟩
  have hp' : (s.setStrong b (s.strong b - 1)).Alive p := hp.1
  -- the block that is retained is kept by the handle that is assigned from
  obtain ⟨f,hf⟩ := retain_eq (s := (s.setStrong b (s.strong b - 1)).assign p
    (s.m_block (.inside b i))) (m := s.m_block (.inside b i)) fun c hc => by
      rw [frees_assign]
      exact hs.allocated c (hs.alive (.inside b i) c ⟨⟨hi,hb⟩,hc⟩)
  rw [copyAssign, if_neg (hs.ne_inside hp i), hp.2, use_eq hp.1,
    release_shared hshared (hs.allocated b hb), Option.map_some, use_eq hother]
  refine ⟨_,rfl,?_⟩
  dsimp only
  rw [use_eq hp']
  change Assigned s (((s.setStrong b (s.strong b - 1)).assign p (s.m_block (.inside b i))).retain
    (s.m_block (.inside b i))) p _
  rw [hf]
  refine assigned_of_moved hs hp hshared ?_ ?_ (fun q => ?_) ?_ fun q hq hn => ?_
  · exact faults_assign _ p _
  · exact dtors_assign _ p _
  · exact alive_assign _ p _ q
  · exact (m_block_assign hp' _ p).trans (if_pos rfl)
  · exact (m_block_assign hp' _ q).trans (if_neg hq)

/-- The same with a move, which leaves null behind. -/
lemma moveAssign_shared [Finite B] (hs : s.WellFormed) (hp : s.Holds p b)
    (hi : i < (s.fields b).length) (hshared : 2 ≤ s.strong b) :
    ∃ s', moveAssign 1 p (.inside b i) s = some s' ∧
      Assigned s s' p (s.m_block (.inside b i)) := by
  have hb := hs.alive p b hp
  have hother : (s.setStrong b (s.strong b - 1)).Alive (.inside b i) := ⟨hi,hb⟩
  have hp' : ((s.setStrong b (s.strong b - 1)).assign (.inside b i) none).Alive p :=
    (alive_assign _ _ _ p).mpr hp.1
  rw [moveAssign, if_neg (hs.ne_inside hp i), hp.2, use_eq hp.1,
    release_shared hshared (hs.allocated b hb), Option.map_some, use_eq hother]
  refine ⟨_,rfl,?_⟩
  dsimp only
  rw [use_eq hp']
  refine assigned_of_moved hs hp hshared ?_ ?_ (fun q => ?_) ?_ fun q hq hn => ?_
  · rw [faults_assign, faults_assign]
    rfl
  · rw [dtors_assign, dtors_assign]
    rfl
  · exact (alive_assign _ _ _ q).trans (alive_assign _ _ _ q)
  · rw [m_block_assign hp', if_pos rfl]
    rfl
  · rw [m_block_assign hp', if_neg hq, m_block_assign hother, if_neg hn]
    rfl

omit [DecidableEq H] in
/-- Otherwise the handle that is assigned from has gone with the value that owned it. -/
lemma not_assigned (hp : s.Holds p b) (hone : s.strong b = 1) {t : Heap H B} {m : Option B}
    (ht : release n (s.m_block p) (s.use p) = some t) (hlater : Later (t.use (.inside b i)) s') :
    ¬Assigned s s' p m := by
  intro h
  rw [hp.2, use_eq hp.1] at ht
  have hread := hlater.faults
  rw [use_destroyed (release_destroys ht hone), h.faults] at hread
  have hle := hread.length_le
  have hle' := (later_release ht).faults.length_le
  rw [List.length_append, List.length_singleton] at hle
  omega

/-- Assigning from a handle inside the value that the target keeps is safe just if another handle
keeps that value as well. -/
theorem assign_owned_iff [Finite B] (hs : s.WellFormed) (hp : s.Holds p b)
    (hi : i < (s.fields b).length) :
    ((∃ n s', copyAssign n p (.inside b i) s = some s' ∧
      Assigned s s' p (s.m_block (.inside b i))) ↔ 2 ≤ s.strong b) ∧
    ((∃ n s', moveAssign n p (.inside b i) s = some s' ∧
      Assigned s s' p (s.m_block (.inside b i))) ↔ 2 ≤ s.strong b) := by
  have hne := hs.ne_inside hp i
  have hone : ¬2 ≤ s.strong b → s.strong b = 1 := by
    have hpos := hs.owned b (hs.alive p b hp)
    omega
  refine ⟨⟨?_,fun h => ⟨1,copyAssign_shared hs hp hi h⟩⟩,?_,fun h => ⟨1,moveAssign_shared hs hp hi h⟩⟩
  · rintro ⟨n,s',hrun,hs'⟩
    by_contra hlt
    rw [copyAssign, if_neg hne] at hrun
    obtain ⟨t,ht,rfl⟩ := Option.map_eq_some_iff.mp hrun
    refine not_assigned (i := i) hp (hone hlt) ht ?_ hs'
    exact ((later_use _ p).trans (later_assign _ p _)).trans (later_retain _ _)
  · rintro ⟨n,s',hrun,hs'⟩
    by_contra hlt
    rw [moveAssign, if_neg hne] at hrun
    obtain ⟨t,ht,rfl⟩ := Option.map_eq_some_iff.mp hrun
    refine not_assigned (i := i) hp (hone hlt) ht ?_ hs'
    exact ((later_assign _ _ none).trans (later_use _ p)).trans (later_assign _ p _)

end Owned
end Heap

/-- A list of two nodes, with a number of handles to the first. -/
def chain (r : ℕ) : Heap (Fin r) (Fin 2) where
  root _ := some 0
  fields b := if b = 0 then [some 1] else [none]
  strong b := if b = 0 then r else 1
  weak _ := 1
  dtors _ := 0
  frees _ := 0
  faults := []

lemma chain_holds (r : ℕ) (q : Place (Fin r) (Fin 2)) (b : Fin 2) :
    (chain r).Holds q b ↔ (∃ h, q = .outside h) ∧ b = 0 ∨ q = .inside 0 0 ∧ b = 1 := by
  cases q with
  | outside h => simp [Heap.Holds, Heap.Alive, Heap.m_block, chain, eq_comm]
  | inside c i =>
    by_cases hc : c = 0
    · subst hc
      cases i with
      | zero => simp [Heap.Holds, Heap.Alive, Heap.m_block, chain, eq_comm]
      | succ i => simp [Heap.Holds, Heap.Alive, Heap.m_block, chain]
    · cases i <;> simp [Heap.Holds, Heap.Alive, Heap.m_block, chain, hc]

lemma chain_wellFormed {r : ℕ} (hr : 0 < r) : (chain r).WellFormed where
  counted b _ := by
    simp only [chain_holds]
    by_cases hb : b = 0
    · subst hb
      have hset : {q : Place (Fin r) (Fin 2) | (∃ h, q = .outside h) ∧ (0 : Fin 2) = 0 ∨
          q = .inside 0 0 ∧ (0 : Fin 2) = 1} = Set.range .outside := by
        ext q
        simp [eq_comm]
      have hinj : Function.Injective (Place.outside : Fin r → Place (Fin r) (Fin 2)) :=
        fun _ _ h => Place.outside.inj h
      rw [hset, ← Set.image_univ, hinj.encard_image, Set.encard_univ]
      simp [chain]
    · obtain rfl : b = 1 := by omega
      simp [chain]
  owned b _ := by
    simp only [chain]
    split_ifs <;> omega
  alive _ _ _ := rfl
  allocated _ _ := rfl
  acyclic := by
    refine acyclic_of_rank Fin.val ?_
    rintro c d ⟨i,hi⟩
    obtain ⟨⟨h,hq⟩,_⟩ | ⟨hq,rfl⟩ := (chain_holds r _ d).mp hi
    · cases hq
    · cases hq
      decide

theorem assign_owned_iff_chain :
    (∃ n s', Heap.copyAssign n (.outside 0) (.inside 0 0) (chain 2) = some s' ∧
      Heap.Assigned (chain 2) s' (.outside 0) (some 1)) :=
  (Heap.assign_owned_iff (p := .outside 0) (b := 0) (i := 0) (chain_wellFormed Nat.two_pos)
    ⟨trivial,rfl⟩ Nat.one_pos).1.mpr (Nat.le_refl 2)

/-- The only handle to the first node is moved on to the second, which has gone by then. -/
theorem advance_reads_destroyed :
    ¬∀ (s : Heap (Fin 1) (Fin 2)) (p : Place (Fin 1) (Fin 2)) (b : Fin 2) (i : ℕ), s.WellFormed →
      s.Holds p b → i < (s.fields b).length → ∃ n s', Heap.copyAssign n p (.inside b i) s = some s' ∧
        Heap.Assigned s s' p (s.m_block (.inside b i)) := by
  intro hall
  obtain ⟨n,s',hrun,hs'⟩ :=
    hall (chain 1) (.outside 0) 0 0 (chain_wellFormed Nat.one_pos) ⟨trivial,rfl⟩ Nat.one_pos
  rw [Heap.copyAssign, if_neg (by decide)] at hrun
  obtain ⟨t,ht,rfl⟩ := Option.map_eq_some_iff.mp hrun
  refine Heap.not_assigned (p := .outside 0) (b := 0) (i := 0) ⟨trivial,rfl⟩ rfl ht ?_ hs'
  exact ((Heap.later_use _ _).trans (Heap.later_assign _ _ _)).trans (Heap.later_retain _ _)

end Asp.Ptr.Nested
