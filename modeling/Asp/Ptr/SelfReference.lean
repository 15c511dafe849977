import Asp.Ptr.FromThis

/-! What holds in every run of the calls on objects that refer to their own block. -/
namespace Asp.Ptr.FromThis
open Foundation

namespace State
variable {T H W O : Type*}

def Present (s : State T H W O) : Source W O → Prop
  | .handle _ => True
  | .m_weak o => s.Exists o

/-- A call in progress is on something that is there. -/
def Fits (s : State T H W O) : Frame H W O → Prop
  | .upgrade _ x => s.Present x
  | .upgradeLoop _ x n => s.Present x ∧ n ≠ 0 ∧ s.m_block x ≠ none
  | _ => True

/-- The invariant: balanced books, a weak reference in each object that is alive to its own block
and none elsewhere, and a frame for each constructor, destructor and `reset()` that runs. -/
structure Sound [Fintype T] [Fintype H] [Fintype W] (s : State T H W O) : Prop where
  balanced : ∀ b, (s.account b).Balanced
  attached : ∀ b, s.life b = .alive → s.m_weak (.inBlock b) = some b
  own : ∀ o b, s.m_weak o = some b → o = .inBlock b ∧ s.life b = .alive
  unborn : ∀ b, s.next ≤ b → s.life b = .unborn
  constructing : ∀ b, s.frames (Frame.constructing b) = if s.life b = .constructing then 1 else 0
  destructing : ∀ b,
    s.dtors b = s.frames (Frame.destructing b) + if s.life b = .destroyed then 1 else 0
  resetting : ∀ k, s.leaving k ≠ none → ∃ t, .null k ∈ s.stack t
  fits : ∀ t, ∀ f ∈ s.stack t, s.Fits f
  clean : s.fault = false

section Facts
variable [Fintype T] [Fintype H] [Fintype W] {s : State T H W O} {t : T} {b : ℕ}

namespace Sound

/-- Nothing refers to a block before its constructor has returned, or once its memory is gone. -/
lemma present (h : s.Sound) (hb : 0 < (s.account b).refs ∨ 0 < (s.account b).wrefs ∨
    0 < (s.account b).dying ∨ 0 < (s.account b).freeing) :
    s.frees b = 0 ∧ (s.life b = .alive ∨ s.life b = .destroyed) := by
  have hbal := h.balanced b
  refine ⟨?_,?_⟩
  · obtain hr | hw | hd | hf := hb
    · exact hbal.not_freed (.inl hr)
    · exact hbal.not_freed (.inr (.inr (.inl hw)))
    · exact hbal.not_freed (.inr (.inr (.inr hd)))
    · exact hbal.not_freed_of_freeing hf
  · by_contra hl
    obtain ⟨-,-,hr,-,hw,hd,hf,-⟩ := hbal.unborn (if_neg hl)
    omega

lemma touch_fault (h : s.Sound) (hb : 0 < (s.account b).refs ∨ 0 < (s.account b).wrefs ∨
    0 < (s.account b).dying ∨ 0 < (s.account b).freeing) : (s.touch b).fault = s.fault := by
  obtain ⟨hf,hl⟩ := h.present hb
  have hsafe : ¬(0 < s.frees b ∨ s.life b = .discarded) := by
    obtain hl | hl := hl <;> simp [hf, hl]
  simp [touch, hsafe]

lemma touch_eq (h : s.Sound) (hb : 0 < (s.account b).refs ∨ 0 < (s.account b).wrefs ∨
    0 < (s.account b).dying ∨ 0 < (s.account b).freeing) : s.touch b = s :=
  congrArg (fun f => { s with fault := f }) (h.touch_fault hb)

/-- A block whose constructor has not returned is in nobody's hands. -/
lemma untouched (h : s.Sound) (hl : s.life b = .constructing) :
    s.frees b = 0 ∧ s.m_weak (.inBlock b) = none := by
  refine ⟨((h.balanced b).unborn (if_neg (by simp [hl]))).2.2.2.2.2.2.2.2,?_⟩
  cases hm : s.m_weak (.inBlock b) with
  | none => rfl
  | some c =>
    obtain ⟨hb,halive⟩ := h.own _ c hm
    cases hb
    cases hl.symm.trans halive

lemma life_of_construct (h : s.Sound) {d : H} (hf : .construct d b ∈ s.stack t) :
    s.life b = .constructing := by
  have hpos := frames_pos (w := Frame.constructing b) hf (by simp [Frame.constructing])
  rw [h.constructing b] at hpos
  by_contra hl
  rw [if_neg hl] at hpos
  exact Nat.lt_irrefl 0 hpos

lemma life_of_destructor (h : s.Sound) (hf : .destructor b ∈ s.stack t) : s.life b = .alive := by
  have hpos := frames_pos (w := Frame.destructing b) hf (by simp [Frame.destructing])
  have hdtors := h.destructing b
  have hbal : s.dtors b + (s.account b).dying + RefCount.held (s.account b).strong =
    (s.account b).born := (h.balanced b).dtors_eq
  have hborn := (h.balanced b).born_le
  by_contra hl
  by_cases hd : s.life b = .destroyed
  · rw [if_pos hd] at hdtors
    omega
  · have h0 : (s.account b).born = 0 := if_neg (by simp [hl, hd])
    omega

lemma wrefs_pos (h : s.Sound) {x : Source W O} (hx : s.m_block x = some b) :
    0 < (s.account b).wrefs := by
  cases x with
  | handle w => exact wrefs_pos_of_wptr hx
  | m_weak o =>
    obtain ⟨rfl,-⟩ := h.own o b hx
    have hself : one b (s.m_weak (.inBlock b)) = 1 := if_pos hx
    change 0 < tally (one b) s.wptr + one b (s.m_weak (.inBlock b)) + _
    omega

lemma use_eq (h : s.Sound) {o : Object O} (ho : s.Exists o) : s.use o = s := by
  cases o with
  | outside o => rfl
  | inBlock b =>
    have hf : s.frees b = 0 := by
      obtain hl | hl := ho
      · exact (h.untouched hl).1
      · have hself : s.m_block (.m_weak (.inBlock b)) = some b := h.attached b hl
        exact (h.present (.inr (.inl (h.wrefs_pos hself)))).1
    have hsafe : ¬(0 < s.frees b ∨ s.life b = .discarded) := by
      obtain hl | hl := ho <;> simp [hf, hl]
    have hlife : s.life b = .constructing ∨ s.life b = .alive := ho
    simp [use, touch, hsafe, hlife]

lemma enter_eq (h : s.Sound) {x : Source W O} (hx : s.Present x) : s.enter x = s := by
  cases x with
  | handle w => rfl
  | m_weak o => exact h.use_eq hx

end Sound

omit [Fintype H] [Fintype W] in
lemma frames_eq [DecidableEq T] {s' : State T H W O} {l : List (Frame H W O)}
    (hstack : s'.stack = Function.update s.stack t l) (w : Frame H W O → ℕ) :
    s'.frames w + weigh w (s.stack t) = s.frames w + weigh w l := by
  rw [frames, hstack]
  exact tally_update ..

omit [Fintype T] [Fintype H] [Fintype W] in
/-- What a call in progress reads is as before. -/
lemma Fits.next {s' : State T H W O} {f : Frame H W O} (hf : s.Fits f)
    (hkeep : ∀ x, f.reads = some x → (s.Present x → s'.Present x) ∧
      (s.m_block x ≠ none → s'.m_block x ≠ none)) : s'.Fits f := by
  cases f with
  | upgrade d x => exact (hkeep x rfl).1 hf
  | upgradeLoop d x n => exact ⟨(hkeep x rfl).1 hf.1,hf.2.1,(hkeep x rfl).2 hf.2.2⟩
  | _ => trivial

/-- After a step of thread `t` that leaves it with `l`, a SharedPtr that is being reset has a frame. -/
def Resets (s s' : State T H W O) (t : T) (l : List (Frame H W O)) : Prop :=
  ∀ k, s'.leaving k ≠ none → .null k ∈ l ∨ s.leaving k ≠ none ∧ .null k ∉ s.stack t

omit [Fintype T] [Fintype H] [Fintype W] in
/-- No frame of a `reset()` has gone. -/
lemma resets_of_same {s' : State T H W O} {l : List (Frame H W O)} (hsame : s'.leaving = s.leaving)
    (hl : ∀ k, .null k ∈ s.stack t → .null k ∈ l) : Resets s s' t l := by
  intro k hk
  by_cases hin : .null k ∈ s.stack t
  · exact .inl (hl k hin)
  · exact .inr ⟨hsame ▸ hk,hin⟩

omit [Fintype T] [Fintype H] [Fintype W] in
lemma resets_of_pop {s' : State T H W O} {f : Frame H W O} {rest l : List (Frame H W O)}
    (ht : s.stack t = f :: rest) (hsame : s'.leaving = s.leaving) (hf : ∀ k, .null k ≠ f)
    (hl : ∀ g ∈ rest, g ∈ l) : Resets s s' t l := by
  refine resets_of_same hsame fun k hk => ?_
  rw [ht] at hk
  exact hl _ ((List.mem_cons.mp hk).resolve_left (hf k))

lemma Sound.resets [DecidableEq T] {s' : State T H W O} {l : List (Frame H W O)} (h : s.Sound)
    (hr : Resets s s' t l) (hstack : s'.stack = Function.update s.stack t l) (k : H)
    (hk : s'.leaving k ≠ none) : ∃ t, .null k ∈ s'.stack t := by
  rw [hstack]
  obtain hin | ⟨hold,hnot⟩ := hr k hk
  · exact ⟨t,by rwa [Function.update_self]⟩
  · obtain ⟨u,hu⟩ := h.resetting k hold
    have hut : u ≠ t := by
      rintro rfl
      exact hnot hu
    exact ⟨u,by rwa [Function.update_of_ne hut]⟩

/-- A step of thread `t` that neither begins nor ends an object. -/
structure Quiet [DecidableEq T] (s s' : State T H W O) (t : T) (l : List (Frame H W O)) :
    Prop where
  account : ∀ b, RefCount.Step (s.account b) (s'.account b)
  life : s'.life = s.life
  m_weak : s'.m_weak = s.m_weak
  next : s'.next = s.next
  stack : s'.stack = Function.update s.stack t l
  fault : s'.fault = s.fault
  wptr : ∀ w, s.wptr w ≠ none → s'.wptr w ≠ none ∨ s.Unread (.handle w)
  constructing : ∀ b,
    weigh (Frame.constructing b) l = weigh (Frame.constructing b) (s.stack t)
  dtors : ∀ b, s'.dtors b + weigh (Frame.destructing b) (s.stack t) =
    s.dtors b + weigh (Frame.destructing b) l
  resets : Resets s s' t l
  frames : ∀ f ∈ l, f ∈ s.stack t ∨ s'.Fits f

theorem Sound.quiet [DecidableEq T] {s' : State T H W O} {l : List (Frame H W O)} (h : s.Sound)
    (hq : Quiet s s' t l) : s'.Sound where
  balanced b := (hq.account b).balanced (h.balanced b) fun _ _ => rfl
  attached b hb := by
    rw [hq.m_weak]
    exact h.attached b (hq.life ▸ hb)
  own o b ho := by
    rw [hq.m_weak] at ho
    rw [hq.life]
    exact h.own o b ho
  unborn b hb := by
    rw [hq.life]
    exact h.unborn b (hq.next ▸ hb)
  constructing b := by
    have hframes := frames_eq hq.stack (Frame.constructing b)
    have hweigh := hq.constructing b
    rw [hq.life, ← h.constructing b]
    omega
  destructing b := by
    have hframes := frames_eq hq.stack (Frame.destructing b)
    have hdtors := hq.dtors b
    have hold := h.destructing b
    rw [hq.life]
    omega
  resetting := h.resets hq.resets hq.stack
  fits u f hf := by
    have hold : ∀ u, ∀ f ∈ s.stack u, s'.Fits f := by
      intro u f hf
      refine (h.fits u f hf).next fun x hx => ?_
      cases x with
      | handle w =>
        refine ⟨id,fun hw => ?_⟩
        obtain hw' | hun := hq.wptr w hw
        · exact hw'
        · exact absurd hx (hun u f hf)
      | m_weak o =>
        refine ⟨fun ho => ?_,fun ho => ?_⟩
        · cases o with
          | outside o => trivial
          | inBlock b =>
            change s'.life b = _ ∨ s'.life b = _
            rw [hq.life]
            exact ho
        · change s'.m_weak o ≠ none
          rw [hq.m_weak]
          exact ho
    rw [hq.stack] at hf
    by_cases hu : u = t
    · subst hu
      rw [Function.update_self] at hf
      obtain hmem | hfit := hq.frames f hf
      · exact hold u f hmem
      · exact hfit
    · rw [Function.update_of_ne hu] at hf
      exact hold u f hf
  clean := hq.fault.trans h.clean

/-- A step of thread `t` in which the object of block `c` enters another part of its life. -/
structure Turn [DecidableEq T] [DecidableEq O] (s s' : State T H W O) (t : T)
    (l : List (Frame H W O)) (c : ℕ) (e : Life) : Prop where
  balanced : ∀ b, (s'.account b).Balanced
  life : s'.life = Function.update s.life c e
  m_weak : s'.m_weak = Function.update s.m_weak (.inBlock c) (if e = .alive then some c else none)
  next : s.next ≤ s'.next
  born : c < s'.next
  stack : s'.stack = Function.update s.stack t l
  fault : s'.fault = s.fault
  wptr : s'.wptr = s.wptr
  dtors : s'.dtors = s.dtors
  constructing : ∀ b, weigh (Frame.constructing b) l +
      (if c = b ∧ s.life c = .constructing then 1 else 0) =
    weigh (Frame.constructing b) (s.stack t) + if c = b ∧ e = .constructing then 1 else 0
  destructing : ∀ b, weigh (Frame.destructing b) l +
      (if c = b ∧ e = .destroyed then 1 else 0) =
    weigh (Frame.destructing b) (s.stack t) + if c = b ∧ s.life c = .destroyed then 1 else 0
  resets : Resets s s' t l
  frames : ∀ f ∈ l, f ∈ s.stack t ∨ f.reads = none
  read : (e = .constructing ∨ e = .alive) ∧ s.m_weak (.inBlock c) = none ∨
    s.Unread (.m_weak (.inBlock c))

/-- The calls that are in progress still have what they are on. -/
theorem Sound.turn_fits [DecidableEq T] [DecidableEq O] {s' : State T H W O}
    {l : List (Frame H W O)} {c : ℕ} {e : Life} (h : s.Sound) (ht : Turn s s' t l c e) {u : T}
    {f : Frame H W O} (hf : f ∈ s.stack u) : s'.Fits f := by
  refine (h.fits u f hf).next fun x hx => ?_
  cases x with
  | handle w =>
    refine ⟨id,fun hw => ?_⟩
    change s'.wptr w ≠ none
    rwa [ht.wptr]
  | m_weak o =>
    by_cases hoc : o = .inBlock c
    · subst hoc
      obtain ⟨hlife,hnone⟩ | hun := ht.read
      · refine ⟨fun _ => ?_,fun hm => absurd hnone hm⟩
        change s'.life c = _ ∨ s'.life c = _
        rwa [ht.life, Function.update_self]
      · exact absurd hx (hun u f hf)
    · refine ⟨fun ho => ?_,fun ho => ?_⟩
      · cases o with
        | outside o => trivial
        | inBlock b =>
          change s'.life b = _ ∨ s'.life b = _
          rw [ht.life, Function.update_of_ne (by simpa using hoc)]
          exact ho
      · change s'.m_weak o ≠ none
        rw [ht.m_weak, Function.update_of_ne hoc]
        exact ho

theorem Sound.turn [DecidableEq T] [DecidableEq O] {s' : State T H W O} {l : List (Frame H W O)}
    {c : ℕ} {e : Life} (h : s.Sound) (ht : Turn s s' t l c e) : s'.Sound where
  balanced := ht.balanced
  attached b hb := by
    rw [ht.life] at hb
    rw [ht.m_weak]
    by_cases hbc : b = c
    · subst hbc
      rw [Function.update_self] at hb
      rw [Function.update_self, if_pos hb]
    · rw [Function.update_of_ne hbc] at hb
      rw [Function.update_of_ne (by simpa using hbc)]
      exact h.attached b hb
  own o b ho := by
    rw [ht.m_weak] at ho
    rw [ht.life]
    by_cases hoc : o = .inBlock c
    · subst hoc
      rw [Function.update_self] at ho
      split_ifs at ho with hlife
      cases ho
      exact ⟨rfl,(Function.update_self ..).trans hlife⟩
    · rw [Function.update_of_ne hoc] at ho
      obtain ⟨rfl,hlife⟩ := h.own o b ho
      exact ⟨rfl,(Function.update_of_ne (by simpa using hoc) ..).trans hlife⟩
  unborn b hb := by
    rw [ht.life, Function.update_of_ne (ht.born.trans_le hb).ne']
    exact h.unborn b (ht.next.trans hb)
  constructing b := by
    have hframes := frames_eq ht.stack (Frame.constructing b)
    have hweigh := ht.constructing b
    have hold := h.constructing b
    rw [ht.life]
    by_cases hbc : b = c
    · subst hbc
      simp only [true_and] at hweigh
      rw [Function.update_self]
      omega
    · simp only [Ne.symm hbc, false_and, if_false] at hweigh
      rw [Function.update_of_ne hbc]
      omega
  destructing b := by
    have hframes := frames_eq ht.stack (Frame.destructing b)
    have hweigh := ht.destructing b
    have hold := h.destructing b
    rw [ht.life, ht.dtors]
    by_cases hbc : b = c
    · subst hbc
      simp only [true_and] at hweigh
      rw [Function.update_self]
      omega
    · simp only [Ne.symm hbc, false_and, if_false] at hweigh
      rw [Function.update_of_ne hbc]
      omega
  resetting := h.resets ht.resets ht.stack
  fits u f hf := by
    rw [ht.stack] at hf
    by_cases hu : u = t
    · subst hu
      rw [Function.update_self] at hf
      obtain hmem | hnone := ht.frames f hf
      · exact h.turn_fits ht hmem
      · cases f <;> trivial
    · rw [Function.update_of_ne hu] at hf
      exact h.turn_fits ht hf
  clean := ht.fault.trans h.clean

end Facts

section Steps
variable [Fintype T] [Fintype H] [Fintype W]
variable [DecidableEq T] [DecidableEq H] [DecidableEq W] [DecidableEq O]
variable {s s' : State T H W O} {t : T} {b : ℕ} {rest : List (Frame H W O)}

omit [DecidableEq H] [DecidableEq W] [DecidableEq O] in
/-- A call that pushes a frame, or none. -/
lemma quiet_handles {l : List (Frame H W O)} (h : s.Sound)
    (hacc : ∀ b, RefCount.Step (s.account b) (s'.account b)) (hlife : s'.life = s.life)
    (hself : s'.m_weak = s.m_weak) (hnext : s'.next = s.next) (hdtors : s'.dtors = s.dtors)
    (hfault : s'.fault = s.fault) (hstack : s'.stack = Function.update s.stack t (l ++ s.stack t))
    (hwptr : ∀ w, s.wptr w ≠ none → s'.wptr w ≠ none ∨ s.Unread (.handle w))
    (hcon : ∀ b, weigh (Frame.constructing b) l = 0)
    (hdes : ∀ b, weigh (Frame.destructing b) l = 0)
    (hleaving : ∀ k, s'.leaving k ≠ none → s.leaving k ≠ none ∨ .null k ∈ l)
    (hfits : ∀ f ∈ l, s'.Fits f) : s'.Sound := by
  refine h.quiet ⟨hacc,hlife,hself,hnext,hstack,hfault,hwptr,fun b => ?_,fun b => ?_,fun k hk => ?_,
    fun f hf => ?_⟩
  · rw [weigh_append, hcon b, Nat.zero_add]
  · rw [weigh_append, hdes b, hdtors, Nat.zero_add]
  · by_cases hin : .null k ∈ s.stack t
    · exact .inl (List.mem_append_right l hin)
    · exact (hleaving k hk).symm.imp (List.mem_append_left _) fun hold => ⟨hold,hin⟩
  · obtain hf | hf := List.mem_append.mp hf
    · exact .inr (hfits f hf)
    · exact .inl hf

omit [DecidableEq H] [DecidableEq O] in
theorem weaken_sound {w : W} {r : Option ℕ} (h : s.Sound) (t : T)
    (hr : ∀ c, r = some c → 0 < (s.account c).wrefs ∨ 0 < (s.account c).refs)
    (hw : s.wptr w = none) : (s.weaken w r).Sound := by
  have hsame : s.stack = Function.update s.stack t ([] ++ s.stack t) :=
    (Function.update_eq_self ..).symm
  have hwptr : ∀ v, s.wptr v ≠ none → (s.weaken w r).wptr v ≠ none := by
    intro v hv
    have hne : v ≠ w := fun he => hv (he ▸ hw)
    have hsame : (s.weaken w r).wptr v = s.wptr v := by
      cases r <;> exact Function.update_of_ne hne ..
    rwa [hsame]
  have hacc := weaken_account hr hw
  cases r with
  | none =>
    exact quiet_handles h hacc rfl rfl rfl rfl rfl hsame (fun v hv => .inl (hwptr v hv))
      (fun _ => rfl) (fun _ => rfl) (fun _ => .inl) nofun
  | some b =>
    refine quiet_handles h hacc rfl rfl rfl rfl ?_ hsame (fun v hv => .inl (hwptr v hv))
      (fun _ => rfl) (fun _ => rfl) (fun _ => .inl) nofun
    exact h.touch_fault ((hr b rfl).elim (fun hw => .inr (.inl hw)) .inl)

omit [Fintype T] [Fintype H] [Fintype W] [DecidableEq T] [DecidableEq H] [DecidableEq W]
  [DecidableEq O] in
/-- Only in the middle of `reset()` does a SharedPtr hold a pointer without a reference. -/
lemma get_eq {k : H} (hk : s.leaving k = none) : s.get k = s.ptr k := by
  rw [get, hk, Option.or_none]

theorem call_sound {c : Call H W O} (h : s.Sound) (ha : s.Allowed (.call t c))
    (hs : s.call t c = some s') : s'.Sound := by
  have hsame : s.stack = Function.update s.stack t ([] ++ s.stack t) :=
    (Function.update_eq_self ..).symm
  cases c with
  | makeShared d =>
    cases hs
    have hlife := h.unborn s.next (Nat.le_refl _)
    have hnone : s.m_weak (.inBlock s.next) = none := by
      cases hm : s.m_weak (.inBlock s.next) with
      | none => rfl
      | some b =>
        obtain ⟨hb,halive⟩ := h.own _ b hm
        cases hb
        cases hlife.symm.trans halive
    refine h.turn (l := .construct d s.next :: s.stack t) (c := s.next) (e := .constructing)
      ⟨fun b => ?_,rfl,rfl,Nat.le_succ _,Nat.lt_succ_self _,rfl,rfl,rfl,rfl,fun b => ?_,fun b => ?_,
        resets_of_same rfl fun _ => List.mem_cons_of_mem _,fun f hf => ?_,.inl ⟨.inl rfl,hnone⟩⟩
    · rw [allocate_account hlife hnone]
      exact h.balanced b
    · simp only [weigh_cons, Frame.constructing, hlife, reduceCtorEq, and_false, and_true, if_false]
      omega
    · simp [Frame.destructing, hlife]
    · obtain rfl | hf := List.mem_cons.mp hf
      · exact .inr rfl
      · exact .inl hf
  | copy d k =>
    obtain ⟨⟨hd,-⟩,rfl⟩ := guarded_eq_some.mp hs
    have hget : s.get k = s.ptr k := get_eq ha
    have hacc := copy_account (r := s.ptr k) (fun _ => refs_pos_of_ptr) hd
    rw [hget]
    cases hk : s.ptr k with
    | none =>
      rw [hk] at hacc
      exact quiet_handles h hacc rfl rfl rfl rfl rfl hsame (fun _ => .inl) (fun _ => rfl)
        (fun _ => rfl) (fun _ => .inl) nofun
    | some b =>
      rw [hk] at hacc
      exact quiet_handles h hacc rfl rfl rfl rfl (h.touch_fault (.inl (refs_pos_of_ptr hk))) hsame
        (fun _ => .inl) (fun _ => rfl) (fun _ => rfl) (fun _ => .inl) nofun
  | reset k =>
    simp only [call, get_eq ha] at hs
    split at hs
    · next b hk =>
      cases hs
      refine quiet_handles (l := [.release b,.null k]) h (Ptr.State.step_of_eq (reset_account hk)) rfl
        rfl rfl rfl rfl rfl (fun _ => .inl) (fun _ => rfl) (fun _ => rfl) (fun j hj => ?_)
        (by simp [Fits])
      by_cases hjk : j = k
      · exact .inr (by simp [hjk])
      · exact .inl fun hnone => hj ((Function.update_of_ne hjk ..).trans hnone)
    · cases hs
      exact h
  | weaken w k =>
    obtain ⟨hw,rfl⟩ := guarded_eq_some.mp hs
    rw [get_eq ha]
    exact weaken_sound h t (fun c hc => .inr (refs_pos_of_ptr hc)) hw
  | copyWeak w x =>
    obtain ⟨hw,rfl⟩ := guarded_eq_some.mp hs
    exact weaken_sound h t (fun c hc => .inl (wrefs_pos_of_wptr hc)) hw
  | resetWeak w =>
    simp only [call] at hs
    split at hs
    · next b hw =>
      cases hs
      refine quiet_handles (l := [.releaseWeak b]) h (Ptr.State.step_of_eq (resetWeak_account hw)) rfl
        rfl rfl rfl rfl rfl (fun v hv => ?_) (fun _ => rfl) (fun _ => rfl) (fun _ => .inl)
        (by simp [Fits])
      by_cases hvw : v = w
      · exact .inr (hvw ▸ ha)
      · left
        change Function.update s.wptr w none v ≠ none
        rwa [Function.update_of_ne hvw]
    · cases hs
      exact h
  | upgrade d w =>
    cases hs
    exact quiet_handles (l := [.upgrade d (.handle w)]) h
      (Ptr.State.step_of_eq (setStack_account (fun _ => Nat.zero_add _) (fun _ => Nat.zero_add _)
        (fun _ => Nat.zero_add _) (fun _ => Nat.zero_add _)))
      rfl rfl rfl rfl rfl rfl (fun _ => .inl) (fun _ => rfl) (fun _ => rfl) (fun _ => .inl)
      (by simp [Fits, Present])
  | sharedFromThis d o =>
    cases hs
    refine quiet_handles (l := [.upgrade d (.m_weak o)]) h
      (Ptr.State.step_of_eq (setStack_account (fun _ => Nat.zero_add _) (fun _ => Nat.zero_add _)
        (fun _ => Nat.zero_add _) (fun _ => Nat.zero_add _)))
      rfl rfl rfl rfl rfl rfl (fun _ => .inl) (fun _ => rfl) (fun _ => rfl) (fun _ => .inl)
      fun f hf => ?_
    obtain rfl := List.mem_singleton.mp hf
    cases o with
    | outside o => trivial
    | inBlock b => exact ha
  | weakFromThis w o =>
    obtain ⟨hw,rfl⟩ := guarded_eq_some.mp hs
    rw [h.use_eq ha]
    exact weaken_sound h t (fun c hc => .inl (h.wrefs_pos (x := .m_weak o) hc)) hw
  | copyConstruct o p =>
    cases hs
    have hnone : s.m_weak (.outside o) = none := by
      cases ho : s.m_weak (.outside o) with
      | none => rfl
      | some b => cases (h.own _ b ho).1
    have heq : s.setSelf (.outside o) none = s := by
      rw [setSelf, Function.update_eq_self_iff.mpr hnone.symm]
    rw [heq]
    exact h
  | copyAssign o p =>
    cases hs
    exact h

omit [DecidableEq H] [DecidableEq W] [DecidableEq O] in
/-- A call of `upgrade()` goes on or returns null. -/
lemma Sound.setStack {f : Frame H W O} {l : List (Frame H W O)} (h : s.Sound)
    (ht : s.stack t = f :: rest) (hf : f.reads.isSome)
    (hl : l = rest ∨ ∃ g : Frame H W O, g.reads.isSome ∧ s.Fits g ∧ l = g :: rest) :
    (s.setStack t l).Sound := by
  have hsame : ∀ w : Frame H W O → ℕ, (∀ g : Frame H W O, g.reads.isSome → w g = 0) →
      weigh w l = weigh w (s.stack t) := by
    intro w hw
    rw [ht, weigh_cons, hw f hf, Nat.zero_add]
    obtain rfl | ⟨g,hg,-,rfl⟩ := hl
    · rfl
    · rw [weigh_cons, hw g hg, Nat.zero_add]
  refine h.quiet ⟨Ptr.State.step_of_eq (setStack_account (fun b => hsame _ ?_) (fun b => hsame _ ?_)
    (fun b => hsame _ ?_) fun b => hsame _ ?_),rfl,rfl,rfl,rfl,rfl,fun _ => .inl,
    fun b => hsame _ ?_,fun b => congrArg _ (hsame _ ?_).symm,resets_of_pop ht rfl ?_ ?_,
    fun g hg => ?_⟩
  case refine_7 =>
    rintro k rfl
    cases hf
  case refine_8 =>
    obtain rfl | ⟨g',-,-,rfl⟩ := hl
    · exact fun _ hg => hg
    · exact fun _ hg => List.mem_cons_of_mem _ hg
  case refine_9 =>
    obtain rfl | ⟨g',-,hfits,rfl⟩ := hl
    · exact .inl (by simp [ht, hg])
    · obtain rfl | hg := List.mem_cons.mp hg
      · refine .inr (hfits.next fun x _ => ⟨?_,?_⟩) <;> cases x <;> exact id
      · exact .inl (by simp [ht, hg])
  all_goals
    intro g hg
    cases g <;> first | rfl | cases hg

omit [DecidableEq H] [DecidableEq W] [DecidableEq O] in
lemma reread_eq {d : H} {x : Source W O} {n : ℕ} (h : s.Sound) (hp : s.Present x)
    (hb : s.m_block x = some b) : ((s.enter x).touch b).reread t d x rest n =
      s.setStack t (if n = 0 then rest else .upgradeLoop d x n :: rest) := by
  rw [h.enter_eq hp, h.touch_eq (.inr (.inl (h.wrefs_pos hb))), reread]

omit [DecidableEq H] [DecidableEq W] [DecidableEq O] in
lemma reread_sound {d : H} {x : Source W O} {f : Frame H W O} (n : ℕ) (h : s.Sound)
    (ht : s.stack t = f :: rest) (hf : f.reads.isSome) (hp : s.Present x)
    (hb : s.m_block x = some b) : (((s.enter x).touch b).reread t d x rest n).Sound := by
  rw [reread_eq h hp hb]
  refine h.setStack ht hf ?_
  split_ifs with hn
  · exact .inl rfl
  · refine .inr ⟨.upgradeLoop d x n,rfl,⟨hp,hn,?_⟩,rfl⟩
    rw [hb]
    exact Option.some_ne_none b

omit [DecidableEq W] [DecidableEq O] in
/-- The compare-exchange of `upgrade()`. -/
lemma upgraded_sound {d : H} {x : Source W O} {n : ℕ} (h : s.Sound)
    (ht : s.stack t = .upgradeLoop d x n :: rest) (hd : s.ptr d = none)
    (hn : s.strong b ≠ 0) :
    (((s.addStrong b).setPtr d (some b)).setStack t rest).Sound := by
  have hr : 0 < (s.account b).refs := (h.balanced b).refs_pos (Nat.pos_of_ne_zero hn)
  have hcopy := copy_account (r := some b) (fun c hc => Option.some.inj hc ▸ hr) hd
  refine h.quiet ⟨fun c => ?_,rfl,rfl,rfl,rfl,h.touch_fault (.inl hr),fun _ => .inl,fun c => ?_,
    fun c => ?_,resets_of_pop ht rfl (by simp) fun _ => id,fun g hg => .inl (by simp [ht, hg])⟩
  · have heq := setStack_account (s := (s.addStrong b).setPtr d (some b)) (t := t) (l := rest)
      (fun c => ?_) (fun c => ?_) (fun c => ?_) (fun c => ?_) c
    · rw [heq]
      exact hcopy c
    all_goals
      change _ = weigh _ (s.stack t)
      rw [ht, weigh_cons]
      exact (Nat.zero_add _).symm
  · rw [ht, weigh_cons]
    exact (Nat.zero_add _).symm
  · rw [ht, weigh_cons]
    exact congrArg (s.dtors c + ·) (Nat.zero_add _)

omit [DecidableEq W] in
lemma publish_sound {d : H} {c : ℕ} (h : s.Sound) (ht : s.stack t = .construct d c :: rest)
    (hd : s.ptr d = none) : (((s.publish c).setPtr d (some c)).setStack t rest).Sound := by
  have hlife : s.life c = .constructing := h.life_of_construct (t := t) (d := d) (by simp [ht])
  obtain ⟨hfrees,hnone⟩ := h.untouched hlife
  refine h.turn (c := c) (e := .alive) ⟨fun b => ?_,rfl,rfl,Nat.le_refl _,?_,rfl,?_,rfl,rfl,
    fun b => ?_,fun b => ?_,resets_of_pop ht rfl (by simp) fun _ => id,
    fun g hg => .inl (by simp [ht, hg]),.inl ⟨.inr rfl,hnone⟩⟩
  · obtain ⟨a,hfirst,howes,hsecond⟩ := publish_account ht hd hlife hnone b
    exact hsecond.balanced (hfirst.balanced (h.balanced b) fun _ _ => rfl) fun _ _ => howes
  · by_contra hc
    cases hlife.symm.trans (h.unborn c (Nat.le_of_not_lt hc))
  · simp [publish, addWeak, touch, setLife, setSelf, setPtr, State.setStack, hfrees]
  · rw [ht, weigh_cons, Frame.constructing, hlife]
    simp [Nat.add_comm]
  · simp [ht, Frame.destructing, hlife]

omit [DecidableEq H] [DecidableEq W] in
lemma destructor_sound {c : ℕ} (h : s.Sound) (ht : s.stack t = .destructor c :: rest)
    (hun : s.Unread (.m_weak (.inBlock c))) :
    ((((s.use (.inBlock c)).setLife c .destroyed).setSelf (.inBlock c) none).setStack t
      (.releaseWeak c :: .releaseWeak c :: rest)).Sound := by
  have hlife : s.life c = .alive := h.life_of_destructor (t := t) (by simp [ht])
  have hself := h.attached c hlife
  refine h.turn (c := c) (e := .destroyed) ⟨fun b => ?_,rfl,rfl,Nat.le_refl _,?_,rfl,?_,rfl,rfl,
    fun b => ?_,fun b => ?_,resets_of_pop ht rfl (by simp) fun g hg => by simp [hg],fun g hg => ?_,
    .inr hun⟩
  · rw [destructor_account ht hlife hself]
    exact h.balanced b
  · by_contra hc
    cases hlife.symm.trans (h.unborn c (Nat.le_of_not_lt hc))
  · change (s.use (.inBlock c)).fault = s.fault
    rw [h.use_eq (o := .inBlock c) (.inr hlife)]
  · rw [ht, hlife]
    simp [Frame.constructing]
  · rw [ht, hlife]
    simp [Frame.destructing, Nat.add_comm]
  · obtain rfl | hg := List.mem_cons.mp hg
    · exact .inr rfl
    · obtain rfl | hg := List.mem_cons.mp hg
      · exact .inr rfl
      · exact .inl (by simp [ht, hg])

omit [DecidableEq W] in
theorem run_sound {f : Frame H W O} {spurious : Bool} (h : s.Sound)
    (ha : s.Allowed (.step t spurious)) (ht : s.stack t = f :: rest)
    (hs : s.run t spurious rest f = some s') : s'.Sound := by
  have hfits : s.Fits f := h.fits t f (by simp [ht])
  cases f with
  | construct d c =>
    obtain ⟨⟨hd,-⟩,rfl⟩ := guarded_eq_some.mp hs
    exact publish_sound h ht hd
  | upgrade d x =>
    simp only [run] at hs
    split at hs
    · cases hs
      rw [h.enter_eq hfits]
      exact h.setStack ht rfl (.inl rfl)
    · next b hb =>
      cases hs
      exact reread_sound _ h ht rfl hfits hb
  | upgradeLoop d x n =>
    obtain ⟨hp,hn,hsome⟩ := hfits
    simp only [run] at hs
    split at hs
    · next hb => exact absurd hb hsome
    · next b hb =>
      split_ifs at hs with hcas
      · obtain ⟨⟨hd,-⟩,rfl⟩ := guarded_eq_some.mp hs
        rw [h.enter_eq hp]
        exact upgraded_sound h ht hd (hcas.2 ▸ hn)
      · cases hs
        exact reread_sound _ h ht rfl hp hb
  | release c =>
    cases hs
    have hr : 0 < (s.account c).refs := Nat.add_pos_right _
      (frames_pos (t := t) (f := .release c) (by simp [ht]) (by simp [Frame.refs]))
    refine h.quiet ⟨release_account ht,rfl,rfl,rfl,rfl,h.touch_fault (.inl hr),fun _ => .inl,
      fun b => ?_,fun b => ?_,resets_of_pop ht rfl (by simp) fun g hg => ?_,fun f hf => ?_⟩
    · split_ifs <;> simp [ht, Frame.constructing]
    · split_ifs <;> simp [ht, Frame.destructing, subStrong, setStack, touch]
    · split_ifs <;> simp [hg]
    · split_ifs at hf
      · obtain rfl | hf := List.mem_cons.mp hf
        · exact .inr trivial
        · exact .inl (by simp [ht, hf])
      · exact .inl (by simp [ht, hf])
  | null k =>
    cases hs
    have hweigh : ∀ w : Frame H W O → ℕ, w (.null k) = 0 → weigh w rest = weigh w (s.stack t) := by
      intro w hw
      rw [ht, weigh_cons, hw, Nat.zero_add]
    refine h.quiet ⟨Ptr.State.step_of_eq (setStack_account (s := s.setLeaving k none)
      (fun _ => hweigh _ rfl) (fun _ => hweigh _ rfl) (fun _ => hweigh _ rfl)
      fun _ => hweigh _ rfl),rfl,rfl,rfl,rfl,rfl,fun _ => .inl,fun _ => hweigh _ rfl,
      fun b => congrArg (s.dtors b + ·) (hweigh _ rfl).symm,fun j hj => ?_,
      fun f hf => .inl (by simp [ht, hf])⟩
    have hjk : j ≠ k := by
      rintro rfl
      exact hj (Function.update_self ..)
    have hold : s.leaving j ≠ none := fun hnone => hj ((Function.update_of_ne hjk ..).trans hnone)
    by_cases hin : .null j ∈ rest
    · exact .inl hin
    · refine .inr ⟨hold,?_⟩
      rw [ht]
      simp [hjk, hin]
  | destroyData c =>
    cases hs
    have hd : 0 < (s.account c).dying :=
      frames_pos (t := t) (f := .destroyData c) (by simp [ht]) (by simp [Frame.dying])
    refine h.quiet ⟨destroyData_account ht,rfl,rfl,rfl,rfl,h.touch_fault (.inr (.inr (.inl hd))),
      fun _ => .inl,fun b => ?_,fun b => ?_,resets_of_pop ht rfl (by simp) fun g hg => by simp [hg],
      fun f hf => ?_⟩
    · simp [ht, Frame.constructing]
    · by_cases hb : b = c
      · subst hb
        simp [ht, Frame.destructing, setStack, touch]
        omega
      · simp [ht, Frame.destructing, setStack, touch, hb, Ne.symm hb]
    · obtain rfl | hf := List.mem_cons.mp hf
      · exact .inr trivial
      · exact .inl (by simp [ht, hf])
  | destructor c =>
    have hlife := h.life_of_destructor (b := c) (t := t) (by simp [ht])
    simp only [run, h.attached c hlife] at hs
    cases hs
    refine destructor_sound h ht ?_
    simpa only [Allowed, ht, ReturnSafe] using ha
  | releaseWeak c =>
    cases hs
    have hr : 0 < (s.account c).wrefs := Nat.add_pos_right _
      (frames_pos (t := t) (f := .releaseWeak c) (by simp [ht]) (by simp [Frame.wrefs]))
    refine h.quiet ⟨releaseWeak_account ht,rfl,rfl,rfl,rfl,h.touch_fault (.inr (.inl hr)),
      fun _ => .inl,fun b => ?_,fun b => ?_,resets_of_pop ht rfl (by simp) fun g hg => ?_,
      fun f hf => ?_⟩
    · split_ifs <;> simp [ht, Frame.constructing]
    · split_ifs <;> simp [ht, Frame.destructing, subWeak, setStack, touch]
    · split_ifs <;> simp [hg]
    · split_ifs at hf
      · obtain rfl | hf := List.mem_cons.mp hf
        · exact .inr trivial
        · exact .inl (by simp [ht, hf])
      · exact .inl (by simp [ht, hf])
  | destroyBlock c =>
    cases hs
    have hf : 0 < (s.account c).freeing :=
      frames_pos (t := t) (f := .destroyBlock c) (by simp [ht]) (by simp [Frame.freeing])
    refine h.quiet ⟨destroyBlock_account ht,rfl,rfl,rfl,rfl,h.touch_fault (.inr (.inr (.inr hf))),
      fun _ => .inl,fun b => ?_,fun b => ?_,resets_of_pop ht rfl (by simp) fun _ => id,fun f hf => ?_⟩
    · simp [ht, Frame.constructing]
    · simp [ht, Frame.destructing, setStack, touch]
    · exact .inl (by simp [ht, hf])

omit [DecidableEq H] [DecidableEq W] in
lemma throw_sound {d : H} {c : ℕ} (h : s.Sound) (ht : s.stack t = .construct d c :: rest)
    (hun : s.Unread (.m_weak (.inBlock c))) :
    ((s.setLife c .discarded).setStack t rest).Sound := by
  have hlife : s.life c = .constructing := h.life_of_construct (t := t) (d := d) (by simp [ht])
  have hnone := (h.untouched hlife).2
  refine h.turn (c := c) (e := .discarded) ⟨fun b => ?_,rfl,?_,Nat.le_refl _,?_,rfl,rfl,rfl,rfl,
    fun b => ?_,fun b => ?_,resets_of_pop ht rfl (by simp) fun _ => id,
    fun g hg => .inl (by simp [ht, hg]),.inr hun⟩
  · rw [discard_account ht hlife]
    exact h.balanced b
  · exact (Function.update_eq_self_iff.mpr hnone.symm).symm
  · by_contra hc
    cases hlife.symm.trans (h.unborn c (Nat.le_of_not_lt hc))
  · rw [ht, weigh_cons, Frame.constructing, hlife]
    simp [Nat.add_comm]
  · simp [ht, Frame.destructing, hlife]

theorem step_sound {a : Action T H W O} (h : s.Sound) (ha : s.Allowed a)
    (hs : s.step a = some s') : s'.Sound := by
  cases a with
  | call t c =>
    simp only [step] at hs
    split_ifs at hs
    exact call_sound h ha hs
  | step t spurious =>
    simp only [step] at hs
    split at hs
    · cases hs
    · next f rest ht => exact run_sound h ha ht hs
  | throw t =>
    simp only [step] at hs
    split at hs
    · next d c rest ht =>
      cases hs
      refine throw_sound h ht ?_
      simpa only [Allowed, ht, ThrowSafe] using ha
    · cases hs

end Steps
end State
end Asp.Ptr.FromThis
