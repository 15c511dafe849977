import Asp.Ptr.Steps

/-! The stages of `PtrSwap::rcu` and the record of its calls: what every step contributes to
the values a PtrSwap holds, to the exchanges and to the pointers returned. -/
namespace Asp.Ptr
open Foundation

/-- The rcu call that a stage belongs to, as long as its exchange has not succeeded. -/
def Stage.pending {H W S V : Type*} : Stage H W S V → Option (Update S V)
  | .rcuLoad u .. | .rcuApply u .. | .rcuExchange u .. => some u
  | _ => none

/-- The rcu call whose exchange has succeeded, with the pointer it is about to return. -/
def Stage.finishing {H W S V : Type*} : Stage H W S V → Option (Update S V × Option ℕ)
  | .rcuReturn u _ newPtr => some (u,newPtr)
  | _ => none

/-- Calls other than rcu that change what PtrSwap `x` holds. -/
def Stage.Replaces {H W S V : Type*} (x : S) : Stage H W S V → Prop
  | .exchange y .. | .exchangeMove y .. => y = x
  | _ => False

namespace State
variable {T H W S V : Type*} {s s' : State T H W S V} {t : T} {c : Choice H V}

/-- The managed value; `none` for a null pointer. -/
def valueOf (s : State T H W S V) (r : Option ℕ) : Option V := r.bind s.val

/-- The value of the pointer that the function given to rcu returns. -/
def resultValue (s : State T H W S V) (t : T) (oldPtr : Option ℕ) : Choice H V → Option V
  | .fresh v _ => some v
  | .share h => s.valueOf (s.ptr (t,h))
  | .same => s.valueOf oldPtr
  | _ => none

/-- The successful exchanges of thread `t`, in order. -/
def installedBy [DecidableEq T] (s : State T H W S V) (t : T) : List (Update S V × Option ℕ) :=
  s.installed.filterMap fun e => if e.1 = t then some e.2 else none

variable [DecidableEq T] [DecidableEq H] [DecidableEq W] [DecidableEq S]

/-- A step of a call seen from the PtrSwaps and from the records of the rcu calls. -/
inductive Progress (s s' : State T H W S V) (t : T) (g : Stage H W S V) : Prop
  | other (hslot : ∀ x, ¬ g.Replaces x → s'.slot x = s.slot x) (hc : s'.called = s.called)
      (hi : s'.installed = s.installed) (hr : s'.returned = s.returned)
      (hp : (s'.stage t).pending = g.pending) (hf : (s'.stage t).finishing = g.finishing)
      (hx : ∀ x, (s'.stage t).Replaces x → g.Replaces x)
  | install (u : Update S V) (d : H) (o n : Option ℕ) (hg : g = .rcuExchange u d o n)
      (ho : (s.slot u.target).map s.addr = o.map s.addr)
      (hslot : s'.slot = Function.update s.slot u.target n) (hc : s'.called = s.called)
      (hi : s'.installed = s.installed ++ [(t,u,n)]) (hr : s'.returned = s.returned)
      (hstage : s'.stage t = .rcuReturn u d n)
  | return (u : Update S V) (d : H) (n : Option ℕ) (hg : g = .rcuReturn u d n)
      (hslot : s'.slot = s.slot) (hc : s'.called = s.called) (hi : s'.installed = s.installed)
      (hr : s'.returned = Function.update s.returned t (s.returned t ++ [(u,n)]))
      (hstage : s'.stage t = .idle)

theorem advance_progress {g : Stage H W S V} (hg : s.stage t = g)
    (h : s.advance t c g = some s') : Progress s s' t g := by
  cases g with
  | idle => cases h
  | make d v =>
    simp only [advance] at h
    split at h
    · obtain ⟨-,rfl⟩ := guarded_eq_some.mp h
      apply Progress.other <;> simp [create, Stage.pending, Stage.finishing, Stage.Replaces]
    · cases h
  | weaken w y =>
    cases h
    cases hy : s.ptr (t,y) <;> apply Progress.other <;>
      simp [Stage.pending, Stage.finishing, Stage.Replaces]
  | copyWeak w y =>
    simp only [advance] at h
    split_ifs at h
    · cases h
      apply Progress.other <;> simp [Stage.pending, Stage.finishing, Stage.Replaces]
    · split at h <;> cases h
      · apply Progress.other <;> simp [hg, Stage.pending, Stage.finishing, Stage.Replaces]
      · cases hy : s.wptr (t,y) <;> apply Progress.other <;>
          simp [Stage.pending, Stage.finishing, Stage.Replaces]
  | upgrade d w =>
    simp only [advance] at h
    split at h <;> cases h
    · apply Progress.other <;> simp [Stage.pending, Stage.finishing, Stage.Replaces]
    · split_ifs <;> apply Progress.other <;>
        simp [Stage.pending, Stage.finishing, Stage.Replaces]
  | upgradeLoop d w n =>
    simp only [advance] at h
    split at h
    · cases h
      apply Progress.other <;> simp [hg, Stage.pending, Stage.finishing, Stage.Replaces]
    · split at h <;> cases h
      · apply Progress.other <;> simp [Stage.pending, Stage.finishing, Stage.Replaces]
      · split_ifs <;> apply Progress.other <;>
          simp [Stage.pending, Stage.finishing, Stage.Replaces]
  | exchange y a d =>
    cases h
    cases d <;> apply Progress.other <;>
      simp +contextual [swapped, Stage.pending, Stage.finishing, Stage.Replaces, eq_comm]
  | exchangeMove y a d =>
    cases h
    cases d <;> apply Progress.other <;>
      simp +contextual [swapped, Stage.pending, Stage.finishing, Stage.Replaces, eq_comm]
  | rcuApply u d o =>
    obtain ⟨r,hr,rfl⟩ := Option.map_eq_some_iff.mp h
    cases c with
    | fresh v a =>
      obtain ⟨-,rfl⟩ := guarded_eq_some.mp hr
      apply Progress.other <;> simp [create, Stage.pending, Stage.finishing, Stage.Replaces]
    | null | share | same =>
      cases hr
      apply Progress.other <;> simp [Stage.pending, Stage.finishing, Stage.Replaces]
    | _ => cases hr
  | rcuExchange u d o n =>
    simp only [advance] at h
    split at h
    · next ha =>
      cases h
      exact .install u d o n rfl (of_decide_eq_true ha) rfl rfl rfl rfl (by simp)
    · cases h
      apply Progress.other <;> simp [Stage.pending, Stage.finishing, Stage.Replaces]
  | rcuReturn u d n =>
    simp only [advance] at h
    split at h
    · cases h
      apply Progress.other <;> simp [hg, Stage.pending, Stage.finishing, Stage.Replaces]
    · cases h
      exact .return u d n rfl rfl rfl rfl rfl (by simp)
  | _ =>
    simp only [advance] at h
    repeat' split at h
    all_goals
      cases h
      apply Progress.other <;> simp [hg, Stage.pending, Stage.finishing, Stage.Replaces]

/-- A call reaches its exchange from the function it was given, with the pointer returned. -/
lemma advance_apply {u : Update S V} {d : H} {o n : Option ℕ}
    (h : s.advance t c (s.stage t) = some s') (hx : s'.stage t = .rcuExchange u d o n) :
    s.stage t = .rcuApply u d o ∧ s'.valueOf n = s.resultValue t o c := by
  cases hg : s.stage t with
  | rcuApply u' d' o' =>
    rw [hg] at h
    obtain ⟨r,hr,rfl⟩ := Option.map_eq_some_iff.mp h
    obtain ⟨rfl,rfl,rfl,rfl⟩ : u' = u ∧ d' = d ∧ o' = o ∧ r.2 = n := by simpa using hx
    refine ⟨rfl,?_⟩
    cases c with
    | fresh v a =>
      obtain ⟨-,rfl⟩ := guarded_eq_some.mp hr
      simp [valueOf, resultValue, create]
    | null | share | same =>
      cases hr
      simp [valueOf, resultValue]
    | _ => cases hr
  | idle =>
    rw [hg] at h
    cases h
  | make d' v =>
    rw [hg] at h
    simp only [advance] at h
    split at h
    · obtain ⟨-,rfl⟩ := guarded_eq_some.mp h
      simp at hx
    · cases h
  | exchange x a d' =>
    rw [hg] at h
    cases h
    cases d' <;> simp [swapped] at hx
  | exchangeMove x a d' =>
    rw [hg] at h
    cases h
    cases d' <;> simp [swapped] at hx
  | upgrade d' w =>
    rw [hg] at h
    simp only [advance] at h
    split at h <;> cases h
    · simp at hx
    · simp only [setStage, Function.update_self] at hx
      split_ifs at hx
  | upgradeLoop d' w n' =>
    rw [hg] at h
    simp only [advance] at h
    split at h
    · cases h
      simp [hg] at hx
    · split at h <;> cases h
      · simp at hx
      · simp only [setStage, Function.update_self] at hx
        split_ifs at hx
  | _ =>
    rw [hg] at h
    simp only [advance] at h
    repeat' split at h
    all_goals
      cases h
      simp [hg] at hx

/-- Every rcu call is on its way to its exchange, on its way back, or completed; the exchanges of
a thread are those of its completed calls, in order, and the one on its way back. -/
structure Recorded (s : State T H W S V) : Prop where
  called : ∀ t, s.called t = (s.installedBy t).map Prod.fst ++ (s.stage t).pending.toList
  returned : ∀ t, s.installedBy t = s.returned t ++ (s.stage t).finishing.toList

omit [DecidableEq H] [DecidableEq W] [DecidableEq S] in
/-- The records survive what changes no exchange and no return. -/
lemma recorded_other {a : List (Update S V)} (h : s.Recorded)
    (hi : s'.installed = s.installed) (hr : s'.returned = s.returned)
    (hc : s'.called = Function.update s.called t (s.called t ++ a))
    (hst : ∀ t', t' ≠ t → s'.stage t' = s.stage t')
    (hp : (s'.stage t).pending.toList = (s.stage t).pending.toList ++ a)
    (hf : (s'.stage t).finishing = (s.stage t).finishing) : s'.Recorded := by
  have hby : ∀ t', s'.installedBy t' = s.installedBy t' := fun t' => by simp [installedBy, hi]
  refine ⟨fun t' => ?_,fun t' => ?_⟩ <;> by_cases ht : t' = t
  · subst ht
    rw [hby, hc, Function.update_self, hp, h.called, List.append_assoc]
  · rw [hby, hc, Function.update_of_ne ht, hst t' ht, h.called]
  · subst ht
    rw [hby, hr, hf, h.returned]
  · rw [hby, hr, hst t' ht, h.returned]

lemma advance_recorded (h : s.Recorded) (ha : s.advance t c (s.stage t) = some s') :
    s'.Recorded := by
  have hst := (advance_frame ha).stage
  cases advance_progress rfl ha with
  | other hslot hc hi hr hp hf hx =>
    refine recorded_other (t := t) (a := []) h hi hr ?_ hst (by rw [hp, List.append_nil]) hf
    rw [hc, List.append_nil, Function.update_eq_self]
  | install u d o n hg ho hslot hc hi hr hstage =>
    have hby : s'.installedBy t = s.installedBy t ++ [(u,n)] := by simp [installedBy, hi]
    have hby' : ∀ t', t' ≠ t → s'.installedBy t' = s.installedBy t' := fun t' ht => by
      simp [installedBy, hi, Ne.symm ht]
    have hcalled := h.called t
    have hreturned := h.returned t
    rw [hg] at hcalled hreturned
    refine ⟨fun t' => ?_,fun t' => ?_⟩ <;> by_cases ht : t' = t
    · subst ht
      simp [hby, hc, hstage, hcalled, Stage.pending]
    · rw [hby' t' ht, hc, hst t' ht, h.called]
    · subst ht
      rw [hby, hr, hstage, hreturned]
      simp [Stage.finishing]
    · rw [hby' t' ht, hr, hst t' ht, h.returned]
  | «return» u d n hg hslot hc hi hr hstage =>
    have hby : ∀ t', s'.installedBy t' = s.installedBy t' := fun t' => by simp [installedBy, hi]
    have hcalled := h.called t
    have hreturned := h.returned t
    rw [hg] at hcalled hreturned
    refine ⟨fun t' => ?_,fun t' => ?_⟩ <;> by_cases ht : t' = t
    · subst ht
      rw [hby, hc, hstage, hcalled]
      rfl
    · rw [hby, hc, hst t' ht, h.called]
    · subst ht
      rw [hby, hr, hstage, hreturned, Function.update_self]
      simp [Stage.finishing]
    · rw [hby, hr, hst t' ht, Function.update_of_ne ht, h.returned]

theorem step_recorded {a : Action T H W S V} (h : s.Recorded) (hs : s.step a = some s') :
    s'.Recorded := by
  cases a with
  | start t op =>
    obtain ⟨hi,rfl⟩ := guarded_eq_some.mp hs
    have hidle : s.stage t = .idle := by
      have ht := hi.2
      cases hg : s.stage t <;> simp_all [Stage.isIdle]
    refine recorded_other (t := t) h rfl rfl rfl (fun t' ht' => by simp [Function.update_of_ne ht'])
      ?_ ?_
    · cases op <;> simp [hidle, Op.entry, Op.update?, Stage.pending]
    · cases op <;> simp [hidle, Op.entry, Stage.finishing]
  | step t c =>
    simp only [step] at hs
    split at hs
    · next m rest ht =>
      cases hs
      cases m <;> exact ⟨h.called,h.returned⟩
    · exact advance_recorded h hs
  | handOver t x t' x' =>
    obtain ⟨-,rfl⟩ := guarded_eq_some.mp hs
    exact ⟨h.called,h.returned⟩
  | handOverWeak t x t' x' =>
    obtain ⟨-,rfl⟩ := guarded_eq_some.mp hs
    exact ⟨h.called,h.returned⟩

end State
end Asp.Ptr
