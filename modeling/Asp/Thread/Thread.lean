import Asp.Foundation.Machine
import Mathlib.Data.Nat.Notation
import Mathlib.Logic.Function.Basic

/-! One `asp::Thread` that is stopped, joined and started again. Every `start()` makes a new
generation of the underlying thread, and all of them share the flag `_stopped`. A step is one
access to the flag, or the return of a callback; a loop call begins with the test of the flag. -/
namespace Asp.Thread
open Foundation

/-- Where a generation is in the function that `start()` gives it. -/
inductive Phase
  | absent
  | created       -- before and in onStart
  | testing       -- about to evaluate the condition of the loop
  | looping       -- inside a call of loopFunc
  | terminating   -- inside onTermination
  | exiting       -- about to set the flag for the last time
  | done
  deriving DecidableEq

/-- Where the controller is inside `start()`. -/
inductive Control
  | idle
  | cleared       -- the flag is cleared, the old thread not yet joined
  | joined
  deriving DecidableEq

/-- `asked g` records that `stop()` was called, by the controller or through the token of the
generation, after the `start()` that created the generation `g` began. -/
structure State where
  stopped : Bool
  joinable : Bool
  control : Control
  gens : ℕ
  phase : ℕ → Phase
  asked : ℕ → Bool

inductive Action
  | start                 -- start(): _stopped.clear()
  | joinOld               -- if (_handle.joinable()) _handle.join()
  | spawn                 -- _handle = std::thread(...)
  | stop
  | join
  | begin (g : ℕ)
  | test (g : ℕ)
  | tokenStop (g : ℕ)
  | loopReturn (g : ℕ)
  | loopThrow (g : ℕ)     -- the exception is handled by onException
  | terminated (g : ℕ)    -- onTermination returns
  | exit (g : ℕ)          -- _stopped.test_and_set()

namespace State

def setPhase (s : State) (g : ℕ) (p : Phase) : State :=
  { s with phase := Function.update s.phase g p }

/-- The generation that was started last, if there is one, has set the flag for the last time. -/
def LastDone (s : State) : Prop := ∀ g, g + 1 = s.gens → s.phase g = .done

instance (s : State) : Decidable s.LastDone :=
  decidable_of_iff (s.gens = 0 ∨ s.phase (s.gens - 1) = .done) <| by
    constructor
    · intro h g hg
      rw [← hg, Nat.add_sub_cancel] at h
      exact h.resolve_left (Nat.succ_ne_zero g)
    · intro h
      cases hn : s.gens with
      | zero => exact .inl rfl
      | succ n => exact .inr (h n hn.symm)

/-- `join()` on the handle does not block. -/
def Joins (s : State) : Prop := s.joinable = true → s.LastDone

instance (s : State) : Decidable s.Joins := inferInstanceAs (Decidable (_ → _))

/-- `stop()` concerns the generation that was started last. -/
def askLast (s : State) : State :=
  { s with
    stopped := true
    asked := if s.gens = 0 then s.asked else Function.update s.asked (s.gens - 1) true }

/-- A last generation asks through its token what `stop()` asks. -/
lemma askLast_of_last {s : State} {g : ℕ} (hg : g + 1 = s.gens) :
    s.askLast = { s with stopped := true, asked := Function.update s.asked g true } := by
  simp only [askLast, ← hg, Nat.succ_ne_zero, if_false, Nat.add_sub_cancel]

def step (s : State) : Action → Option State
  | .start => guarded (s.control = .idle) { s with stopped := false, control := .cleared }
  | .joinOld => guarded (s.control = .cleared ∧ s.Joins)
      { s with joinable := false, control := .joined }
  | .spawn => guarded (s.control = .joined)
      { s.setPhase s.gens .created with joinable := true, control := .idle, gens := s.gens + 1 }
  | .stop => guarded (s.control = .idle) s.askLast
  | .join => guarded (s.control = .idle ∧ s.Joins) { s with joinable := false }
  | .begin g => guarded (s.phase g = .created) (s.setPhase g .testing)
  | .test g => guarded (s.phase g = .testing)
      (s.setPhase g (if s.stopped then .terminating else .looping))
  | .tokenStop g => guarded (s.phase g = .looping)
      { s with stopped := true, asked := Function.update s.asked g true }
  | .loopReturn g => guarded (s.phase g = .looping) (s.setPhase g .testing)
  | .loopThrow g => guarded (s.phase g = .looping) (s.setPhase g .terminating)
  | .terminated g => guarded (s.phase g = .terminating) (s.setPhase g .exiting)
  | .exit g => guarded (s.phase g = .exiting) { s.setPhase g .done with stopped := true }

end State

def machine : Machine State Action where
  step := State.step

/-- The constructor sets the flag. -/
def init : State := ⟨true,false,.idle,0,fun _ => .absent,fun _ => false⟩

/-- No generation begins another loop call after it was asked to stop, and none sees itself
stopped that was not. -/
structure Separate (s : State) : Prop where
  stays_stopped : ∀ g t, s.asked g = true → machine.step s (.test g) = some t →
    t.phase g ≠ .looping
  starts_running : ∀ g t, machine.step s (.test g) = some t → t.phase g ≠ .looping →
    s.asked g = true

/-- `start()` is called when the previous generation has set the flag for the last time. -/
def StartGuard (s : State) : Action → Prop
  | .start => s.LastDone
  | _ => True

instance (s : State) : ∀ a, Decidable (StartGuard s a)
  | .start => inferInstanceAs (Decidable s.LastDone)
  | .joinOld | .spawn | .stop | .join | .begin _ | .test _ | .tokenStop _ | .loopReturn _
  | .loopThrow _ | .terminated _ | .exit _ => .isTrue trivial

/-- Only the last generation may be alive, and the flag is its own. -/
structure Inv (s : State) : Prop where
  older : ∀ g, g + 1 < s.gens → s.phase g = .done
  future : ∀ g, s.gens ≤ g → s.phase g = .absent ∧ s.asked g = false
  present : ∀ g, g < s.gens → s.phase g ≠ .absent
  starting : s.control ≠ .idle → s.stopped = false ∧ s.LastDone
  flag : ∀ g, g + 1 = s.gens → s.phase g ≠ .done → s.stopped = s.asked g

theorem inv_init : Inv init where
  older _ h := absurd h (Nat.not_lt_zero _)
  future _ _ := ⟨rfl,rfl⟩
  present _ h := absurd h (Nat.not_lt_zero _)
  starting h := absurd rfl h
  flag _ h := absurd h (Nat.succ_ne_zero _)

namespace Inv
variable {s : State} {g : ℕ}

/-- A generation that takes a step is the last one. -/
theorem last (h : Inv s) (hp : s.phase g ≠ .absent) (hd : s.phase g ≠ .done) : g + 1 = s.gens := by
  rcases Nat.lt_trichotomy (g + 1) s.gens with hlt | heq | hgt
  · exact absurd (h.older g hlt) hd
  · exact heq
  · exact absurd (h.future g (by omega)).1 hp

/-- A generation in the middle of its function is the last one. -/
theorem running (h : Inv s) {p : Phase} (hp : s.phase g = p) (ha : p ≠ .absent) (hd : p ≠ .done) :
    g + 1 = s.gens ∧ s.phase g ≠ .done := by
  subst hp
  exact ⟨h.last ha hd,hd⟩

/-- The controller is not inside `start()` while the last generation is alive. -/
theorem idle (h : Inv s) (hg : g + 1 = s.gens) (hd : s.phase g ≠ .done) : s.control = .idle := by
  by_contra hc
  exact hd ((h.starting hc).2 g hg)

/-- The last generation goes on in its function. -/
theorem setPhase (h : Inv s) {p : Phase} (hg : g + 1 = s.gens) (hd : s.phase g ≠ .done)
    (hp : p ≠ .absent) : Inv (s.setPhase g p) := by
  refine ⟨fun g' hg' => ?_,fun g' hg' => ?_,fun g' hg' => ?_,fun hc => ?_,fun g' hg' _ => ?_⟩
  · have hne : g' ≠ g := by
      change g' + 1 < s.gens at hg'
      omega
    exact (Function.update_of_ne hne ..).trans (h.older g' hg')
  · have hne : g' ≠ g := by
      change s.gens ≤ g' at hg'
      omega
    exact ⟨(Function.update_of_ne hne ..).trans (h.future g' hg').1,(h.future g' hg').2⟩
  · by_cases hne : g' = g
    · subst hne
      exact (Function.update_self g' p s.phase).trans_ne hp
    · exact (Function.update_of_ne hne ..).trans_ne (h.present g' hg')
  · exact absurd (h.idle hg hd) hc
  · obtain rfl : g' = g := Nat.succ.inj (hg'.trans hg.symm)
    exact h.flag g' hg hd

/-- A new generation is created when the flag has been cleared for it. -/
theorem spawn (h : Inv s) (hc : s.control ≠ .idle) :
    Inv { s.setPhase s.gens .created with
      joinable := true, control := .idle, gens := s.gens + 1 } := by
  obtain ⟨hstopped,hdone⟩ := h.starting hc
  refine ⟨fun g hl => ?_,fun g hl => ?_,fun g hl => ?_,fun hi => absurd rfl hi,fun g hl _ => ?_⟩
  · change g + 1 < s.gens + 1 at hl
    refine (Function.update_of_ne (by omega) ..).trans ?_
    rcases Nat.lt_or_ge (g + 1) s.gens with hlt | hge
    · exact h.older g hlt
    · exact hdone g (by omega)
  · change s.gens + 1 ≤ g at hl
    refine ⟨(Function.update_of_ne (by omega) ..).trans (h.future g (by omega)).1,?_⟩
    exact (h.future g (by omega)).2
  · change g < s.gens + 1 at hl
    by_cases hne : g = s.gens
    · subst hne
      have hnew : Phase.created ≠ .absent := by decide
      exact (Function.update_self s.gens Phase.created s.phase).trans_ne hnew
    · exact (Function.update_of_ne hne ..).trans_ne (h.present g (by omega))
  · obtain rfl : g = s.gens := Nat.succ.inj hl
    exact hstopped.trans (h.future s.gens (Nat.le_refl _)).2.symm

/-- The last generation is asked to stop, by the controller or through its token. -/
theorem askLast (h : Inv s) (hc : s.control = .idle) : Inv s.askLast := by
  refine ⟨h.older,fun g hl => ⟨(h.future g hl).1,?_⟩,h.present,fun hi => absurd hc hi,
    fun g hl _ => ?_⟩
  · change s.gens ≤ g at hl
    simp only [State.askLast]
    split_ifs with h0
    · exact (h.future g hl).2
    · rw [Function.update_of_ne (by omega)]
      exact (h.future g hl).2
  · change g + 1 = s.gens at hl
    simp only [State.askLast, ← hl, Nat.add_sub_cancel, Nat.succ_ne_zero, if_false,
      Function.update_self]

end Inv

/-- One guarded step keeps the generations apart. -/
theorem step_inv {s t : State} {a : Action} (h : Inv s) (hg : StartGuard s a)
    (hs : s.step a = some t) : Inv t := by
  cases a with
  | start =>
    obtain ⟨-,rfl⟩ := guarded_eq_some.mp hs
    exact ⟨h.older,h.future,h.present,fun _ => ⟨rfl,hg⟩,fun g hl hd => absurd (hg g hl) hd⟩
  | joinOld =>
    obtain ⟨⟨hc,-⟩,rfl⟩ := guarded_eq_some.mp hs
    have hstart := h.starting (by rw [hc]; decide)
    exact ⟨h.older,h.future,h.present,fun _ => hstart,h.flag⟩
  | spawn =>
    obtain ⟨hc,rfl⟩ := guarded_eq_some.mp hs
    exact h.spawn (by rw [hc]; decide)
  | stop =>
    obtain ⟨hc,rfl⟩ := guarded_eq_some.mp hs
    exact h.askLast hc
  | join =>
    obtain ⟨⟨hc,-⟩,rfl⟩ := guarded_eq_some.mp hs
    exact ⟨h.older,h.future,h.present,fun hi => absurd hc hi,h.flag⟩
  | tokenStop g =>
    obtain ⟨hp,rfl⟩ := guarded_eq_some.mp hs
    obtain ⟨hlast,hd⟩ := h.running hp (by decide) (by decide)
    rw [← State.askLast_of_last hlast]
    exact h.askLast (h.idle hlast hd)
  | exit g =>
    obtain ⟨hp,rfl⟩ := guarded_eq_some.mp hs
    obtain ⟨hlast,hd⟩ := h.running hp (by decide) (by decide)
    have h' := h.setPhase (p := .done) hlast hd (by decide)
    refine ⟨h'.older,h'.future,h'.present,fun hc => absurd (h.idle hlast hd) hc,
      fun g' hl hn => ?_⟩
    obtain rfl : g' = g := Nat.succ.inj (hl.trans hlast.symm)
    exact absurd (Function.update_self ..) hn
  | test g =>
    obtain ⟨hp,rfl⟩ := guarded_eq_some.mp hs
    obtain ⟨hlast,hd⟩ := h.running hp (by decide) (by decide)
    refine h.setPhase hlast hd ?_
    split_ifs <;> decide
  | begin g | loopReturn g | loopThrow g | terminated g =>
    obtain ⟨hp,rfl⟩ := guarded_eq_some.mp hs
    obtain ⟨hlast,hd⟩ := h.running hp (by decide) (by decide)
    exact h.setPhase hlast hd (by decide)

theorem Inv.separate {s : State} (h : Inv s) : Separate s := by
  have htest : ∀ g t, machine.step s (.test g) = some t →
      t.phase g = if s.asked g then .terminating else .looping := by
    intro g t hs
    obtain ⟨hp,rfl⟩ := guarded_eq_some.mp hs
    obtain ⟨hlast,hd⟩ := h.running hp (by decide) (by decide)
    rw [← h.flag g hlast hd]
    exact Function.update_self ..
  refine ⟨fun g t ha hs => ?_,fun g t hs hl => ?_⟩
  · rw [htest g t hs, if_pos ha]
    decide
  · rw [htest g t hs] at hl
    by_contra ha
    rw [if_neg ha] at hl
    exact hl rfl

/-- The generations are apart in every run in which `start()` is only called once the previous
generation has terminated. -/
theorem guarded_run_separate (s : State) (h : machine.Reaches StartGuard init s) : Separate s := by
  have hinv : Inv s := h.invariant Inv inv_init fun _ _ _ hi hg hs => step_inv hi hg hs
  exact hinv.separate

/-- A generation that is stopped from outside, and one that stops itself after that. -/
theorem guarded_run_separate_example :
    ∃ s, machine.runGuarded StartGuard init [.start,.joinOld,.spawn,.begin 0,.test 0,.stop,
        .loopReturn 0,.test 0,.terminated 0,.exit 0,.start,.joinOld,.spawn,.begin 1,.test 1,
        .tokenStop 1,.loopReturn 1] = some s ∧ s.phase 1 = .testing ∧ Separate s := by
  have hrun : (machine.runGuarded StartGuard init [.start,.joinOld,.spawn,.begin 0,.test 0,.stop,
      .loopReturn 0,.test 0,.terminated 0,.exit 0,.start,.joinOld,.spawn,.begin 1,.test 1,
      .tokenStop 1,.loopReturn 1]).map (fun s => s.phase 1) = some .testing := by decide
  obtain ⟨s,hs,hp⟩ := Option.map_eq_some_iff.mp hrun
  exact ⟨s,hs,hp,guarded_run_separate s (Machine.reaches_of_runGuarded hs)⟩

/-- A thread is stopped and started again while its last loop call is running: it goes on. One
that is started again while its termination callback is running: the new generation finds the
flag that the old one sets at its end. -/
theorem restart_leaks :
    (¬ ∀ s, machine.Reaches (fun _ _ => True) init s → ∀ g t, s.asked g = true →
      machine.step s (.test g) = some t → t.phase g ≠ .looping) ∧
    ¬ ∀ s, machine.Reaches (fun _ _ => True) init s → ∀ g t,
      machine.step s (.test g) = some t → t.phase g ≠ .looping → s.asked g = true := by
  constructor
  · intro h
    have hrun : (machine.run init [.start,.joinOld,.spawn,.begin 0,.test 0,.stop,.start,
        .loopReturn 0]).map
        (fun s => (s.asked 0,(machine.step s (.test 0)).map fun t => t.phase 0)) =
        some (true,some .looping) := by decide
    obtain ⟨s,hs,hv⟩ := Option.map_eq_some_iff.mp hrun
    obtain ⟨ha,ht⟩ := Prod.mk.inj hv
    obtain ⟨t,ht,hp⟩ := Option.map_eq_some_iff.mp ht
    exact h s (Machine.reaches_of_run hs) 0 t ha ht hp
  · intro h
    have hrun : (machine.run init [.start,.joinOld,.spawn,.begin 0,.test 0,.stop,.loopReturn 0,
        .test 0,.start,.terminated 0,.exit 0,.joinOld,.spawn,.begin 1]).map
        (fun s => (s.asked 1,(machine.step s (.test 1)).map fun t => t.phase 1)) =
        some (false,some .terminating) := by decide
    obtain ⟨s,hs,hv⟩ := Option.map_eq_some_iff.mp hrun
    obtain ⟨ha,ht⟩ := Prod.mk.inj hv
    obtain ⟨t,ht,hp⟩ := Option.map_eq_some_iff.mp ht
    have hasked := h s (Machine.reaches_of_run hs) 1 t ht (by rw [hp]; decide)
    cases ha.symm.trans hasked

/-- From `s` the generation `g` runs to its end, and nothing else happens. -/
structure Ends (g : ℕ) (s t : State) : Prop where
  reaches : machine.Reaches (fun _ _ => True) s t
  phase : t.phase g = .done
  stopped : t.stopped = true
  control : t.control = s.control
  gens : t.gens = s.gens
  asked : t.asked = s.asked

lemma Ends.step {s t : State} {g : ℕ} {a : Action} {p : Phase}
    (ha : machine.step s a = some (s.setPhase g p)) (h : Ends g (s.setPhase g p) t) :
    Ends g s t where
  reaches := (Machine.Reaches.step .refl trivial ha).trans h.reaches
  phase := h.phase
  stopped := h.stopped
  control := h.control
  gens := h.gens
  asked := h.asked

/-- Every generation that is alive can run to its end: its loop call throws. -/
lemma exists_ends {s : State} {g : ℕ} (ha : s.phase g ≠ .absent) (hd : s.phase g ≠ .done) :
    ∃ t, Ends g s t := by
  have hexit : ∀ s : State, s.phase g = .exiting → ∃ t, Ends g s t := by
    intro s hp
    refine ⟨{ s.setPhase g .done with stopped := true },⟨?_,Function.update_self ..,rfl,rfl,rfl,rfl⟩⟩
    exact .step (a := .exit g) .refl trivial (guarded_eq_some.mpr ⟨hp,rfl⟩)
  have hterm : ∀ s : State, s.phase g = .terminating → ∃ t, Ends g s t := by
    intro s hp
    obtain ⟨t,ht⟩ := hexit (s.setPhase g .exiting) (Function.update_self ..)
    exact ⟨t,ht.step (a := .terminated g) (guarded_eq_some.mpr ⟨hp,rfl⟩)⟩
  have hloop : ∀ s : State, s.phase g = .looping → ∃ t, Ends g s t := by
    intro s hp
    obtain ⟨t,ht⟩ := hterm (s.setPhase g .terminating) (Function.update_self ..)
    exact ⟨t,ht.step (a := .loopThrow g) (guarded_eq_some.mpr ⟨hp,rfl⟩)⟩
  have htest : ∀ s : State, s.phase g = .testing → ∃ t, Ends g s t := by
    intro s hp
    cases hst : s.stopped with
    | true =>
      obtain ⟨t,ht⟩ := hterm (s.setPhase g .terminating) (Function.update_self ..)
      exact ⟨t,ht.step (a := .test g) (guarded_eq_some.mpr ⟨hp,by rw [hst]; rfl⟩)⟩
    | false =>
      obtain ⟨t,ht⟩ := hloop (s.setPhase g .looping) (Function.update_self ..)
      exact ⟨t,ht.step (a := .test g) (guarded_eq_some.mpr ⟨hp,by rw [hst]; rfl⟩)⟩
  cases hp : s.phase g with
  | absent => exact absurd hp ha
  | created =>
    obtain ⟨t,ht⟩ := htest (s.setPhase g .testing) (Function.update_self ..)
    exact ⟨t,ht.step (a := .begin g) (guarded_eq_some.mpr ⟨hp,rfl⟩)⟩
  | testing => exact htest s hp
  | looping => exact hloop s hp
  | terminating => exact hterm s hp
  | exiting => exact hexit s hp
  | done => exact absurd hp hd

/-- The guard is exact: a `start()` that breaks it can be followed by a generation that finds
itself stopped without having been asked to. -/
theorem unguarded_start_leaks {s : State} (h : Inv s) (hc : s.control = .idle)
    (hg : ¬StartGuard s .start) :
    ∃ t, machine.Reaches (fun _ _ => True) s t ∧ ¬Separate t := by
  change ¬ ∀ g, g + 1 = s.gens → s.phase g = .done at hg
  obtain ⟨g,hg⟩ := not_forall.mp hg
  obtain ⟨hlast,hd⟩ := Classical.not_imp.mp hg
  let s₁ : State := { s with stopped := false, control := .cleared }
  have h₁ : machine.step s .start = some s₁ := guarded_eq_some.mpr ⟨hc,rfl⟩
  obtain ⟨t,ht⟩ := exists_ends (s := s₁) (h.present g (by omega)) hd
  have hgens : t.gens = s.gens := ht.gens
  -- the controller joins the old generation and makes a new one
  let t₁ : State := { t with joinable := false, control := .joined }
  have h₂ : machine.step t .joinOld = some t₁ := by
    refine guarded_eq_some.mpr ⟨⟨ht.control,fun _ g' hg' => ?_⟩,rfl⟩
    obtain rfl : g' = g := by omega
    exact ht.phase
  let t₂ : State := { t₁.setPhase t₁.gens .created with
    joinable := true, control := .idle, gens := t₁.gens + 1 }
  have hcontrol : t₁.control = .joined := rfl
  have h₃ : machine.step t₁ .spawn = some t₂ := guarded_eq_some.mpr ⟨hcontrol,rfl⟩
  let t₃ : State := t₂.setPhase t.gens .testing
  have h₄ : machine.step t₂ (.begin t.gens) = some t₃ :=
    guarded_eq_some.mpr ⟨Function.update_self ..,rfl⟩
  refine ⟨t₃,?_,fun hsep => ?_⟩
  · have hstart : machine.Reaches (fun _ _ => True) s s₁ := .step .refl trivial h₁
    exact .step (.step (.step (hstart.trans ht.reaches) trivial h₂) trivial h₃) trivial h₄
  · have h₅ : machine.step t₃ (.test t.gens) = some (t₃.setPhase t.gens .terminating) := by
      refine guarded_eq_some.mpr ⟨Function.update_self ..,?_⟩
      have hstopped : t₃.stopped = true := ht.stopped
      rw [hstopped]
      rfl
    have hp : (t₃.setPhase t.gens .terminating).phase t.gens = .terminating :=
      Function.update_self ..
    have hasked := hsep.starts_running t.gens _ h₅ (by rw [hp]; decide)
    have hfalse : t₃.asked t.gens = false := by
      change t.asked t.gens = false
      rw [ht.asked, hgens]
      exact (h.future s.gens (Nat.le_refl _)).2
    cases hfalse.symm.trans hasked

end Asp.Thread
