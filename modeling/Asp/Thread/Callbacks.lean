import Asp.Foundation.Simulation
import Asp.Thread.Thread
import Mathlib.Data.List.Range

/-! The callbacks of a thread that is stopped and started again at any time. A generation calls
onStart once, then the loop function, then onException if that threw, then onTermination once, and
the next generation begins only after that. -/
namespace Asp.Thread
open Foundation

inductive Callback
  | onStart
  | loopFunc
  | onException
  | onTermination
  deriving DecidableEq

/-- The callbacks that return, or throw, in one step, with their generation. -/
def callbacks (_ : State) (a : Action) (_ : State) : List (ℕ × Callback) :=
  match a with
  | .begin g => [(g,.onStart)]
  | .loopReturn g => [(g,.loopFunc)]
  | .loopThrow g => [(g,.loopFunc),(g,.onException)]
  | .terminated g => [(g,.onTermination)]
  | .start | .joinOld | .spawn | .stop | .join | .test _ | .tokenStop _ | .exit _ => []

/-- What a generation has called when it is in a phase. -/
inductive SoFar : Phase → List Callback → Prop
  | absent : SoFar .absent []
  | created : SoFar .created []
  | testing (n : ℕ) : SoFar .testing (.onStart :: List.replicate n .loopFunc)
  | looping (n : ℕ) : SoFar .looping (.onStart :: List.replicate n .loopFunc)
  | stopped (n : ℕ) : SoFar .terminating (.onStart :: List.replicate n .loopFunc)
  | threw (n : ℕ) :
      SoFar .terminating (.onStart :: List.replicate n .loopFunc ++ [.loopFunc,.onException])
  | exiting {cs : List Callback} (h : SoFar .terminating cs) :
      SoFar .exiting (cs ++ [.onTermination])
  | done {cs : List Callback} (h : SoFar .terminating cs) : SoFar .done (cs ++ [.onTermination])

namespace SoFar
variable {cs : List Callback}

theorem loopReturn (h : SoFar .looping cs) : SoFar .testing (cs ++ [.loopFunc]) := by
  cases h with
  | looping n =>
    rw [List.cons_append, ← List.replicate_succ']
    exact .testing (n + 1)

theorem loopThrow (h : SoFar .looping cs) : SoFar .terminating (cs ++ [.loopFunc,.onException]) := by
  cases h with
  | looping n => exact .threw n

theorem test (h : SoFar .testing cs) (stopped : Bool) :
    SoFar (if stopped then .terminating else .looping) cs := by
  cases h with
  | testing n =>
    cases stopped with
    | true => exact .stopped n
    | false => exact .looping n

theorem exit (h : SoFar .exiting cs) : SoFar .done cs := by
  cases h with
  | exiting h => exact .done h

end SoFar

/-- The callbacks of the generations, one generation after the other. -/
def inOrder (gens : ℕ) (lives : ℕ → List Callback) : List (ℕ × Callback) :=
  (List.range gens).flatMap fun g => (lives g).map (Prod.mk g)

theorem inOrder_succ (g : ℕ) (lives : ℕ → List Callback) :
    inOrder (g + 1) lives = inOrder g lives ++ (lives g).map (Prod.mk g) := by
  rw [inOrder, List.range_succ, List.flatMap_append, List.flatMap_singleton]
  rfl

theorem inOrder_congr {g : ℕ} {lives lives' : ℕ → List Callback} (h : ∀ k < g, lives k = lives' k) :
    inOrder g lives = inOrder g lives' :=
  List.flatMap_congr fun k hk => by rw [h k (List.mem_range.mp hk)]

/-- Callbacks of the last generation come last. -/
theorem inOrder_update {g : ℕ} {lives : ℕ → List Callback} (cs : List Callback) :
    inOrder (g + 1) lives ++ cs.map (Prod.mk g) =
      inOrder (g + 1) (Function.update lives g (lives g ++ cs)) := by
  have hbefore : inOrder g (Function.update lives g (lives g ++ cs)) = inOrder g lives :=
    inOrder_congr fun k hk => Function.update_of_ne (Nat.ne_of_lt hk) ..
  rw [inOrder_succ, inOrder_succ, hbefore, Function.update_self, List.map_append, List.append_assoc]

/-- Only the generation that was started last is alive, also if it was started while its
predecessor was running. -/
structure Alone (s : State) : Prop where
  older : ∀ g, g + 1 < s.gens → s.phase g = .done
  future : ∀ g, s.gens ≤ g → s.phase g = .absent
  present : ∀ g, g < s.gens → s.phase g ≠ .absent
  unjoinable : s.joinable = false → s.LastDone
  joined : s.control = .joined → s.joinable = false

theorem alone_init : Alone init where
  older _ h := absurd h (Nat.not_lt_zero _)
  future _ _ := rfl
  present _ h := absurd h (Nat.not_lt_zero _)
  unjoinable _ _ h := absurd h (Nat.succ_ne_zero _)
  joined h := nomatch h

namespace Alone
variable {s : State} {g : ℕ} {p : Phase}

theorem last (h : Alone s) (hp : s.phase g = p) (ha : p ≠ .absent) (hd : p ≠ .done) :
    g + 1 = s.gens := by
  rw [← hp] at ha hd
  rcases Nat.lt_trichotomy (g + 1) s.gens with hlt | heq | hgt
  · exact absurd (h.older g hlt) hd
  · exact heq
  · exact absurd (h.future g (by omega)) ha

theorem setPhase (h : Alone s) (hg : g + 1 = s.gens) (hd : s.phase g ≠ .done) (hp : p ≠ .absent) :
    Alone (s.setPhase g p) := by
  have hne : ∀ k, k ≠ g → (s.setPhase g p).phase k = s.phase k := fun k hk =>
    Function.update_of_ne hk ..
  refine ⟨fun k hk => ?_,fun k hk => ?_,fun k hk => ?_,fun hj => ?_,h.joined⟩
  · change k + 1 < s.gens at hk
    rw [hne k (by omega)]
    exact h.older k hk
  · change s.gens ≤ k at hk
    rw [hne k (by omega)]
    exact h.future k hk
  · by_cases hk' : k = g
    · subst hk'
      exact (Function.update_self k p s.phase).trans_ne hp
    · rw [hne k hk']
      exact h.present k hk
  · exact absurd (h.unjoinable hj g hg) hd

theorem spawn (h : Alone s) (hdone : s.LastDone) :
    Alone { s.setPhase s.gens .created with
      joinable := true, control := .idle, gens := s.gens + 1 } := by
  have hne : ∀ k, k ≠ s.gens → (s.setPhase s.gens .created).phase k = s.phase k := fun k hk =>
    Function.update_of_ne hk ..
  refine ⟨fun k hk => ?_,fun k hk => ?_,fun k hk => ?_,nofun,nofun⟩
  · change k + 1 < s.gens + 1 at hk
    refine (hne k (by omega)).trans ?_
    rcases Nat.lt_or_ge (k + 1) s.gens with hlt | hge
    · exact h.older k hlt
    · exact hdone k (by omega)
  · change s.gens + 1 ≤ k at hk
    exact (hne k (by omega)).trans (h.future k (by omega))
  · change k < s.gens + 1 at hk
    by_cases hk' : k = s.gens
    · subst hk'
      have hnew : Phase.created ≠ .absent := nofun
      exact (Function.update_self s.gens Phase.created s.phase).trans_ne hnew
    · exact (hne k hk').trans_ne (h.present k (by omega))

end Alone

/-- The callbacks until now, and what they are for each of the generations. -/
structure Ordered (s : State) (es : List (ℕ × Callback)) (lives : ℕ → List Callback) : Prop where
  alone : Alone s
  order : es = inOrder s.gens lives
  soFar : ∀ g, SoFar (s.phase g) (lives g)

namespace Ordered
variable {s t : State} {es : List (ℕ × Callback)} {lives : ℕ → List Callback}

/-- The last generation returns from callbacks. -/
theorem call (h : Ordered s es lives) {g : ℕ} {p : Phase} (p' : Phase) (cs : List Callback)
    (hp : s.phase g = p) (ha : p ≠ .absent) (hd : p ≠ .done) (hp' : p' ≠ .absent)
    (hcs : SoFar p (lives g) → SoFar p' (lives g ++ cs)) :
    ∃ lives, Ordered (s.setPhase g p') (es ++ cs.map (Prod.mk g)) lives := by
  have hlast := h.alone.last hp ha hd
  refine ⟨Function.update lives g (lives g ++ cs),h.alone.setPhase hlast (hp.trans_ne hd) hp',?_,
    fun k => ?_⟩
  · change _ = inOrder s.gens _
    rw [h.order, ← hlast, inOrder_update]
  · by_cases hk : k = g
    · subst hk
      have hphase : (s.setPhase k p').phase k = p' := Function.update_self ..
      rw [hphase, Function.update_self]
      exact hcs (hp ▸ h.soFar k)
    · have hphase : (s.setPhase g p').phase k = s.phase k := Function.update_of_ne hk ..
      rw [hphase, Function.update_of_ne hk]
      exact h.soFar k

/-- A step of the controller that leaves the generations alone. -/
theorem control (h : Ordered s es lives) (ht : Alone t) (hgens : t.gens = s.gens)
    (hphase : t.phase = s.phase) : ∃ lives, Ordered t (es ++ []) lives :=
  ⟨lives,ht,by rw [List.append_nil, hgens]; exact h.order,fun g => hphase ▸ h.soFar g⟩

theorem spawn (h : Ordered s es lives) (hdone : s.LastDone) :
    ∃ lives, Ordered { s.setPhase s.gens .created with
      joinable := true, control := .idle, gens := s.gens + 1 } (es ++ []) lives := by
  have hnone : lives s.gens = [] := by
    have hsoFar := h.soFar s.gens
    rw [h.alone.future s.gens le_rfl] at hsoFar
    generalize lives s.gens = cs at hsoFar
    cases hsoFar
    rfl
  refine ⟨lives,h.alone.spawn hdone,?_,fun k => ?_⟩
  · change _ = inOrder (s.gens + 1) lives
    rw [inOrder_succ, hnone, h.order]
    rfl
  · by_cases hk : k = s.gens
    · subst hk
      have hphase : (s.setPhase s.gens .created).phase s.gens = .created :=
        Function.update_self ..
      change SoFar ((s.setPhase s.gens .created).phase s.gens) _
      rw [hphase, hnone]
      exact .created
    · have hphase : (s.setPhase s.gens .created).phase k = s.phase k :=
        Function.update_of_ne hk ..
      exact hphase.symm ▸ h.soFar k

end Ordered

theorem step_ordered {s t : State} {a : Action} {es : List (ℕ × Callback)}
    (h : ∃ lives, Ordered s es lives) (hs : machine.step s a = some t) :
    ∃ lives, Ordered t (es ++ callbacks s a t) lives := by
  obtain ⟨lives,h⟩ := h
  obtain ⟨hold,hnew,hpresent,hun,hjoined⟩ := h.alone
  cases a with
  | start =>
    obtain ⟨-,rfl⟩ := guarded_eq_some.mp hs
    exact h.control ⟨hold,hnew,hpresent,hun,nofun⟩ rfl rfl
  | stop =>
    obtain ⟨-,rfl⟩ := guarded_eq_some.mp hs
    exact h.control ⟨hold,hnew,hpresent,hun,hjoined⟩ rfl rfl
  | tokenStop g =>
    obtain ⟨-,rfl⟩ := guarded_eq_some.mp hs
    exact h.control ⟨hold,hnew,hpresent,hun,hjoined⟩ rfl rfl
  | joinOld | join =>
    obtain ⟨⟨-,hjoins⟩,rfl⟩ := guarded_eq_some.mp hs
    have hdone : s.LastDone := by
      cases hj : s.joinable with
      | true => exact hjoins hj
      | false => exact hun hj
    exact h.control ⟨hold,hnew,hpresent,fun _ => hdone,fun _ => rfl⟩ rfl rfl
  | spawn =>
    obtain ⟨hc,rfl⟩ := guarded_eq_some.mp hs
    exact h.spawn (hun (hjoined hc))
  | begin g =>
    obtain ⟨hp,rfl⟩ := guarded_eq_some.mp hs
    refine h.call _ [.onStart] hp nofun nofun nofun fun hsoFar => ?_
    generalize lives g = cs at hsoFar
    cases hsoFar
    exact .testing 0
  | test g =>
    obtain ⟨hp,rfl⟩ := guarded_eq_some.mp hs
    refine h.call _ [] hp nofun nofun ?_ fun hsoFar => ?_
    · split_ifs <;> exact nofun
    · rw [List.append_nil]
      exact hsoFar.test s.stopped
  | loopReturn g =>
    obtain ⟨hp,rfl⟩ := guarded_eq_some.mp hs
    exact h.call _ [.loopFunc] hp nofun nofun nofun .loopReturn
  | loopThrow g =>
    obtain ⟨hp,rfl⟩ := guarded_eq_some.mp hs
    exact h.call _ [.loopFunc,.onException] hp nofun nofun nofun .loopThrow
  | terminated g =>
    obtain ⟨hp,rfl⟩ := guarded_eq_some.mp hs
    exact h.call _ [.onTermination] hp nofun nofun nofun .exiting
  | exit g =>
    obtain ⟨hp,rfl⟩ := guarded_eq_some.mp hs
    have hexit := h.call .done [] hp nofun nofun nofun fun hsoFar => by
      rw [List.append_nil]
      exact hsoFar.exit
    obtain ⟨lives,ht⟩ := hexit
    exact ⟨lives,⟨ht.alone.older,ht.alone.future,ht.alone.present,ht.alone.unjoinable,
      ht.alone.joined⟩,ht.order,ht.soFar⟩

/-- The callbacks of every run come generation by generation, and in each generation in their
order. -/
theorem run_ordered (as : List Action) (s : State) (h : machine.run init as = some s) :
    ∃ lives, Ordered s (machine.history callbacks init as) lives :=
  Machine.history_invariant (fun s es => ∃ lives, Ordered s es lives)
    (fun _ _ _ _ h hs => step_ordered h hs) ⟨fun _ => [],alone_init,rfl,fun _ => .absent⟩ h

/-- A thread that throws is started again while its termination callback is running. -/
theorem run_ordered_restart :
    ∃ s lives, machine.run init [.start,.joinOld,.spawn,.begin 0,.test 0,.loopReturn 0,.test 0,
        .loopThrow 0,.start,.terminated 0,.exit 0,.joinOld,.spawn,.begin 1] = some s ∧
      Ordered s [(0,.onStart),(0,.loopFunc),(0,.loopFunc),(0,.onException),(0,.onTermination),
        (1,.onStart)] lives := by
  have hrun : (machine.run init [.start,.joinOld,.spawn,.begin 0,.test 0,.loopReturn 0,.test 0,
      .loopThrow 0,.start,.terminated 0,.exit 0,.joinOld,.spawn,.begin 1]).isSome := by decide
  obtain ⟨s,hs⟩ := Option.isSome_iff_exists.mp hrun
  obtain ⟨lives,h⟩ := run_ordered _ s hs
  exact ⟨s,lives,hs,h⟩

end Asp.Thread
