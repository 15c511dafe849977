import Asp.Ptr.RcuCalls

/-! Concurrent `PtrSwap::rcu` calls lose no update. The runs considered need not free memory at
the right time: it is enough that the address of a block is not reused while some handle, PtrSwap
or call in progress refers to the block. A pointer that load() has read counts as owned from the
read on, so that load() may, but need not, be taken as one step. -/
namespace Asp.Ptr
open Foundation

namespace State
variable {T H W S V : Type*}

/-- The functions of the calls on PtrSwap `x` in a list of exchanges, applied in that order. -/
def replay [DecidableEq S] (x : S) (l : List (T × Update S V × Option ℕ)) (v : Option V) :
    Option V :=
  (l.filter fun e => e.2.1.target = x).foldl (fun v e => e.2.1.f v) v

lemma replay_append [DecidableEq S] {x : S} {l : List (T × Update S V × Option ℕ)} {e : T × Update S V × Option ℕ}
    {v : Option V} : replay x (l ++ [e]) v =
      if e.2.1.target = x then e.2.1.f (replay x l v) else replay x l v := by
  unfold replay
  rw [List.filter_append, List.foldl_append]
  split_ifs with he <;> simp [he]

variable [DecidableEq T] [DecidableEq H] [DecidableEq W] [DecidableEq S]
variable [Fintype T] [Fintype H] [Fintype S]

/-- No handle, PtrSwap or call in progress refers to a block at address `a`. -/
def NotReused (s : State T H W S V) (a : ℕ) : Prop := ∀ b < s.next, 0 < s.refs b → s.addr b ≠ a

/-- New memory is not the memory of a block that something still refers to. -/
def AllocGuard (s : State T H W S V) : Action T H W S V → Prop
  | .step _ c => ∀ a ∈ c.address, s.NotReused a
  | _ => True

/-- A function given to rcu returns the pointer to its value. -/
def PureApply (s : State T H W S V) (t : T) (c : Choice H V) : Stage H W S V → Prop
  | .rcuApply u _ o => s.resultValue t o c = u.f (s.valueOf o)
  | _ => True

/-- Besides, the functions given to rcu are pure, and PtrSwap `x` is changed by rcu only. -/
def RcuGuard (x : S) (s : State T H W S V) : Action T H W S V → Prop
  | .start _ op => ¬ op.entry.Replaces x
  | .step t c => s.AllocGuard (.step t c) ∧ (s.todo t = [] → s.PureApply t c (s.stage t))
  | _ => True

instance (x : S) : ∀ g : Stage H W S V, Decidable (g.Replaces x)
  | .exchange y .. | .exchangeMove y .. => inferInstanceAs (Decidable (y = x))
  | .idle | .assign .. | .copy .. | .move .. | .reset .. | .make .. | .weaken .. | .assignWeak ..
  | .copyWeak .. | .moveWeak .. | .resetWeak .. | .upgrade .. | .upgradeLoop .. | .load ..
  | .rcuLoad .. | .rcuApply .. | .rcuExchange .. | .rcuReturn .. => .isFalse id

instance (s : State T H W S V) (a : ℕ) : Decidable (s.NotReused a) :=
  inferInstanceAs (Decidable (∀ b < s.next, 0 < s.refs b → s.addr b ≠ a))

instance (s : State T H W S V) : ∀ a, Decidable (s.AllocGuard a)
  | .step _ c => inferInstanceAs (Decidable (∀ a ∈ c.address, s.NotReused a))
  | .start .. | .handOver .. | .handOverWeak .. => .isTrue trivial

instance [DecidableEq V] (s : State T H W S V) (t : T) (c : Choice H V) :
    ∀ g, Decidable (s.PureApply t c g)
  | .rcuApply u _ o => inferInstanceAs (Decidable (s.resultValue t o c = u.f (s.valueOf o)))
  | .idle | .assign .. | .copy .. | .move .. | .reset .. | .make .. | .weaken .. | .assignWeak ..
  | .copyWeak .. | .moveWeak .. | .resetWeak .. | .upgrade .. | .upgradeLoop .. | .load ..
  | .exchange .. | .exchangeMove .. | .rcuLoad .. | .rcuExchange .. | .rcuReturn .. =>
    .isTrue trivial

instance [DecidableEq V] (x : S) (s : State T H W S V) : ∀ a, Decidable (s.RcuGuard x a)
  | .start _ op => inferInstanceAs (Decidable (¬ op.entry.Replaces x))
  | .step t c => inferInstanceAs (Decidable (s.AllocGuard (.step t c) ∧
      (s.todo t = [] → s.PureApply t c (s.stage t))))
  | .handOver .. | .handOverWeak .. => .isTrue trivial

/-- What is referred to exists, at an address of its own. -/
structure Owned (s : State T H W S V) : Prop where
  distinct : s.Distinct
  born : ∀ b, 0 < s.refs b → b < s.next

end State

namespace State
variable {T H S V : Type*} [Fintype T] [Fintype H] [Fintype S]
variable [DecidableEq T] [DecidableEq H] [DecidableEq S]
-- programs without WeakPtr: nobody takes a reference to a block that has none
variable {s s' : State T H Empty S V} {a : Action T H Empty S V}

/-- What an action does to the memory under the guard. -/
lemma step_grows (hg : s.AllocGuard a) (hs : s.step a = some s') :
    (s'.next = s.next ∧ s'.addr = s.addr ∧ s'.val = s.val) ∨
      ∃ e v, s.NotReused e ∧ s'.next = s.next + 1 ∧ s'.addr = Function.update s.addr s.next e ∧
        s'.val = Function.update s.val s.next (some v) := by
  cases a with
  | step t c =>
    cases step_memory hs with
    | same hn ha hv => exact .inl ⟨hn,ha,hv⟩
    | created e v hc hu hn ha hv =>
      exact .inr ⟨e,v,hg e hc,hn,ha,hv⟩
  | start t op =>
    obtain ⟨-,rfl⟩ := guarded_eq_some.mp hs
    exact .inl ⟨rfl,rfl,rfl⟩
  | handOver t x t' x' =>
    obtain ⟨-,rfl⟩ := guarded_eq_some.mp hs
    exact .inl ⟨rfl,rfl,rfl⟩
  | handOverWeak t x t' x' =>
    obtain ⟨-,rfl⟩ := guarded_eq_some.mp hs
    exact .inl ⟨rfl,rfl,rfl⟩

theorem step_owned (h : s.Owned) (hg : s.AllocGuard a) (hs : s.step a = some s') : s'.Owned := by
  have hacc := step_account h.distinct (fun _ _ w => w.elim) hs
  -- a block with references had some before, or it is the one just created
  have hold : ∀ b, 0 < s'.refs b → 0 < s.refs b ∧ b < s.next ∨ ¬ b < s.next ∧ b < s'.next := by
    intro b hb
    rcases (hacc b).refs_pos hb with hr | ⟨h0,h1⟩
    · exact .inl ⟨hr,h.born b hr⟩
    · simp only [account] at h0 h1
      split_ifs at h0 h1 with hn hn'
      exact .inr ⟨hn,hn'⟩
  rcases step_grows hg hs with ⟨hn,ha,-⟩ | ⟨e,v,he,hn,ha,-⟩
  · have hlive : ∀ b, 0 < s'.refs b → 0 < s.refs b ∧ b < s.next := by
      intro b hb
      rcases hold b hb with hb | hb
      · exact hb
      · omega
    refine ⟨fun b b' hb hb' hab => ?_,fun b hb => hn ▸ (hlive b hb).2⟩
    rw [ha] at hab
    exact h.distinct b b' (hlive b hb).1 (hlive b' hb').1 hab
  · have hcases : ∀ b, 0 < s'.refs b → (0 < s.refs b ∧ b < s.next) ∨ b = s.next := by
      intro b hb
      rcases hold b hb with hb | hb
      · exact .inl hb
      · right
        omega
    refine ⟨fun b b' hb hb' hab => ?_,fun b hb => ?_⟩
    · rw [ha] at hab
      rcases hcases b hb with ⟨hr,hlt⟩ | rfl <;> rcases hcases b' hb' with ⟨hr',hlt'⟩ | rfl
      · rw [Function.update_of_ne hlt.ne, Function.update_of_ne hlt'.ne] at hab
        exact h.distinct b b' hr hr' hab
      · rw [Function.update_of_ne hlt.ne, Function.update_self] at hab
        exact absurd hab (he b hlt hr)
      · rw [Function.update_of_ne hlt'.ne, Function.update_self] at hab
        exact absurd hab.symm (he b' hlt' hr')
      · rfl
    · rcases hcases b hb with ⟨-,hlt⟩ | rfl <;> omega

/-- Pointers to blocks that are referred to keep their values. -/
lemma valueOf_step {r : Option ℕ} (h : s.Owned) (hg : s.AllocGuard a) (hs : s.step a = some s')
    (hr : ∀ b, r = some b → 0 < s.refs b) : s'.valueOf r = s.valueOf r := by
  cases r with
  | none => rfl
  | some b =>
    have hb := h.born b (hr b rfl)
    rcases step_grows hg hs with ⟨-,-,hv⟩ | ⟨e,v,-,-,-,hv⟩
    · simp [valueOf, hv]
    · simp [valueOf, hv, Function.update_of_ne hb.ne]

omit [DecidableEq T] [DecidableEq H] [DecidableEq S] in
lemma RcuGuard.alloc {x : S} (hg : s.RcuGuard x a) : s.AllocGuard a := by
  cases a with
  | step t c => exact hg.1
  | _ => trivial

/-- The invariant of a run that starts in `s₀`: PtrSwap `x` holds the result of applying the
functions of the successful exchanges to its first value, in the order of the exchanges. -/
structure Linear (x : S) (s₀ s : State T H Empty S V) : Prop where
  log : ∃ l, s.installed = s₀.installed ++ l ∧
    s.valueOf (s.slot x) = replay x l (s₀.valueOf (s₀.slot x))
  computed : ∀ t u d o n, s.stage t = .rcuExchange u d o n → s.valueOf n = u.f (s.valueOf o)
  kept : ∀ t, ¬ (s.stage t).Replaces x

/-- What a call has computed stays computed while its pointers are owned. -/
lemma computed_step {x : S} {s₀ : State T H Empty S V} (ho : s.Owned) (h : Linear x s₀ s)
    (hg : s.AllocGuard a) (hs : s.step a = some s') {t : T} {u : Update S V} {d : H}
    {o n : Option ℕ} (hx : s.stage t = .rcuExchange u d o n) :
    s'.valueOf n = u.f (s'.valueOf o) := by
  have hrefs : ∀ r b, r = some b → (r = n ∨ r = o) → 0 < s.refs b := by
    rintro r b rfl hr
    refine refs_pos_of_stage (t := t) ?_
    rcases hr with rfl | rfl <;> simp [hx, Stage.holds, one]
  rw [valueOf_step ho hg hs fun b hb => hrefs n b hb (.inl rfl),
    valueOf_step ho hg hs fun b hb => hrefs o b hb (.inr rfl)]
  exact h.computed t u d o n hx

/-- An action that moves no PtrSwap and no call to its exchange. -/
lemma linear_other {x : S} {s₀ : State T H Empty S V} (ho : s.Owned) (h : Linear x s₀ s)
    (hg : s.AllocGuard a) (hs : s.step a = some s') (hslot : s'.slot x = s.slot x)
    (hi : s'.installed = s.installed)
    (hst : ∀ t u d o n, s'.stage t = .rcuExchange u d o n →
      s.stage t = .rcuExchange u d o n ∨ s'.valueOf n = u.f (s'.valueOf o))
    (hk : ∀ t, ¬ (s'.stage t).Replaces x) : Linear x s₀ s' := by
  refine ⟨?_,fun t u d o n hx => ?_,hk⟩
  · obtain ⟨l,hl,hv⟩ := h.log
    refine ⟨l,hi.trans hl,?_⟩
    rw [hslot, valueOf_step ho hg hs fun b => refs_pos_of_slot, hv]
  · rcases hst t u d o n hx with hx | hx
    · exact computed_step ho h hg hs hx
    · exact hx

/-- A successful exchange: the PtrSwap still holds the pointer that the function was applied to,
since no other block has its address. -/
lemma install_linear {x : S} {s₀ : State T H Empty S V} {t : T} {u : Update S V} {d : H}
    {o n : Option ℕ} (ho : s.Owned) (h : Linear x s₀ s) (hg : s.AllocGuard a)
    (hs : s.step a = some s') (hx : s.stage t = .rcuExchange u d o n)
    (hcmp : (s.slot u.target).map s.addr = o.map s.addr)
    (hslot : s'.slot = Function.update s.slot u.target n)
    (hi : s'.installed = s.installed ++ [(t,u,n)])
    (hst : ∀ t', t' ≠ t → s'.stage t' = s.stage t') (hstage : s'.stage t = .rcuReturn u d n) :
    Linear x s₀ s' := by
  have hold : s.slot u.target = o := slot_eq_of_addr ho.distinct hx hcmp
  have hn : s'.valueOf n = s.valueOf n := by
    refine valueOf_step ho hg hs ?_
    rintro b rfl
    exact refs_pos_of_stage (t := t) (by simp [hx, Stage.holds, one])
  have hkept : s'.valueOf (s.slot x) = s.valueOf (s.slot x) :=
    valueOf_step ho hg hs fun b => refs_pos_of_slot
  obtain ⟨l,hl,hv⟩ := h.log
  refine ⟨⟨l ++ [(t,u,n)],by rw [hi, hl, List.append_assoc],?_⟩,fun t' u' d' o' n' hx' => ?_,
    fun t' hk => ?_⟩
  · rw [replay_append]
    split_ifs with htarget
    · obtain rfl : u.target = x := htarget
      rw [hslot, Function.update_self, hn, h.computed t u d o n hx, ← hold, hv]
    · rw [hslot, Function.update_of_ne (Ne.symm htarget), hkept, hv]
  · by_cases htt : t' = t
    · subst htt
      rw [hstage] at hx'
      cases hx'
    · exact computed_step ho h hg hs (hst t' htt ▸ hx')
  · by_cases htt : t' = t
    · subst htt
      rw [hstage] at hk
      exact hk
    · exact h.kept t' (hst t' htt ▸ hk)

theorem advance_linear {x : S} {s₀ : State T H Empty S V} {t : T} {c : Choice H V} (ho : s.Owned)
    (h : Linear x s₀ s) (hg : s.RcuGuard x (.step t c)) (ht : s.todo t = [])
    (hs : s.step (.step t c) = some s') (ha : s.advance t c (s.stage t) = some s') :
    Linear x s₀ s' := by
  have hst := (advance_frame ha).stage
  have halloc := hg.alloc
  cases advance_progress rfl ha with
  | other hslot hc hi hr hp hf hx =>
    refine linear_other ho h halloc hs (hslot x (h.kept t)) hi (fun t' u d o n hx' => ?_)
      fun t' hk => ?_
    · by_cases htt : t' = t
      · subst htt
        obtain ⟨hst',hv⟩ := advance_apply ha hx'
        have hpure := hg.2 ht
        rw [hst'] at hpure
        have hold : s'.valueOf o = s.valueOf o := by
          refine valueOf_step ho halloc hs ?_
          rintro b rfl
          exact refs_pos_of_stage (t := t') (by simp [hst', Stage.holds, one])
        right
        rw [hv, hold]
        exact hpure
      · exact .inl (hst t' htt ▸ hx')
    · by_cases htt : t' = t
      · subst htt
        exact h.kept t' (hx x hk)
      · exact h.kept t' (hst t' htt ▸ hk)
  | install u d o n hgs hcmp hslot hc hi hr hstage =>
    exact install_linear ho h halloc hs hgs hcmp hslot hi hst hstage
  | «return» u d n hgs hslot hc hi hr hstage =>
    refine linear_other ho h halloc hs (by rw [hslot]) hi (fun t' u d o n hx' => ?_)
      fun t' hk => ?_
    · by_cases htt : t' = t
      · subst htt
        rw [hstage] at hx'
        cases hx'
      · exact .inl (hst t' htt ▸ hx')
    · by_cases htt : t' = t
      · subst htt
        rw [hstage] at hk
        exact hk
      · exact h.kept t' (hst t' htt ▸ hk)

/-- One guarded step keeps the invariant. -/
theorem step_linear {x : S} {s₀ : State T H Empty S V} (ho : s.Owned) (h : Linear x s₀ s)
    (hg : s.RcuGuard x a) (hs : s.step a = some s') : Linear x s₀ s' := by
  have hstep := hs
  cases a with
  | start t op =>
    obtain ⟨-,rfl⟩ := guarded_eq_some.mp hs
    refine linear_other ho h hg.alloc hstep rfl rfl (fun t' u d o n hx => ?_) fun t' hk => ?_
    · by_cases htt : t' = t
      · subst htt
        cases op <;> simp [Op.entry] at hx
      · exact .inl (by simpa [Function.update_of_ne htt] using hx)
    · by_cases htt : t' = t
      · subst htt
        exact hg (by simpa using hk)
      · exact h.kept t' (by simpa [Function.update_of_ne htt] using hk)
  | step t c =>
    simp only [step] at hs
    split at hs
    · next m rest ht =>
      cases hs
      refine linear_other ho h hg.alloc hstep ?_ ?_ (fun t' u d o n hx => .inl ?_) fun t' hk => ?_
      · cases m <;> rfl
      · cases m <;> rfl
      · cases m <;> exact hx
      · cases m <;> exact h.kept t' hk
    · next ht => exact advance_linear ho h hg ht hstep hs
  | handOver t y t' y' =>
    obtain ⟨-,rfl⟩ := guarded_eq_some.mp hs
    exact linear_other ho h hg.alloc hstep rfl rfl (fun _ _ _ _ _ => .inl) h.kept
  | handOverWeak t y t' y' =>
    obtain ⟨-,rfl⟩ := guarded_eq_some.mp hs
    exact linear_other ho h hg.alloc hstep rfl rfl (fun _ _ _ _ _ => .inl) h.kept

omit [DecidableEq T] [DecidableEq H] [DecidableEq S] in
theorem init_owned : (init T H Empty S V).Owned := by
  constructor <;> intro b <;> simp [init, refs, tally, one, Stage.holds]

omit [Fintype T] [Fintype H] [Fintype S] [DecidableEq H] [DecidableEq S] in
theorem init_recorded : (init T H Empty S V).Recorded := by
  constructor <;> intro t <;> simp [init, installedBy, Stage.pending, Stage.finishing]

/-- Between two states of a run: the value of `x` results from the exchanges in between, and the
calls that a thread idle at both ends has made are these exchanges, each call returning the
pointer it installed. -/
def Linearized (x : S) (s₀ s : State T H Empty S V) : Prop :=
  ∃ l, s.installed = s₀.installed ++ l ∧
    s.valueOf (s.slot x) = replay x l (s₀.valueOf (s₀.slot x)) ∧
    ∀ t, s.Idle t →
      let calls := l.filterMap fun e => if e.1 = t then some e.2 else none
      s.called t = s₀.called t ++ calls.map Prod.fst ∧ s.returned t = s₀.returned t ++ calls

end State

variable {T H S V : Type*} [Fintype T] [Fintype H] [Fintype S]
variable [DecidableEq T] [DecidableEq H] [DecidableEq S]

/-- From a state in which no call is in progress, concurrent rcu calls are linearized by their
successful exchanges. -/
theorem rcu_linearized (x : S) (s₀ s : State T H Empty S V)
    (h₀ : machine.Reaches State.AllocGuard (init T H Empty S V) s₀) (hidle : ∀ t, s₀.Idle t)
    (h : machine.Reaches (State.RcuGuard x) s₀ s) : State.Linearized x s₀ s := by
  have hbase : s₀.Owned ∧ s₀.Recorded :=
    h₀.invariant (fun u => u.Owned ∧ u.Recorded) ⟨State.init_owned,State.init_recorded⟩
      fun _ _ _ hu hg hs => ⟨State.step_owned hu.1 hg hs,State.step_recorded hu.2 hs⟩
  have hstage : ∀ {u : State T H Empty S V} {t}, u.Idle t → u.stage t = .idle := by
    intro u t ht
    have hi := ht.2
    cases hg : u.stage t <;> simp_all [Stage.isIdle]
  have hlin : State.Linear x s₀ s₀ :=
    ⟨⟨[],by simp,rfl⟩,fun t u d o n hx => by simp [hstage (hidle t)] at hx,fun t => by
      simp [hstage (hidle t), Stage.Replaces]⟩
  have hfinal := h.invariant (fun u => u.Owned ∧ u.Recorded ∧ State.Linear x s₀ u)
    ⟨hbase.1,hbase.2,hlin⟩ fun _ _ _ hu hg hs =>
      ⟨State.step_owned hu.1 hg.alloc hs,State.step_recorded hu.2.1 hs,
        State.step_linear hu.1 hu.2.2 hg hs⟩
  obtain ⟨-,hrec,hl⟩ := hfinal
  obtain ⟨l,hi,hv⟩ := hl.log
  refine ⟨l,hi,hv,fun t ht => ?_⟩
  have hby : s.installedBy t = s₀.installedBy t ++
      l.filterMap fun e => if e.1 = t then some e.2 else none := by
    rw [State.installedBy, hi, List.filterMap_append]
    rfl
  have hc := hrec.called t
  have hr := hrec.returned t
  have hc₀ := hbase.2.called t
  have hr₀ := hbase.2.returned t
  rw [hstage ht] at hc hr
  rw [hstage (hidle t)] at hc₀ hr₀
  simp only [Stage.pending, Stage.finishing, Option.toList_none, List.append_nil] at hc hr hc₀ hr₀
  exact ⟨by rw [hc, hby, List.map_append, hc₀],by rw [← hr, hby, hr₀]⟩

/-- Two threads increment the value 7. Both compute 8; the exchange of the second one fails, once
spuriously and once because the first one has installed its pointer, and it computes 9. -/
theorem rcu_linearized_example :
    ∃ s₀ s : State (Fin 2) Unit Empty Unit ℕ,
      machine.Reaches State.AllocGuard (init (Fin 2) Unit Empty Unit ℕ) s₀ ∧ (∀ t, s₀.Idle t) ∧
        machine.Reaches (State.RcuGuard ()) s₀ s ∧ s.valueOf (s.slot ()) = some 9 ∧
          State.Linearized () s₀ s := by
  let go (n : ℕ) (t : Fin 2) : List (Action (Fin 2) Unit Empty Unit ℕ) :=
    List.replicate n (.step t .go)
  let u : Update Unit ℕ := ⟨(),Option.map (· + 1)⟩
  let before := [.start 0 (.makeShared () 7),.step 0 (.alloc 100)] ++ go 1 0 ++
    [.start 0 (.storeMove () ())] ++ go 1 0
  let calls := [.start 0 (.rcu () u),.start 1 (.rcu () u)] ++ go 2 0 ++ go 2 1 ++
    [.step 0 (.fresh 8 200),.step 1 (.fresh 8 300),.step 1 .spurious] ++ go 7 1 ++
    [.step 1 (.fresh 8 400)] ++ go 1 0 ++ go 1 1 ++ go 4 0 ++ go 10 1 ++
    [.step 1 (.fresh 9 500)] ++ go 5 1
  have hrun : (machine.runGuarded State.AllocGuard (init (Fin 2) Unit Empty Unit ℕ) before).map
      (fun s₀ => (decide (∀ t, s₀.Idle t),(machine.runGuarded (State.RcuGuard ()) s₀ calls).map
        fun s => s.valueOf (s.slot ()))) = some (true,some (some 9)) := by decide +kernel
  obtain ⟨s₀,hs₀,h⟩ := Option.map_eq_some_iff.mp hrun
  obtain ⟨hidle,h⟩ := Prod.mk.inj h
  obtain ⟨s,hs,hv⟩ := Option.map_eq_some_iff.mp h
  have hi := of_decide_eq_true hidle
  have hr₀ := Machine.reaches_of_runGuarded hs₀
  have hr := Machine.reaches_of_runGuarded hs
  exact ⟨s₀,s,hr₀,hi,hr,hv,rcu_linearized () s₀ s hr₀ hi hr⟩

end Asp.Ptr
