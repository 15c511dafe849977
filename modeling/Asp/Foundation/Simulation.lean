import Asp.Foundation.Machine
import Mathlib.Data.Nat.Notation

/-! Runs of one machine as runs of another. Each step of the first is explained by actions of
the second, and so, by induction, is each run. -/
namespace Asp.Foundation.Machine
variable {σ τ α β : Type*}

/-- Only the steps that satisfy a guard. -/
def restrict (M : Machine σ α) (guard : σ → α → Prop) [∀ s a, Decidable (guard s a)] :
    Machine σ α where
  step s a := if guard s a then M.step s a else none

theorem restrict_step {M : Machine σ α} {guard : σ → α → Prop} [∀ s a, Decidable (guard s a)]
    {s t : σ} {a : α} :
    (M.restrict guard).step s a = some t ↔ guard s a ∧ M.step s a = some t := by
  by_cases hg : guard s a
  · simp [restrict, hg]
  · simp [restrict, hg]

/-- What the steps of a run say, one after the other. -/
def history (M : Machine σ α) (events : σ → α → σ → List β) (s : σ) : List α → List β
  | [] => []
  | a :: as =>
    match M.step s a with
    | none => []
    | some t => events s a t ++ history M events t as

variable {M : Machine σ α} {A : Machine τ β} {events : σ → α → σ → List β}

@[simp] theorem history_nil (s : σ) : M.history events s [] = [] := rfl

theorem history_cons {s t : σ} {a : α} (h : M.step s a = some t) (as : List α) :
    M.history events s (a :: as) = events s a t ++ M.history events t as := by
  rw [history, h]

/-- Related states stay related, while `A` makes the steps that a step of `M` stands for. -/
structure Simulates (A : Machine τ β) (M : Machine σ α) (R : σ → τ → Prop)
    (events : σ → α → σ → List β) : Prop where
  step : ∀ {s t : σ} {a : α} {x : τ}, R s x → M.step s a = some t →
    ∃ y, A.run x (events s a t) = some y ∧ R t y

/-- The history of a run is a run of the other machine. -/
theorem Simulates.run {R : σ → τ → Prop} (h : A.Simulates M R events) {s t : σ} {x : τ}
    {as : List α} (hx : R s x) (hs : M.run s as = some t) :
    ∃ y, A.run x (M.history events s as) = some y ∧ R t y := by
  induction as generalizing s x with
  | nil =>
    cases hs
    exact ⟨x,rfl,hx⟩
  | cons a as ih =>
    rw [run_cons] at hs
    obtain ⟨u,hu,ht⟩ := Option.bind_eq_some_iff.mp hs
    obtain ⟨y,hy,hR⟩ := h.step hx hu
    obtain ⟨z,hz,hT⟩ := ih hR ht
    refine ⟨z,?_,hT⟩
    rw [history_cons hu, run_append, hy]
    exact hz

/-- Two machines that make the same actions, stay related and say the same. -/
structure Lockstep {τ : Type*} (N : Machine τ α) (M : Machine σ α) (R : σ → τ → Prop)
    (events : σ → α → σ → List β) (events' : τ → α → τ → List β) : Prop where
  step : ∀ {s t : σ} {a : α} {x : τ}, R s x → M.step s a = some t →
    ∃ y, N.step x a = some y ∧ R t y ∧ events s a t = events' x a y

theorem Lockstep.run {N : Machine τ α} {events' : τ → α → τ → List β} {R : σ → τ → Prop}
    (h : N.Lockstep M R events events') {s t : σ} {x : τ} {as : List α} (hx : R s x)
    (hs : M.run s as = some t) :
    ∃ y, N.run x as = some y ∧ R t y ∧ M.history events s as = N.history events' x as := by
  induction as generalizing s x with
  | nil =>
    cases hs
    exact ⟨x,rfl,hx,rfl⟩
  | cons a as ih =>
    rw [run_cons] at hs
    obtain ⟨u,hu,ht⟩ := Option.bind_eq_some_iff.mp hs
    obtain ⟨y,hy,hR,hsame⟩ := h.step hx hu
    obtain ⟨z,hz,hT,hrest⟩ := ih hR ht
    refine ⟨z,?_,hT,?_⟩
    · rw [run_cons, hy]
      exact hz
    · rw [history_cons hu, history_cons hy, hsame, hrest]

theorem history_action {s t : σ} {as : List α} (f : α → List β) (hs : M.run s as = some t) :
    M.history (fun _ a _ => f a) s as = as.flatMap f := by
  induction as generalizing s with
  | nil => rfl
  | cons a as ih =>
    rw [run_cons] at hs
    obtain ⟨u,hu,ht⟩ := Option.bind_eq_some_iff.mp hs
    rw [history_cons hu, ih ht, List.flatMap_cons]

theorem map_history {γ : Type*} (f : β → γ) (s : σ) (as : List α) :
    (M.history events s as).map f = M.history (fun s a t => (events s a t).map f) s as := by
  induction as generalizing s with
  | nil => rfl
  | cons a as ih =>
    rw [history, history]
    cases M.step s a with
    | none => rfl
    | some t => exact (List.map_append ..).trans (congrArg _ (ih t))

/-- What holds of every state and of what the steps have said until then. -/
theorem history_invariant (I : σ → List β → Prop) (hstep : ∀ s a t es, I s es →
      M.step s a = some t → I t (es ++ events s a t)) {s t : σ} {as : List α} (h : I s [])
    (hs : M.run s as = some t) : I t (M.history events s as) := by
  have hgo : ∀ (as : List α) (s : σ) (es : List β), I s es → M.run s as = some t →
      I t (es ++ M.history events s as) := by
    intro as
    induction as with
    | nil =>
      intro s es h hs
      cases hs
      rwa [history_nil, List.append_nil]
    | cons a as ih =>
      intro s es h hs
      rw [run_cons] at hs
      obtain ⟨u,hu,ht⟩ := Option.bind_eq_some_iff.mp hs
      rw [history_cons hu, ← List.append_assoc]
      exact ih u _ (hstep s a u es h hu) ht
  exact hgo as s [] h hs

section Accounts
variable (put take : σ → α → σ → List β)

/-- What goes into a queue at the back comes out of it at the front, over any run, if each step
keeps the account. -/
theorem history_queue (queue : σ → List β)
    (hstep : ∀ s a t, M.step s a = some t → queue s ++ put s a t = take s a t ++ queue t)
    {s t : σ} {as : List α} (hs : M.run s as = some t) :
    queue s ++ M.history put s as = M.history take s as ++ queue t := by
  induction as generalizing s with
  | nil =>
    cases hs
    exact List.append_nil _
  | cons a as ih =>
    rw [run_cons] at hs
    obtain ⟨u,hu,ht⟩ := Option.bind_eq_some_iff.mp hs
    rw [history_cons hu, history_cons hu, ← List.append_assoc, hstep s a u hu, List.append_assoc,
      ih ht, List.append_assoc]

/-- The same for a store in which the order does not matter, item by item. -/
theorem history_count [BEq β] (held : σ → ℕ) (b : β)
    (hstep : ∀ s a t, M.step s a = some t →
      held s + (put s a t).count b = (take s a t).count b + held t)
    {s t : σ} {as : List α} (hs : M.run s as = some t) :
    held s + (M.history put s as).count b = (M.history take s as).count b + held t := by
  induction as generalizing s with
  | nil =>
    cases hs
    exact Nat.add_comm _ _
  | cons a as ih =>
    rw [run_cons] at hs
    obtain ⟨u,hu,ht⟩ := Option.bind_eq_some_iff.mp hs
    have hfirst := hstep s a u hu
    have hrest := ih ht
    rw [history_cons hu, history_cons hu, List.count_append, List.count_append]
    omega

end Accounts

/-- A goal can be reached if every state short of it has a step that brings it nearer. -/
theorem exists_run (I goal : σ → Prop) (m : σ → ℕ)
    (hstep : ∀ s, I s → ¬goal s → ∃ a t, M.step s a = some t ∧ I t ∧ m t < m s)
    (s : σ) (h : I s) : ∃ as t, M.run s as = some t ∧ I t ∧ goal t := by
  induction hm : m s using Nat.strongRecOn generalizing s with
  | ind n ih =>
    by_cases hgoal : goal s
    · exact ⟨[],s,rfl,h,hgoal⟩
    · obtain ⟨a,t,hs,ht,hlt⟩ := hstep s h hgoal
      obtain ⟨as,u,hu,hI,hG⟩ := ih (m t) (hm ▸ hlt) t ht rfl
      exact ⟨a :: as,u,by rw [run_cons, hs]; exact hu,hI,hG⟩

end Asp.Foundation.Machine
