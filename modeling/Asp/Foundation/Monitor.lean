import Asp.Foundation.Simulation

/-! Data that one owner at a time works on. Every history of such data is a series of critical
sections, one after the other, and the data is what their updates make of it in that order. -/
namespace Asp.Foundation.Monitor
variable {O D : Type*}

inductive Event (O D : Type*)
  | acquire (o : O)
  | update (o : O) (f : D → D)
  | release (o : O)

structure State (O D : Type*) where
  owner : Option O
  data : D

/-- The update that an event makes. -/
def Event.apply (d : D) : Event O D → D
  | .update _ f => f d
  | .acquire _ | .release _ => d

/-- A critical section that is over: the owner, and what it did to the data. -/
structure Section (O D : Type*) where
  owner : O
  updates : List (D → D)

/-- The events of a section up to its end. -/
def working (o : O) (fs : List (D → D)) : List (Event O D) := .acquire o :: fs.map (.update o)

def Section.events (c : Section O D) : List (Event O D) :=
  working c.owner c.updates ++ [.release c.owner]

/-- Sections in a row, and at the end the one of the present owner. -/
inductive Serial : Option O → List (Event O D) → Prop
  | free (cs : List (Section O D)) : Serial none (cs.flatMap Section.events)
  | owned (cs : List (Section O D)) (o : O) (fs : List (D → D)) :
      Serial (some o) (cs.flatMap Section.events ++ working o fs)

theorem Serial.acquire {es : List (Event O D)} (h : Serial none es) (o : O) :
    Serial (some o) (es ++ [.acquire o]) := by
  cases h with
  | free cs => exact .owned cs o []

theorem Serial.update {o : O} {es : List (Event O D)} (h : Serial (some o) es) (f : D → D) :
    Serial (some o) (es ++ [.update o f]) := by
  cases h with
  | owned cs _ fs =>
    have hmore := Serial.owned cs o (fs ++ [f])
    rw [working, List.map_append, ← List.cons_append, ← List.append_assoc] at hmore
    exact hmore

theorem Serial.release {o : O} {es : List (Event O D)} (h : Serial (some o) es) :
    Serial none (es ++ [.release o]) := by
  cases h with
  | owned cs _ fs =>
    have hover := Serial.free (cs ++ [⟨o,fs⟩])
    rw [List.flatMap_append, List.flatMap_singleton, Section.events, ← List.append_assoc] at hover
    exact hover

variable [DecidableEq O]

def step (m : State O D) : Event O D → Option (State O D)
  | .acquire o => guarded (m.owner = none) { m with owner := some o }
  | .update o f => guarded (m.owner = some o) { m with data := f m.data }
  | .release o => guarded (m.owner = some o) { m with owner := none }

def machine : Machine (State O D) (Event O D) where
  step := step

theorem run_acquire (o : O) (d : D) :
    machine.run ⟨none,d⟩ [.acquire o] = some ⟨some o,d⟩ := rfl

theorem run_release (o : O) (d : D) :
    machine.run ⟨some o,d⟩ [.release o] = some ⟨none,d⟩ := by
  simp [machine, Machine.run, step, guarded]

theorem run_update (o : O) (d : D) (f : D → D) :
    machine.run ⟨some o,d⟩ [.update o f] = some ⟨some o,f d⟩ := by
  simp [machine, Machine.run, step, guarded]

theorem step_data {m n : State O D} {e : Event O D} (h : step m e = some n) :
    n.data = e.apply m.data := by
  cases e <;> obtain ⟨-,rfl⟩ := guarded_eq_some.mp h <;> rfl

theorem run_data {m n : State O D} {es : List (Event O D)} (h : machine.run m es = some n) :
    n.data = es.foldl Event.apply m.data := by
  induction es generalizing m with
  | nil =>
    cases h
    rfl
  | cons e es ih =>
    rw [Machine.run_cons] at h
    obtain ⟨k,hk,hn⟩ := Option.bind_eq_some_iff.mp h
    rw [List.foldl_cons, ← step_data hk]
    exact ih hn

theorem step_serial {m n : State O D} {es : List (Event O D)} {e : Event O D}
    (hes : Serial m.owner es) (h : step m e = some n) : Serial n.owner (es ++ [e]) := by
  cases e with
  | acquire o =>
    obtain ⟨hfree,rfl⟩ := guarded_eq_some.mp h
    rw [hfree] at hes
    exact hes.acquire o
  | update o f =>
    obtain ⟨hown,rfl⟩ := guarded_eq_some.mp h
    change Serial m.owner (es ++ [.update o f])
    rw [hown] at hes ⊢
    exact hes.update f
  | release o =>
    obtain ⟨hown,rfl⟩ := guarded_eq_some.mp h
    rw [hown] at hes
    exact hes.release

theorem serial_run {m n : State O D} {es es' : List (Event O D)} (hes : Serial m.owner es)
    (h : machine.run m es' = some n) : Serial n.owner (es ++ es') := by
  induction es' generalizing m es with
  | nil =>
    cases h
    rw [List.append_nil]
    exact hes
  | cons e es' ih =>
    rw [Machine.run_cons] at h
    obtain ⟨k,hk,hn⟩ := Option.bind_eq_some_iff.mp h
    have hall := ih (step_serial hes hk) hn
    rw [List.append_assoc] at hall
    exact hall

end Asp.Foundation.Monitor
