import Asp.Collections.Objects

/-! The same operations on lists in place of vectors, and that no difference can be seen. -/
namespace Asp.Collections
open Asp.Foundation SmallVec
variable {α : Type} {N : ℕ}

/-- The list of each vector that exists. It is unknown for one that was moved from. -/
abbrev Lists (α : Type) : Type := ℕ → Option (Option (List α))

namespace Lists
variable (s : Lists α)

/-- The vector `v` holds `l`. -/
def put (v : ℕ) (l : List α) : Lists α := Function.update s v (some (some l))

/-- The operation on lists, with the exception that it throws. It is undefined where a vector
is missing, a position is out of range or a size too large. -/
def step : Act α → Option (Except String Unit × Lists α)
  | .construct v =>
    match s v with
    | none => some (.ok (), s.put v [])
    | some _ => none
  | .copyConstruct v other =>
    match s v, s other with
    | none, some (some l) => some (.ok (), s.put v l)
    | _, _ => none
  | .moveConstruct v other =>
    match s v, s other with
    | none, some (some l) => some (.ok (), Function.update (s.put v l) other (some none))
    | _, _ => none
  | .copyAssign v other =>
    match s v, s other with
    | some _, some (some l) => some (.ok (), s.put v l)
    | _, _ => none
  | .moveAssign v other =>
    match s v, s other with
    | some _, some (some l) =>
      some (.ok (), if v = other then s else Function.update (s.put v l) other (some none))
    | _, _ => none
  | .destruct v =>
    match s v with
    | some _ => some (.ok (), Function.update s v none)
    | none => none
  | .call v op =>
    match s v with
    | some (some l) =>
      if op.Legal l.length then
        match op.apply l with
        | .ok l' => some (.ok (), s.put v l')
        | .error what => some (.error what, s)
      else none
    | _ => none

/-- A sequence of operations, with what each of them throws. -/
def run : List (Act α) → Lists α → Option (List (Except String Unit) × Lists α)
  | [], s => some ([], s)
  | a :: as, s =>
    (s.step a).bind fun r => (run as r.2).map fun rs => (r.1 :: rs.1, rs.2)

end Lists

/-- The same sequence on vectors. -/
def runActs (N : ℕ) : List (Act α) → World α → List (Except Err Unit) × World α
  | [], w => ([], w)
  | a :: as, w =>
    let r := a.prog N w
    let rs := runActs N as r.2
    (r.1 :: rs.1, rs.2)

/-- How a vector reports what a list throws. -/
def outcome : Except String Unit → Except Err Unit
  | .ok () => .ok ()
  | .error what => .error (.outOfRange what)

/-- What a vector shows of its contents: they are those of `l`. -/
structure Shows (N : ℕ) (w : World α) (v : ℕ) (l : List α) : Prop where
  size : (w.vec v).m_size = l.length
  room : (w.vec v).m_size ≤ (w.vec v).m_capacity
  element : ∀ i a, l[i]? = some a → subscript N v i w = (.ok (some a), w)
  at_inside : ∀ i a, l[i]? = some a → atIndex N v i w = (.ok (some a), w)
  at_outside : ∀ i, l.length ≤ i →
    atIndex N v i w = (.error (.outOfRange "SmallVec::at: index out of range"), w)

theorem Holds.shows {w : World α} {v : ℕ} {l : List α} (h : Holds N w v l) : Shows N w v l where
  size := h.size
  room := h.room
  element i a hi := by
    obtain ⟨b, w', hp, rfl, rfl⟩ := (wp_subscript h hi).elim
    exact hp
  at_inside i a hi := by
    obtain ⟨b, w', hp, rfl, rfl⟩ := (wp_atIndex h hi).elim
    exact hp
  at_outside i hi := by
    obtain ⟨e, w', hp, rfl, rfl⟩ := (wp_atIndex_throws h hi).throws
    exact hp

/-- The vectors are those of `s`, and hold what it knows. -/
structure Agrees (N : ℕ) (w : World α) (s : Lists α) : Prop extends Valid N w where
  alive_iff : ∀ v, w.alive v = (s v).isSome
  holds : ∀ v l, s v = some (some l) → Holds N w v l
  memory : ∀ e ∈ w.faults, e.isLifetime = true

namespace Agrees
variable {w w' : World α} {s : Lists α} {v : ℕ} {l : List α} {g : Prop}

theorem alive (h : Agrees N w s) {x : Option (List α)} (hv : s v = some x) : w.alive v = true := by
  rw [h.alive_iff, hv]
  rfl

theorem dead (h : Agrees N w s) (hv : s v = none) : w.alive v = false := by
  rw [h.alive_iff, hv]
  rfl

lemma memory_append {f f' : List Fault} (h : ∀ e ∈ f, e.isLifetime = true)
    (h' : ∀ e ∈ f', e.isLifetime = true) : ∀ e ∈ f ++ f', e.isLifetime = true := by
  intro e he
  rcases List.mem_append.mp he with he | he
  · exact h e he
  · exact h' e he

theorem does (h : Agrees N w s) (hd : Does N v w w' l g) : Agrees N w' (s.put v l) where
  toValid := h.toValid.does hd
  alive_iff u := by
    by_cases hu : u = v
    · rw [hu, Lists.put, Function.update_self, hd.holds.alive]
      rfl
    · rw [Lists.put, Function.update_of_ne hu, hd.frame.alive u hu, h.alive_iff]
  holds u l' hl := by
    by_cases hu : u = v
    · subst hu
      rw [Lists.put, Function.update_self] at hl
      cases hl
      exact hd.holds
    · rw [Lists.put, Function.update_of_ne hu] at hl
      have hs := h.holds u l' hl
      exact hd.frame.holds hu hs (h.apart u v hs.alive hu)
  memory := by
    obtain ⟨f, hf, hlife, -⟩ := hd.faults
    rw [hf]
    exact memory_append h.memory hlife

theorem moved (h : Agrees N w s) {o : ℕ} (hne : v ≠ o) (hm : Moved N v o w w' l g) :
    Agrees N w' (Function.update (s.put v l) o (some none)) where
  toValid := h.toValid.moved hne hm
  alive_iff u := by
    by_cases huo : u = o
    · rw [huo, Function.update_self, hm.source.alive]
      rfl
    rw [Function.update_of_ne huo, Lists.put]
    by_cases huv : u = v
    · rw [huv, Function.update_self, hm.holds.alive]
      rfl
    · rw [Function.update_of_ne huv, hm.alive, h.alive_iff]
  holds u l' hl := by
    by_cases huo : u = o
    · rw [huo, Function.update_self] at hl
      cases hl
    rw [Function.update_of_ne huo, Lists.put] at hl
    by_cases huv : u = v
    · subst huv
      rw [Function.update_self] at hl
      cases hl
      exact hm.holds
    · rw [Function.update_of_ne huv] at hl
      exact h.toValid.moved_holds hne hm huv huo (h.holds u l' hl)
  memory := by
    obtain ⟨f, hf, hlife, -⟩ := hm.faults
    rw [hf]
    exact memory_append h.memory hlife

theorem destructed (h : Agrees N w s) (he : Effect N v w w' g) (hdead : w'.alive v = false)
    (hvec : w'.vec v = ⟨none, 0, N⟩) : Agrees N w' (Function.update s v none) where
  toValid := h.toValid.framed he.frame (fun hv => by cases hdead.symm.trans hv) fun _ => hvec
  alive_iff u := by
    by_cases hu : u = v
    · rw [hu, Function.update_self, hdead]
      rfl
    · rw [Function.update_of_ne hu, he.frame.alive u hu, h.alive_iff]
  holds u l' hl := by
    by_cases hu : u = v
    · rw [hu, Function.update_self] at hl
      cases hl
    · rw [Function.update_of_ne hu] at hl
      have hs := h.holds u l' hl
      exact he.frame.holds hu hs (h.apart u v hs.alive hu)
  memory := by
    obtain ⟨f, hf, hlife, -⟩ := he.faults
    rw [hf]
    exact memory_append h.memory hlife

/-- Where a vector keeps its list, nothing has changed. -/
lemma put_self (hv : s v = some (some l)) : s.put v l = s := by
  rw [Lists.put, ← hv]
  exact Function.update_eq_self v s

end Agrees

theorem agrees_empty (N : ℕ) : Agrees N (World.empty N α) (fun _ => none) where
  toValid := (clean_empty N).toValid
  alive_iff _ := rfl
  holds _ _ h := nomatch h
  memory := nofun

/-- What a program leads to, with the value it returns or the exception it throws. -/
def Leads (p : VecM α Unit) (w : World α) (r : Except String Unit) (P : World α → Prop) : Prop :=
  ∃ w', p w = (outcome r, w') ∧ P w'

lemma leads_of_wp {p : VecM α Unit} {w : World α} {P Q : World α → Prop}
    (h : Prog.wp p (fun _ => P) Prog.never w) (hQ : ∀ w', P w' → Q w') : Leads p w (.ok ()) Q := by
  obtain ⟨b, w', hp, hw⟩ := h.elim
  exact ⟨w', hp, hQ w' hw⟩

/-- Every operation on vectors that agree with lists does what it does on lists. -/
theorem leads_step {w : World α} {s s' : Lists α} {r : Except String Unit} (a : Act α)
    (h : Agrees N w s) (hs : s.step a = some (r, s')) :
    Leads (a.prog N) w r fun w' => Agrees N w' s' := by
  cases a with
  | construct v =>
    rw [Lists.step] at hs
    split at hs <;> cases hs
    rename_i hv
    exact leads_of_wp (wp_construct (h.gone v (h.dead hv))) fun _ hd => h.does hd
  | copyConstruct v other =>
    rw [Lists.step] at hs
    split at hs <;> cases hs
    rename_i l hv ho
    exact leads_of_wp (wp_copyConstruct h.toValid (h.dead hv) (h.holds other l ho)) fun _ hd =>
      h.does hd
  | moveConstruct v other =>
    rw [Lists.step] at hs
    split at hs <;> cases hs
    rename_i l hv ho
    have hne : v ≠ other := by
      rintro rfl
      cases hv.symm.trans ho
    apply leads_of_wp (wp_moveConstruct h.toValid (h.dead hv) (h.holds other l ho))
    rintro w' ⟨w₁, hd, hm⟩
    have h₁ := (h.does hd).moved hne hm
    unfold Lists.put at h₁ ⊢
    rwa [Function.update_idem] at h₁
  | copyAssign v other =>
    rw [Lists.step] at hs
    split at hs <;> cases hs
    rename_i x l hv ho
    by_cases hne : v = other
    · subst hne
      rw [Agrees.put_self ho]
      exact leads_of_wp (P := fun w' => w' = w) (wp_copyAssign_self rfl) fun _ he => he ▸ h
    · have hl := h.holds other l ho
      exact leads_of_wp (wp_copyAssign (h.stored v (h.alive hv)) hl hne
        (h.apart other v hl.alive (Ne.symm hne)) h.budget) fun _ hd => h.does hd
  | moveAssign v other =>
    rw [Lists.step] at hs
    split at hs <;> cases hs
    rename_i x l hv ho
    split_ifs with hne
    · subst hne
      exact leads_of_wp (P := fun w' => w' = w) (wp_moveAssign_self rfl) fun _ he => he ▸ h
    · have hl := h.holds other l ho
      exact leads_of_wp (wp_moveAssign hne (h.stored v (h.alive hv)) hl
        (h.apart other v hl.alive (Ne.symm hne))) fun _ hm => h.moved hne hm
  | destruct v =>
    rw [Lists.step] at hs
    split at hs <;> cases hs
    rename_i x hv
    apply leads_of_wp (wp_destruct (h.stored v (h.alive hv)))
    rintro w' ⟨he, hdead, hvec⟩
    exact h.destructed he hdead hvec
  | call v op =>
    rw [Lists.step] at hs
    split at hs
    · rename_i l hv
      split_ifs at hs with hlegal
      have hcall := call_spec (h.holds v l hv) h.budget op hlegal
      unfold CallSpec Prog.wp at hcall
      split at hcall
      · rename_i w' hp
        obtain ⟨l', hl', hd⟩ := hcall
        rw [hl'] at hs
        cases hs
        exact ⟨w', hp, h.does hd⟩
      · rename_i e w' hp
        obtain ⟨rfl, what, rfl, hl'⟩ := hcall
        rw [hl'] at hs
        cases hs
        exact ⟨w', hp, h⟩
    · cases hs

/-- Whole sequences of operations, by induction on them. -/
theorem agrees_run {w : World α} {s s' : Lists α} {rs : List (Except String Unit)}
    (as : List (Act α)) (h : Agrees N w s) (hs : s.run as = some (rs, s')) :
    ∃ w', runActs N as w = (rs.map outcome, w') ∧ Agrees N w' s' := by
  induction as generalizing w s rs with
  | nil =>
    cases hs
    exact ⟨w, rfl, h⟩
  | cons a as ih =>
    obtain ⟨⟨r, s₁⟩, hstep, hrest⟩ := Option.bind_eq_some_iff.mp hs
    obtain ⟨⟨rs', s₂⟩, hrun, he⟩ := Option.map_eq_some_iff.mp hrest
    cases he
    obtain ⟨w₁, hp, h₁⟩ := leads_step a h hstep
    obtain ⟨w', hrun', h'⟩ := ih h₁ hrun
    refine ⟨w', ?_, h'⟩
    rw [runActs, hp, hrun']
    rfl

/-- After any operations that are defined on lists, the vectors have returned and thrown the
same, show the same contents, and have only accessed memory that is theirs. -/
theorem vectors_refine_lists (N : ℕ) (as : List (Act α)) {rs : List (Except String Unit)}
    {s : Lists α} (h : Lists.run as (fun _ => none) = some (rs, s)) :
    ∃ w, runActs N as (World.empty N α) = (rs.map outcome, w) ∧
      (∀ v l, s v = some (some l) → Shows N w v l) ∧ ∀ e ∈ w.faults, e.isLifetime = true := by
  obtain ⟨w, hrun, hw⟩ := agrees_run as (agrees_empty N) h
  exact ⟨w, hrun, fun v l hl => (hw.holds v l hl).shows, hw.memory⟩

/-- Without any inline slot: insertions in the middle, an erasure out of range, and a move. -/
theorem vectors_refine_lists_example :
    ∃ w, runActs 0 [.construct 0, .call 0 (.push_back 1), .call 0 (.insertCount 0 2 5),
        .call 0 (.insertRange 2 [8, 9]), .call 0 (.eraseRange 1 6), .call 0 (.erase 1),
        .construct 1, .call 1 .pop_back, .moveAssign 1 0] (World.empty 0 ℕ) =
      ([.ok (), .ok (), .ok (), .ok (),
        .error (.outOfRange "SmallVec::erase: iterator range out of range"), .ok (), .ok (),
        .error (.outOfRange "SmallVec::pop_back: empty vector"), .ok ()], w) ∧
      Shows 0 w 1 [5, 8, 9, 1] := by
  obtain ⟨w, hrun, hshows, -⟩ := vectors_refine_lists 0 [.construct 0, .call 0 (.push_back 1),
    .call 0 (.insertCount 0 2 5), .call 0 (.insertRange 2 [8, 9]), .call 0 (.eraseRange 1 6),
    .call 0 (.erase 1), .construct 1, .call 1 .pop_back, .moveAssign 1 0] rfl
  exact ⟨w, hrun, hshows 1 _ rfl⟩

end Asp.Collections
