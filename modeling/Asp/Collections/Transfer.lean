import Asp.Collections.Lifetimes

/-! Move construction and move assignment: in which storage modes of the source they hand
over all that it had. -/
namespace Asp.Collections
open Asp.Foundation SmallVec
variable {α : Type} {N : ℕ}

/-- The vector `v` has taken over the elements `l` of `o`: that one is as good as new, and after
any pushes to it both vectors can be destroyed in either order. -/
structure Transferred (N v o : ℕ) (l : List α) (w : World α) : Prop where
  holds : Holds N w v l
  size : (w.vec o).m_size = 0
  capacity : (w.vec o).m_capacity = N
  apart : ∀ i j, i < (w.vec v).m_size → j < (w.vec o).m_size → (w.idata N v, i) ≠ (w.idata N o, j)
  released : ∀ xs : List α, xs.length < 2 ^ 63 → ∀ vs, vs = [v, o] ∨ vs = [o, v] →
    ∃ w', (vectors α N).run w (xs.map (fun x => .call o (.push_back x)) ++ vs.map .destruct) =
      some w' ∧ (∀ u ∈ vs, w'.alive u = false) ∧ LifetimesKept N w'

/-- Pushes to a vector among others. -/
theorem run_pushes {w : World α} {o : ℕ} {l : List α} (xs : List α) (hw : Clean N w)
    (h : Holds N w o l) (hmax : l.length + xs.length < 2 ^ 63) :
    ∃ w', (vectors α N).run w (xs.map fun x => .call o (.push_back x)) = some w' ∧ Clean N w' ∧
      Holds N w' o (l ++ xs) ∧ w'.alive = w.alive := by
  induction xs generalizing w l with
  | nil => exact ⟨w, rfl, hw, by rwa [List.append_nil], rfl⟩
  | cons x xs ih =>
    rw [List.length_cons] at hmax
    obtain ⟨_, w₁, hrun, hd⟩ :=
      (wp_emplace_back h hw.budget (fun w' _ => reads_value w' x) (by omega)).elim
    have halive : w₁.alive = w.alive := by
      funext u
      by_cases hu : u = o
      · rw [hu, hd.holds.alive, h.alive]
      · exact hd.frame.alive u hu
    obtain ⟨w', hrun', hw', h', halive'⟩ := ih (hw.does hd trivial) hd.holds (by
      rw [List.length_append, List.length_singleton]
      omega)
    refine ⟨w', ?_, hw', ?_, halive'.trans halive⟩
    · rw [List.map_cons, Machine.run_cons]
      have hstep : (vectors α N).step w (.call o (.push_back x)) = some w₁ :=
        guarded_eq_some.mpr ⟨⟨h.alive, by change _ + 1 < _; rw [h.size]; omega⟩,
          congrArg Prod.snd hrun⟩
      rw [hstep]
      exact hrun'
    · rwa [List.append_assoc] at h'

/-- Any list, in a vector that has been filled with it. -/
lemma exists_holds (N : ℕ) (l : List α) (hl : l.length < 2 ^ 63) :
    ∃ w : World α, Clean N w ∧ Holds N w 0 l := by
  obtain ⟨_, w₀, -, hd⟩ := (wp_construct (N := N) (w := World.empty N α) (v := 0) rfl).elim
  obtain ⟨w, -, hw, h, -⟩ := run_pushes l ((clean_empty N).does hd trivial) hd.holds
    (by rwa [List.length_nil, Nat.zero_add])
  exact ⟨w, hw, h⟩

/-- Destructors among others. -/
theorem run_destructs {w : World α} (vs : List ℕ) (hw : Clean N w)
    (halive : ∀ v ∈ vs, w.alive v = true) (hnodup : vs.Nodup) :
    ∃ w', (vectors α N).run w (vs.map .destruct) = some w' ∧ (∀ v ∈ vs, w'.alive v = false) ∧
      (∀ v, v ∉ vs → w'.alive v = w.alive v) ∧ Clean N w' := by
  induction vs generalizing w with
  | nil => exact ⟨w, rfl, nofun, fun _ _ => rfl, hw⟩
  | cons v vs ih =>
    have hv := halive v List.mem_cons_self
    obtain ⟨hnot, hnodup⟩ := List.nodup_cons.mp hnodup
    obtain ⟨_, w₁, hrun, he, hdead, hvec⟩ := (wp_destruct (hw.stored v hv)).elim
    have hw₁ : Clean N w₁ := hw.effect he (hw.all_live hv)
      (fun ha => by cases hdead.symm.trans ha) fun _ => hvec
    obtain ⟨w', hrun', hgone, hrest, hw'⟩ := ih hw₁ (fun u hu => by
      rw [he.frame.alive u fun he => hnot (he ▸ hu)]
      exact halive u (List.mem_cons_of_mem v hu)) hnodup
    refine ⟨w', ?_, fun u hu => ?_, fun u hu => ?_, hw'⟩
    · rw [List.map_cons, Machine.run_cons]
      have hstep : (vectors α N).step w (.destruct v) = some w₁ :=
        guarded_eq_some.mpr ⟨hv, congrArg Prod.snd hrun⟩
      rw [hstep]
      exact hrun'
    · rcases List.mem_cons.mp hu with rfl | hu
      · exact (hrest u hnot).trans hdead
      · exact hgone u hu
    · rw [List.mem_cons, not_or] at hu
      exact (hrest u hu.2).trans (he.frame.alive u hu.1)

lemma transferred_of_moved {w w' : World α} {v o : ℕ} {l : List α} {g : Prop} (hw : Clean N w)
    (hne : v ≠ o) (hm : Moved N v o w w' l g) (hg : g) (h : Stored N w o)
    (he : Act.Empties N w o) : Transferred N v o l w' := by
  have hw' := hw.moved_empties hne hm hg he
  have hvec : (w'.vec o).m_size = 0 ∧ (w'.vec o).m_capacity = N := by
    rcases h.cases with ⟨hl, hc, -⟩ | ⟨hl, -⟩
    · rw [hm.kept hl]
      refine ⟨he.resolve_left fun ht => ?_, hc⟩
      cases hl.symm.trans ht
    · rw [hm.emptied hl]
      exact ⟨rfl, rfl⟩
  refine ⟨hm.holds, hvec.1, hvec.2, fun i j _ hj => ?_, fun xs hxs vs hvs => ?_⟩
  · rw [hvec.1] at hj
    exact absurd hj (Nat.not_lt_zero j)
  · have hsource : Holds N w' o [] := ⟨hm.source, hvec.1, nofun⟩
    obtain ⟨w₁, hrun, hw₁, -, halive⟩ := run_pushes xs hw' hsource (by
      rw [List.length_nil]
      omega)
    obtain ⟨w₂, hrun', hgone, -, hw₂⟩ := run_destructs vs hw₁ (by
      rw [halive]
      rcases hvs with rfl | rfl <;> simp [hm.holds.alive, hm.source.alive]) (by
      rcases hvs with rfl | rfl <;> simp [hne, hne.symm])
    rw [Machine.run_append, hrun, Option.bind_some]
    exact ⟨w₂, hrun', hgone, hw₂.lifetimesKept⟩

lemma empties_of_transferred {w w' : World α} {v o : ℕ} {l : List α} {g : Prop}
    (hm : Moved N v o w w' l g) (ht : Transferred N v o l w') : Act.Empties N w o := by
  cases hl : w.isLarge N o
  · right
    rw [← hm.kept hl]
    exact ht.size
  · exact .inl hl

lemma wp_iff_of {ε σ β : Type} {p : Prog ε σ β} {P Q : β → σ → Prop} {c : Prop} {s : σ}
    (h : Prog.wp p P Prog.never s) (hQ : ∀ b s', P b s' → (Q b s' ↔ c)) :
    Prog.wp p Q Prog.never s ↔ c := by
  obtain ⟨b, s', hp, hP⟩ := h.elim
  unfold Prog.wp
  rw [hp]
  exact hQ b s' hP

/-- A move hands over everything exactly when its source is on the heap or empty. -/
theorem move_transfers_iff {w : World α} {v o : ℕ} {l : List α} (hw : Clean N w)
    (h : Holds N w o l) (hne : v ≠ o) :
    (w.alive v = true → (Prog.wp (moveAssign N v o) (fun _ => Transferred N v o l) Prog.never w ↔
      w.isLarge N o = true ∨ (w.vec o).m_size = 0)) ∧
    (w.alive v = false → (Prog.wp (moveConstruct N v o) (fun _ => Transferred N v o l) Prog.never w ↔
      w.isLarge N o = true ∨ (w.vec o).m_size = 0)) := by
  constructor
  · intro hv
    apply wp_iff_of (wp_moveAssign hne (hw.stored v hv) h (hw.apart o v h.alive hne.symm))
    intro _ w' hm
    exact ⟨empties_of_transferred hm, transferred_of_moved hw hne hm (hw.all_live hv) h.toStored⟩
  · intro hv
    apply wp_iff_of (wp_moveConstruct hw.toValid hv h)
    rintro _ w' ⟨w₁, hd, hm⟩
    -- the construction of `v` leaves the source as it is
    have he : Act.Empties N w₁ o ↔ Act.Empties N w o := by
      unfold Act.Empties World.isLarge
      rw [hd.frame.vec o hne.symm]
    have h₁ := hd.frame.holds hne.symm h (hw.apart o v h.alive hne.symm)
    constructor
    · exact fun ht => he.mp (empties_of_transferred hm ht)
    · exact fun hc => transferred_of_moved (hw.does hd trivial) hne hm trivial h₁.toStored (he.mpr hc)

/-- A vector on the heap is moved into one that is empty. -/
theorem move_transfers_iff_example : ∃ w : World ℕ, w.isLarge 1 0 = true ∧
    Prog.wp (moveAssign 1 1 0) (fun _ => Transferred 1 1 0 [10, 20]) Prog.never w := by
  obtain ⟨_, w₀, -, hd₀⟩ := (wp_construct (N := 1) (w := World.empty 1 ℕ) (v := 0) rfl).elim
  have hw₀ := (clean_empty 1).does hd₀ trivial
  obtain ⟨w₁, -, hw₁, h₁, ha₁⟩ := run_pushes [10, 20] hw₀ hd₀.holds (by decide)
  have hv : w₁.alive 1 = false := by rw [ha₁, hd₀.frame.alive 1 (by decide)]; rfl
  obtain ⟨_, w₂, -, hd₂⟩ := (wp_construct (hw₁.gone 1 hv)).elim
  have hw₂ := hw₁.does hd₂ trivial
  have h₂ := hd₂.frame.holds (u := 0) (by decide) h₁ (hw₁.apart 0 1 h₁.alive (by decide))
  have hlarge : w₂.isLarge 1 0 = true := by
    have hroom := h₂.room
    rw [h₂.size] at hroom
    exact decide_eq_true hroom
  exact ⟨w₂, hlarge, ((move_transfers_iff hw₂ h₂ (by decide)).1 hd₂.holds.alive).mpr (.inl hlarge)⟩

/-- One inline element: its vector still has size one after it has been moved from. -/
theorem move_keeps_size :
    ¬ ∀ (w : World ℕ) (v o : ℕ) (l : List ℕ), Clean 2 w → Holds 2 w o l → v ≠ o →
      w.alive v = false →
      Prog.wp (moveConstruct 2 v o) (fun _ => Transferred 2 v o l) Prog.never w := by
  intro hall
  have hr : ((vectors ℕ 2).runGuarded (Act.Proper 2) (World.empty 2 ℕ)
      [.construct 0, .call 0 (.push_back 7)]).map
        (fun w => (w.alive 0, w.alive 1, ((moveConstruct 2 1 0 w).2.vec 0).m_size)) =
      some (true, false, 1) := by decide +kernel
  obtain ⟨w, hw, hf⟩ := Option.map_eq_some_iff.mp hr
  obtain ⟨h0, hf⟩ := Prod.mk.inj hf
  obtain ⟨h1, hsize⟩ := Prod.mk.inj hf
  have hclean := clean_of_reaches (clean_empty 2) (Machine.reaches_of_runGuarded hw)
  obtain ⟨l, hl⟩ := hclean.holds 0 h0
  obtain ⟨_, w', hp, ht⟩ := (hall w 1 0 l hclean hl (by decide) h1).elim
  rw [hp] at hsize
  cases hsize.symm.trans ht.size

end Asp.Collections
