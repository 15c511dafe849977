import Asp.Collections.Operations

/-! Move assignment: from a large vector the array changes hands, from a small one the elements
move slot by slot. -/
namespace Asp.Collections
open Asp.Foundation SmallVec
variable {α : Type} {N : ℕ}

/-- The elements `l` of the vector `o` have moved to the vector `v`; where `g` says so, with
proper lifetimes. -/
structure Moved (N v o : ℕ) (w w' : World α) (l : List α) (g : Prop) : Prop where
  vec : ∀ u, u ≠ v → u ≠ o → w'.vec u = w.vec u
  alive : w'.alive = w.alive
  fresh : w.fresh ≤ w'.fresh
  budget : w'.budget = w.budget
  cell : ∀ b, Foreign N w v b → Foreign N w o b → w'.cell b = w.cell b
  block : ∀ a, Foreign N w v (.heap a) → Foreign N w o (.heap a) → w'.block a = w.block a
  foreign : ∀ b, Foreign N w v b → Foreign N w o b → Foreign N w' v b ∧ Foreign N w' o b
  holds : Holds N w' v l
  source : Stored N w' o
  apart : Foreign N w' v (w'.idata N o)
  emptied : w.isLarge N o = true → w'.vec o = ⟨none, 0, N⟩
  kept : w.isLarge N o = false → w'.vec o = w.vec o
  faults : ∃ f, w'.faults = w.faults ++ f ∧ Harmless (g ∧ Tidy N w v ∧ Tidy N w o) f
  tidy : g → Tidy N w v → Tidy N w o → ∀ b, ¬(Foreign N w v b ∧ Foreign N w o b) →
    ∀ i, (w'.cell b i).isLive = true → b = w'.idata N v ∧ i < l.length

theorem Moved.weaken {w w' : World α} {v o : ℕ} {l : List α} {g g' : Prop}
    (h : Moved N v o w w' l g) (hg : g' → g) : Moved N v o w w' l g' where
  __ := h
  faults := by
    obtain ⟨f, hf, hn⟩ := h.faults
    exact ⟨f, hf, hn.weaken fun hg' => ⟨hg hg'.1, hg'.2⟩⟩
  tidy hg' := h.tidy (hg hg')

/-- The slots of a vector that does not use them are dead when it is tidy. -/
lemma Tidy.inline_dead {w : World α} {v : ℕ} (ht : Tidy N w v)
    (h : w.idata N v ≠ .inline v ∨ (w.vec v).m_size = 0) (i : ℕ) :
    (w.cell (.inline v) i).isLive = false := by
  rw [← Bool.not_eq_true]
  intro hi
  obtain ⟨hd, hlt⟩ := ht (.inline v) (fun hv => hv rfl) i hi
  rcases h with h | h
  · exact h hd.symm
  · omega

/-- The world after the fields have been exchanged. -/
def World.stolen (N : ℕ) (w : World α) (v o a s cap : ℕ) : World α :=
  (((((w.setCapacity v cap).setSize v s).setLarge N v (some a)).setLarge N o none).setSize o 0
    ).setCapacity o N

section Stolen
variable (w : World α) {v o : ℕ} (a s cap : ℕ)

lemma stolen_vec_self (h : v ≠ o) : (w.stolen N v o a s cap).vec v = ⟨some a, s, cap⟩ := by
  simp [World.stolen, World.setCapacity, World.setSize, World.setLarge, World.setVec, h]

lemma stolen_vec_source : (w.stolen N v o a s cap).vec o = ⟨none, 0, N⟩ := by
  simp [World.stolen, World.setCapacity, World.setSize, World.setLarge, World.setVec]

lemma stolen_vec_of_ne {u : ℕ} (hv : u ≠ v) (ho : u ≠ o) :
    (w.stolen N v o a s cap).vec u = w.vec u := by
  simp [World.stolen, World.setCapacity, World.setSize, World.setLarge, World.setVec, hv, ho]

lemma stolen_cell_of_ne {b : Base} (hv : b ≠ .inline v) (ho : b ≠ .inline o) :
    (w.stolen N v o a s cap).cell b = w.cell b := by
  simp [World.stolen, World.setCapacity, World.setSize, World.setLarge, World.setVec, World.edit,
    hv, ho]

lemma stolen_cell_inline : (w.stolen N v o a s cap).cell (.inline v) = (fun _ => .dead) ∧
    (w.stolen N v o a s cap).cell (.inline o) = fun _ => .dead := by
  simp only [World.stolen, World.setCapacity, World.setSize, World.setLarge, World.setVec, World.edit]
  constructor
  · by_cases h : v = o
    · subst h
      simp
    · simp [h]
  · simp

/-- The pointer overwrites the inline slots of both vectors. -/
lemma stolen_faults (h : v ≠ o) {g : Prop}
    (hv : g → ∀ i, (w.cell (.inline v) i).isLive = false)
    (ho : g → ∀ i, (w.cell (.inline o) i).isLive = false) :
    ∃ f, (w.stolen N v o a s cap).faults = w.faults ++ f ∧ Harmless g f := by
  refine ⟨_, List.append_assoc .., (harmless_overwrite hv).append (harmless_overwrite
    (w := ((w.setCapacity v cap).setSize v s).setLarge N v (some a)) ?_) fun hg => ⟨hg, hg⟩⟩
  intro hg i
  have hne : Base.inline o ≠ .inline v := fun he => h (Base.inline.inj he).symm
  rw [World.setLarge, World.edit_cell_of_ne _ _ _ _ hne]
  exact ho hg i

end Stolen

section Assign
variable {w w₁ : World α} {v o : ℕ} {l : List α} {g : Prop} {blk : ℕ → Option ℕ}

/-- What has become of the slots of the destination and of storage that is not its own, once it
has been cleared. -/
lemma live_cleared (hd : Does N v w w₁ [] g) (hg : g) (ht : Tidy N w v) {b : Base} {i : ℕ}
    (hi : (w₁.cell b i).isLive = true) : Foreign N w v b ∧ (w.cell b i).isLive = true := by
  by_cases hb : Foreign N w v b
  · rw [hd.frame.cell b hb] at hi
    exact ⟨hb, hi⟩
  · have hlt := (hd.tidy hg ht b hb i hi).2
    rw [hd.holds.size] at hlt
    exact absurd hlt (Nat.not_lt_zero i)

lemma alive_cleared (hd : Does N v w w₁ [] g) (hs : Stored N w v) : w₁.alive = w.alive := by
  funext u
  by_cases hu : u = v
  · rw [hu, hd.holds.alive, hs.alive]
  · exact hd.frame.alive u hu

/-- The world after the elements of `o` have moved slot by slot, with `blk` for the table of
arrays. -/
def World.slotted (N : ℕ) (w₁ : World α) (v o s : ℕ) (blk : ℕ → Option ℕ) (f : List Fault) :
    World α :=
  World.relocated ((World.setCapacity { w₁ with block := blk } v N).setSize v s) (.inline o)
    (.inline v) s f

lemma slotted_vec_self (o s : ℕ) (f : List Fault) :
    (World.slotted N w₁ v o s blk f).vec v = ⟨(w₁.vec v).m_large, s, N⟩ := by
  simp [World.slotted, World.relocated, World.setSize, World.setCapacity]

lemma slotted_vec_of_ne (s : ℕ) (f : List Fault) {u : ℕ} (hu : u ≠ v) :
    (World.slotted N w₁ v o s blk f).vec u = w₁.vec u := by
  simp [World.slotted, World.relocated, World.setSize, World.setCapacity, World.setVec, hu]

lemma slotted_cell_self (hne : v ≠ o) (s : ℕ) (f : List Fault) :
    (World.slotted N w₁ v o s blk f).cell (.inline v) = fun j =>
      if j < s then w₁.cell (.inline o) j else w₁.cell (.inline v) j := by
  have hbase : Base.inline v ≠ .inline o := fun he => hne (Base.inline.inj he)
  rw [World.slotted, World.relocated, World.edit_cell_of_ne _ _ _ _ hbase, World.edit_cell_self]
  rfl

lemma slotted_cell_source (s : ℕ) (f : List Fault) :
    (World.slotted N w₁ v o s blk f).cell (.inline o) = fun j =>
      if j < s then .dead else w₁.cell (.inline o) j := by
  rw [World.slotted, World.relocated, World.edit_cell_self]
  rfl

/-- Beside the fields and the inline slots of both vectors, `w'` is `w₁` with the arrays of `blk`. -/
structure Beside (v o : ℕ) (w₁ w' : World α) (blk : ℕ → Option ℕ) : Prop where
  vec : ∀ u, u ≠ v → u ≠ o → w'.vec u = w₁.vec u
  alive : w'.alive = w₁.alive
  fresh : w'.fresh = w₁.fresh
  budget : w'.budget = w₁.budget
  block : w'.block = blk
  cell : ∀ b, b ≠ .inline v → b ≠ .inline o → w'.cell b = w₁.cell b

lemma beside_stolen (a s cap : ℕ) :
    Beside v o w₁ (World.stolen N { w₁ with block := blk } v o a s cap) blk where
  vec _ hv ho := stolen_vec_of_ne _ _ _ _ hv ho
  alive := rfl
  fresh := rfl
  budget := rfl
  block := rfl
  cell _ hv ho := stolen_cell_of_ne _ _ _ _ hv ho

lemma beside_slotted (s : ℕ) (f : List Fault) :
    Beside v o w₁ (World.slotted N w₁ v o s blk f) blk where
  vec _ hv _ := slotted_vec_of_ne s f hv
  alive := rfl
  fresh := rfl
  budget := rfl
  block := rfl
  cell b hv ho := by
    rw [World.slotted, World.relocated, World.edit_cell_of_ne _ _ _ _ ho,
      World.edit_cell_of_ne _ _ _ _ hv]
    rfl

/-- A slot of either vector that is live beside the inline slots holds an element of the source. -/
lemma Beside.live {w' : World α} (hx : Beside v o w₁ w' blk) (hd : Does N v w w₁ [] g) (hg : g)
    (ht : Tidy N w v) (ht' : Tidy N w o) {b : Base} (hv : b ≠ .inline v) (ho : b ≠ .inline o)
    (hb : ¬(Foreign N w v b ∧ Foreign N w o b)) {i : ℕ} (hi : (w'.cell b i).isLive = true) :
    b = w.idata N o ∧ i < (w.vec o).m_size := by
  rw [hx.cell b hv ho] at hi
  obtain ⟨hforeign, hlive⟩ := live_cleared hd hg ht hi
  exact ht' b (fun hf => hb ⟨hforeign, hf⟩) i hlive

/-- What a move from `o` to `v` leaves alone. -/
structure MoveFrame (N v o : ℕ) (w w' : World α) : Prop where
  vec : ∀ u, u ≠ v → u ≠ o → w'.vec u = w.vec u
  alive : w'.alive = w.alive
  fresh : w.fresh ≤ w'.fresh
  budget : w'.budget = w.budget
  cell : ∀ b, Foreign N w v b → Foreign N w o b → w'.cell b = w.cell b
  block : ∀ a, Foreign N w v (.heap a) → w'.block a = w.block a

/-- Clearing the destination and changing both vectors' own storage leaves the rest alone. -/
lemma Beside.frame {w' : World α} (hx : Beside v o w₁ w' blk) (hd : Does N v w w₁ [] g)
    (hs : Stored N w v) (hblk : ∀ a, Foreign N w₁ v (.heap a) → blk a = w₁.block a) :
    MoveFrame N v o w w' where
  vec u hu hu' := (hx.vec u hu hu').trans (hd.frame.vec u hu)
  alive := hx.alive.trans (alive_cleared hd hs)
  fresh := hx.fresh ▸ hd.frame.fresh
  budget := hx.budget.trans hd.frame.budget
  cell b hb hb' := (hx.cell b hb.ne_inline hb'.ne_inline).trans (hd.frame.cell b hb)
  block a ha := by rw [hx.block, hblk a (hd.frame.foreign _ ha), hd.frame.block a ha]

/-- Storage foreign to both vectors stays so, if the destination's array is none of it. -/
lemma MoveFrame.foreign {w' : World α} (hk : MoveFrame N v o w w') (hlo : w'.isLarge N o = false)
    (hlv : ∀ a, Foreign N w o (.heap a) → w'.isLarge N v = true → (w'.vec v).m_large ≠ some a)
    {b : Base} (hb : Foreign N w v b) (hb' : Foreign N w o b) :
    Foreign N w' v b ∧ Foreign N w' o b := by
  cases b with
  | inline u => exact ⟨hb, hb'⟩
  | heap a =>
    refine ⟨⟨hb.1.trans_le hk.fresh, hlv a hb'⟩, hb.1.trans_le hk.fresh, fun hn => ?_⟩
    rw [hlo] at hn
    cases hn
  | null => exact ⟨trivial, trivial⟩

/-- Clearing and moving do nothing else wrong. -/
lemma faults_moved {w' : World α} {f : List Fault} {dead : Prop} (hd : Does N v w w₁ [] g)
    (hf : w'.faults = w₁.faults ++ f) (hharm : Harmless dead f)
    (hdead : g → Tidy N w v → Tidy N w o → dead) :
    ∃ f, w'.faults = w.faults ++ f ∧ Harmless (g ∧ Tidy N w v ∧ Tidy N w o) f := by
  obtain ⟨f₁,hf₁,hlife,hnone⟩ := hd.faults
  refine ⟨f₁ ++ f, ?_, Harmless.append ⟨hlife, fun hg => hnone hg.1 hg.2.1⟩ hharm fun hg =>
    ⟨hg, hdead hg.1 hg.2.1 hg.2.2⟩⟩
  rw [hf, hf₁, List.append_assoc]

/-- The inline slots of the cleared destination. -/
lemma dead_cleared (hd : Does N v w w₁ [] g) (hg : g) (ht : Tidy N w v) (i : ℕ) :
    (w₁.cell (.inline v) i).isLive = false :=
  (hd.tidy_of hg ht).inline_dead (.inr hd.holds.size) i

/-- After a move into `w'` the array `a` of `o` is that of `v`, and both have dead inline slots. -/
structure Steals (N v o a : ℕ) (w w₁ w' : World α) (blk : ℕ → Option ℕ) : Prop
    extends Beside v o w₁ w' blk where
  vec_self : w'.vec v = ⟨some a, (w.vec o).m_size, (w.vec o).m_capacity⟩
  vec_source : w'.vec o = ⟨none, 0, N⟩
  cell_self : w'.cell (.inline v) = fun _ => .dead
  cell_source : w'.cell (.inline o) = fun _ => .dead

lemma steals_stolen (a : ℕ) (hne : v ≠ o) : Steals N v o a w w₁ (World.stolen N
    { w₁ with block := blk } v o a (w.vec o).m_size (w.vec o).m_capacity) blk where
  toBeside := beside_stolen a _ _
  vec_self := stolen_vec_self _ _ _ _ hne
  vec_source := stolen_vec_source ..
  cell_self := (stolen_cell_inline ..).1
  cell_source := (stolen_cell_inline ..).2

section Steals
variable {w' : World α} {a : ℕ} (hx : Steals N v o a w w₁ w' blk) (h : Holds N w o l)
  (hl : w.isLarge N o = true) (ha : (w.vec o).m_large = some a)
include hx

lemma Steals.idata_self (hl : w.isLarge N o = true) : w'.idata N v = .heap a := by
  have hcap : N < (w.vec o).m_capacity := of_decide_eq_true hl
  simp [World.idata, World.isLarge, hx.vec_self, hcap]

lemma Steals.isLarge_source : w'.isLarge N o = false := by simp [World.isLarge, hx.vec_source]

lemma Steals.idata_source : w'.idata N o = .inline o := by simp [World.idata, hx.isLarge_source]

include h hl ha

lemma Steals.holds (hd : Does N v w w₁ [] g) (hk : MoveFrame N v o w w') (hs : Stored N w v)
    (hf : Foreign N w v (.heap a)) : Holds N w' v l := by
  obtain ⟨hblock, hfresh, hdata⟩ := h.large_storage hl ha
  refine ⟨⟨hk.alive ▸ hs.alive, ?_, ?_, ?_⟩, ?_, fun i x hi => ?_⟩
  · rw [hx.vec_self]
    exact h.small
  · rw [hx.vec_self]
    exact h.room
  · rw [hx.vec_self]
    exact .inr ⟨of_decide_eq_true hl, a, rfl, (hk.block a hf).trans hblock,
      hfresh.trans_le hk.fresh⟩
  · rw [hx.vec_self]
    exact h.size
  · rw [hx.idata_self hl, hx.cell _ (heap_ne_inline a v) (heap_ne_inline a o), hd.frame.cell _ hf,
      ← hdata]
    exact h.cells i x hi

omit h hl ha in
lemma Steals.source (hk : MoveFrame N v o w w') (h : Holds N w o l) : Stored N w' o := by
  refine ⟨hk.alive ▸ h.alive, ?_, ?_, ?_⟩ <;> rw [hx.vec_source]
  · exact Nat.two_pow_pos 63
  · exact Nat.zero_le N
  · exact .inl rfl

lemma Steals.tidy (hd : Does N v w w₁ [] g) (hg : g) (ht : Tidy N w v) (ht' : Tidy N w o) {b : Base}
    (hb : ¬(Foreign N w v b ∧ Foreign N w o b)) {i : ℕ} (hi : (w'.cell b i).isLive = true) :
    b = w'.idata N v ∧ i < l.length := by
  obtain ⟨-, -, hdata⟩ := h.large_storage hl ha
  by_cases hbv : b = .inline v
  · rw [hbv, hx.cell_self] at hi
    cases hi
  by_cases hbo : b = .inline o
  · rw [hbo, hx.cell_source] at hi
    cases hi
  obtain ⟨he, hlt⟩ := hx.live hd hg ht ht' hbv hbo hb hi
  rw [hx.idata_self hl, ← h.size]
  exact ⟨he.trans hdata, hlt⟩

end Steals

/-- The source is large: its array becomes the destination's. -/
lemma moved_stolen (hne : v ≠ o) (hs : Stored N w v) (h : Holds N w o l)
    (hf : Foreign N w v (w.idata N o)) (hd : Does N v w w₁ [] g)
    (hblk : ∀ a, Foreign N w₁ v (.heap a) → blk a = w₁.block a) {a : ℕ}
    (hl : w.isLarge N o = true) (ha : (w.vec o).m_large = some a) :
    Moved N v o w (World.stolen N { w₁ with block := blk } v o a (w.vec o).m_size
      (w.vec o).m_capacity) l g := by
  have hdata := (h.large_storage hl ha).2.2
  rw [hdata] at hf
  have hx : Steals N v o a w w₁ _ blk := steals_stolen a hne
  have hk := hx.frame hd hs hblk
  have hself : g ∧ Tidy N w v ∧ Tidy N w o → ∀ i, (w₁.cell (.inline v) i).isLive = false :=
    fun hg => dead_cleared hd hg.1 hg.2.1
  have hsource : g ∧ Tidy N w v ∧ Tidy N w o → ∀ i, (w₁.cell (.inline o) i).isLive = false := by
    rintro ⟨hg, ht, ht'⟩ i
    rw [← Bool.not_eq_true]
    intro hi
    obtain ⟨-, hi'⟩ := live_cleared hd hg ht hi
    rw [ht'.inline_dead (.inl (hdata ▸ heap_ne_inline a o))] at hi'
    cases hi'
  obtain ⟨f, hfaults, hharm⟩ := stolen_faults (N := N) { w₁ with block := blk } a (w.vec o).m_size
    (w.vec o).m_capacity hne hself hsource
  have hlarge : ∀ a', Foreign N w o (.heap a') → some a ≠ some a' := fun a' ha' he =>
    ha'.2 hl (ha.trans he)
  exact {
    vec := hk.vec
    alive := hk.alive
    fresh := hk.fresh
    budget := hk.budget
    cell := hk.cell
    block := fun a ha _ => hk.block a ha
    foreign := fun b => hk.foreign hx.isLarge_source fun a' ha' _ => hx.vec_self ▸ hlarge a' ha'
    holds := hx.holds h hl ha hd hk hs hf
    source := hx.source hk h
    apart := hx.idata_source ▸ hne.symm
    emptied := fun _ => hx.vec_source
    kept := fun hn => absurd hl (by rw [hn]; exact Bool.false_ne_true)
    faults := faults_moved hd hfaults hharm fun hg ht ht' => ⟨hg, ht, ht'⟩
    tidy := fun hg ht ht' _ hb _ => hx.tidy h hl ha hd hg ht ht' hb }

/-- After a move into `w'` the inline slots of `v` hold the elements that were in those of `o`. -/
structure Refills (N v o : ℕ) (w w₁ w' : World α) (blk : ℕ → Option ℕ) : Prop
    extends Beside v o w₁ w' blk where
  vec_self : w'.vec v = ⟨(w₁.vec v).m_large, (w.vec o).m_size, N⟩
  vec_source : w'.vec o = w.vec o
  cell_self : w'.cell (.inline v) = fun j =>
    if j < (w.vec o).m_size then w.cell (.inline o) j else w₁.cell (.inline v) j
  cell_source : w'.cell (.inline o) = fun j =>
    if j < (w.vec o).m_size then .dead else w.cell (.inline o) j

lemma refills_slotted (hne : v ≠ o) (hd : Does N v w w₁ [] g) (f : List Fault) :
    Refills N v o w w₁ (World.slotted N w₁ v o (w.vec o).m_size blk f) blk where
  toBeside := beside_slotted _ f
  vec_self := slotted_vec_self ..
  vec_source := (slotted_vec_of_ne _ _ hne.symm).trans (hd.frame.vec o hne.symm)
  cell_self := by rw [slotted_cell_self hne, hd.frame.cell (.inline o) hne.symm]
  cell_source := by rw [slotted_cell_source, hd.frame.cell (.inline o) hne.symm]

section Refills
variable {w' : World α} (hx : Refills N v o w w₁ w' blk) (h : Holds N w o l)
  (hl : w.isLarge N o = false)
include hx

lemma Refills.isLarge_self : w'.isLarge N v = false := by simp [World.isLarge, hx.vec_self]

lemma Refills.idata_self : w'.idata N v = .inline v := by simp [World.idata, hx.isLarge_self]

lemma Refills.isLarge_source (hl : w.isLarge N o = false) : w'.isLarge N o = false := by
  rwa [World.isLarge, hx.vec_source]

lemma Refills.idata_source (hl : w.isLarge N o = false) : w'.idata N o = .inline o := by
  simp [World.idata, hx.isLarge_source hl]

include h hl

lemma Refills.holds (hk : MoveFrame N v o w w') (hs : Stored N w v) : Holds N w' v l := by
  obtain ⟨hcap, hdata⟩ := h.small_storage hl
  refine ⟨⟨hk.alive ▸ hs.alive, ?_, ?_, ?_⟩, ?_, fun i x hi => ?_⟩
  · rw [hx.vec_self]
    exact h.small
  · rw [hx.vec_self]
    exact hcap ▸ h.room
  · rw [hx.vec_self]
    exact .inl rfl
  · rw [hx.vec_self]
    exact h.size
  · have hlt : i < (w.vec o).m_size := by
      rw [h.size]
      exact (List.getElem?_eq_some_iff.mp hi).1
    rw [hx.idata_self, hx.cell_self, ← hdata]
    simp only [hlt, if_true]
    exact h.cells i x hi

lemma Refills.source (hk : MoveFrame N v o w w') : Stored N w' o := by
  refine ⟨hk.alive ▸ h.alive, ?_, ?_, .inl ?_⟩ <;> rw [hx.vec_source]
  · exact h.small
  · exact h.room
  · exact (h.small_storage hl).1

lemma Refills.tidy (hd : Does N v w w₁ [] g) (hg : g) (ht : Tidy N w v) (ht' : Tidy N w o) {b : Base}
    (hb : ¬(Foreign N w v b ∧ Foreign N w o b)) {i : ℕ} (hi : (w'.cell b i).isLive = true) :
    b = w'.idata N v ∧ i < l.length := by
  by_cases hbv : b = .inline v
  · subst hbv
    rw [hx.cell_self] at hi
    simp only at hi
    split_ifs at hi with hlt
    · exact ⟨hx.idata_self.symm, h.size ▸ hlt⟩
    · rw [dead_cleared hd hg ht i] at hi
      cases hi
  by_cases hbo : b = .inline o
  · subst hbo
    rw [hx.cell_source] at hi
    simp only at hi
    split_ifs at hi with hlt
    · cases hi
    · exact absurd (ht' (.inline o) (fun ho => ho rfl) i hi).2 hlt
  have hdata := (h.small_storage hl).2
  exact absurd ((hx.live hd hg ht ht' hbv hbo hb hi).1.trans hdata) hbo

end Refills

/-- The source is small: its elements move slot by slot. -/
lemma moved_slots (hne : v ≠ o) (hs : Stored N w v) (h : Holds N w o l) (hd : Does N v w w₁ [] g)
    (hblk : ∀ a, Foreign N w₁ v (.heap a) → blk a = w₁.block a) (hl : w.isLarge N o = false)
    {f : List Fault}
    (hf : Harmless (∀ i < (w.vec o).m_size, (w₁.cell (.inline v) i).isLive = false) f) :
    Moved N v o w (World.slotted N w₁ v o (w.vec o).m_size blk f) l g := by
  have hx : Refills N v o w w₁ _ blk := refills_slotted hne hd f
  have hk := hx.frame hd hs hblk
  exact {
    vec := hk.vec
    alive := hk.alive
    fresh := hk.fresh
    budget := hk.budget
    cell := hk.cell
    block := fun a ha _ => hk.block a ha
    foreign := fun b => hk.foreign (hx.isLarge_source hl) fun _ _ hn =>
      absurd hn (by rw [hx.isLarge_self]; exact Bool.false_ne_true)
    holds := hx.holds h hl hk hs
    source := hx.source h hl hk
    apart := hx.idata_source hl ▸ hne.symm
    emptied := fun hn => absurd hn (by rw [hl]; exact Bool.false_ne_true)
    kept := fun _ => hx.vec_source
    faults := faults_moved hd (List.append_nil _) hf fun hg ht _ i _ => dead_cleared hd hg ht i
    tidy := fun hg ht ht' _ hb _ => hx.tidy h hl hd hg ht ht' hb }

end Assign

/-- Move assignment of another vector, whose storage is its own. -/
theorem wp_moveAssign {w : World α} {v o : ℕ} {l : List α} (hne : v ≠ o) (hs : Stored N w v)
    (h : Holds N w o l) (hf : Foreign N w v (w.idata N o)) :
    Prog.wp (moveAssign N v o) (fun _ w' => Moved N v o w w' l
      (∀ i < (w.vec v).m_size, (w.cell (w.idata N v) i).isLive = true)) Prog.never w := by
  rw [moveAssign, if_neg hne, Prog.wp_bind]
  apply (wp_clear hs).then
  intro _ w₁ hd
  rw [Prog.wp_bind, Prog.wp_get, Prog.wp_bind]
  apply wp_release hd.holds.toStored
  intro blk hblk
  have hvec := hd.frame.vec o hne.symm
  have hlarge : w₁.isLarge N o = w.isLarge N o := by rw [World.isLarge, World.isLarge, hvec]
  rw [Prog.wp_ite, hlarge, hvec]
  rcases h.toStored.cases with ⟨hl, hc, hb⟩ | ⟨hl, -, a, ha, -⟩
  · rw [if_neg (by rw [hl]; exact Bool.false_ne_true), Prog.wp_bind, Prog.wp_modify, Prog.wp_bind,
      Prog.wp_modify]
    have hsource : w₁.cell (.inline o) = w.cell (.inline o) := hd.frame.cell (.inline o) hne.symm
    have hroom : (w.vec o).m_size ≤ N := hc ▸ h.room
    have halive := alive_cleared hd hs
    have hbounds : ∀ u, w.alive u = true → ∀ i < (w.vec o).m_size,
        ((World.setCapacity { w₁ with block := blk } v N).setSize v (w.vec o).m_size).inBounds N
          (.inline u) i = true := by
      intro u hu i hi
      change (w₁.alive u && decide (i < N)) = true
      rw [halive, hu, decide_eq_true (hi.trans_le hroom)]
      rfl
    apply (wp_relocate (fun he => hne (Base.inline.inj he).symm) (hbounds o h.alive)
      (hbounds v hs.alive) fun i hi => ?_).then
    · rintro _ _ ⟨f, rfl, hf'⟩
      exact moved_slots hne hs h hd hblk hl hf'
    · obtain ⟨x, hx⟩ := h.cell_eq hi
      rw [hb] at hx
      exact ⟨some x, (congrFun hsource i).trans hx⟩
  · rw [if_pos hl, ha]
    exact moved_stolen hne hs h hf hd hblk hl ha

lemma wp_moveAssign_self {w : World α} {v : ℕ} {Q : Unit → World α → Prop}
    {E : Err → World α → Prop} (h : Q () w) : Prog.wp (moveAssign N v v) Q E w := by
  rw [moveAssign, if_pos rfl]
  exact h

end Asp.Collections
