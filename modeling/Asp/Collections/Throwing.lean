import Asp.Collections.Transfer

/-! Constructors of elements that throw: what the operations that construct elements from given
values leave behind. -/
namespace Asp.Collections
open Asp.Foundation SmallVec
variable {α : Type} {N : ℕ}

/-- `k` more elements can be constructed before a constructor throws. -/
def World.limited (w : World α) (k : ℕ) : World α := { w with budget := some k }

section Limited
variable {w : World α} {v : ℕ} {l : List α} {k : ℕ}

lemma Holds.limited (h : Holds N w v l) (k : ℕ) : Holds N (w.limited k) v l :=
  ⟨⟨h.alive,h.small,h.room,h.storage⟩,h.size,h.cells⟩

lemma Foreign.limited {b : Base} (h : Foreign N w v b) (k : ℕ) : Foreign N (w.limited k) v b := by
  cases b with
  | inline u => exact h
  | heap a => exact h
  | null => trivial

lemma Tidy.limited (h : Tidy N w v) (k : ℕ) : Tidy N (w.limited k) v :=
  fun b hb => h b fun hf => hb (hf.limited k)

/-- Construction of an element by a constructor that does not throw yet. -/
lemma wp_initFrom_limited {b : Base} {i : ℕ} {arg : Arg α} {x : α}
    (hread : Reads N (w.limited k) arg x) (hbudget : w.budget = some (k + 1))
    (hb : w.inBounds N b i = true) {E : Err → World α → Prop} {Q : Unit → World α → Prop}
    (h : ∀ f, Harmless ((w.cell b i).isLive = false) f →
      Q () ((w.limited k).edit b (Function.update (w.cell b) i (.live (some x))) f)) :
    Prog.wp (initFrom N b i arg) Q E w := by
  rw [initFrom, Prog.wp_bind, spend, Prog.wp_bind, Prog.wp_get, hbudget]
  change Prog.wp (arg.get N >>= fun x => init N b i x) Q E (w.limited k)
  rw [Prog.wp_bind]
  apply Prog.wp.then hread
  rintro _ _ ⟨rfl,rfl⟩
  exact wp_init (w := w.limited k) (some x) hb h

lemma wp_initFrom_throws {b : Base} {i : ℕ} {arg : Arg α} (hbudget : w.budget = some 0)
    {E : Err → World α → Prop} {Q : Unit → World α → Prop} (h : E .constructor w) :
    Prog.wp (initFrom N b i arg) Q E w := by
  rw [initFrom, Prog.wp_bind, spend, Prog.wp_bind, Prog.wp_get, hbudget]
  exact h

end Limited

/-- Exactly the slots below the size hold elements, and the destructor handles them properly. -/
structure Survives (N v : ℕ) (w : World α) : Prop where
  live : ∀ i, (w.cell (w.idata N v) i).isLive = true ↔ i < (w.vec v).m_size
  destroyed : (destruct N v w).2.faults = w.faults

lemma Holds.survives {w : World α} {v : ℕ} {l : List α} (h : Holds N w v l) (ht : Tidy N w v) :
    Survives N v w := by
  have hlive : ∀ i < (w.vec v).m_size, (w.cell (w.idata N v) i).isLive = true := by
    intro i hi
    obtain ⟨x,hx⟩ := h.cell_eq hi
    rw [hx]
    rfl
  refine ⟨fun i => ⟨fun hi => (ht _ h.not_foreign_idata i hi).2,hlive i⟩,?_⟩
  obtain ⟨_,w',hrun,he,_⟩ := (wp_destruct h.toStored).elim
  obtain ⟨f,hf,_,hnone⟩ := he.faults
  rw [hrun, hf, hnone hlive ht, List.append_nil]

section Append
variable {w : World α} {v k : ℕ} {l : List α} {arg : Arg α} {x : α}

/-- `emplace_back` with a constructor that does not throw yet: the vector grows, and then has
one element more. -/
lemma wp_emplace_back_limited (h : Holds N w v l) (hbudget : w.budget = some (k + 1))
    (harg : ∀ w', Local N v w w' → Reads N (w'.limited k) arg x) (hmax : l.length + 1 < 2 ^ 63) :
    Prog.wp (emplace_back N v arg) (fun _ w' => ∃ w₁, Does N v w w₁ l True ∧
      Does N v (w₁.limited k) w' (l ++ [x]) True) Prog.never w := by
  rw [emplace_back, Prog.wp_bind]
  apply (wp_growFor h hmax.le).then
  rintro _ w₁ ⟨hd,hcap⟩
  have hsize := hd.holds.size
  rw [Prog.wp_bind, Prog.wp_get, Prog.wp_bind]
  refine wp_initFrom_limited (harg w₁ hd.frame) (hd.frame.budget.trans hbudget)
    (hd.holds.inBounds (by omega)) fun f hf => ?_
  exact ⟨w₁,hd,does_append x (hd.holds.limited k) hcap hmax hf⟩

/-- A constructor that throws leaves the vector as it was, up to its capacity. -/
lemma wp_emplace_back_throws (h : Holds N w v l) (hbudget : w.budget = some 0)
    (hmax : l.length + 1 < 2 ^ 63) :
    Prog.wp (emplace_back N v arg) (fun _ _ => False)
      (fun e w' => e = .constructor ∧ Does N v w w' l True) w := by
  rw [emplace_back, Prog.wp_bind]
  apply (wp_growFor h hmax.le).then
  rintro _ w₁ ⟨hd,_⟩
  rw [Prog.wp_bind, Prog.wp_get, Prog.wp_bind]
  exact wp_initFrom_throws (hd.frame.budget.trans hbudget) ⟨rfl,hd⟩

end Append

/-- A vector `v` in order, and beside it the one it is assigned from. -/
structure Assigning (N v other : ℕ) (w : World α) (l l' : List α) : Prop where
  holds : Holds N w v l
  tidy : Tidy N w v
  source : Holds N w other l'
  apart : Foreign N w v (w.idata N other)

namespace Assigning
variable {w w' : World α} {v other : ℕ} {l l' l'' : List α}

lemma does (h : Assigning N v other w l l') (hne : other ≠ v) {g : Prop}
    (hd : Does N v w w' l'' g) (hg : g) : Assigning N v other w' l'' l' where
  holds := hd.holds
  tidy := hd.tidy_of hg h.tidy
  source := hd.frame.holds hne h.source h.apart
  apart := by
    rw [hd.frame.idata_eq hne]
    exact hd.frame.foreign _ h.apart

lemma limited (h : Assigning N v other w l l') (k : ℕ) : Assigning N v other (w.limited k) l l' :=
  ⟨h.holds.limited k,h.tidy.limited k,h.source.limited k,h.apart.limited k⟩

end Assigning

section Copy
variable {w : World α} {v other : ℕ} {l l' : List α}

/-- Before the round `i` of the loop of `operator=`, when `k` more constructors return. -/
structure Copied (N v other : ℕ) (w : World α) (l' : List α) (k i : ℕ) (t : World α) : Prop
    extends Assigning N v other t (l'.take i) l' where
  budget : t.budget = some k
  data : t.idata N other = w.idata N other

/-- Each round appends the next element of the other vector. -/
lemma Copied.step {t : World α} {k i : ℕ} (h : Copied N v other w l' (k + 1) i t) (hne : other ≠ v)
    (hi : i < l'.length) :
    Prog.wp (emplace_back N v (.ref (w.idata N other) i)) (fun _ => Copied N v other w l' k (i + 1))
      Prog.never t := by
  have hsmall := h.source.small
  rw [h.source.size] at hsmall
  have hlen : (l'.take i).length = i := by rw [List.length_take]; omega
  have hreads : ∀ t', Local N v t t' →
      Reads N (t'.limited k) (.ref (w.idata N other) i) l'[i] := by
    intro t' hl
    have hsize := h.source.size
    have hroom := h.source.room
    rw [← h.data]
    apply reads_ref
    · exact (hl.inBounds h.apart i).trans (h.source.inBounds (by omega))
    · change t'.cell (t.idata N other) i = _
      rw [hl.cell _ h.apart]
      exact h.source.cells i _ (List.getElem?_eq_getElem hi)
  apply (wp_emplace_back_limited h.holds h.budget hreads (by omega)).then
  rintro _ t' ⟨t₁,hd,hd'⟩
  have h₁ := (h.toAssigning.does hne hd trivial).limited k
  refine ⟨?_,hd'.frame.budget,?_⟩
  · rw [← List.take_append_getElem hi]
    exact h₁.does hne hd' trivial
  · rw [hd'.frame.idata_eq hne, ← h.data, ← hd.frame.idata_eq hne]
    rfl

lemma wp_copyLoop_throws (h : Assigning N v other w [] l') (hne : other ≠ v) {k : ℕ}
    (hbudget : w.budget = some k) (hk : k < l'.length) :
    Prog.wp (Prog.forUp (fun i => emplace_back N v (.ref (w.idata N other) i)) l'.length)
      (fun _ _ => False) (fun e w' => e = .constructor ∧ Survives N v w') w := by
  have hsmall := h.source.small
  rw [h.source.size] at hsmall
  apply Prog.wp_forUp_throws (I := fun i => Copied N v other w l' (k - i) i) hk
  · exact ⟨h,hbudget,rfl⟩
  · intro i hi t ht
    rw [show k - i = k - (i + 1) + 1 by omega] at ht
    exact (ht.step hne (hi.trans hk)).then fun _ _ h' => h'
  · intro t ht
    have hlen : (l'.take k).length + 1 < 2 ^ 63 := by rw [List.length_take]; omega
    have hbudget' : t.budget = some 0 := by rw [ht.budget, Nat.sub_self]
    apply (wp_emplace_back_throws ht.holds hbudget' hlen).mono
    · exact fun _ _ hf => hf
    · rintro e w' ⟨he,hd⟩
      exact ⟨he,hd.holds.survives (hd.tidy_of trivial ht.tidy)⟩

/-- Copy assignment throws with the elements so far. -/
lemma wp_copyAssign_throws (h : Assigning N v other w l l') (hne : other ≠ v) {k : ℕ}
    (hbudget : w.budget = some k) (hk : k < l'.length) :
    Prog.wp (copyAssign N v other) (fun _ _ => False)
      (fun e w' => e = .constructor ∧ Survives N v w') w := by
  rw [copyAssign, if_neg hne.symm, Prog.wp_bind]
  apply (wp_clear h.holds.toStored).then
  intro _ w₁ hd₁
  have h₁ := h.does hne hd₁ fun i hi => by
    obtain ⟨x,hx⟩ := h.holds.cell_eq hi
    rw [hx]
    rfl
  rw [Prog.wp_bind, Prog.wp_get, Prog.wp_bind]
  apply (wp_reserve h₁.holds _).then
  rintro _ w₂ ⟨hd₂,_⟩
  have h₂ := h₁.does hne hd₂ trivial
  rw [Prog.wp_bind, Prog.wp_get, h₂.source.size]
  exact wp_copyLoop_throws h₂ hne (by rw [hd₂.frame.budget, hd₁.frame.budget, hbudget]) hk

end Copy
section Gap
variable {w : World α} {v k index count : ℕ} {l : List α}

/-- The loop over the gap of an insertion throws and has not come to the slot `index + k`. -/
lemma wp_fill_throws {b : Base} {body : ℕ → VecM α Unit} (hbudget : w.budget = some k)
    (hk : k < count) (hbody : ∀ i < count, ∃ x, body i = initFrom N b (index + i) (.value x)) :
    Prog.wp (Prog.forUp body count) (fun _ _ => False) (fun e t => e = .constructor ∧
      t.vec = w.vec ∧ t.cell b (index + k) = w.cell b (index + k)) w := by
  apply Prog.wp_forUp_throws (I := fun i (t : World α) => t.budget = some (k - i) ∧
    t.vec = w.vec ∧ t.cell b (index + k) = w.cell b (index + k)) hk
  · exact ⟨hbudget,rfl,rfl⟩
  · rintro i hi t ⟨ht,hvec,hcell⟩
    obtain ⟨x,hx⟩ := hbody i (hi.trans hk)
    have hnext : t.budget = some (k - (i + 1) + 1) := by rw [ht]; congr 1; omega
    rw [hx, initFrom, Prog.wp_bind, spend, Prog.wp_bind, Prog.wp_get, hnext]
    refine ⟨rfl,hvec,?_⟩
    change (Function.update t.cell b (Function.update (t.cell b) (index + i) _)) b (index + k) = _
    rw [Function.update_self, Function.update_of_ne (by omega), hcell]
  · rintro t ⟨ht,hvec,hcell⟩
    obtain ⟨x,hx⟩ := hbody k hk
    rw [hx]
    exact wp_initFrom_throws (by rw [ht, Nat.sub_self]) ⟨rfl,hvec,hcell⟩

/-- A slot below the size that holds no element. -/
lemma not_survives {i : ℕ} (hdead : (w.cell (w.idata N v) i).isLive = false)
    (hi : i < (w.vec v).m_size) : ¬Survives N v w := by
  intro h
  rw [(h.live i).mpr hi] at hdead
  cases hdead

/-- After the elements have been shifted and the size raised, the rest of the gap stays empty. -/
lemma wp_gap_throws (h : Holds N w v l) (ht : Tidy N w v) (hbudget : w.budget = some k)
    (hindex : index ≤ l.length) (hk : k < count) (hmax : l.length + count < 2 ^ 63)
    {body : Base × ℕ → ℕ → VecM α Unit}
    (hbody : ∀ p, ∀ i < count, ∃ x, body p i = initFrom N p.1 (p.2 + i) (.value x)) :
    Prog.wp (shift N v index count >>= fun ptr => Prog.forUp (body ptr) count)
      (fun _ _ => False) (fun e t => e = .constructor ∧ ¬Survives N v t) w := by
  rw [Prog.wp_bind]
  apply (wp_shift_right h hindex (by omega) hmax).then
  rintro _ _ ⟨w₁,f,hd,_,rfl,rfl,_⟩
  apply (wp_fill_throws (by exact hd.frame.budget.trans hbudget) hk (hbody _)).mono
  · exact fun _ _ hf => hf
  rintro e t ⟨he,hvec,hcell⟩
  have hdata : t.idata N v = w₁.idata N v := by
    rw [idata_congr (congrFun hvec v), World.idata_setSize, World.idata_edit]
  refine ⟨he,not_survives (i := index + k) ?_ ?_⟩
  · rw [hdata, hcell, World.setSize_cell, World.edit_cell_self, rightCells, if_neg (by omega)]
    split_ifs with hlt
    · rfl
    · refine (hd.tidy_of trivial ht).dead hd.holds.toStored ?_
      rw [hd.holds.size]
      omega
  · rw [hvec]
    simp only [World.setSize, World.setVec_vec_self]
    omega

end Gap

/-- The operations that construct elements from given values. -/
inductive Construction (α : Type)
  | emplace_back (x : α)
  | push_back (x : α)
  | insert (iter : ℕ) (x : α)
  | insertCount (iter count : ℕ) (x : α)
  | insertRange (iter : ℕ) (range : List α)
  | copyAssign (other : ℕ)

namespace Construction

def prog (N v : ℕ) : Construction α → VecM α Unit
  | emplace_back x => SmallVec.emplace_back N v (.value x)
  | push_back x => SmallVec.push_back N v (.value x)
  | insert iter x => SmallVec.insert N v iter (.value x) >>= fun _ => pure ()
  | insertCount iter count x => SmallVec.insertCount N v iter count (.value x)
  | insertRange iter range => SmallVec.insertRange N v iter (range.map .value)
  | copyAssign other => SmallVec.copyAssign N v other

/-- How many elements the operation constructs. -/
def count (w : World α) (v : ℕ) : Construction α → ℕ
  | emplace_back _ | push_back _ | insert _ _ => 1
  | insertCount _ count _ => count
  | insertRange _ range => range.length
  | copyAssign other => if v = other then 0 else (w.vec other).m_size

/-- The position is in the vector of size `n`, the result not too large, and the source exists. -/
def Legal (w : World α) (n : ℕ) : Construction α → Prop
  | emplace_back _ | push_back _ => n + 1 < 2 ^ 63
  | insert iter _ => iter ≤ n ∧ n + 1 < 2 ^ 63
  | insertCount iter count _ => iter ≤ n ∧ n + count < 2 ^ 63
  | insertRange iter range => iter ≤ n ∧ n + range.length < 2 ^ 63
  | copyAssign other => w.alive other = true

/-- The elements go to the end of those that are there. -/
def Appends : Construction α → Prop
  | emplace_back _ | push_back _ => True
  | _ => False

def Inserts : Construction α → Prop
  | insert _ _ | insertCount _ _ _ | insertRange _ _ => True
  | _ => False

end Construction

/-- An operation ends by the exception of a constructor and leaves the vector valid; where it
appends, with the elements that it had. -/
def ThrowsSafely (N v : ℕ) (w : World α) (op : Construction α) (l : List α) : Prop :=
  Prog.wp (op.prog N v) (fun _ _ => False)
    (fun e w' => e = .constructor ∧ Survives N v w' ∧ (op.Appends → Holds N w' v l)) w

lemma not_throwsSafely {w : World α} {v : ℕ} {l : List α} {op : Construction α}
    (h : Prog.wp (op.prog N v) (fun _ _ => False)
      (fun e t => e = .constructor ∧ ¬Survives N v t) w) : ¬ThrowsSafely N v w op l := by
  intro hs
  obtain ⟨e,t,hrun,_,hnot⟩ := h.throws
  obtain ⟨e',t',hrun',_,hsurvives,_⟩ := hs.throws
  rw [hrun] at hrun'
  cases hrun'
  exact hnot hsurvives

section Operations
variable {w : World α} {v k : ℕ} {l : List α}

lemma wp_append_throws (h : Holds N w v l) (ht : Tidy N w v) (hbudget : w.budget = some k)
    (hk : k < 1) (hmax : l.length + 1 < 2 ^ 63) (x : α) :
    Prog.wp (SmallVec.emplace_back N v (.value x)) (fun _ _ => False)
      (fun e w' => e = .constructor ∧ Survives N v w' ∧ (True → Holds N w' v l)) w := by
  obtain rfl : k = 0 := by omega
  apply (wp_emplace_back_throws h hbudget hmax).mono
  · exact fun _ _ hf => hf
  · rintro e w' ⟨he,hd⟩
    exact ⟨he,hd.holds.survives (hd.tidy_of trivial ht),fun _ => hd.holds⟩

/-- The insertion of one element is the loop over a gap of one slot. -/
lemma wp_insert_throws (h : Holds N w v l) (ht : Tidy N w v) (hbudget : w.budget = some k)
    (hk : k < 1) {iter : ℕ} (hiter : iter ≤ l.length) (hmax : l.length + 1 < 2 ^ 63) (x : α) :
    Prog.wp (SmallVec.insert N v iter (.value x) >>= fun _ => pure ()) (fun _ _ => False)
      (fun e t => e = .constructor ∧ ¬Survives N v t) w := by
  have hgap : Prog.wp (shift N v iter 1 >>= fun ptr =>
      Prog.forUp (fun i => initFrom N ptr.1 (ptr.2 + i) (.value x)) 1) (fun _ _ => False)
      (fun e t => e = .constructor ∧ ¬Survives N v t) w :=
    wp_gap_throws h ht hbudget hiter hk hmax fun _ _ _ => ⟨x,rfl⟩
  rw [Prog.wp_bind] at hgap
  rw [SmallVec.insert, Prog.wp_bind, Prog.wp_bind]
  refine hgap.mono (fun ptr t hfill => ?_) fun _ _ hE => hE
  rw [Prog.wp_bind]
  exact Prog.wp.mono (p := initFrom N ptr.1 ptr.2 (.value x)) hfill (fun _ _ hf => hf.elim)
    fun _ _ hE => hE

end Operations

/-- When one of the constructors that an operation needs throws, the vector stays valid unless the
operation is an insertion. -/
theorem throwsSafely_iff {w : World α} {v : ℕ} {l : List α} (hw : Clean N w) (h : Holds N w v l)
    (op : Construction α) (hop : op.Legal w l.length) {k : ℕ} (hk : k < op.count w v) :
    ThrowsSafely N v (w.limited k) op l ↔ ¬op.Inserts := by
  have h' := h.limited k
  have ht := (hw.tidy v).limited k
  cases op with
  | emplace_back x | push_back x => exact iff_of_true (wp_append_throws h' ht rfl hk hop x) id
  | insert iter x =>
    refine iff_of_false (not_throwsSafely ?_) (not_not.mpr trivial)
    exact wp_insert_throws h' ht rfl hk hop.1 hop.2 x
  | insertCount iter count x =>
    refine iff_of_false (not_throwsSafely ?_) (not_not.mpr trivial)
    rw [Construction.prog, SmallVec.insertCount, toPtrdiff_eq (by have := hop.2; omega)]
    exact wp_gap_throws h' ht rfl hop.1 hk hop.2 fun _ _ _ => ⟨x,rfl⟩
  | insertRange iter range =>
    refine iff_of_false (not_throwsSafely ?_) (not_not.mpr trivial)
    rw [Construction.prog, SmallVec.insertRange, List.length_map,
      toPtrdiff_eq (by have := hop.2; omega)]
    refine wp_gap_throws h' ht rfl hop.1 hk hop.2 fun p i hi => ⟨range[i],?_⟩
    rw [List.getElem?_map, List.getElem?_eq_getElem hi]
    rfl
  | copyAssign other =>
    have hne : other ≠ v := by
      rintro rfl
      simp [Construction.count] at hk
    obtain ⟨l',hl'⟩ := hw.holds other hop
    have hass : Assigning N v other w l l' := ⟨h,hw.tidy v,hl',hw.apart other v hop hne⟩
    rw [Construction.count, if_neg hne.symm, hl'.size] at hk
    refine iff_of_true ?_ id
    apply (wp_copyAssign_throws (hass.limited k) hne rfl hk).mono
    · exact fun _ _ hf => hf
    · exact fun e w' hE => ⟨hE.1,hE.2,False.elim⟩

theorem throwsSafely_iff_at : ∃ w : World ℕ, Holds 2 w 0 [7,8] ∧
    ThrowsSafely 2 0 (w.limited 0) (.emplace_back 9) [7,8] := by
  obtain ⟨w,hw,h⟩ := exists_holds 2 [7,8] (by decide)
  have hop : (Construction.emplace_back 9).Legal w [7,8].length := (by decide : 2 + 1 < 2 ^ 63)
  exact ⟨w,h,(throwsSafely_iff hw h (.emplace_back 9) hop Nat.one_pos).mpr id⟩

/-- The first of two copies that are inserted before the elements cannot be constructed: the size
counts both already. -/
theorem insert_throws_with_gap :
    ¬∀ (w : World ℕ) (v k : ℕ) (l : List ℕ) (op : Construction ℕ), Clean 2 w → Holds 2 w v l →
      op.Legal w l.length → k < op.count w v → ThrowsSafely 2 v (w.limited k) op l := by
  intro hall
  obtain ⟨w,hw,h⟩ := exists_holds 2 [7,8] (by decide)
  have hop : (Construction.insertCount 0 2 9).Legal w [7,8].length :=
    ⟨Nat.zero_le 2,(by decide : 2 + 2 < 2 ^ 63)⟩
  refine not_throwsSafely ?_ (hall w 0 0 [7,8] (.insertCount 0 2 9) hw h hop Nat.two_pos)
  exact wp_gap_throws (h.limited 0) ((hw.tidy 0).limited 0) rfl hop.1 Nat.two_pos hop.2
    fun _ _ _ => ⟨9,rfl⟩

end Asp.Collections
