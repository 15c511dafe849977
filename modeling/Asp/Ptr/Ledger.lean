import Asp.Foundation.RefCount
import Asp.Foundation.Tally
import Asp.Ptr.Machine
import Mathlib.Data.Fintype.Prod
import Mathlib.Tactic.SplitIfs

/-! The books of every control block: how many handles, slots and calls in progress refer to
it. Each step of the machine is at most one step of the counting scheme for each block. -/
namespace Asp.Ptr
open Foundation

/-- The weight of a pointer in the books of block `b`. -/
def one (b : ℕ) (r : Option ℕ) : ℕ := if r = some b then 1 else 0

/-- The strong references to `b` that a call in progress owns. -/
def Stage.holds {H W S V : Type*} (b : ℕ) : Stage H W S V → ℕ
  | .assign _ r | .rcuApply _ _ r | .rcuReturn _ _ r => one b r
  | .rcuLoad _ _ oldPtr newPtr | .rcuExchange _ _ oldPtr newPtr => one b oldPtr + one b newPtr
  | .idle | .copy .. | .move .. | .reset .. | .make .. | .weaken .. | .assignWeak .. | .copyWeak ..
  | .moveWeak .. | .resetWeak .. | .upgrade .. | .upgradeLoop .. | .load .. | .exchange ..
  | .exchangeMove .. => 0

/-- The weak references to `b` that a call in progress owns. -/
def Stage.holdsWeak {H W S V : Type*} (b : ℕ) : Stage H W S V → ℕ
  | .assignWeak _ r => one b r
  | .idle | .assign .. | .copy .. | .move .. | .reset .. | .make .. | .weaken .. | .copyWeak ..
  | .moveWeak .. | .resetWeak .. | .upgrade .. | .upgradeLoop .. | .load .. | .exchange ..
  | .exchangeMove .. | .rcuLoad .. | .rcuApply .. | .rcuExchange .. | .rcuReturn .. => 0

namespace State
variable {T H W S V : Type*}

section Books
variable [Fintype T]

/-- Strong references: handles, PtrSwaps, and pointers that calls in progress own. -/
def refs [Fintype H] [Fintype S] (s : State T H W S V) (b : ℕ) : ℕ :=
  tally (one b) s.slot + tally (one b) s.ptr + tally (List.count (.release b)) s.todo +
    tally (Stage.holds b) s.stage

/-- Increments of the strong counter that are still to come. -/
def owes (s : State T H W S V) (b : ℕ) : ℕ := tally (List.count (.retain b)) s.todo

def wrefs [Fintype W] (s : State T H W S V) (b : ℕ) : ℕ :=
  tally (one b) s.wptr + tally (List.count (.releaseWeak b)) s.todo +
    tally (Stage.holdsWeak b) s.stage

def dying (s : State T H W S V) (b : ℕ) : ℕ := tally (List.count (.destroyData b)) s.todo

def freeing (s : State T H W S V) (b : ℕ) : ℕ := tally (List.count (.destroyBlock b)) s.todo

def account [Fintype H] [Fintype W] [Fintype S] (s : State T H W S V) (b : ℕ) : RefCount where
  born := if b < s.next then 1 else 0
  strong := s.strong b
  weak := s.weak b
  dtors := s.dtors b
  frees := s.frees b
  refs := s.refs b
  owes := s.owes b
  wrefs := s.wrefs b
  dying := s.dying b
  freeing := s.freeing b

end Books

lemma tally_count_pos {ι : Type*} [Fintype ι] {f : ι → List Micro} {i : ι} {m : Micro}
    (h : m ∈ f i) : 0 < tally (List.count m) f :=
  tally_pos_iff.mpr ⟨i,List.count_pos_iff.mpr h⟩

lemma tally_one_pos {ι : Type*} [Fintype ι] {f : ι → Option ℕ} {i : ι} {b : ℕ}
    (h : f i = some b) : 0 < tally (one b) f :=
  tally_pos_iff.mpr ⟨i,by simp [one, h]⟩

section Referred
variable [Fintype T] [Fintype H] [Fintype S] {s : State T H W S V} {t : T} {b : ℕ}

lemma refs_pos_of_slot {x : S} (h : s.slot x = some b) : 0 < s.refs b := by
  have hx := tally_one_pos h
  unfold refs
  omega

lemma refs_pos_of_ptr {k : T × H} (h : s.ptr k = some b) : 0 < s.refs b := by
  have hk := tally_one_pos h
  unfold refs
  omega

lemma refs_pos_of_todo (h : .release b ∈ s.todo t) : 0 < s.refs b := by
  have ht := tally_count_pos h
  unfold refs
  omega

lemma refs_pos_of_stage (h : 0 < (s.stage t).holds b) : 0 < s.refs b := by
  have ht := tally_pos_iff.mpr ⟨t,h⟩
  unfold refs
  omega

end Referred

section ReferredWeak
variable [Fintype T] [Fintype W] {s : State T H W S V} {t : T} {b : ℕ}

lemma wrefs_pos_of_wptr {k : T × W} (h : s.wptr k = some b) : 0 < s.wrefs b := by
  have hk := tally_one_pos h
  unfold wrefs
  omega

lemma wrefs_pos_of_todo (h : .releaseWeak b ∈ s.todo t) : 0 < s.wrefs b := by
  have ht := tally_count_pos h
  unfold wrefs
  omega

end ReferredWeak

/-- A step of the scheme for block `c` that leaves the books of all other blocks alone. -/
lemma step_at {A A' : ℕ → RefCount} (c : ℕ) (hc : RefCount.Step (A c) (A' c))
    (hne : ∀ b, b ≠ c → A' b = A b) (b : ℕ) : RefCount.Step (A b) (A' b) := by
  by_cases hb : b = c
  · exact hb ▸ hc
  · rw [hne b hb]
    exact .stay

lemma step_of_eq {A A' : ℕ → RefCount} (h : ∀ b, A' b = A b) (b : ℕ) :
    RefCount.Step (A b) (A' b) := by
  rw [h b]
  exact .stay

/-- A new reference to the block of `r`, counted at once. -/
lemma retain_step {A A' : ℕ → RefCount} {r : Option ℕ} (hr : ∀ c, r = some c → 0 < (A c).refs)
    (h : ∀ b, A' b =
      { A b with strong := (A b).strong + one b r, refs := (A b).refs + one b r }) :
    ∀ b, RefCount.Step (A b) (A' b) := by
  cases r with
  | none => exact step_of_eq fun b => (h b).trans (by simp [one])
  | some c =>
    refine step_at c ?_ fun b hb => (h b).trans (by simp [one, Ne.symm hb])
    have hc := h c
    simp only [one, if_true] at hc
    exact hc ▸ .retain (hr c rfl)

/-- A new reference to the block of `r`, to be counted later. -/
lemma lend_step {A A' : ℕ → RefCount} {r : Option ℕ} (hr : ∀ c, r = some c → 0 < (A c).refs)
    (h : ∀ b, A' b = { A b with refs := (A b).refs + one b r, owes := (A b).owes + one b r }) :
    ∀ b, RefCount.Step (A b) (A' b) := by
  cases r with
  | none => exact step_of_eq fun b => (h b).trans (by simp [one])
  | some c =>
    refine step_at c ?_ fun b hb => (h b).trans (by simp [one, Ne.symm hb])
    have hc := h c
    simp only [one, if_true] at hc
    exact hc ▸ .lend (hr c rfl)

/-- A new weak reference to the block of `r`. -/
lemma retainWeak_step {A A' : ℕ → RefCount} {r : Option ℕ}
    (hr : ∀ c, r = some c → 0 < (A c).wrefs ∨ 0 < (A c).refs)
    (h : ∀ b, A' b = { A b with weak := (A b).weak + one b r, wrefs := (A b).wrefs + one b r }) :
    ∀ b, RefCount.Step (A b) (A' b) := by
  cases r with
  | none => exact step_of_eq fun b => (h b).trans (by simp [one])
  | some c =>
    refine step_at c ?_ fun b hb => (h b).trans (by simp [one, Ne.symm hb])
    have hc := h c
    simp only [one, if_true] at hc
    exact hc ▸ .retainWeak (hr c rfl)

grind_pattern tally_update => tally w (Function.update f i a)
attribute [grind =] one Stage.holds Stage.holdsWeak retains releases

variable [Fintype T] [Fintype H] [Fintype W] [Fintype S]
variable [DecidableEq T] [DecidableEq H] [DecidableEq W] [DecidableEq S]

omit [DecidableEq H] [DecidableEq W] [DecidableEq S] in
/-- A pending atomic operation is the step of the scheme it is named after. -/
theorem micro_account {s : State T H W S V} {t : T} {m : Micro} {rest : List Micro}
    (ht : s.todo t = m :: rest) :
    ∀ b, RefCount.Step (s.account b) ((s.micro t rest m).account b) := by
  have hm : m ∈ s.todo t := by simp [ht]
  cases m with
  | retain c =>
    refine step_at c ?_ fun b hb => ?_
    · have he : (s.micro t rest (.retain c)).account c =
          { s.account c with strong := s.strong c + 1, owes := s.owes c - 1 } := by
        ext <;> simp [micro, account, refs, owes, wrefs, dying, freeing] <;> grind
      exact he ▸ .settle (tally_count_pos hm)
    · ext <;> simp [micro, account, refs, owes, wrefs, dying, freeing] <;> grind
  | release c =>
    have hr := refs_pos_of_todo hm
    refine step_at c ?_ fun b hb => ?_
    · by_cases h1 : s.strong c = 1
      · have he : (s.micro t rest (.release c)).account c =
            { s.account c with strong := 0, refs := s.refs c - 1, dying := s.dying c + 1 } := by
          ext <;> simp [micro, h1, account, refs, owes, wrefs, dying, freeing] <;> grind
        exact he ▸ .releaseLast hr h1
      · have he : (s.micro t rest (.release c)).account c =
            { s.account c with strong := s.strong c - 1, refs := s.refs c - 1 } := by
          ext <;> simp [micro, h1, account, refs, owes, wrefs, dying, freeing] <;> grind
        exact he ▸ .release hr h1
    · ext <;> simp [micro, account, refs, owes, wrefs, dying, freeing] <;> grind
  | destroyData c =>
    refine step_at c ?_ fun b hb => ?_
    · have he : (s.micro t rest (.destroyData c)).account c =
          { s.account c with
            dying := s.dying c - 1, dtors := s.dtors c + 1, wrefs := s.wrefs c + 1 } := by
        ext <;> simp [micro, account, refs, owes, wrefs, dying, freeing] <;> grind
      exact he ▸ .destroy (tally_count_pos hm)
    · ext <;> simp [micro, account, refs, owes, wrefs, dying, freeing] <;> grind
  | releaseWeak c =>
    have hr := wrefs_pos_of_todo hm
    refine step_at c ?_ fun b hb => ?_
    · by_cases h1 : s.weak c = 1
      · have he : (s.micro t rest (.releaseWeak c)).account c =
            { s.account c with weak := 0, wrefs := s.wrefs c - 1, freeing := s.freeing c + 1 } := by
          ext <;> simp [micro, h1, account, refs, owes, wrefs, dying, freeing] <;> grind
        exact he ▸ .releaseWeakLast hr h1
      · have he : (s.micro t rest (.releaseWeak c)).account c =
            { s.account c with weak := s.weak c - 1, wrefs := s.wrefs c - 1 } := by
          ext <;> simp [micro, h1, account, refs, owes, wrefs, dying, freeing] <;> grind
        exact he ▸ .releaseWeak hr h1
    · ext <;> simp [micro, account, refs, owes, wrefs, dying, freeing] <;> grind
  | destroyBlock c =>
    refine step_at c ?_ fun b hb => ?_
    · have he : (s.micro t rest (.destroyBlock c)).account c =
          { s.account c with freeing := s.freeing c - 1, frees := s.frees c + 1 } := by
        ext <;> simp [micro, account, refs, owes, wrefs, dying, freeing] <;> grind
      exact he ▸ .deallocate (tally_count_pos hm)
    · ext <;> simp [micro, account, refs, owes, wrefs, dying, freeing] <;> grind

end State
end Asp.Ptr
