import Asp.Iter.Loops

/-! The list a pipeline denotes, and the proof that `next()` serves it. A cycle denotes as many
laps as the items asked of it need, and `K` further ones. -/
namespace Asp.Iter
open Polls

/-- The list functions that the adapters stand for, where the first `d` items are needed. -/
def listOf (K : ℕ) : ℕ → {α : Type} → Iter α → List α
  | _, _, .cxxIter l => l
  | d, _, .map f it => (listOf K d it).map f
  | d, _, .copied it => listOf K d it
  | d, _, .inspect _ it => listOf K d it
  | d, _, .filter f it => (listOf K d it).filter f
  | d, _, .filterMap f it => (listOf K d it).filterMap f
  | d, _, .enumerate k it => enumerateFrom k (listOf K d it)
  | d, _, .chain p q => listOf K d p ++ listOf K d q
  | d, _, .zip p q => (listOf K d p).zip (listOf K d q)
  | _, _, .take n it => (listOf K n it).take n
  | d, _, .skip n it => (listOf K (n + d) it).drop n
  | d, _, .arrayChunks N _ it => chunks N (listOf K (N * d) it)
  | d, _, .flatten wrap it => (listOf K d it).flatMap fun i => listOf K d (wrap i)
  | d, _, .flattenCur wrap it cur =>
      listOf K d cur ++ (listOf K d it).flatMap fun i => listOf K d (wrap i)
  | d, _, .cycle o it => listOf K d it ++ (List.replicate (K + d) (listOf K d o)).flatten

/-- How many calls of `next()` follow `listOf K d it`. -/
def polls (K : ℕ) : ℕ → {α : Type} → Iter α → Polls
  | _, _, .cxxIter _ => all
  | d, _, .map _ it => polls K d it
  | d, _, .copied it => polls K d it
  | d, _, .inspect _ it => polls K d it
  | d, _, .filter f it =>
      spreadOver (fun _ => all) (fun a => (kept f a).length) (polls K d it) (listOf K d it)
  | d, _, .filterMap f it =>
      spreadOver (fun _ => all) (fun a => (f a).toList.length) (polls K d it) (listOf K d it)
  | d, _, .enumerate _ it => polls K d it
  | d, _, .chain p q => (polls K d p).min ((polls K d q).after (listOf K d p).length)
  | d, _, .zip p q => (polls K d p).min (polls K d q)
  | _, _, .take n it => if (polls K n it).covers n then all else polls K n it
  | d, _, .skip n it => (polls K (n + d) it).drop n
  | d, _, .arrayChunks N _ it => (polls K (N * d) it).div N
  | d, _, .flatten wrap it =>
      spreadOver (fun i => polls K d (wrap i)) (fun i => (listOf K d (wrap i)).length)
        (polls K d it) (listOf K d it)
  | d, _, .flattenCur wrap it cur =>
      (polls K d cur).append (listOf K d cur).length
        (spreadOver (fun i => polls K d (wrap i)) (fun i => (listOf K d (wrap i)).length)
          (polls K d it) (listOf K d it))
  | d, _, .cycle o it =>
      (polls K d it).append (listOf K d it).length
        (cycleLaps (polls K d o) (listOf K d o).length (K + d))

lemma getElem?_flatten_replicate {α : Type} (l : List α) {k i : ℕ} (h : i < k * l.length) :
    (List.replicate k l).flatten[i]? = l[i % l.length]? := by
  induction k generalizing i with
  | zero => omega
  | succ k ih =>
    rw [List.replicate_succ, List.flatten_cons]
    rcases Nat.lt_or_ge i l.length with hi | hi
    · rw [List.getElem?_append_left hi, Nat.mod_eq_of_lt hi]
    · rw [Nat.succ_mul] at h
      rw [List.getElem?_append_right hi, ih (by omega), ← Nat.mod_eq_sub_mod hi]

/-- A cycle under a take denotes the cyclic repetition of a non-empty list, for any `K`. -/
theorem listOf_take_cycled (K d n : ℕ) {α : Type} (it : Iter α) {i : ℕ} (hi : i < n)
    (hl : listOf K n it ≠ []) :
    (listOf K d (.take n (cycled it)))[i]? = (listOf K n it)[i % (listOf K n it).length]? := by
  have hpos : 0 < (listOf K n it).length := List.length_pos_iff.mpr hl
  change (List.take n (listOf K n it ++ (List.replicate (K + n) (listOf K n it)).flatten))[i]? = _
  rw [List.getElem?_take_of_lt hi, ← List.flatten_cons, ← List.replicate_succ]
  apply getElem?_flatten_replicate
  exact (show i < (K + n + 1) * 1 by omega).trans_le (Nat.mul_le_mul_left _ hpos)

/-- Every state of every pipeline serves its list, for as many calls as `polls` counts. -/
theorem serves_listOf (K d : ℕ) {α : Type} (it : Iter α) (m : ℕ) (hm : (polls K d it).covers m) :
    Serves m it (listOf K d it) := by
  induction it generalizing d m with
  | cxxIter l => exact serves_cxxIter m l
  | map f it ih => exact serves_map f (ih d m hm)
  | copied it ih => exact serves_copied (ih d m hm)
  | inspect f it ih => exact serves_inspect f (ih d m hm)
  | filter f it ih => exact serves_filter (ih d) hm
  | filterMap f it ih => exact serves_filterMap (ih d) hm
  | enumerate k it ih => exact serves_enumerate k (ih d m hm)
  | chain p q ihp ihq =>
    obtain ⟨hp, hq⟩ := covers_min.mp hm
    exact serves_chain (ihp d m hp) (ihq d _ (covers_after.mp hq))
  | zip p q ihp ihq =>
    obtain ⟨hp, hq⟩ := covers_min.mp hm
    exact serves_zip (ihp d m hp) (ihq d m hq)
  | take n it ih =>
    apply serves_take
    rw [polls] at hm
    split_ifs at hm with hn
    · exact ih n _ (hn.mono (Nat.min_le_right m n))
    · exact ih n _ (hm.mono (Nat.min_le_left m n))
  | skip n it ih =>
    cases m with
    | zero => exact serves_zero _ _
    | succ m => exact serves_skip (ih (n + d) _ (covers_of_drop hm (Nat.succ_pos m)))
  | arrayChunks N hN it ih => exact serves_arrayChunks hN (ih (N * d) _ ((covers_div hN).mp hm))
  | flatten wrap it ihw ih => exact serves_flatten (fun i => ihw i d) (ih d) hm
  | flattenCur wrap it cur ihw ih ihc =>
    exact serves_flattenCur (ihc d) (fun k hk => serves_flatten (fun i => ihw i d) (ih d) hk) hm
  | cycle o it iho ih => exact serves_cycle (iho d) (ih d) (K + d) hm

/-- The pipelines all of whose cycles are under a take. `under` says that a `take` further out
bounds how many items are asked for, one by one; under it a stage that looks for an item,
or goes on to the next inner iterator, may wait for ever on a cycle. -/
def CyclesUnderTake : Bool → {α : Type} → Iter α → Prop
  | _, _, .cxxIter _ => True
  | under, _, .map _ it => CyclesUnderTake under it
  | under, _, .copied it => CyclesUnderTake under it
  | under, _, .inspect _ it => CyclesUnderTake under it
  | _, _, .filter _ it => CyclesUnderTake false it
  | _, _, .filterMap _ it => CyclesUnderTake false it
  | under, _, .enumerate _ it => CyclesUnderTake under it
  | under, _, .chain p q => CyclesUnderTake under p ∧ CyclesUnderTake under q
  | under, _, .zip p q => CyclesUnderTake under p ∧ CyclesUnderTake under q
  | _, _, .take _ it => CyclesUnderTake true it
  | under, _, .skip _ it => CyclesUnderTake under it
  | under, _, .arrayChunks _ _ it => CyclesUnderTake under it
  | under, _, .flatten wrap it => CyclesUnderTake false it ∧ ∀ i, CyclesUnderTake under (wrap i)
  | under, _, .flattenCur wrap it cur =>
      CyclesUnderTake under cur ∧ CyclesUnderTake false it ∧ ∀ i, CyclesUnderTake under (wrap i)
  | under, _, .cycle o it => under = true ∧ CyclesUnderTake true o ∧ CyclesUnderTake true it

/-- Under a take the calls asked for are counted; elsewhere all of them are. -/
theorem covers_of_cyclesUnderTake (K : ℕ) {under : Bool} {α : Type} {it : Iter α}
    (h : CyclesUnderTake under it) {d m : ℕ} (hm : under = true → m ≤ d) :
    (polls K d it).covers m := by
  induction it generalizing under d m with
  | cxxIter l => exact trivial
  | map f it ih => exact ih h hm
  | copied it ih => exact ih h hm
  | inspect f it ih => exact ih h hm
  | filter f it ih => exact covers_spreadOver _ (fun k => ih h nofun) fun _ _ => trivial
  | filterMap f it ih => exact covers_spreadOver _ (fun k => ih h nofun) fun _ _ => trivial
  | enumerate k it ih => exact ih h hm
  | chain p q ihp ihq =>
    obtain ⟨hp, hq⟩ := h
    exact covers_min.mpr ⟨ihp hp hm, covers_after.mpr ((ihq hq hm).mono (Nat.sub_le m _))⟩
  | zip p q ihp ihq => exact covers_min.mpr ⟨ihp h.1 hm, ihq h.2 hm⟩
  | take n it ih =>
    have hn : (polls K n it).covers n := ih h fun _ => Nat.le_refl n
    rw [polls, if_pos hn]
    exact trivial
  | skip n it ih => exact covers_drop (ih h fun hu => Nat.add_le_add_left (hm hu) n)
  | arrayChunks N hN it ih =>
    exact (covers_div hN).mpr (ih h fun hu => Nat.mul_le_mul_left N (hm hu))
  | flatten wrap it ihw ih =>
    exact covers_spreadOver _ (fun k => ih h.1 nofun) fun i _ => ihw i (h.2 i) hm
  | flattenCur wrap it cur ihw ih ihc =>
    obtain ⟨hc, ho, hw⟩ := h
    have hrest : (spreadOver (fun i => polls K d (wrap i)) (fun i => (listOf K d (wrap i)).length)
        (polls K d it) (listOf K d it)).covers m :=
      covers_spreadOver _ (fun k => ih ho nofun) fun i _ => ihw i (hw i) hm
    exact covers_append_of (ihc hc hm) (hrest.mono (Nat.sub_le m _))
  | cycle o it iho ih =>
    obtain ⟨hu, ho, hc⟩ := h
    have hlaps := covers_cycleLaps (listOf K d o).length (iho ho fun _ => hm hu)
      (Nat.le_trans (hm hu) (Nat.le_add_left d K))
    exact covers_append_of (ih hc fun _ => hm hu) (hlaps.mono (Nat.sub_le m _))

end Asp.Iter
