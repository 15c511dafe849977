import Asp.Iter.Polls
import Asp.Iter.Serves

/-! The adapters that take an unbounded number of items from other iterators for one of their
own: `filter`, `filterMap`, `flatten` and `cycle`. -/
namespace Asp.Iter
open Polls
variable {α β ι : Type}

/-- An adapter `E` that passes on the items of its member `cur`, and serves `L` once `cur`
has returned `nullopt`. -/
theorem serves_append {E : Iter α → Iter α}
    (hitem : ∀ {c c' : Iter α} {a : α}, Next c (some a) c' → Next (E c) (some a) (E c'))
    {p q : Polls} {l L : List α}
    (hrest : ∀ {c c' : Iter α} {k : ℕ}, Next c none c' → q.covers k → Serves k (E c) L)
    {m : ℕ} {cur : Iter α} (hcur : ∀ k, p.covers k → Serves k cur l)
    (hm : (p.append l.length q).covers m) : Serves m (E cur) (l ++ L) := by
  rcases covers_append hm with ⟨hp, hle⟩ | ⟨hp, hq⟩
  · have h := hcur m hp
    clear hcur hm hp hrest
    induction m generalizing cur l with
    | zero => exact serves_zero _ _
    | succ m ih =>
      obtain ⟨cur', hn, hs⟩ := h
      cases l with
      | nil => cases hle
      | cons a l => exact ⟨_, hitem hn, ih (Nat.le_of_succ_le_succ hle) hs⟩
  · have h := hcur _ hp
    clear hcur hm hp
    induction l generalizing cur m with
    | nil =>
      obtain ⟨cur', hn, -⟩ := h
      exact hrest hn hq
    | cons a l ih =>
      obtain ⟨cur', hn, hs⟩ := h
      cases m with
      | zero => exact serves_zero _ _
      | succ m =>
        rw [List.length_cons, Nat.add_sub_add_right] at hq
        exact ⟨_, hitem hn, ih hq hs⟩

/-- A loop adapter `W` that turns each item `i` of its member into the items `g i`. -/
theorem serves_spread {W : Iter ι → Iter α} {polls : ι → Polls} {g : ι → List α}
    (hend : ∀ {it it' : Iter ι}, Next it none it' → Next (W it) none (W it'))
    (hitem : ∀ {it it' : Iter ι} {i : ι} {L : List α} {q : Polls} {m : ℕ},
      Next it (some i) it' → (∀ k, q.covers k → Serves k (W it') L) →
      ((polls i).append (g i).length q).covers m → Serves m (W it) (g i ++ L))
    {fin : Polls} {is rest : List ι} (hrest : ∀ k, fin.covers k → k = 0 ∨ rest = [])
    {it : Iter ι} (h : ∀ k, fin.covers k → Serves (is.length + k) it (is ++ rest)) {m : ℕ}
    (hm : (spread polls (fun i => (g i).length) fin is).covers m) :
    Serves m (W it) ((is ++ rest).flatMap g) := by
  induction is generalizing it m with
  | nil =>
    rcases hrest m hm with rfl | rfl
    · exact serves_zero _ _
    · replace h := h m hm
      rw [List.length_nil, Nat.zero_add] at h
      clear hm hrest
      induction m generalizing it with
      | zero => exact serves_zero _ _
      | succ m ih =>
        obtain ⟨it', hn, hs⟩ := h
        exact ⟨_, hend hn, ih hs⟩
  | cons i is ih =>
    have h0 := h 0 (covers_zero fin)
    rw [List.length_cons, Nat.add_right_comm] at h0
    obtain ⟨it', hn, -⟩ := h0
    refine hitem hn (fun k hk => ih (fun j hj => ?_) hk) hm
    have hj := h j hj
    rw [List.length_cons, Nat.add_right_comm] at hj
    obtain ⟨it'', hn', hs⟩ := hj
    rwa [(hn'.unique hn).2] at hs

theorem serves_spreadOver {W : Iter ι → Iter α} {polls : ι → Polls} {g : ι → List α}
    (hend : ∀ {it it' : Iter ι}, Next it none it' → Next (W it) none (W it'))
    (hitem : ∀ {it it' : Iter ι} {i : ι} {L : List α} {q : Polls} {m : ℕ},
      Next it (some i) it' → (∀ k, q.covers k → Serves k (W it') L) →
      ((polls i).append (g i).length q).covers m → Serves m (W it) (g i ++ L))
    {o : Polls} {is : List ι} {it : Iter ι} (h : ∀ k, o.covers k → Serves k it is) {m : ℕ}
    (hm : (spreadOver polls (fun i => (g i).length) o is).covers m) :
    Serves m (W it) (is.flatMap g) := by
  cases o with
  | all =>
    have hs : Serves m (W it) ((is ++ []).flatMap g) := by
      refine serves_spread hend hitem (fun _ _ => .inr rfl) (fun k _ => ?_) hm
      rw [List.append_nil]
      exact h _ trivial
    rwa [List.append_nil] at hs
  | upTo n =>
    rw [← List.take_append_drop n is]
    refine serves_spread hend hitem (fun k hk => ?_) (fun k hk => ?_) hm
    · rw [List.drop_eq_nil_iff]
      change k ≤ n - is.length at hk
      omega
    · rw [List.take_append_drop]
      apply h
      change k ≤ n - is.length at hk
      change (is.take n).length + k ≤ n
      rw [List.length_take]
      omega

/-- The items that one item of the source contributes to `filter` or `filterMap`. -/
theorem serves_keep {W : Iter ι → Iter α} {it it' : Iter ι} {r : List α} {L : List α} {q : Polls}
    {m : ℕ} (hkeep : ∀ a, r = [a] → Next (W it) (some a) (W it'))
    (hdrop : r = [] → ∀ {item : Option α} {jt : Iter α}, Next (W it') item jt → Next (W it) item jt)
    (hr : r.length ≤ 1) (hL : ∀ k, q.covers k → Serves k (W it') L)
    (hm : (all.append r.length q).covers m) : Serves m (W it) (r ++ L) := by
  have hq : q.covers (m - r.length) := by
    rcases covers_append hm with ⟨-, hle⟩ | ⟨-, hq⟩
    · rw [Nat.sub_eq_zero_of_le hle]
      exact covers_zero q
    · exact hq
  match r, hr with
  | [], _ => exact (hL m hq).of_next fun _ hn => hdrop rfl hn
  | [a], _ =>
    cases m with
    | zero => exact serves_zero _ _
    | succ m => exact ⟨_, hkeep a rfl, hL m hq⟩

/-- What an item contributes to `filter`. -/
def kept (f : α → Bool) (a : α) : List α := if f a then [a] else []

lemma filter_eq_flatMap (f : α → Bool) (l : List α) : l.filter f = l.flatMap (kept f) := by
  induction l with
  | nil => rfl
  | cons a l ih =>
    rw [List.filter_cons, List.flatMap_cons, ih, kept]
    split_ifs <;> rfl

theorem serves_filter {f : α → Bool} {o : Polls} {it : Iter α} {l : List α}
    (h : ∀ k, o.covers k → Serves k it l) {m : ℕ}
    (hm : (spreadOver (fun _ => all) (fun a => (kept f a).length) o l).covers m) :
    Serves m (.filter f it) (l.filter f) := by
  rw [filter_eq_flatMap]
  refine serves_spreadOver (next_filter_end f) (fun {it it' a L q m} hn hL hm => ?_) h hm
  cases ha : f a with
  | true =>
    have hk : kept f a = [a] := if_pos ha
    rw [hk] at hm ⊢
    exact serves_keep (fun b hb => by cases hb; exact next_filter_keep hn ha) (fun hb => by cases hb)
      (Nat.le_refl 1) hL hm
  | false =>
    have hk : kept f a = [] := if_neg (by rw [ha]; exact Bool.false_ne_true)
    rw [hk] at hm ⊢
    exact serves_keep (fun b hb => by cases hb) (fun _ _ _ h' => next_filter_drop hn ha h')
      (Nat.zero_le 1) hL hm

theorem serves_filterMap {f : α → Option β} {o : Polls} {it : Iter α} {l : List α}
    (h : ∀ k, o.covers k → Serves k it l) {m : ℕ}
    (hm : (spreadOver (fun _ => all) (fun a => (f a).toList.length) o l).covers m) :
    Serves m (.filterMap f it) (l.filterMap f) := by
  rw [List.filterMap_eq_flatMap_toList]
  refine serves_spreadOver (next_filterMap_end f) (fun {it it' a L q m} hn hL hm => ?_) h hm
  cases ha : f a with
  | some b =>
    rw [ha] at hm
    exact serves_keep (fun c hc => by cases hc; exact next_filterMap_keep hn ha) (fun hb => by cases hb)
      (Nat.le_refl 1) hL hm
  | none =>
    rw [ha] at hm
    exact serves_keep (fun b hb => by cases hb) (fun _ _ _ h' => next_filterMap_drop hn ha h')
      (Nat.zero_le 1) hL hm

/-- The current inner iterator is emptied before the outer one is polled again. -/
theorem serves_flattenCur {wrap : ι → Iter α} {it : Iter ι} {cur : Iter α} {p q : Polls}
    {l L : List α} (hcur : ∀ k, p.covers k → Serves k cur l)
    (hrest : ∀ k, q.covers k → Serves k (.flatten wrap it) L) {m : ℕ}
    (hm : (p.append l.length q).covers m) : Serves m (.flattenCur wrap it cur) (l ++ L) :=
  serves_append (next_flattenCur_item wrap it)
    (fun hn hq => (hrest _ hq).of_next fun _ h => next_flattenCur_leave hn h) hcur hm

theorem serves_flatten {wrap : ι → Iter α} {polls : ι → Polls} {g : ι → List α}
    (hwrap : ∀ i k, (polls i).covers k → Serves k (wrap i) (g i)) {o : Polls} {it : Iter ι}
    {is : List ι} (h : ∀ k, o.covers k → Serves k it is) {m : ℕ}
    (hm : (spreadOver polls (fun i => (g i).length) o is).covers m) :
    Serves m (.flatten wrap it) (is.flatMap g) := by
  refine serves_spreadOver (next_flatten_end wrap) (fun hn hL hm => ?_) h hm
  exact (serves_flattenCur (hwrap _) hL hm).of_next fun _ hc => next_flatten_enter hn hc

/-- The calls counted for `K` further laps of `Cycle` over items counted by `p`. -/
def laps (p : Polls) (len : ℕ) : ℕ → Polls
  | 0 => upTo 0
  | K + 1 => p.append len (laps p len K)

/-- As `laps`; over no items at all, every call makes a fresh copy and polls it at most twice. -/
def cycleLaps (p : Polls) (len K : ℕ) : Polls :=
  if len = 0 then if p.covers 2 then all else p else laps p len K

lemma covers_laps {p : Polls} {len : ℕ} (hlen : 0 < len) {m K : ℕ} (hp : p.covers m)
    (hm : m ≤ K) : (laps p len K).covers m := by
  induction K generalizing m with
  | zero => exact hm
  | succ K ih =>
    apply covers_append_of hp
    exact ih (hp.mono (Nat.sub_le m len)) (by omega)

theorem covers_cycleLaps {p : Polls} (len : ℕ) {m K : ℕ} (hp : p.covers m) (hm : m ≤ K) :
    (cycleLaps p len K).covers m := by
  rw [cycleLaps]
  split_ifs with h
  · exact trivial
  · exact hp
  · exact covers_laps (Nat.pos_of_ne_zero h) hp hm

/-- At the end of a lap `Cycle` starts the next one with a fresh copy of `m_original`. -/
lemma serves_laps {o : Iter α} {p : Polls} {a : α} {l : List α}
    (ho : ∀ k, p.covers k → Serves k o (a :: l)) (K : ℕ) {m : ℕ} {c c' : Iter α}
    (hc : Next c none c') (hm : (laps p (l.length + 1) K).covers m) :
    Serves m (.cycle o c) (List.replicate K (a :: l)).flatten := by
  induction K generalizing m c c' with
  | zero =>
    rw [Nat.le_zero.mp hm]
    exact serves_zero _ _
  | succ K ih =>
    rw [List.replicate_succ, List.flatten_cons]
    cases m with
    | zero => exact serves_zero _ _
    | succ m =>
      have hp : p.covers 1 := by
        rcases covers_append hm with ⟨hp, -⟩ | ⟨hp, -⟩
        · exact hp.mono (Nat.le_add_left 1 m)
        · exact hp.mono (Nat.le_add_left 1 _)
      obtain ⟨o', hn, -⟩ := ho 1 hp
      have hlap := serves_append (next_cycle_item o) (fun hc' hq => ih hc' hq) ho hm
      refine hlap.of_next fun jt hj => ?_
      rw [← (Next.unique (next_cycle_item o hn) hj).2]
      exact next_cycle_restart hc hn

/-- A `Cycle` over an empty iterator returns `nullopt` on every call. -/
lemma serves_cycle_empty {o : Iter α} (ho : Serves 2 o []) (m : ℕ) {c c' : Iter α}
    (hc : Next c none c') : Serves m (.cycle o c) [] := by
  obtain ⟨o', hn, o'', hn', -⟩ := ho
  induction m generalizing c c' with
  | zero => exact serves_zero _ _
  | succ m ih => exact ⟨_, next_cycle_restart hc hn, ih hn'⟩

lemma serves_cycleLaps {o : Iter α} {p : Polls} {l : List α}
    (ho : ∀ k, p.covers k → Serves k o l) (K : ℕ) {m : ℕ} {c c' : Iter α} (hc : Next c none c')
    (hm : (cycleLaps p l.length K).covers m) :
    Serves m (.cycle o c) (List.replicate K l).flatten := by
  cases l with
  | nil =>
    rw [List.flatten_replicate_nil]
    by_cases h2 : p.covers 2
    · exact serves_cycle_empty (ho 2 h2) m hc
    · rw [List.length_nil, cycleLaps, if_pos rfl, if_neg h2] at hm
      match m with
      | 0 => exact serves_zero _ _
      | 1 =>
        obtain ⟨o', hn, -⟩ := ho 1 hm
        exact ⟨_, next_cycle_restart hc hn, serves_zero _ _⟩
      | m + 2 => exact absurd (hm.mono (Nat.le_add_left 2 m)) h2
  | cons a l =>
    rw [cycleLaps, if_neg (List.length_pos_iff.mpr (List.cons_ne_nil a l)).ne'] at hm
    exact serves_laps ho K hc hm

theorem serves_cycle {o c : Iter α} {p q : Polls} {l l' : List α}
    (ho : ∀ k, p.covers k → Serves k o l) (hc : ∀ k, q.covers k → Serves k c l') (K : ℕ) {m : ℕ}
    (hm : (q.append l'.length (cycleLaps p l.length K)).covers m) :
    Serves m (.cycle o c) (l' ++ (List.replicate K l).flatten) :=
  serves_append (next_cycle_item o) (fun hn hq => serves_cycleLaps ho K hn hq) hc hm

end Asp.Iter
