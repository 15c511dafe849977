import Asp.Iter.Rules

/-! What the first calls of `next()` on an adapter return, from what the first calls on the
iterators it is made of return. Every adapter is exhausted for good once it is exhausted. -/
namespace Asp.Iter
open Asp.Foundation
variable {α β ι : Type}

/-- The first `m` calls of `next()` return the items of `l` and `nullopt` beyond its end. -/
def Serves : ℕ → Iter α → List α → Prop
  | 0, _, _ => True
  | m + 1, it, l => ∃ it', Next it l.head? it' ∧ Serves m it' l.tail

theorem serves_zero (it : Iter α) (l : List α) : Serves 0 it l := trivial

theorem Serves.mono {m k : ℕ} {it : Iter α} {l : List α} (h : Serves m it l) (hk : k ≤ m) :
    Serves k it l := by
  induction k generalizing m it l with
  | zero => exact serves_zero it l
  | succ k ih =>
    obtain ⟨m, rfl⟩ : ∃ m', m = m' + 1 := ⟨m - 1, by omega⟩
    obtain ⟨it', hn, hs⟩ := h
    exact ⟨it', hn, ih hs (by omega)⟩

/-- Moving an iterator forward without returning an item does not change what it serves. -/
theorem Serves.of_next {m : ℕ} {it jt : Iter α} {l : List α}
    (hnext : ∀ it', Next it l.head? it' → Next jt l.head? it') (h : Serves m it l) :
    Serves m jt l := by
  cases m with
  | zero => exact serves_zero jt l
  | succ m =>
    obtain ⟨it', hn, hs⟩ := h
    exact ⟨it', hnext it' hn, hs⟩

theorem serves_cxxIter (m : ℕ) (l : List α) : Serves m (.cxxIter l) l := by
  induction m generalizing l with
  | zero => exact serves_zero _ l
  | succ m ih => exact ⟨_, next_cxxIter l, ih l.tail⟩

theorem serves_map (f : α → β) {m : ℕ} {it : Iter α} {l : List α} (h : Serves m it l) :
    Serves m (.map f it) (l.map f) := by
  induction m generalizing it l with
  | zero => exact serves_zero _ _
  | succ m ih =>
    obtain ⟨it', hn, hs⟩ := h
    cases l <;> exact ⟨_, next_map f hn, ih hs⟩

theorem serves_copied {m : ℕ} {it : Iter α} {l : List α} (h : Serves m it l) :
    Serves m (.copied it) l := by
  induction m generalizing it l with
  | zero => exact serves_zero _ _
  | succ m ih =>
    obtain ⟨it', hn, hs⟩ := h
    exact ⟨_, next_copied hn, ih hs⟩

theorem serves_inspect (f : α → Unit) {m : ℕ} {it : Iter α} {l : List α} (h : Serves m it l) :
    Serves m (.inspect f it) l := by
  induction m generalizing it l with
  | zero => exact serves_zero _ _
  | succ m ih =>
    obtain ⟨it', hn, hs⟩ := h
    exact ⟨_, next_inspect f hn, ih hs⟩

/-- The items of `l` with their positions, counted from `k`. -/
def enumerateFrom (k : ℕ) (l : List α) : List (ℕ × α) := (l.zipIdx k).map Prod.swap

theorem serves_enumerate (k : ℕ) {m : ℕ} {it : Iter α} {l : List α} (h : Serves m it l) :
    Serves m (.enumerate k it) (enumerateFrom k l) := by
  induction m generalizing k it l with
  | zero => exact serves_zero _ _
  | succ m ih =>
    obtain ⟨it', hn, hs⟩ := h
    cases l with
    | nil => exact ⟨_, next_enumerate_end k hn, ih k hs⟩
    | cons a l => exact ⟨_, next_enumerate k hn, ih (k + 1) hs⟩

theorem serves_zip {m : ℕ} {p : Iter α} {q : Iter β} {l : List α} {l' : List β}
    (h : Serves m p l) (h' : Serves m q l') : Serves m (.zip p q) (l.zip l') := by
  induction m generalizing p q l l' with
  | zero => exact serves_zero _ _
  | succ m ih =>
    obtain ⟨p', hp, hs⟩ := h
    obtain ⟨q', hq, hs'⟩ := h'
    have hz := next_zip hp hq
    cases l with
    | nil => exact ⟨_, hz, ih hs hs'⟩
    | cons a l =>
      cases l' with
      | nil =>
        have hi := ih hs hs'
        rw [List.tail_nil, List.zip_nil_right] at hi
        exact ⟨_, hz, hi⟩
      | cons b l' => exact ⟨_, hz, ih hs hs'⟩

/-- An exhausted first iterator is polled again by every later call. -/
theorem serves_chain {m : ℕ} {p q : Iter α} {l l' : List α} (h : Serves m p l)
    (h' : Serves (m - l.length) q l') : Serves m (.chain p q) (l ++ l') := by
  induction m generalizing p q l l' with
  | zero => exact serves_zero _ _
  | succ m ih =>
    obtain ⟨p', hp, hs⟩ := h
    cases l with
    | nil =>
      obtain ⟨q', hq, hs'⟩ := h'
      exact ⟨_, next_chain_right hp hq, ih hs hs'⟩
    | cons a l =>
      rw [List.length_cons, Nat.add_sub_add_right] at h'
      exact ⟨_, next_chain_left q hp, ih hs h'⟩

theorem serves_take {m n : ℕ} {it : Iter α} {l : List α} (h : Serves (min m n) it l) :
    Serves m (.take n it) (l.take n) := by
  induction m generalizing n it l with
  | zero => exact serves_zero _ _
  | succ m ih =>
    cases n with
    | zero =>
      rw [Nat.min_zero] at h
      have hi : Serves m (.take 0 it) (l.take 0) := ih (by rw [Nat.min_zero]; exact h)
      exact ⟨_, next_take_zero it, hi⟩
    | succ n =>
      rw [Nat.add_min_add_right] at h
      obtain ⟨it', hn, hs⟩ := h
      cases l with
      | nil => exact ⟨_, next_take_succ n hn, by simpa using ih hs⟩
      | cons a l => exact ⟨_, next_take_succ n hn, ih hs⟩

/-- One call of `Skip::next`: it drops what is left to drop and then polls once; where the
items run out earlier, the count that remains is kept. -/
theorem next_skip {m n : ℕ} {it : Iter α} {l : List α} (h : Serves (n + (m + 1)) it l) :
    ∃ n' it' l', Next (.skip n it) (l.drop n).head? (.skip n' it') ∧ Serves (n' + m) it' l' ∧
      l'.drop n' = (l.drop n).tail := by
  induction n generalizing it l with
  | zero =>
    rw [Nat.zero_add] at h
    obtain ⟨it', hn, hs⟩ := h
    exact ⟨0, it', l.tail, next_skip_zero hn, by rwa [Nat.zero_add], by simp⟩
  | succ n ih =>
    rw [Nat.add_right_comm] at h
    obtain ⟨it', hn, hs⟩ := h
    cases l with
    | nil => exact ⟨n + 1, it', [], next_skip_end n hn, hs.mono (by omega), by simp⟩
    | cons a l =>
      obtain ⟨n', it'', l', hn', hs', hl⟩ := ih hs
      exact ⟨n', it'', l', next_skip_drop hn hn', hs', hl⟩

theorem serves_skip {m n : ℕ} {it : Iter α} {l : List α} (h : Serves (n + m) it l) :
    Serves m (.skip n it) (l.drop n) := by
  induction m generalizing n it l with
  | zero => exact serves_zero _ _
  | succ m ih =>
    obtain ⟨n', it', l', hn, hs, hl⟩ := next_skip h
    rw [Serves, ← hl]
    exact ⟨_, hn, ih hs⟩

/-- The first `N` items as an array. -/
def firstChunk (N : ℕ) (l : List α) (h : N ≤ l.length) : List.Vector α N :=
  ⟨l.take N, List.length_take_of_le h⟩

lemma chunk_le_length {N i : ℕ} {l : List α} (h : i < l.length / N) :
    N ≤ (l.drop (i * N)).length := by
  have hle := Nat.mul_le_of_le_div N (i + 1) l.length h
  rw [Nat.succ_mul] at hle
  rw [List.length_drop]
  omega

/-- The complete chunks of `N` items; a shorter remainder is dropped. -/
def chunks (N : ℕ) (l : List α) : List (List.Vector α N) :=
  List.ofFn fun i : Fin (l.length / N) =>
    firstChunk N (l.drop (i * N)) (chunk_le_length i.isLt)

lemma length_chunks (N : ℕ) (l : List α) : (chunks N l).length = l.length / N := List.length_ofFn

lemma chunks_of_lt {N : ℕ} {l : List α} (h : l.length < N) : chunks N l = [] := by
  apply List.eq_nil_of_length_eq_zero
  rw [length_chunks, Nat.div_eq_of_lt h]

lemma chunks_of_le {N : ℕ} {l : List α} (hN : 0 < N) (h : N ≤ l.length) :
    chunks N l = firstChunk N l h :: chunks N (l.drop N) := by
  have hlen : l.length / N = (l.length - N) / N + 1 := Nat.div_eq_sub_div hN h
  apply List.ext_getElem
  · rw [List.length_cons, length_chunks, length_chunks, List.length_drop, hlen]
  · intro i hi hi'
    cases i with
    | zero => simp [chunks]
    | succ i => simp [chunks, Nat.succ_mul, Nat.add_comm]

lemma fillArray_full {m k : ℕ} {it : Iter α} {l : List α} (h : Serves (k + m) it l)
    (hk : k ≤ l.length) : ∃ it', Returns (fun n => fillArray (fun it => next n it) k it)
      (some (firstChunk k l hk), it') ∧ Serves m it' (l.drop k) := by
  induction k generalizing it l with
  | zero => exact ⟨it, Returns.pure _, by simpa using h⟩
  | succ k ih =>
    rw [Nat.add_right_comm] at h
    obtain ⟨it', hn, hs⟩ := h
    cases l with
    | nil => cases hk
    | cons a l =>
      obtain ⟨it'', hf, hs'⟩ := ih hs (Nat.le_of_succ_le_succ hk)
      refine ⟨it'', Returns.bind hn ?_, hs'⟩
      exact Returns.map (fun r => (r.1.map (List.Vector.cons a), r.2)) hf

lemma fillArray_short {m k : ℕ} {it : Iter α} {l : List α} (h : Serves (k + m) it l)
    (hk : l.length < k) : ∃ it', Returns (fun n => fillArray (fun it => next n it) k it)
      (none, it') ∧ Serves m it' [] := by
  induction k generalizing it l with
  | zero => omega
  | succ k ih =>
    rw [Nat.add_right_comm] at h
    obtain ⟨it', hn, hs⟩ := h
    cases l with
    | nil => exact ⟨it', Returns.bind hn (Returns.pure _), hs.mono (by omega)⟩
    | cons a l =>
      obtain ⟨it'', hf, hs'⟩ := ih hs (Nat.lt_of_succ_lt_succ hk)
      refine ⟨it'', Returns.bind hn ?_, hs'⟩
      exact Returns.map (fun r => (r.1.map (List.Vector.cons a), r.2)) hf

/-- The items of an incomplete last chunk are taken from the inner iterator and lost. -/
theorem serves_arrayChunks {m N : ℕ} (hN : 0 < N) {it : Iter α} {l : List α}
    (h : Serves (N * m) it l) : Serves m (.arrayChunks N hN it) (chunks N l) := by
  induction m generalizing it l with
  | zero => exact serves_zero _ _
  | succ m ih =>
    rw [Nat.mul_succ, Nat.add_comm] at h
    rcases Nat.lt_or_ge l.length N with hl | hl
    · obtain ⟨it', hf, hs⟩ := fillArray_short h hl
      have hi := ih hs
      rw [chunks_of_lt (l := []) hN] at hi
      rw [chunks_of_lt hl]
      exact ⟨_, next_arrayChunks hf, hi⟩
    · obtain ⟨it', hf, hs⟩ := fillArray_full h hl
      rw [chunks_of_le hN hl]
      exact ⟨_, next_arrayChunks hf, ih hs⟩

end Asp.Iter
