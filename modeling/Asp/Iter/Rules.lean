import Asp.Iter.Next

/-! What a single `next()` of each adapter does, in terms of the iterators it is made of. -/
namespace Asp.Iter
open Asp.Foundation
variable {α β ι : Type}

/-- A call of `next()` on `it` terminates, returns `item` and leaves `it'` behind. -/
def Next (it : Iter α) (item : Option α) (it' : Iter α) : Prop :=
  Returns (fun n => next n it) (item, it')

theorem Next.unique {it it' it'' : Iter α} {item item' : Option α} (h : Next it item it')
    (h' : Next it item' it'') : item = item' ∧ it' = it'' :=
  Prod.mk.inj (Returns.unique h h')

/-- A body of `next()` that polls `it` first. -/
theorem Next.bind {it it' : Iter α} {item : Option α} {jt jt' : Iter β} {item' : Option β}
    {f : ℕ → Option α × Iter α → Option (Option β × Iter β)} (h : Next it item it')
    (hnext : ∀ n, next (n + 1) jt = (next n it).bind (f n))
    (hf : Returns (fun n => f n (item, it')) (item', jt')) : Next jt item' jt' :=
  Returns.succ (Returns.bind h hf) hnext

/-- A body of `next()` that polls `it` and returns. -/
theorem Next.map {it it' : Iter α} {item : Option α} {jt jt' : Iter β} {item' : Option β}
    {f : Option α × Iter α → Option β × Iter β} (h : Next it item it')
    (hnext : ∀ n, next (n + 1) jt = (next n it).map f)
    (hf : f (item, it') = (item', jt')) : Next jt item' jt' := by
  apply Returns.succ _ hnext
  rw [← hf]
  exact Returns.map f h

/-! One rule for each way through the body of `next()`. -/

theorem next_cxxIter (l : List α) : Next (.cxxIter l) l.head? (.cxxIter l.tail) := by
  refine Returns.succ (Returns.pure _) fun n => ?_
  cases l <;> rfl

theorem next_map (f : α → β) {it it' : Iter α} {item : Option α} (h : Next it item it') :
    Next (.map f it) (item.map f) (.map f it') :=
  h.map (fun _ => rfl) rfl

theorem next_copied {it it' : Iter α} {item : Option α} (h : Next it item it') :
    Next (.copied it) item (.copied it') :=
  h.map (fun _ => rfl) rfl

theorem next_inspect (f : α → Unit) {it it' : Iter α} {item : Option α} (h : Next it item it') :
    Next (.inspect f it) item (.inspect f it') :=
  h.map (fun _ => rfl) rfl

theorem next_filter_end (f : α → Bool) {it it' : Iter α} (h : Next it none it') :
    Next (.filter f it) none (.filter f it') :=
  h.bind (fun _ => rfl) (Returns.pure _)

theorem next_filter_keep {f : α → Bool} {it it' : Iter α} {a : α} (h : Next it (some a) it')
    (ha : f a = true) : Next (.filter f it) (some a) (.filter f it') := by
  apply h.bind (fun _ => rfl)
  simp only [ha, if_true]
  exact Returns.pure _

theorem next_filter_drop {f : α → Bool} {it it' it'' : Iter α} {a : α} {item : Option α}
    (h : Next it (some a) it') (ha : f a = false) (h' : Next (.filter f it') item it'') :
    Next (.filter f it) item it'' := by
  apply h.bind (fun _ => rfl)
  simp only [ha, Bool.false_eq_true, if_false]
  exact h'

theorem next_filterMap_end (f : α → Option β) {it it' : Iter α} (h : Next it none it') :
    Next (.filterMap f it) none (.filterMap f it') :=
  h.bind (fun _ => rfl) (Returns.pure _)

theorem next_filterMap_keep {f : α → Option β} {it it' : Iter α} {a : α} {b : β}
    (h : Next it (some a) it') (ha : f a = some b) :
    Next (.filterMap f it) (some b) (.filterMap f it') := by
  apply h.bind (fun _ => rfl)
  simp only [ha]
  exact Returns.pure _

theorem next_filterMap_drop {f : α → Option β} {it it' : Iter α} {it'' : Iter β} {a : α}
    {item : Option β} (h : Next it (some a) it') (ha : f a = none)
    (h' : Next (.filterMap f it') item it'') : Next (.filterMap f it) item it'' := by
  apply h.bind (fun _ => rfl)
  simp only [ha]
  exact h'

theorem next_enumerate_end (k : ℕ) {it it' : Iter α} (h : Next it none it') :
    Next (.enumerate k it) none (.enumerate k it') :=
  h.map (fun _ => rfl) rfl

theorem next_enumerate (k : ℕ) {it it' : Iter α} {a : α} (h : Next it (some a) it') :
    Next (.enumerate k it) (some (k, a)) (.enumerate (k + 1) it') :=
  h.map (fun _ => rfl) rfl

theorem next_chain_left (q : Iter α) {p p' : Iter α} {a : α} (h : Next p (some a) p') :
    Next (.chain p q) (some a) (.chain p' q) :=
  h.bind (fun _ => rfl) (Returns.pure _)

theorem next_chain_right {p p' q q' : Iter α} {item : Option α} (h : Next p none p')
    (h' : Next q item q') : Next (.chain p q) item (.chain p' q') :=
  h.bind (fun _ => rfl) (Returns.map (fun r => (r.1, Iter.chain p' r.2)) h')

theorem next_zip {p p' : Iter α} {q q' : Iter β} {r : Option α} {r' : Option β}
    (h : Next p r p') (h' : Next q r' q') :
    Next (.zip p q) (r.bind fun a => r'.map (Prod.mk a)) (.zip p' q') := by
  apply h.bind (fun _ => rfl)
  cases r <;> cases r' <;> exact Returns.map _ h'

theorem next_take_zero (it : Iter α) : Next (.take 0 it) none (.take 0 it) :=
  Returns.succ (Returns.pure _) fun _ => rfl

theorem next_take_succ (k : ℕ) {it it' : Iter α} {item : Option α} (h : Next it item it') :
    Next (.take (k + 1) it) item (.take k it') :=
  h.map (fun _ => rfl) rfl

theorem next_skip_zero {it it' : Iter α} {item : Option α} (h : Next it item it') :
    Next (.skip 0 it) item (.skip 0 it') :=
  h.map (fun _ => rfl) rfl

theorem next_skip_end (k : ℕ) {it it' : Iter α} (h : Next it none it') :
    Next (.skip (k + 1) it) none (.skip (k + 1) it') :=
  h.bind (fun _ => rfl) (Returns.pure _)

theorem next_skip_drop {k : ℕ} {it it' it'' : Iter α} {a : α} {item : Option α}
    (h : Next it (some a) it') (h' : Next (.skip k it') item it'') :
    Next (.skip (k + 1) it) item it'' :=
  h.bind (fun _ => rfl) h'

theorem next_arrayChunks {N : ℕ} {hN : 0 < N} {it it' : Iter α} {arr : Option (List.Vector α N)}
    (h : Returns (fun n => fillArray (fun it => next n it) N it) (arr, it')) :
    Next (.arrayChunks N hN it) arr (.arrayChunks N hN it') :=
  Returns.succ (Returns.map (fun r => (r.1, Iter.arrayChunks N hN r.2)) h) fun _ => rfl

theorem next_flatten_end (wrap : ι → Iter α) {it it' : Iter ι} (h : Next it none it') :
    Next (.flatten wrap it) none (.flatten wrap it') :=
  h.bind (fun _ => rfl) (Returns.pure _)

theorem next_flatten_enter {wrap : ι → Iter α} {it it' : Iter ι} {i : ι} {item : Option α}
    {it'' : Iter α} (h : Next it (some i) it') (h' : Next (.flattenCur wrap it' (wrap i)) item it'') :
    Next (.flatten wrap it) item it'' :=
  h.bind (fun _ => rfl) h'

theorem next_flattenCur_item (wrap : ι → Iter α) (it : Iter ι) {cur cur' : Iter α} {a : α}
    (h : Next cur (some a) cur') :
    Next (.flattenCur wrap it cur) (some a) (.flattenCur wrap it cur') :=
  h.bind (fun _ => rfl) (Returns.pure _)

theorem next_flattenCur_leave {wrap : ι → Iter α} {it : Iter ι} {cur cur' it' : Iter α}
    {item : Option α} (h : Next cur none cur') (h' : Next (.flatten wrap it) item it') :
    Next (.flattenCur wrap it cur) item it' :=
  h.bind (fun _ => rfl) h'

theorem next_cycle_item (o : Iter α) {it it' : Iter α} {a : α} (h : Next it (some a) it') :
    Next (.cycle o it) (some a) (.cycle o it') :=
  h.bind (fun _ => rfl) (Returns.pure _)

theorem next_cycle_restart {o o' it it' : Iter α} {item : Option α} (h : Next it none it')
    (h' : Next o item o') : Next (.cycle o it) item (.cycle o o') :=
  h.bind (fun _ => rfl) (Returns.map (fun r => (r.1, Iter.cycle o r.2)) h')

end Asp.Iter
