import Mathlib.Data.Nat.Notation

/-! Computations that take a bound on their depth, `run : ℕ → Option β`, where `none` means
that the bound was too small. `Returns run b` says that every large enough bound gives `b`:
the computation terminates and `b` is its result. -/
namespace Asp.Foundation

/-- The computation terminates with the result `b`. -/
def Returns {β : Type*} (run : ℕ → Option β) (b : β) : Prop := ∃ n, ∀ k, n ≤ k → run k = some b

namespace Returns
variable {β γ : Type*} {run run' : ℕ → Option β} {b : β}

theorem pure (b : β) : Returns (fun _ => some b) b := ⟨0, fun _ _ => rfl⟩

theorem unique {b' : β} (h : Returns run b) (h' : Returns run b') : b = b' := by
  obtain ⟨n, hn⟩ := h
  obtain ⟨m, hm⟩ := h'
  have e := (hn (max n m) (Nat.le_max_left n m)).symm.trans (hm (max n m) (Nat.le_max_right n m))
  exact Option.some.inj e

/-- Unfolding a definition by recursion on the bound. -/
theorem succ (h : Returns run' b) (hs : ∀ n, run (n + 1) = run' n) : Returns run b := by
  obtain ⟨n, hn⟩ := h
  refine ⟨n + 1, fun k hk => ?_⟩
  cases k with
  | zero => omega
  | succ k => rw [hs, hn k (by omega)]

/-- Sequencing: both parts are given the same bound. -/
theorem bind {f : ℕ → β → Option γ} {c : γ} (h : Returns run b) (hf : Returns (fun n => f n b) c) :
    Returns (fun n => (run n).bind (f n)) c := by
  obtain ⟨n, hn⟩ := h
  obtain ⟨m, hm⟩ := hf
  refine ⟨max n m, fun k hk => ?_⟩
  have hr := hn k (by omega)
  have hc := hm k (by omega)
  change (run k).bind (f k) = some c
  rw [hr]
  exact hc

theorem map (f : β → γ) (h : Returns run b) : Returns (fun n => (run n).map f) (f b) := by
  obtain ⟨n, hn⟩ := h
  refine ⟨n, fun k hk => ?_⟩
  change (run k).map f = some (f b)
  rw [hn k hk]
  rfl

end Returns
end Asp.Foundation
