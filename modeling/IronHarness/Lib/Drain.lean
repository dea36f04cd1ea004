/-!
# Loops that end where the world says so

A loop meets the items of an endless stream, one in each pass, and goes on or ends there.  Where only the item decides,
it ends exactly when an item that ends it is still to come (`drain_isSome_iff`).
-/

namespace Drain

variable {π σ ρ : Type}

/-- At most `n` passes, from place `i` of the stream on: the result, and the place behind the last item met. -/
def drain (pass : σ → π → σ ⊕ ρ) (items : Nat → π) : Nat → Nat → σ → Option (ρ × Nat)
  | 0, _, _ => none
  | n + 1, i, s =>
    match pass s (items i) with
    | .inr r => some (r, i + 1)
    | .inl s' => drain pass items n (i + 1) s'

variable {pass : σ → π → σ ⊕ ρ} {items : Nat → π} {ends : π → Prop}

private theorem drain_end {s : σ} {r : ρ} {i : Nat} (h : pass s (items i) = .inr r) (n : Nat) :
    drain pass items (n + 1) i s = some (r, i + 1) := by
  rw [drain, h]

private theorem drain_next {s s' : σ} {i : Nat} (h : pass s (items i) = .inl s') (n : Nat) :
    drain pass items (n + 1) i s = drain pass items n (i + 1) s' := by
  rw [drain, h]

/-- More passes than needed do not change the result. -/
theorem drain_mono {n m i : Nat} {s : σ} {result : ρ × Nat} (h : drain pass items n i s = some result) (hnm : n ≤ m) :
    drain pass items m i s = some result := by
  induction n generalizing m i s with
  | zero => cases h
  | succ n ih =>
    obtain ⟨m, rfl⟩ : ∃ k, m = k + 1 := ⟨m - 1, by omega⟩
    cases hpass : pass s (items i) with
    | inr r =>
      rw [drain_end hpass] at h ⊢
      exact h
    | inl s' =>
      rw [drain_next hpass] at h ⊢
      exact ih h (by omega)

section

variable (hends : ∀ s item, (pass s item).isRight = true ↔ ends item)

include hends

private theorem ends_of_drain {n i : Nat} {s : σ} (h : (drain pass items n i s).isSome = true) :
    ∃ k, i ≤ k ∧ ends (items k) := by
  induction n generalizing i s with
  | zero => cases h
  | succ n ih =>
    cases hpass : pass s (items i) with
    | inr r => exact ⟨i, Nat.le_refl i, (hends s (items i)).1 (by rw [hpass]; rfl)⟩
    | inl s' =>
      rw [drain_next hpass] at h
      obtain ⟨k, hk, hend⟩ := ih h
      exact ⟨k, by omega, hend⟩

/-- The loop ends at the latest at an item that ends it. -/
theorem drain_of_ends {k i : Nat} (hik : i ≤ k) (h : ends (items k)) (s : σ) :
    (drain pass items (k - i + 1) i s).isSome = true := by
  induction hn : k - i generalizing i s with
  | zero =>
    obtain rfl : i = k := by omega
    obtain ⟨r, hr⟩ := Sum.isRight_iff.1 ((hends s (items i)).2 h)
    rw [drain_end hr]
    rfl
  | succ n ih =>
    cases hpass : pass s (items i) with
    | inr r =>
      rw [drain_end hpass]
      rfl
    | inl s' =>
      rw [drain_next hpass]
      exact ih (by omega) s' (by omega)

theorem drain_isSome_iff (i : Nat) (s : σ) :
    (∃ n, (drain pass items n i s).isSome = true) ↔ ∃ k, i ≤ k ∧ ends (items k) := by
  constructor
  · rintro ⟨n, h⟩
    exact ends_of_drain hends h
  · rintro ⟨k, hik, h⟩
    exact ⟨k - i + 1, drain_of_ends hends hik h s⟩

end

end Drain
