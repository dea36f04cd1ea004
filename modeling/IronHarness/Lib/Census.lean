import IronHarness.Lib.Flow
import Mathlib.Algebra.BigOperators.Group.Finset.Piecewise
import Mathlib.Data.Fintype.Card

/-!
# Threads counted by where they are

`census p pcs` is the number of threads whose program counter meets `p`.  A step moves one thread, so it changes a
census by one at most (`census_update`), and what such a step takes in and gives out is counted along a run.
-/

namespace Runs

section Census

variable {τ π : Type} [Fintype τ] [DecidableEq τ]

/-- The number of threads at a place that meets `p`. -/
def census (p : π → Bool) (pcs : τ → π) : Nat := (Finset.univ.filter fun t => p (pcs t) = true).card

variable {p : π → Bool} {pcs : τ → π} {t : τ} {pc : π}

omit [DecidableEq τ] in
theorem census_le_card (p : π → Bool) (pcs : τ → π) : census p pcs ≤ Fintype.card τ := Finset.card_le_univ _

/-- One thread moves. -/
theorem census_update (p : π → Bool) (pcs : τ → π) (t : τ) (pc : π) :
    census p (Function.update pcs t pc) + (p (pcs t)).toNat = census p pcs + (p pc).toNat := by
  have hsum : ∀ f : τ → π, census p f = (p (f t)).toNat + ∑ u ∈ Finset.univ.erase t, (p (f u)).toNat := by
    intro f
    rw [Finset.add_sum_erase _ (fun u => (p (f u)).toNat) (Finset.mem_univ t), census, Finset.card_filter]
    apply Finset.sum_congr rfl
    intro u _
    cases p (f u) <;> rfl
  have hrest : ∑ u ∈ Finset.univ.erase t, (p (Function.update pcs t pc u)).toNat =
      ∑ u ∈ Finset.univ.erase t, (p (pcs u)).toNat := by
    apply Finset.sum_congr rfl
    intro u hu
    rw [Function.update_of_ne (Finset.ne_of_mem_erase hu)]
  rw [hsum (Function.update pcs t pc), hsum pcs, hrest, Function.update_self]
  omega

/-- A thread that moves takes in and gives out what its places say. -/
theorem census_move {n m : Nat} (h : n + (p pc).toNat = (p (pcs t)).toNat + m) :
    n + census p (Function.update pcs t pc) = census p pcs + m := by
  have hcount := census_update p pcs t pc
  omega

theorem census_move_le {n m : Nat} (h : n + (p pc).toNat ≤ (p (pcs t)).toNat + m) :
    n + census p (Function.update pcs t pc) ≤ census p pcs + m := by
  have hcount := census_update p pcs t pc
  omega

end Census

section Count

variable {σ α β γ : Type} {step : σ → α → Option σ} {out : σ → α → Option γ} {into : σ → α → Option β}
  {hold : σ → Nat} {I : σ → Prop} {s s' : σ} {acts : List α}

/-- What comes out of a run and what is still held is at most what was held and what went in, where that is so of each
step. -/
theorem seen_count_le (hkeep : ∀ s a s', step s a = some s' → I s → I s')
    (hstep : ∀ s a s', step s a = some s' → I s →
      (out s a).toList.length + hold s' ≤ hold s + (into s a).toList.length)
    (hrun : run step s acts = some s') (h : I s) :
    (seen step out s acts).length + hold s' ≤ hold s + (seen step into s acts).length := by
  induction acts generalizing s with
  | nil =>
    obtain rfl := Option.some.inj hrun
    simp [seen]
  | cons a acts ih =>
    obtain ⟨t, ht, hrest⟩ := run_cons_eq_some.1 hrun
    have hnow := hstep s a t ht h
    have hlater := ih hrest (hkeep s a t ht h)
    rw [seen_cons ht, seen_cons ht, List.length_append, List.length_append]
    omega

end Count

end Runs
