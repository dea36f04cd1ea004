import Mathlib.Analysis.Convex.Hull
import Mathlib.Tactic.Linarith

/-!
# Relaxation towards a target

One step of a first-order lag moves a value towards a target and leaves the fraction `a` of the distance.  With `a`
between 0 and 1 the value stays in every convex set that contains it and the target (`relax_mem`), and it does not go
beyond the target (`Towards.relax`).
-/

namespace Relaxation

/-- `y'` lies on the way from `y` to the target. -/
def Towards {α : Type*} [LE α] (target y y' : α) : Prop :=
  (y ≤ target → y ≤ y' ∧ y' ≤ target) ∧ (target ≤ y → target ≤ y' ∧ y' ≤ y)

theorem Towards.refl {α : Type*} [Preorder α] (target y : α) : Towards target y y :=
  ⟨fun h => ⟨le_rfl, h⟩, fun h => ⟨h, le_rfl⟩⟩

theorem Towards.trans {α : Type*} [Preorder α] {target y y' y'' : α} (h : Towards target y y')
    (h' : Towards target y' y'') : Towards target y y'' := by
  constructor
  · intro hbelow
    obtain ⟨hle, htop⟩ := h.1 hbelow
    obtain ⟨hle', htop'⟩ := h'.1 htop
    exact ⟨hle.trans hle', htop'⟩
  · intro habove
    obtain ⟨hbottom, hle⟩ := h.2 habove
    obtain ⟨hbottom', hle'⟩ := h'.2 hbottom
    exact ⟨hbottom', hle'.trans hle⟩

section

variable {𝕜 : Type*} [Field 𝕜]

def relax (a target y : 𝕜) : 𝕜 := target + (y - target) * a

private theorem relax_eq (a target y : 𝕜) : relax a target y = (1 - a) * target + a * y := by
  unfold relax
  ring

variable [LinearOrder 𝕜] [IsStrictOrderedRing 𝕜] {a target y : 𝕜}

theorem relax_mem {s : Set 𝕜} (hs : Convex 𝕜 s) (ha : 0 ≤ a) (ha' : a ≤ 1) (htarget : target ∈ s) (hy : y ∈ s) :
    relax a target y ∈ s := by
  rw [relax_eq]
  exact hs htarget hy (sub_nonneg.2 ha') ha (by ring)

/-- From below, a step goes up and not beyond the target. -/
theorem relax_of_le (ha : 0 ≤ a) (ha' : a ≤ 1) (h : y ≤ target) : y ≤ relax a target y ∧ relax a target y ≤ target := by
  have hgap : 0 ≤ target - y := sub_nonneg.2 h
  have hpart : (target - y) * a ≤ target - y := mul_le_of_le_one_right hgap ha'
  have hpos : 0 ≤ (target - y) * a := mul_nonneg hgap ha
  have heq : relax a target y = target - (target - y) * a := by
    unfold relax
    ring
  rw [heq]
  constructor
  · linarith
  · linarith

private theorem relax_of_ge (ha : 0 ≤ a) (ha' : a ≤ 1) (h : target ≤ y) :
    target ≤ relax a target y ∧ relax a target y ≤ y := by
  have hgap : 0 ≤ y - target := sub_nonneg.2 h
  have hpart : (y - target) * a ≤ y - target := mul_le_of_le_one_right hgap ha'
  have hpos : 0 ≤ (y - target) * a := mul_nonneg hgap ha
  unfold relax
  constructor
  · linarith
  · linarith

theorem Towards.relax (ha : 0 ≤ a) (ha' : a ≤ 1) (target y : 𝕜) : Towards target y (relax a target y) :=
  ⟨relax_of_le ha ha', relax_of_ge ha ha'⟩

end

end Relaxation
