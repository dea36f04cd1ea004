import Mathlib.Analysis.Complex.Exponential
import Mathlib.Data.Prod.Lex
import IronHarness.Lib.Relaxation

/-!
# The simulated plant

`PlantSpec.step` and `run_closed_loop` (ironbench/plant.py) in exact arithmetic, over any ordered field; `exp` is
`math.exp`.  The controller is a function of all it has been asked so far, so it may keep any state.  Every control
applied is within its bounds and every `y` is a mean of the start and of the targets the plant was drawn to
(`closed_loop_envelope`).
-/

namespace IronHarness.Plant

open Relaxation

/-- The tolerances that are declared. -/
structure Requirements (𝕜 : Type) where
  overshoot : Option 𝕜
  settleTime : Option 𝕜
  steadyError : Option 𝕜

/-- The fields of `PlantSpec` that the loop and the metrics read. -/
structure PlantSpec (𝕜 : Type) [LE 𝕜] where
  K : 𝕜
  T : 𝕜
  ambient : 𝕜
  y0 : 𝕜
  dt : 𝕜
  uMin : 𝕜
  uMax : 𝕜
  setpoint : 𝕜
  requirements : Requirements 𝕜
  disturbances : List (𝕜 × 𝕜)
  /-- a check of the loader -/
  bounds : uMin ≤ uMax

/-- What the controller is asked. -/
structure Call (𝕜 : Type) where
  t : 𝕜
  yMeas : 𝕜
  setpoint : 𝕜

/-- What comes of a call: a finite number, something else, an exception, or `ControlAbort`. -/
inductive Reply (𝕜 : Type)
  | number (raw : 𝕜)
  | nonNumber
  | crashed
  | abort

structure Row (𝕜 : Type) where
  t : 𝕜
  setpoint : 𝕜
  y : 𝕜
  u : 𝕜

/-- How the loop ends; an abort is raised to the caller, without the rows. -/
inductive Ending (𝕜 : Type)
  | finished
  | crashed (t : 𝕜)
  | nonNumber (t : 𝕜)
  | aborted

section

variable {𝕜 : Type} [Field 𝕜] [LinearOrder 𝕜]

def PlantSpec.target (spec : PlantSpec 𝕜) (u ambient : 𝕜) : 𝕜 := ambient + spec.K * u

def PlantSpec.step (spec : PlantSpec 𝕜) (exp : 𝕜 → 𝕜) (y u ambient dt : 𝕜) : 𝕜 :=
  spec.target u ambient + (y - spec.target u ambient) * exp (-dt / spec.T)

/-! ### Disturbances -/

/-- The ambient value in force, and `events[ei:]`. -/
structure Weather (𝕜 : Type) where
  ambient : 𝕜
  events : List (𝕜 × 𝕜)

/-- `sorted(spec.disturbances)` -/
def PlantSpec.sortedEvents (spec : PlantSpec 𝕜) : List (𝕜 × 𝕜) :=
  spec.disturbances.mergeSort fun d e => decide (toLex d ≤ toLex e)

/-- The literal `1e-n`. -/
def tiny (n : Nat) : 𝕜 := 1 / 10 ^ n

/-- The `while` loop at the head of a step. -/
def advance (t : 𝕜) (ambient : 𝕜) : List (𝕜 × 𝕜) → Weather 𝕜
  | [] => ⟨ambient, []⟩
  | event :: events => if event.1 - tiny 9 ≤ t then advance t event.2 events else ⟨ambient, event :: events⟩

/-- What the first `k` steps have made of the disturbances. -/
def PlantSpec.weather (spec : PlantSpec 𝕜) : Nat → Weather 𝕜
  | 0 => ⟨spec.ambient, spec.sortedEvents⟩
  | k + 1 => advance (k * spec.dt) (spec.weather k).ambient (spec.weather k).events

/-- The ambient value of step `k`. -/
def PlantSpec.ambientAt (spec : PlantSpec 𝕜) (k : Nat) : 𝕜 := (spec.weather (k + 1)).ambient

/-! ### The loop -/

/-- The loop at the head of a step; `calls` is what the controller was asked. -/
structure Loop (𝕜 : Type) where
  y : 𝕜
  weather : Weather 𝕜
  calls : List (Call 𝕜)

/-- The next `n` steps, from step `k` on; `noise` are the values of `noise.gauss`. -/
def loop (spec : PlantSpec 𝕜) (exp : 𝕜 → 𝕜) (noise : Nat → 𝕜) (control : List (Call 𝕜) → Reply 𝕜) :
    Nat → Nat → Loop 𝕜 → List (Row 𝕜) × Ending 𝕜
  | 0, _, _ => ([], .finished)
  | n + 1, k, s =>
    let t := k * spec.dt
    let weather := advance t s.weather.ambient s.weather.events
    let calls := s.calls ++ [⟨t, s.y + noise k, spec.setpoint⟩]
    match control calls with
    | .abort => ([], .aborted)
    | .crashed => ([], .crashed t)
    | .nonNumber => ([], .nonNumber t)
    | .number raw =>
      let u := min (max raw spec.uMin) spec.uMax
      let (rows, ending) := loop spec exp noise control n (k + 1)
        ⟨spec.step exp s.y u weather.ambient spec.dt, weather, calls⟩
      (⟨t, spec.setpoint, s.y, u⟩ :: rows, ending)

/-- `run_closed_loop`, with the number of steps. -/
def runClosedLoop (spec : PlantSpec 𝕜) (exp : 𝕜 → 𝕜) (noise : Nat → 𝕜) (control : List (Call 𝕜) → Reply 𝕜) (n : Nat) :
    List (Row 𝕜) × Ending 𝕜 :=
  loop spec exp noise control n 0 ⟨spec.y0, ⟨spec.ambient, spec.sortedEvents⟩, []⟩

/-! ### What a row holds -/

/-- Each row has a control within the bounds, and the step from it leads to the next row. -/
structure Rows (spec : PlantSpec 𝕜) (exp : 𝕜 → 𝕜) (k : Nat) (y : 𝕜) (rows : List (Row 𝕜)) : Prop where
  head : ∀ row, rows[0]? = some row → row.y = y
  control : ∀ (i : Nat) (row : Row 𝕜), rows[i]? = some row → row.u ∈ Set.Icc spec.uMin spec.uMax
  next : ∀ (i : Nat) (row row' : Row 𝕜), rows[i]? = some row → rows[i + 1]? = some row' →
    row'.y = spec.step exp row.y row.u (spec.ambientAt (k + i)) spec.dt

omit [Field 𝕜] in
private theorem clamp_mem (spec : PlantSpec 𝕜) (raw : 𝕜) :
    min (max raw spec.uMin) spec.uMax ∈ Set.Icc spec.uMin spec.uMax :=
  ⟨le_min (le_max_right _ _) spec.bounds, min_le_right _ _⟩

private theorem rows_nil (spec : PlantSpec 𝕜) (exp : 𝕜 → 𝕜) (k : Nat) (y : 𝕜) : Rows spec exp k y [] where
  head := by simp
  control := by simp
  next := by simp

theorem Rows.cons {spec : PlantSpec 𝕜} {exp : 𝕜 → 𝕜} {k : Nat} {t setpoint y u : 𝕜} {rows : List (Row 𝕜)}
    (hu : u ∈ Set.Icc spec.uMin spec.uMax)
    (h : Rows spec exp (k + 1) (spec.step exp y u (spec.ambientAt k) spec.dt) rows) :
    Rows spec exp k y (⟨t, setpoint, y, u⟩ :: rows) := by
  constructor
  · rintro row' hrow
    obtain rfl := Option.some.inj hrow
    rfl
  · intro i row' hrow
    cases i with
    | zero =>
      obtain rfl := Option.some.inj hrow
      exact hu
    | succ i => exact h.control i row' hrow
  · intro i row₁ row₂ hrow₁ hrow₂
    cases i with
    | zero =>
      obtain rfl := Option.some.inj hrow₁
      exact h.head row₂ hrow₂
    | succ i =>
      rw [h.next i row₁ row₂ hrow₁ hrow₂, Nat.add_assoc, Nat.add_comm 1 i]

private theorem rows_loop (spec : PlantSpec 𝕜) (exp : 𝕜 → 𝕜) (noise : Nat → 𝕜) (control : List (Call 𝕜) → Reply 𝕜)
    (n k : Nat)
    (s : Loop 𝕜) (hweather : s.weather = spec.weather k) : Rows spec exp k s.y (loop spec exp noise control n k s).1 := by
  induction n generalizing k s with
  | zero => exact rows_nil spec exp k s.y
  | succ n ih =>
    obtain ⟨y, weather, calls⟩ := s
    obtain rfl : weather = spec.weather k := hweather
    rw [loop]
    dsimp only
    split
    · exact rows_nil spec exp k y
    · exact rows_nil spec exp k y
    · exact rows_nil spec exp k y
    · rename_i raw _
      refine Rows.cons (clamp_mem spec raw) ?_
      exact ih (k + 1) ⟨_, spec.weather (k + 1), _⟩ rfl

/-- The rows of a run start with `y0`. -/
private theorem rows_runClosedLoop (spec : PlantSpec 𝕜) (exp : 𝕜 → 𝕜) (noise : Nat → 𝕜)
    (control : List (Call 𝕜) → Reply 𝕜)
    (n : Nat) : Rows spec exp 0 spec.y0 (runClosedLoop spec exp noise control n).1 :=
  rows_loop spec exp noise control n 0 ⟨spec.y0, spec.weather 0, []⟩ rfl

/-! ### The envelope -/

/-- The targets at the bounds of the control, for the ambient values of the steps before step `k`. -/
def PlantSpec.corners (spec : PlantSpec 𝕜) (k : Nat) : Set 𝕜 :=
  {x | ∃ i < k, ∃ u, (u = spec.uMin ∨ u = spec.uMax) ∧ x = spec.target u (spec.ambientAt i)}

private theorem corners_mono (spec : PlantSpec 𝕜) {j k : Nat} (h : j ≤ k) : spec.corners j ⊆ spec.corners k := by
  rintro x ⟨i, hi, hx⟩
  exact ⟨i, by omega, hx⟩

variable [IsStrictOrderedRing 𝕜]

/-- The target of a control within the bounds is between those at the bounds. -/
private theorem target_mem (spec : PlantSpec 𝕜) {u : 𝕜} (hu : u ∈ Set.Icc spec.uMin spec.uMax) {s : Set 𝕜}
    (hs : Convex 𝕜 s)
    {ambient : 𝕜} (hmin : spec.target spec.uMin ambient ∈ s) (hmax : spec.target spec.uMax ambient ∈ s) :
    spec.target u ambient ∈ s := by
  rw [← segment_eq_Icc spec.bounds] at hu
  obtain ⟨a, b, ha, hb, hab, rfl⟩ := hu
  have hmean : spec.target (a • spec.uMin + b • spec.uMax) ambient =
      a • spec.target spec.uMin ambient + b • spec.target spec.uMax ambient := by
    simp only [PlantSpec.target, smul_eq_mul]
    linear_combination -ambient * hab
  rw [hmean]
  exact hs hmin hmax ha hb hab

variable {spec : PlantSpec 𝕜} {exp : 𝕜 → 𝕜} {rows : List (Row 𝕜)}

omit [IsStrictOrderedRing 𝕜] in
private theorem step_eq_relax (y u ambient : 𝕜) :
    spec.step exp y u ambient spec.dt = relax (exp (-spec.dt / spec.T)) (spec.target u ambient) y := rfl

private theorem Rows.hull (h : Rows spec exp 0 spec.y0 rows) (hpos : 0 ≤ exp (-spec.dt / spec.T))
    (hone : exp (-spec.dt / spec.T) ≤ 1) (k : Nat) (row : Row 𝕜) (hrow : rows[k]? = some row) :
    row.y ∈ convexHull 𝕜 (insert spec.y0 (spec.corners k)) := by
  induction k generalizing row with
  | zero =>
    rw [h.head row hrow]
    exact subset_convexHull 𝕜 _ (Set.mem_insert _ _)
  | succ k ih =>
    have hlen := (List.getElem?_eq_some_iff.1 hrow).1
    have hbefore : rows[k]? = some rows[k] := List.getElem?_eq_getElem (by omega)
    have hgrow : convexHull 𝕜 (insert spec.y0 (spec.corners k)) ⊆ convexHull 𝕜 (insert spec.y0 (spec.corners (k + 1))) :=
      convexHull_mono (Set.insert_subset_insert (corners_mono spec (Nat.le_succ k)))
    have hcorner : ∀ u, u = spec.uMin ∨ u = spec.uMax →
        spec.target u (spec.ambientAt (0 + k)) ∈ convexHull 𝕜 (insert spec.y0 (spec.corners (k + 1))) := by
      intro u hu
      rw [Nat.zero_add]
      exact subset_convexHull 𝕜 _ (Set.mem_insert_of_mem _ ⟨k, by omega, u, hu, rfl⟩)
    have hconvex := convex_convexHull 𝕜 (insert spec.y0 (spec.corners (k + 1)))
    rw [h.next k _ row hbefore hrow, step_eq_relax]
    refine relax_mem hconvex hpos hone ?_ (hgrow (ih _ hbefore))
    exact target_mem spec (h.control k _ hbefore) hconvex (hcorner _ (.inl rfl)) (hcorner _ (.inr rfl))

/-- As long as control and ambient stay the same, `y` goes towards its target and not beyond. -/
private theorem Rows.towards (h : Rows spec exp 0 spec.y0 rows) (hpos : 0 ≤ exp (-spec.dt / spec.T))
    (hone : exp (-spec.dt / spec.T) ≤ 1) {u ambient : 𝕜} (j n : Nat) (row row' : Row 𝕜) (hrow : rows[j]? = some row)
    (hrow' : rows[j + n]? = some row')
    (hsame : ∀ i r, j ≤ i → i < j + n → rows[i]? = some r → r.u = u ∧ spec.ambientAt i = ambient) :
    Towards (spec.target u ambient) row.y row'.y := by
  induction n generalizing row' with
  | zero =>
    obtain rfl := Option.some.inj (hrow.symm.trans hrow')
    exact Towards.refl _ _
  | succ n ih =>
    have hlen := (List.getElem?_eq_some_iff.1 hrow').1
    have hbefore : rows[j + n]? = some rows[j + n] := List.getElem?_eq_getElem (by omega)
    obtain ⟨hu, hambient⟩ := hsame (j + n) _ (by omega) (by omega) hbefore
    have hstep := h.next (j + n) _ row' hbefore hrow'
    rw [Nat.zero_add, hu, hambient, step_eq_relax] at hstep
    have hway := ih _ hbefore fun i r hi hlt => hsame i r hi (by omega)
    rw [hstep]
    exact hway.trans (Towards.relax hpos hone _ _)

/-- The physical envelope of some rows: every control is within its bounds, every `y` is in the hull of the start and
of the targets so far, and while control and ambient stay the same, `y` goes towards the target and not beyond. -/
structure Envelope (spec : PlantSpec 𝕜) (rows : List (Row 𝕜)) : Prop where
  control : ∀ row ∈ rows, spec.uMin ≤ row.u ∧ row.u ≤ spec.uMax
  hull : ∀ (k : Nat) (row : Row 𝕜), rows[k]? = some row → row.y ∈ convexHull 𝕜 (insert spec.y0 (spec.corners k))
  towards : ∀ (j k : Nat) (row row' : Row 𝕜) (u ambient : 𝕜), j ≤ k → rows[j]? = some row → rows[k]? = some row' →
    (∀ i r, j ≤ i → i < k → rows[i]? = some r → r.u = u ∧ spec.ambientAt i = ambient) →
    Towards (spec.target u ambient) row.y row'.y

theorem closed_loop_envelope (spec : PlantSpec 𝕜) (exp : 𝕜 → 𝕜)
    (hdecay : 0 < exp (-spec.dt / spec.T) ∧ exp (-spec.dt / spec.T) < 1) (noise : Nat → 𝕜)
    (control : List (Call 𝕜) → Reply 𝕜) (n : Nat) : Envelope spec (runClosedLoop spec exp noise control n).1 := by
  have h := rows_runClosedLoop spec exp noise control n
  obtain ⟨hpos, hone⟩ := hdecay
  constructor
  · intro row hrow
    obtain ⟨i, hi⟩ := List.mem_iff_getElem?.1 hrow
    exact h.control i row hi
  · exact h.hull hpos.le hone.le
  · intro j k row row' u ambient hjk hrow hrow' hsame
    obtain ⟨m, rfl⟩ := Nat.exists_eq_add_of_le hjk
    exact h.towards hpos.le hone.le j m row row' hrow hrow' hsame

end

/-- The decay factor of the code is between 0 and 1. -/
private theorem exp_decay {dt T : ℝ} (hdt : 0 < dt) (hT : 0 < T) : 0 < Real.exp (-dt / T) ∧ Real.exp (-dt / T) < 1 := by
  refine ⟨Real.exp_pos _, Real.exp_lt_one_iff.2 ?_⟩
  exact div_neg_of_neg_of_pos (neg_neg_of_pos hdt) hT

/-- A heater for which the ambient value drops after 30 s, at full power. -/
theorem closed_loop_envelope_heater :
    Envelope ⟨2, 10, 20, 20, 1 / 2, 0, 1, 21, ⟨none, some 60, none⟩, [(30, 15)], zero_le_one⟩
      (runClosedLoop (⟨2, 10, 20, 20, 1 / 2, 0, 1, 21, ⟨none, some 60, none⟩, [(30, 15)], zero_le_one⟩ : PlantSpec ℝ)
        Real.exp (fun _ => 0) (fun _ => .number 5) 120).1 :=
  closed_loop_envelope _ Real.exp (exp_decay one_half_pos (by norm_num)) _ _ _

end IronHarness.Plant
