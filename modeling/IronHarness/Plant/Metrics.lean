import Mathlib.Algebra.Order.Monoid.Unbundled.WithTop
import IronHarness.Plant.Loop

/-!
# The score of a step response

`compute_metrics` and `check_requirements` (ironbench/plant.py) in exact arithmetic.  The settle time is found by a scan
from the last row backwards; it is the earliest time of a row from which on no row leaves the band (`settle_scan`).
The overshoot is the largest excursion beyond the setpoint, but for a travel of at most 1e-12, where it is 0
(`metrics_exact`).
-/

namespace IronHarness.Plant

structure Metrics (𝕜 : Type) where
  overshootPct : 𝕜
  steadyError : 𝕜
  /-- `math.inf` is the top element -/
  settleTime : WithTop 𝕜
  finalY : 𝕜

/-- The requirements that are not met; the text of each is made of these numbers. -/
inductive Missed (𝕜 : Type)
  | overshoot (actual allowed : 𝕜)
  | steadyError (actual allowed : 𝕜)
  | neverSettled (band : Option 𝕜)
  | settleTime (actual allowed : 𝕜)

section

variable {𝕜 : Type} [Field 𝕜] [LinearOrder 𝕜]

def PlantSpec.span (spec : PlantSpec 𝕜) : 𝕜 := |spec.setpoint - spec.y0|

/-- The band around the setpoint: the tolerance of the steady error, or 2% of the span. -/
def PlantSpec.band (spec : PlantSpec 𝕜) : 𝕜 := spec.requirements.steadyError.getD (2 / 100 * spec.span)

def PlantSpec.inBand (spec : PlantSpec 𝕜) (y : 𝕜) : Prop := |y - spec.setpoint| ≤ spec.band

instance (spec : PlantSpec 𝕜) (y : 𝕜) : Decidable (spec.inBand y) := inferInstanceAs (Decidable (_ ≤ _))

/-- The loop over `j`, from `j + 1` rows on; the result is `j + 1` behind it. -/
def settleIndex (inBand : 𝕜 → Prop) [DecidablePred inBand] (ys : List 𝕜) : Nat → Nat
  | 0 => 0
  | j + 1 => if inBand (ys.getD j 0) then settleIndex inBand ys j else j + 1

def overshootPct (spec : PlantSpec 𝕜) (ys : List 𝕜) : 𝕜 :=
  if tiny 12 < spec.span then
    let dev :=
      if spec.y0 ≤ spec.setpoint then (ys.max?).getD 0 - spec.setpoint else spec.setpoint - (ys.min?).getD 0
    max 0 (dev / spec.span * 100)
  else 0

/-- The mean of the last tenth. -/
def steadyError (spec : PlantSpec 𝕜) (ys : List 𝕜) : 𝕜 :=
  let tail := ys.drop (ys.length - max 1 (ys.length / 10))
  |tail.sum / tail.length - spec.setpoint|

def settleTime (spec : PlantSpec 𝕜) (rows : List (Row 𝕜)) : WithTop 𝕜 :=
  match rows[settleIndex spec.inBand (rows.map Row.y) rows.length]? with
  | some row => row.t
  | none => ⊤

def computeMetrics (spec : PlantSpec 𝕜) (rows : List (Row 𝕜)) : Option (Metrics 𝕜) :=
  rows.getLast?.map fun last =>
    { overshootPct := overshootPct spec (rows.map Row.y)
      steadyError := steadyError spec (rows.map Row.y)
      settleTime := settleTime spec rows
      finalY := last.y }

def slack : 𝕜 := tiny 9

def checkRequirements (metrics : Metrics 𝕜) (requirements : Requirements 𝕜) : List (Missed 𝕜) :=
  (match requirements.overshoot with
    | some allowed =>
      if allowed + slack < metrics.overshootPct then [.overshoot metrics.overshootPct allowed] else []
    | none => []) ++
  (match requirements.steadyError with
    | some allowed => if allowed + slack < metrics.steadyError then [.steadyError metrics.steadyError allowed] else []
    | none => []) ++
  (match requirements.settleTime with
    | some allowed =>
      match metrics.settleTime with
      | none => [.neverSettled requirements.steadyError]
      | some st => if allowed + slack < st then [.settleTime st allowed] else []
    | none => [])

/-! ### The definitions of the measures -/

/-- The earliest time of a row from which on every row is in the band; `⊤` where the last row is outside. -/
structure IsSettleTime (spec : PlantSpec 𝕜) (rows : List (Row 𝕜)) (settle : WithTop 𝕜) : Prop where
  never : settle = ⊤ ↔ ∀ last, rows.getLast? = some last → ¬ spec.inBand last.y
  earliest : ∀ t : 𝕜, settle = t →
    IsLeast {t | (∃ row ∈ rows, row.t = t) ∧ ∀ row ∈ rows, t ≤ row.t → spec.inBand row.y} t

/-- How far a value is beyond the setpoint, in the direction of travel and in percent of the span. -/
def PlantSpec.excursion (spec : PlantSpec 𝕜) (y : 𝕜) : 𝕜 :=
  (if spec.y0 ≤ spec.setpoint then y - spec.setpoint else spec.setpoint - y) / spec.span * 100

/-- The largest excursion beyond the setpoint, 0 for none. -/
def IsOvershoot (spec : PlantSpec 𝕜) (rows : List (Row 𝕜)) (overshoot : 𝕜) : Prop :=
  IsGreatest (insert 0 {x | ∃ row ∈ rows, x = spec.excursion row.y}) overshoot

/-! ### The scan -/

section Scan

variable {inBand : 𝕜 → Prop} [DecidablePred inBand] {ys : List 𝕜}

omit [LinearOrder 𝕜] in
private theorem settleIndex_le (n : Nat) : settleIndex inBand ys n ≤ n := by
  induction n with
  | zero => exact Nat.le_refl 0
  | succ n ih =>
    rw [settleIndex]
    split
    · exact ih.trans (Nat.le_succ n)
    · exact Nat.le_refl _

omit [LinearOrder 𝕜] in
/-- From the index on, the values are in the band. -/
private theorem inBand_of_settleIndex_le {n i : Nat} (hi : settleIndex inBand ys n ≤ i) (hn : i < n) :
    inBand (ys.getD i 0) := by
  induction n with
  | zero => exact absurd hn (Nat.not_lt_zero i)
  | succ n ih =>
    rw [settleIndex] at hi
    split at hi
    · rename_i hin
      rcases Nat.lt_succ_iff_lt_or_eq.1 hn with hlt | rfl
      · exact ih hi hlt
      · exact hin
    · omega

omit [LinearOrder 𝕜] in
/-- The value in front of it is not. -/
private theorem not_inBand_of_settleIndex {n i : Nat} (hi : settleIndex inBand ys n = i + 1) :
    ¬ inBand (ys.getD i 0) := by
  induction n with
  | zero => cases hi
  | succ n ih =>
    rw [settleIndex] at hi
    split at hi
    · exact ih hi
    · rename_i hout
      obtain rfl : n = i := by omega
      exact hout

end Scan

variable {spec : PlantSpec 𝕜} {rows : List (Row 𝕜)}

omit [LinearOrder 𝕜] in
private theorem getD_map_y {i : Nat} (hi : i < rows.length) : (rows.map Row.y).getD i 0 = rows[i].y := by
  simp [List.getD_eq_getElem?_getD, List.getElem?_eq_getElem hi]

omit [Field 𝕜] in
/-- The later of two rows has the greater index. -/
private theorem index_le_of_t_le (hsorted : rows.Pairwise fun r r' => r.t < r'.t) {i k : Nat} (hi : i < rows.length)
    (hk : k < rows.length) (h : rows[i].t ≤ rows[k].t) : i ≤ k := by
  by_contra hlt
  have := List.pairwise_iff_getElem.1 hsorted k i hk hi (by omega)
  exact absurd h (not_le.2 this)

omit [Field 𝕜] in
private theorem t_le_of_index_le (hsorted : rows.Pairwise fun r r' => r.t < r'.t) {i k : Nat} (hk : k < rows.length)
    (h : i ≤ k) : rows[i].t ≤ rows[k].t := by
  rcases Nat.lt_or_eq_of_le h with hlt | rfl
  · exact (List.pairwise_iff_getElem.1 hsorted i k (by omega) hk hlt).le
  · exact le_rfl

/-- The scan finds the settle time. -/
private theorem settle_scan (hne : rows ≠ []) (hsorted : rows.Pairwise fun r r' => r.t < r'.t) :
    IsSettleTime spec rows (settleTime spec rows) := by
  have hpos : 0 < rows.length := List.length_pos_iff.2 hne
  have hlast : rows.getLast? = some rows[rows.length - 1] := by
    rw [List.getLast?_eq_getElem?, List.getElem?_eq_getElem (by omega)]
  have hin : ∀ i (hi : i < rows.length), settleIndex spec.inBand (rows.map Row.y) rows.length ≤ i →
      spec.inBand rows[i].y := by
    intro i hi hle
    have h := inBand_of_settleIndex_le hle hi
    rwa [getD_map_y hi] at h
  have hout : ∀ i (hi : i < rows.length), settleIndex spec.inBand (rows.map Row.y) rows.length = i + 1 →
      ¬ spec.inBand rows[i].y := by
    intro i hi hindex
    have h := not_inBand_of_settleIndex hindex
    rwa [getD_map_y hi] at h
  have hle : settleIndex spec.inBand (rows.map Row.y) rows.length ≤ rows.length := settleIndex_le _
  unfold settleTime
  generalize settleIndex spec.inBand (rows.map Row.y) rows.length = first at hin hout hle ⊢
  rcases Nat.lt_or_eq_of_le hle with hfirst | rfl
  · rw [List.getElem?_eq_getElem hfirst]
    constructor
    · have hsettled := hin (rows.length - 1) (by omega) (by omega)
      simp only [hlast, Option.some.injEq, forall_eq', hsettled, not_true_eq_false, iff_false]
      exact WithTop.coe_ne_top
    · intro t ht
      obtain rfl := WithTop.coe_inj.1 ht
      constructor
      · refine ⟨⟨_, List.getElem_mem hfirst, rfl⟩, ?_⟩
        intro row hrow hlate
        obtain ⟨k, hk, rfl⟩ := List.getElem_of_mem hrow
        exact hin k hk (index_le_of_t_le hsorted hfirst hk hlate)
      · rintro t ⟨⟨row, hrow, rfl⟩, hstays⟩
        obtain ⟨k, hk, rfl⟩ := List.getElem_of_mem hrow
        apply t_le_of_index_le hsorted hk
        -- the row in front of the first one is not in the band
        by_contra hearly
        obtain ⟨j, rfl⟩ : ∃ j, first = j + 1 := ⟨first - 1, by omega⟩
        refine hout j (by omega) rfl (hstays _ (List.getElem_mem _) ?_)
        exact t_le_of_index_le hsorted (by omega) (by omega)
  · rw [List.getElem?_eq_none (Nat.le_refl _)]
    constructor
    · have hnever := hout (rows.length - 1) (by omega) (by omega)
      simp [hlast, hnever]
    · intro t ht
      cases ht

theorem IsSettleTime.unique {s s' : WithTop 𝕜} (h : IsSettleTime spec rows s) (h' : IsSettleTime spec rows s') :
    s = s' := by
  cases s with
  | top => exact (h'.never.2 (h.never.1 rfl)).symm
  | coe t =>
    cases s' with
    | top => exact h.never.2 (h'.never.1 rfl)
    | coe t' => rw [(h.earliest t rfl).unique (h'.earliest t' rfl)]

/-! ### The overshoot -/

section Overshoot

variable [IsStrictOrderedRing 𝕜]

private theorem tiny_pos (n : Nat) : 0 < (tiny n : 𝕜) := by
  unfold tiny
  positivity

private theorem overshoot_greatest (hne : rows ≠ []) (hspan : tiny 12 < spec.span) :
    IsOvershoot spec rows (overshootPct spec (rows.map Row.y)) := by
  have hpos : 0 < spec.span := lt_trans (tiny_pos 12) hspan
  have hys : rows.map Row.y ≠ [] := by simpa using hne
  -- the extreme value in the direction of travel, and its excursion
  obtain ⟨top, hmem, hexcursion, hgreatest⟩ : ∃ top ∈ rows.map Row.y,
      overshootPct spec (rows.map Row.y) = max 0 (spec.excursion top) ∧
        ∀ y ∈ rows.map Row.y, spec.excursion y ≤ spec.excursion top := by
    unfold overshootPct
    rw [if_pos hspan]
    by_cases hup : spec.y0 ≤ spec.setpoint
    · obtain ⟨top, htop⟩ := Option.isSome_iff_exists.1 (List.isSome_max?_of_ne_nil hys)
      obtain ⟨hmem, hmax⟩ := List.max?_eq_some_iff.1 htop
      refine ⟨top, hmem, ?_, ?_⟩
      · simp [PlantSpec.excursion, hup, htop]
      · intro y hy
        have := hmax y hy
        simp only [PlantSpec.excursion, if_pos hup]
        gcongr
    · obtain ⟨top, htop⟩ := Option.isSome_iff_exists.1 (List.isSome_min?_of_ne_nil hys)
      obtain ⟨hmem, hmin⟩ := List.min?_eq_some_iff.1 htop
      refine ⟨top, hmem, ?_, ?_⟩
      · simp [PlantSpec.excursion, hup, htop]
      · intro y hy
        have := hmin y hy
        simp only [PlantSpec.excursion, if_neg hup]
        gcongr
  obtain ⟨row, hrow, rfl⟩ := List.mem_map.1 hmem
  rw [hexcursion]
  constructor
  · rcases max_choice 0 (spec.excursion row.y) with hzero | hsome
    · rw [hzero]
      exact Set.mem_insert _ _
    · rw [hsome]
      exact Set.mem_insert_of_mem _ ⟨row, hrow, rfl⟩
  · rintro x (rfl | ⟨row', hrow', rfl⟩)
    · exact le_max_left _ _
    · exact (hgreatest _ (List.mem_map_of_mem hrow')).trans (le_max_right _ _)

/-- The overshoot that is scored: none for a travel of at most 1e-12. -/
def ScoredOvershoot (spec : PlantSpec 𝕜) (rows : List (Row 𝕜)) (overshoot : 𝕜) : Prop :=
  if tiny 12 < spec.span then IsOvershoot spec rows overshoot else overshoot = 0

private theorem scoredOvershoot (hne : rows ≠ []) : ScoredOvershoot spec rows (overshootPct spec (rows.map Row.y)) := by
  unfold ScoredOvershoot
  split
  · rename_i hspan
    exact overshoot_greatest hne hspan
  · rename_i hspan
    rw [overshootPct, if_neg hspan]

omit [IsStrictOrderedRing 𝕜] in
theorem ScoredOvershoot.unique {o o' : 𝕜} (h : ScoredOvershoot spec rows o) (h' : ScoredOvershoot spec rows o') :
    o = o' := by
  unfold ScoredOvershoot at h h'
  split at h
  · rename_i hspan
    rw [if_pos hspan] at h'
    exact IsGreatest.unique h h'
  · rename_i hspan
    rw [if_neg hspan] at h'
    rw [h, h']

end Overshoot

/-! ### The requirements -/

/-- Every requirement that is declared holds of the trajectory, up to the slack. -/
structure Meets (spec : PlantSpec 𝕜) (rows : List (Row 𝕜)) : Prop where
  overshoot : ∀ allowed, spec.requirements.overshoot = some allowed →
    ∃ o, ScoredOvershoot spec rows o ∧ o ≤ allowed + slack
  steadyError : ∀ allowed, spec.requirements.steadyError = some allowed →
    Plant.steadyError spec (rows.map Row.y) ≤ allowed + slack
  settleTime : ∀ allowed, spec.requirements.settleTime = some allowed →
    ∃ s, IsSettleTime spec rows s ∧ s ≤ ((allowed + slack : 𝕜) : WithTop 𝕜)

private theorem checkRequirements_eq_nil {metrics : Metrics 𝕜} {requirements : Requirements 𝕜} :
    checkRequirements metrics requirements = [] ↔
      (∀ allowed, requirements.overshoot = some allowed → metrics.overshootPct ≤ allowed + slack) ∧
      (∀ allowed, requirements.steadyError = some allowed → metrics.steadyError ≤ allowed + slack) ∧
      ∀ allowed, requirements.settleTime = some allowed → metrics.settleTime ≤ ((allowed + slack : 𝕜) : WithTop 𝕜) := by
  unfold checkRequirements
  rw [List.append_eq_nil_iff, List.append_eq_nil_iff, and_assoc]
  apply and_congr
  · cases requirements.overshoot <;> simp
  apply and_congr
  · cases requirements.steadyError <;> simp
  · cases requirements.settleTime with
    | none => simp
    | some allowed =>
      cases metrics.settleTime with
      | top => simp
      | coe st => simp [-WithTop.coe_add]

end

/-! ### The measures are exact -/

/-- The metrics of some rows are those of the definitions, and nothing is missed exactly where every requirement that
is declared holds. -/
theorem metrics_exact {𝕜 : Type} [Field 𝕜] [LinearOrder 𝕜] [IsStrictOrderedRing 𝕜] (spec : PlantSpec 𝕜)
    (rows : List (Row 𝕜)) (hne : rows ≠ []) (hsorted : rows.Pairwise fun r r' => r.t < r'.t) :
    ∃ metrics, computeMetrics spec rows = some metrics ∧ IsSettleTime spec rows metrics.settleTime ∧
      ScoredOvershoot spec rows metrics.overshootPct ∧
      (checkRequirements metrics spec.requirements = [] ↔ Meets spec rows) := by
  have hlast : rows.getLast? = some (rows.getLast hne) := List.getLast?_eq_some_getLast hne
  have hsettle : IsSettleTime spec rows (settleTime spec rows) := settle_scan hne hsorted
  have hovershoot : ScoredOvershoot spec rows (overshootPct spec (rows.map Row.y)) := scoredOvershoot hne
  have hcompute : computeMetrics spec rows = some ⟨overshootPct spec (rows.map Row.y), steadyError spec (rows.map Row.y),
      settleTime spec rows, (rows.getLast hne).y⟩ := by
    rw [computeMetrics, hlast]
    rfl
  refine ⟨_, hcompute, hsettle, hovershoot, ?_⟩
  rw [checkRequirements_eq_nil]
  constructor
  · rintro ⟨ho, he, hs⟩
    exact ⟨fun allowed h => ⟨_, hovershoot, ho allowed h⟩, he, fun allowed h => ⟨_, hsettle, hs allowed h⟩⟩
  · rintro ⟨ho, he, hs⟩
    refine ⟨fun allowed h => ?_, he, fun allowed h => ?_⟩
    · obtain ⟨o, hdef, hle⟩ := ho allowed h
      rwa [hdef.unique hovershoot] at hle
    · obtain ⟨s, hdef, hle⟩ := hs allowed h
      rwa [hdef.unique hsettle] at hle

/-- A plant that goes beyond its setpoint and is back in the band with the third row. -/
theorem metrics_exact_settles :
    ∃ metrics, computeMetrics (⟨2, 10, 20, 20, 1, 0, 1, 30, ⟨some 20, some 2, some 1⟩, [], zero_le_one⟩ : PlantSpec ℚ)
        [⟨0, 30, 20, 1⟩, ⟨1, 30, 32, 0⟩, ⟨2, 30, 30, 1 / 2⟩] = some metrics ∧
      IsSettleTime ⟨2, 10, 20, 20, 1, 0, 1, 30, ⟨some 20, some 2, some 1⟩, [], zero_le_one⟩
        [⟨0, 30, 20, 1⟩, ⟨1, 30, 32, 0⟩, ⟨2, 30, 30, 1 / 2⟩] metrics.settleTime := by
  obtain ⟨metrics, hcompute, hsettle, -, -⟩ := metrics_exact
    (⟨2, 10, 20, 20, 1, 0, 1, 30, ⟨some 20, some 2, some 1⟩, [], zero_le_one⟩ : PlantSpec ℚ)
    [⟨0, 30, 20, 1⟩, ⟨1, 30, 32, 0⟩, ⟨2, 30, 30, 1 / 2⟩] (by simp) (by simp)
  exact ⟨metrics, hcompute, hsettle⟩

/-- The travel is so short that an excursion far beyond it is not scored. -/
theorem short_travel_not_scored :
    ∃ metrics, computeMetrics (⟨2, 10, 0, 0, 1, 0, 1, 1 / 10 ^ 13, ⟨some 20, none, none⟩, [], zero_le_one⟩ : PlantSpec ℚ)
        [⟨0, 1 / 10 ^ 13, 0, 1⟩, ⟨1, 1 / 10 ^ 13, 1, 0⟩] = some metrics ∧
      ¬ IsOvershoot ⟨2, 10, 0, 0, 1, 0, 1, 1 / 10 ^ 13, ⟨some 20, none, none⟩, [], zero_le_one⟩
        [⟨0, 1 / 10 ^ 13, 0, 1⟩, ⟨1, 1 / 10 ^ 13, 1, 0⟩] metrics.overshootPct := by
  refine ⟨_, rfl, fun hgreatest => ?_⟩
  have hexcursion := hgreatest.2 (Set.mem_insert_of_mem _ ⟨⟨1, 1 / 10 ^ 13, 1, 0⟩, by simp, rfl⟩)
  have hspan : ¬ (tiny 12 : ℚ) < PlantSpec.span
      (⟨2, 10, 0, 0, 1, 0, 1, 1 / 10 ^ 13, ⟨some 20, none, none⟩, [], zero_le_one⟩ : PlantSpec ℚ) := by
    norm_num [tiny, PlantSpec.span]
  dsimp only at hexcursion
  rw [overshootPct, if_neg hspan] at hexcursion
  norm_num [PlantSpec.excursion, PlantSpec.span] at hexcursion

end IronHarness.Plant
