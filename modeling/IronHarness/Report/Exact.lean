import Mathlib.Algebra.Order.Field.Basic
import Mathlib.Algebra.Order.Floor.Ring
import Mathlib.Data.Rat.Floor
import Mathlib.Tactic.Linarith
import IronHarness.Report.Honesty

/-!
# The report in exact arithmetic

Over the rationals, with the rounding of Python, a rate lies between the verdicts of its group (`rate_bounds`), so the
three pass numbers are ordered; and the sums of a group do not depend on the order of its records.  Added infra records change nothing that
the report says of the others as long as there is a report (`report_is_honest`); the code reads their numbers too, and
one that is beyond the floats leaves no report at all (`infra_beyond_floats`).
-/

namespace IronHarness.Report

open Tally

/-! ### Exact numbers -/

/-- The nearest integer, and the even one of two. -/
def roundHalfEven (x : ℚ) : Int :=
  let low := ⌊x⌋
  if x - low < 1 / 2 then low
  else if 1 / 2 < x - low then low + 1
  else if low % 2 = 0 then low
  else low + 1

def roundTo (digits : Nat) (x : ℚ) : ℚ := roundHalfEven (x * 10 ^ digits) / 10 ^ digits

instance : Arith ℚ where
  ofInt := Int.cast
  add := (· + ·)
  sum := List.sum
  div := (· / ·)
  round := roundTo
  toInt := fun x => some (x.num.tdiv x.den)
  toFloat := some
  divInt := fun a b => some (a / b)
  percent := fun x => (toString (roundHalfEven (x * 100))).toList ++ ['%']

private theorem roundHalfEven_mono {x y : ℚ} (h : x ≤ y) : roundHalfEven x ≤ roundHalfEven y := by
  have hlow : ⌊x⌋ ≤ ⌊y⌋ := Int.floor_le_floor h
  rcases hlow.lt_or_eq with hlt | heq
  · have hx : roundHalfEven x ≤ ⌊x⌋ + 1 := by
      unfold roundHalfEven
      dsimp only
      split_ifs <;> omega
    have hy : ⌊y⌋ ≤ roundHalfEven y := by
      unfold roundHalfEven
      dsimp only
      split_ifs <;> omega
    omega
  · unfold roundHalfEven
    dsimp only
    rw [← heq]
    split_ifs <;> first | omega | (exfalso; linarith)

private theorem roundTo_mono (digits : Nat) {x y : ℚ} (h : x ≤ y) : roundTo digits x ≤ roundTo digits y := by
  have hpow : (0 : ℚ) < 10 ^ digits := by positivity
  have hround := roundHalfEven_mono (mul_le_mul_of_nonneg_right h hpow.le)
  exact div_le_div_of_nonneg_right (by exact_mod_cast hround) hpow.le

private theorem roundTo_zero (digits : Nat) : roundTo digits 0 = 0 := by
  simp [roundTo, roundHalfEven]

private theorem roundHalfEven_intCast (n : Int) : roundHalfEven n = n := by
  simp [roundHalfEven]

private theorem roundTo_one (digits : Nat) : roundTo digits 1 = 1 := by
  have hint : (1 : ℚ) * 10 ^ digits = ((10 ^ digits : Int) : ℚ) := by push_cast; ring
  rw [roundTo, hint, roundHalfEven_intCast]
  push_cast
  exact div_self (by positivity)

/-! ### The pass numbers in order -/

variable {records : List (Record ℚ)}

/-- A solved attempt is a live one. -/
private theorem solvedCount_le (k : Name ×ₗ Name) : solvedCount records k ≤ liveCount records k := by
  apply List.countP_mono_left
  intro r _ hsolved
  simp [Record.isInfra, hsolved]

def bit (b : Bool) : ℚ := if b then 1 else 0

private theorem rate_bounds {solved live : Nat} (hle : solved ≤ live) (hlive : 0 < live) :
    bit (decide (solved = live)) ≤ roundTo 2 (solved / live) ∧
      roundTo 2 (solved / live) ≤ bit (decide (0 < solved)) := by
  have hpos : (0 : ℚ) < live := by exact_mod_cast hlive
  have hratio : (solved : ℚ) / live ≤ 1 := by
    rw [div_le_one hpos]
    exact_mod_cast hle
  have hnonneg : (0 : ℚ) ≤ solved / live := by positivity
  constructor
  · by_cases heq : solved = live
    · subst heq
      simp [bit, div_self hpos.ne', roundTo_one]
    · have hround := roundTo_mono 2 hnonneg
      rw [roundTo_zero] at hround
      simpa [bit, heq] using hround
  · rcases Nat.eq_zero_or_pos solved with rfl | hsolved
    · simp [bit, roundTo_zero]
    · have hround := roundTo_mono 2 hratio
      rw [roundTo_one] at hround
      simpa [bit, hsolved] using hround

/-- What a complete group says. -/
structure Judged (s : GroupStats ℚ) (rate : ℚ) : Prop where
  successRate : s.successRate = some rate
  reliable_le : bit s.reliable ≤ rate
  le_passed : rate ≤ bit s.passed

private theorem successRate_of_complete {s : GroupStats ℚ} (h : s ∈ completeGroups (groups records)) :
    ∃ rate, Judged s rate := by
  rw [completeGroups_groups] at h
  obtain ⟨k, hk, rfl⟩ := List.mem_map.1 h
  obtain ⟨r, hr, hpair⟩ := mem_keys.1 hk
  obtain ⟨hr, hlive⟩ := List.mem_filter.1 hr
  have hpos : 0 < liveCount records k := List.countP_pos_iff.2 ⟨r, mem_group.2 ⟨hr, hpair⟩, hlive⟩
  obtain ⟨hlow, hhigh⟩ := rate_bounds (solvedCount_le k) hpos
  refine ⟨roundTo 2 (solvedCount records k / liveCount records k), ?_, ?_, ?_⟩
  · rw [Counts.successRate, effectiveAttempts_groupOf, solved_groupOf, if_neg (by omega)]
    rfl
  · rw [Counts.reliable, effectiveAttempts_groupOf, solved_groupOf]
    simpa using hlow
  · rw [Counts.passed, solved_groupOf]
    exact hhigh

/-- The sums behind the pass numbers. -/
private theorem sum_bounds {complete : List (GroupStats ℚ)} (h : ∀ s ∈ complete, ∃ rate, Judged s rate) :
    (complete.countP (fun s => s.reliable) : ℚ) ≤ (complete.filterMap fun s => s.successRate).sum ∧
      (complete.filterMap fun s => s.successRate).sum ≤ (complete.countP fun s => s.passed : ℚ) := by
  induction complete with
  | nil => simp
  | cons s complete ih =>
    obtain ⟨rate, hrate, hlow, hhigh⟩ := h s (by simp)
    obtain ⟨ihlow, ihhigh⟩ := ih fun s hs => h s (List.mem_cons_of_mem _ hs)
    simp only [List.filterMap_cons, hrate, List.sum_cons, List.countP_cons]
    unfold bit at hlow hhigh
    push_cast
    constructor
    · linarith
    · linarith

private theorem fractionOf_mono {a b : ℚ} (h : a ≤ b) (complete : List (GroupStats ℚ)) :
    fractionOf a complete ≤ fractionOf b complete := by
  unfold fractionOf
  split
  · exact le_refl _
  · have hlength : (0 : ℚ) ≤ ((complete.length : Int) : ℚ) := by positivity
    exact roundTo_mono 2 (div_le_div_of_nonneg_right h hlength)

private theorem pass_numbers_ordered (records : List (Record ℚ)) :
    passAtKReliability (completeGroups (groups records)) ≤ passAtOne (completeGroups (groups records)) ∧
      passAtOne (completeGroups (groups records)) ≤ passAtK (completeGroups (groups records)) := by
  obtain ⟨hlow, hhigh⟩ := sum_bounds fun s (hs : s ∈ completeGroups (groups records)) =>
    successRate_of_complete hs
  exact ⟨fractionOf_mono hlow _, fractionOf_mono hhigh _⟩

/-! ### The records in another order -/

theorem fits_exact (records : List (Record ℚ)) : Fits records := by
  refine ⟨fun r _ => ?_, fun _ _ => rfl⟩
  cases r with
  | mk model task solved iterations durationSec errorKind => cases iterations <;> cases durationSec <;> rfl

private theorem record_comm (c : Counts ℚ) (r r' : Record ℚ) : (c.record r).record r' = (c.record r').record r := by
  simp only [Counts.record, Counts.add, Counts.mk.injEq, true_and]
  refine ⟨by omega, by omega, add_right_comm _ _ _, by omega⟩

private theorem groups_perm {other : List (Record ℚ)} (h : other.Perm records) : groups other = groups records := by
  rw [groups_eq, groups_eq, keys_perm h]
  apply List.map_congr_left
  intro k _
  rw [groupOf, groupOf, total_perm record_comm h]

private theorem reportOf_perm {other : List (Record ℚ)} (h : other.Perm records) (campaign : Name)
    (unparseable : List (Name × Nat)) (taskMeta : Name → Option TaskMeta) :
    reportOf campaign (other, unparseable) taskMeta = reportOf campaign (records, unparseable) taskMeta := by
  unfold reportOf assemble
  rw [groups_perm h, classProfile_perm h]

private theorem sum_attempts (records : List (Record ℚ)) :
    ((groups records).map fun s => s.attempts).sum = records.length := by
  rw [groups, List.map_map]
  exact sum_sortedItems (fun c : Counts ℚ => c.attempts) rfl fun _ _ => rfl

/-! ### The report is honest -/

/-- What added infra records must leave as it is. -/
structure Unchanged {N : Type} [Arith N] (before after : CampaignReport N) : Prop where
  /-- a pair with a live attempt keeps its place and its rate -/
  listed : ∀ g ∈ before.groups, g.incomplete = false →
    ∃ g' ∈ after.groups, g'.stats.model = g.stats.model ∧ g'.stats.task = g.stats.task
  successRate : ∀ g ∈ before.groups, g.incomplete = false → ∀ g' ∈ after.groups,
    g'.stats.model = g.stats.model → g'.stats.task = g.stats.task → g'.successRate = g.successRate
  passAtK : after.passAtK = before.passAtK
  passAtOne : after.passAtOne = before.passAtOne
  passAtKReliability : after.passAtKReliability = before.passAtKReliability
  classProfile : after.classProfile = before.classProfile
  leaderboardRows : leaderboardRows after = leaderboardRows before

private theorem unchanged_of_added {N : Type} [Arith N] {records added both : List (Record N)}
    (hadded : ∀ r ∈ added, r.isInfra = true) (hboth : both.Perm (records ++ added)) (campaign campaign' : Name)
    (unparseable unparseable' : List (Name × Nat)) (taskMeta : Name → Option TaskMeta) :
    Unchanged (reportOf campaign (records, unparseable) taskMeta)
      (reportOf campaign' (both, unparseable') taskMeta) := by
  have hverdicts := verdicts_of_added hadded hboth
  have hprofile := classProfile_of_added hadded hboth taskMeta
  refine ⟨?_, ?_, passAtK_of_verdicts hverdicts, passAtOne_of_verdicts hverdicts,
    passAtKReliability_of_verdicts hverdicts, hprofile, ?_⟩
  · intro g hg _
    obtain ⟨s, hs, rfl⟩ := List.mem_map.1 hg
    rw [groups_eq] at hs
    obtain ⟨k, hk, rfl⟩ := List.mem_map.1 hs
    obtain ⟨r, hr, hpair⟩ := mem_keys.1 hk
    have hk' : k ∈ keys Record.pair both := mem_keys.2 ⟨r, hboth.mem_iff.2 (List.mem_append_left _ hr), hpair⟩
    refine ⟨(groupOf both k).reported taskMeta, List.mem_map_of_mem ?_, rfl, rfl⟩
    rw [groups_eq]
    exact List.mem_map_of_mem hk'
  · intro g hg _ g' hg' hmodel htask
    obtain ⟨s, hs, rfl⟩ := List.mem_map.1 hg
    obtain ⟨s', hs', rfl⟩ := List.mem_map.1 hg'
    rw [groups_eq] at hs hs'
    obtain ⟨k, hk, rfl⟩ := List.mem_map.1 hs
    obtain ⟨k', hk', rfl⟩ := List.mem_map.1 hs'
    obtain rfl : k' = k := ofLex.injective (Prod.ext hmodel htask)
    show (groupOf both k').successRate = (groupOf records k').successRate
    have hverdict : (groupOf both k').verdict = (groupOf records k').verdict := by
      rw [verdict_groupOf, verdict_groupOf, verdictOf_of_added hadded hboth]
    exact congrArg Verdict.successRate hverdict
  · apply leaderboardRows_congr _ hprofile
    show leaderboardPairs ((groups both).map _) = leaderboardPairs ((groups records).map _)
    rw [leaderboardPairs_eq, leaderboardPairs_eq, hverdicts]

/-- A report stays and says the same when infra records are added, if and only if the numbers of the whole fit wherever
those of the records do; and in exact arithmetic the pass numbers are ordered, no attempt is lost, and the order of the
records does not matter. -/
theorem report_is_honest {N : Type} [Arith N] (records added both : List (Record N)) (campaign campaign' : Name)
    (unparseable unparseable' : List (Name × Nat)) (taskMeta : Name → Option TaskMeta)
    (hinfra : ∀ r ∈ added, r.errorKind = some "infra".toList ∧ r.solved = false)
    (hboth : both.Perm (records ++ added)) :
    ((∀ before, buildReport campaign (records, unparseable) taskMeta = some before →
        ∃ after, buildReport campaign' (both, unparseable') taskMeta = some after ∧ Unchanged before after) ↔
      (Fits records → Fits both)) ∧
    ∀ attempts : List (Record ℚ), ∃ report, buildReport campaign (attempts, unparseable) taskMeta = some report ∧
      (report.passAtKReliability ≤ report.passAtOne ∧ report.passAtOne ≤ report.passAtK) ∧
      (report.groups.map fun g => g.stats.attempts).sum = attempts.length ∧
      ∀ other : List (Record ℚ), other.Perm attempts →
        buildReport campaign (other, unparseable) taskMeta = some report := by
  constructor
  · have hadded : ∀ r ∈ added, r.isInfra = true := by
      intro r hr
      simp [Record.isInfra, hinfra r hr]
    constructor
    · intro hreport hfits
      obtain ⟨after, hafter, -⟩ := hreport _ (buildReport_of_fits hfits campaign unparseable taskMeta)
      exact (fits_of_buildReport hafter).1
    · intro hfits before hbefore
      obtain ⟨hrecords, rfl⟩ := fits_of_buildReport hbefore
      exact ⟨_, buildReport_of_fits (hfits hrecords) campaign' unparseable' taskMeta,
        unchanged_of_added hadded hboth campaign campaign' unparseable unparseable' taskMeta⟩
  · intro attempts
    refine ⟨_, buildReport_of_fits (fits_exact attempts) campaign unparseable taskMeta, pass_numbers_ordered attempts, ?_, ?_⟩
    · show (((groups attempts).map (GroupStats.reported taskMeta)).map fun g => g.stats.attempts).sum = attempts.length
      rw [List.map_map]
      exact sum_attempts attempts
    · intro other h
      rw [buildReport_of_fits (fits_exact other), reportOf_perm h]

def solvedBlink : Record ℚ :=
  ⟨some "model".toList, some "blink".toList, true, some 3, some (5 / 2), some "none".toList⟩

/-- The emulator did not start, in an attempt on the same task. -/
def infraBlink : Record ℚ := ⟨some "model".toList, some "blink".toList, false, some 1, none, some "infra".toList⟩

theorem report_is_honest_blink :
    (∃ before after, buildReport [] ([solvedBlink], []) (fun _ => none) = some before ∧
      buildReport [] ([infraBlink, solvedBlink], []) (fun _ => none) = some after ∧ Unchanged before after) ∧
      ∃ report, buildReport [] ([infraBlink, solvedBlink], []) (fun _ => none) = some report ∧
        buildReport [] ([solvedBlink, infraBlink], []) (fun _ => none) = some report := by
  obtain ⟨hadded, hexact⟩ := report_is_honest [solvedBlink] [infraBlink] [infraBlink, solvedBlink] [] [] [] []
    (fun _ => none) (by simp [infraBlink]) (List.Perm.swap _ _ _)
  have hbefore := buildReport_of_fits (fits_exact [solvedBlink]) [] [] fun _ => none
  obtain ⟨after, hafter, hsame⟩ := hadded.2 (fun _ => fits_exact _) _ hbefore
  obtain ⟨report, hreport, -, -, hother⟩ := hexact [solvedBlink, infraBlink]
  exact ⟨⟨_, after, hbefore, hafter, hsame⟩, report, hother _ (List.Perm.swap _ _ _), hreport⟩

/-! ### Numbers beyond the floats -/

/-- Exact numbers, of which floats reach up to `2 ^ 1024`. -/
structure Ranged where
  val : ℚ

def Ranged.within (x : ℚ) : Option ℚ := if |x| < 2 ^ 1024 then some x else none

instance : Arith Ranged where
  ofInt n := ⟨n⟩
  add x y := ⟨x.val + y.val⟩
  sum xs := ⟨(xs.map Ranged.val).sum⟩
  div x y := ⟨x.val / y.val⟩
  round digits x := ⟨roundTo digits x.val⟩
  toInt x := some (x.val.num.tdiv x.val.den)
  toFloat x := (Ranged.within x.val).map Ranged.mk
  divInt a b := (Ranged.within (a / b)).map Ranged.mk
  percent x := Arith.percent x.val

def solvedRanged : Record Ranged :=
  ⟨some "model".toList, some "blink".toList, true, some ⟨3⟩, some ⟨5 / 2⟩, some "none".toList⟩

/-- `duration_sec` is the integer `10 ** 400`. -/
def endlessInfra : Record Ranged :=
  ⟨some "model".toList, some "meteo".toList, false, some ⟨1⟩, some ⟨10 ^ 400⟩, some "infra".toList⟩

/-- There was a report, and there is none any more. -/
theorem infra_beyond_floats : (endlessInfra.errorKind = some "infra".toList ∧ endlessInfra.solved = false) ∧
    ¬ ∀ before, buildReport [] ([solvedRanged], []) (fun _ => none) = some before →
      ∃ after, buildReport [] ([solvedRanged] ++ [endlessInfra], []) (fun _ => none) = some after ∧
        Unchanged before after := by
  have hwithin : ∀ x : ℚ, |x| < 2 ^ 2 → (Ranged.within x).isSome = true := by
    intro x hx
    rw [Ranged.within, if_pos (hx.trans_le (pow_le_pow_right₀ one_le_two (by decide)))]
    rfl
  have hfits : Fits [solvedRanged] := by
    refine ⟨List.forall_mem_singleton.2 ?_, List.forall_mem_singleton.2 ?_⟩
    · have hduration : (Ranged.within (5 / 2)).isSome = true := hwithin _ (by norm_num)
      simpa [Record.numbers, solvedRanged, toInt, toFloat, Arith.toInt, Arith.toFloat] using hduration
    · have haverage : (Ranged.within 3).isSome = true := hwithin _ (by norm_num)
      have hgroup : group Record.pair [solvedRanged] solvedRanged.pair = [solvedRanged] := group_eq_self (by simp)
      have hsum : ([solvedRanged].map Record.iterationsAdded).sum = 3 := rfl
      rw [hgroup, hsum]
      simpa [Arith.divInt] using haverage
  have hbeyond : Ranged.within (10 ^ 400) = none := by
    have hpow : (2 : ℚ) ^ 1024 ≤ 10 ^ 400 :=
      calc
        (2 : ℚ) ^ 1024 = (2 ^ 64) ^ 16 := by rw [← pow_mul]
        _ ≤ (10 ^ 25) ^ 16 := pow_le_pow_left₀ (by positivity) (by norm_num) 16
        _ = 10 ^ 400 := by rw [← pow_mul]
    rw [Ranged.within, abs_of_nonneg (by positivity), if_neg (not_lt.2 hpow)]
  have hnot : ¬ Fits ([solvedRanged] ++ [endlessInfra]) := by
    intro h
    have hnumbers := h.numbers endlessInfra (by simp)
    simp [Record.numbers, endlessInfra, toInt, toFloat, Arith.toInt, Arith.toFloat, hbeyond] at hnumbers
  refine ⟨⟨rfl, rfl⟩, fun hclaim => ?_⟩
  obtain ⟨after, hafter, -⟩ := hclaim _ (buildReport_of_fits hfits [] [] fun _ => none)
  exact hnot (fits_of_buildReport hafter).1

end IronHarness.Report
