import Mathlib.Algebra.Ring.Int.Defs
import IronHarness.Report.Build

/-!
# What the numbers of a report say

Where the numbers of the records and the averages of the groups are within the floats (`Fits`), there is a report
(`buildReport_of_fits`), and it lists the pairs of a model and a task in order, each with the counts of its own records
(`groups_eq`).  The verdicts are functions of the live part of the complete groups (`Verdict`), which is the same
for two lists of records with the same live attempts and no solved attempt more (`verdicts_of_added`).
-/

namespace IronHarness.Report

open Tally

variable {N : Type} [Arith N]

/-! ### The groups -/

/-- The body of the loop, with zeros where `int` or `float` raises. -/
def Counts.record (c : Counts N) (r : Record N) : Counts N := c.add r (r.numbers.getD (0, Arith.ofInt 0))

/-- The groups that `aggregate` gives, if it does. -/
def groups (records : List (Record N)) : List (GroupStats N) :=
  (sortedItems (tally Counts.zero Record.pair Counts.record records)).map fun item =>
    { item.2 with model := (ofLex item.1).1, task := (ofLex item.1).2 }

private theorem foldlM_tallyRecord {records : List (Record N)} (h : ∀ r ∈ records, r.numbers.isSome = true)
    (before : List ((Name ×ₗ Name) × Counts N)) :
    records.foldlM tallyRecord before =
      some (records.foldl (fun groups r => adjust Counts.zero r.pair (fun c => c.record r) groups) before) := by
  induction records generalizing before with
  | nil => rfl
  | cons r records ih =>
    obtain ⟨numbers, hnumbers⟩ := Option.isSome_iff_exists.1 (h r List.mem_cons_self)
    have hbody : tallyRecord before r = some (adjust Counts.zero r.pair (fun c => c.record r) before) := by
      simp only [tallyRecord, Counts.record, hnumbers, Option.map_some, Option.getD_some]
    rw [List.foldlM_cons, hbody, Option.bind_eq_bind, Option.bind_some, List.foldl_cons]
    exact ih (fun r' hr' => h r' (List.mem_cons_of_mem r hr')) _

private theorem numbers_of_foldlM {records : List (Record N)} {before after : List ((Name ×ₗ Name) × Counts N)}
    (h : records.foldlM tallyRecord before = some after) : ∀ r ∈ records, r.numbers.isSome = true := by
  induction records generalizing before with
  | nil => exact fun r hr => absurd hr List.not_mem_nil
  | cons r records ih =>
    rw [List.foldlM_cons, Option.bind_eq_bind, Option.bind_eq_some_iff] at h
    obtain ⟨groups, hbody, hrest⟩ := h
    refine List.forall_mem_cons.2 ⟨?_, ih hrest⟩
    obtain ⟨numbers, hnumbers, -⟩ := Option.map_eq_some_iff.1 hbody
    rw [hnumbers]
    rfl

private theorem aggregate_of_numbers {records : List (Record N)} (h : ∀ r ∈ records, r.numbers.isSome = true) :
    aggregate records = some (groups records) := by
  rw [aggregate, foldlM_tallyRecord h]
  rfl

private theorem aggregate_eq_some {records : List (Record N)} {stats : List (GroupStats N)}
    (h : aggregate records = some stats) : (∀ r ∈ records, r.numbers.isSome = true) ∧ stats = groups records := by
  obtain ⟨after, hfold, -⟩ := Option.map_eq_some_iff.1 h
  have hnumbers := numbers_of_foldlM hfold
  rw [aggregate_of_numbers hnumbers] at h
  exact ⟨hnumbers, (Option.some.inj h).symm⟩

/-- The group of a pair. -/
def groupOf (records : List (Record N)) (k : Name ×ₗ Name) : GroupStats N :=
  { total Counts.zero Record.pair Counts.record records k with model := (ofLex k).1, task := (ofLex k).2 }

theorem groups_eq (records : List (Record N)) :
    groups records = (keys Record.pair records).map (groupOf records) := by
  rw [groups, sortedItems_tally, List.map_map]
  rfl

/-- The iterations that a record adds. -/
def Record.iterationsAdded (r : Record N) : Int := (toInt r.iterations).getD 0

theorem counts_foldl (rs : List (Record N)) (c : Counts N) :
    (rs.foldl Counts.record c).attempts = c.attempts + rs.length ∧
      (rs.foldl Counts.record c).solved = c.solved + rs.countP (fun r => r.solved) ∧
      (rs.foldl Counts.record c).infraFailures = c.infraFailures + rs.countP (fun r => r.isInfra) := by
  induction rs generalizing c with
  | nil => simp
  | cons r rs ih =>
    obtain ⟨hattempts, hsolved, hinfra⟩ := ih (c.record r)
    rw [List.foldl_cons, hattempts, hsolved, hinfra]
    simp only [Counts.record, Counts.add, List.length_cons, List.countP_cons]
    omega

private theorem iterations_foldl {rs : List (Record N)} (h : ∀ r ∈ rs, r.numbers.isSome = true) (c : Counts N) :
    (rs.foldl Counts.record c).totalIterations = c.totalIterations + (rs.map Record.iterationsAdded).sum := by
  induction rs generalizing c with
  | nil => simp
  | cons r rs ih =>
    obtain ⟨numbers, hnumbers⟩ := Option.isSome_iff_exists.1 (h r List.mem_cons_self)
    have hadds : (c.record r).totalIterations = c.totalIterations + r.iterationsAdded := by
      obtain ⟨iterations, hiterations, hduration⟩ := Option.bind_eq_some_iff.1 hnumbers
      obtain ⟨duration, -, rfl⟩ := Option.map_eq_some_iff.1 hduration
      simp [Counts.record, Counts.add, hnumbers, Record.iterationsAdded, hiterations]
    rw [List.foldl_cons, ih fun r' hr' => h r' (List.mem_cons_of_mem r hr'), hadds, List.map_cons, List.sum_cons]
    omega

/-- The live attempts of a pair. -/
def liveCount (records : List (Record N)) (k : Name ×ₗ Name) : Nat :=
  (group Record.pair records k).countP fun r => !r.isInfra

def solvedCount (records : List (Record N)) (k : Name ×ₗ Name) : Nat :=
  (group Record.pair records k).countP fun r => r.solved

variable {records both added : List (Record N)} {k : Name ×ₗ Name}

theorem solved_groupOf : (groupOf records k).solved = solvedCount records k :=
  (counts_foldl (group Record.pair records k) Counts.zero).2.1.trans (Nat.zero_add _)

theorem attempts_groupOf : (groupOf records k).attempts = (group Record.pair records k).length :=
  (counts_foldl (group Record.pair records k) Counts.zero).1.trans (Nat.zero_add _)

private theorem totalIterations_groupOf (h : ∀ r ∈ records, r.numbers.isSome = true) :
    (groupOf records k).totalIterations = ((group Record.pair records k).map Record.iterationsAdded).sum :=
  (iterations_foldl (fun r hr => h r (mem_group.1 hr).1) Counts.zero).trans (Int.zero_add _)

theorem effectiveAttempts_groupOf : (groupOf records k).effectiveAttempts = liveCount records k := by
  have hinfra := (counts_foldl (group Record.pair records k) Counts.zero).2.2.trans (Nat.zero_add _)
  have hsplit := List.length_eq_countP_add_countP (fun r => r.isInfra) (l := group Record.pair records k)
  have heffective : (groupOf records k).effectiveAttempts =
      ((group Record.pair records k).length : Int) - (group Record.pair records k).countP fun r => r.isInfra := by
    rw [Counts.effectiveAttempts, attempts_groupOf]
    exact congrArg _ (congrArg _ hinfra)
  rw [heffective, liveCount, hsplit]
  simp only [Bool.not_eq_true, Bool.decide_eq_false]
  omega

/-- A pair that has records is complete when one of them is live. -/
private theorem incomplete_groupOf (hk : k ∈ keys Record.pair records) :
    (groupOf records k).incomplete = !decide (0 < liveCount records k) := by
  obtain ⟨r, hr, hpair⟩ := mem_keys.1 hk
  have hpos : 0 < (groupOf records k).attempts := by
    rw [attempts_groupOf]
    exact List.length_pos_of_mem (mem_group.2 ⟨hr, hpair⟩)
  rw [Counts.incomplete, effectiveAttempts_groupOf, decide_eq_true hpos]
  rcases Nat.eq_zero_or_pos (liveCount records k) with hzero | hlive
  · simp [hzero]
  · simp [hlive, Nat.ne_of_gt hlive]

/-! ### The report, where there is one -/

/-- The numbers of the records are within the floats, and so is the average of the iterations of each pair. -/
structure Fits (records : List (Record N)) : Prop where
  numbers : ∀ r ∈ records, r.numbers.isSome = true
  averages : ∀ r ∈ records, (Arith.divInt (N := N)
    ((group Record.pair records r.pair).map Record.iterationsAdded).sum (group Record.pair records r.pair).length).isSome =
      true

/-- A group whose average is within the floats. -/
def GroupStats.reported (taskMeta : Name → Option TaskMeta) (s : GroupStats N) : GroupReport N :=
  s.report taskMeta (s.avgIterations.getD (Arith.ofInt 0))

/-- The report that `build_report` gives, if it does. -/
def reportOf (campaign : Name) (loaded : List (Record N) × List (Name × Nat)) (taskMeta : Name → Option TaskMeta) :
    CampaignReport N :=
  assemble campaign loaded taskMeta (groups loaded.1) ((groups loaded.1).map (GroupStats.reported taskMeta))

private theorem avgIterations_groupOf (h : ∀ r ∈ records, r.numbers.isSome = true) {r : Record N} (hr : r ∈ records) :
    (groupOf records r.pair).avgIterations.isSome = true ↔ (Arith.divInt (N := N)
      ((group Record.pair records r.pair).map Record.iterationsAdded).sum
        (group Record.pair records r.pair).length).isSome = true := by
  have hpos : (groupOf records r.pair).attempts ≠ 0 := by
    rw [attempts_groupOf]
    exact Nat.pos_iff_ne_zero.1 (List.length_pos_of_mem (mem_group.2 ⟨hr, rfl⟩))
  rw [Counts.avgIterations, if_neg hpos, Option.isSome_map, totalIterations_groupOf h, attempts_groupOf]

private theorem mapM_groupReport {taskMeta : Name → Option TaskMeta} {stats : List (GroupStats N)}
    (h : ∀ s ∈ stats, s.avgIterations.isSome = true) :
    stats.mapM (groupReport taskMeta) = some (stats.map (GroupStats.reported taskMeta)) := by
  induction stats with
  | nil => rfl
  | cons s stats ih =>
    obtain ⟨average, haverage⟩ := Option.isSome_iff_exists.1 (h s List.mem_cons_self)
    have hreport : groupReport taskMeta s = some (s.reported taskMeta) := by
      rw [groupReport, GroupStats.reported, haverage]
      rfl
    rw [List.mapM_cons, hreport, ih fun s' hs' => h s' (List.mem_cons_of_mem s hs')]
    rfl

private theorem averages_of_mapM {taskMeta : Name → Option TaskMeta} {stats : List (GroupStats N)}
    {reports : List (GroupReport N)} (h : stats.mapM (groupReport taskMeta) = some reports) :
    ∀ s ∈ stats, s.avgIterations.isSome = true := by
  induction stats generalizing reports with
  | nil => exact fun s hs => absurd hs List.not_mem_nil
  | cons s stats ih =>
    rw [List.mapM_cons, Option.bind_eq_bind, Option.bind_eq_some_iff] at h
    obtain ⟨first, hfirst, hrest⟩ := h
    rw [Option.bind_eq_bind, Option.bind_eq_some_iff] at hrest
    obtain ⟨later, hlater, -⟩ := hrest
    refine List.forall_mem_cons.2 ⟨?_, ih hlater⟩
    obtain ⟨average, haverage, -⟩ := Option.map_eq_some_iff.1 hfirst
    rw [haverage]
    rfl

theorem buildReport_of_fits (h : Fits records) (campaign : Name) (unparseable : List (Name × Nat))
    (taskMeta : Name → Option TaskMeta) :
    buildReport campaign (records, unparseable) taskMeta = some (reportOf campaign (records, unparseable) taskMeta) := by
  have haverages : ∀ s ∈ groups records, s.avgIterations.isSome = true := by
    intro s hs
    rw [groups_eq] at hs
    obtain ⟨k, hk, rfl⟩ := List.mem_map.1 hs
    obtain ⟨r, hr, rfl⟩ := mem_keys.1 hk
    exact (avgIterations_groupOf h.numbers hr).2 (h.averages r hr)
  rw [buildReport, aggregate_of_numbers h.numbers, Option.bind_eq_bind, Option.bind_some, mapM_groupReport haverages]
  rfl

/-- There is a report only where the numbers fit. -/
theorem fits_of_buildReport {campaign : Name} {unparseable : List (Name × Nat)} {taskMeta : Name → Option TaskMeta}
    {report : CampaignReport N} (h : buildReport campaign (records, unparseable) taskMeta = some report) :
    Fits records ∧ report = reportOf campaign (records, unparseable) taskMeta := by
  have hbuilt := h
  rw [buildReport, Option.bind_eq_bind, Option.bind_eq_some_iff] at h
  obtain ⟨stats, hstats, hrest⟩ := h
  obtain ⟨hnumbers, rfl⟩ := aggregate_eq_some hstats
  rw [Option.bind_eq_bind, Option.bind_eq_some_iff] at hrest
  obtain ⟨reports, hreports, -⟩ := hrest
  have haverages := averages_of_mapM hreports
  have hfits : Fits records := by
    refine ⟨hnumbers, fun r hr => (avgIterations_groupOf hnumbers hr).1 (haverages _ ?_)⟩
    rw [groups_eq]
    exact List.mem_map_of_mem (mem_keys.2 ⟨r, hr, rfl⟩)
  rw [buildReport_of_fits hfits] at hbuilt
  exact ⟨hfits, (Option.some.inj hbuilt).symm⟩

/-! ### The live part of the complete groups -/

/-- What the verdicts read of a group. -/
structure Verdict where
  model : Name
  task : Name
  effectiveAttempts : Int
  solved : Nat

def GroupStats.verdict (s : GroupStats N) : Verdict := ⟨s.model, s.task, s.effectiveAttempts, s.solved⟩

def completeGroups (stats : List (GroupStats N)) : List (GroupStats N) := stats.filter fun s => !s.incomplete

def verdictOf (records : List (Record N)) (k : Name ×ₗ Name) : Verdict :=
  ⟨(ofLex k).1, (ofLex k).2, liveCount records k, solvedCount records k⟩

theorem verdict_groupOf : (groupOf records k).verdict = verdictOf records k := by
  rw [GroupStats.verdict, effectiveAttempts_groupOf, solved_groupOf]
  rfl

/-- The complete groups are those of the pairs of the live records. -/
theorem completeGroups_groups (records : List (Record N)) :
    completeGroups (groups records) =
      (keys Record.pair (records.filter fun r => !r.isInfra)).map (groupOf records) := by
  rw [completeGroups, groups_eq, List.filter_map]
  congr 1
  rw [List.filter_congr (q := fun k => decide (0 < liveCount records k))]
  · rw [filter_keys]
    apply keys_congr
    intro k
    constructor
    · rintro ⟨r, hr, rfl⟩
      obtain ⟨-, hlive⟩ := List.mem_filter.1 hr
      obtain ⟨r', hr', hlive'⟩ := List.countP_pos_iff.1 (of_decide_eq_true hlive)
      exact ⟨r', List.mem_filter.2 ⟨(mem_group.1 hr').1, hlive'⟩, (mem_group.1 hr').2⟩
    · rintro ⟨r, hr, rfl⟩
      obtain ⟨hr, hlive⟩ := List.mem_filter.1 hr
      refine ⟨r, List.mem_filter.2 ⟨hr, decide_eq_true ?_⟩, rfl⟩
      exact List.countP_pos_iff.2 ⟨r, mem_group.2 ⟨hr, rfl⟩, hlive⟩
  · intro k hk
    simp [incomplete_groupOf hk]

section Added

variable (hadded : ∀ r ∈ added, r.isInfra = true) (hboth : both.Perm (records ++ added))

include hadded hboth

omit [Arith N] in
private theorem liveCount_of_added : liveCount both k = liveCount records k := by
  have hnone : (group Record.pair added k).countP (fun r => !r.isInfra) = 0 := by
    rw [List.countP_eq_zero]
    intro r hr
    simp [hadded r (mem_group.1 hr).1]
  rw [liveCount, (group_perm hboth).countP_eq, group_append, List.countP_append, hnone]
  rfl

omit [Arith N] in
private theorem solvedCount_of_added : solvedCount both k = solvedCount records k := by
  have hnone : (group Record.pair added k).countP (fun r => r.solved) = 0 := by
    rw [List.countP_eq_zero]
    intro r hr
    have hinfra := hadded r (mem_group.1 hr).1
    rw [Record.isInfra, Bool.and_eq_true] at hinfra
    simpa using hinfra.2
  rw [solvedCount, (group_perm hboth).countP_eq, group_append, List.countP_append, hnone]
  rfl

omit [Arith N] in
theorem verdictOf_of_added : verdictOf both k = verdictOf records k := by
  rw [verdictOf, liveCount_of_added hadded hboth, solvedCount_of_added hadded hboth]
  rfl

/-- Added infra records leave the live part of the complete groups as it is. -/
theorem verdicts_of_added :
    (completeGroups (groups both)).map (·.verdict) = (completeGroups (groups records)).map (·.verdict) := by
  have hkeys : keys Record.pair (both.filter fun r => !r.isInfra) =
      keys Record.pair (records.filter fun r => !r.isInfra) := by
    have hnone : added.filter (fun r => !r.isInfra) = [] := by
      rw [List.filter_eq_nil_iff]
      intro r hr
      simp [hadded r hr]
    rw [keys_perm (hboth.filter _), List.filter_append, hnone, List.append_nil]
  rw [completeGroups_groups, completeGroups_groups, hkeys, List.map_map, List.map_map]
  apply List.map_congr_left
  intro k _
  show (groupOf both k).verdict = (groupOf records k).verdict
  rw [verdict_groupOf, verdict_groupOf, verdictOf_of_added hadded hboth]

end Added

/-! ### The numbers of the report are functions of the live part -/

def Verdict.successRate (v : Verdict) : Option N :=
  if v.effectiveAttempts ≤ 0 then none
  else some (Arith.round 2 (Arith.div (Arith.ofInt v.solved) (Arith.ofInt v.effectiveAttempts)))

section SameVerdicts

variable {a b : List (GroupStats N)} (h : a.map (·.verdict) = b.map (·.verdict))

include h

omit [Arith N] in
private theorem countP_of_verdicts (p : Verdict → Bool) :
    a.countP (fun s => p s.verdict) = b.countP fun s => p s.verdict := by
  have hmap := congrArg (List.countP p) h
  rwa [List.countP_map, List.countP_map] at hmap

private theorem fractionOf_of_verdicts (part : N) : fractionOf part a = fractionOf part b := by
  have hlength := congrArg List.length h
  have hempty := congrArg List.isEmpty h
  rw [List.length_map, List.length_map] at hlength
  rw [List.isEmpty_map, List.isEmpty_map] at hempty
  rw [fractionOf, fractionOf, hlength, hempty]

theorem passAtK_of_verdicts : passAtK a = passAtK b := by
  have hcount : a.countP (fun s => s.passed) = b.countP fun s => s.passed :=
    countP_of_verdicts h fun v => 0 < v.solved
  rw [passAtK, passAtK, hcount]
  exact fractionOf_of_verdicts h _

theorem passAtKReliability_of_verdicts : passAtKReliability a = passAtKReliability b := by
  have hcount : a.countP (fun s => s.reliable) = b.countP fun s => s.reliable :=
    countP_of_verdicts h fun v => (v.solved : Int) = v.effectiveAttempts
  rw [passAtKReliability, passAtKReliability, hcount]
  exact fractionOf_of_verdicts h _

theorem passAtOne_of_verdicts : passAtOne a = passAtOne b := by
  have hrates : a.filterMap (fun s => s.successRate) = b.filterMap fun s => s.successRate := by
    have hmap := congrArg (List.filterMap (Verdict.successRate (N := N))) h
    rwa [List.filterMap_map, List.filterMap_map] at hmap
  rw [passAtOne, passAtOne, hrates]
  exact fractionOf_of_verdicts h _

end SameVerdicts

/-- The rows of the leaderboard look at the complete groups only. -/
theorem leaderboardPairs_eq (taskMeta : Name → Option TaskMeta) (stats : List (GroupStats N)) :
    leaderboardPairs (stats.map (GroupStats.reported taskMeta)) =
      tally Cell.zero (fun v => v.model) (fun c v => c.record (0 < v.solved))
        ((completeGroups stats).map (·.verdict)) := by
  rw [tally_map, leaderboardPairs, List.filter_map, tally_map]
  rfl

theorem leaderboardRows_congr {a b : CampaignReport N} (hpairs : leaderboardPairs a.groups = leaderboardPairs b.groups)
    (hprofile : a.classProfile = b.classProfile) : leaderboardRows a = leaderboardRows b := by
  rw [leaderboardRows, leaderboardRows, hpairs, hprofile]

/-! ### The class profile -/

/-- The classes that a record counts in. -/
def classesOf (taskMeta : Name → Option TaskMeta) (r : Record N) : List (Name × Name × Bool) :=
  if r.isInfra then [] else (metaOf taskMeta r.taskName).tags.map fun tag => (r.modelName, tag, r.solved)

/-- The profile of a list of classes. -/
def profileOf (classes : List (Name × Name × Bool)) : Profile N :=
  (sortedItems (tally [] (fun c => c.1)
    (fun cells c => adjust Cell.zero c.2.1 (fun cell => cell.record c.2.2) cells) classes)).map fun item =>
      (item.1, (sortedItems item.2).map fun cell => (cell.1, cell.2.withRate))

omit [Arith N] in
private theorem classify_eq (taskMeta : Name → Option TaskMeta) (raw : List (Name × List (Name × Cell)))
    (r : Record N) :
    classify taskMeta raw r = (classesOf taskMeta r).foldl
      (fun raw c => adjust [] c.1 (fun cells => adjust Cell.zero c.2.1 (fun cell => cell.record c.2.2) cells) raw) raw := by
  unfold classify classesOf metaOf
  cases taskMeta r.taskName with
  | none => simp
  | some info =>
    dsimp only
    split
    · rfl
    · rw [List.foldl_map]
      rfl

private theorem classProfile_eq (records : List (Record N)) (taskMeta : Name → Option TaskMeta) :
    classProfile records taskMeta = profileOf (records.flatMap (classesOf taskMeta)) := by
  unfold classProfile profileOf tally
  rw [List.foldl_flatMap]
  congr 3
  funext raw r
  exact classify_eq taskMeta raw r

/-- The cells of a model are the tally of its own classes. -/
private theorem profileOf_eq (classes : List (Name × Name × Bool)) :
    profileOf (N := N) classes = (keys (fun c => c.1) classes).map fun model =>
      (model, (sortedItems (tally Cell.zero (fun c => c.2.1) (fun cell c => cell.record c.2.2)
        (group (fun c => c.1) classes model))).map fun cell => (cell.1, cell.2.withRate)) := by
  rw [profileOf, sortedItems_tally, List.map_map]
  rfl

private theorem profileOf_perm {classes classes' : List (Name × Name × Bool)} (h : classes.Perm classes') :
    profileOf (N := N) classes = profileOf classes' := by
  rw [profileOf_eq, profileOf_eq, keys_perm h]
  apply List.map_congr_left
  intro model _
  have hgroup : (group (fun c => c.1) classes model).Perm (group (fun c => c.1) classes' model) := group_perm h
  congr 2
  rw [sortedItems_tally, sortedItems_tally, keys_perm hgroup]
  apply List.map_congr_left
  intro tag _
  congr 1
  apply total_perm _ hgroup
  intro cell c c'
  simp only [Cell.record, Cell.mk.injEq, true_and]
  omega

theorem classProfile_perm {other : List (Record N)} (h : other.Perm records) (taskMeta : Name → Option TaskMeta) :
    classProfile other taskMeta = classProfile records taskMeta := by
  rw [classProfile_eq, classProfile_eq]
  exact profileOf_perm (h.flatMap_right _)

theorem classProfile_of_added (hadded : ∀ r ∈ added, r.isInfra = true) (hboth : both.Perm (records ++ added))
    (taskMeta : Name → Option TaskMeta) : classProfile both taskMeta = classProfile records taskMeta := by
  have hnone : added.flatMap (classesOf taskMeta) = [] := by
    rw [List.flatMap_eq_nil_iff]
    intro r hr
    rw [classesOf, if_pos (hadded r hr)]
  rw [classProfile_perm hboth, classProfile_eq, List.flatMap_append, hnone, List.append_nil, ← classProfile_eq]

end IronHarness.Report
