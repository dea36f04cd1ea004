import IronHarness.Lib.Buckets
import IronHarness.Report.Exact

/-!
# The summary of an ops campaign

`summarize` (ironbench/ops_report.py) over the rows of the attempts and of the fault suite.  A fault row is an attempt
like any other to the groups, so the pass rates are those of the attempts alone if and only if no fault row that is
judged shows in a group (`fault_rows_apart_iff`); with names that tell the groups apart that means that no fault row is
judged (`unseen_iff`).
-/

namespace IronHarness.Ops.OpsReport

open Tally
open IronHarness.Report (Name Arith)

/-- What the summary reads of a row.  `model` and `arm` are values with a text of their own, `None` for a missing one;
the booleans are the truth values of their fields, and `accidents` is the length of the list. -/
structure Row (L N : Type) where
  model : L
  arm : L
  errorKind : Option Name
  solved : Bool
  silentFailure : Bool
  claimed : Option Name
  accidents : Nat
  tokensIn : N
  tokensOut : N
  iterations : N
  durationSec : N
  fault : Bool
  detected : Bool

variable {L N : Type}

def Row.key (r : Row L N) : L × L := (r.model, r.arm)

/-- An attempt that failed at the environment level and was not solved is not judged. -/
def Row.judged (r : Row L N) : Bool := r.errorKind != some "infra".toList || r.solved

/-- `f"{model} / {arm}"` -/
def groupName (text : L → Name) (key : L × L) : Name := text key.1 ++ " / ".toList ++ text key.2

/-- The last of the keys that print as the name: its group is the one that stays. -/
def lastKey (text : L → Name) (keys : List (L × L)) (name : Name) : Option (L × L) :=
  keys.reverse.find? fun key => groupName text key = name

variable {text : L → Name} {attempts faults rows : List (Row L N)} {key : L × L} {name : Name}

private theorem lastKey_append {a b : List (L × L)} :
    lastKey text (a ++ b) name = (lastKey text b name).or (lastKey text a name) := by
  rw [lastKey, List.reverse_append, List.find?_append]
  rfl

theorem lastKey_eq_some {keys : List (L × L)} (h : lastKey text keys name = some key) :
    key ∈ keys ∧ groupName text key = name := by
  have hmem := List.mem_of_find?_eq_some h
  have hname := List.find?_some h
  exact ⟨List.mem_reverse.1 hmem, by simpa using hname⟩

section

variable [DecidableEq L]

/-- The keys of the judged rows, in the order in which they come. -/
def keysOf (rows : List (Row L N)) : List (L × L) := ((rows.filter Row.judged).map Row.key).eraseDups

/-- The judged rows of a group. -/
def judgedOf (rows : List (Row L N)) (key : L × L) : List (Row L N) :=
  (rows.filter Row.judged).filter fun r => r.key = key

theorem mem_keysOf : key ∈ keysOf rows ↔ ∃ r ∈ rows, r.judged = true ∧ r.key = key := by
  simp [keysOf, and_assoc]

private theorem judgedOf_append : judgedOf (attempts ++ faults) key = judgedOf attempts key ++ judgedOf faults key := by
  simp [judgedOf]

theorem judgedOf_eq_nil : judgedOf rows key = [] ↔ key ∉ keysOf rows := by
  rw [judgedOf, List.filter_eq_nil_iff, mem_keysOf]
  simp

/-- The keys of the fault rows come behind those of the attempts. -/
private theorem keysOf_append (attempts faults : List (Row L N)) :
    ∃ new, keysOf (attempts ++ faults) = keysOf attempts ++ new ∧ ∀ key, key ∈ new ↔ key ∈ keysOf faults ∧ key ∉ keysOf attempts := by
  refine ⟨_, by rw [keysOf, List.filter_append, List.map_append, List.eraseDups_append, ← keysOf], ?_⟩
  intro key
  rw [List.mem_eraseDups, List.removeAll, List.mem_filter, keysOf, keysOf, List.mem_eraseDups, List.mem_eraseDups]
  simp

end

/-! ### The summary -/

/-- The numbers of a group of attempts. -/
structure Figures (N : Type) where
  attempts : Nat
  solved : Nat
  passRate : Option N
  silentFailures : Nat
  silentFailureRate : Option N
  honestFail : Nat
  noClaim : Nat
  accidents : Nat
  tokensIn : N
  tokensOut : N
  avgIterations : Option N
  avgDurationSec : Option N
  solveAvgDurationSec : Option N
  solveAvgTokensIn : Option N
  solveAvgTokensOut : Option N

structure FaultFigures (N : Type) where
  injected : Nat
  detected : Nat
  detectionRate : Option N

structure Summary (N : Type) where
  attemptsTotal : Nat
  attemptsJudged : Nat
  attemptsInfra : Nat
  rowsDropped : Nat
  groups : List (Name × Figures N)
  faultSuite : List (Name × FaultFigures N)

variable [DecidableEq L] [Arith N]

/-- A sum over the number of rows; nothing for no rows. -/
def perRow (sum : N) (rows : List (Row L N)) : Option N :=
  if rows.isEmpty then none else some (Arith.div sum (Arith.ofInt rows.length))

def figures (rows : List (Row L N)) : Figures N :=
  let solved := rows.countP (·.solved)
  let silent := rows.countP (·.silentFailure)
  let solvedRows := rows.filter (·.solved)
  { attempts := rows.length
    solved := solved
    passRate := perRow (Arith.ofInt solved) rows
    silentFailures := silent
    silentFailureRate := perRow (Arith.ofInt silent) rows
    honestFail := rows.countP fun r => !r.solved && r.claimed == some "FAIL".toList
    noClaim := rows.countP fun r => !r.solved && (r.claimed.getD []).isEmpty
    accidents := (rows.map (·.accidents)).sum
    tokensIn := Arith.sum (rows.map (·.tokensIn))
    tokensOut := Arith.sum (rows.map (·.tokensOut))
    avgIterations := perRow (Arith.sum (rows.map (·.iterations))) rows
    avgDurationSec := perRow (Arith.sum (rows.map (·.durationSec))) rows
    solveAvgDurationSec := perRow (Arith.sum (solvedRows.map (·.durationSec))) solvedRows
    solveAvgTokensIn := perRow (Arith.sum (solvedRows.map (·.tokensIn))) solvedRows
    solveAvgTokensOut := perRow (Arith.sum (solvedRows.map (·.tokensOut))) solvedRows }

/-- `detection_rate` -/
def detectionRate (rows : List (Row L N)) : Option N := perRow (Arith.ofInt (rows.countP (·.detected))) rows

/-- The groups of the judged rows, by name. -/
def groups (text : L → Name) (rows : List (Row L N)) : List (Name × Figures N) :=
  sortedItems (ofItems ((bucket Row.key (rows.filter Row.judged)).map fun b => (groupName text b.1, figures b.2)))

def faultSuite (text : L → Name) (rows : List (Row L N)) : List (Name × FaultFigures N) :=
  ofItems ((bucket Row.key (rows.filter (·.fault))).map fun b =>
    (groupName text b.1, ⟨b.2.length, b.2.countP (·.detected), detectionRate b.2⟩))

/-- `summarize` -/
def summarize (text : L → Name) (dropped : Nat) (rows : List (Row L N)) : Summary N where
  attemptsTotal := rows.length
  attemptsJudged := rows.countP Row.judged
  attemptsInfra := rows.countP fun r => r.errorKind == some "infra".toList && !r.solved
  rowsDropped := dropped
  groups := groups text rows
  faultSuite := faultSuite text rows

/-! ### The groups by name -/

/-- The groups of both parts are those of the attempts alone, and the fault suite is that of the fault rows alone. -/
structure Apart (text : L → Name) (attempts faults : List (Row L N)) : Prop where
  groups : ∀ name, (summarize text 0 (attempts ++ faults)).groups.lookup name =
    (summarize text 0 attempts).groups.lookup name
  faultSuite : (summarize text 0 (attempts ++ faults)).faultSuite = (summarize text 0 faults).faultSuite

/-- No judged fault row shows: its group is overwritten by a later one of the same name, or it is a new one with the
figures of the attempts' group of that name. -/
def Unseen (text : L → Name) (attempts faults : List (Row L N)) : Prop :=
  ∀ r ∈ faults, r.judged = true →
    lastKey text (keysOf (attempts ++ faults)) (groupName text r.key) = some r.key →
    r.key ∉ keysOf attempts ∧ ∃ key, lastKey text (keysOf attempts) (groupName text r.key) = some key ∧
      figures (judgedOf attempts key) = figures (judgedOf faults r.key)

theorem lookup_groups :
    (groups text rows).lookup name = (lastKey text (keysOf rows) name).map fun key => figures (judgedOf rows key) := by
  rw [groups, lookup_sortedItems (nodup_ofItems _), lookup_ofItems, bucket_eq, List.map_map, ← List.map_reverse, lastKey,
    keysOf]
  generalize ((rows.filter Row.judged).map Row.key).eraseDups.reverse = keys
  induction keys with
  | nil => rfl
  | cons key keys ih =>
    rw [List.map_cons, List.find?_cons]
    by_cases hname : groupName text key = name
    · simp [hname, judgedOf]
    · rw [Function.comp_apply, lookup_cons_ite, if_neg (Ne.symm hname), ih, decide_eq_false hname]

/-! ### The fault suite beside the attempts -/

private theorem faultSuite_append (hattempts : ∀ r ∈ attempts, r.fault = false) :
    faultSuite text (attempts ++ faults) = faultSuite text faults := by
  have hnone : attempts.filter (·.fault) = [] := by
    apply List.filter_eq_nil_iff.2
    intro r hr
    rw [hattempts r hr]
    exact Bool.false_ne_true
  rw [faultSuite, List.filter_append, hnone, List.nil_append, faultSuite]

omit [DecidableEq L] in
/-- A group with more rows has other figures. -/
private theorem length_of_figures {rows rows' : List (Row L N)} (h : figures rows = figures rows') :
    rows.length = rows'.length :=
  congrArg Figures.attempts h

private theorem unseen_of_groups
    (h : ∀ name, (groups text (attempts ++ faults)).lookup name = (groups text attempts).lookup name) :
    Unseen text attempts faults := by
  intro r hr hjudged hlast
  have hlookup : (groups text (attempts ++ faults)).lookup (groupName text r.key) =
      some (figures (judgedOf (attempts ++ faults) r.key)) := by
    rw [lookup_groups, hlast, Option.map_some]
  obtain ⟨new, hnew, hmem⟩ := keysOf_append attempts faults
  by_cases hold : r.key ∈ keysOf attempts
  · -- the group of the attempts has grown by the row
    exfalso
    have hlast' : lastKey text (keysOf attempts) (groupName text r.key) = some r.key := by
      rw [hnew, lastKey_append] at hlast
      rcases Option.or_eq_some_iff.1 hlast with hin | ⟨-, hin⟩
      · exact absurd hold ((hmem r.key).1 (lastKey_eq_some hin).1).2
      · exact hin
    rw [h, lookup_groups, hlast', Option.map_some] at hlookup
    have hlen := length_of_figures (Option.some.inj hlookup)
    rw [judgedOf_append, List.length_append] at hlen
    have hempty : judgedOf faults r.key = [] := List.length_eq_zero_iff.1 (by omega)
    exact judgedOf_eq_nil.1 hempty (mem_keysOf.2 ⟨r, hr, hjudged, rfl⟩)
  · refine ⟨hold, ?_⟩
    rw [h, judgedOf_append, judgedOf_eq_nil.2 hold, List.nil_append, lookup_groups] at hlookup
    exact Option.map_eq_some_iff.1 hlookup

private theorem groups_of_unseen (h : Unseen text attempts faults) (name : Name) :
    (groups text (attempts ++ faults)).lookup name = (groups text attempts).lookup name := by
  obtain ⟨new, hnew, hmem⟩ := keysOf_append attempts faults
  rw [lookup_groups, hnew, lastKey_append]
  cases hlast : lastKey text new name with
  | some key =>
    obtain ⟨hin, hname⟩ := lastKey_eq_some hlast
    obtain ⟨hfault, hold⟩ := (hmem key).1 hin
    obtain ⟨r, hr, hjudged, rfl⟩ := mem_keysOf.1 hfault
    have hwhole : lastKey text (keysOf (attempts ++ faults)) (groupName text r.key) = some r.key := by
      rw [hnew, lastKey_append, hname, hlast, Option.some_or]
    obtain ⟨-, key, hkey, hsame⟩ := h r hr hjudged hwhole
    rw [Option.some_or, Option.map_some, judgedOf_append, judgedOf_eq_nil.2 hold, List.nil_append, ← hname, lookup_groups,
      hkey, Option.map_some, hsame]
  | none =>
    rw [Option.none_or, lookup_groups]
    cases hlast' : lastKey text (keysOf attempts) name with
    | none => rfl
    | some key =>
      obtain ⟨hold, hname⟩ := lastKey_eq_some hlast'
      have hnone : judgedOf faults key = [] := by
        apply judgedOf_eq_nil.2
        intro hfault
        obtain ⟨r, hr, hjudged, rfl⟩ := mem_keysOf.1 hfault
        have hwhole : lastKey text (keysOf (attempts ++ faults)) (groupName text r.key) = some r.key := by
          rw [hnew, lastKey_append, hname, hlast, Option.none_or, hlast']
        exact (h r hr hjudged hwhole).1 hold
      rw [Option.map_some, Option.map_some, judgedOf_append, hnone, List.append_nil]

/-- Where different groups have different names, an unseen row is one that is not judged. -/
private theorem unseen_iff (hnames : Function.Injective (groupName text)) :
    Unseen text attempts faults ↔ ∀ r ∈ faults, r.judged = false := by
  constructor
  · intro hunseen r hr
    rw [← Bool.not_eq_true]
    intro hjudged
    have hlast : ∀ rows : List (Row L N), r.key ∈ keysOf rows →
        lastKey text (keysOf rows) (groupName text r.key) = some r.key := by
      intro rows hmem
      cases hfind : lastKey text (keysOf rows) (groupName text r.key) with
      | none =>
        rw [lastKey, List.find?_eq_none] at hfind
        exact absurd (by simp) (hfind r.key (List.mem_reverse.2 hmem))
      | some key => rw [hnames (lastKey_eq_some hfind).2]
    have hmem : r.key ∈ keysOf (attempts ++ faults) :=
      mem_keysOf.2 ⟨r, List.mem_append_right _ hr, hjudged, rfl⟩
    obtain ⟨hold, key, hkey, -⟩ := hunseen r hr hjudged (hlast _ hmem)
    -- no group of the attempts has the name
    obtain ⟨hin, hname⟩ := lastKey_eq_some hkey
    apply hold
    rw [← hnames hname]
    exact hin
  · intro hnone r hr hjudged
    rw [hnone r hr] at hjudged
    cases hjudged

/-- The fault rows do not move the pass rates if and only if no judged fault row shows in a group; where different groups
have different names, if and only if no fault row is judged. -/
theorem fault_rows_apart_iff (text : L → Name) (attempts faults : List (Row L N))
    (hattempts : ∀ r ∈ attempts, r.fault = false) :
    (Apart text attempts faults ↔ Unseen text attempts faults) ∧
      (Function.Injective (groupName text) → (Apart text attempts faults ↔ ∀ r ∈ faults, r.judged = false)) := by
  have hiff : Apart text attempts faults ↔ Unseen text attempts faults := by
    constructor
    · intro hapart
      exact unseen_of_groups hapart.groups
    · intro hunseen
      exact ⟨groups_of_unseen hunseen, faultSuite_append hattempts⟩
  refine ⟨hiff, fun hnames => ?_⟩
  rw [hiff, unseen_iff hnames]

/-- A text, or `None`. -/
def optText (value : Option Name) : Name := value.getD "None".toList

/-- A solved attempt. -/
def solvedRow : Row (Option Name) ℚ :=
  ⟨some "m".toList, some "mcp".toList, none, true, false, some "SUCCESS".toList, 0, 10, 5, 2, 30, false, false⟩

/-- What `run_fault_scenario` returns of a fault that was detected; it has no `model` and no `error_kind`. -/
def detectedRow : Row (Option Name) ℚ :=
  ⟨none, some "mcp".toList, none, false, false, some "FAIL".toList, 0, 10, 5, 2, 0, true, true⟩

/-- The detected fault is counted as a failed attempt. -/
theorem detected_fault_is_a_failure : ¬ ∀ (attempts faults : List (Row (Option Name) ℚ)),
    (∀ r ∈ attempts, r.fault = false) → (∀ r ∈ faults, r.fault = true) → Apart optText attempts faults := by
  intro hclaim
  have hapart := hclaim [solvedRow] [detectedRow] (by simp [solvedRow]) (by simp [detectedRow])
  have hgroup : (groups optText ([solvedRow] ++ [detectedRow])).lookup "None / mcp".toList =
      (groups optText [solvedRow]).lookup "None / mcp".toList := hapart.groups "None / mcp".toList
  have hnew : lastKey optText (keysOf ([solvedRow] ++ [detectedRow])) "None / mcp".toList =
      some (none, some "mcp".toList) := by decide +kernel
  have hold : lastKey optText (keysOf [solvedRow]) "None / mcp".toList = none := by decide +kernel
  rw [lookup_groups, lookup_groups, hnew, hold] at hgroup
  cases hgroup

/-- A fault row that ends in an infrastructure error is not judged. -/
theorem fault_rows_apart_iff_infra :
    (∀ r ∈ [solvedRow], r.fault = false) ∧
      (Apart optText [solvedRow] [{ detectedRow with errorKind := some "infra".toList }] ↔
        Unseen optText [solvedRow] [{ detectedRow with errorKind := some "infra".toList }]) := by
  have hattempts : ∀ r ∈ [solvedRow], r.fault = false := by simp [solvedRow]
  exact ⟨hattempts, (fault_rows_apart_iff optText _ _ hattempts).1⟩

end IronHarness.Ops.OpsReport
