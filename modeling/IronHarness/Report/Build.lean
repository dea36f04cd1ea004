import Mathlib.Data.Char
import Mathlib.Data.Prod.Lex
import Mathlib.Data.List.Lex
import IronHarness.Lib.Tally

/-!
# The report of a solve campaign

`aggregate`, `build_report`, `class_profile` and the rows of `render_leaderboard` (ironbench/report.py) over the
records of the attempts.  The arithmetic of the numbers is a class, so the same report can be read over the floats of
the code and over the rationals.  Numbers beyond the floats raise an `OverflowError`, which nothing catches: then there
is no report (`none`).
-/

namespace IronHarness.Report

open Tally

abbrev Name := List Char

/-- The numbers of the report: integers and floats in the code. -/
class Arith (N : Type) where
  ofInt : Int → N
  add : N → N → N
  sum : List N → N
  div : N → N → N
  /-- `round(x, digits)` -/
  round : Nat → N → N
  /-- `int(x)`, `none` for an `OverflowError`; what raises a `ValueError` counts as 0 -/
  toInt : N → Option Int
  /-- `float(x)`, `none` for an `OverflowError` -/
  toFloat : N → Option N
  /-- `a / b` of two integers, `none` for an `OverflowError` -/
  divInt : Int → Int → Option N
  /-- `f"{x:.0%}"` -/
  percent : N → List Char

/-- What the report reads of a line of `results.jsonl`; `none` is a field that is missing or no number.  `solved` is
the truth value of its field. -/
structure Record (N : Type) where
  model : Option Name
  task : Option Name
  solved : Bool
  iterations : Option N
  durationSec : Option N
  errorKind : Option Name

variable {N : Type}

def Record.modelName (r : Record N) : Name := r.model.getD ['?']

def Record.taskName (r : Record N) : Name := r.task.getD ['?']

/-- The key of the group; tuples compare by the model first. -/
def Record.pair (r : Record N) : Name ×ₗ Name := toLex (r.modelName, r.taskName)

/-- The attempt failed at the environment level. -/
def Record.isInfra (r : Record N) : Bool := r.errorKind = some "infra".toList && !r.solved

/-- The list `[attempts, solved, iterations, duration, infra]` of a group. -/
structure Counts (N : Type) where
  attempts : Nat
  solved : Nat
  totalIterations : Int
  totalDuration : N
  infraFailures : Nat

structure GroupStats (N : Type) extends Counts N where
  model : Name
  task : Name

/-- What the report knows of a task. -/
structure TaskMeta where
  tags : List Name
  level : Option Int

section Aggregate

variable [Arith N]

/-- `_to_int`, which catches no `OverflowError`. -/
def toInt (value : Option N) : Option Int := (value.map Arith.toInt).getD (some 0)

/-- `_to_float`, which catches no `OverflowError`. -/
def toFloat (value : Option N) : Option N := (value.map Arith.toFloat).getD (some (Arith.ofInt 0))

/-- The iterations and the duration that a record adds. -/
def Record.numbers (r : Record N) : Option (Int × N) :=
  (toInt r.iterations).bind fun iterations => (toFloat r.durationSec).map fun duration => (iterations, duration)

def Counts.zero : Counts N := ⟨0, 0, 0, Arith.ofInt 0, 0⟩

/-- What a record with these numbers adds to its group. -/
def Counts.add (c : Counts N) (r : Record N) (numbers : Int × N) : Counts N where
  attempts := c.attempts + 1
  solved := c.solved + if r.solved then 1 else 0
  totalIterations := c.totalIterations + numbers.1
  totalDuration := Arith.add c.totalDuration numbers.2
  infraFailures := c.infraFailures + if r.isInfra then 1 else 0

/-- The body of the loop of `aggregate`. -/
def tallyRecord (groups : List ((Name ×ₗ Name) × Counts N)) (r : Record N) : Option (List ((Name ×ₗ Name) × Counts N)) :=
  r.numbers.map fun numbers => adjust Counts.zero r.pair (fun c => c.add r numbers) groups

def aggregate (records : List (Record N)) : Option (List (GroupStats N)) :=
  (records.foldlM tallyRecord []).map fun groups =>
    (sortedItems groups).map fun item => { item.2 with model := (ofLex item.1).1, task := (ofLex item.1).2 }

def Counts.effectiveAttempts (c : Counts N) : Int := c.attempts - c.infraFailures

def Counts.incomplete (c : Counts N) : Bool := 0 < c.attempts && c.effectiveAttempts = 0

def Counts.passed (c : Counts N) : Bool := 0 < c.solved

def Counts.successRate (c : Counts N) : Option N :=
  if c.effectiveAttempts ≤ 0 then none
  else some (Arith.round 2 (Arith.div (Arith.ofInt c.solved) (Arith.ofInt c.effectiveAttempts)))

def Counts.avgIterations (c : Counts N) : Option N :=
  if c.attempts = 0 then some (Arith.ofInt 0)
  else (Arith.divInt c.totalIterations c.attempts).map (Arith.round 1)

def Counts.avgDuration (c : Counts N) : N :=
  if c.attempts = 0 then Arith.ofInt 0 else Arith.round 1 (Arith.div c.totalDuration (Arith.ofInt c.attempts))

/-- Every live attempt solved. -/
def Counts.reliable (c : Counts N) : Bool := (c.solved : Int) = c.effectiveAttempts

/-! ### The class profile -/

/-- `[attempts, solved]` of a class. -/
structure Cell where
  attempts : Nat
  solved : Nat

def Cell.zero : Cell := ⟨0, 0⟩

def Cell.record (c : Cell) (solved : Bool) : Cell := ⟨c.attempts + 1, c.solved + if solved then 1 else 0⟩

/-- A cell of the profile with its rate. -/
structure ProfileCell (N : Type) where
  attempts : Nat
  solved : Nat
  successRate : N

def Cell.withRate (c : Cell) : ProfileCell N where
  attempts := c.attempts
  solved := c.solved
  successRate :=
    if c.attempts = 0 then Arith.ofInt 0
    else Arith.round 2 (Arith.div (Arith.ofInt c.solved) (Arith.ofInt c.attempts))

abbrev Profile (N : Type) := List (Name × List (Name × ProfileCell N))

/-- The body of the loop of `class_profile`. -/
def classify (taskMeta : Name → Option TaskMeta) (raw : List (Name × List (Name × Cell))) (r : Record N) :
    List (Name × List (Name × Cell)) :=
  match taskMeta r.taskName with
  | none => raw
  | some info =>
    if r.isInfra then raw
    else
      info.tags.foldl
        (fun raw tag => adjust [] r.modelName (fun cells => adjust Cell.zero tag (fun c => c.record r.solved) cells) raw) raw

def classProfile (records : List (Record N)) (taskMeta : Name → Option TaskMeta) : Profile N :=
  (sortedItems (records.foldl (classify taskMeta) [])).map fun item =>
    (item.1, (sortedItems item.2).map fun cell => (cell.1, cell.2.withRate))

/-! ### The report -/

/-- A group as the report lists it. -/
structure GroupReport (N : Type) where
  stats : GroupStats N
  successRate : Option N
  avgIterations : N
  avgDuration : N
  passed : Bool
  allSolved : Bool
  incomplete : Bool
  tags : List Name
  level : Option Int

structure CampaignReport (N : Type) where
  campaign : Name
  models : List Name
  tasks : List Name
  passAtK : N
  passAtOne : N
  passAtKReliability : N
  groups : List (GroupReport N)
  classProfile : Profile N
  unparseable : List (Name × Nat)

/-- `round(part / len(complete), 2)`, or 0 without a complete group. -/
def fractionOf (part : N) (complete : List (GroupStats N)) : N :=
  if complete.isEmpty then Arith.ofInt 0 else Arith.round 2 (Arith.div part (Arith.ofInt complete.length))

def passAtK (complete : List (GroupStats N)) : N :=
  fractionOf (Arith.ofInt (complete.countP fun s => s.passed)) complete

def passAtKReliability (complete : List (GroupStats N)) : N :=
  fractionOf (Arith.ofInt (complete.countP fun s => s.reliable)) complete

/-- A complete group has a success rate (`successRate_of_complete`), so nothing is skipped here. -/
def passAtOne (complete : List (GroupStats N)) : N :=
  fractionOf (Arith.sum (complete.filterMap fun s => s.successRate)) complete

def metaOf (taskMeta : Name → Option TaskMeta) (task : Name) : TaskMeta := (taskMeta task).getD ⟨[], none⟩

/-- The group with its average of iterations. -/
def GroupStats.report (taskMeta : Name → Option TaskMeta) (s : GroupStats N) (avgIterations : N) : GroupReport N where
  stats := s
  successRate := s.successRate
  avgIterations := avgIterations
  avgDuration := s.avgDuration
  passed := s.passed
  allSolved := s.passed && s.reliable
  incomplete := s.incomplete
  tags := (metaOf taskMeta s.task).tags
  level := (metaOf taskMeta s.task).level

def groupReport (taskMeta : Name → Option TaskMeta) (s : GroupStats N) : Option (GroupReport N) :=
  s.avgIterations.map (s.report taskMeta)

/-- The report of the groups. -/
def assemble (campaign : Name) (loaded : List (Record N) × List (Name × Nat)) (taskMeta : Name → Option TaskMeta)
    (stats : List (GroupStats N)) (groups : List (GroupReport N)) : CampaignReport N :=
  let complete := stats.filter fun s => !s.incomplete
  { campaign := campaign
    models := keys (fun s => s.model) stats
    tasks := keys (fun s => s.task) stats
    passAtK := passAtK complete
    passAtOne := passAtOne complete
    passAtKReliability := passAtKReliability complete
    groups := groups
    classProfile := classProfile loaded.1 taskMeta
    unparseable := loaded.2 }

/-- `build_report` with what `load_results` has read. -/
def buildReport (campaign : Name) (loaded : List (Record N) × List (Name × Nat)) (taskMeta : Name → Option TaskMeta) :
    Option (CampaignReport N) := do
  let stats ← aggregate loaded.1
  let groups ← stats.mapM (groupReport taskMeta)
  return assemble campaign loaded taskMeta stats groups

/-! ### The leaderboard -/

def htmlEscape (text : List Char) : List Char :=
  text.flatMap fun c =>
    match c with
    | '&' => "&amp;".toList
    | '<' => "&lt;".toList
    | '>' => "&gt;".toList
    | '"' => "&quot;".toList
    | '\'' => "&#x27;".toList
    | c => [c]

def leaderboardTags (profile : Profile N) : List Name := keys Prod.fst (profile.flatMap fun item => item.2)

/-- The pairs and the passed pairs of each model. -/
def leaderboardPairs (groups : List (GroupReport N)) : List (Name × Cell) :=
  tally Cell.zero (fun g => g.stats.model) (fun c g => c.record g.passed) (groups.filter fun g => !g.incomplete)

def profileColumn (profile : Profile N) (model tag : Name) : List Char :=
  match ((profile.lookup model).getD []).lookup tag with
  | some c =>
    "<td>".toList ++ (toString c.solved).toList ++ ['/'] ++ (toString c.attempts).toList ++ " (".toList
      ++ Arith.percent c.successRate ++ ")</td>".toList
  | none => "<td>-</td>".toList

def leaderboardRow (profile : Profile N) (model : Name) (pairs : Cell) : List Char :=
  "<tr><td>".toList ++ htmlEscape model ++ "</td><td>".toList
    ++ (if pairs.attempts = 0 then ['-']
        else Arith.percent (Arith.div (Arith.ofInt pairs.solved : N) (Arith.ofInt pairs.attempts)))
    ++ "</td>".toList ++ "<td>".toList ++ (toString pairs.attempts).toList ++ "</td>".toList
    ++ ((leaderboardTags profile).map (profileColumn profile model)).flatten ++ "</tr>".toList

/-- The rows of `render_leaderboard`. -/
def leaderboardRows (report : CampaignReport N) : List (List Char) :=
  (sortedItems (leaderboardPairs report.groups)).map fun item => leaderboardRow report.classProfile item.1 item.2

end Aggregate

end IronHarness.Report
