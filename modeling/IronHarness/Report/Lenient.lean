import IronHarness.Python.Json
import IronHarness.Report.Build
import IronHarness.Lib.Sorting
import IronHarness.Lib.Lines

/-!
# The report over any records

`load_results`, `aggregate`, `class_profile` and `build_report` (ironbench/report.py) over results files of any text, with
the exceptions that they do not catch.
-/

namespace IronHarness.Report.Lenient

open PyLiteral (CodePoint PyStr)
open Python (Json Exc points)
open Tally (adjust)
open Tasks (PyFloat)
open TextLines (Line isBlank splitlines)

deriving instance DecidableEq for PyFloat

abbrev Fields := List (PyStr × Json)

/-- `json.loads`, the arithmetic of floats and `sorted` of Python. -/
structure Libraries extends Python.Libraries where
  loads : Line → Except Exc Json
  loads_error : ∀ line e, loads line = .error e → e = .value ∨ e = .recursion
  round_unit : ∀ q : ℚ, 0 ≤ q → q ≤ 1 → (round q).isFinite = true
  add : PyFloat → PyFloat → PyFloat
  div : PyFloat → PyFloat → PyFloat
  roundTo : Nat → PyFloat → PyFloat
  sort : Sorting.Sorter

/-! ### Reading -/

/-- `rec.get(key, "?")` -/
def nameOf (key : String) (rec : Fields) : Json := (Python.lookup key rec).getD (.str (points "?"))

def isTruthy (key : String) (rec : Fields) : Bool := ((Python.lookup key rec).getD .null).truthy

/-- One line: a record, `none` where it is skipped, or a line that cannot be parsed. -/
inductive LineResult
  | record (rec : Fields)
  | skipped
  | bad

/-- What `load_results` makes of a line. -/
def loadLine (lib : Libraries) (line : Line) : Except Exc LineResult :=
  if isBlank line then .ok .skipped
  else
    match lib.loads line with
    | .error .value => .ok .bad
    | .error e => .error e
    | .ok (.obj rec) => .ok (if isTruthy "tombstone" rec then .skipped else .record rec)
    | .ok _ => .ok .bad

/-- A results file, with its path and its text. -/
structure ResultsFile where
  path : Name
  text : Line

/-- The body of the loop over the lines. -/
def readLine (lib : Libraries) (read : List Fields × Nat) (line : Line) : Except Exc (List Fields × Nat) := do
  match ← loadLine lib line with
  | .record rec => return (read.1 ++ [rec], read.2)
  | .skipped => return read
  | .bad => return (read.1, read.2 + 1)

def loadFile (lib : Libraries) (file : ResultsFile) : Except Exc (List Fields × Nat) :=
  (splitlines file.text).foldlM (readLine lib) ([], 0)

/-- The body of the loop over the files. -/
def readFile (lib : Libraries) (loaded : List Fields × List (Name × Nat)) (file : ResultsFile) :
    Except Exc (List Fields × List (Name × Nat)) := do
  let (records, bad) ← loadFile lib file
  return (loaded.1 ++ records, if bad = 0 then loaded.2 else loaded.2 ++ [(file.path, bad)])

/-- The comparison of two paths. -/
def ltName (a b : Name) : Option Bool := some (decide (a < b))

/-- `sorted(d.items())`, where the keys are strings -/
def sortNames {V : Type} (lib : Libraries) (items : List (Name × V)) : Except Exc (List (Name × V)) :=
  (lib.sort.sorted (fun a b => ltName a.1 b.1) items).elim (.error .type) .ok

/-- `load_results`; the files come in the order of their paths. -/
def loadResults (lib : Libraries) (files : List ResultsFile) : Except Exc (List Fields × List (Name × Nat)) := do
  let (records, unparseable) ← files.foldlM (readFile lib) ([], [])
  return (records, ← sortNames lib unparseable)

/-! ### The keys of a group -/

/-- A model or task as a dictionary key: numbers are one key where they are equal. -/
inductive Key
  | null
  | num (x : PyFloat)
  | str (s : PyStr)
  deriving DecidableEq

/-- The place of a key in an order of our own, for the dictionaries of the model only. -/
def Key.place : Key → ℕ ×ₗ ℚ ×ₗ PyStr
  | .null => toLex (0, toLex (0, []))
  | .num (.finite q) => toLex (1, toLex (q, []))
  | .num (.inf neg) => toLex (2, toLex (if neg then 0 else 1, []))
  | .num .nan => toLex (3, toLex (0, []))
  | .str s => toLex (4, toLex (0, s))

private theorem Key.place_injective : Function.Injective Key.place := by
  intro a b h
  rcases a with _ | (q | neg | _) | s <;> rcases b with _ | (r | neg' | _) | t <;>
    simp_all [Key.place, Prod.ext_iff]
  cases neg <;> cases neg' <;> simp_all

instance : LinearOrder Key := LinearOrder.lift' Key.place Key.place_injective

/-- `hash(value)`: lists and dictionaries have none. -/
def keyOf : Json → Except Exc Key
  | .null => .ok .null
  | .bool b => .ok (.num (.finite (if b then 1 else 0)))
  | .int n => .ok (.num (.finite n))
  | .float x => .ok (.num x)
  | .str s => .ok (.str s)
  | .arr _ | .obj _ => .error .type

/-- `a < b` -/
def ltKey : Key → Key → Option Bool
  | .num a, .num b => some (a.lt b)
  | .str a, .str b => some (decide (a < b))
  | _, _ => none

/-- `a < b` for tuples: the first items that differ are compared. -/
def ltPair (a b : Key ×ₗ Key) : Option Bool :=
  if (ofLex a).1 = (ofLex b).1 then ltKey (ofLex a).2 (ofLex b).2 else ltKey (ofLex a).1 (ofLex b).1

/-! ### The groups -/

/-- `_to_int` -/
def toInt (lib : Libraries) (value : Json) : Except Exc Int :=
  match Python.intOf lib.toLibraries value with
  | .error .overflow => .error .overflow
  | .error _ => .ok 0
  | .ok n => .ok n

/-- `_to_float` -/
def toFloat (lib : Libraries) (value : Json) : Except Exc PyFloat :=
  match Python.floatOf lib.toLibraries value with
  | .error .overflow => .error .overflow
  | .error _ => .ok (.finite 0)
  | .ok x => .ok x

/-- What a record adds to its group. -/
structure Attempt where
  model : Key
  task : Key
  solved : Bool
  iterations : Int
  duration : PyFloat
  isInfra : Bool

def Attempt.pair (a : Attempt) : Key ×ₗ Key := toLex (a.model, a.task)

/-- `rec.get("error_kind") == "infra"` -/
def isInfraKind (rec : Fields) : Bool :=
  match Python.lookup "error_kind" rec with
  | some (.str s) => s = points "infra"
  | _ => false

def readRecord (lib : Libraries) (rec : Fields) : Except Exc Attempt := do
  let model ← keyOf (nameOf "model" rec)
  let task ← keyOf (nameOf "task" rec)
  let iterations ← toInt lib ((Python.lookup "iterations" rec).getD .null)
  let duration ← toFloat lib ((Python.lookup "duration_sec" rec).getD .null)
  return ⟨model, task, isTruthy "solved" rec, iterations, duration, isInfraKind rec && !isTruthy "solved" rec⟩

def noCounts : Counts PyFloat := ⟨0, 0, 0, .finite 0, 0⟩

def addAttempt (lib : Libraries) (c : Counts PyFloat) (a : Attempt) : Counts PyFloat where
  attempts := c.attempts + 1
  solved := c.solved + if a.solved then 1 else 0
  totalIterations := c.totalIterations + a.iterations
  totalDuration := lib.add c.totalDuration a.duration
  infraFailures := c.infraFailures + if a.isInfra then 1 else 0

structure GroupStats extends Counts PyFloat where
  model : Key
  task : Key

/-- `sorted(groups.items())`: the keys are distinct, so the counts are not compared. -/
def sortGroups (lib : Libraries) (groups : List ((Key ×ₗ Key) × Counts PyFloat)) :
    Except Exc (List ((Key ×ₗ Key) × Counts PyFloat)) :=
  (lib.sort.sorted (fun a b => ltPair a.1 b.1) groups).elim (.error .type) .ok

/-- The body of the loop of `aggregate`. -/
def countRecord (lib : Libraries) (groups : List ((Key ×ₗ Key) × Counts PyFloat)) (rec : Fields) :
    Except Exc (List ((Key ×ₗ Key) × Counts PyFloat)) := do
  let attempt ← readRecord lib rec
  return adjust noCounts attempt.pair (fun c => addAttempt lib c attempt) groups

def aggregate (lib : Libraries) (records : List Fields) : Except Exc (List GroupStats) := do
  let groups ← records.foldlM (countRecord lib) []
  let items ← sortGroups lib groups
  return items.map fun item => { item.2 with model := (ofLex item.1).1, task := (ofLex item.1).2 }

/-! ### The numbers of a group -/

/-- `a / b` for integers -/
def trueDiv (lib : Libraries) (a b : Int) : Except Exc PyFloat :=
  let q := lib.round (a / b : ℚ)
  if q.isFinite then .ok q else .error .overflow

def successRate (lib : Libraries) (c : Counts PyFloat) : Except Exc (Option PyFloat) :=
  if c.effectiveAttempts ≤ 0 then .ok none
  else (trueDiv lib c.solved c.effectiveAttempts).map fun q => some (lib.roundTo 2 q)

def avgIterations (lib : Libraries) (c : Counts PyFloat) : Except Exc PyFloat :=
  if c.attempts = 0 then .ok (.finite 0) else (trueDiv lib c.totalIterations c.attempts).map (lib.roundTo 1)

def avgDuration (lib : Libraries) (c : Counts PyFloat) : PyFloat :=
  if c.attempts = 0 then .finite 0 else lib.roundTo 1 (lib.div c.totalDuration (.finite c.attempts))

/-! ### The class profile -/

/-- `cells` of a tag of the record's class. -/
def profileCell (lib : Libraries) (c : Cell) : Except Exc (ProfileCell PyFloat) :=
  if c.attempts = 0 then .ok ⟨c.attempts, c.solved, .finite 0⟩
  else (trueDiv lib c.solved c.attempts).map fun q => ⟨c.attempts, c.solved, lib.roundTo 2 q⟩

/-- The body of the loop over the tags of a class. -/
def classifyTag (rec : Fields) (raw : List (Key × List (Name × Cell))) (tag : Name) :
    Except Exc (List (Key × List (Name × Cell))) := do
  let model ← keyOf (nameOf "model" rec)
  return adjust [] model (adjust Cell.zero tag fun c => c.record (isTruthy "solved" rec)) raw

/-- The body of the loop of `class_profile`. -/
def classify (taskMeta : Key → Option TaskMeta) (raw : List (Key × List (Name × Cell))) (rec : Fields) :
    Except Exc (List (Key × List (Name × Cell))) := do
  let task ← keyOf (nameOf "task" rec)
  match taskMeta task with
  | none => return raw
  | some info =>
    if isInfraKind rec && !isTruthy "solved" rec then return raw
    info.tags.foldlM (classifyTag rec) raw

def profileRow (lib : Libraries) (item : Key × List (Name × Cell)) :
    Except Exc (Key × List (Name × ProfileCell PyFloat)) := do
  let cells ← sortNames lib item.2
  return (item.1, ← cells.mapM fun cell => (profileCell lib cell.2).map (cell.1, ·))

def classProfile (lib : Libraries) (records : List Fields) (taskMeta : Key → Option TaskMeta) :
    Except Exc (List (Key × List (Name × ProfileCell PyFloat))) := do
  let raw ← records.foldlM (classify taskMeta) []
  let items ← (lib.sort.sorted (fun a b => ltKey a.1 b.1) raw).elim (.error .type) .ok
  items.mapM (profileRow lib)

/-! ### The report -/

structure GroupReport where
  stats : GroupStats
  successRate : Option PyFloat
  avgIterations : PyFloat
  avgDuration : PyFloat
  passed : Bool
  allSolved : Bool
  incomplete : Bool
  tags : List Name
  level : Option Int

structure CampaignReport where
  models : List Key
  tasks : List Key
  passAtK : PyFloat
  passAtOne : PyFloat
  passAtKReliability : PyFloat
  groups : List GroupReport
  classProfile : List (Key × List (Name × ProfileCell PyFloat))
  unparseable : List (Name × Nat)

/-- `round(part / len(complete), 2)`, or 0 without a complete group. -/
def fractionOf (lib : Libraries) (part : Nat) (complete : List GroupStats) : Except Exc PyFloat :=
  if complete.isEmpty then .ok (.finite 0) else (trueDiv lib part complete.length).map (lib.roundTo 2)

def passAtOne (lib : Libraries) (complete : List GroupStats) : Except Exc PyFloat :=
  if complete.isEmpty then .ok (.finite 0)
  else do
    let rates ← complete.mapM fun s => successRate lib s.toCounts
    let sum := rates.foldl (fun x rate => lib.add x (rate.getD (.finite 0))) (.finite 0)
    return lib.roundTo 2 (lib.div sum (.finite complete.length))

/-- `sorted({...})` -/
def sortKeys (lib : Libraries) (keys : List Key) : Except Exc (List Key) :=
  (lib.sort.sorted ltKey keys.dedup).elim (.error .type) .ok

def metaOf (taskMeta : Key → Option TaskMeta) (task : Key) : TaskMeta := (taskMeta task).getD ⟨[], none⟩

def groupReport (lib : Libraries) (taskMeta : Key → Option TaskMeta) (s : GroupStats) : Except Exc GroupReport := do
  let rate ← successRate lib s.toCounts
  let iterations ← avgIterations lib s.toCounts
  return ⟨s, rate, iterations, avgDuration lib s.toCounts, s.passed, s.passed && s.reliable, s.incomplete,
    (metaOf taskMeta s.task).tags, (metaOf taskMeta s.task).level⟩

/-- `build_report` with what `load_results` has read. -/
def reportOf (lib : Libraries) (records : List Fields) (unparseable : List (Name × Nat))
    (taskMeta : Key → Option TaskMeta) : Except Exc CampaignReport := do
  let stats ← aggregate lib records
  let complete := stats.filter fun s => !s.incomplete
  let passAtK ← fractionOf lib (complete.countP fun s => s.passed) complete
  let reliability ← fractionOf lib (complete.countP fun s => s.reliable) complete
  let passAtOne ← passAtOne lib complete
  let models ← sortKeys lib (stats.map fun s => s.model)
  let tasks ← sortKeys lib (stats.map fun s => s.task)
  let groups ← stats.mapM (groupReport lib taskMeta)
  let profile ← classProfile lib records taskMeta
  return ⟨models, tasks, passAtK, passAtOne, reliability, groups, profile, unparseable⟩

def buildReport (lib : Libraries) (files : List ResultsFile) (taskMeta : Key → Option TaskMeta) :
    Except Exc CampaignReport := do
  let (records, unparseable) ← loadResults lib files
  reportOf lib records unparseable taskMeta

end IronHarness.Report.Lenient
