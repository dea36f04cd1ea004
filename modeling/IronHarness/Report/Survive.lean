import IronHarness.Report.Lenient
import IronHarness.Lib.FirstError

/-!
# Records that the report survives

The report of results files of any text returns exactly where no line is nested too deeply and the values of the records
are ones that Python can sort, convert and divide (`report_survives_iff`).
-/

namespace IronHarness.Report.Lenient

open FirstError (foldlM_eq_ok foldlM_runs)
open PyLiteral (PyStr)
open Python (Json Exc)
open Sorting (Comparable)
open Tally (adjust tally total Sums)
open Tasks (PyFloat)
open TextLines (Line isBlank splitlines)

/-! ### What is asked of the records -/

def isText : Json → Bool
  | .str _ => true
  | _ => false

def isNumber : Json → Bool
  | .bool _ | .int _ | .float _ => true
  | _ => false

def isNull : Json → Bool
  | .null => true
  | _ => false

/-- All strings, all numbers, or all null. -/
def Uniform (values : List Json) : Prop :=
  (∀ v ∈ values, isText v = true) ∨ (∀ v ∈ values, isNumber v = true) ∨ ∀ v ∈ values, isNull v = true

section

variable (lib : Libraries)

/-- The record of a line that is one. -/
def recordOf (line : Line) : Option Fields :=
  if isBlank line then none
  else
    match lib.loads line with
    | .ok (.obj rec) => if isTruthy "tombstone" rec then none else some rec
    | _ => none

/-- A line that is not blank and no JSON object. -/
def isBad (line : Line) : Bool :=
  !isBlank line &&
    match lib.loads line with
    | .ok (.obj _) => false
    | _ => true

def recordsOf (files : List ResultsFile) : List Fields := files.flatMap fun file => (splitlines file.text).filterMap (recordOf lib)

def badLines (file : ResultsFile) : Nat := (splitlines file.text).countP (isBad lib)

/-- The group that a record belongs to, where its model and task are keys. -/
def groupOf (rec : Fields) : Option Key × Option Key :=
  ((keyOf (nameOf "model" rec)).toOption, (keyOf (nameOf "task" rec)).toOption)

def iterationsOf (rec : Fields) : Int := (toInt lib ((Python.lookup "iterations" rec).getD .null)).toOption.getD 0

/-- The records of the group of a record. -/
def sameGroup (records : List Fields) (rec : Fields) : List Fields := records.filter fun r => groupOf r = groupOf rec

/-- The values of the records can be sorted, converted and divided. -/
structure Fine (records : List Fields) : Prop where
  models : Uniform (records.map (nameOf "model"))
  tasks : Uniform (records.map (nameOf "task"))
  iterations : ∀ rec ∈ records, ∀ neg, Python.lookup "iterations" rec ≠ some (.float (.inf neg))
  durations : ∀ rec ∈ records, ∀ n : Int, Python.lookup "duration_sec" rec = some (.int n) →
    (lib.round n).isFinite = true
  averages : ∀ rec ∈ records,
    (lib.round ((((sameGroup records rec).map (iterationsOf lib)).sum : Int) / ((sameGroup records rec).length : Int))).isFinite
      = true

/-- No line makes `json.loads` raise `RecursionError`. -/
def Shallow (files : List ResultsFile) : Prop :=
  ∀ file ∈ files, ∀ line ∈ splitlines file.text, isBlank line = false → lib.loads line ≠ .error .recursion

/-- The report is there, and the lines that are no objects are counted. -/
structure Survives (files : List ResultsFile) (taskMeta : Key → Option TaskMeta) : Prop where
  parts : ∃ loaded stats profile, loadResults lib files = .ok loaded ∧ aggregate lib loaded.1 = .ok stats ∧
    classProfile lib loaded.1 taskMeta = .ok profile
  report : ∃ report, buildReport lib files taskMeta = .ok report ∧
    report.unparseable.Perm ((files.map fun file => (file.path, badLines lib file)).filter fun item => item.2 ≠ 0)

end

/-! ### Loops that may raise -/

section

variable {S A B : Type} {f : S → A → Except Exc S} {xs : List A} {s : S}

def Returns (x : Except Exc A) : Prop := ∃ a, x = .ok a

private theorem returns_ok (a : A) : Returns (.ok a) := ⟨a, rfl⟩

private theorem not_returns_error (e : Exc) : ¬ Returns (.error e : Except Exc A) := nofun

private theorem returns_bind {x : Except Exc A} {g : A → Except Exc B} :
    Returns (x >>= g) ↔ ∃ a, x = .ok a ∧ Returns (g a) := FirstError.succeeds_bind

private theorem returns_map {x : Except Exc A} {g : A → B} : Returns (x.map g) ↔ Returns x := by
  cases x with
  | error e => exact ⟨nofun, nofun⟩
  | ok a => exact ⟨fun _ => returns_ok a, fun _ => returns_ok (g a)⟩

private theorem returns_elim {x : Option A} {e : Exc} : Returns (x.elim (.error e) .ok) ↔ x.isSome = true := by
  cases x with
  | none => exact ⟨nofun, nofun⟩
  | some a => exact ⟨fun _ => rfl, fun _ => returns_ok a⟩

/-- A loop returns where each of its steps does, if this does not depend on the state. -/
private theorem returns_foldlM {P : A → Prop} (h : ∀ s, ∀ a ∈ xs, Returns (f s a) ↔ P a) :
    Returns (xs.foldlM f s) ↔ ∀ a ∈ xs, P a := FirstError.succeeds_foldlM h

private theorem returns_mapM {f : A → Except Exc B} : Returns (xs.mapM f) ↔ ∀ a ∈ xs, Returns (f a) :=
  FirstError.succeeds_mapM

end

/-! ### Lines -/

section

variable {lib : Libraries} {line : Line} {lines : List Line} {files : List ResultsFile}

def LineResult.record? : LineResult → Option Fields
  | .record rec => some rec
  | _ => none

def LineResult.isBad : LineResult → Bool
  | .bad => true
  | _ => false

private theorem loadLine_eq (h : isBlank line = false → lib.loads line ≠ .error .recursion) :
    ∃ result : LineResult, loadLine lib line = .ok result ∧ result.record? = recordOf lib line ∧
      result.isBad = isBad lib line := by
  unfold loadLine recordOf isBad
  cases hblank : isBlank line with
  | true => exact ⟨.skipped, rfl, rfl, rfl⟩
  | false =>
    simp only [Bool.false_eq_true, if_false, Bool.not_false, Bool.true_and]
    cases hloads : lib.loads line with
    | error e =>
      rcases lib.loads_error line e hloads with rfl | rfl
      · exact ⟨.bad, rfl, rfl, rfl⟩
      · exact absurd hloads (h hblank)
    | ok value =>
      cases value with
      | obj rec =>
        cases htomb : isTruthy "tombstone" rec with
        | true => exact ⟨.skipped, by simp [htomb], by simp [htomb, LineResult.record?], rfl⟩
        | false => exact ⟨.record rec, by simp [htomb], by simp [htomb, LineResult.record?], rfl⟩
      | _ => exact ⟨.bad, rfl, rfl, rfl⟩

private theorem returns_loadLine :
    Returns (loadLine lib line) ↔ (isBlank line = false → lib.loads line ≠ .error .recursion) := by
  constructor
  · rintro ⟨result, hresult⟩ hblank hloads
    rw [loadLine, hblank, hloads] at hresult
    cases hresult
  · intro h
    obtain ⟨result, hresult, -⟩ := loadLine_eq h
    exact ⟨result, hresult⟩

/-- What a line adds to the records and to the count of a file. -/
def addLine (read : List Fields × Nat) (lib : Libraries) (line : Line) : List Fields × Nat :=
  (read.1 ++ (recordOf lib line).toList, read.2 + if isBad lib line then 1 else 0)

private theorem foldl_addLine (read : List Fields × Nat) :
    lines.foldl (fun read line => addLine read lib line) read =
      (read.1 ++ lines.filterMap (recordOf lib), read.2 + lines.countP (isBad lib)) := by
  induction lines generalizing read with
  | nil => simp
  | cons line lines ih =>
    rw [List.foldl_cons, ih, addLine, List.filterMap_cons, List.countP_cons]
    cases recordOf lib line <;> simp <;> omega

private theorem returns_loadFile {file : ResultsFile} : Returns (loadFile lib file) ↔
    ∀ line ∈ splitlines file.text, isBlank line = false → lib.loads line ≠ .error .recursion := by
  apply returns_foldlM
  intro read line _
  rw [readLine, returns_bind, ← returns_loadLine]
  constructor
  · rintro ⟨result, hresult, -⟩
    exact ⟨result, hresult⟩
  · rintro ⟨result, hresult⟩
    refine ⟨result, hresult, ?_⟩
    cases result <;> exact returns_ok _

private theorem loadFile_eq {file : ResultsFile}
    (h : ∀ line ∈ splitlines file.text, isBlank line = false → lib.loads line ≠ .error .recursion) :
    loadFile lib file = .ok ((splitlines file.text).filterMap (recordOf lib), badLines lib file) := by
  have hstep : ∀ read, ∀ line ∈ splitlines file.text, readLine lib read line = .ok (addLine read lib line) := by
    intro read line hline
    obtain ⟨result, hresult, hrecord, hbad⟩ := loadLine_eq (h line hline)
    rw [readLine, addLine, ← hrecord, ← hbad, hresult]
    cases result <;> simp [LineResult.record?, LineResult.isBad, bind, Except.bind, pure, Except.pure]
  rw [loadFile, foldlM_eq_ok hstep, foldl_addLine]
  simp [badLines]

/-- What a file adds to what is loaded. -/
def addFile (loaded : List Fields × List (Name × Nat)) (lib : Libraries) (file : ResultsFile) :
    List Fields × List (Name × Nat) :=
  (loaded.1 ++ (splitlines file.text).filterMap (recordOf lib),
    if badLines lib file = 0 then loaded.2 else loaded.2 ++ [(file.path, badLines lib file)])

private theorem foldl_addFile (loaded : List Fields × List (Name × Nat)) :
    files.foldl (fun loaded file => addFile loaded lib file) loaded =
      (loaded.1 ++ recordsOf lib files,
        loaded.2 ++ (files.map fun file => (file.path, badLines lib file)).filter fun item => item.2 ≠ 0) := by
  induction files generalizing loaded with
  | nil => simp [recordsOf]
  | cons file files ih =>
    rw [List.foldl_cons, ih, addFile, List.map_cons, List.filter_cons, recordsOf, recordsOf, List.flatMap_cons]
    by_cases hbad : badLines lib file = 0 <;> simp [hbad]

private theorem returns_sortNames {V : Type} (items : List (Name × V)) : Returns (sortNames lib items) := by
  rw [sortNames, returns_elim]
  apply lib.sort.returns
  exact List.pairwise_of_forall_mem_list fun a _ b _ => ⟨rfl, rfl⟩

/-- The results are loaded exactly where no line is nested too deeply. -/
private theorem returns_loadResults : Returns (loadResults lib files) ↔ Shallow lib files := by
  have hstep : ∀ loaded, ∀ file ∈ files, Returns (readFile lib loaded file) ↔
      ∀ line ∈ splitlines file.text, isBlank line = false → lib.loads line ≠ .error .recursion := by
    intro loaded file _
    rw [← returns_loadFile, readFile, returns_bind]
    constructor
    · rintro ⟨read, hread, -⟩
      exact ⟨read, hread⟩
    · rintro ⟨read, hread⟩
      exact ⟨read, hread, returns_ok _⟩
  rw [Shallow, ← returns_foldlM hstep, loadResults, returns_bind]
  constructor
  · rintro ⟨loaded, hloaded, -⟩
    exact ⟨loaded, hloaded⟩
  · rintro ⟨loaded, hloaded⟩
    obtain ⟨sorted, hsorted⟩ : Returns (sortNames lib loaded.2) := returns_sortNames _
    exact ⟨loaded, hloaded, returns_bind.2 ⟨sorted, hsorted, returns_ok _⟩⟩

private theorem loadResults_eq (h : Shallow lib files) :
    ∃ unparseable, loadResults lib files = .ok (recordsOf lib files, unparseable) ∧
      unparseable.Perm ((files.map fun file => (file.path, badLines lib file)).filter fun item => item.2 ≠ 0) := by
  have hstep : ∀ loaded, ∀ file ∈ files, readFile lib loaded file = .ok (addFile loaded lib file) := by
    intro loaded file hfile
    rw [readFile, loadFile_eq (h file hfile)]
    rfl
  have hfold := foldlM_eq_ok (s := ([], [])) hstep
  rw [foldl_addFile] at hfold
  obtain ⟨sorted, hsorted⟩ : Returns (sortNames lib
    ((files.map fun file => (file.path, badLines lib file)).filter fun item => item.2 ≠ 0)) := returns_sortNames _
  refine ⟨sorted, ?_, ?_⟩
  · rw [loadResults, hfold]
    simp only [List.nil_append, bind, Except.bind, hsorted]
    rfl
  · rw [sortNames] at hsorted
    cases hsort : lib.sort.sorted (fun a b => ltName a.1 b.1)
        ((files.map fun file => (file.path, badLines lib file)).filter fun item => item.2 ≠ 0) with
    | none =>
      rw [hsort] at hsorted
      cases hsorted
    | some items =>
      rw [hsort] at hsorted
      cases hsorted
      exact lib.sort.perm _ _ _ hsort

end

/-! ### Keys -/

section

variable {lib : Libraries} {values : List Json} {keys : List Key}

private theorem ltKey_symm (a b : Key) (h : (ltKey a b).isSome = true) : (ltKey b a).isSome = true := by
  cases a <;> cases b <;> first | rfl | cases h

private theorem ltKey_trans (a b c : Key) (hab : (ltKey a b).isSome = true) (hbc : (ltKey b c).isSome = true) :
    (ltKey a c).isSome = true := by
  cases a <;> cases b <;> cases c <;> simp_all [ltKey]

private theorem returns_sortKeys : Returns (sortKeys lib keys) ↔ Comparable ltKey keys := by
  rw [sortKeys, returns_elim, Sorting.isSome_sorted_iff lib.sort (List.nodup_dedup keys) ltKey_symm ltKey_trans]
  unfold Comparable
  simp only [List.mem_dedup]

private theorem keyOf_text {v : Json} (h : isText v = true) : ∃ s, keyOf v = .ok (.str s) := by
  cases v with
  | str s => exact ⟨s, rfl⟩
  | _ => cases h

private theorem keyOf_number {v : Json} (h : isNumber v = true) : ∃ x, keyOf v = .ok (.num x) := by
  cases v with
  | bool b => exact ⟨_, rfl⟩
  | int n => exact ⟨_, rfl⟩
  | float x => exact ⟨x, rfl⟩
  | _ => cases h

private theorem keyOf_null {v : Json} (h : isNull v = true) : keyOf v = .ok .null := by
  cases v with
  | null => rfl
  | _ => cases h

private theorem isText_of_keyOf {v : Json} {s : PyStr} (h : keyOf v = .ok (.str s)) : isText v = true := by
  cases v <;> first | rfl | cases h

private theorem isNumber_of_keyOf {v : Json} {x : PyFloat} (h : keyOf v = .ok (.num x)) : isNumber v = true := by
  cases v <;> first | rfl | cases h

private theorem isNull_of_keyOf {v : Json} (h : keyOf v = .ok .null) : isNull v = true := by
  cases v <;> first | rfl | cases h

/-- Values are all of one kind exactly where they are keys any two of which can be compared. -/
private theorem uniform_iff : Uniform values ↔ (∀ v ∈ values, Returns (keyOf v)) ∧
    Comparable ltKey (values.filterMap fun v => (keyOf v).toOption) := by
  have hmem : ∀ {k}, k ∈ values.filterMap (fun v => (keyOf v).toOption) ↔ ∃ v ∈ values, keyOf v = .ok k := by
    intro k
    rw [List.mem_filterMap]
    refine exists_congr fun v => and_congr_right fun _ => ?_
    cases keyOf v <;> simp [Except.toOption]
  constructor
  · intro hall
    constructor
    · intro v hv
      rcases hall with hall | hall | hall
      · obtain ⟨s, hs⟩ := keyOf_text (hall v hv)
        exact ⟨_, hs⟩
      · obtain ⟨x, hx⟩ := keyOf_number (hall v hv)
        exact ⟨_, hx⟩
      · exact ⟨_, keyOf_null (hall v hv)⟩
    · intro a ha b hb hne
      obtain ⟨v, hv, hva⟩ := hmem.1 ha
      obtain ⟨w, hw, hwb⟩ := hmem.1 hb
      rcases hall with hall | hall | hall
      · obtain ⟨s, hs⟩ := keyOf_text (hall v hv)
        obtain ⟨t, ht⟩ := keyOf_text (hall w hw)
        cases hva.symm.trans hs
        cases hwb.symm.trans ht
        rfl
      · obtain ⟨x, hx⟩ := keyOf_number (hall v hv)
        obtain ⟨y, hy⟩ := keyOf_number (hall w hw)
        cases hva.symm.trans hx
        cases hwb.symm.trans hy
        rfl
      · cases hva.symm.trans (keyOf_null (hall v hv))
        cases hwb.symm.trans (keyOf_null (hall w hw))
        exact absurd rfl hne
  · rintro ⟨hkeys, hcomparable⟩
    cases values with
    | nil => exact .inl (by simp)
    | cons v₀ values =>
      obtain ⟨k₀, hk₀⟩ := hkeys v₀ List.mem_cons_self
      have hother : ∀ v ∈ v₀ :: values, ∃ k, keyOf v = .ok k ∧ (k = k₀ ∨ (ltKey k k₀).isSome = true) := by
        intro v hv
        obtain ⟨k, hk⟩ := hkeys v hv
        refine ⟨k, hk, ?_⟩
        by_cases heq : k = k₀
        · exact .inl heq
        · exact .inr (hcomparable k (hmem.2 ⟨v, hv, hk⟩) k₀ (hmem.2 ⟨v₀, List.mem_cons_self, hk₀⟩) heq)
      cases k₀ with
      | str s₀ =>
        refine .inl fun v hv => ?_
        obtain ⟨k, hk, rfl | hlt⟩ := hother v hv
        · exact isText_of_keyOf hk
        · cases k with
          | str s => exact isText_of_keyOf hk
          | _ => cases hlt
      | num x₀ =>
        refine .inr (.inl fun v hv => ?_)
        obtain ⟨k, hk, rfl | hlt⟩ := hother v hv
        · exact isNumber_of_keyOf hk
        · cases k with
          | num x => exact isNumber_of_keyOf hk
          | _ => cases hlt
      | null =>
        refine .inr (.inr fun v hv => ?_)
        obtain ⟨k, hk, rfl | hlt⟩ := hother v hv
        · exact isNull_of_keyOf hk
        · cases k <;> cases hlt

end

/-! ### The groups -/

section

variable {lib : Libraries} {records : List Fields} {rec : Fields}

private theorem returns_toInt {value : Json} :
    Returns (toInt lib value) ↔ Python.intOf lib.toLibraries value ≠ .error .overflow := by
  unfold toInt
  split
  · rename_i h
    exact ⟨fun hreturns => absurd hreturns (not_returns_error _), fun hne => absurd h hne⟩
  · rename_i e hne h
    refine ⟨fun _ heq => ?_, fun _ => returns_ok 0⟩
    rw [h] at heq
    exact hne (Except.error.inj heq)
  · rename_i n h
    refine ⟨fun _ heq => ?_, fun _ => returns_ok n⟩
    rw [h] at heq
    cases heq

private theorem returns_toFloat {value : Json} :
    Returns (toFloat lib value) ↔ Python.floatOf lib.toLibraries value ≠ .error .overflow := by
  unfold toFloat
  split
  · rename_i h
    exact ⟨fun hreturns => absurd hreturns (not_returns_error _), fun hne => absurd h hne⟩
  · rename_i e hne h
    refine ⟨fun _ heq => ?_, fun _ => returns_ok _⟩
    rw [h] at heq
    exact hne (Except.error.inj heq)
  · rename_i n h
    refine ⟨fun _ heq => ?_, fun _ => returns_ok n⟩
    rw [h] at heq
    cases heq

private theorem intOf_overflow {value : Json} :
    Python.intOf lib.toLibraries value = .error .overflow ↔ ∃ neg, value = .float (.inf neg) := by
  cases value with
  | float x => cases x <;> simp [Python.intOf]
  | str s => cases h : lib.intOfText s <;> simp [Python.intOf, h]
  | _ => simp [Python.intOf]

private theorem floatOf_overflow {value : Json} :
    Python.floatOf lib.toLibraries value = .error .overflow ↔ ∃ n : Int, value = .int n ∧ (lib.round n).isFinite = false := by
  cases value with
  | int n =>
    cases h : (lib.round n).isFinite <;> simp [Python.floatOf, h]
  | str s => cases h : lib.floatOfText s <;> simp [Python.floatOf, h]
  | _ => simp [Python.floatOf]

/-- The record has a key, and its numbers can be converted. -/
structure Readable (lib : Libraries) (rec : Fields) : Prop where
  model : Returns (keyOf (nameOf "model" rec))
  task : Returns (keyOf (nameOf "task" rec))
  iterations : ∀ neg, Python.lookup "iterations" rec ≠ some (.float (.inf neg))
  duration : ∀ n : Int, Python.lookup "duration_sec" rec = some (.int n) → (lib.round n).isFinite = true

private theorem returns_iterations : Returns (toInt lib ((Python.lookup "iterations" rec).getD .null)) ↔
    ∀ neg, Python.lookup "iterations" rec ≠ some (.float (.inf neg)) := by
  rw [returns_toInt, Ne, intOf_overflow, not_exists]
  cases Python.lookup "iterations" rec <;> simp

private theorem returns_duration : Returns (toFloat lib ((Python.lookup "duration_sec" rec).getD .null)) ↔
    ∀ n : Int, Python.lookup "duration_sec" rec = some (.int n) → (lib.round n).isFinite = true := by
  rw [returns_toFloat, Ne, floatOf_overflow]
  cases Python.lookup "duration_sec" rec <;> simp

private theorem returns_readRecord : Returns (readRecord lib rec) ↔ Readable lib rec := by
  simp only [readRecord, returns_bind]
  constructor
  · rintro ⟨model, hmodel, task, htask, iterations, hiterations, duration, hduration, -⟩
    exact ⟨⟨model, hmodel⟩, ⟨task, htask⟩, returns_iterations.1 ⟨iterations, hiterations⟩,
      returns_duration.1 ⟨duration, hduration⟩⟩
  · rintro ⟨⟨model, hmodel⟩, ⟨task, htask⟩, hiterations, hduration⟩
    obtain ⟨iterations, hiterations⟩ := returns_iterations.2 hiterations
    obtain ⟨duration, hduration⟩ := returns_duration.2 hduration
    exact ⟨model, hmodel, task, htask, iterations, hiterations, duration, hduration, returns_ok _⟩

/-- What a record adds, if it can be read. -/
def attemptOf (lib : Libraries) (rec : Fields) : Attempt :=
  (readRecord lib rec).toOption.getD ⟨.null, .null, false, 0, .finite 0, false⟩

private theorem readRecord_eq (h : Readable lib rec) : readRecord lib rec = .ok (attemptOf lib rec) := by
  obtain ⟨attempt, hattempt⟩ := returns_readRecord.2 h
  rw [attemptOf, hattempt]
  rfl

/-- The parts of an attempt. -/
structure Parts (lib : Libraries) (rec : Fields) (attempt : Attempt) : Prop where
  model : keyOf (nameOf "model" rec) = .ok attempt.model
  task : keyOf (nameOf "task" rec) = .ok attempt.task
  iterations : iterationsOf lib rec = attempt.iterations
  solved : attempt.isInfra = true → attempt.solved = false

theorem parts (h : Readable lib rec) : Parts lib rec (attemptOf lib rec) := by
  have hread := readRecord_eq h
  obtain ⟨⟨model, hmodel⟩, ⟨task, htask⟩, hiterations, hduration⟩ := h
  obtain ⟨iterations, hiterations⟩ : Returns (toInt lib _) := returns_iterations.2 hiterations
  obtain ⟨duration, hduration⟩ := returns_duration.2 hduration
  simp only [readRecord, hmodel, htask, hiterations, hduration, bind, Except.bind, pure, Except.pure,
    Except.ok.injEq] at hread
  rw [← hread]
  refine ⟨hmodel, htask, ?_, ?_⟩
  · rw [iterationsOf, hiterations]
    rfl
  · simp

private theorem groupOf_eq (h : Readable lib rec) :
    groupOf rec = (some (attemptOf lib rec).model, some (attemptOf lib rec).task) := by
  rw [groupOf, (parts h).model, (parts h).task]
  rfl

def groupsOf (lib : Libraries) (records : List Fields) : List ((Key ×ₗ Key) × Counts PyFloat) :=
  tally noCounts (fun rec => (attemptOf lib rec).pair) (fun c rec => addAttempt lib c (attemptOf lib rec)) records

/-- The counts of some records of a group. -/
structure Counted (lib : Libraries) (records : List Fields) (c : Counts PyFloat) : Prop where
  attempts : c.attempts = records.length
  iterations : c.totalIterations = (records.map (iterationsOf lib)).sum
  live : c.solved + c.infraFailures ≤ c.attempts

theorem Counted.add {c : Counts PyFloat} (hcounted : Counted lib records c) (h : Readable lib rec) :
    Counted lib (records ++ [rec]) (addAttempt lib c (attemptOf lib rec)) := by
  obtain ⟨hattempts, hiterations, hlive⟩ := hcounted
  obtain ⟨-, -, hrec, hsolved⟩ := parts h
  constructor
  · simp [addAttempt, hattempts]
  · simp [addAttempt, hiterations, hrec]
  · cases hinfra : (attemptOf lib rec).isInfra with
    | true =>
      simp only [addAttempt, hsolved hinfra, hinfra, Bool.false_eq_true, if_false, if_true]
      omega
    | false =>
      simp only [addAttempt, hinfra, Bool.false_eq_true, if_false]
      split <;> omega

private theorem counted_foldl (h : ∀ rec ∈ records, Readable lib rec) :
    Counted lib records (records.foldl (fun c rec => addAttempt lib c (attemptOf lib rec)) noCounts) := by
  induction records using List.reverseRecOn with
  | nil => exact ⟨rfl, rfl, Nat.le_refl 0⟩
  | append_singleton records rec ih =>
    rw [List.forall_mem_append, List.forall_mem_singleton] at h
    rw [List.foldl_append]
    exact (ih h.1).add h.2

private theorem foldlM_countRecord (h : ∀ rec ∈ records, Readable lib rec) :
    records.foldlM (countRecord lib) [] = .ok (groupsOf lib records) := by
  apply foldlM_eq_ok
  intro groups rec hrec
  rw [countRecord, readRecord_eq (h rec hrec)]
  rfl

private theorem returns_foldlM_countRecord :
    Returns (records.foldlM (countRecord lib) []) ↔ ∀ rec ∈ records, Readable lib rec := by
  apply returns_foldlM
  intro groups rec _
  rw [countRecord, returns_bind, ← returns_readRecord]
  exact ⟨fun ⟨attempt, h, _⟩ => ⟨attempt, h⟩, fun ⟨attempt, h⟩ => ⟨attempt, h, returns_ok _⟩⟩

/-- The groups of an aggregate: the models and tasks of the records, each group with the counts of its records. -/
structure Aggregated (lib : Libraries) (records : List Fields) (stats : List GroupStats) : Prop where
  models : ∀ k, k ∈ stats.map (fun s => s.model) ↔ ∃ rec ∈ records, (attemptOf lib rec).model = k
  tasks : ∀ k, k ∈ stats.map (fun s => s.task) ↔ ∃ rec ∈ records, (attemptOf lib rec).task = k
  counted : ∀ s ∈ stats, ∃ rec ∈ records, Counted lib (sameGroup records rec) s.toCounts
  group : ∀ rec ∈ records, ∃ s ∈ stats, Counted lib (sameGroup records rec) s.toCounts

private theorem sameGroup_eq (h : ∀ rec ∈ records, Readable lib rec) {rec : Fields} (hrec : rec ∈ records) :
    sameGroup records rec = Tally.group (fun rec => (attemptOf lib rec).pair) records (attemptOf lib rec).pair := by
  apply List.filter_congr
  intro r hr
  rw [groupOf_eq (h r hr), groupOf_eq (h rec hrec)]
  simp [Attempt.pair]

private theorem counted_group (h : ∀ rec ∈ records, Readable lib rec) {item : (Key ×ₗ Key) × Counts PyFloat}
    (hitem : item ∈ groupsOf lib records) {rec : Fields} (hrec : rec ∈ records)
    (hpair : (attemptOf lib rec).pair = item.1) : Counted lib (sameGroup records rec) item.2 := by
  have hsums : Sums noCounts (fun rec => (attemptOf lib rec).pair)
      (fun c rec => addAttempt lib c (attemptOf lib rec)) records (groupsOf lib records) := Tally.sums_tally
  rw [hsums.value item hitem, sameGroup_eq h hrec, hpair]
  exact counted_foldl fun r hr => h r (List.mem_of_mem_filter hr)

private theorem aggregated_of_perm (h : ∀ rec ∈ records, Readable lib rec)
    {items : List ((Key ×ₗ Key) × Counts PyFloat)}
    (hperm : items.Perm (groupsOf lib records)) :
    Aggregated lib records (items.map fun item => { item.2 with model := (ofLex item.1).1, task := (ofLex item.1).2 }) := by
  have hsums : Sums noCounts (fun rec => (attemptOf lib rec).pair)
      (fun c rec => addAttempt lib c (attemptOf lib rec)) records (groupsOf lib records) := Tally.sums_tally
  have hof : ∀ item ∈ items, ∃ rec ∈ records, (attemptOf lib rec).pair = item.1 := by
    intro item hitem
    exact List.mem_map.1 ((hsums.mem_iff _).1 (List.mem_map_of_mem (hperm.mem_iff.1 hitem)))
  have hto : ∀ rec ∈ records, ∃ item ∈ items, (attemptOf lib rec).pair = item.1 := by
    intro rec hrec
    obtain ⟨item, hitem, heq⟩ := List.mem_map.1 ((hsums.mem_iff _).2 (List.mem_map_of_mem hrec))
    exact ⟨item, hperm.mem_iff.2 hitem, heq.symm⟩
  constructor
  · intro k
    rw [List.map_map, List.mem_map]
    constructor
    · rintro ⟨item, hitem, rfl⟩
      obtain ⟨rec, hrec, hpair⟩ := hof item hitem
      exact ⟨rec, hrec, congrArg (fun p => (ofLex p).1) hpair⟩
    · rintro ⟨rec, hrec, rfl⟩
      obtain ⟨item, hitem, hpair⟩ := hto rec hrec
      exact ⟨item, hitem, (congrArg (fun p => (ofLex p).1) hpair).symm⟩
  · intro k
    rw [List.map_map, List.mem_map]
    constructor
    · rintro ⟨item, hitem, rfl⟩
      obtain ⟨rec, hrec, hpair⟩ := hof item hitem
      exact ⟨rec, hrec, congrArg (fun p => (ofLex p).2) hpair⟩
    · rintro ⟨rec, hrec, rfl⟩
      obtain ⟨item, hitem, hpair⟩ := hto rec hrec
      exact ⟨item, hitem, (congrArg (fun p => (ofLex p).2) hpair).symm⟩
  · intro s hs
    obtain ⟨item, hitem, rfl⟩ := List.mem_map.1 hs
    obtain ⟨rec, hrec, hpair⟩ := hof item hitem
    exact ⟨rec, hrec, counted_group h (hperm.mem_iff.1 hitem) hrec hpair⟩
  · intro rec hrec
    obtain ⟨item, hitem, hpair⟩ := hto rec hrec
    exact ⟨_, List.mem_map_of_mem hitem, counted_group h (hperm.mem_iff.1 hitem) hrec hpair⟩

private theorem aggregate_eq_ok {stats : List GroupStats} (h : aggregate lib records = .ok stats) :
    (∀ rec ∈ records, Readable lib rec) ∧ Aggregated lib records stats := by
  have hreturns : Returns (aggregate lib records) := ⟨stats, h⟩
  rw [aggregate, returns_bind] at hreturns
  obtain ⟨groups, hgroups, -⟩ := hreturns
  have hread := returns_foldlM_countRecord.1 ⟨groups, hgroups⟩
  refine ⟨hread, ?_⟩
  rw [aggregate, foldlM_countRecord hread] at h
  cases hsort : lib.sort.sorted (fun a b => ltPair a.1 b.1) (groupsOf lib records) with
  | none =>
    simp only [bind, Except.bind, sortGroups, hsort] at h
    cases h
  | some items =>
    simp only [bind, Except.bind, sortGroups, hsort] at h
    cases h
    exact aggregated_of_perm hread (lib.sort.perm _ _ _ hsort)

private theorem comparable_pairs {items : List ((Key ×ₗ Key) × Counts PyFloat)} (hnodup : (items.map Prod.fst).Nodup)
    (hmodels : Comparable ltKey (items.map fun item => (ofLex item.1).1))
    (htasks : Comparable ltKey (items.map fun item => (ofLex item.1).2)) :
    items.Pairwise fun a b => (ltPair a.1 b.1).isSome = true ∧ (ltPair b.1 a.1).isSome = true := by
  have hlt : ∀ a ∈ items, ∀ b ∈ items, a.1 ≠ b.1 → (ltPair a.1 b.1).isSome = true := by
    intro a ha b hb hne
    unfold ltPair
    split
    · rename_i heq
      apply htasks _ (List.mem_map_of_mem ha) _ (List.mem_map_of_mem hb)
      intro htask
      exact hne (ofLex.injective (Prod.ext heq htask))
    · rename_i hmodel
      exact hmodels _ (List.mem_map_of_mem ha) _ (List.mem_map_of_mem hb) hmodel
  rw [List.nodup_iff_pairwise_ne, List.pairwise_map] at hnodup
  apply hnodup.imp_of_mem
  intro a b ha hb hne
  exact ⟨hlt a ha b hb hne, hlt b hb a ha (Ne.symm hne)⟩

/-- The keys of some values. -/
private theorem comparable_of_keys {values : List Json} {keys : List Key} (hvalues : Uniform values)
    (h : ∀ k ∈ keys, ∃ v ∈ values, keyOf v = .ok k) : Comparable ltKey keys := by
  have hcomparable := (uniform_iff.1 hvalues).2
  have hmem : ∀ k ∈ keys, k ∈ values.filterMap fun v => (keyOf v).toOption := by
    intro k hk
    obtain ⟨v, hv, hkey⟩ := h k hk
    exact List.mem_filterMap.2 ⟨v, hv, by rw [hkey]; rfl⟩
  intro a ha b hb hne
  exact hcomparable a (hmem a ha) b (hmem b hb) hne

private theorem returns_aggregate (hread : ∀ rec ∈ records, Readable lib rec)
    (hmodels : Uniform (records.map (nameOf "model")))
    (htasks : Uniform (records.map (nameOf "task"))) : Returns (aggregate lib records) := by
  have hsums : Sums noCounts (fun rec => (attemptOf lib rec).pair)
      (fun c rec => addAttempt lib c (attemptOf lib rec)) records (groupsOf lib records) := Tally.sums_tally
  have hof : ∀ item ∈ groupsOf lib records, ∃ rec ∈ records, (attemptOf lib rec).pair = item.1 := fun item hitem =>
    List.mem_map.1 ((hsums.mem_iff _).1 (List.mem_map_of_mem hitem))
  have hmodelKeys : Comparable ltKey ((groupsOf lib records).map fun item => (ofLex item.1).1) := by
    refine comparable_of_keys hmodels fun k hk => ?_
    obtain ⟨item, hitem, rfl⟩ := List.mem_map.1 hk
    obtain ⟨rec, hrec, hpair⟩ := hof item hitem
    refine ⟨_, List.mem_map_of_mem hrec, ?_⟩
    rw [(parts (hread rec hrec)).model, ← hpair]
    rfl
  have htaskKeys : Comparable ltKey ((groupsOf lib records).map fun item => (ofLex item.1).2) := by
    refine comparable_of_keys htasks fun k hk => ?_
    obtain ⟨item, hitem, rfl⟩ := List.mem_map.1 hk
    obtain ⟨rec, hrec, hpair⟩ := hof item hitem
    refine ⟨_, List.mem_map_of_mem hrec, ?_⟩
    rw [(parts (hread rec hrec)).task, ← hpair]
    rfl
  obtain ⟨items, hitems⟩ := Option.isSome_iff_exists.1
    (lib.sort.returns _ _ (comparable_pairs hsums.nodup hmodelKeys htaskKeys))
  rw [aggregate, foldlM_countRecord hread, returns_bind]
  refine ⟨_, rfl, returns_bind.2 ⟨items, ?_, returns_ok _⟩⟩
  rw [sortGroups, hitems]
  rfl

end

/-! ### The numbers -/

section

variable {lib : Libraries} {records : List Fields} {c : Counts PyFloat}

/-- A rate is divided without an overflow. -/
private theorem returns_trueDiv {part whole : Int} (hpart : 0 ≤ part) (hle : part ≤ whole) :
    Returns (trueDiv lib part whole) := by
  have hpart' : (0 : ℚ) ≤ part := by exact_mod_cast hpart
  have hle' : (part : ℚ) ≤ whole := by exact_mod_cast hle
  have hfinite : (lib.round (part / whole : ℚ)).isFinite = true :=
    lib.round_unit _ (div_nonneg hpart' (hpart'.trans hle')) (div_le_one_of_le₀ hle' (hpart'.trans hle'))
  rw [trueDiv, if_pos hfinite]
  exact returns_ok _

private theorem returns_successRate (hlive : c.solved + c.infraFailures ≤ c.attempts) :
    Returns (successRate lib c) := by
  unfold successRate
  split
  · exact returns_ok none
  · rw [returns_map]
    apply returns_trueDiv (Int.natCast_nonneg _)
    unfold Counts.effectiveAttempts
    omega

private theorem returns_avgIterations (hattempts : c.attempts ≠ 0) :
    Returns (avgIterations lib c) ↔ (lib.round (c.totalIterations / (c.attempts : Int) : ℚ)).isFinite = true := by
  rw [avgIterations, if_neg hattempts, returns_map, trueDiv]
  split
  · rename_i hfinite
    exact ⟨fun _ => hfinite, fun _ => returns_ok _⟩
  · rename_i hfinite
    exact ⟨fun h => absurd h (not_returns_error _), fun h => absurd h hfinite⟩

private theorem returns_fractionOf (lib : Libraries) (complete : List GroupStats) (p : GroupStats → Bool) :
    Returns (fractionOf lib (complete.countP p) complete) := by
  unfold fractionOf
  split
  · exact returns_ok _
  · rw [returns_map]
    exact returns_trueDiv (Int.natCast_nonneg _) (by exact_mod_cast List.countP_le_length)

private theorem returns_passAtOne {complete : List GroupStats}
    (h : ∀ s ∈ complete, s.solved + s.infraFailures ≤ s.attempts) :
    Returns (passAtOne lib complete) := by
  unfold passAtOne
  split
  · exact returns_ok _
  · rw [returns_bind]
    obtain ⟨rates, hrates⟩ := returns_mapM.2 fun s hs => returns_successRate (h s hs)
    exact ⟨rates, hrates, returns_ok _⟩

end

/-! ### The class profile -/

section

variable {lib : Libraries} {records : List Fields} {rec : Fields} {taskMeta : Key → Option TaskMeta} {models : List Key}
  {raw raw' : List (Key × List (Name × Cell))}

/-- The cells of a model have their own tags, and none is solved more often than it was tried. -/
structure CellsOk (cells : List (Name × Cell)) : Prop where
  nodup : (cells.map Prod.fst).Nodup
  solved : ∀ cell ∈ cells, cell.2.solved ≤ cell.2.attempts

/-- What the loop of the profile keeps. -/
structure RawOk (models : List Key) (raw : List (Key × List (Name × Cell))) : Prop where
  nodup : (raw.map Prod.fst).Nodup
  keys : ∀ item ∈ raw, item.1 ∈ models
  cells : ∀ item ∈ raw, CellsOk item.2

theorem CellsOk.record {cells : List (Name × Cell)} (h : CellsOk cells) (tag : Name) (solved : Bool) :
    CellsOk (adjust Cell.zero tag (fun c => c.record solved) cells) := by
  have hrecord : ∀ c : Cell, c.solved ≤ c.attempts → (c.record solved).solved ≤ (c.record solved).attempts := by
    intro c hc
    simp only [Cell.record]
    split <;> omega
  refine ⟨Tally.nodup_adjust h.nodup, ?_⟩
  intro cell hcell
  rcases Tally.mem_adjust h.nodup hcell with ⟨-, hmem⟩ | ⟨-, -, hvalue⟩ | ⟨-, v, hv, hvalue⟩
  · exact h.solved cell hmem
  · rw [hvalue]
    exact hrecord _ (Nat.le_refl 0)
  · rw [hvalue]
    exact hrecord v (h.solved _ hv)

theorem RawOk.tag {model : Key} (h : RawOk models raw) (hmodel : model ∈ models) (tag : Name) (solved : Bool) :
    RawOk models (adjust [] model (adjust Cell.zero tag fun c => c.record solved) raw) := by
  refine ⟨Tally.nodup_adjust h.nodup, ?_, ?_⟩
  · intro item hitem
    rcases Tally.mem_adjust h.nodup hitem with ⟨-, hmem⟩ | ⟨heq, -⟩ | ⟨heq, -⟩
    · exact h.keys item hmem
    · exact heq ▸ hmodel
    · exact heq ▸ hmodel
  · intro item hitem
    rcases Tally.mem_adjust h.nodup hitem with ⟨-, hmem⟩ | ⟨-, -, hvalue⟩ | ⟨-, cells, hcells, hvalue⟩
    · exact h.cells item hmem
    · have hnone : CellsOk [] := ⟨List.nodup_nil, by simp⟩
      rw [hvalue]
      exact hnone.record tag solved
    · rw [hvalue]
      exact (h.cells _ hcells).record tag solved

private theorem classifyTag_eq (hread : Readable lib rec) (tag : Name) : classifyTag rec raw tag =
    .ok (adjust [] (attemptOf lib rec).model (adjust Cell.zero tag fun c => c.record (isTruthy "solved" rec)) raw) := by
  rw [classifyTag, (parts hread).model]
  rfl

/-- A record that can be read is classified. -/
private theorem classify_spec (hread : Readable lib rec) (h : RawOk models raw)
    (hmodel : (attemptOf lib rec).model ∈ models) :
    ∃ raw', classify taskMeta raw rec = .ok raw' ∧ RawOk models raw' := by
  unfold classify
  rw [(parts hread).task]
  simp only [bind, Except.bind]
  split
  · exact ⟨raw, rfl, h⟩
  · rename_i info _
    split
    · exact ⟨raw, rfl, h⟩
    · exact foldlM_runs (fun raw tag _ hraw => ⟨_, classifyTag_eq hread tag, hraw.tag hmodel tag _⟩) h

private theorem foldlM_classify (hread : ∀ rec ∈ records, Readable lib rec) :
    ∃ raw, records.foldlM (classify taskMeta) [] = .ok raw ∧
      RawOk (records.map fun rec => (attemptOf lib rec).model) raw := by
  apply foldlM_runs
  · intro raw rec hrec hraw
    exact classify_spec (hread rec hrec) hraw (List.mem_map_of_mem hrec)
  · exact ⟨List.nodup_nil, by simp, by simp⟩

private theorem returns_profileCell {c : Cell} (h : c.solved ≤ c.attempts) : Returns (profileCell lib c) := by
  unfold profileCell
  split
  · exact returns_ok _
  · rw [returns_map]
    exact returns_trueDiv (Int.natCast_nonneg _) (by exact_mod_cast h)

private theorem returns_profileRow {item : Key × List (Name × Cell)} (h : CellsOk item.2) :
    Returns (profileRow lib item) := by
  rw [profileRow, returns_bind]
  obtain ⟨cells, hcells⟩ : Returns (sortNames lib item.2) := returns_sortNames _
  refine ⟨cells, hcells, returns_bind.2 ?_⟩
  have hperm : cells.Perm item.2 := by
    rw [sortNames] at hcells
    cases hsort : lib.sort.sorted (fun a b => ltName a.1 b.1) item.2 with
    | none =>
      rw [hsort] at hcells
      cases hcells
    | some sorted =>
      rw [hsort] at hcells
      cases hcells
      exact lib.sort.perm _ _ _ hsort
  have hrows : Returns (cells.mapM fun cell => (profileCell lib cell.2).map (cell.1, ·)) :=
    returns_mapM.2 fun cell hcell => returns_map.2 (returns_profileCell (h.solved cell (hperm.mem_iff.1 hcell)))
  obtain ⟨rows, hrows⟩ := hrows
  exact ⟨rows, hrows, returns_ok _⟩

private theorem returns_classProfile (hread : ∀ rec ∈ records, Readable lib rec)
    (hmodels : Uniform (records.map (nameOf "model"))) : Returns (classProfile lib records taskMeta) := by
  obtain ⟨raw, hraw, hok⟩ : ∃ raw, records.foldlM (classify taskMeta) [] = .ok raw ∧ RawOk _ raw := foldlM_classify hread
  have hcomparable : Comparable ltKey (raw.map Prod.fst) := by
    refine comparable_of_keys hmodels fun k hk => ?_
    obtain ⟨item, hitem, rfl⟩ := List.mem_map.1 hk
    obtain ⟨rec, hrec, hmodel⟩ := List.mem_map.1 (hok.keys item hitem)
    exact ⟨_, List.mem_map_of_mem hrec, by rw [(parts (hread rec hrec)).model, hmodel]⟩
  have hpairwise : raw.Pairwise fun a b => (ltKey a.1 b.1).isSome = true ∧ (ltKey b.1 a.1).isSome = true := by
    have hnodup := hok.nodup
    rw [List.nodup_iff_pairwise_ne, List.pairwise_map] at hnodup
    apply hnodup.imp_of_mem
    intro a b ha hb hne
    exact ⟨hcomparable _ (List.mem_map_of_mem ha) _ (List.mem_map_of_mem hb) hne,
      hcomparable _ (List.mem_map_of_mem hb) _ (List.mem_map_of_mem ha) (Ne.symm hne)⟩
  obtain ⟨items, hitems⟩ := Option.isSome_iff_exists.1 (lib.sort.returns _ _ hpairwise)
  have hperm := lib.sort.perm _ _ _ hitems
  rw [classProfile, hraw, returns_bind]
  refine ⟨raw, rfl, returns_bind.2 ⟨items, ?_, ?_⟩⟩
  · rw [hitems]
    rfl
  · exact returns_mapM.2 fun item hitem => returns_profileRow (hok.cells item (hperm.mem_iff.1 hitem))

end

/-! ### The report -/

section

variable {lib : Libraries} {files : List ResultsFile} {records : List Fields} {taskMeta : Key → Option TaskMeta}

private theorem readable_of_fine (h : Fine lib records) : ∀ rec ∈ records, Readable lib rec := by
  intro rec hrec
  exact ⟨(uniform_iff.1 h.models).1 _ (List.mem_map_of_mem hrec), (uniform_iff.1 h.tasks).1 _ (List.mem_map_of_mem hrec),
    h.iterations rec hrec, h.durations rec hrec⟩

private theorem uniform_of_sorted {values : List Json} {keys : List Key}
    (hvalues : ∀ v ∈ values, ∃ k ∈ keys, keyOf v = .ok k)
    (h : Comparable ltKey keys) : Uniform values := by
  refine uniform_iff.2 ⟨fun v hv => ?_, ?_⟩
  · obtain ⟨k, -, hk⟩ := hvalues v hv
    exact ⟨k, hk⟩
  · intro a ha b hb hne
    have hmem : ∀ k ∈ values.filterMap (fun v => (keyOf v).toOption), k ∈ keys := by
      intro k hk
      obtain ⟨v, hv, hkey⟩ := List.mem_filterMap.1 hk
      obtain ⟨k', hk', hkey'⟩ := hvalues v hv
      rw [hkey'] at hkey
      cases hkey
      exact hk'
    exact h a (hmem a ha) b (hmem b hb) hne

private theorem attempts_ne_zero {rec : Fields} (hrec : rec ∈ records) {c : Counts PyFloat}
    (h : Counted lib (sameGroup records rec) c) : c.attempts ≠ 0 := by
  rw [h.attempts]
  have hmem : rec ∈ sameGroup records rec := List.mem_filter.2 ⟨hrec, decide_eq_true rfl⟩
  exact Nat.ne_of_gt (List.length_pos_of_mem hmem)

private theorem returns_average {rec : Fields} (hrec : rec ∈ records) {c : Counts PyFloat}
    (h : Counted lib (sameGroup records rec) c) : Returns (avgIterations lib c) ↔
      (lib.round ((((sameGroup records rec).map (iterationsOf lib)).sum : Int) /
        ((sameGroup records rec).length : Int))).isFinite = true := by
  rw [returns_avgIterations (attempts_ne_zero hrec h), h.iterations, h.attempts]

private theorem returns_groupReport {s : GroupStats} (hlive : s.solved + s.infraFailures ≤ s.attempts) :
    Returns (groupReport lib taskMeta s) ↔ Returns (avgIterations lib s.toCounts) := by
  obtain ⟨rate, hrate⟩ : Returns (successRate lib s.toCounts) := returns_successRate hlive
  rw [groupReport, hrate, returns_bind]
  constructor
  · rintro ⟨rate, -, h⟩
    obtain ⟨iterations, hiterations, -⟩ := returns_bind.1 h
    exact ⟨iterations, hiterations⟩
  · rintro ⟨iterations, hiterations⟩
    exact ⟨rate, rfl, returns_bind.2 ⟨iterations, hiterations, returns_ok _⟩⟩

/-- The records of a report that is there are fine. -/
private theorem fine_of_report {stats : List GroupStats} (hstats : aggregate lib records = .ok stats)
    (hmodels : Returns (sortKeys lib (stats.map fun s => s.model)))
    (htasks : Returns (sortKeys lib (stats.map fun s => s.task)))
    (hgroups : Returns (stats.mapM (groupReport lib taskMeta))) : Fine lib records := by
  obtain ⟨hread, hagg⟩ := aggregate_eq_ok hstats
  constructor
  · refine uniform_of_sorted (fun v hv => ?_) (returns_sortKeys.1 hmodels)
    obtain ⟨rec, hrec, rfl⟩ := List.mem_map.1 hv
    exact ⟨_, (hagg.models _).2 ⟨rec, hrec, rfl⟩, (parts (hread rec hrec)).model⟩
  · refine uniform_of_sorted (fun v hv => ?_) (returns_sortKeys.1 htasks)
    obtain ⟨rec, hrec, rfl⟩ := List.mem_map.1 hv
    exact ⟨_, (hagg.tasks _).2 ⟨rec, hrec, rfl⟩, (parts (hread rec hrec)).task⟩
  · exact fun rec hrec => (hread rec hrec).iterations
  · exact fun rec hrec => (hread rec hrec).duration
  · intro rec hrec
    obtain ⟨s, hs, hcounted⟩ := hagg.group rec hrec
    rw [← returns_average hrec hcounted, ← returns_groupReport hcounted.live]
    exact returns_mapM.1 hgroups s hs

private theorem fine_of_reportOf {unparseable : List (Name × Nat)}
    (h : Returns (reportOf lib records unparseable taskMeta)) :
    Fine lib records := by
  simp only [reportOf, returns_bind] at h
  obtain ⟨stats, hstats, -, -, -, -, -, -, models, hmodels, tasks, htasks, groups, hgroups, -⟩ := h
  exact fine_of_report hstats ⟨models, hmodels⟩ ⟨tasks, htasks⟩ ⟨groups, hgroups⟩

private theorem reportOf_eq {unparseable : List (Name × Nat)} (h : Fine lib records) :
    (∃ stats profile, aggregate lib records = .ok stats ∧ classProfile lib records taskMeta = .ok profile) ∧
      ∃ report, reportOf lib records unparseable taskMeta = .ok report ∧ report.unparseable = unparseable := by
  have hread := readable_of_fine h
  obtain ⟨stats, hstats⟩ := returns_aggregate hread h.models h.tasks
  obtain ⟨profile, hprofile⟩ : Returns (classProfile lib records taskMeta) := returns_classProfile hread h.models
  refine ⟨⟨stats, profile, hstats, hprofile⟩, ?_⟩
  obtain ⟨-, hagg⟩ := aggregate_eq_ok hstats
  have hlive : ∀ s ∈ stats, s.solved + s.infraFailures ≤ s.attempts := by
    intro s hs
    obtain ⟨rec, -, hcounted⟩ := hagg.counted s hs
    exact hcounted.live
  have hmodelKeys : Comparable ltKey (stats.map fun s => s.model) := by
    refine comparable_of_keys h.models fun k hk => ?_
    obtain ⟨rec, hrec, rfl⟩ := (hagg.models k).1 hk
    exact ⟨_, List.mem_map_of_mem hrec, (parts (hread rec hrec)).model⟩
  have htaskKeys : Comparable ltKey (stats.map fun s => s.task) := by
    refine comparable_of_keys h.tasks fun k hk => ?_
    obtain ⟨rec, hrec, rfl⟩ := (hagg.tasks k).1 hk
    exact ⟨_, List.mem_map_of_mem hrec, (parts (hread rec hrec)).task⟩
  have hgroupReports : Returns (stats.mapM (groupReport lib taskMeta)) := by
    refine returns_mapM.2 fun s hs => ?_
    obtain ⟨rec, hrec, hcounted⟩ := hagg.counted s hs
    rw [returns_groupReport hcounted.live, returns_average hrec hcounted]
    exact h.averages rec hrec
  obtain ⟨passAtK, hpassAtK⟩ := returns_fractionOf lib (stats.filter fun s => !s.incomplete) fun s => s.passed
  obtain ⟨reliability, hreliability⟩ := returns_fractionOf lib (stats.filter fun s => !s.incomplete) fun s => s.reliable
  obtain ⟨passOne, hpassOne⟩ : Returns (passAtOne lib (stats.filter fun s => !s.incomplete)) :=
    returns_passAtOne fun s hs => hlive s (List.mem_of_mem_filter hs)
  obtain ⟨models, hmodels⟩ : Returns (sortKeys lib _) := returns_sortKeys.2 hmodelKeys
  obtain ⟨tasks, htasks⟩ : Returns (sortKeys lib _) := returns_sortKeys.2 htaskKeys
  obtain ⟨groups, hgroups⟩ := hgroupReports
  refine ⟨⟨models, tasks, passAtK, passOne, reliability, groups, profile, unparseable⟩, ?_, rfl⟩
  simp only [reportOf, hstats, hpassAtK, hreliability, hpassOne, hmodels, htasks, hgroups, hprofile, bind, Except.bind]
  rfl

/-- The report is there exactly where no line makes `json.loads` raise `RecursionError`, the models are all strings, all
numbers or all null, and so are the tasks, no number of iterations is infinite, no duration is an integer beyond the
floats, and the average number of iterations of every group is a float. -/
theorem report_survives_iff (lib : Libraries) (files : List ResultsFile) (taskMeta : Key → Option TaskMeta) :
    Survives lib files taskMeta ↔ Shallow lib files ∧ Fine lib (recordsOf lib files) := by
  have hbuild : ∀ loaded, loadResults lib files = .ok loaded →
      buildReport lib files taskMeta = reportOf lib loaded.1 loaded.2 taskMeta := by
    intro loaded hloaded
    rw [buildReport, hloaded]
    rfl
  constructor
  · rintro ⟨⟨loaded, -, -, hloaded, -⟩, report, hreport, -⟩
    have hshallow := returns_loadResults.1 ⟨loaded, hloaded⟩
    obtain ⟨unparseable, heq, -⟩ := loadResults_eq hshallow
    rw [hbuild _ heq] at hreport
    exact ⟨hshallow, fine_of_reportOf ⟨report, hreport⟩⟩
  · rintro ⟨hshallow, hfine⟩
    obtain ⟨unparseable, heq, hperm⟩ := loadResults_eq hshallow
    obtain ⟨⟨stats, profile, hstats, hprofile⟩, report, hreport, hlines⟩ := reportOf_eq hfine
    refine ⟨⟨_, stats, profile, heq, hstats, hprofile⟩, report, ?_, ?_⟩
    · rw [hbuild _ heq]
      exact hreport
    · rw [hlines]
      exact hperm

end

/-- One record: `{"iterations": Infinity}`. -/
def infiniteLine : Line := "\x7b\"iterations\": Infinity\x7d".toList

/-- `json.loads` on that line, with floats that are their exact values. -/
def oneLine : Libraries where
  intOfText _ := none
  floatOfText _ := none
  round := .finite
  nesting := 900
  loads line := if line = infiniteLine then .ok (.obj [(Python.points "iterations", .float (.inf false))]) else .error .value
  loads_error line e h := by
    split at h
    · cases h
    · cases h
      exact .inl rfl
  round_unit _ _ _ := rfl
  add x _ := x
  div x _ := x
  roundTo _ x := x
  sort := Sorting.insertion

theorem infinite_iterations_raise : ¬ ∀ (lib : Libraries) (files : List ResultsFile) (taskMeta : Key → Option TaskMeta),
    Survives lib files taskMeta := by
  intro hclaim
  obtain ⟨report, hreport, -⟩ := (hclaim oneLine [⟨"results.jsonl".toList, infiniteLine⟩] fun _ => none).report
  have hraises : buildReport oneLine [⟨"results.jsonl".toList, infiniteLine⟩] (fun _ => none) = .error .overflow := rfl
  rw [hraises] at hreport
  cases hreport

end IronHarness.Report.Lenient
