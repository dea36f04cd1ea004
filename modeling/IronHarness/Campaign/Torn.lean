import Mathlib.Data.List.AList
import Mathlib.Data.List.Lex
import Mathlib.Data.String.Basic
import Mathlib.Data.List.Sort
import IronHarness.Campaign.Rows
import IronHarness.Lib.Runs

/-!
# A campaign that dies

`agent_solve_results` step by step over the files of the solve directory: stale files are removed, the tombstone and,
after the attempts, the rows are written to a temporary file that replaces `results.jsonl`.  A campaign that dies or
raises is a run that goes no further.  Once the first attempt has started, `load_results` sees no row of the task or
all rows of this campaign (`torn_campaign_shows_no_rows`).
-/

namespace IronHarness.Campaign

open ByteText JsonLines JsonText TextLines Runs

variable {F : Type} [JsonFloat F]

/-- A path below the solve directory, by its components. -/
abbrev Path := List String

abbrev SolveDir := AList fun _ : Path => Bytes

/-! ### `load_results` -/

/-- `sorted(solve_dir.rglob("results.jsonl"))` -/
def resultFiles (d : SolveDir) : List Path :=
  (d.keys.filter fun path => path.getLast? == some "results.jsonl").insertionSort (· ≤ ·)

/-- The records of the files, each with the file it comes from, and the files with lines that are no records; `none`
where a file cannot be read. -/
def loadFiles (d : SolveDir) : List Path → Option (List (Path × Fields F) × List (Path × Nat))
  | [] => some ([], [])
  | path :: rest =>
    match (d.lookup path).bind loadResultsFile, loadFiles d rest with
    | some (records, bad), some (restRecords, restBad) =>
      some (records.map (path, ·) ++ restRecords, if bad = 0 then restBad else (path, bad) :: restBad)
    | _, _ => none

def loadResults (d : SolveDir) : Option (List (Fields F) × List (Path × Nat)) :=
  (loadFiles d (resultFiles d)).map fun loaded => (loaded.1.map Prod.snd, loaded.2)

/-! ### A campaign on a task -/

structure SolveCampaign where
  /-- `solve_dir / task.name`, by its components. -/
  taskDir : Path
  task : String
  notes : Bool
  model : String
  attempts : Nat
  pid : Nat

def resultsPath (c : SolveCampaign) : Path := c.taskDir ++ ["results.jsonl"]

/-- `results_path.with_name(f"{results_path.name}.{os.getpid()}.tmp")` -/
def tmpPath (c : SolveCampaign) : Path := c.taskDir ++ ["results.jsonl" ++ "." ++ toString c.pid ++ ".tmp"]

/-- The files that `clean_stale_attempts` removes: those of the `attempt-*` directories and the temporary files. -/
def isStale (c : SolveCampaign) (path : Path) : Bool :=
  c.taskDir.isPrefixOf path &&
  match path.drop c.taskDir.length with
  | [name] => "results.jsonl.".toList.isPrefixOf name.toList && ".tmp".toList.isSuffixOf (name.toList.drop 14)
  | name :: _ => "attempt-".toList.isPrefixOf name.toList
  | [] => false

/-- The record that says the campaign has begun. -/
def tombstone (c : SolveCampaign) : Fields F :=
  [("task", .str c.task), ("tombstone", .bool true), ("model", .str c.model), ("attempts", .int c.attempts),
    ("notes", .bool c.notes)]

/-- What a temporary file is written for. -/
inductive Stage (F : Type) where
  | tombstone
  | payload (results : List (AttemptResult F))

def stageBytes (c : SolveCampaign) : Stage F → Bytes
  | .tombstone => encode (text [(tombstone c : Fields F)])
  | .payload results => payload c.model c.notes results

inductive Pc (F : Type) where
  | cleaning
  | opening (stage : Stage F)
  /-- `left` is what `write_text` has not written yet. -/
  | writing (stage : Stage F) (left : Bytes)
  | replacing (stage : Stage F) (attempt : Nat)
  | solving
  | done (results : List (AttemptResult F))
  | raised

structure State (F : Type) where
  dir : SolveDir
  pc : Pc F
  /-- The attempts that have started. -/
  attempted : Nat

inductive Act (F : Type) where
  | remove (path : Path)
  | cleaned
  | truncate
  | write (n : Nat)
  | written
  | denied
  | replaced
  | attempt
  | solved (results : List (AttemptResult F))
  /-- A file written (or removed) by an attempt, or by somebody else outside the directory of the task. -/
  | file (path : Path) (content : Option Bytes)

def afterReplace : Stage F → Pc F
  | .tombstone => .solving
  | .payload results => .done results

/-- The artifacts of the attempts are not `results.jsonl`; the other directories are not the campaign's. -/
def fileAllowed (c : SolveCampaign) : Pc F → Path → Bool
  | .solving, path => path != resultsPath c
  | _, path => !c.taskDir.isPrefixOf path

def setFile (d : SolveDir) (path : Path) : Option Bytes → SolveDir
  | none => d.erase path
  | some bs => d.insert path bs

def step (c : SolveCampaign) (s : State F) (a : Act F) : Option (State F) :=
  match s.pc, a with
  | .cleaning, .remove path => if isStale c path then some { s with dir := s.dir.erase path } else none
  | .cleaning, .cleaned => some { s with pc := .opening .tombstone }
  | .opening stage, .truncate =>
    some { s with dir := s.dir.insert (tmpPath c) [], pc := .writing stage (stageBytes c stage) }
  | .writing stage left, .write n =>
    (s.dir.lookup (tmpPath c)).map fun bs =>
      { s with dir := s.dir.insert (tmpPath c) (bs ++ left.take n), pc := .writing stage (left.drop n) }
  | .writing stage [], .written => some { s with pc := .replacing stage 0 }
  | .replacing stage attempt, .denied =>
    -- six calls of os.replace; the last PermissionError is raised
    some { s with pc := if attempt = 5 then .raised else .replacing stage (attempt + 1) }
  | .replacing stage _, .replaced =>
    (s.dir.lookup (tmpPath c)).map fun bs =>
      { s with dir := (s.dir.erase (tmpPath c)).insert (resultsPath c) bs, pc := afterReplace stage }
  | .solving, .attempt => if s.attempted < c.attempts then some { s with attempted := s.attempted + 1 } else none
  | .solving, .solved results =>
    if s.attempted = c.attempts ∧ results.length = c.attempts then some { s with pc := .opening (.payload results) }
    else none
  | pc, .file path content => if fileAllowed c pc path then some { s with dir := setFile s.dir path content } else none
  | _, _ => none

def start (d : SolveDir) : State F := ⟨d, .cleaning, 0⟩

/-! ### What the files hold -/

variable {c : SolveCampaign} {s s' : State F} {a : Act F} {d : SolveDir} {path : Path}

theorem tmpPath_ne : tmpPath c ≠ resultsPath c := by
  intro h
  rw [tmpPath, resultsPath, List.append_cancel_left_eq, List.cons.injEq] at h
  have hlength := congrArg String.length h.1
  simp only [String.length_append] at hlength
  have hdot : ".".length = 1 := rfl
  omega

private theorem not_under {name : String} (h : (!c.taskDir.isPrefixOf path) = true) : path ≠ c.taskDir ++ [name] := by
  rintro rfl
  have hfront : c.taskDir.isPrefixOf (c.taskDir ++ [name]) = true := List.isPrefixOf_iff_prefix.2 (List.prefix_append _ _)
  rw [hfront] at h
  exact Bool.noConfusion h

omit [JsonFloat F] in
private theorem fileAllowed_ne {pc : Pc F} (h : fileAllowed c pc path = true) : path ≠ resultsPath c := by
  cases pc with
  | solving => simpa [fileAllowed] using h
  | _ => exact not_under h

theorem lookup_setFile {content : Option Bytes} {p : Path} (h : path ≠ p) :
    (setFile d path content).lookup p = d.lookup p := by
  cases content with
  | none => exact AList.lookup_erase_ne h.symm
  | some bs => exact AList.lookup_insert_ne h.symm

/-- `results.jsonl` is the tombstone of this campaign. -/
def Marked (c : SolveCampaign) (s : State F) : Prop :=
  s.dir.lookup (resultsPath c) = some (stageBytes c (.tombstone : Stage F))

/-- What holds until `os.replace` of a stage. -/
def Before (c : SolveCampaign) (s : State F) : Stage F → Prop
  | .tombstone => s.attempted = 0
  | .payload _ => Marked c s

/-- What the two files hold at each point. -/
def Held (c : SolveCampaign) (s : State F) : Prop :=
  match s.pc with
  | .cleaning => s.attempted = 0
  | .opening stage => Before c s stage
  | .writing stage left =>
    Before c s stage ∧ ∃ bs, s.dir.lookup (tmpPath c) = some bs ∧ bs ++ left = stageBytes c stage
  | .replacing stage _ => Before c s stage ∧ s.dir.lookup (tmpPath c) = some (stageBytes c stage)
  | .solving => Marked c s
  | .done results => s.dir.lookup (resultsPath c) = some (payload c.model c.notes results)
  | .raised => s.attempted = 0 ∨ Marked c s

/-- Only the content of `results.jsonl` and the number of attempts matter. -/
theorem Before.congr {stage : Stage F} (h : Before c s stage) (hn : s'.attempted = s.attempted)
    (hd : s'.dir.lookup (resultsPath c) = s.dir.lookup (resultsPath c)) : Before c s' stage := by
  cases stage with
  | tombstone => exact hn.trans h
  | payload results => exact hd.trans h

theorem Before.raised {stage : Stage F} (h : Before c s stage) : s.attempted = 0 ∨ Marked c s := by
  cases stage with
  | tombstone => exact .inl h
  | payload results => exact .inr h

/-- A file that is neither of the two may change. -/
theorem Held.congr (h : Held c s) (hpc : s'.pc = s.pc) (hn : s'.attempted = s.attempted)
    (hresults : s'.dir.lookup (resultsPath c) = s.dir.lookup (resultsPath c))
    (htmp : s.pc ≠ .solving → s'.dir.lookup (tmpPath c) = s.dir.lookup (tmpPath c)) : Held c s' := by
  have hmarked : Marked c s → Marked c s' := fun hm => hresults.trans hm
  unfold Held at h ⊢
  rw [hpc]
  cases hcase : s.pc with rw [hcase] at h htmp
  | cleaning => exact hn.trans h
  | opening stage => exact Before.congr h hn hresults
  | writing stage left =>
    obtain ⟨hbefore, bs, hbs, hleft⟩ := h
    have hsame := htmp (by simp)
    exact ⟨hbefore.congr hn hresults, bs, hsame.trans hbs, hleft⟩
  | replacing stage attempt =>
    have hsame := htmp (by simp)
    exact ⟨h.1.congr hn hresults, hsame.trans h.2⟩
  | solving => exact hmarked h
  | done results => exact hresults.trans h
  | raised => exact h.imp hn.trans hmarked

theorem Held.step (h : Held c s) (hs : step c s a = some s') : Held c s' := by
  obtain ⟨d, pc, n⟩ := s
  unfold Campaign.step at hs
  split at hs
  case h_1 path hpc =>
    obtain rfl := hpc
    obtain ⟨-, rfl⟩ := by simpa using hs
    exact h
  case h_2 hpc =>
    obtain rfl := hpc
    obtain rfl := Option.some.inj hs
    exact h
  case h_3 stage hpc =>
    obtain rfl := hpc
    obtain rfl := Option.some.inj hs
    refine ⟨Before.congr h rfl ?_, [], AList.lookup_insert _, rfl⟩
    exact AList.lookup_insert_ne tmpPath_ne.symm
  case h_4 stage left k hpc =>
    obtain rfl := hpc
    obtain ⟨hbefore, bs, hbs, hleft⟩ := h
    rw [hbs] at hs
    obtain rfl := Option.some.inj hs
    refine ⟨hbefore.congr rfl (AList.lookup_insert_ne tmpPath_ne.symm), _, AList.lookup_insert _, ?_⟩
    rw [List.append_assoc, List.take_append_drop, hleft]
  case h_5 stage hpc =>
    obtain rfl := hpc
    obtain ⟨hbefore, bs, hbs, hleft⟩ := h
    obtain rfl := Option.some.inj hs
    rw [List.append_nil] at hleft
    exact ⟨hbefore, hleft ▸ hbs⟩
  case h_6 stage attempt hpc =>
    obtain rfl := hpc
    obtain rfl := Option.some.inj hs
    by_cases hlast : attempt = 5
    · subst hlast
      exact h.1.raised
    · rw [if_neg hlast]
      exact ⟨h.1.congr rfl rfl, h.2⟩
  case h_7 stage attempt hpc =>
    obtain rfl := hpc
    rw [h.2] at hs
    obtain rfl := Option.some.inj hs
    cases stage with
    | tombstone => exact AList.lookup_insert _
    | payload results => exact AList.lookup_insert _
  case h_8 hpc =>
    obtain rfl := hpc
    obtain ⟨-, rfl⟩ := by simpa using hs
    exact h
  case h_9 results hpc =>
    obtain rfl := hpc
    obtain ⟨-, rfl⟩ := by simpa using hs
    exact h
  case h_10 path content hpc =>
    obtain ⟨hallowed, rfl⟩ := by simpa using hs
    refine h.congr rfl rfl (lookup_setFile (fileAllowed_ne hallowed)) fun hsolving => lookup_setFile ?_
    cases pc with
    | solving => exact absurd rfl hsolving
    | _ => exact not_under hallowed
  case h_11 => cases hs

private theorem held_run {acts : List (Act F)} (hrun : run (step c) (start d) acts = some s) : Held c s :=
  invariant (fun _ _ _ hs h => h.step hs) hrun rfl

/-! ### What the loader sees -/

theorem load_tombstone (htask : NoSeparator c.task) (hmodel : NoSeparator c.model) :
    loadResultsFile (stageBytes c (.tombstone : Stage F)) = some (([], 0) : List (Fields F) × Nat) := by
  have hnodup : ∀ row ∈ [(tombstone c : Fields F)], (Value.obj row).keysNodup := by
    intro row hrow
    obtain rfl := List.mem_singleton.1 hrow
    simp [tombstone, Value.keysNodup, Value.keysNodup.fieldsNodup]
  have hkeep : [(tombstone c : Fields F)].filter (fun record => !isTombstone record) = [] := rfl
  have htext := loadLines_text prep_id hnodup
  rw [hkeep] at htext
  apply htext.2
  intro row hrow
  obtain rfl := List.mem_singleton.1 hrow
  have hkeys : ∀ k ∈ ["task", "tombstone", "model", "attempts", "notes"], k.toList.any isSeparator = false := by decide
  have hstrings : c.task.toList.any isSeparator = false ∧ c.model.toList.any isSeparator = false := by
    constructor
    · simpa [NoSeparator] using htask
    · simpa [NoSeparator] using hmodel
  simp only [List.forall_mem_cons] at hkeys
  obtain ⟨h1, h2, h3, h4, h5, -⟩ := hkeys
  simp only [hasSeparator, tombstone, Value.anyChar, Value.anyChar.fieldsAny, h1, h2, h3, h4, h5, hstrings,
    Bool.or_false]

/-- The records of a file that can be read. -/
def fileRecords (d : SolveDir) (path : Path) : List (Fields F) :=
  (((d.lookup path).bind loadResultsFile).getD ([], 0)).1

theorem loadFiles_records {paths : List Path} {loaded : List (Path × Fields F)} {bad : List (Path × Nat)}
    (hload : loadFiles d paths = some (loaded, bad)) :
    loaded = paths.flatMap fun path => (fileRecords d path).map (path, ·) := by
  induction paths generalizing loaded bad with
  | nil =>
    obtain ⟨rfl, -⟩ := Prod.mk.inj (Option.some.inj hload)
    rfl
  | cons path rest ih =>
    rw [loadFiles] at hload
    split at hload
    case h_1 records n restRecords restBad hfile hrest =>
      obtain ⟨rfl, -⟩ := Prod.mk.inj (Option.some.inj hload)
      rw [List.flatMap_cons, ← ih hrest, fileRecords, hfile]
      rfl
    case h_2 => cases hload

/-- The records of files that only one file of the list is among. -/
private theorem records_of_file {paths : List Path} (hnodup : paths.Nodup) (hpath : path ∈ paths) {q : Path → Bool}
    (hq : q path = true) (honly : ∀ p ∈ paths, q p = true → p = path) :
    ((paths.flatMap fun p => (fileRecords d p).map (p, ·)).filter (q ·.1)).map Prod.snd = (fileRecords d path : List (Fields F)) := by
  have hall : ∀ p, q p = true → ((fileRecords d p).map (p, ·)).filter (q ·.1) = ((fileRecords d p).map (p, ·) : List (Path × Fields F)) := by
    intro p hp
    rw [List.filter_eq_self]
    intro record hrecord
    obtain ⟨fields, -, rfl⟩ := List.mem_map.1 hrecord
    exact hp
  have hnone : ∀ p, q p = false → (((fileRecords d p).map (p, ·)).filter (q ·.1) : List (Path × Fields F)) = [] := by
    intro p hp
    rw [List.filter_eq_nil_iff]
    intro record hrecord
    obtain ⟨fields, -, rfl⟩ := List.mem_map.1 hrecord
    exact ne_of_eq_of_ne hp Bool.false_ne_true
  have hrest : ∀ ps : List Path, (∀ p ∈ ps, q p = false) →
      (ps.flatMap fun p => ((fileRecords d p).map (p, ·) : List (Path × Fields F))).filter (q ·.1) = [] := by
    intro ps hps
    rw [List.filter_flatMap, List.flatMap_eq_nil_iff]
    exact fun p hp => hnone p (hps p hp)
  obtain ⟨before, after, rfl⟩ := List.append_of_mem hpath
  have hothers : ∀ p ∈ before ++ after, q p = false := by
    intro p hp
    rw [Bool.eq_false_iff]
    intro hqp
    have hmem : p ∈ before ++ path :: after := by
      rcases List.mem_append.1 hp with hp | hp
      · exact List.mem_append_left _ hp
      · exact List.mem_append_right _ (List.mem_cons_of_mem _ hp)
    obtain rfl := honly p hmem hqp
    exact (List.nodup_middle.1 hnodup).notMem hp
  rw [List.flatMap_append, List.flatMap_cons, List.filter_append, List.filter_append, hall path hq,
    hrest before fun p hp => hothers p (List.mem_append_left _ hp),
    hrest after fun p hp => hothers p (List.mem_append_right _ hp)]
  simp

theorem nodup_resultFiles : (resultFiles d).Nodup := by
  rw [resultFiles, List.Perm.nodup_iff (List.perm_insertionSort _ _)]
  exact d.keys_nodup.filter _

private theorem mem_resultFiles {bs : Bytes} (h : d.lookup (resultsPath c) = some bs) :
    resultsPath c ∈ resultFiles d := by
  have hkey : resultsPath c ∈ d.keys := by
    rw [← AList.mem_keys, ← AList.lookup_isSome, h]
    rfl
  rw [resultFiles, List.mem_insertionSort, List.mem_filter]
  exact ⟨hkey, by simp [resultsPath]⟩

/-- `results.jsonl` is the earlier one, the tombstone or the rows. -/
theorem Held.cases (h : Held c s) : s.attempted = 0 ∨ Marked c s ∨
    ∃ results, s.pc = .done results ∧ s.dir.lookup (resultsPath c) = some (payload c.model c.notes results) := by
  unfold Held at h
  cases hpc : s.pc with rw [hpc] at h
  | cleaning => exact .inl h
  | opening stage => exact h.raised.imp_right .inl
  | writing stage left => exact h.1.raised.imp_right .inl
  | replacing stage attempt => exact h.1.raised.imp_right .inl
  | solving => exact .inr (.inl h)
  | done results => exact .inr (.inr ⟨results, rfl, h⟩)
  | raised => exact h.imp_right .inl

/-- After the first attempt has started, wherever the campaign stops, `results.jsonl` is read as no rows or as all rows
of this campaign; these are all records that `load_results` finds for the task. -/
theorem torn_campaign_shows_no_rows {acts : List (Act F)} (hrun : run (step c) (start d) acts = some s)
    (hstarted : 0 < s.attempted) (htask : NoSeparator c.task) (hmodel : NoSeparator c.model)
    (hrows : ∀ results, s.pc = .done results → ∀ r ∈ results, ∀ str ∈ r.texts c.model, NoSeparator str) :
    ∃ own : List (Fields F),
      (own = [] ∨ ∃ results, s.pc = .done results ∧ own = results.map (resultRow c.model c.notes)) ∧
      (s.dir.lookup (resultsPath c)).bind loadResultsFile = some (own, 0) ∧
      ∀ records bad, loadResults s.dir = some (records, bad) →
        ∃ loaded, loadFiles s.dir (resultFiles s.dir) = some (loaded, bad) ∧ records = loaded.map Prod.snd ∧
          (loaded.filter (·.1 == resultsPath c)).map Prod.snd = own ∧
          ((∀ path ∈ resultFiles s.dir, c.taskDir.isPrefixOf path = true → path = resultsPath c) →
            (loaded.filter (c.taskDir.isPrefixOf ·.1)).map Prod.snd = own) := by
  have hown : ∃ own : List (Fields F),
      (own = [] ∨ ∃ results, s.pc = .done results ∧ own = results.map (resultRow c.model c.notes)) ∧
      (s.dir.lookup (resultsPath c)).bind loadResultsFile = some (own, 0) := by
    rcases (held_run hrun).cases with hnone | hmarked | ⟨results, hpc, hresults⟩
    · omega
    · refine ⟨[], .inl rfl, ?_⟩
      rw [hmarked, Option.bind_some]
      exact load_tombstone htask hmodel
    · refine ⟨_, .inr ⟨results, hpc, rfl⟩, ?_⟩
      rw [hresults, Option.bind_some]
      exact payload_survives_iff.2 (hrows results hpc)
  obtain ⟨own, hkind, hfile⟩ := hown
  refine ⟨own, hkind, hfile, fun records bad hload => ?_⟩
  obtain ⟨⟨loaded, bad'⟩, hloaded, heq⟩ := Option.map_eq_some_iff.1 hload
  obtain ⟨rfl, rfl⟩ := Prod.mk.inj heq
  obtain ⟨bs, hbs, -⟩ := Option.bind_eq_some_iff.1 hfile
  have hmem := mem_resultFiles hbs
  have hrecords : fileRecords s.dir (resultsPath c) = own := by
    rw [fileRecords, hfile]
    rfl
  refine ⟨loaded, hloaded, rfl, ?_, fun honly => ?_⟩
  · rw [loadFiles_records hloaded, records_of_file (q := (· == resultsPath c)) nodup_resultFiles hmem
      (beq_self_eq_true _) fun p _ => eq_of_beq, hrecords]
  · have hfront : c.taskDir.isPrefixOf (resultsPath c) = true := List.isPrefixOf_iff_prefix.2 (List.prefix_append _ _)
    rw [loadFiles_records hloaded, records_of_file nodup_resultFiles hmem hfront honly, hrecords]

def blinkCampaign : SolveCampaign := ⟨["blink"], "blink", false, "m", 1, 7⟩

def blinkResult : AttemptResult LitFloat :=
  ⟨"blink", 1, true, 1, halfSecond, none, "none"⟩

def blinkActs : List (Act LitFloat) :=
  [.cleaned, .truncate, .write 100, .written, .denied, .replaced, .attempt, .solved [blinkResult], .truncate, .write 50]

def earlierResults : SolveDir := (∅ : SolveDir).insert ["blink", "results.jsonl"] [0x7B, 0x7D]

/-- A campaign of one attempt over the results of an earlier one, which dies while it writes its own. -/
theorem torn_campaign_one_attempt :
    ∃ s, run (step blinkCampaign) (start earlierResults) blinkActs = some s ∧
      (s.dir.lookup (resultsPath blinkCampaign)).bind loadResultsFile = some (([] : List (Fields LitFloat)), 0) := by
  obtain ⟨s, hrun⟩ : ∃ s, run (step blinkCampaign) (start earlierResults) blinkActs = some s := ⟨_, rfl⟩
  have hend : (run (step blinkCampaign) (start earlierResults) blinkActs).map
      (fun s => (s.attempted, match s.pc with | .writing _ left => !left.isEmpty | _ => false)) = some (1, true) := rfl
  rw [hrun] at hend
  obtain ⟨hattempted, hpc⟩ := Prod.mk.inj (Option.some.inj hend)
  have hnot : ∀ results, s.pc ≠ .done results := by
    intro results hdone
    rw [hdone] at hpc
    cases hpc
  have hstarted : 0 < s.attempted := by omega
  have hplain : ∀ str ∈ ["blink", "m"], NoSeparator str := noSeparator_of_all (by decide)
  obtain ⟨own, hkind, hfile, -⟩ := torn_campaign_shows_no_rows hrun hstarted (hplain "blink" (by decide))
    (hplain "m" (by decide)) fun results hdone => absurd hdone (hnot results)
  rcases hkind with rfl | ⟨results, hdone, -⟩
  · exact ⟨s, hrun, hfile⟩
  · exact absurd hdone (hnot results)

end IronHarness.Campaign
