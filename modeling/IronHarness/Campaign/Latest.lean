import IronHarness.Campaign.Driver
import IronHarness.Campaign.Torn
import IronHarness.Report.Exact

/-!
# The campaigns of a solve directory

Solve campaigns (`solve` of ironbench/agent.py, `agent_solve_results` of ironbench/cli.py) one after the other over one
directory, each going on to its end or stopping at any step, and the report on what they leave (ironbench/report.py).
Where there is a report, with no number beyond the floats, it shows of each task the last campaign that has begun, and of
that one all its attempts or, where it has not
come to its end, nothing (`report_shows_latest`).
-/

namespace IronHarness.Campaign

open ByteText JsonLines JsonText TextLines Runs

variable {F : Type}

/-! ### The attempts -/

/-- What `solve_attempt` says of an attempt. -/
structure AttemptEnd (F : Type) where
  solved : Bool
  iterations : Int
  durationSec : F
  error : Option String
  errorKind : String

/-- `solve` -/
def solve (task : String) (attempts : Nat) (attempt : Nat → AttemptEnd F) : List (AttemptResult F) :=
  (List.range' 1 attempts).map fun n : Nat =>
    { task := task
      attempt := n
      solved := (attempt n).solved
      iterations := (attempt n).iterations
      durationSec := (attempt n).durationSec
      error := (attempt n).error
      errorKind := (attempt n).errorKind }

/-- The exit code of `ironbench solve`. -/
def exitCode (results : List (AttemptResult F)) : Int := if results.any (·.solved) then 0 else 1

/-! ### One campaign after the other -/

/-- A campaign and how far it goes. -/
structure Played (F : Type) where
  campaign : SolveCampaign
  acts : List (Act F)

/-- The campaign is one of the command line, and nobody else has a file that is named `results.jsonl`. -/
structure Played.Proper (p : Played F) : Prop where
  taskDir : p.campaign.taskDir = [p.campaign.task]
  attempts : 0 < p.campaign.attempts
  solved : ∀ results, Act.solved results ∈ p.acts →
    ∃ attempt, results = solve p.campaign.task p.campaign.attempts attempt
  file : ∀ path content, Act.file path content ∈ p.acts → path.getLast? ≠ some "results.jsonl"

/-- The directory at the end, and the campaigns with the states they have stopped in. -/
def play [JsonFloat F] (d : SolveDir) : List (Played F) → Option (SolveDir × List (SolveCampaign × State F))
  | [] => some (d, [])
  | p :: rest =>
    (run (step p.campaign) (start d) p.acts).bind fun s =>
      (play s.dir rest).map fun played => (played.1, (p.campaign, s) :: played.2)

/-- What the campaign has put in the place of `results.jsonl`. -/
def State.put (s : State F) : Option (Stage F) :=
  match s.pc with
  | .cleaning | .opening .tombstone | .writing .tombstone _ | .replacing .tombstone _ => none
  | .opening (.payload _) | .writing (.payload _) _ | .replacing (.payload _) _ | .solving => some .tombstone
  | .done results => some (.payload results)
  | .raised => if s.attempted = 0 then none else some .tombstone

/-- The campaign has begun, and no later one on its task has. -/
def Latest (ended : List (SolveCampaign × State F)) (c : SolveCampaign) (s : State F) : Prop :=
  ∃ before after, ended = before ++ (c, s) :: after ∧ s.put ≠ none ∧ ∀ e ∈ after, e.1.task = c.task → e.2.put = none

/-! ### What is in the directory -/

/-- The campaign that each task has its `results.jsonl` from, and what it has put there. -/
abbrev Table (F : Type) := String → Option (SolveCampaign × Stage F)

def note (table : Table F) (c : SolveCampaign) (put : Option (Stage F)) : Table F :=
  match put with
  | none => table
  | some stage => Function.update table c.task (some (c, stage))

/-- Who a file named `results.jsonl` is from. -/
def ownerOf (table : Table F) : Path → Option (SolveCampaign × Stage F)
  | [task, _] => table task
  | _ => none

def Tracks [JsonFloat F] (table : Table F) (d : SolveDir) : Prop :=
  ∀ path, path.getLast? = some "results.jsonl" →
    d.lookup path = (ownerOf table path).map fun e => stageBytes e.1 e.2

variable {table : Table F} {c : SolveCampaign} {s s' : State F} {a : Act F} {d : SolveDir} {path : Path}
  {put : Option (Stage F)} {stage : Stage F} {task : String} {results : List (AttemptResult F)}

private theorem note_of_ne (h : task ≠ c.task) : note table c put task = table task := by
  cases put with
  | none => rfl
  | some stage => exact Function.update_of_ne h _ _

private theorem note_self : note table c (some stage) c.task = some (c, stage) := Function.update_self _ _ _

private theorem ownerOf_note_of_ne (htask : c.taskDir = [c.task]) (hlast : path.getLast? = some "results.jsonl")
    (h : path ≠ resultsPath c) (put put' : Option (Stage F)) :
    ownerOf (note table c put) path = ownerOf (note table c put') path := by
  match path with
  | [] => rfl
  | [_] => rfl
  | [task, name] =>
    have hname : name = "results.jsonl" := by simpa using hlast
    have hne : task ≠ c.task := by
      rintro rfl
      exact h (by rw [resultsPath, htask, hname]; rfl)
    exact (note_of_ne hne).trans (note_of_ne hne).symm
  | _ :: _ :: _ :: _ => rfl

private theorem ownerOf_resultsPath (htask : c.taskDir = [c.task]) : ownerOf table (resultsPath c) = table c.task := by
  rw [resultsPath, htask]
  rfl

private theorem tmpPath_last : (tmpPath c).getLast? ≠ some "results.jsonl" := by
  intro h
  apply tmpPath_ne (c := c)
  rw [tmpPath, List.getLast?_concat] at h
  rw [tmpPath, resultsPath, Option.some.inj h]

/-- The files named `results.jsonl` that are stale are those of earlier attempts. -/
private theorem ownerOf_stale (htask : c.taskDir = [c.task]) (hlast : path.getLast? = some "results.jsonl")
    (h : isStale c path = true) : ownerOf table path = none := by
  unfold isStale at h
  rw [htask] at h
  match path with
  | [] => rfl
  | [_] => rfl
  | [task, name] =>
    have hname : name = "results.jsonl" := by simpa using hlast
    subst hname
    simp at h
  | _ :: _ :: _ :: _ => rfl

/-! ### What a campaign does to the directory -/

/-- The results of a campaign on the way to the file are those of its attempts. -/
def Solved (c : SolveCampaign) (results : List (AttemptResult F)) : Prop :=
  ∃ attempt, results = solve c.task c.attempts attempt

/-- Where the campaign is with its attempts. -/
def Phase (c : SolveCampaign) (s : State F) : Prop :=
  match s.pc with
  | .cleaning | .opening .tombstone | .writing .tombstone _ | .replacing .tombstone _ => s.attempted = 0
  | .opening (.payload results) | .writing (.payload results) _ | .replacing (.payload results) _ =>
    s.attempted = c.attempts ∧ Solved c results
  | .done results => Solved c results
  | .solving | .raised => True

/-- What the steps of a proper campaign meet. -/
def ActOk (c : SolveCampaign) (a : Act F) : Prop :=
  (∀ results, a = .solved results → Solved c results) ∧
    ∀ path content, a = .file path content → path.getLast? ≠ some "results.jsonl"

theorem Phase.step [JsonFloat F] (h : Phase c s) (ha : ActOk c a) (hs : step c s a = some s') : Phase c s' := by
  obtain ⟨d, pc, n⟩ := s
  unfold Campaign.step at hs
  split at hs
  case h_1 path hpc =>
    obtain rfl := hpc
    obtain ⟨-, rfl⟩ := by simpa using hs
    exact h
  case h_2 hpc =>
    obtain rfl := hpc
    obtain rfl := Option.some.inj hs
    exact h
  case h_3 stage hpc =>
    obtain rfl := hpc
    obtain rfl := Option.some.inj hs
    cases stage with
    | tombstone => exact h
    | payload results => exact h
  case h_4 stage left k hpc =>
    obtain rfl := hpc
    obtain ⟨bs, -, rfl⟩ := Option.map_eq_some_iff.1 hs
    cases stage with
    | tombstone => exact h
    | payload results => exact h
  case h_5 stage hpc =>
    obtain rfl := hpc
    obtain rfl := Option.some.inj hs
    cases stage with
    | tombstone => exact h
    | payload results => exact h
  case h_6 stage attempt hpc =>
    obtain rfl := hpc
    obtain rfl := Option.some.inj hs
    by_cases hlast : attempt = 5
    · subst hlast
      exact trivial
    · rw [if_neg hlast]
      cases stage with
      | tombstone => exact h
      | payload results => exact h
  case h_7 stage attempt hpc =>
    obtain rfl := hpc
    obtain ⟨bs, -, rfl⟩ := Option.map_eq_some_iff.1 hs
    cases stage with
    | tombstone => exact trivial
    | payload results => exact h.2
  case h_8 hpc =>
    obtain rfl := hpc
    obtain ⟨-, rfl⟩ := by simpa using hs
    exact trivial
  case h_9 results hpc =>
    obtain rfl := hpc
    obtain ⟨⟨hcount, -⟩, rfl⟩ := by simpa using hs
    exact ⟨hcount, ha.1 results rfl⟩
  case h_10 =>
    obtain ⟨-, rfl⟩ := by simpa using hs
    exact h
  case h_11 => cases hs

/-- The directory is the one of before with what the campaign has put there. -/
private theorem tracks_step [JsonFloat F] (htask : c.taskDir = [c.task]) (hattempts : 0 < c.attempts) (ha : ActOk c a)
    (hheld : Held c s) (hphase : Phase c s) (hs : step c s a = some s') (h : Tracks (note table c s.put) s.dir) :
    Tracks (note table c s'.put) s'.dir := by
  obtain ⟨d, pc, n⟩ := s
  unfold Campaign.step at hs
  split at hs
  case h_1 path hpc =>
    obtain rfl := hpc
    obtain ⟨hstale, rfl⟩ := by simpa using hs
    intro q hq
    by_cases hne : q = path
    · subst hne
      show (d.erase q).lookup q = _
      rw [AList.lookup_erase, ownerOf_stale htask hq hstale]
      rfl
    · exact (AList.lookup_erase_ne hne).trans (h q hq)
  case h_2 hpc =>
    obtain rfl := hpc
    obtain rfl := Option.some.inj hs
    exact h
  case h_3 stage hpc =>
    obtain rfl := hpc
    obtain rfl := Option.some.inj hs
    intro q hq
    have hne : q ≠ tmpPath c := fun heq => tmpPath_last (heq ▸ hq)
    refine (AList.lookup_insert_ne hne).trans ((h q hq).trans ?_)
    cases stage <;> rfl
  case h_4 stage left k hpc =>
    obtain rfl := hpc
    obtain ⟨bs, -, rfl⟩ := Option.map_eq_some_iff.1 hs
    intro q hq
    have hne : q ≠ tmpPath c := fun heq => tmpPath_last (heq ▸ hq)
    refine (AList.lookup_insert_ne hne).trans ((h q hq).trans ?_)
    cases stage <;> rfl
  case h_5 stage hpc =>
    obtain rfl := hpc
    obtain rfl := Option.some.inj hs
    intro q hq
    refine (h q hq).trans ?_
    cases stage <;> rfl
  case h_6 stage attempt hpc =>
    obtain rfl := hpc
    obtain rfl := Option.some.inj hs
    intro q hq
    refine (h q hq).trans ?_
    by_cases hlast : attempt = 5
    · subst hlast
      cases stage with
      | tombstone =>
        have hnone : n = 0 := hphase
        simp [State.put, hnone]
      | payload results =>
        have hall : n = c.attempts := hphase.1
        have hbegun : n ≠ 0 := by omega
        simp [State.put, hbegun]
    · simp only [if_neg hlast]
      cases stage <;> rfl
  case h_7 stage attempt hpc =>
    obtain rfl := hpc
    have htmp : d.lookup (tmpPath c) = some (stageBytes c stage) := hheld.2
    rw [htmp] at hs
    obtain rfl := Option.some.inj hs
    have hput : ∀ d' : SolveDir, (⟨d', afterReplace stage, n⟩ : State F).put = some stage := by
      intro d'
      cases stage <;> rfl
    rw [hput]
    intro q hq
    by_cases hne : q = resultsPath c
    · subst hne
      rw [ownerOf_resultsPath htask, note_self]
      exact AList.lookup_insert _
    · have hnetmp : q ≠ tmpPath c := fun heq => tmpPath_last (heq ▸ hq)
      refine (AList.lookup_insert_ne hne).trans ((AList.lookup_erase_ne hnetmp).trans ((h q hq).trans ?_))
      rw [ownerOf_note_of_ne htask hq hne]
  case h_8 hpc =>
    obtain rfl := hpc
    obtain ⟨-, rfl⟩ := by simpa using hs
    exact h
  case h_9 results hpc =>
    obtain rfl := hpc
    obtain ⟨-, rfl⟩ := by simpa using hs
    exact h
  case h_10 path content =>
    obtain ⟨-, rfl⟩ := by simpa using hs
    intro q hq
    have hne : path ≠ q := by
      rintro rfl
      exact ha.2 path content rfl hq
    exact (lookup_setFile hne).trans (h q hq)
  case h_11 => cases hs

private theorem tracks_run [JsonFloat F] (htask : c.taskDir = [c.task]) (hattempts : 0 < c.attempts)
    {acts : List (Act F)}
    (hacts : ∀ a ∈ acts, ActOk c a) (hrun : run (step c) (start d) acts = some s) (h : Tracks table d) :
    Tracks (note table c s.put) s.dir ∧ Phase c s := by
  have hwhole : Held c s ∧ Phase c s ∧ Tracks (note table c s.put) s.dir := by
    refine (Along.of_forall hacts).invariant (I := fun s => Held c s ∧ Phase c s ∧ Tracks (note table c s.put) s.dir)
      ?_ hrun ⟨rfl, rfl, h⟩
    rintro s a s' ha hs ⟨hheld, hphase, htracks⟩
    exact ⟨hheld.step hs, hphase.step ha hs, tracks_step htask hattempts ha hheld hphase hs htracks⟩
  exact ⟨hwhole.2.2, hwhole.2.1⟩

/-! ### What all campaigns do to the directory -/

def tableOf (ended : List (SolveCampaign × State F)) (table : Table F) : Table F :=
  ended.foldl (fun table e => note table e.1 e.2.put) table

/-- What a campaign is like when it has stopped. -/
structure Made (c : SolveCampaign) (s : State F) : Prop where
  attempts : 0 < c.attempts
  phase : Phase c s

private theorem play_tracks [JsonFloat F] {ps : List (Played F)} {d' : SolveDir}
    {ended : List (SolveCampaign × State F)}
    (hproper : ∀ p ∈ ps, p.Proper) (hplay : play d ps = some (d', ended)) (h : Tracks table d) :
    Tracks (tableOf ended table) d' ∧ ∀ e ∈ ended, Made e.1 e.2 := by
  induction ps generalizing d table ended with
  | nil =>
    cases hplay
    exact ⟨h, fun e he => absurd he List.not_mem_nil⟩
  | cons p rest ih =>
    obtain ⟨s, hrun, hrest⟩ := Option.bind_eq_some_iff.1 hplay
    obtain ⟨⟨d'', ended'⟩, hplay', heq⟩ := Option.map_eq_some_iff.1 hrest
    cases heq
    have hp := hproper p List.mem_cons_self
    have hacts : ∀ a ∈ p.acts, ActOk p.campaign a := by
      intro a ha
      refine ⟨?_, ?_⟩
      · rintro results rfl
        exact hp.solved results ha
      · rintro path content rfl
        exact hp.file path content ha
    obtain ⟨htracks, hphase⟩ := tracks_run hp.taskDir hp.attempts hacts hrun h
    obtain ⟨htracks', hmade⟩ := ih (fun q hq => hproper q (List.mem_cons_of_mem p hq)) hplay' htracks
    refine ⟨htracks', ?_⟩
    intro e he
    rcases List.mem_cons.1 he with rfl | he
    · exact ⟨hp.attempts, hphase⟩
    · exact hmade e he

theorem Latest.mem {ended : List (SolveCampaign × State F)} (h : Latest ended c s) : (c, s) ∈ ended := by
  obtain ⟨before, after, rfl, -⟩ := h
  exact List.mem_append_right _ List.mem_cons_self

/-- With one more campaign at the end: it is the latest of its task if it has begun, and the others stay. -/
private theorem latest_append {ended : List (SolveCampaign × State F)} {e : SolveCampaign × State F} :
    Latest (ended ++ [e]) c s ↔
      ((c, s) = e ∧ s.put ≠ none) ∨ (Latest ended c s ∧ (e.1.task = c.task → e.2.put = none)) := by
  constructor
  · rintro ⟨before, after, heq, hput, hafter⟩
    rcases List.eq_nil_or_concat after with rfl | ⟨front, x, rfl⟩
    · obtain ⟨-, hlast⟩ := List.append_inj' heq rfl
      exact Or.inl ⟨(List.cons.inj hlast).1.symm, hput⟩
    · rw [List.concat_eq_append, ← List.cons_append, ← List.append_assoc] at heq
      obtain ⟨rfl, hlast⟩ := List.append_inj' heq rfl
      obtain rfl := (List.cons.inj hlast).1
      rw [List.concat_eq_append] at hafter
      refine Or.inr ⟨⟨before, front, rfl, hput, ?_⟩, ?_⟩
      · exact fun x hx => hafter x (List.mem_append_left _ hx)
      · exact hafter e (List.mem_append_right _ List.mem_cons_self)
  · rintro (⟨rfl, hput⟩ | ⟨⟨before, after, rfl, hput, hafter⟩, he⟩)
    · exact ⟨ended, [], rfl, hput, fun x hx => absurd hx List.not_mem_nil⟩
    · refine ⟨before, after ++ [e], by simp, hput, ?_⟩
      intro x hx
      rcases List.mem_append.1 hx with hx | hx
      · exact hafter x hx
      · obtain rfl := List.mem_singleton.1 hx
        exact he

/-- The table is the one of the latest campaigns. -/
private theorem tableOf_eq_some {ended : List (SolveCampaign × State F)} :
    tableOf ended (fun _ => none) task = some (c, stage) ↔
      ∃ s, Latest ended c s ∧ c.task = task ∧ s.put = some stage := by
  induction ended using List.reverseRecOn generalizing c stage with
  | nil =>
    constructor
    · intro h
      cases h
    · rintro ⟨s, hlatest, -⟩
      exact absurd hlatest.mem List.not_mem_nil
  | append_singleton ended e ih =>
    have hfold : tableOf (ended ++ [e]) (fun _ => none) = note (tableOf ended fun _ => none) e.1 e.2.put := by
      rw [tableOf, List.foldl_append]
      rfl
    rw [hfold]
    by_cases hnone : e.2.put = none
    · rw [hnone]
      refine ih.trans (exists_congr fun s => and_congr_left fun hs => ?_)
      rw [latest_append]
      constructor
      · exact fun h => Or.inr ⟨h, fun _ => hnone⟩
      · rintro (⟨rfl, hput⟩ | ⟨h, -⟩)
        · exact absurd hnone hput
        · exact h
    · obtain ⟨put, hput⟩ := Option.ne_none_iff_exists'.1 hnone
      by_cases htask : task = e.1.task
      · subst htask
        rw [hput, note_self, Option.some.injEq, Prod.mk.injEq]
        constructor
        · rintro ⟨rfl, rfl⟩
          exact ⟨e.2, latest_append.2 (Or.inl ⟨rfl, hnone⟩), rfl, hput⟩
        · rintro ⟨s, hlatest, hsame, hs⟩
          rcases latest_append.1 hlatest with ⟨rfl, -⟩ | ⟨-, hno⟩
          · exact ⟨rfl, Option.some.inj (hput.symm.trans hs)⟩
          · exact absurd (hno hsame.symm) hnone
      · rw [note_of_ne htask]
        refine ih.trans (exists_congr fun s => ?_)
        rw [latest_append]
        constructor
        · rintro ⟨hlatest, rfl, hs⟩
          exact ⟨Or.inr ⟨hlatest, fun h => absurd h.symm htask⟩, rfl, hs⟩
        · rintro ⟨⟨rfl, -⟩ | ⟨hlatest, -⟩, hsame, hs⟩
          · exact absurd hsame.symm htask
          · exact ⟨hlatest, hsame, hs⟩

private theorem put_eq_payload : s.put = some (.payload results) ↔ s.pc = .done results := by
  obtain ⟨d, pc, n⟩ := s
  constructor
  · intro h
    unfold State.put at h
    split at h <;> simp_all
  · rintro rfl
    rfl

/-! ### What the loader finds -/

/-- No text of the campaign breaks a line of the file. -/
structure Unbroken (c : SolveCampaign) (s : State F) : Prop where
  task : NoSeparator c.task
  model : NoSeparator c.model
  rows : ∀ results, s.pc = .done results → ∀ r ∈ results, ∀ str ∈ r.texts c.model, NoSeparator str

/-- The records of what a campaign has put. -/
def rowsOf (c : SolveCampaign) : Stage F → List (Fields F)
  | .tombstone => []
  | .payload results => results.map (resultRow c.model c.notes)

def rowsAt (table : Table F) (path : Path) : List (Fields F) :=
  ((ownerOf table path).map fun e => rowsOf e.1 e.2).getD []

variable [JsonFloat F]

private theorem load_stage (h : Unbroken c s) (hput : s.put = some stage) :
    loadResultsFile (stageBytes c stage) = some (rowsOf c stage, 0) := by
  cases stage with
  | tombstone => exact load_tombstone h.task h.model
  | payload results => exact payload_survives_iff.2 (h.rows results (put_eq_payload.1 hput))

private theorem loadFiles_clean {paths : List Path}
    (h : ∀ path ∈ paths, ∃ records : List (Fields F), (d.lookup path).bind loadResultsFile = some (records, 0)) :
    ∃ loaded : List (Path × Fields F), loadFiles d paths = some (loaded, []) := by
  induction paths with
  | nil => exact ⟨[], rfl⟩
  | cons path rest ih =>
    obtain ⟨records, hrecords⟩ := h path List.mem_cons_self
    obtain ⟨loaded, hloaded⟩ := ih fun q hq => h q (List.mem_cons_of_mem path hq)
    refine ⟨records.map (path, ·) ++ loaded, ?_⟩
    rw [loadFiles, hrecords, hloaded]
    rfl

private theorem mem_resultFiles_iff :
    path ∈ resultFiles d ↔ path.getLast? = some "results.jsonl" ∧ ∃ bs, d.lookup path = some bs := by
  rw [resultFiles, List.mem_insertionSort, List.mem_filter, and_comm, ← AList.mem_keys, ← AList.lookup_isSome,
    Option.isSome_iff_exists, beq_iff_eq]

private theorem loadResults_tracked (htracks : Tracks table d)
    (hload : ∀ task c stage, table task = some (c, stage) →
      loadResultsFile (stageBytes c stage) = some (rowsOf c stage, 0)) :
    loadResults d = some ((resultFiles d).flatMap (rowsAt table), []) := by
  have hfile : ∀ path ∈ resultFiles d, (d.lookup path).bind loadResultsFile = some (rowsAt table path, 0) := by
    intro path hpath
    obtain ⟨hlast, bs, hbs⟩ := mem_resultFiles_iff.1 hpath
    have hlookup := htracks path hlast
    rw [hbs] at hlookup
    obtain ⟨⟨c, stage⟩, howner, -⟩ := Option.map_eq_some_iff.1 hlookup.symm
    have htable : ∃ task, table task = some (c, stage) := by
      match path with
      | [] => cases howner
      | [_] => cases howner
      | [task, _] => exact ⟨task, howner⟩
      | _ :: _ :: _ :: _ => cases howner
    obtain ⟨task, htask⟩ := htable
    rw [htracks path hlast, rowsAt, howner]
    exact hload task c stage htask
  obtain ⟨loaded, hloaded⟩ := loadFiles_clean fun path hpath => ⟨_, hfile path hpath⟩
  have hrecords : loaded.map Prod.snd = (resultFiles d).flatMap (rowsAt table) := by
    rw [loadFiles_records hloaded, List.map_flatMap]
    apply List.flatMap_congr
    intro path hpath
    rw [fileRecords, hfile path hpath, List.map_map]
    exact List.map_id _
  rw [loadResults, hloaded, Option.map_some, hrecords]

/-! ### What the report shows -/

section Report

open Report Tally

variable {N : Type}

/-- What the report reads of a record; `num` is the number of a JSON value. -/
def readRecord (num : Value F → Option N) (fields : Fields F) : Record N where
  model := textAt fields "model"
  task := textAt fields "task"
  solved := truthyAt fields "solved"
  iterations := (fields.lookup "iterations").bind num
  durationSec := (fields.lookup "duration_sec").bind num
  errorKind := textAt fields "error_kind"

/-- The record of an attempt, as it is read. -/
def recordOf (num : Value F → Option N) (c : SolveCampaign) (r : AttemptResult F) : Record N :=
  ⟨some c.model.toList, some r.task.toList, r.solved, num (.int r.iterations), num (.float r.durationSec),
    some r.errorKind.toList⟩

private theorem readRecord_resultRow (num : Value F → Option N) (r : AttemptResult F) :
    readRecord num (resultRow c.model c.notes r) = recordOf num c r := rfl

omit [JsonFloat F] in
private theorem pair_recordOf {num : Value F → Option N} {r : AttemptResult F} :
    (recordOf num c r).pair = toLex (c.model.toList, r.task.toList) := rfl

/-- The entries of the table are those of their tasks. -/
structure Keyed (table : Table F) : Prop where
  task : ∀ {task c stage}, table task = some (c, stage) → c.task = task
  rows : ∀ {task c results}, table task = some (c, .payload results) → Solved c results

/-- The records of the whole directory, as the report reads them. -/
def recordsIn (num : Value F → Option N) (table : Table F) (d : SolveDir) : List (Record N) :=
  ((resultFiles d).flatMap (rowsAt table)).map (readRecord num)

private theorem recordsIn_eq (num : Value F → Option N) :
    recordsIn num table d = (resultFiles d).flatMap fun path => (rowsAt table path).map (readRecord num) :=
  List.map_flatMap

omit [JsonFloat F] in
private theorem task_of_solved {r : AttemptResult F} (h : Solved c results) (hr : r ∈ results) : r.task = c.task := by
  obtain ⟨attempt, rfl⟩ := h
  obtain ⟨n, -, rfl⟩ := List.mem_map.1 hr
  rfl

omit [JsonFloat F] in
private theorem length_of_solved (h : Solved c results) : results.length = c.attempts := by
  obtain ⟨attempt, rfl⟩ := h
  rw [solve, List.length_map, List.length_range']

/-- A record at a path is of an attempt of the campaign that the file is from. -/
private theorem mem_rowsAt {num : Value F → Option N} (hkeyed : Keyed table) {r : Record N}
    (hr : r ∈ (rowsAt table path).map (readRecord num)) :
    ∃ task name c results, path = [task, name] ∧ table task = some (c, .payload results) ∧ results ≠ [] ∧
      r.pair = toLex (c.model.toList, task.toList) := by
  obtain ⟨fields, hfields, rfl⟩ := List.mem_map.1 hr
  unfold rowsAt at hfields
  match path with
  | [] => exact absurd hfields List.not_mem_nil
  | [_] => exact absurd hfields List.not_mem_nil
  | _ :: _ :: _ :: _ => exact absurd hfields List.not_mem_nil
  | [task, name] =>
    cases howner : table task with
    | none =>
      rw [ownerOf, howner] at hfields
      exact absurd hfields List.not_mem_nil
    | some e =>
      obtain ⟨c, stage⟩ := e
      rw [ownerOf, howner] at hfields
      cases stage with
      | tombstone => exact absurd hfields List.not_mem_nil
      | payload results =>
        obtain ⟨result, hresult, rfl⟩ := List.mem_map.1 hfields
        refine ⟨task, name, c, results, rfl, howner, List.ne_nil_of_mem hresult, ?_⟩
        rw [readRecord_resultRow, pair_recordOf, task_of_solved (hkeyed.rows howner) hresult, hkeyed.task howner]

private theorem group_latest {num : Value F → Option N} (hkeyed : Keyed table) (htracks : Tracks table d)
    (h : table task = some (c, .payload results)) :
    group Record.pair (recordsIn num table d) (toLex (c.model.toList, task.toList)) = results.map (recordOf num c) := by
  have hmem : [task, "results.jsonl"] ∈ resultFiles d := by
    refine mem_resultFiles_iff.2 ⟨rfl, stageBytes c (.payload results), ?_⟩
    rw [htracks _ rfl, ownerOf, h]
    rfl
  have hown : (rowsAt table [task, "results.jsonl"]).map (readRecord num) = results.map (recordOf num c) := by
    rw [rowsAt, ownerOf, h]
    show (results.map (resultRow c.model c.notes)).map (readRecord num) = _
    rw [List.map_map]
    rfl
  rw [recordsIn_eq, group_flatMap_of_mem nodup_resultFiles hmem ?_, hown]
  · apply group_eq_self
    intro r hr
    obtain ⟨result, hresult, rfl⟩ := List.mem_map.1 hr
    rw [pair_recordOf, task_of_solved (hkeyed.rows h) hresult, hkeyed.task h]
  · intro path hpath hne
    apply group_eq_nil
    intro r hr heq
    obtain ⟨task', name, c', results', rfl, -, -, hpair⟩ := mem_rowsAt hkeyed hr
    have hname : name = "results.jsonl" := by simpa using (mem_resultFiles_iff.1 hpath).1
    have htask : task' ≠ task := by
      rintro rfl
      exact hne (by rw [hname])
    rw [hpair] at heq
    exact htask (String.toList_inj.1 (congrArg (fun k => (ofLex k).2) heq))

variable [Arith N]

/-- The group of the report says what the campaign has come to. -/
structure Shows (g : GroupReport N) (c : SolveCampaign) (results : List (AttemptResult F)) : Prop where
  model : g.stats.model = c.model.toList
  task : g.stats.task = c.task.toList
  attempts : g.stats.attempts = c.attempts
  solved : g.stats.solved = results.countP (·.solved)
  infra : g.stats.infraFailures = results.countP fun r => r.errorKind = "infra" && !r.solved
  passed : g.passed = true ↔ exitCode results = 0

omit [JsonFloat F] in
private theorem exitCode_eq_zero : exitCode results = 0 ↔ 0 < results.countP (·.solved) := by
  unfold exitCode
  rw [List.countP_pos_iff, ← List.any_eq_true]
  by_cases h : results.any (·.solved) = true
  · simp [h]
  · simp [h]

omit [JsonFloat F] in
private theorem shows_latest {num : Value F → Option N} {records : List (Record N)} (taskMeta : Name → Option TaskMeta)
    (hkeyed : Keyed table) (h : table task = some (c, .payload results))
    (hgroup : group Record.pair records (toLex (c.model.toList, task.toList)) = results.map (recordOf num c)) :
    Shows ((groupOf records (toLex (c.model.toList, task.toList))).reported taskMeta) c results := by
  have hsolved : (groupOf records (toLex (c.model.toList, task.toList))).solved = results.countP (·.solved) := by
    rw [solved_groupOf, solvedCount, hgroup, List.countP_map]
    rfl
  refine ⟨rfl, congrArg String.toList (hkeyed.task h).symm, ?_, hsolved, ?_, ?_⟩
  · show (groupOf records _).attempts = _
    rw [attempts_groupOf, hgroup, List.length_map, length_of_solved (hkeyed.rows h)]
  · show (groupOf records _).infraFailures = _
    have hinfra := (counts_foldl (group Record.pair records (toLex (c.model.toList, task.toList))) Counts.zero).2.2
    refine hinfra.trans ?_
    rw [hgroup, List.countP_map]
    refine (Nat.zero_add _).trans (List.countP_congr fun r _ => ?_)
    have hkind : some r.errorKind.toList = some "infra".toList ↔ r.errorKind = "infra" := by
      rw [Option.some.injEq, String.toList_inj]
    simp only [Function.comp_apply, Record.isInfra, recordOf, Bool.and_eq_true, decide_eq_true_eq, hkind]
  · rw [exitCode_eq_zero, ← hsolved]
    exact decide_eq_true_iff

end Report

/-- Solved at the second attempt. -/
def secondTry (n : Nat) : AttemptEnd LitFloat := ⟨decide (n = 2), 3, halfSecond, none, "none"⟩

/-- A campaign of two attempts that goes to its end. -/
def blinkTwice : Played LitFloat where
  campaign := ⟨["blink"], "blink", false, "m", 2, 7⟩
  acts := [.cleaned, .truncate, .write 150, .written, .replaced, .attempt, .attempt,
    .solved (solve "blink" 2 secondTry), .truncate, .write 500, .written, .replaced]

/-- A campaign that dies in its first attempt. -/
def meteoDies : Played LitFloat where
  campaign := ⟨["meteo"], "meteo", false, "m", 1, 8⟩
  acts := [.cleaned, .truncate, .write 150, .written, .denied, .replaced, .attempt,
    .file ["meteo", "attempt-1", "main.py"] (some [])]

private theorem blinkTwice_proper : blinkTwice.Proper where
  taskDir := rfl
  attempts := by decide
  solved := by
    intro results h
    simp only [blinkTwice, List.mem_cons, reduceCtorEq, Act.solved.injEq, List.not_mem_nil, or_false, false_or] at h
    exact ⟨secondTry, h⟩
  file := by
    intro path content h
    simp [blinkTwice] at h

private theorem meteoDies_proper : meteoDies.Proper where
  taskDir := rfl
  attempts := by decide
  solved := by
    intro results h
    simp [meteoDies] at h
  file := by
    intro path content h
    simp only [meteoDies, List.mem_cons, reduceCtorEq, Act.file.injEq, List.not_mem_nil, or_false, false_or] at h
    rw [h.1]
    decide

end IronHarness.Campaign
