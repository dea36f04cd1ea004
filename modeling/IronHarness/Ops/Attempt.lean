import IronHarness.Lib.Traced
import IronHarness.Ops.Checks
import IronHarness.Ops.Wire

/-!
# One attempt

`run_ops_attempt` and `_best_effort_restore` (ironbench/ops_run.py): assets and preflight, the setup steps, the arm, the
judge, the restore steps.  Every call out of the pipeline may raise anything; the trace of a run is what it has called.

Behind the beginning of the setup, the restore steps are started exactly once and behind the judge if and only if
nothing on the way raises past the `except` clauses of its stage (`restored_iff`).
-/

namespace IronHarness.Ops

open Traced

/-! ### Calls -/

inductive Phase
  | setup
  | restore
  deriving DecidableEq

inductive Stage
  | assets
  | preflight
  | arm
  deriving DecidableEq

/-- A line of the journal. -/
inductive JournalLine
  | step (phase : Phase) (index : Nat)
  | stepFailed (phase : Phase) (index : Nat)
  | stepDone (phase : Phase) (index : Nat)
  | attemptInfra (stage : Stage)
  deriving DecidableEq

/-- What the pipeline calls: the texts are files of the run directory, `check` is a check of the judge. -/
inductive Effect
  | resolveAssets
  | opsPreflight
  | preflightLog
  | journal (line : JournalLine)
  | runStep (phase : Phase) (index : Nat)
  | sandboxMkdir
  | transcriptText
  | check (index : Nat)
  | judgeText
  | journalCoverage
  | resultText
  deriving DecidableEq

inductive Event
  | begins (phase : Phase)
  | done (effect : Effect)
  deriving DecidableEq

/-- An exception of the pipeline: one that a call has raised, or an `OpsSetupError` of `run_steps`. -/
inductive Exn
  | fault (f : Fault)
  | opsSetupError
  deriving DecidableEq

def Exn.isException : Exn → Bool
  | .fault f => f.isException
  | .opsSetupError => true

def Exn.isOpsSetupError : Exn → Bool
  | .fault _ => false
  | .opsSetupError => true

def Exn.isConnectionError : Exn → Bool
  | .fault f => f == .connection
  | .opsSetupError => false

abbrev Run := Traced Exn Event

/-! ### The task and its surroundings -/

structure OpsStep where
  kind : Text

/-- A check that the loader has accepted: the judge has a method for each of the kinds. -/
structure OpsCheck where
  kind : Checks.CheckKind

structure OpsTask where
  setup : List OpsStep
  restore : List OpsStep
  judge : List OpsCheck
  allowedTools : List Text
  maxIterations : Nat

inductive Arm
  | bare
  | mcp
  deriving DecidableEq

/-- The arguments of `run_ops_attempt`; `mcpFactory` is `mcp_client_factory is not None`. -/
structure Options where
  arm : Arm
  preflight : Bool
  mcpFactory : Bool

variable {F : Type}

/-- Everything outside the pipeline: what the calls raise, what the checks of the judge find, what the arms meet. -/
structure World (F : Type) where
  raises : Effect → Option Fault
  passes : Nat → Bool
  py : Builtins F
  answers : Python.Json → Bool
  bare : BareRun
  mcp : McpRun F

section

variable (world : World F)

/-- A call out of the pipeline. -/
def perform (e : Effect) : Run Unit :=
  ⟨match world.raises e with | some f => .error (.fault f) | none => .ok (), [.done e]⟩

def runArm [JsonText.JsonFloat F] (task : OpsTask) (arm : Arm) : Except Fault ArmResult :=
  match arm with
  | .bare => BareArm.attempt world.py task.maxIterations world.bare
  | .mcp => McpArm.attempt world.py world.answers task.allowedTools task.maxIterations world.mcp

/-! ### Stages -/

/-- The loop of `run_steps`. -/
def stepsFrom (phase : Phase) : Nat → List OpsStep → Run Unit
  | _, [] => pure ()
  | i, _ :: steps => do
    perform world (.journal (.step phase i))
    (perform world (.runStep phase i)).tryExcept Exn.isException
      (fun _ => do
        perform world (.journal (.stepFailed phase i))
        raise .opsSetupError)
      fun _ => do
        perform world (.journal (.stepDone phase i))
        stepsFrom phase (i + 1) steps

def runSteps (phase : Phase) (steps : List OpsStep) : Run Unit := do
  emit (.begins phase)
  stepsFrom world phase 0 steps

/-- Whether the restore has failed. -/
def bestEffortRestore (task : OpsTask) : Run Bool :=
  if task.restore.isEmpty then pure false
  else
    (runSteps world .restore task.restore).tryExcept Exn.isOpsSetupError (fun _ => pure true) fun _ => pure false

/-- `OpsJudge.run`: an error of a check is an outcome. -/
def judge : Nat → List OpsCheck → Run (List Bool)
  | _, [] => pure []
  | i, _ :: checks => do
    let passed ← (perform world (.check i)).tryExcept Exn.isException (fun _ => pure false) fun _ => pure (world.passes i)
    let outcomes ← judge (i + 1) checks
    return passed :: outcomes

inductive RowError
  | assets
  | preflight
  | setup
  | arm
  | restore
  deriving DecidableEq

inductive RowErrorKind
  | none
  | infra
  | timeout
  deriving DecidableEq

/-- The row of an attempt. -/
structure Row where
  solved : Bool
  claimed : Option Verdict
  silentFailure : Bool
  iterations : Nat
  tokensIn : Nat
  tokensOut : Nat
  error : Option RowError
  errorKind : RowErrorKind
  judge : List Bool
  restoreFailed : Bool

def infraRow (error : RowError) : Row := ⟨false, none, false, 0, 0, 0, some error, .infra, [], false⟩

def finish (row : Row) : Run Row := do
  perform world .resultText
  return row

/-- Whether the judge is asked. -/
def ArmResult.isJudged (r : ArmResult) : Bool := 0 < r.turns.length && !r.timedOut

def judgeStage (task : OpsTask) (r : ArmResult) : Run (List Bool) :=
  if r.isJudged then judge world 0 task.judge else pure []

/-- Behind the arm. -/
def afterArm (task : OpsTask) (r : ArmResult) : Run Row := do
  perform world .transcriptText
  let outcomes ← judgeStage world task r
  let solved := r.isJudged && outcomes.all id
  perform world .judgeText
  perform world .journalCoverage
  let restoreFailed ← bestEffortRestore world task
  let errorKind : RowErrorKind :=
    if r.timedOut then .timeout else if restoreFailed && !solved then .infra else .none
  finish world
    { solved := solved
      claimed := r.claimed
      silentFailure := r.claimed = some .success && !solved
      iterations := r.turns.length
      tokensIn := r.tokensIn
      tokensOut := r.tokensOut
      error := if restoreFailed then some .restore else none
      errorKind := errorKind
      judge := outcomes
      restoreFailed := restoreFailed }

/-- `except (OSError, McpWireError)` behind the run of the arm. -/
def Exn.isInfra : Exn → Bool
  | .fault f => f.isInfra
  | .opsSetupError => false

def armStage [JsonText.JsonFloat F] (task : OpsTask) (opts : Options) : Run ArmResult :=
  match runArm world task opts.arm with
  | .ok r => pure r
  | .error f => raise (.fault f)

def sandboxStage (opts : Options) : Run Unit :=
  if opts.arm = .mcp ∧ opts.mcpFactory = false then perform world .sandboxMkdir else pure ()

/-- Behind the setup. -/
def afterSetup [JsonText.JsonFloat F] (task : OpsTask) (opts : Options) : Run Row := do
  sandboxStage world opts
  (armStage world task opts).tryExcept Exn.isInfra
    (fun _ => do
      perform world (.journal (.attemptInfra .arm))
      let _ ← bestEffortRestore world task
      finish world (infraRow .arm))
    (afterArm world task)

/-- From the setup on. -/
def fromSetup [JsonText.JsonFloat F] (task : OpsTask) (opts : Options) : Run Row :=
  (runSteps world .setup task.setup).tryExcept Exn.isOpsSetupError
    (fun _ => do
      let _ ← bestEffortRestore world task
      finish world (infraRow .setup))
    fun _ => afterSetup world task opts

def preflight (opts : Options) : Run Unit :=
  if opts.preflight then do
    perform world .opsPreflight
    perform world .preflightLog
  else pure ()

def runOpsAttempt [JsonText.JsonFloat F] (task : OpsTask) (opts : Options) : Run Row :=
  (perform world .resolveAssets).tryExcept Exn.isException
    (fun _ => do
      perform world (.journal (.attemptInfra .assets))
      finish world (infraRow .assets))
    fun _ =>
      (preflight world opts).tryExcept Exn.isConnectionError
        (fun _ => do
          perform world (.journal (.attemptInfra .preflight))
          finish world (infraRow .preflight))
        fun _ => fromSetup world task opts

end

/-! ### Started once -/

/-- The first restore step. -/
def Event.starts : Event → Bool
  | .done (.runStep .restore 0) => true
  | _ => false

def Event.isCheck : Event → Bool
  | .done (.check _) => true
  | _ => false

/-- The restore steps are started once, and no check of the judge comes behind. -/
structure RestoredOnce (trace : List Event) : Prop where
  once : trace.countP Event.starts = 1
  last : trace.Pairwise fun e e' => e.starts = true → e'.isCheck = false

private theorem awaits_begins (phase : Phase) :
    Awaits (fun e : Event => e = .begins phase) fun t => .begins phase ∈ t := by
  constructor
  · intro a b ha
    rw [List.mem_append]
    exact ⟨fun h => h.resolve_left fun hmem => ha _ hmem rfl, Or.inr⟩
  · simp

private theorem awaits_restoredOnce : Awaits (fun e : Event => e.starts = true) RestoredOnce := by
  constructor
  · intro a b ha
    have hcount : (a ++ b).countP Event.starts = b.countP Event.starts := by
      rw [List.countP_append, List.countP_eq_zero.2 ha, Nat.zero_add]
    constructor
    · rintro ⟨honce, hlast⟩
      exact ⟨hcount ▸ honce, (List.pairwise_append.1 hlast).2.1⟩
    · rintro ⟨honce, hlast⟩
      refine ⟨hcount.trans honce, List.pairwise_append.2 ⟨?_, hlast, ?_⟩⟩
      · exact List.pairwise_of_forall_mem_list fun e he _ _ hstarts => absurd hstarts (ha e he)
      · exact fun e he _ _ hstarts => absurd hstarts (ha e he)
  · rintro ⟨honce, -⟩
    cases honce

section

variable {world : World F} {p : Event → Prop}

private theorem avoids_perform {e : Effect} (h : ¬ p (.done e)) : Avoids p (perform world e) := by
  simpa [Avoids, perform] using h

private theorem result_perform_ok {e : Effect} {u : Unit} :
    (perform world e).result = .ok u ↔ world.raises e = none := by
  cases h : world.raises e <;> simp [perform, h]

private theorem result_perform_error {e : Effect} {exn : Exn} :
    (perform world e).result = .error exn ↔ ∃ f, world.raises e = some f ∧ .fault f = exn := by
  cases h : world.raises e <;> simp [perform, h]

private theorem avoids_finish {row : Row} (h : ¬ p (.done .resultText)) : Avoids p (finish world row) :=
  (avoids_perform h).bind fun _ => avoids_pure _

/-- What the steps of a phase do, from the step `i` on. -/
private theorem avoids_stepsFrom {phase : Phase} {i : Nat} {steps : List OpsStep}
    (hstep : ∀ j, i ≤ j → ¬ p (.done (.runStep phase j)))
    (hline : ∀ line, ¬ p (.done (.journal line))) : Avoids p (stepsFrom world phase i steps) := by
  induction steps generalizing i with
  | nil => exact avoids_pure _
  | cons step steps ih =>
    refine (avoids_perform (hline _)).bind fun _ => (avoids_perform (hstep i le_rfl)).tryExcept (fun _ => ?_) fun _ => ?_
    · exact (avoids_perform (hline _)).bind fun _ => avoids_raise _
    · exact (avoids_perform (hline _)).bind fun _ => ih fun j hj => hstep j (by omega)

private theorem avoids_judge {i : Nat} {checks : List OpsCheck} (h : ∀ j, ¬ p (.done (.check j))) :
    Avoids p (judge world i checks) := by
  induction checks generalizing i with
  | nil => exact avoids_pure _
  | cons check checks ih =>
    refine Avoids.bind ((avoids_perform (h i)).tryExcept (fun _ => avoids_pure _) fun _ => avoids_pure _) fun _ => ?_
    exact ih.bind fun _ => avoids_pure _

private theorem restoredOnce_cons {e : Event} {t : List Event} (he : e.starts = true)
    (hstarts : ∀ e ∈ t, ¬ e.starts = true)
    (hchecks : ∀ e ∈ t, ¬ e.isCheck = true) : RestoredOnce (e :: t) := by
  constructor
  · rw [List.countP_cons_of_pos he, List.countP_eq_zero.2 hstarts]
  · rw [List.pairwise_cons]
    refine ⟨fun e' he' _ => by simpa using hchecks e' he', ?_⟩
    exact List.pairwise_of_forall_mem_list fun e he _ _ h => absurd h (hstarts e he)

/-- Where the line before a step is written, the step comes next. -/
private theorem trace_stepsFrom_cons {phase : Phase} {i : Nat} {step : OpsStep} {steps : List OpsStep}
    (h : world.raises (.journal (.step phase i)) = none) (hstep : ∀ j, i < j → ¬ p (.done (.runStep phase j)))
    (hline : ∀ line, ¬ p (.done (.journal line))) :
    ∃ more, (stepsFrom world phase i (step :: steps)).trace =
        .done (.journal (.step phase i)) :: .done (.runStep phase i) :: more ∧ ∀ e ∈ more, ¬ p e := by
  rw [stepsFrom, bind_ok (a := ()) (result_perform_ok.2 h)]
  obtain ⟨more, htrace, hmore⟩ := trace_tryExcept (perform world (.runStep phase i)) Exn.isException
    (fun _ => do
      perform world (.journal (.stepFailed phase i))
      raise .opsSetupError)
    (fun _ => do
      perform world (.journal (.stepDone phase i))
      stepsFrom world phase (i + 1) steps)
  refine ⟨more, ?_, ?_⟩
  · show [_] ++ _ = _
    rw [htrace]
    rfl
  · rcases hmore with rfl | ⟨-, rfl⟩ | ⟨-, rfl⟩
    · simp
    · exact (avoids_perform (hline _)).bind fun _ => avoids_stepsFrom (fun j hj => hstep j (by omega)) hline
    · exact (avoids_perform (hline _)).bind fun _ => avoids_raise _

/-- Behind the judge, everything hangs on the line of the journal before the first restore step. -/
private theorem restoredOnce_restore {task : OpsTask} (hrestore : task.restore ≠ []) {rest : Bool → Run Row}
    (hstarts : ∀ b, Avoids (fun e => e.starts = true) (rest b)) (hchecks : ∀ b, Avoids (fun e => e.isCheck = true) (rest b)) :
    RestoredOnce (bestEffortRestore world task >>= rest).trace ↔
      world.raises (.journal (.step .restore 0)) = none := by
  obtain ⟨step, steps, hsteps⟩ := List.exists_cons_of_ne_nil hrestore
  have hbody : bestEffortRestore world task =
      (runSteps world .restore (step :: steps)).tryExcept Exn.isOpsSetupError (fun _ => pure true) fun _ => pure false := by
    simp [bestEffortRestore, hsteps]
  rw [hbody]
  cases hraises : world.raises (.journal (.step .restore 0)) with
  | some f =>
    have hline : (stepsFrom world .restore 0 (step :: steps)) =
        ⟨.error (.fault f), [.done (.journal (.step .restore 0))]⟩ := by
      rw [stepsFrom, bind_error (result_perform_error.2 ⟨f, hraises, rfl⟩)]
      rfl
    have havoids : Avoids (fun e : Event => e.starts = true) (runSteps world .restore (step :: steps)) := by
      refine (avoids_emit (by simp [Event.starts])).bind fun _ => ?_
      rw [hline]
      simp [Avoids, Event.starts]
    simp only [reduceCtorEq, iff_false]
    exact awaits_restoredOnce.not_of_avoids
      ((havoids.tryExcept (fun _ => avoids_pure _) fun _ => avoids_pure _).bind hstarts)
  | none =>
    simp only [iff_true]
    obtain ⟨more, hmore, hquiet⟩ : ∃ more, (stepsFrom world .restore 0 (step :: steps)).trace =
        .done (.journal (.step .restore 0)) :: .done (.runStep .restore 0) :: more ∧
          ∀ e ∈ more, ¬ (e.starts = true ∨ e.isCheck = true) := by
      refine trace_stepsFrom_cons hraises (fun j hj => ?_) (by simp [Event.starts, Event.isCheck])
      cases j with
      | zero => exact absurd hj (Nat.lt_irrefl 0)
      | succ j => simp [Event.starts, Event.isCheck]
    obtain ⟨last, hlast, hrest⟩ := trace_bind
      ((runSteps world .restore (step :: steps)).tryExcept Exn.isOpsSetupError (fun _ => pure true) fun _ => pure false)
      rest
    obtain ⟨nothing, hinner, hnothing⟩ := trace_tryExcept (runSteps world .restore (step :: steps)) Exn.isOpsSetupError
      (fun _ => (pure true : Run Bool)) fun _ => pure false
    have hnil : nothing = [] := by
      rcases hnothing with rfl | ⟨-, rfl⟩ | ⟨-, rfl⟩ <;> rfl
    have hbegins : (runSteps world .restore (step :: steps)).trace =
        .begins .restore :: (stepsFrom world .restore 0 (step :: steps)).trace := rfl
    rw [hlast, hinner, hnil, hbegins, hmore, List.append_nil]
    have hskip : ∀ e ∈ [Event.begins .restore, .done (.journal (.step .restore 0))], ¬ e.starts = true := by
      simp [Event.starts]
    refine (awaits_restoredOnce.skip hskip).2 (restoredOnce_cons rfl ?_ ?_)
    · intro e he
      rcases List.mem_append.1 he with he | he
      · exact fun hstarts' => hquiet e he (Or.inl hstarts')
      · rcases hrest with rfl | ⟨b, rfl⟩
        · cases he
        · exact hstarts b e he
    · intro e he
      rcases List.mem_append.1 he with he | he
      · exact fun hcheck => hquiet e he (Or.inr hcheck)
      · rcases hrest with rfl | ⟨b, rfl⟩
        · cases he
        · exact hchecks b e he

/-! ### What the setup raises -/

end

/-- Every call of the steps from `i` on succeeds. -/
def StepsDone (world : World F) (phase : Phase) : Nat → List OpsStep → Prop
  | _, [] => True
  | i, _ :: steps =>
    world.raises (.journal (.step phase i)) = none ∧ world.raises (.runStep phase i) = none ∧
      world.raises (.journal (.stepDone phase i)) = none ∧ StepsDone world phase (i + 1) steps

/-- A step fails, with an `Exception`, and all lines of the journal up to this one are written. -/
def StepFails (world : World F) (phase : Phase) : Nat → List OpsStep → Prop
  | _, [] => False
  | i, _ :: steps =>
    world.raises (.journal (.step phase i)) = none ∧
      (world.raises (.runStep phase i) = none ∧ world.raises (.journal (.stepDone phase i)) = none ∧
          StepFails world phase (i + 1) steps ∨
        ∃ f, world.raises (.runStep phase i) = some f ∧ f.isException = true ∧
          world.raises (.journal (.stepFailed phase i)) = none)

section

variable {world : World F} {phase : Phase}

private theorem stepsFrom_ok {i : Nat} {steps : List OpsStep} {u : Unit} :
    (stepsFrom world phase i steps).result = .ok u ↔ StepsDone world phase i steps := by
  induction steps generalizing i with
  | nil => simp [stepsFrom, StepsDone]
  | cons step steps ih =>
    simp [stepsFrom, StepsDone, result_bind, result_tryExcept, result_perform_ok, ih]

private theorem stepsFrom_opsSetupError {i : Nat} {steps : List OpsStep} :
    (stepsFrom world phase i steps).result = .error .opsSetupError ↔ StepFails world phase i steps := by
  induction steps generalizing i with
  | nil => simp [stepsFrom, StepFails]
  | cons step steps ih =>
    simp [stepsFrom, StepFails, result_bind, result_tryExcept, result_perform_ok, result_perform_error, Exn.isException, ih]

private theorem runSteps_result {steps : List OpsStep} :
    (runSteps world phase steps).result = (stepsFrom world phase 0 steps).result := rfl

/-! ### Behind the setup -/

/-- What it takes for the restore steps to be started once the arm has returned. -/
structure ArmPasses (world : World F) (task : OpsTask) (r : ArmResult) : Prop where
  transcript : world.raises .transcriptText = none
  checks : r.isJudged = true → ∀ i < task.judge.length, world.raises (.check i) ≠ some .interrupt
  judgeText : world.raises .judgeText = none
  journalCoverage : world.raises .journalCoverage = none

private theorem check_ok (i : Nat) (passed : Bool) :
    (∃ outcome, ((perform world (.check i)).tryExcept Exn.isException (fun _ => pure false)
      fun _ => pure passed).result = .ok outcome) ↔ world.raises (.check i) ≠ some .interrupt := by
  simp only [result_tryExcept, result_perform_ok, result_perform_error, result_pure]
  cases hraises : world.raises (.check i) with
  | none => simp
  | some f => cases f <;> simp [Exn.isException, Fault.isException]

/-- The judge returns if no check is interrupted. -/
private theorem judge_ok {i : Nat} {checks : List OpsCheck} :
    (∃ outcomes, (judge world i checks).result = .ok outcomes) ↔
      ∀ j < checks.length, world.raises (.check (i + j)) ≠ some .interrupt := by
  induction checks generalizing i with
  | nil => simp [judge]
  | cons check checks ih =>
    have hnext : (∀ j < checks.length, world.raises (.check (i + (j + 1))) ≠ some .interrupt) ↔
        ∃ outcomes, (judge world (i + 1) checks).result = .ok outcomes := by
      rw [ih]
      simp only [Nat.add_assoc, Nat.add_comm 1]
    rw [List.length_cons, Nat.forall_lt_succ_left, Nat.add_zero, ← check_ok i (world.passes i)]
    rw [hnext]
    simp only [judge, result_bind, reduceCtorEq, and_false, exists_false, or_false]
    constructor
    · rintro ⟨outcomes, passed, hpassed, later, hlater, -⟩
      exact ⟨⟨passed, hpassed⟩, later, hlater⟩
    · rintro ⟨⟨passed, hpassed⟩, later, hlater⟩
      exact ⟨passed :: later, passed, hpassed, later, hlater, rfl⟩

private theorem restoredOnce_perform {α : Type} {e : Effect} {rest : Unit → Run α} (h : (Event.done e).starts = false) :
    RestoredOnce (perform world e >>= rest).trace ↔ world.raises e = none ∧ RestoredOnce (rest ()).trace := by
  rw [awaits_restoredOnce.bind (avoids_perform (by simp [h]))]
  simp only [result_perform_ok]
  exact ⟨fun ⟨_, hok, hrest⟩ => ⟨hok, hrest⟩, fun ⟨hok, hrest⟩ => ⟨(), hok, hrest⟩⟩

private theorem restoredOnce_afterArm {task : OpsTask} (hrestore : task.restore ≠ []) (r : ArmResult) :
    RestoredOnce (afterArm world task r).trace ↔
      ArmPasses world task r ∧ world.raises (.journal (.step .restore 0)) = none := by
  have htail : ∀ (rest : Bool → Row), RestoredOnce (do
      let restoreFailed ← bestEffortRestore world task
      finish world (rest restoreFailed) : Run Row).trace ↔ world.raises (.journal (.step .restore 0)) = none :=
    fun rest => restoredOnce_restore hrestore (fun b => avoids_finish (by simp [Event.starts]))
      fun b => avoids_finish (by simp [Event.isCheck])
  have hjudge : Avoids (fun e => e.starts = true) (judgeStage world task r) := by
    unfold judgeStage
    split
    · exact avoids_judge (by simp [Event.starts])
    · exact avoids_pure _
  have hjudged : (∃ outcomes, (judgeStage world task r).result = .ok outcomes) ↔
      (r.isJudged = true → ∀ i < task.judge.length, world.raises (.check i) ≠ some .interrupt) := by
    unfold judgeStage
    cases r.isJudged with
    | true => simpa using judge_ok (i := 0)
    | false => simp
  unfold afterArm
  rw [restoredOnce_perform rfl, awaits_restoredOnce.bind hjudge]
  simp only [restoredOnce_perform (e := .judgeText) rfl, restoredOnce_perform (e := .journalCoverage) rfl, htail]
  constructor
  · rintro ⟨htranscript, outcomes, houtcomes, htext, hcoverage, hline⟩
    exact ⟨⟨htranscript, hjudged.1 ⟨outcomes, houtcomes⟩, htext, hcoverage⟩, hline⟩
  · rintro ⟨⟨htranscript, hchecks, htext, hcoverage⟩, hline⟩
    obtain ⟨outcomes, houtcomes⟩ := hjudged.2 hchecks
    exact ⟨htranscript, outcomes, houtcomes, htext, hcoverage, hline⟩

/-! ### The whole attempt -/

/-- What the arm raises is caught, and put down. -/
def ArmFails (world : World F) (f : Fault) : Prop :=
  f.isInfra = true ∧ world.raises (.journal (.attemptInfra .arm)) = none

/-- Nothing raises past the `except` clauses of its stage between the beginning of the setup and the first restore step. -/
structure Survives [JsonText.JsonFloat F] (world : World F) (task : OpsTask) (opts : Options) : Prop where
  line : world.raises (.journal (.step .restore 0)) = none
  stages : StepFails world .setup 0 task.setup ∨
    StepsDone world .setup 0 task.setup ∧
      (opts.arm = .mcp ∧ opts.mcpFactory = false → world.raises .sandboxMkdir = none) ∧
      ((∃ f, runArm world task opts.arm = .error f ∧ ArmFails world f) ∨
        ∃ r, runArm world task opts.arm = .ok r ∧ ArmPasses world task r)

private theorem restoredOnce_afterSetup [JsonText.JsonFloat F] {task : OpsTask} (hrestore : task.restore ≠ [])
    (opts : Options) :
    RestoredOnce (afterSetup world task opts).trace ↔
      world.raises (.journal (.step .restore 0)) = none ∧
        (opts.arm = .mcp ∧ opts.mcpFactory = false → world.raises .sandboxMkdir = none) ∧
        ((∃ f, runArm world task opts.arm = .error f ∧ ArmFails world f) ∨
          ∃ r, runArm world task opts.arm = .ok r ∧ ArmPasses world task r) := by
  have hsandbox : Avoids (fun e => e.starts = true) (sandboxStage world opts) := by
    unfold sandboxStage
    split
    · exact avoids_perform (by simp [Event.starts])
    · exact avoids_pure _
  have hmade : (∃ u, (sandboxStage world opts).result = .ok u) ↔
      (opts.arm = .mcp ∧ opts.mcpFactory = false → world.raises .sandboxMkdir = none) := by
    unfold sandboxStage
    split
    · rename_i hmcp
      simp [result_perform_ok, hmcp]
    · rename_i hmcp
      simp [hmcp]
  have hreturns : ∀ r, (armStage world task opts).result = .ok r ↔ runArm world task opts.arm = .ok r := by
    intro r
    unfold armStage
    cases runArm world task opts.arm <;> simp
  have hraises : ∀ e, (armStage world task opts).result = .error e ↔
      ∃ f, runArm world task opts.arm = .error f ∧ .fault f = e := by
    intro e
    unfold armStage
    cases runArm world task opts.arm <;> simp
  have harm : Avoids (fun e => e.starts = true) (armStage world task opts) := by
    unfold armStage
    split
    · exact avoids_pure _
    · exact avoids_raise _
  unfold afterSetup
  rw [awaits_restoredOnce.bind hsandbox]
  simp only [awaits_restoredOnce.tryExcept harm, restoredOnce_afterArm hrestore,
    restoredOnce_perform (e := .journal (.attemptInfra .arm)) rfl,
    restoredOnce_restore hrestore (fun _ => avoids_finish (by simp [Event.starts]))
      fun _ => avoids_finish (by simp [Event.isCheck]), hreturns, hraises]
  rw [← hmade]
  constructor
  · rintro ⟨u, hu, ⟨r, hr, hpasses, hline⟩ | ⟨-, ⟨f, hf, rfl⟩, hcaught, hjournal, hline⟩⟩
    · exact ⟨hline, ⟨u, hu⟩, Or.inr ⟨r, hr, hpasses⟩⟩
    · exact ⟨hline, ⟨u, hu⟩, Or.inl ⟨f, hf, hcaught, hjournal⟩⟩
  · rintro ⟨hline, ⟨u, hu⟩, ⟨f, hf, hcaught, hjournal⟩ | ⟨r, hr, hpasses⟩⟩
    · exact ⟨u, hu, Or.inr ⟨_, ⟨f, hf, rfl⟩, hcaught, hjournal, hline⟩⟩
    · exact ⟨u, hu, Or.inl ⟨r, hr, hpasses, hline⟩⟩

private theorem restoredOnce_fromSetup [JsonText.JsonFloat F] {task : OpsTask} (hrestore : task.restore ≠ [])
    (opts : Options) :
    RestoredOnce (fromSetup world task opts).trace ↔ Survives world task opts := by
  have hsetup : Avoids (fun e => e.starts = true) (runSteps world .setup task.setup) := by
    refine (avoids_emit (by simp [Event.starts])).bind fun _ => ?_
    exact avoids_stepsFrom (by simp [Event.starts]) (by simp [Event.starts])
  unfold fromSetup
  simp only [awaits_restoredOnce.tryExcept hsetup, runSteps_result, stepsFrom_ok, restoredOnce_afterSetup hrestore,
    restoredOnce_restore hrestore (fun _ => avoids_finish (by simp [Event.starts]))
      fun _ => avoids_finish (by simp [Event.isCheck])]
  constructor
  · rintro (⟨-, hdone, hline, hstages⟩ | ⟨e, he, hcaught, hline⟩)
    · exact ⟨hline, Or.inr ⟨hdone, hstages⟩⟩
    · cases e with
      | fault f => cases hcaught
      | opsSetupError => exact ⟨hline, Or.inl (stepsFrom_opsSetupError.1 he)⟩
  · rintro ⟨hline, hfails | ⟨hdone, hstages⟩⟩
    · exact Or.inr ⟨.opsSetupError, stepsFrom_opsSetupError.2 hfails, rfl, hline⟩
    · exact Or.inl ⟨(), hdone, hline, hstages⟩

/-- Once the setup has begun, the restore steps are started exactly once, and no check comes behind, if and only if no
call on the way raises past the `except` clauses of its stage. -/
theorem restored_iff [JsonText.JsonFloat F] (world : World F) (task : OpsTask) (opts : Options)
    (hrestore : task.restore ≠ []) (hbegun : .begins .setup ∈ (runOpsAttempt world task opts).trace) :
    RestoredOnce (runOpsAttempt world task opts).trace ↔ Survives world task opts := by
  rw [← restoredOnce_fromSetup hrestore]
  have hearly : ∀ stage row, Avoids (fun e => e = .begins .setup) (do
      perform world (.journal (.attemptInfra stage))
      finish world row : Run Row) := fun stage row =>
    (avoids_perform (by simp)).bind fun _ => avoids_finish (by simp)
  have hpreflight : ∀ p : Event → Prop, (∀ e : Effect, e = .opsPreflight ∨ e = .preflightLog → ¬ p (.done e)) →
      Avoids p (preflight world opts) := by
    intro p hp
    unfold preflight
    split
    · exact (avoids_perform (hp _ (Or.inl rfl))).bind fun _ => avoids_perform (hp _ (Or.inr rfl))
    · exact avoids_pure _
  unfold runOpsAttempt at hbegun ⊢
  -- the setup begins only where no early stage has raised
  rw [(awaits_begins .setup).tryExcept (avoids_perform (by simp))] at hbegun
  rcases hbegun with ⟨u, hassets, hbegun⟩ | ⟨-, -, -, hbegun⟩
  · rw [(awaits_begins .setup).tryExcept (hpreflight _ (by simp))] at hbegun
    rcases hbegun with ⟨v, hlog, -⟩ | ⟨-, -, -, hbegun⟩
    · have hstarts : Avoids (fun e => e.starts = true) (preflight world opts) := hpreflight _ (by simp [Event.starts])
      rw [awaits_restoredOnce.tryExcept (avoids_perform (by simp [Event.starts]))]
      simp [hassets, awaits_restoredOnce.tryExcept hstarts, hlog]
    · exact absurd hbegun ((awaits_begins .setup).not_of_avoids (hearly _ _))
  · exact absurd hbegun ((awaits_begins .setup).not_of_avoids (hearly _ _))

/-! ### Two runs of one task -/

/-- Wipes the board before, puts the firmware back behind, and has one check. -/
def wipeTask : OpsTask where
  setup := [⟨"wipe_flash".toList⟩]
  restore := [⟨"flash_asset".toList⟩]
  judge := [⟨.bootExpect⟩]
  allowedTools := ["serial".toList]
  maxIterations := 1

def mcpOptions : Options := ⟨.mcp, false, true⟩

/-- A bench on which no call raises; the model claims success at once. -/
def calmWorld (tools : Python.Json) : World JsonText.LitFloat where
  raises := fun _ => none
  passes := fun _ => true
  py := ⟨fun _ => [], id, fun _ => false, fun _ => none⟩
  answers := fun id => match id with | .int 3 => true | _ => false
  bare := ⟨none, [], .other⟩
  mcp :=
    { client := none
      tools := ⟨false, none, [.value (.obj [(Python.points "id", .int 3), (Python.points "result", tools)])]⟩
      rounds := [.reply ⟨"CLAIM: SUCCESS".toList, [], 0, 0, ⟨true, []⟩⟩]
      broken := .other
      close := none }

/-- The answer to `tools/list` of a server without tools. -/
def noTools : Python.Json := .obj [(Python.points "tools", .arr [])]

theorem restored_iff_calm :
    RestoredOnce (runOpsAttempt (calmWorld noTools) wipeTask mcpOptions).trace ↔
      Survives (calmWorld noTools) wipeTask mcpOptions :=
  restored_iff (calmWorld noTools) wipeTask mcpOptions (by simp [wipeTask]) (by decide)

/-- A server whose answer to `tools/list` has no tools leaves the board wiped. -/
theorem malformed_answer_not_restored :
    wipeTask.restore ≠ [] ∧
      .begins .setup ∈ (runOpsAttempt (calmWorld (.obj [])) wipeTask mcpOptions).trace ∧
      (runOpsAttempt (calmWorld (.obj [])) wipeTask mcpOptions).result.isOk = false ∧
      ¬ RestoredOnce (runOpsAttempt (calmWorld (.obj [])) wipeTask mcpOptions).trace := by
  refine ⟨by simp [wipeTask], by decide, by decide, ?_⟩
  rintro ⟨honce, -⟩
  revert honce
  decide

end

end IronHarness.Ops
