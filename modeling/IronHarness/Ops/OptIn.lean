import IronHarness.Ops.Attempt
import Mathlib.Logic.Function.Basic
import Mathlib.Data.List.Sort

/-!
# The opt-in to real flashing

`run_ops_attempt` with `allow_flash` sets `IRONHARNESS_ALLOW_REAL_FLASH` in the environment of the process, and nothing
takes it out again.  `EspFlasher` reads it there, and the server of the tools arm and the scripts of the bare arm inherit
it.  So an attempt without the flag is contained exactly where no attempt before it, with an arm that there is, had the
flag (`contained_iff`).
-/

namespace IronHarness.Ops

open Traced

/-! ### The environment -/

/-- `os.environ` -/
abbrev Env := String → Option String

def allowRealFlashEnv : String := "IRONHARNESS_ALLOW_REAL_FLASH"

/-- `env[name] = value` -/
def Env.set (env : Env) (name value : String) : Env := Function.update env name (some value)

/-- The gate of `_require_real_flash_allowed` is open. -/
def Env.allowsRealFlash (env : Env) : Bool := env allowRealFlashEnv == some "1"

/-! ### Attempts -/

/-- A call of `run_ops_attempt` with what it meets; `hasAsset` is whether the asset of a step is among the assets. -/
structure Attempt (F : Type) where
  arm : Text
  allowFlash : Bool
  task : OpsTask
  preflight : Bool
  mcpFactory : Bool
  port : String
  runDir : String
  world : World F
  hasAsset : Phase → Nat → Bool

variable {F : Type}

namespace Attempt

/-- The arm; `none` raises a `ValueError`. -/
def knownArm (a : Attempt F) : Option Arm :=
  if a.arm = "bare".toList then some .bare else if a.arm = "mcp".toList then some .mcp else none

/-- The call sets the opt-in. -/
def optsIn (a : Attempt F) : Bool := a.knownArm.isSome && a.allowFlash

/-- The environment of the process once the call has begun. -/
def enter (a : Attempt F) (env : Env) : Env := if a.optsIn then env.set allowRealFlashEnv "1" else env

def stepAt (a : Attempt F) (phase : Phase) (i : Nat) : Option OpsStep :=
  match phase with
  | .setup => a.task.setup[i]?
  | .restore => a.task.restore[i]?

/-- `_run_step` comes to the gate. -/
def asksGate (a : Attempt F) (phase : Phase) (i : Nat) : Bool :=
  match a.stepAt phase i with
  | none => false
  | some step => step.kind == "wipe_flash".toList || step.kind == "flash_asset".toList && a.hasAsset phase i

/-- What a step raises: `KeyError` for an asset that is missing, `PermissionError` at the gate where the journal takes
the refusal, or what the board makes it raise. -/
def stepRaises (a : Attempt F) (env : Env) (phase : Phase) (i : Nat) : Option Fault :=
  if (a.stepAt phase i).any (fun step => step.kind == "flash_asset".toList) && !a.hasAsset phase i then some .other
  else if a.asksGate phase i && !env.allowsRealFlash then some ((a.world.raises (.runStep phase i)).getD .os)
  else a.world.raises (.runStep phase i)

/-- The world of the attempt, with the gate. -/
def gated (a : Attempt F) (env : Env) : World F :=
  { a.world with raises := fun effect =>
      match effect with
      | .runStep phase i => a.stepRaises env phase i
      | effect => a.world.raises effect }

def options (a : Attempt F) (arm : Arm) : Options := ⟨arm, a.preflight, a.mcpFactory⟩

/-- `{**os.environ, **env_overrides}` of `spawn_mcp_client`. -/
def serverEnv (a : Attempt F) (env : Env) : Env :=
  let env := env.set "IRONHARNESS_HOME" (a.runDir ++ "/mcp-home")
  let env := env.set "IRONHARNESS_SANDBOX" (a.runDir ++ "/sandbox")
  let kinds := (a.task.allowedTools.map String.ofList).insertionSort (· ≤ ·)
  let env := env.set "IRONHARNESS_ENABLED_KINDS" (",".intercalate kinds)
  if a.allowFlash then env.set allowRealFlashEnv "1" else env

/-- The environment of a script. -/
def scriptEnv (a : Attempt F) (env : Env) : Env :=
  (env.set "IRONBENCH_OPS_PORT" a.port).set "PYTHONIOENCODING" "utf-8"

end Attempt

/-! ### What an attempt touches -/

section

variable [JsonText.JsonFloat F]

/-- `run_ops_attempt` up to the run of the arm. -/
def beforeArm (world : World F) (task : OpsTask) (opts : Options) : Run Unit := do
  perform world .resolveAssets
  preflight world opts
  runSteps world .setup task.setup
  sandboxStage world opts

/-- Where nothing is raised before it, the arm is run. -/
theorem runOpsAttempt_of_beforeArm {world : World F} {task : OpsTask} {opts : Options}
    (h : (beforeArm world task opts).result = .ok ()) :
    ∃ arm : Run Row, arm = (armStage world task opts).tryExcept Exn.isInfra
        (fun _ => do
          perform world (.journal (.attemptInfra .arm))
          let _ ← bestEffortRestore world task
          finish world (infraRow .arm))
        (afterArm world task) ∧
      runOpsAttempt world task opts = ⟨arm.result, (beforeArm world task opts).trace ++ arm.trace⟩ := by
  refine ⟨_, rfl, ?_⟩
  unfold beforeArm at h ⊢
  simp only [result_bind, reduceCtorEq, and_false, exists_false, or_false] at h
  obtain ⟨_, hassets, _, hpreflight, _, hsetup, hsandbox⟩ := h
  rw [runOpsAttempt, tryExcept_ok hassets, tryExcept_ok hpreflight, fromSetup, tryExcept_ok hsetup, afterSetup,
    bind_ok hsandbox, bind_ok hassets, bind_ok hpreflight, bind_ok hsetup]
  simp only [List.append_assoc]

end

/-- The scripts that the bare arm runs: a claim ends the loop, a reply without a block runs none, a script that is
killed ends the loop. -/
def BareArm.scripts (extractCode : Text → Option Text) : Nat → List (Round BareReply) → Nat
  | 0, _ => 0
  | _ + 1, [] => 0
  | _ + 1, .late :: _ => 0
  | n + 1, .reply reply :: rounds =>
    if (parseClaim true reply.content).isSome then 0
    else if (extractCode reply.content).isNone then scripts extractCode n rounds
    else if reply.timedOut then 1
    else scripts extractCode n rounds + 1

/-- A step that asks the gate, with the answer; a server or a script that is started, with its environment. -/
inductive Touch
  | step (phase : Phase) (index : Nat) (passes : Bool)
  | server (env : Env)
  | script (env : Env)

def Touch.Contained : Touch → Prop
  | .step _ _ passes => passes = false
  | .server env => env allowRealFlashEnv = none
  | .script env => env allowRealFlashEnv = none

namespace Attempt

variable [JsonText.JsonFloat F]

def stepTouch (a : Attempt F) (env : Env) : Event → Option Touch
  | .done (.runStep phase i) => if a.asksGate phase i then some (.step phase i env.allowsRealFlash) else none
  | _ => none

def armTouches (a : Attempt F) (env : Env) : Arm → List Touch
  | .bare =>
    if a.world.bare.workdir.isSome then []
    else
      List.replicate (BareArm.scripts a.world.py.extractCode a.task.maxIterations a.world.bare.rounds)
        (.script (a.scriptEnv env))
  | .mcp => if a.mcpFactory then [] else [.server (a.serverEnv env)]

/-- What the attempt touches in a process with this environment. -/
def touches (a : Attempt F) (env : Env) : List Touch :=
  match a.knownArm with
  | none => []
  | some arm =>
    (runOpsAttempt (a.gated (a.enter env)) a.task (a.options arm)).trace.filterMap (a.stepTouch (a.enter env)) ++
      if (beforeArm (a.gated (a.enter env)) a.task (a.options arm)).result.isOk then a.armTouches (a.enter env) arm
      else []

end Attempt

/-- The environment of the process behind the attempts. -/
def environment (env : Env) (attempts : List (Attempt F)) : Env := attempts.foldl (fun env a => a.enter env) env

/-! ### Nothing takes the opt-in out -/

@[simp] theorem Env.set_self (env : Env) (name value : String) : env.set name value name = some value :=
  Function.update_self ..

private theorem Env.set_of_ne {env : Env} {name other value : String} (h : other ≠ name) :
    env.set name value other = env other :=
  Function.update_of_ne h ..

private theorem Attempt.enter_optIn (a : Attempt F) (env : Env) :
    a.enter env allowRealFlashEnv = if a.optsIn then some "1" else env allowRealFlashEnv := by
  unfold Attempt.enter
  split
  · exact Env.set_self ..
  · rfl

/-- One attempt with the opt-in leaves it behind for good. -/
private theorem environment_optIn (env : Env) (attempts : List (Attempt F)) :
    environment env attempts allowRealFlashEnv =
      if attempts.any Attempt.optsIn then some "1" else env allowRealFlashEnv := by
  induction attempts generalizing env with
  | nil => rfl
  | cons a attempts ih =>
    rw [environment, List.foldl_cons, ← environment, ih, a.enter_optIn, List.any_cons]
    cases a.optsIn <;> cases attempts.any Attempt.optsIn <;> rfl

private theorem any_optsIn {attempts : List (Attempt F)} :
    attempts.any Attempt.optsIn = false ↔ ∀ b ∈ attempts, b.optsIn = false := by
  simp only [List.any_eq_false, Bool.not_eq_true]

private theorem environment_unset {env : Env} (attempts : List (Attempt F)) (hunset : env allowRealFlashEnv = none) :
    environment env attempts allowRealFlashEnv = none ↔ ∀ b ∈ attempts, b.optsIn = false := by
  rw [environment_optIn, hunset, ← any_optsIn]
  cases attempts.any Attempt.optsIn <;> simp

private theorem environment_denies {env : Env} (attempts : List (Attempt F)) (hunset : env allowRealFlashEnv = none) :
    (environment env attempts).allowsRealFlash = false ↔ ∀ b ∈ attempts, b.optsIn = false := by
  rw [Env.allowsRealFlash, environment_optIn, hunset, ← any_optsIn]
  cases attempts.any Attempt.optsIn <;> simp

/-! ### What a server and a script inherit -/

section

variable (a : Attempt F) (env : Env)

private theorem Attempt.enter_of_not_allowFlash (hflag : a.allowFlash = false) : a.enter env = env := by
  simp [Attempt.enter, Attempt.optsIn, hflag]

private theorem Attempt.serverEnv_optIn (hflag : a.allowFlash = false) :
    a.serverEnv env allowRealFlashEnv = env allowRealFlashEnv := by
  have henabled : allowRealFlashEnv ≠ "IRONHARNESS_ENABLED_KINDS" := by decide
  have hsandbox : allowRealFlashEnv ≠ "IRONHARNESS_SANDBOX" := by decide
  have hhome : allowRealFlashEnv ≠ "IRONHARNESS_HOME" := by decide
  simp only [Attempt.serverEnv, hflag, Bool.false_eq_true, if_false]
  rw [Env.set_of_ne henabled, Env.set_of_ne hsandbox, Env.set_of_ne hhome]

private theorem Attempt.scriptEnv_optIn : a.scriptEnv env allowRealFlashEnv = env allowRealFlashEnv := by
  have hencoding : allowRealFlashEnv ≠ "PYTHONIOENCODING" := by decide
  have hport : allowRealFlashEnv ≠ "IRONBENCH_OPS_PORT" := by decide
  rw [Attempt.scriptEnv, Env.set_of_ne hencoding, Env.set_of_ne hport]

end

/-- What a touch of an attempt without the flag shows of the environment. -/
inductive Touch.Shows (env : Env) : Touch → Prop
  | step (phase : Phase) (i : Nat) : Shows env (.step phase i env.allowsRealFlash)
  | server (child : Env) : child allowRealFlashEnv = env allowRealFlashEnv → Shows env (.server child)
  | script (child : Env) : child allowRealFlashEnv = env allowRealFlashEnv → Shows env (.script child)

private theorem Attempt.touches_shows [JsonText.JsonFloat F] {a : Attempt F} {env : Env} {x : Touch}
    (hflag : a.allowFlash = false) (hx : x ∈ a.touches env) : x.Shows env := by
  unfold Attempt.touches at hx
  rw [a.enter_of_not_allowFlash env hflag] at hx
  split at hx
  · cases hx
  · rename_i arm harm
    rcases List.mem_append.1 hx with hstep | hchild
    · obtain ⟨event, -, hevent⟩ := List.mem_filterMap.1 hstep
      unfold Attempt.stepTouch at hevent
      split at hevent
      · split at hevent
        · cases hevent
          exact .step _ _
        · cases hevent
      · cases hevent
    · split at hchild
      · unfold Attempt.armTouches at hchild
        split at hchild
        · split at hchild
          · cases hchild
          · rw [List.eq_of_mem_replicate hchild]
            exact .script _ (a.scriptEnv_optIn env)
        · split at hchild
          · cases hchild
          · rw [List.mem_singleton.1 hchild]
            exact .server _ (a.serverEnv_optIn env hflag)
      · cases hchild

/-! ### Contained attempts -/

/-- In a sequence of attempts of one process that begins without the opt-in, a step of an attempt without the flag is
refused, and a server or a script of it does not get the opt-in, if and only if no attempt before it has opted in. -/
theorem contained_iff [JsonText.JsonFloat F] (env : Env) (hunset : env allowRealFlashEnv = none)
    (attempts : List (Attempt F)) (i : Nat) (hi : i < attempts.length) (hflag : attempts[i].allowFlash = false)
    (x : Touch) (hx : x ∈ attempts[i].touches (environment env (attempts.take i))) :
    x.Contained ↔ ∀ b ∈ attempts.take i, b.optsIn = false := by
  cases Attempt.touches_shows hflag hx with
  | step phase j => exact environment_denies _ hunset
  | server child hchild => rw [Touch.Contained, hchild, environment_unset _ hunset]
  | script child hchild => rw [Touch.Contained, hchild, environment_unset _ hunset]

/-- An attempt of the tools arm, whose setup wipes the board. -/
def wipeAttempt (allowFlash : Bool) : Attempt JsonText.LitFloat where
  arm := "mcp".toList
  allowFlash := allowFlash
  task := wipeTask
  preflight := false
  mcpFactory := true
  port := "COM3"
  runDir := "runs/wipe"
  world := calmWorld noTools
  hasAsset := fun _ _ => true

/-- An environment without anything in it. -/
def emptyEnv : Env := fun _ => none

/-- One with the flag, and one without. -/
def wipeAttempts : List (Attempt JsonText.LitFloat) := [wipeAttempt true, wipeAttempt false]

private theorem wipeAttempts_touches :
    .step .setup 0 true ∈ (wipeAttempt false).touches (environment emptyEnv (wipeAttempts.take 1)) :=
  List.mem_of_mem_head? rfl

theorem contained_iff_wipe :
    (Touch.step .setup 0 true).Contained ↔ ∀ b ∈ wipeAttempts.take 1, b.optsIn = false :=
  contained_iff emptyEnv rfl wipeAttempts 1 Nat.one_lt_two rfl _ wipeAttempts_touches

/-- Behind an attempt with the flag, one without it wipes the board. -/
theorem opt_in_leaks :
    ¬ ∀ (env : Env) (attempts : List (Attempt JsonText.LitFloat)) (i : Nat) (_ : i < attempts.length),
      env allowRealFlashEnv = none → attempts[i].allowFlash = false →
        ∀ x ∈ attempts[i].touches (environment env (attempts.take i)), x.Contained := by
  intro h
  have hwiped := h emptyEnv wipeAttempts 1 Nat.one_lt_two rfl rfl _ wipeAttempts_touches
  cases hwiped

end IronHarness.Ops
