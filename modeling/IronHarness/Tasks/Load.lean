import IronHarness.Tasks.Yaml

/-!
# The task loader

`load_task` (ironbench/tasks.py): the sections of the document are checked one after the other, and the first rule
that a section breaks is the error.  The texts of the errors are those of the source without the values it prints.
-/

namespace IronHarness.Tasks

open TextLines

structure LoadError where
  kind : Kind
  text : String

abbrev Loads (α : Type) := Except LoadError α

def valueError (text : String) : LoadError := ⟨.value, text⟩

def typeError (text : String) : LoadError := ⟨.type, text⟩

/-- An error whose text prints the value.  What `repr` raises comes in its place; `repr` is `str` where it can raise. -/
def valueErrorGot (py : Python) (text : String) (value : Yaml) : LoadError :=
  match py.str value with
  | .ok _ => valueError text
  | .error kind => ⟨kind, text⟩

def require (ok : Bool) (e : LoadError) : Loads Unit := if ok then .ok () else .error e

/-- A check that is made under a condition. -/
def checkWhen (condition : Bool) (check : Loads Unit) : Loads Unit := if condition then check else .ok ()

/-- The value, or the error. -/
def orRaise {α : Type} (e : LoadError) : Option α → Loads α
  | some a => .ok a
  | none => .error e

/-- An exception that leaves the loader as it is. -/
def escape {α : Type} (text : String) : Except Kind α → Loads α
  | .ok a => .ok a
  | .error kind => .error ⟨kind, text⟩

/-- One golden task. -/
structure Task where
  name : Text
  description : Text
  scenario : Option Text
  entry : Text
  timeoutSec : Int
  expect : List Text
  fail : List Text
  stimulus : List Dict
  target : Text
  renode : Dict
  noise : Dict
  plant : Dict
  mqtt : Dict
  shim : Text
  events : List Dict
  tags : List Text
  level : Option Int
  notes : List Text
  bootExpect : List Text
  deviceModules : List Yaml
  apiHint : Text

/-! ### Targets and keys -/

def wokwi : Text := "wokwi".toList

def renode : Text := "renode".toList

def unix : Text := "unix".toList

def plant : Text := "plant".toList

def real : Text := "real".toList

def taskTargets : List Text := [wokwi, renode, unix, plant, real]

def stimulusStepKeys : List String :=
  ["write-serial", "wait-serial", "delay", "set-control", "mqtt-publish", "mqtt-collect"]

def renodeKeys : List String := ["platform", "firmware", "uart"]

def noiseKeys : List String := ["seed", "faults"]

def plantKeys : List String :=
  ["model", "K", "T", "ambient", "y0", "dt", "duration", "u_min", "u_max", "noise_std", "seed", "setpoint",
    "requirements", "disturbances"]

def plantRequirementKeys : List String := ["steady_error", "overshoot", "settle_time"]

def plantDisturbanceKeys : List String := ["at", "ambient"]

def plantModels : List Text := ["heater".toList, "rc".toList, "motor".toList]

def mqttKeys : List String := ["client_id"]

def shimNames : List Text := ["machine".toList]

def eventsKeys : List String := ["pattern", "count_min", "period_ms"]

def classTags : List Text :=
  ["io".toList, "data".toList, "protocol".toList, "fsm".toList, "control".toList, "resilience".toList, "debug".toList]

/-! ### The fields at the top -/

def loadName (raw : Dict) : Loads Text :=
  match get raw "name" with
  | some (.str (c :: s)) => .ok (c :: s)
  | _ => .error (valueError "the required field name (string) is missing")

/-- `expect` and `fail`; an empty section is no error. -/
def loadStrings (field : String) (raw : Dict) : Loads (List Text) :=
  orRaise (valueError (field ++ " must be a list of strings")) ((getOr raw field (.list [])).listOf? Yaml.text?)

def loadScenario (raw : Dict) : Loads (Option Text) :=
  match getD raw "scenario" .null with
  | .null => .ok none
  | .str s => .ok (some s)
  | _ => .error (valueError "scenario must be a string (path to YAML)")

def loadTimeout (py : Python) (raw : Dict) : Loads Int := do
  let timeoutSec ← match py.int (getD raw "timeout_sec" (.int 30)) with
    | .ok n => .ok n
    | .error .type | .error .value => .error (valueError "timeout_sec must be an integer")
    | .error kind => .error ⟨kind, "timeout_sec"⟩
  require (1 ≤ timeoutSec ∧ timeoutSec ≤ 600) (valueError "timeout_sec must be within 1..600")
  pure timeoutSec

/-! ### The stimulus -/

def checkWriteSerial (py : Python) : Option Yaml → Loads Unit
  | none | some (.str (_ :: _)) => .ok ()
  | some data => .error (valueErrorGot py "write-serial must be a non-empty string" data)

def Yaml.isBool : Yaml → Bool
  | .bool _ => true
  | _ => false

/-- `value in (0, 1)` -/
def Yaml.isZeroOrOne (v : Yaml) : Bool :=
  match v.comparable? with
  | some (.finite q) => q = 0 || q = 1
  | _ => false

def checkPublish : Option Yaml → Loads Unit
  | none => .ok ()
  | some (.dict pub) => do
    require ((getD pub "topic" .null).truthy && has pub "payload") (valueError "mqtt-publish requires topic and payload")
    require (getD pub "topic" .null).nonBlank?.isSome (valueError "mqtt-publish topic must be a non-empty string")
    require (getD pub "payload" .null).text?.isSome
      (valueError "mqtt-publish payload must be a string (an empty one is legal)")
    require (onlyKeys ["topic", "payload", "retain", "qos"] pub) (valueError "unknown mqtt-publish keys")
    require ((getD pub "retain" (.bool false)).isBool && (getD pub "qos" (.int 0)).isZeroOrOne)
      (valueError "mqtt-publish.retain must be bool, qos 0 or 1")
  | some _ => .error (valueError "mqtt-publish requires topic and payload")

/-- `0 < ts <= 600` -/
def collectTimeoutOk (v : Yaml) : Bool := v.number?.any fun ts => PyFloat.lt (.finite 0) ts && ts.le (.finite 600)

def checkCollect (py : Python) : Option Yaml → Loads Unit
  | none => .ok ()
  | some (.dict col) => do
    require ((getD col "topic" .null).truthy && has col "count") (valueError "mqtt-collect requires topic and count")
    require (getD col "topic" .null).nonBlank?.isSome (valueError "mqtt-collect topic must be a non-empty string")
    require (onlyKeys ["topic", "count", "timeout_sec"] col) (valueError "unknown mqtt-collect keys")
    require ((getD col "count" .null).int?.any fun n => 1 ≤ n) (valueError "mqtt-collect.count must be an integer >= 1")
    let ts := getD col "timeout_sec" (.int 10)
    require (collectTimeoutOk ts) (valueErrorGot py "mqtt-collect.timeout_sec must be a finite number in 1..600" ts)
  | some _ => .error (valueError "mqtt-collect requires topic and count")

def checkWaitSerial (py : Python) : Option Yaml → Loads Unit
  | none => .ok ()
  | some answer =>
    require answer.nonBlank?.isSome (valueErrorGot py "wait-serial must be a non-empty string answer" answer)

/-- `isinstance(value, (str, int, float, bool))` -/
def Yaml.isScalar : Yaml → Bool
  | .str _ | .int _ | .float _ | .bool _ => true
  | _ => false

def controlOk (v : Yaml) : Bool :=
  v.dict?.any fun ctrl =>
    (getD ctrl "part-id" .null).nonBlank?.isSome && (getD ctrl "control" .null).nonBlank?.isSome &&
      (getD ctrl "value" .null).isScalar

def checkControl (py : Python) : Option Yaml → Loads Unit
  | none => .ok ()
  | some ctrl =>
    require (controlOk ctrl)
      (valueErrorGot py
        "set-control requires a mapping with non-empty string 'part-id' and 'control' and a scalar 'value'" ctrl)

def checkStep (py : Python) (step : Dict) : Loads Unit := do
  require (onlyKeys stimulusStepKeys step) (valueError "unknown stimulus step")
  checkWriteSerial py (get step "write-serial")
  checkPublish (get step "mqtt-publish")
  checkCollect py (get step "mqtt-collect")
  checkWaitSerial py (get step "wait-serial")
  checkControl py (get step "set-control")

def loadStimulus (py : Python) (raw : Dict) : Loads (List Dict) := do
  let stimulus ← orRaise (valueError "stimulus must be a list of steps (mappings)")
    ((getD raw "stimulus" (.list [])).listOf? Yaml.dict?)
  stimulus.forM (checkStep py)
  pure stimulus

/-! ### The target and its sections -/

def loadTarget (py : Python) (raw : Dict) : Loads Text := do
  let target ← escape "target" (py.str (getD raw "target" (.str wokwi)))
  require (target ∈ taskTargets) (valueError "unknown target")
  pure target

def hasControl (stimulus : List Dict) : Bool := stimulus.any fun step => has step "set-control"

def hasMqttStep (stimulus : List Dict) : Bool :=
  stimulus.any fun step => has step "mqtt-publish" || has step "mqtt-collect"

/-- The loop on `seen_trigger`: each `wait-serial` has a trigger in its step or before. -/
def triggersFirst : Bool → List Dict → Bool
  | _, [] => true
  | seen, step :: stimulus =>
    let seen := seen || has step "write-serial" || has step "mqtt-publish"
    (!has step "wait-serial" || seen) && triggersFirst seen stimulus

/-- The targets on which the runner anchors an answer to its stimulus. -/
def isAnchored (target : Text) : Bool := target = unix || target = renode || target = real

def checkSteps (target : Text) (stimulus : List Dict) : Loads Unit := do
  require (!(target = unix && hasControl stimulus))
    (valueError "set-control steps are not supported by the unix target")
  require (!isAnchored target || triggersFirst false stimulus)
    (valueError "wait-serial must be preceded by a write-serial or mqtt-publish step")

/-- `isinstance(value, str) and value` -/
def Yaml.isNonEmptyText : Yaml → Bool
  | .str s => !s.isEmpty
  | _ => false

def checkRenode (fields : Dict) : Loads Unit := do
  require (has fields "platform" && has fields "firmware")
    (valueError "the renode target requires platform and firmware in the renode section")
  renodeKeys.forM fun key =>
    require ((get fields key).all Yaml.isNonEmptyText) (valueError ("renode." ++ key ++ " must be a non-empty string"))

def loadRenode (target : Text) (raw : Dict) : Loads Dict := do
  let fields ← orRaise (typeError "renode must be a mapping (platform/firmware/uart)")
    (getD raw "renode" (.dict [])).dict?
  require (onlyKeys renodeKeys fields) (valueError "unknown renode keys")
  checkWhen (target = renode) (checkRenode fields)
  pure fields

/-- `f.get("action") not in {...}`; an unhashable action is a `TypeError`. -/
def checkAction (fault : Dict) : Loads Unit :=
  match getD fault "action" .null with
  | .list _ | .dict _ | .set _ => .error (typeError "unhashable type")
  | action =>
    require (["drop", "corrupt", "delay"].any fun name => action.isText name)
      (valueError "noise.faults: action is not supported (allowed: drop, corrupt, delay)")

/-- `low <= value <= high` -/
def within (low high : ℚ) (v : Yaml) : Bool :=
  v.comparable?.any fun x => PyFloat.le (.finite low) x && x.le (.finite high)

/-- `not value < low` -/
def notBelow (low : ℚ) (v : Yaml) : Bool := v.comparable?.any fun x => !x.lt (.finite low)

/-- `Fault(**f)` raises nothing; every exception of it is reported as one error. -/
def faultValid (fault : Dict) : Bool :=
  onlyKeys ["action", "after_ops", "count", "probability", "ratio", "seconds"] fault &&
    within 0 1 (getD fault "probability" (.int 1)) && within 0 1 (getD fault "ratio" (.float (.finite (1 / 4)))) &&
    notBelow 0 (getD fault "seconds" (.int 0)) && notBelow 0 (getD fault "after_ops" (.int 0)) &&
    match getD fault "count" .null with
    | .null => true
    | count => notBelow 1 count

def loadNoise (target : Text) (raw : Dict) : Loads Dict := do
  let noise ← orRaise (typeError "noise must be a mapping (seed/faults)") (getD raw "noise" (.dict [])).dict?
  require (onlyKeys noiseKeys noise) (valueError "unknown noise keys")
  require ((get noise "seed").all fun seed => seed.int?.isSome) (valueError "noise.seed must be an integer")
  let faults ← orRaise (valueError "noise.faults must be a list of mappings")
    ((getD noise "faults" (.list [])).listOf? Yaml.dict?)
  faults.forM checkAction
  require (faults.all faultValid) (valueError "noise.faults")
  require (noise.isEmpty || target = unix) (valueError "noise is only supported by the unix target")
  pure noise

def checkMqttSteps (target : Text) (fields : Yaml) : Loads Unit := do
  require (target = unix) (valueError "mqtt steps are only supported by the unix target")
  require (fields.dict?.isSome && fields.truthy) (valueError "mqtt steps require a non-empty mqtt section")

def checkMqtt (fields : Yaml) : Loads Unit := do
  let mqtt ← orRaise (typeError "the mqtt section must be a mapping") fields.dict?
  require (onlyKeys mqttKeys mqtt) (valueError "unknown mqtt keys")

/-- The section stays as it is: it becomes a dictionary when the task is built. -/
def loadMqtt (target : Text) (stimulus : List Dict) (raw : Dict) : Loads Yaml := do
  let fields := getD raw "mqtt" (.dict [])
  require (!fields.truthy || target = unix) (valueError "the mqtt section is only supported by the unix target")
  checkWhen (hasMqttStep stimulus) (checkMqttSteps target fields)
  checkWhen fields.truthy (checkMqtt fields)
  pure fields

def loadShim (py : Python) (target : Text) (raw : Dict) : Loads Text := do
  let shim ← escape "shim" (py.str (getD raw "shim" (.str [])))
  require (shim.isEmpty || target = unix) (valueError "the shim is only supported by the unix target")
  require (shim.isEmpty || shim ∈ shimNames) (valueError "unknown shim")
  pure shim

/-- `isinstance(period, list) and len(period) == 2` and all of it are numbers; then `0 < lo < hi`. -/
def checkPeriod : Yaml → Loads Unit
  | .null => .ok ()
  | .list [lo, hi] => do
    let lo ← orRaise (valueError "events.period_ms must be [lo, hi] numbers") lo.number?
    let hi ← orRaise (valueError "events.period_ms must be [lo, hi] numbers") hi.number?
    require (PyFloat.lt (.finite 0) lo && lo.lt hi) (valueError "events.period_ms must satisfy 0 < lo < hi")
  | _ => .error (valueError "events.period_ms must be [lo, hi] numbers")

def checkEvent (event : Dict) : Loads Unit := do
  require (onlyKeys eventsKeys event) (valueError "unknown events keys")
  require (getD event "pattern" .null).isNonEmptyText (valueError "events.pattern must be a non-empty string")
  require ((getD event "count_min" .null).int?.any fun n => 1 ≤ n) (valueError "events.count_min must be an integer >= 1")
  checkPeriod (getD event "period_ms" .null)

def loadEvents (target : Text) (raw : Dict) : Loads (List Dict) := do
  let fields := getOr raw "events" (.list [])
  require (!fields.truthy || target = unix) (valueError "the events section is only supported by the unix target")
  let events ← orRaise (valueError "events must be a list of mappings") (fields.listOf? Yaml.dict?)
  events.forM checkEvent
  pure events

/-- `ev["pattern"]` -/
def eventPattern (event : Dict) : Text := ((getD event "pattern" .null).text?).getD []

/-- Every regex compiles. -/
def compileAll (py : Python) (patterns : List Text) : Loads Unit :=
  patterns.forM fun p =>
    match py.compile p with
    | .ok _ => .ok ()
    | .error .re => .error (valueError "invalid regex")
    | .error kind => .error ⟨kind, "re.compile"⟩

/-! ### The plant section -/

/-- The value is no infinite float and no NaN. -/
def Yaml.isFiniteNumber (v : Yaml) : Bool := v.number?.any PyFloat.isFinite

/-- The loop over the values of the section; `model`, `requirements` and `disturbances` have rules of their own. -/
def checkPlantValue (item : Yaml × Yaml) : Loads Unit :=
  if ["model", "requirements", "disturbances"].any fun key => item.1.isText key then .ok ()
  else if item.1.isText "seed" then require item.2.int?.isSome (valueError "plant.seed must be an integer")
  else do
    require item.2.number?.isSome (valueError "plant value must be a number")
    require item.2.isFiniteNumber (valueError "plant value must be finite")

/-- A number of the section as a float; `default` where the key is missing. -/
def plantFloat (py : Python) (fields : Dict) (key : String) (default : PyFloat) : Loads PyFloat :=
  escape key (py.float (((get fields key).bind Yaml.number?).getD default))

/-- The number is above zero. -/
def positive (v : Yaml) : Bool := v.number?.any fun x => PyFloat.lt (.finite 0) x

def checkTimes (py : Python) (fields : Dict) : Loads Unit := do
  let dt ← plantFloat py fields "dt" (.finite (1 / 2))
  require (PyFloat.lt (.finite 0) dt) (valueError "plant.dt must be > 0 and no greater than duration")
  let duration ← plantFloat py fields "duration" .nan
  require (!duration.lt dt) (valueError "plant.dt must be > 0 and no greater than duration")
  require (!dt.lt (py.round (1 / 100))) (valueError "plant.dt must be >= 0.01")
  require (!PyFloat.lt (.finite 20000) (py.quotient duration dt))
    (valueError "plant duration/dt must be <= 20000 steps")

def checkRange (py : Python) (fields : Dict) : Loads Unit := do
  let uMin ← plantFloat py fields "u_min" (.finite 0)
  let uMax ← plantFloat py fields "u_max" (.finite 1)
  require (!uMax.le uMin) (valueError "plant.u_min must be less than u_max")
  let noiseStd ← plantFloat py fields "noise_std" (.finite 0)
  require (!noiseStd.lt (.finite 0)) (valueError "plant.noise_std must be >= 0")

def checkRequirement (item : Yaml × Yaml) : Loads Unit := do
  require (item.2.number?.any fun x => !x.le (.finite 0))
    (valueError "plant.requirements value must be a number > 0")
  require item.2.isFiniteNumber (valueError "plant.requirements value must be finite")

def checkRequirements (fields : Dict) : Loads Unit := do
  let requirements ← orRaise (valueError "plant.requirements must be a non-empty mapping of tolerances")
    ((getD fields "requirements" .null).dict?.filter fun d => !d.isEmpty)
  require (onlyKeys plantRequirementKeys requirements) (valueError "unknown plant.requirements keys")
  requirements.forM checkRequirement

def checkDisturbance (event : Dict) : Loads Unit := do
  require (onlyKeys plantDisturbanceKeys event) (valueError "unknown disturbances event keys")
  require (has event "at" && has event "ambient") (valueError "a disturbances event requires at and ambient")
  require ((getD event "at" .null).number?.any fun x => !x.lt (.finite 0))
    (valueError "disturbances.at must be a number >= 0")
  require (getD event "ambient" .null).number?.isSome (valueError "disturbances.ambient must be a number")
  require ((getD event "at" .null).isFiniteNumber && (getD event "ambient" .null).isFiniteNumber)
    (valueError "disturbances value must be finite")

def checkPlant (py : Python) (value : Yaml) : Loads Unit := do
  let fields ← orRaise (typeError "the plant section must be a mapping") value.dict?
  require (!fields.isEmpty) (valueError "the plant target requires a non-empty plant section")
  require (onlyKeys plantKeys fields) (valueError "unknown plant keys")
  let model ← escape "plant.model" (py.str (getD fields "model" (.str "heater".toList)))
  require (model ∈ plantModels) (valueError "plant.model is not supported")
  require (["K", "T", "duration", "setpoint"].all fun key => has fields key)
    (valueError "the plant section requires the key K, T, duration or setpoint")
  fields.forM checkPlantValue
  require (positive (getD fields "K" .null)) (valueError "plant.K must be > 0")
  require (positive (getD fields "T" .null)) (valueError "plant.T must be > 0")
  checkTimes py fields
  checkRange py fields
  checkRequirements fields
  let disturbances ← orRaise (typeError "plant.disturbances must be a list of mappings")
    ((getD fields "disturbances" (.list [])).listOf? Yaml.dict?)
  disturbances.forM checkDisturbance

/-- The section stays as it is: it becomes a dictionary when the task is built. -/
def loadPlant (py : Python) (target : Text) (raw : Dict) : Loads Yaml := do
  let fields := getD raw "plant" (.dict [])
  require (!fields.truthy || target = plant) (valueError "the plant section is only supported by the plant target")
  checkWhen (target = plant) (checkPlant py fields)
  pure fields

/-! ### What describes the task -/

def loadTags (raw : Dict) : Loads (List Text) := do
  let tags ← orRaise (valueError "tags must be a list of strings") ((getD raw "tags" (.list [])).listOf? Yaml.text?)
  require tags.Nodup (valueError "tags contains duplicates")
  require (tags.all (· ∈ classTags)) (valueError "unknown tags")
  pure tags

def loadLevel (raw : Dict) : Loads (Option Int) :=
  match getD raw "level" .null with
  | .null => .ok none
  | .int n => do
    require (1 ≤ n ∧ n ≤ 5) (valueError "level must be an integer 1..5")
    pure (some n)
  | _ => .error (valueError "level must be an integer 1..5")

/-- `notes` and `boot_expect` -/
def loadTexts (field : String) (raw : Dict) : Loads (List Text) :=
  orRaise (valueError (field ++ " must be a list of non-empty strings")) ((getOr raw field (.list [])).listOf? Yaml.nonBlank?)

def loadBootExpect (expect : List Text) (raw : Dict) : Loads (List Text) := do
  let bootExpect ← loadTexts "boot_expect" raw
  require (bootExpect.all (· ∈ expect)) (valueError "boot_expect must be members of expect")
  pure bootExpect

/-- The environment and its hint; the plant target does not look into it. -/
def loadEnvironment (py : Python) (target : Text) (raw : Dict) : Loads (Yaml × Text) := do
  let environment := getOr raw "environment" (.dict [])
  if environment.truthy ∧ target ∈ [unix, real, wokwi, renode] then
    let env ← orRaise ⟨.attribute, "environment"⟩ environment.dict?
    let modules ← orRaise (valueError "environment.device_modules must be a list of non-empty strings")
      ((getOr env "device_modules" (.list [])).listOf? Yaml.nonBlank?)
    require modules.Nodup (valueError "environment.device_modules contains duplicates")
    let apiHint ← escape "environment.api_hint" (py.str (getOr env "api_hint" (.str [])))
    pure (environment, apiHint)
  else pure (environment, [])

/-- A task must declare something to score. -/
def checkDetector (target : Text) (expect : List Text) (raw : Dict) : Loads Unit :=
  require
    (!expect.isEmpty || ((get raw "events").any Yaml.truthy && target = unix) ||
      (target = plant && (get raw "plant").any Yaml.truthy))
    (valueError "the task declares no scoring detector (expect patterns, unix events, or plant requirements)")

def loadEntry (py : Python) (raw : Dict) : Loads Text :=
  let entry := getD raw "entry" (.str "main.py".toList)
  orRaise (valueErrorGot py "entry must be a non-empty string" entry) entry.nonBlank?

/-- `tuple(environment.get("device_modules") or [])` -/
def deviceModules (environment : Yaml) : Loads (List Yaml) := do
  let env ← orRaise ⟨.attribute, "environment"⟩ environment.dict?
  escape "environment.device_modules" (toTuple (getOr env "device_modules" (.list [])))

/-! ### `load_task` -/

def loadMapping (py : Python) (raw : Dict) : Loads Task := do
  let name ← loadName raw
  let expect ← loadStrings "expect" raw
  let fail ← loadStrings "fail" raw
  let scenario ← loadScenario raw
  let timeoutSec ← loadTimeout py raw
  let stimulus ← loadStimulus py raw
  let target ← loadTarget py raw
  checkSteps target stimulus
  let renode ← loadRenode target raw
  let noise ← loadNoise target raw
  let mqtt ← loadMqtt target stimulus raw
  let shim ← loadShim py target raw
  let events ← loadEvents target raw
  compileAll py (expect ++ fail ++ events.map eventPattern)
  let plant ← loadPlant py target raw
  let tags ← loadTags raw
  let level ← loadLevel raw
  let notes ← loadTexts "notes" raw
  let bootExpect ← loadBootExpect expect raw
  let environment ← loadEnvironment py target raw
  checkDetector target expect raw
  let entry ← loadEntry py raw
  let description ← escape "description" (py.str (getD raw "description" (.str [])))
  let plant ← escape "plant" (toDict plant)
  let mqtt ← escape "mqtt" (toDict mqtt)
  let deviceModules ← deviceModules environment.1
  pure
    { name := name
      description := description
      scenario := scenario
      entry := entry
      timeoutSec := timeoutSec
      expect := expect
      fail := fail
      stimulus := stimulus
      target := target
      renode := renode
      noise := noise
      plant := plant
      mqtt := mqtt
      shim := shim
      events := events
      tags := tags
      level := level
      notes := notes
      bootExpect := bootExpect
      deviceModules := deviceModules
      apiHint := environment.2 }

def loadTask (py : Python) (raw : Yaml) : Loads Task := do
  let raw ← orRaise (typeError "expected a YAML mapping") raw.dict?
  loadMapping py raw

end IronHarness.Tasks
