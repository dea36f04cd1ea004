import IronHarness.Tasks.Spec

/-!
# Documents that crash the loader

The loader answers a document with a task or with a `ValueError` or a `TypeError`, but for a few values that it
converts, prints or looks into before it knows what they are, and for a plant task whose section `from_section` cannot
convert.  The loader is read as a list of sections, each reached where those before it accept the document
(`loadMapping_sections`); the document is answered exactly where no section that is reached holds such a value
(`answered_iff`).
-/

namespace IronHarness.Tasks

open FirstError TextLines

/-! ### Answers -/

/-- A `ValueError` or a `TypeError`. -/
def Kind.IsRejection (kind : Kind) : Prop := kind = .value ∨ kind = .type

def LoadError.IsRejection (e : LoadError) : Prop := e.kind.IsRejection

/-- The rules on the events of a task. -/
structure EventOk (event : Dict) : Prop where
  pattern : eventPattern event ≠ []
  count : ∃ n, getD event "count_min" .null = .int n ∧ 1 ≤ n
  period : getD event "period_ms" .null = .null ∨ ∃ lo hi x y, getD event "period_ms" .null = .list [lo, hi] ∧
    lo.number? = some x ∧ hi.number? = some y ∧ PyFloat.lt (.finite 0) x = true ∧ x.lt y = true

/-- The lists and numbers of a task are as its fields declare them. -/
structure WellTyped (task : Task) : Prop where
  timeoutSec : 1 ≤ task.timeoutSec ∧ task.timeoutSec ≤ 600
  level : ∀ n ∈ task.level, 1 ≤ n ∧ n ≤ 5
  tags : task.tags.Nodup ∧ ∀ tag ∈ task.tags, tag ∈ classTags
  notes : ∀ note ∈ task.notes, strip note ≠ []
  bootExpect : ∀ text ∈ task.bootExpect, strip text ≠ [] ∧ text ∈ task.expect
  events : ∀ event ∈ task.events, EventOk event
  deviceModules : ∀ m ∈ task.deviceModules, m.text?.isSome = true

/-- The loader gives a task that is as declared, whose plant can be built, or rejects the document. -/
def Answered (py : Python) (parse : Yaml → Option PyFloat) (raw : Yaml) : Prop :=
  OnlyRaises LoadError.IsRejection (loadTask py raw) ∧
    ∀ task, loadTask py raw = .ok task →
      WellTyped task ∧ (task.target = plant → Succeeds (fromSection py parse task.plant))

/-! ### Sections of the loader -/

inductive Section
  | name
  | expect
  | fail
  | scenario
  | timeout
  | stimulus
  | target
  | steps
  | renode
  | noise
  | mqtt
  | shim
  | events
  | patterns
  | plant
  | tags
  | level
  | notes
  | bootExpect
  | environment
  | detector
  | entry
  | description
  | plantDict
  | mqttDict
  | modules
  | built
  deriving DecidableEq

/-- In the order of the loader. -/
def Section.all : List Section :=
  [.name, .expect, .fail, .scenario, .timeout, .stimulus, .target, .steps, .renode, .noise, .mqtt, .shim, .events,
    .patterns, .plant, .tags, .level, .notes, .bootExpect, .environment, .detector, .entry, .description, .plantDict,
    .mqttDict, .modules, .built]

section

variable (py : Python) (raw : Dict)

def textsOf (field : String) : List Text := ((getOr raw field (.list [])).listOf? Yaml.text?).getD []

def stepsOf : List Dict := ((getD raw "stimulus" (.list [])).listOf? Yaml.dict?).getD []

def eventsOf : List Dict := ((getOr raw "events" (.list [])).listOf? Yaml.dict?).getD []

def patternsOf : List Text := textsOf raw "expect" ++ textsOf raw "fail" ++ (eventsOf raw).map eventPattern

def targetOf : Text :=
  match py.str (getD raw "target" (.str wokwi)) with
  | .ok target => target
  | .error _ => []

def environmentOf : Yaml := getOr raw "environment" (.dict [])

/-- What the loader does with a section, on the values of those before it. -/
def check : Section → Loads Unit
  | .name => outcome (loadName raw)
  | .expect => outcome (loadStrings "expect" raw)
  | .fail => outcome (loadStrings "fail" raw)
  | .scenario => outcome (loadScenario raw)
  | .timeout => outcome (loadTimeout py raw)
  | .stimulus => outcome (loadStimulus py raw)
  | .target => outcome (loadTarget py raw)
  | .steps => checkSteps (targetOf py raw) (stepsOf raw)
  | .renode => outcome (loadRenode (targetOf py raw) raw)
  | .noise => outcome (loadNoise (targetOf py raw) raw)
  | .mqtt => outcome (loadMqtt (targetOf py raw) (stepsOf raw) raw)
  | .shim => outcome (loadShim py (targetOf py raw) raw)
  | .events => outcome (loadEvents (targetOf py raw) raw)
  | .patterns => compileAll py (patternsOf raw)
  | .plant => outcome (loadPlant py (targetOf py raw) raw)
  | .tags => outcome (loadTags raw)
  | .level => outcome (loadLevel raw)
  | .notes => outcome (loadTexts "notes" raw)
  | .bootExpect => outcome (loadBootExpect (textsOf raw "expect") raw)
  | .environment => outcome (loadEnvironment py (targetOf py raw) raw)
  | .detector => checkDetector (targetOf py raw) (textsOf raw "expect") raw
  | .entry => outcome (loadEntry py raw)
  | .description => outcome (escape "description" (py.str (getD raw "description" (.str []))))
  | .plantDict => outcome (escape "plant" (toDict (getD raw "plant" (.dict []))))
  | .mqttDict => outcome (escape "mqtt" (toDict (getD raw "mqtt" (.dict []))))
  | .modules => outcome (deviceModules (environmentOf raw))
  | .built => .ok ()

end

variable {py : Python} {parse : Yaml → Option PyFloat} {raw fields : Dict} {t : Text}

private theorem textsOf_eq {field : String} {texts : List Text} (h : loadStrings field raw = .ok texts) :
    textsOf raw field = texts := by
  rw [textsOf, orRaise_eq_ok.1 h, Option.getD_some]

private theorem stepsOf_eq {steps : List Dict} (h : loadStimulus py raw = .ok steps) : stepsOf raw = steps := by
  simp only [loadStimulus, bind_eq_ok, orRaise_eq_ok, pure_eq_ok] at h
  obtain ⟨steps, hsteps, -, -, rfl⟩ := h
  rw [stepsOf, hsteps, Option.getD_some]

private theorem targetOf_eq (h : loadTarget py raw = .ok t) : targetOf py raw = t := by
  simp only [loadTarget, bind_eq_ok, escape_eq_ok, pure_eq_ok] at h
  obtain ⟨t, ht, -, -, rfl⟩ := h
  rw [targetOf, ht]

private theorem eventsOf_eq {events : List Dict} (h : loadEvents t raw = .ok events) : eventsOf raw = events := by
  simp only [loadEvents, bind_eq_ok, orRaise_eq_ok, pure_eq_ok] at h
  obtain ⟨-, -, events, hevents, -, -, rfl⟩ := h
  rw [eventsOf, hevents, Option.getD_some]

private theorem mqtt_eq {v : Yaml} {steps : List Dict} (h : loadMqtt t steps raw = .ok v) :
    getD raw "mqtt" (.dict []) = v := by
  simp only [loadMqtt, bind_eq_ok, pure_eq_ok] at h
  obtain ⟨-, -, -, -, -, -, rfl⟩ := h
  rfl

private theorem plant_eq {v : Yaml} (h : loadPlant py t raw = .ok v) : getD raw "plant" (.dict []) = v := by
  simp only [loadPlant, bind_eq_ok, pure_eq_ok] at h
  obtain ⟨-, -, -, -, rfl⟩ := h
  rfl

private theorem environmentOf_eq {v : Yaml × Text} (h : loadEnvironment py t raw = .ok v) :
    environmentOf raw = v.1 := by
  unfold loadEnvironment at h
  dsimp only at h
  split at h
  · simp only [bind_eq_ok, pure_eq_ok] at h
    obtain ⟨-, -, -, -, -, -, -, -, rfl⟩ := h
    rfl
  · rw [pure_eq_ok] at h
    rw [← h]
    rfl

/-- The loader runs through its sections. -/
private theorem loadMapping_sections : outcome (loadMapping py raw) = forM Section.all (check py raw) := by
  unfold loadMapping
  refine outcome_bind fun name _ => ?_
  refine outcome_bind fun expect hexpect => ?_
  refine outcome_bind fun fail hfail => ?_
  refine outcome_bind fun scenario _ => ?_
  refine outcome_bind fun timeoutSec _ => ?_
  refine outcome_bind fun stimulus hstimulus => ?_
  refine outcome_bind fun target htarget => ?_
  obtain rfl := textsOf_eq hexpect
  obtain rfl := textsOf_eq hfail
  obtain rfl := stepsOf_eq hstimulus
  obtain rfl := targetOf_eq htarget
  refine outcome_check ?_
  refine outcome_bind fun renode _ => ?_
  refine outcome_bind fun noise _ => ?_
  refine outcome_bind fun mqtt hmqtt => ?_
  refine outcome_bind fun shim _ => ?_
  refine outcome_bind fun events hevents => ?_
  obtain rfl := eventsOf_eq hevents
  refine outcome_check ?_
  refine outcome_bind fun plant hplant => ?_
  refine outcome_bind fun tags _ => ?_
  refine outcome_bind fun level _ => ?_
  refine outcome_bind fun notes _ => ?_
  refine outcome_bind fun bootExpect _ => ?_
  refine outcome_bind fun environment henvironment => ?_
  obtain rfl := mqtt_eq hmqtt
  obtain rfl := plant_eq hplant
  rw [← environmentOf_eq henvironment]
  refine outcome_check ?_
  refine outcome_bind fun entry _ => ?_
  refine outcome_bind fun description _ => ?_
  refine outcome_bind fun plantDict _ => ?_
  refine outcome_bind fun mqttDict _ => ?_
  refine outcome_bind fun modules _ => ?_
  rfl

/-! ### Values that crash a section -/

section

variable (py : Python)

/-- `str(value)` raises nothing worse than a rejection. -/
def Printable (v : Yaml) : Prop := OnlyRaises Kind.IsRejection (py.str v)

/-- The time limit of `mqtt-collect` is printed where it is wrong, behind the rules on the other fields. -/
def CollectSafe (col : Dict) : Prop :=
  ((getD col "topic" .null).truthy && has col "count") = true → (getD col "topic" .null).nonBlank?.isSome = true →
    onlyKeys ["topic", "count", "timeout_sec"] col = true →
    ((getD col "count" .null).int?.any fun n => 1 ≤ n) = true →
    collectTimeoutOk (getD col "timeout_sec" (.int 10)) = false → Printable py (getD col "timeout_sec" (.int 10))

/-- The value that a step is refused for is printed. -/
def StepSafe (step : Dict) : Prop :=
  onlyKeys stimulusStepKeys step = true →
    (∀ data, get step "write-serial" = some data → data.isNonEmptyText = false → Printable py data) ∧
    (checkWriteSerial py (get step "write-serial") = .ok () → checkPublish (get step "mqtt-publish") = .ok () →
      (∀ col, get step "mqtt-collect" = some (.dict col) → CollectSafe py col) ∧
      (checkCollect py (get step "mqtt-collect") = .ok () →
        (∀ answer, get step "wait-serial" = some answer → answer.nonBlank?.isSome = false → Printable py answer) ∧
        (checkWaitSerial py (get step "wait-serial") = .ok () →
          ∀ ctrl, get step "set-control" = some ctrl → controlOk ctrl = false → Printable py ctrl)))

/-- `float` raises nothing. -/
def Converts (x : PyFloat) : Prop := Succeeds (py.float x)

def TimesSafe (fields : Dict) : Prop :=
  Converts py (numberAt fields "dt" (.finite (1 / 2))) ∧
    ∀ dt, py.float (numberAt fields "dt" (.finite (1 / 2))) = .ok dt → PyFloat.lt (.finite 0) dt = true →
      Converts py (numberAt fields "duration" .nan)

def RangeSafe (fields : Dict) : Prop :=
  Converts py (numberAt fields "u_min" (.finite 0)) ∧ Converts py (numberAt fields "u_max" (.finite 1)) ∧
    ∀ uMin uMax, py.float (numberAt fields "u_min" (.finite 0)) = .ok uMin →
      py.float (numberAt fields "u_max" (.finite 1)) = .ok uMax → uMax.le uMin = false →
      Converts py (numberAt fields "noise_std" (.finite 0))

/-- The rules in front of the conversions of the plant section. -/
structure PlantChecked (fields : Dict) : Prop where
  model : ∃ model ∈ plantModels, py.str (getD fields "model" (.str "heater".toList)) = .ok model
  keys : (["K", "T", "duration", "setpoint"].all fun key => has fields key) = true
  values : ∀ item ∈ fields, checkPlantValue item = .ok ()
  K : positive (getD fields "K" .null) = true
  T : positive (getD fields "T" .null) = true

def PlantSafe (fields : Dict) : Prop :=
  fields ≠ [] → onlyKeys plantKeys fields = true →
    Printable py (getD fields "model" (.str "heater".toList)) ∧
      (PlantChecked py fields → TimesSafe py fields ∧ (checkTimes py fields = .ok () → RangeSafe py fields))

def EnvironmentSafe (target : Text) (environment : Yaml) : Prop :=
  environment.truthy = true → target ∈ [unix, real, wokwi, Tasks.renode] →
    ∃ env, environment = .dict env ∧
      ∀ modules, (getOr env "device_modules" (.list [])).listOf? Yaml.nonBlank? = some modules → modules.Nodup →
        Printable py (getOr env "api_hint" (.str []))

end

/-! ### What a section may raise -/

@[simp] theorem isRejection_valueError (text : String) : (valueError text).IsRejection := .inl rfl

@[simp] theorem isRejection_typeError (text : String) : (typeError text).IsRejection := .inr rfl

@[simp] theorem isRejection_valueErrorGot {text : String} {v : Yaml} :
    (valueErrorGot py text v).IsRejection ↔ Printable py v := by
  unfold valueErrorGot Printable
  cases py.str v with
  | ok s => simp
  | error kind => exact (onlyRaises_error (α := Text) (p := Kind.IsRejection)).symm

@[simp] theorem onlyRaises_require {ok : Bool} {e : LoadError} {p : LoadError → Prop} :
    OnlyRaises p (require ok e) ↔ (ok = false → p e) := by
  cases ok with
  | false => simp [require]
  | true => simp [require]

@[simp] theorem onlyRaises_checkWhen {c : Bool} {x : Loads Unit} {p : LoadError → Prop} :
    OnlyRaises p (checkWhen c x) ↔ (c = true → OnlyRaises p x) := by
  cases c with
  | false => simp [checkWhen]
  | true => simp [checkWhen]

@[simp] theorem onlyRaises_orRaise {α : Type} {e : LoadError} {x : Option α} {p : LoadError → Prop} :
    OnlyRaises p (orRaise e x) ↔ (x = none → p e) := by
  cases x with
  | none => simp [orRaise]
  | some a => simp [orRaise]

@[simp] theorem onlyRaises_escape {α : Type} {text : String} {x : Except Kind α} :
    OnlyRaises LoadError.IsRejection (escape text x) ↔ OnlyRaises Kind.IsRejection x := by
  cases x with
  | ok a => simp [escape]
  | error kind => simp [escape, LoadError.IsRejection]

private theorem onlyRaises_loadName : OnlyRaises LoadError.IsRejection (loadName raw) := by
  unfold loadName
  split <;> simp

private theorem onlyRaises_loadStrings (field : String) : OnlyRaises LoadError.IsRejection (loadStrings field raw) := by
  simp [loadStrings]

private theorem onlyRaises_loadScenario : OnlyRaises LoadError.IsRejection (loadScenario raw) := by
  unfold loadScenario
  split <;> simp

/-- Of an infinite float, `int` raises an `OverflowError`. -/
private theorem onlyRaises_int (py : Python) {v : Yaml} :
    OnlyRaises Kind.IsRejection (py.int v) ↔ ∀ neg, v ≠ .float (.inf neg) := by
  cases v with
  | float x =>
    cases x with
    | finite q => simp [Python.int]
    | inf neg => simp [Python.int, Kind.IsRejection]
    | nan => simp [Python.int, Kind.IsRejection]
  | str s => cases h : py.intOfText s <;> simp [Python.int, h, Kind.IsRejection]
  | bytes b => cases h : py.intOfBytes b <;> simp [Python.int, h, Kind.IsRejection]
  | _ => simp [Python.int, Kind.IsRejection]

/-- The loader does not catch an `OverflowError` of the time limit. -/
private theorem onlyRaises_loadTimeout :
    OnlyRaises LoadError.IsRejection (loadTimeout py raw) ↔
      ∀ neg, getD raw "timeout_sec" (.int 30) ≠ .float (.inf neg) := by
  rw [← onlyRaises_int py]
  unfold loadTimeout
  cases py.int (getD raw "timeout_sec" (.int 30)) with
  | ok n => exact iff_of_true (onlyRaises_check.2 ⟨by simp, fun _ => onlyRaises_pure n⟩) (onlyRaises_ok n)
  | error kind => cases kind <;> simp [onlyRaises_bind, LoadError.IsRejection, Kind.IsRejection, valueError]

private theorem onlyRaises_checkWriteSerial {o : Option Yaml} :
    OnlyRaises LoadError.IsRejection (checkWriteSerial py o) ↔
      ∀ data, o = some data → data.isNonEmptyText = false → Printable py data := by
  unfold checkWriteSerial
  split
  · simp
  · simp [Yaml.isNonEmptyText]
  · rename_i data hdata
    have hempty : data.isNonEmptyText = false := by
      cases data with
      | str s =>
        cases s with
        | nil => rfl
        | cons c s => exact absurd rfl (hdata c s)
      | _ => rfl
    simp [hempty]

private theorem onlyRaises_checkPublish {o : Option Yaml} : OnlyRaises LoadError.IsRejection (checkPublish o) := by
  unfold checkPublish
  split <;> simp [onlyRaises_bind]

private theorem onlyRaises_checkCollect {o : Option Yaml} :
    OnlyRaises LoadError.IsRejection (checkCollect py o) ↔ ∀ col, o = some (.dict col) → CollectSafe py col := by
  unfold checkCollect
  split
  · simp
  · simp [onlyRaises_bind, require_eq_ok, CollectSafe]
  · rename_i v hv
    refine iff_of_true (by simp) ?_
    rintro col ⟨⟩
    exact absurd rfl (hv col)

private theorem onlyRaises_checkWaitSerial {o : Option Yaml} :
    OnlyRaises LoadError.IsRejection (checkWaitSerial py o) ↔
      ∀ answer, o = some answer → answer.nonBlank?.isSome = false → Printable py answer := by
  unfold checkWaitSerial
  cases o <;> simp

private theorem onlyRaises_checkControl {o : Option Yaml} :
    OnlyRaises LoadError.IsRejection (checkControl py o) ↔
      ∀ ctrl, o = some ctrl → controlOk ctrl = false → Printable py ctrl := by
  unfold checkControl
  cases o <;> simp

private theorem onlyRaises_checkStep {step : Dict} :
    OnlyRaises LoadError.IsRejection (checkStep py step) ↔ StepSafe py step := by
  simp only [checkStep, StepSafe, onlyRaises_check, onlyRaises_require, onlyRaises_checkWriteSerial,
    onlyRaises_checkPublish, onlyRaises_checkCollect, onlyRaises_checkWaitSerial, onlyRaises_checkControl,
    require_eq_ok, isRejection_valueError, implies_true, true_and]

private theorem onlyRaises_loadStimulus :
    OnlyRaises LoadError.IsRejection (loadStimulus py raw) ↔
      ∀ step, Reached (checkStep py) (stepsOf raw) step → StepSafe py step := by
  unfold loadStimulus stepsOf
  rw [onlyRaises_bind]
  cases (getD raw "stimulus" (.list [])).listOf? Yaml.dict? with
  | none =>
    refine iff_of_true ?_ ?_
    · simp [orRaise]
    · rintro step ⟨before, after, hnil, -⟩
      simp at hnil
  | some steps =>
    simp only [orRaise, Option.getD_some, onlyRaises_ok, true_and, Except.ok.injEq, forall_eq', onlyRaises_check,
      List.forM_eq_forM, onlyRaises_forM, onlyRaises_pure, implies_true, and_true, onlyRaises_checkStep]

private theorem onlyRaises_loadTarget :
    OnlyRaises LoadError.IsRejection (loadTarget py raw) ↔ Printable py (getD raw "target" (.str wokwi)) := by
  simp [loadTarget, onlyRaises_bind, Printable]

private theorem onlyRaises_checkSteps {steps : List Dict} : OnlyRaises LoadError.IsRejection (checkSteps t steps) := by
  simp [checkSteps, onlyRaises_check]

private theorem onlyRaises_checkRenode : OnlyRaises LoadError.IsRejection (checkRenode fields) := by
  simp [checkRenode, onlyRaises_check, onlyRaises_forM]

private theorem onlyRaises_loadRenode : OnlyRaises LoadError.IsRejection (loadRenode t raw) := by
  simp [loadRenode, onlyRaises_bind, onlyRaises_checkRenode]

private theorem onlyRaises_checkAction {fault : Dict} : OnlyRaises LoadError.IsRejection (checkAction fault) := by
  unfold checkAction
  split <;> simp

private theorem onlyRaises_loadNoise : OnlyRaises LoadError.IsRejection (loadNoise t raw) := by
  simp [loadNoise, onlyRaises_bind, onlyRaises_forM, onlyRaises_checkAction]

private theorem onlyRaises_loadMqtt {steps : List Dict} : OnlyRaises LoadError.IsRejection (loadMqtt t steps raw) := by
  simp [loadMqtt, checkMqttSteps, checkMqtt, onlyRaises_bind]

private theorem onlyRaises_loadShim :
    OnlyRaises LoadError.IsRejection (loadShim py t raw) ↔ Printable py (getD raw "shim" (.str [])) := by
  simp [loadShim, onlyRaises_bind, Printable]

private theorem onlyRaises_checkPeriod {v : Yaml} : OnlyRaises LoadError.IsRejection (checkPeriod v) := by
  unfold checkPeriod
  split <;> simp [onlyRaises_bind]

private theorem onlyRaises_loadEvents : OnlyRaises LoadError.IsRejection (loadEvents t raw) := by
  simp [loadEvents, checkEvent, onlyRaises_bind, onlyRaises_forM, onlyRaises_checkPeriod]

private theorem onlyRaises_loadTags : OnlyRaises LoadError.IsRejection (loadTags raw) := by
  simp [loadTags, onlyRaises_bind]

private theorem onlyRaises_loadLevel : OnlyRaises LoadError.IsRejection (loadLevel raw) := by
  unfold loadLevel
  split <;> simp

private theorem onlyRaises_loadTexts (field : String) : OnlyRaises LoadError.IsRejection (loadTexts field raw) := by
  simp [loadTexts]

private theorem onlyRaises_loadBootExpect {expect : List Text} :
    OnlyRaises LoadError.IsRejection (loadBootExpect expect raw) := by
  simp [loadBootExpect, onlyRaises_bind, onlyRaises_loadTexts]

private theorem onlyRaises_checkDetector {expect : List Text} :
    OnlyRaises LoadError.IsRejection (checkDetector t expect raw) := by
  simp [checkDetector]

private theorem onlyRaises_loadEntry :
    OnlyRaises LoadError.IsRejection (loadEntry py raw) ↔
      ((getD raw "entry" (.str "main.py".toList)).nonBlank? = none →
        Printable py (getD raw "entry" (.str "main.py".toList))) := by
  simp [loadEntry]

private theorem onlyRaises_toDict {v : Yaml} : OnlyRaises Kind.IsRejection (toDict v) := by
  unfold toDict
  split <;> simp [Kind.IsRejection]

private theorem onlyRaises_toTuple {v : Yaml} : OnlyRaises Kind.IsRejection (toTuple v) := by
  unfold toTuple
  split <;> simp [Kind.IsRejection]

private theorem onlyRaises_deviceModules {environment : Yaml} :
    OnlyRaises LoadError.IsRejection (deviceModules environment) ↔ ∃ env, environment = .dict env := by
  cases environment with
  | dict env => simp [deviceModules, onlyRaises_bind, Yaml.dict?, onlyRaises_toTuple]
  | _ => simp [deviceModules, onlyRaises_bind, Yaml.dict?, LoadError.IsRejection, Kind.IsRejection]

private theorem onlyRaises_compileAll {patterns : List Text} :
    OnlyRaises LoadError.IsRejection (compileAll py patterns) ↔
      ∀ p, Reached py.compile patterns p → ∀ kind, py.compile p = .error kind → kind = .re ∨ kind.IsRejection := by
  unfold compileAll
  rw [List.forM_eq_forM, onlyRaises_forM]
  refine forall_congr' fun p => imp_congr (reached_congr fun q => ?_) ?_
  · cases py.compile q with
    | ok u => simp
    | error kind => cases kind <;> simp
  · cases py.compile p with
    | ok u => simp
    | error kind => cases kind <;> simp [LoadError.IsRejection, Kind.IsRejection, valueError]

/-! ### The plant section -/

/-- `float` of a number raises nothing but an `OverflowError`. -/
private theorem onlyRaises_plantFloat {key : String} {default : PyFloat} :
    OnlyRaises LoadError.IsRejection (plantFloat py fields key default) ↔
      Converts py (numberAt fields key default) := by
  show OnlyRaises LoadError.IsRejection (escape key (py.float (numberAt fields key default))) ↔ _
  rw [onlyRaises_escape, Converts]
  cases numberAt fields key default with
  | finite q =>
    cases h : (py.round q).isFinite with
    | true => simp [Python.float, h]
    | false => simp [Python.float, h, Kind.IsRejection]
  | inf neg => simp [Python.float]
  | nan => simp [Python.float]

private theorem plantFloat_eq_ok {key : String} {default x : PyFloat} :
    plantFloat py fields key default = .ok x ↔ py.float (numberAt fields key default) = .ok x := escape_eq_ok

private theorem onlyRaises_checkTimes :
    OnlyRaises LoadError.IsRejection (checkTimes py fields) ↔ TimesSafe py fields := by
  simp [checkTimes, TimesSafe, onlyRaises_bind, onlyRaises_plantFloat, plantFloat_eq_ok, require_eq_ok]

private theorem onlyRaises_checkRange :
    OnlyRaises LoadError.IsRejection (checkRange py fields) ↔ RangeSafe py fields := by
  simp only [checkRange, RangeSafe, onlyRaises_bind, onlyRaises_plantFloat, plantFloat_eq_ok, onlyRaises_require,
    require_eq_ok, isRejection_valueError, implies_true, and_true, true_and, Bool.not_eq_true', Unique.forall_iff]
  apply and_congr_right
  rintro ⟨lo, hlo⟩
  constructor
  · intro h
    refine ⟨(h lo hlo).1, fun uMin uMax huMin huMax => (h uMin huMin).2 uMax huMax⟩
  · rintro ⟨huMax, hnoise⟩ uMin huMin
    exact ⟨huMax, fun uMax huMax => hnoise uMin uMax huMin huMax⟩

private theorem onlyRaises_checkRequirements : OnlyRaises LoadError.IsRejection (checkRequirements fields) := by
  simp [checkRequirements, checkRequirement, onlyRaises_bind, onlyRaises_forM]

private theorem onlyRaises_checkDisturbance : OnlyRaises LoadError.IsRejection (checkDisturbance fields) := by
  simp [checkDisturbance, onlyRaises_bind]

private theorem onlyRaises_checkPlantValue {item : Yaml × Yaml} :
    OnlyRaises LoadError.IsRejection (checkPlantValue item) := by
  unfold checkPlantValue
  split
  · simp
  · split <;> simp [onlyRaises_bind]

private theorem onlyRaises_checkPlant {v : Yaml} :
    OnlyRaises LoadError.IsRejection (checkPlant py v) ↔ ∀ fields, v = .dict fields → PlantSafe py fields := by
  cases v with
  | dict fields =>
    simp only [checkPlant, PlantSafe, Yaml.dict?, onlyRaises_bind, onlyRaises_orRaise, onlyRaises_require,
      onlyRaises_escape, List.forM_eq_forM, onlyRaises_forM, onlyRaises_checkPlantValue, onlyRaises_checkTimes,
      onlyRaises_checkRange, onlyRaises_checkRequirements, onlyRaises_checkDisturbance, require_eq_ok, orRaise_eq_ok,
      escape_eq_ok, isRejection_valueError, isRejection_typeError, implies_true, and_true, true_and, Unique.forall_iff,
      Option.some.injEq, forall_eq', Yaml.dict.injEq]
    have hne : (!fields.isEmpty) = true ↔ fields ≠ [] := by simp
    rw [hne]
    refine imp_congr_right fun _ => imp_congr_right fun _ => and_congr_right fun _ => ?_
    constructor
    · rintro h ⟨⟨model, hmem, hmodel⟩, hkeys, hvalues, hK, hT⟩
      exact h model hmodel (decide_eq_true hmem) hkeys (forM_eq_ok.2 hvalues) hK hT
    · intro h model hmodel hmem hkeys hvalues hK hT
      exact h ⟨⟨model, of_decide_eq_true hmem, hmodel⟩, hkeys, forM_eq_ok.1 hvalues, hK, hT⟩
  | _ => simp [checkPlant, Yaml.dict?, onlyRaises_bind, orRaise]

private theorem onlyRaises_loadPlant :
    OnlyRaises LoadError.IsRejection (loadPlant py t raw) ↔
      (t = plant → ∀ fields, getD raw "plant" (.dict []) = .dict fields → PlantSafe py fields) := by
  simp only [loadPlant, onlyRaises_bind, onlyRaises_require, onlyRaises_checkWhen, onlyRaises_checkPlant,
    onlyRaises_pure, isRejection_valueError, implies_true, and_true, true_and, require_eq_ok, Unique.forall_iff,
    Bool.or_eq_true, decide_eq_true_eq]
  constructor
  · intro h ht
    exact h (.inr ht) ht
  · intro h _ ht
    exact h ht

private theorem onlyRaises_loadEnvironment :
    OnlyRaises LoadError.IsRejection (loadEnvironment py t raw) ↔ EnvironmentSafe py t (environmentOf raw) := by
  unfold loadEnvironment EnvironmentSafe
  dsimp only
  rw [← environmentOf]
  split
  · rename_i h
    rw [forall_prop_of_true h.1, forall_prop_of_true h.2]
    cases environmentOf raw with
    | dict env =>
      simp only [Yaml.dict?, onlyRaises_bind, onlyRaises_require, onlyRaises_escape, onlyRaises_pure,
        onlyRaises_orRaise, isRejection_valueError, implies_true, and_true, true_and, require_eq_ok, orRaise_eq_ok,
        Option.some.injEq, reduceCtorEq, false_implies, forall_eq', Yaml.dict.injEq, exists_eq_left', decide_eq_true_eq,
        Unique.forall_iff, Printable]
    | _ => simp [Yaml.dict?, orRaise, onlyRaises_bind, LoadError.IsRejection, Kind.IsRejection]
  · rename_i h
    refine iff_of_true (onlyRaises_pure _) ?_
    intro htruthy ht
    exact absurd ⟨htruthy, ht⟩ h

/-! ### Answered documents -/

section

variable (py : Python) (raw : Dict)

/-- What the device modules of an accepted document and the plant section of an accepted plant task still owe. -/
structure BuiltSafe : Prop where
  modules : ∀ env items, environmentOf raw = .dict env → toTuple (getOr env "device_modules" (.list [])) = .ok items →
    ∀ m ∈ items, m.text?.isSome = true
  numbers : targetOf py raw = plant → ∀ fields, getD raw "plant" (.dict []) = .dict fields →
    ∀ x ∈ sectionNumbers fields, Converts py x

/-- A section holds no value that crashes it. -/
def Safe : Section → Prop
  | .timeout => ∀ neg, getD raw "timeout_sec" (.int 30) ≠ .float (.inf neg)
  | .stimulus => ∀ step, Reached (checkStep py) (stepsOf raw) step → StepSafe py step
  | .target => Printable py (getD raw "target" (.str wokwi))
  | .shim => Printable py (getD raw "shim" (.str []))
  | .patterns =>
    ∀ p, Reached py.compile (patternsOf raw) p → ∀ kind, py.compile p = .error kind → kind = .re ∨ kind.IsRejection
  | .plant => targetOf py raw = plant → ∀ fields, getD raw "plant" (.dict []) = .dict fields → PlantSafe py fields
  | .environment => EnvironmentSafe py (targetOf py raw) (environmentOf raw)
  | .entry =>
    (getD raw "entry" (.str "main.py".toList)).nonBlank? = none →
      Printable py (getD raw "entry" (.str "main.py".toList))
  | .description => Printable py (getD raw "description" (.str []))
  | .modules => ∃ env, environmentOf raw = .dict env
  | .built => BuiltSafe py raw
  | _ => True

/-- The sections before this one accept the document. -/
def Reaches (s : Section) : Prop := Reached (check py raw) Section.all s

end

private theorem onlyRaises_section {s : Section} (hs : s ≠ .built) :
    OnlyRaises LoadError.IsRejection (check py raw s) ↔ Safe py raw s := by
  cases s with
  | built => exact absurd rfl hs
  | timeout => exact onlyRaises_outcome.trans onlyRaises_loadTimeout
  | stimulus => exact onlyRaises_outcome.trans onlyRaises_loadStimulus
  | target => exact onlyRaises_outcome.trans onlyRaises_loadTarget
  | shim => exact onlyRaises_outcome.trans onlyRaises_loadShim
  | patterns => exact onlyRaises_compileAll
  | plant => exact onlyRaises_outcome.trans onlyRaises_loadPlant
  | environment => exact onlyRaises_outcome.trans onlyRaises_loadEnvironment
  | entry => exact onlyRaises_outcome.trans onlyRaises_loadEntry
  | description => exact onlyRaises_outcome.trans onlyRaises_escape
  | modules => exact onlyRaises_outcome.trans onlyRaises_deviceModules
  | name => exact iff_of_true (onlyRaises_outcome.2 onlyRaises_loadName) trivial
  | expect => exact iff_of_true (onlyRaises_outcome.2 (onlyRaises_loadStrings _)) trivial
  | fail => exact iff_of_true (onlyRaises_outcome.2 (onlyRaises_loadStrings _)) trivial
  | scenario => exact iff_of_true (onlyRaises_outcome.2 onlyRaises_loadScenario) trivial
  | steps => exact iff_of_true onlyRaises_checkSteps trivial
  | renode => exact iff_of_true (onlyRaises_outcome.2 onlyRaises_loadRenode) trivial
  | noise => exact iff_of_true (onlyRaises_outcome.2 onlyRaises_loadNoise) trivial
  | mqtt => exact iff_of_true (onlyRaises_outcome.2 onlyRaises_loadMqtt) trivial
  | events => exact iff_of_true (onlyRaises_outcome.2 onlyRaises_loadEvents) trivial
  | tags => exact iff_of_true (onlyRaises_outcome.2 onlyRaises_loadTags) trivial
  | level => exact iff_of_true (onlyRaises_outcome.2 onlyRaises_loadLevel) trivial
  | notes => exact iff_of_true (onlyRaises_outcome.2 (onlyRaises_loadTexts _)) trivial
  | bootExpect => exact iff_of_true (onlyRaises_outcome.2 onlyRaises_loadBootExpect) trivial
  | detector => exact iff_of_true onlyRaises_checkDetector trivial
  | plantDict => exact iff_of_true (onlyRaises_outcome.2 (onlyRaises_escape.2 onlyRaises_toDict)) trivial
  | mqttDict => exact iff_of_true (onlyRaises_outcome.2 (onlyRaises_escape.2 onlyRaises_toDict)) trivial

private theorem reaches_built : Reaches py raw .built ↔ Succeeds (loadMapping py raw) := by
  have hall : Section.all = Section.all.dropLast ++ [.built] := rfl
  have hlast : Section.built ∉ Section.all.dropLast := by decide
  rw [← outcome_eq_ok, loadMapping_sections, FirstError.forM_eq_ok, Reaches, hall, reached_last hlast,
    List.forall_mem_append, List.forall_mem_singleton]
  exact (and_iff_left rfl).symm

/-! ### Tasks -/

private theorem loadTimeout_eq_ok {n : Int} (h : loadTimeout py raw = .ok n) : 1 ≤ n ∧ n ≤ 600 := by
  unfold loadTimeout at h
  cases hint : py.int (getD raw "timeout_sec" (.int 30)) with
  | ok m =>
    rw [hint] at h
    change (require _ _ >>= fun _ => pure m) = _ at h
    obtain ⟨u, hbounds, hn⟩ := bind_eq_ok.1 h
    obtain rfl := pure_eq_ok.1 hn
    exact of_decide_eq_true (require_eq_ok.1 hbounds)
  | error kind =>
    rw [hint] at h
    cases kind <;> cases h

private theorem loadLevel_eq_ok {level : Option Int} (h : loadLevel raw = .ok level) : ∀ n ∈ level, 1 ≤ n ∧ n ≤ 5 := by
  unfold loadLevel at h
  split at h
  · cases h
    simp
  · obtain ⟨u, hbounds, hlevel⟩ := bind_eq_ok.1 h
    obtain rfl := pure_eq_ok.1 hlevel
    rintro n ⟨⟩
    exact of_decide_eq_true (require_eq_ok.1 hbounds)
  · cases h

private theorem loadTags_eq_ok {tags : List Text} (h : loadTags raw = .ok tags) :
    tags.Nodup ∧ ∀ tag ∈ tags, tag ∈ classTags := by
  simp only [loadTags, bind_eq_ok, require_eq_ok, pure_eq_ok] at h
  obtain ⟨tags, -, -, hnodup, -, hknown, rfl⟩ := h
  exact ⟨of_decide_eq_true hnodup, by simpa using hknown⟩

private theorem strip_of_nonBlank {v : Yaml} {text : Text} (h : v.nonBlank? = some text) : strip text ≠ [] := by
  cases v with
  | str s =>
    cases hblank : (strip s).isEmpty with
    | true => simp [Yaml.nonBlank?, hblank] at h
    | false =>
      simp only [Yaml.nonBlank?, hblank, Bool.false_eq_true, if_false, Option.some.injEq] at h
      rw [← h]
      simpa using hblank
  | _ => cases h

theorem loadTexts_eq_ok {field : String} {texts : List Text} (h : loadTexts field raw = .ok texts) :
    ∀ text ∈ texts, strip text ≠ [] := by
  have hlist := orRaise_eq_ok.1 h
  unfold Yaml.listOf? at hlist
  split at hlist
  · exact forall_mem_of_mapM (fun _ _ => strip_of_nonBlank) hlist
  · cases hlist

private theorem checkPeriod_eq_ok {v : Yaml} (h : checkPeriod v = .ok ()) :
    v = .null ∨ ∃ lo hi x y, v = .list [lo, hi] ∧ lo.number? = some x ∧ hi.number? = some y ∧
      PyFloat.lt (.finite 0) x = true ∧ x.lt y = true := by
  unfold checkPeriod at h
  split at h
  · exact .inl rfl
  · rename_i lo hi
    simp only [bind_eq_ok, orRaise_eq_ok, require_eq_ok, Bool.and_eq_true] at h
    obtain ⟨x, hx, y, hy, hpositive, hlt⟩ := h
    exact .inr ⟨lo, hi, x, y, rfl, hx, hy, hpositive, hlt⟩
  · cases h

private theorem checkEvent_eq_ok {event : Dict} (h : checkEvent event = .ok ()) : EventOk event := by
  simp only [checkEvent, bind_eq_ok, require_eq_ok] at h
  obtain ⟨-, -, -, hpattern, -, hcount, hperiod⟩ := h
  refine ⟨?_, ?_, checkPeriod_eq_ok hperiod⟩
  · unfold eventPattern
    cases hvalue : getD event "pattern" .null with
    | str s => simpa [hvalue, Yaml.isNonEmptyText, Yaml.text?] using hpattern
    | _ => simp [hvalue, Yaml.isNonEmptyText] at hpattern
  · cases hvalue : getD event "count_min" .null with
    | int n => exact ⟨n, rfl, by simpa [hvalue, Yaml.int?] using hcount⟩
    | _ => simp [hvalue, Yaml.int?] at hcount

private theorem wellTyped_iff {task : Task} (h : loadMapping py raw = .ok task) :
    WellTyped task ↔ ∀ m ∈ task.deviceModules, m.text?.isSome = true := by
  obtain ⟨-, -, -, -, -, -, hevents, -, -, -, -, -, htimeout, -, -, htags, hlevel, hnotes, hboot, -, -⟩ :=
    loadMapping_eq_ok.1 h
  simp only [loadEvents, bind_eq_ok, forM_eq_ok, pure_eq_ok] at hevents
  obtain ⟨-, -, events, -, -, hchecks, rfl⟩ := hevents
  simp only [loadBootExpect, bind_eq_ok, require_eq_ok, pure_eq_ok] at hboot
  obtain ⟨texts, htexts, -, hmember, rfl⟩ := hboot
  constructor
  · exact WellTyped.deviceModules
  · intro hmodules
    constructor
    · exact loadTimeout_eq_ok htimeout
    · exact loadLevel_eq_ok hlevel
    · exact loadTags_eq_ok htags
    · exact loadTexts_eq_ok hnotes
    · intro text htext
      exact ⟨loadTexts_eq_ok htexts text htext, of_decide_eq_true (List.all_eq_true.1 hmember text htext)⟩
    · exact fun event hevent => checkEvent_eq_ok (hchecks event hevent)
    · exact hmodules

private theorem eq_dict_of_checkPlant {v : Yaml} (h : checkPlant py v = .ok ()) : ∃ fields, v = .dict fields := by
  unfold checkPlant at h
  obtain ⟨fields, hfields, -⟩ := bind_eq_ok.1 h
  exact ⟨fields, eq_dict (orRaise_eq_ok.1 hfields)⟩

private theorem built_iff {task : Task} (h : loadMapping py raw = .ok task) :
    (WellTyped task ∧ (task.target = plant → Succeeds (fromSection py parse task.plant))) ↔ BuiltSafe py raw := by
  obtain ⟨⟨mqtt, plantSection, environment, -, hplant, henvironment, hplantDict, -, hmodules⟩, htarget, -⟩ :=
    loadMapping_eq_ok.1 h
  obtain rfl := plant_eq hplant
  obtain rfl : environmentOf raw = environment := environmentOf_eq henvironment
  have htargetOf := targetOf_eq htarget
  simp only [deviceModules, bind_eq_ok, orRaise_eq_ok, escape_eq_ok] at hmodules
  obtain ⟨env, hdict, htuple⟩ := hmodules
  have henv := eq_dict hdict
  simp only [loadPlant, bind_eq_ok, require_eq_ok, checkWhen_eq_ok, decide_eq_true_eq] at hplant
  obtain ⟨-, -, ⟨⟩, hcheck, -⟩ := hplant
  have hnumbers : ∀ fields, getD raw "plant" (.dict []) = .dict fields → task.target = plant →
      (Succeeds (fromSection py parse task.plant) ↔ ∀ x ∈ sectionNumbers fields, Converts py x) := by
    intro fields hfields ht
    rw [hfields] at hplantDict hcheck
    obtain rfl : fields = task.plant := Except.ok.inj hplantDict
    exact fromSection_succeeds_iff (plantAccepted (hcheck ht))
  rw [wellTyped_iff h]
  constructor
  · rintro ⟨htexts, hspec⟩
    constructor
    · intro env' items henv' hitems
      obtain rfl := Yaml.dict.inj (henv.symm.trans henv')
      obtain rfl := Except.ok.inj (htuple.symm.trans hitems)
      exact htexts
    · intro ht fields hfields
      rw [htargetOf] at ht
      exact (hnumbers fields hfields ht).1 (hspec ht)
  · rintro ⟨htexts, hconverts⟩
    refine ⟨htexts env _ henv htuple, fun ht => ?_⟩
    obtain ⟨fields, hfields⟩ := eq_dict_of_checkPlant (hcheck ht)
    exact (hnumbers fields hfields ht).2 (hconverts (htargetOf.trans ht) fields hfields)

private theorem onlyRaises_loadMapping :
    OnlyRaises LoadError.IsRejection (loadMapping py raw) ↔ ∀ s, s ≠ .built → Reaches py raw s → Safe py raw s := by
  rw [← onlyRaises_outcome, loadMapping_sections, onlyRaises_forM]
  constructor
  · intro h s hs hreached
    exact (onlyRaises_section hs).1 (h s hreached)
  · intro h s hreached
    by_cases hs : s = .built
    · rw [hs]
      exact onlyRaises_ok ()
    · exact (onlyRaises_section hs).2 (h s hs hreached)

/-- The loader answers a document exactly where no section that it reaches holds a value that crashes it. -/
theorem answered_iff (py : Python) (parse : Yaml → Option PyFloat) (raw : Yaml) :
    Answered py parse raw ↔ ∀ d, raw = .dict d → ∀ s, Reaches py d s → Safe py d s := by
  cases raw with
  | dict d =>
    have hload : loadTask py (.dict d) = loadMapping py d := rfl
    have hbuilt : (∀ task, loadMapping py d = .ok task →
        WellTyped task ∧ (task.target = plant → Succeeds (fromSection py parse task.plant))) ↔
          (Reaches py d .built → Safe py d .built) := by
      rw [reaches_built]
      constructor
      · rintro h ⟨task, htask⟩
        exact (built_iff htask).1 (h task htask)
      · intro h task htask
        exact (built_iff htask).2 (h ⟨task, htask⟩)
    rw [Answered, hload, onlyRaises_loadMapping, hbuilt]
    constructor
    · rintro ⟨hsections, hbuilt⟩ d' hd s
      obtain rfl := Yaml.dict.inj hd
      by_cases hs : s = .built
      · rw [hs]
        exact hbuilt
      · exact hsections s hs
    · intro h
      exact ⟨fun s _ => h d rfl s, h d rfl .built⟩
  | _ =>
    refine iff_of_true ⟨?_, ?_⟩ ?_
    · exact onlyRaises_error.2 (isRejection_typeError _)
    · rintro task ⟨⟩
    · rintro d ⟨⟩

/-- A time limit of infinity is no rejection. -/
def endlessTask : Dict := [entryOf "name" (textOf "t"), entryOf "timeout_sec" (.float (.inf false))]

theorem endless_task_escapes :
    loadTask plainPython (.dict endlessTask) = .error ⟨.overflow, "timeout_sec"⟩ ∧
      ¬ Answered plainPython (fun _ => none) (.dict endlessTask) := by
  have herror : loadTask plainPython (.dict endlessTask) = .error ⟨.overflow, "timeout_sec"⟩ := rfl
  refine ⟨herror, ?_⟩
  rintro ⟨hanswer, -⟩
  rcases hanswer _ herror with hkind | hkind
  · cases hkind
  · cases hkind

end IronHarness.Tasks
