import IronHarness.Lib.FirstError
import IronHarness.Tasks.Load

/-!
# The check of an overridden target

`check_target_compat` (ironbench/tasks.py) looks at a loaded task whose target has been replaced.  It agrees with
`load_task` on the document with that target in every rule but one (`validators_agree_iff`): the values of the renode
section are looked at by the loader only, and only for a task whose own target is renode.
-/

namespace IronHarness.Tasks

inductive Problem
  | unknownTarget
  | plantSection
  | plantMissing
  | events
  | shim
  | noise
  | mqtt
  | setControl
  | mqttSteps
  | renodeMissing
  | unanchoredWait
  | noDetector

def problemIf (wrong : Bool) (p : Problem) : List Problem := if wrong then [p] else []

def checkTargetCompat (task : Task) : List Problem :=
  let t := task.target
  problemIf (!taskTargets.contains t) .unknownTarget ++
  problemIf (!task.plant.isEmpty && t ≠ plant) .plantSection ++
  problemIf (t = plant && task.plant.isEmpty) .plantMissing ++
  problemIf (!task.events.isEmpty && t ≠ unix) .events ++
  problemIf (!task.shim.isEmpty && t ≠ unix) .shim ++
  problemIf (!task.noise.isEmpty && t ≠ unix) .noise ++
  problemIf (!task.mqtt.isEmpty && t ≠ unix) .mqtt ++
  problemIf (t = unix && hasControl task.stimulus) .setControl ++
  problemIf (t ≠ unix && hasMqttStep task.stimulus) .mqttSteps ++
  problemIf (t = renode && !(has task.renode "platform" && has task.renode "firmware")) .renodeMissing ++
  problemIf (isAnchored t && !triggersFirst false task.stimulus) .unanchoredWait ++
  problemIf
    (!(!task.expect.isEmpty || (!task.events.isEmpty && t = unix) || (!task.plant.isEmpty && t = plant))) .noDetector

/-- The task with another target (`dataclasses.replace`). -/
def Task.retarget (task : Task) (t : Text) : Task := { task with target := t }

/-! ### The rules that both checks have -/

structure Fits (task : Task) (t : Text) : Prop where
  known : t ∈ taskTargets
  plant : task.plant ≠ [] ↔ t = Tasks.plant
  events : task.events = [] ∨ t = unix
  shim : task.shim = [] ∨ t = unix
  noise : task.noise = [] ∨ t = unix
  mqtt : task.mqtt = [] ∨ t = unix
  control : ¬ (t = unix ∧ hasControl task.stimulus = true)
  mqttSteps : hasMqttStep task.stimulus = false ∨ t = unix
  anchored : isAnchored t = false ∨ triggersFirst false task.stimulus = true
  detector : task.expect ≠ [] ∨ (task.events ≠ [] ∧ t = unix) ∨ (task.plant ≠ [] ∧ t = Tasks.plant)

/-- `platform` and `firmware` are there. -/
def RenodeKeysPresent (d : Dict) : Prop := has d "platform" = true ∧ has d "firmware" = true

/-- The values that are there are non-empty strings. -/
def RenodeTexts (d : Dict) : Prop := ∀ key ∈ renodeKeys, (get d key).all Yaml.isNonEmptyText = true

private theorem problemIf_eq_nil {wrong : Bool} {p : Problem} : problemIf wrong p = [] ↔ wrong = false := by
  unfold problemIf
  cases wrong <;> simp

private theorem compat_iff (task : Task) (t : Text) :
    checkTargetCompat (task.retarget t) = [] ↔ Fits task t ∧ (t = renode → RenodeKeysPresent task.renode) := by
  simp only [checkTargetCompat, Task.retarget, List.append_eq_nil_iff, problemIf_eq_nil, and_assoc]
  constructor
  · rintro ⟨hknown, hplant, hplant', hevents, hshim, hnoise, hmqtt, hcontrol, hsteps, hrenode, hwait, hdetector⟩
    have hfits : Fits task t := by
      constructor <;> grind
    exact ⟨hfits, by unfold RenodeKeysPresent; grind⟩
  · rintro ⟨⟨hknown, hplant, hevents, hshim, hnoise, hmqtt, hcontrol, hsteps, hwait, hdetector⟩, hrenode⟩
    unfold RenodeKeysPresent at hrenode
    refine ⟨?_, ?_, ?_, ?_, ?_, ?_, ?_, ?_, ?_, ?_, ?_, ?_⟩ <;> grind

/-! ### The loader for another target -/

theorem bind_eq_ok {α β : Type} {x : Loads α} {f : α → Loads β} {b : β} :
    x >>= f = .ok b ↔ ∃ a, x = .ok a ∧ f a = .ok b := by
  cases x with
  | error e => simp [bind, Except.bind]
  | ok a => simp [bind, Except.bind]

theorem require_eq_ok {ok : Bool} {e : LoadError} {u : Unit} : require ok e = .ok u ↔ ok = true := by
  unfold require
  cases ok <;> simp

theorem checkWhen_eq_ok {c : Bool} {check : Loads Unit} {u : Unit} :
    checkWhen c check = .ok u ↔ (c = true → check = .ok ()) := by
  unfold checkWhen
  cases c <;> simp

theorem orRaise_eq_ok {α : Type} {e : LoadError} {x : Option α} {a : α} : orRaise e x = .ok a ↔ x = some a := by
  unfold orRaise
  cases x <;> simp

theorem escape_eq_ok {α : Type} {text : String} {x : Except Kind α} {a : α} : escape text x = .ok a ↔ x = .ok a := by
  unfold escape
  cases x <;> simp

theorem pure_eq_ok {α : Type} {a b : α} : (pure a : Loads α) = .ok b ↔ a = b := by
  simp [pure, Except.pure]

variable {py : Python} {raw : Dict} {t t₀ : Text} {stimulus : List Dict}

private theorem checkSteps_eq_ok {u : Unit} :
    checkSteps t stimulus = .ok u ↔
      ¬ (t = unix ∧ hasControl stimulus = true) ∧ (isAnchored t = false ∨ triggersFirst false stimulus = true) := by
  simp only [checkSteps, bind_eq_ok, require_eq_ok]
  simp [or_iff_not_imp_left]

theorem forM_eq_ok {α : Type} {f : α → Loads Unit} {xs : List α} {u : Unit} :
    xs.forM f = .ok u ↔ ∀ x ∈ xs, f x = .ok () := FirstError.forM_eq_ok

private theorem checkRenode_eq_ok {d : Dict} {u : Unit} :
    checkRenode d = .ok u ↔ RenodeKeysPresent d ∧ RenodeTexts d := by
  simp only [checkRenode, bind_eq_ok, require_eq_ok, forM_eq_ok, RenodeKeysPresent, RenodeTexts, Bool.and_eq_true]
  simp

/-! ### The sections with another target -/

private theorem loadRenode_retarget {d d₀ : Dict} (h : loadRenode t₀ raw = .ok d₀) :
    loadRenode t raw = .ok d ↔ d = d₀ ∧ (t = renode → RenodeKeysPresent d₀ ∧ RenodeTexts d₀) := by
  simp only [loadRenode, bind_eq_ok, orRaise_eq_ok, require_eq_ok, checkWhen_eq_ok, checkRenode_eq_ok, pure_eq_ok] at h ⊢
  grind

private theorem loadNoise_retarget {d d₀ : Dict} (h : loadNoise t₀ raw = .ok d₀) :
    loadNoise t raw = .ok d ↔ d = d₀ ∧ (d₀ = [] ∨ t = unix) := by
  simp only [loadNoise, bind_eq_ok, orRaise_eq_ok, require_eq_ok, forM_eq_ok, pure_eq_ok] at h ⊢
  grind

private theorem loadMqtt_retarget {v v₀ : Yaml} (h : loadMqtt t₀ stimulus raw = .ok v₀) :
    loadMqtt t stimulus raw = .ok v ↔
      v = v₀ ∧ (v₀.truthy = false ∨ t = unix) ∧ (hasMqttStep stimulus = false ∨ t = unix) := by
  simp only [loadMqtt, checkMqttSteps, checkMqtt, bind_eq_ok, orRaise_eq_ok, require_eq_ok, checkWhen_eq_ok,
    pure_eq_ok] at h ⊢
  grind

private theorem loadShim_retarget {s s₀ : Text} (h : loadShim py t₀ raw = .ok s₀) :
    loadShim py t raw = .ok s ↔ s = s₀ ∧ (s₀ = [] ∨ t = unix) := by
  simp only [loadShim, bind_eq_ok, escape_eq_ok, require_eq_ok, pure_eq_ok] at h ⊢
  grind

private theorem truthy_of_listOf {α : Type} {item? : Yaml → Option α} {v : Yaml} {xs : List α}
    (h : v.listOf? item? = some xs) :
    v.truthy = !xs.isEmpty := by
  cases v with
  | list items =>
    cases items with
    | nil =>
      obtain rfl := Option.some.inj h
      rfl
    | cons x items =>
      simp only [Yaml.listOf?, List.mapM_cons, Option.bind_eq_bind, Option.bind_eq_some_iff] at h
      obtain ⟨a, -, as, -, hxs⟩ := h
      obtain rfl := Option.some.inj hxs
      rfl
  | _ => cases h

private theorem loadEvents_retarget {es es₀ : List Dict} (h : loadEvents t₀ raw = .ok es₀) :
    loadEvents t raw = .ok es ↔ es = es₀ ∧ (es₀ = [] ∨ t = unix) := by
  simp only [loadEvents, bind_eq_ok, orRaise_eq_ok, require_eq_ok, forM_eq_ok, pure_eq_ok] at h ⊢
  obtain ⟨-, -, es', hes, -, hchecks, rfl⟩ := h
  have htruthy := truthy_of_listOf hes
  cases es' <;> grind

private theorem truthy_of_checkPlant {v : Yaml} (h : checkPlant py v = .ok ()) : v.truthy = true := by
  unfold checkPlant at h
  obtain ⟨d, hd, h⟩ := bind_eq_ok.1 h
  obtain ⟨u, hne, -⟩ := bind_eq_ok.1 h
  rw [require_eq_ok] at hne
  rw [orRaise_eq_ok] at hd
  cases v with
  | dict items =>
    obtain rfl := Option.some.inj hd
    exact hne
  | _ => cases hd

private theorem loadPlant_retarget {v v₀ : Yaml} (h : loadPlant py t₀ raw = .ok v₀) :
    loadPlant py t raw = .ok v ↔ v = v₀ ∧ (v₀.truthy = true ↔ t = plant) := by
  simp only [loadPlant, bind_eq_ok, require_eq_ok, checkWhen_eq_ok, pure_eq_ok] at h ⊢
  grind [truthy_of_checkPlant]

/-- The environment is looked at alike on all targets but plant. -/
private theorem loadEnvironment_retarget (hknown : t ∈ taskTargets) (hknown₀ : t₀ ∈ taskTargets)
    (h : t = plant ↔ t₀ = plant) :
    loadEnvironment py t raw = loadEnvironment py t₀ raw := by
  have hsame : t ∈ [unix, real, wokwi, renode] ↔ t₀ ∈ [unix, real, wokwi, renode] := by
    have hplant : plant ∉ [unix, real, wokwi, renode] := by decide
    have hothers : ∀ s ∈ taskTargets, s ∈ [unix, real, wokwi, renode] ↔ s ≠ plant := by
      intro s hs
      simp only [taskTargets, List.mem_cons, List.not_mem_nil, or_false] at hs
      grind
    rw [hothers t hknown, hothers t₀ hknown₀]
    exact not_congr h
  simp only [loadEnvironment, hsame]

private theorem toDict_truthy {v : Yaml} {d : Dict} (h : toDict v = .ok d) : v.truthy = true ↔ d ≠ [] := by
  unfold toDict at h
  split at h <;> cases h <;> simp [Yaml.truthy]

/-! ### The document with another target -/

def withTarget (t : Text) (raw : Dict) : Dict := setKey "target" (.str t) raw

private theorem get_withTarget {key : String} (hne : "target" ≠ key) : get (withTarget t raw) key = get raw key :=
  get_setKey_of_ne hne

private theorem getD_withTarget {key : String} {default : Yaml} (hne : "target" ≠ key) :
    getD (withTarget t raw) key default = getD raw key default := by
  rw [getD, getD, get_withTarget hne]

private theorem getOr_withTarget {key : String} {default : Yaml} (hne : "target" ≠ key) :
    getOr (withTarget t raw) key default = getOr raw key default := by
  rw [getOr, getOr, get_withTarget hne]

private theorem loadTarget_withTarget {s : Text} :
    loadTarget py (withTarget t raw) = .ok s ↔ s = t ∧ t ∈ taskTargets := by
  have hget : getD (withTarget t raw) "target" (.str wokwi) = .str t := by
    rw [getD, withTarget, get_setKey]
    rfl
  simp only [loadTarget, hget, py.str_text, bind_eq_ok, escape_eq_ok, require_eq_ok, pure_eq_ok]
  grind

theorem loadMapping_eq_ok {task : Task} :
    loadMapping py raw = .ok task ↔
      (∃ mqtt plant environment, loadMqtt task.target task.stimulus raw = .ok mqtt ∧
        loadPlant py task.target raw = .ok plant ∧
        loadEnvironment py task.target raw = .ok (environment, task.apiHint) ∧
        toDict plant = .ok task.plant ∧ toDict mqtt = .ok task.mqtt ∧
        deviceModules environment = .ok task.deviceModules) ∧
      loadTarget py raw = .ok task.target ∧ checkSteps task.target task.stimulus = .ok () ∧
      loadRenode task.target raw = .ok task.renode ∧ loadNoise task.target raw = .ok task.noise ∧
      loadShim py task.target raw = .ok task.shim ∧ loadEvents task.target raw = .ok task.events ∧
      checkDetector task.target task.expect raw = .ok () ∧
      loadName raw = .ok task.name ∧ loadStrings "expect" raw = .ok task.expect ∧
      loadStrings "fail" raw = .ok task.fail ∧ loadScenario raw = .ok task.scenario ∧
      loadTimeout py raw = .ok task.timeoutSec ∧ loadStimulus py raw = .ok task.stimulus ∧
      compileAll py (task.expect ++ task.fail ++ task.events.map eventPattern) = .ok () ∧
      loadTags raw = .ok task.tags ∧ loadLevel raw = .ok task.level ∧ loadTexts "notes" raw = .ok task.notes ∧
      loadBootExpect task.expect raw = .ok task.bootExpect ∧ loadEntry py raw = .ok task.entry ∧
      py.str (getD raw "description" (.str [])) = .ok task.description := by
  simp only [loadMapping, bind_eq_ok, escape_eq_ok, pure_eq_ok]
  constructor
  · rintro ⟨name, hname, expect, hexpect, fail, hfail, scenario, hscenario, timeoutSec, htimeout, stimulus, hstimulus,
      target, htarget, _, hsteps, renode, hrenode, noise, hnoise, mqtt, hmqtt, shim, hshim, events, hevents, _, hcompile,
      plant, hplant, tags, htags, level, hlevel, notes, hnotes, bootExpect, hboot, environment, henvironment, _, hdetector,
      entry, hentry, description, hdescription, plantDict, hplantDict, mqttDict, hmqttDict, modules, hmodules, rfl⟩
    exact ⟨⟨mqtt, plant, environment.1, hmqtt, hplant, henvironment, hplantDict, hmqttDict, hmodules⟩, htarget, hsteps,
      hrenode, hnoise, hshim, hevents, hdetector, hname, hexpect, hfail, hscenario, htimeout, hstimulus, hcompile, htags,
      hlevel, hnotes, hboot, hentry, hdescription⟩
  · rintro ⟨⟨mqtt, plant, environment, hmqtt, hplant, henvironment, hplantDict, hmqttDict, hmodules⟩, htarget, hsteps,
      hrenode, hnoise, hshim, hevents, hdetector, hname, hexpect, hfail, hscenario, htimeout, hstimulus, hcompile, htags,
      hlevel, hnotes, hboot, hentry, hdescription⟩
    exact ⟨_, hname, _, hexpect, _, hfail, _, hscenario, _, htimeout, _, hstimulus, _, htarget, (), hsteps, _, hrenode, _,
      hnoise, _, hmqtt, _, hshim, _, hevents, (), hcompile, _, hplant, _, htags, _, hlevel, _, hnotes, _, hboot, _,
      henvironment, (), hdetector, _, hentry, _, hdescription, _, hplantDict, _, hmqttDict, _, hmodules, rfl⟩

/-- Every rule but that of the target looks at other keys. -/
private theorem loaders_withTarget (py : Python) (raw : Dict) (t : Text) :
    loadName (withTarget t raw) = loadName raw ∧ loadStrings "expect" (withTarget t raw) = loadStrings "expect" raw ∧
      loadStrings "fail" (withTarget t raw) = loadStrings "fail" raw ∧
      loadScenario (withTarget t raw) = loadScenario raw ∧ loadTimeout py (withTarget t raw) = loadTimeout py raw ∧
      loadStimulus py (withTarget t raw) = loadStimulus py raw ∧ loadTags (withTarget t raw) = loadTags raw ∧
      loadLevel (withTarget t raw) = loadLevel raw ∧ loadTexts "notes" (withTarget t raw) = loadTexts "notes" raw ∧
      (∀ expect, loadBootExpect expect (withTarget t raw) = loadBootExpect expect raw) ∧
      loadEntry py (withTarget t raw) = loadEntry py raw ∧
      getD (withTarget t raw) "description" (.str []) = getD raw "description" (.str []) := by
  refine ⟨?_, ?_, ?_, ?_, ?_, ?_, ?_, ?_, ?_, ?_, ?_, ?_⟩ <;>
    simp (disch := decide) only [loadName, loadStrings, loadScenario, loadTimeout, loadStimulus, loadTags, loadLevel,
      loadTexts, loadBootExpect, loadEntry, getD_withTarget, getOr_withTarget, get_withTarget, implies_true]

private theorem sections_withTarget (py : Python) (raw : Dict) (t s : Text) :
    loadRenode s (withTarget t raw) = loadRenode s raw ∧ loadNoise s (withTarget t raw) = loadNoise s raw ∧
      (∀ stimulus, loadMqtt s stimulus (withTarget t raw) = loadMqtt s stimulus raw) ∧
      loadShim py s (withTarget t raw) = loadShim py s raw ∧ loadEvents s (withTarget t raw) = loadEvents s raw ∧
      loadPlant py s (withTarget t raw) = loadPlant py s raw ∧
      loadEnvironment py s (withTarget t raw) = loadEnvironment py s raw ∧
      ∀ expect, checkDetector s expect (withTarget t raw) = checkDetector s expect raw := by
  refine ⟨?_, ?_, ?_, ?_, ?_, ?_, ?_, ?_⟩ <;>
    simp (disch := decide) only [loadRenode, loadNoise, loadMqtt, loadShim, loadEvents, loadPlant, loadEnvironment,
      checkDetector, getD_withTarget, getOr_withTarget, get_withTarget, implies_true]

/-- The detector of the document is that of the loaded task. -/
private theorem checkDetector_eq_ok {task : Task} {v : Yaml} (hevents : loadEvents t₀ raw = .ok task.events)
    (hplant : loadPlant py t₀ raw = .ok v) (hdict : toDict v = .ok task.plant) :
    checkDetector t task.expect raw = .ok () ↔
      task.expect ≠ [] ∨ (task.events ≠ [] ∧ t = unix) ∨ (task.plant ≠ [] ∧ t = plant) := by
  have hraw : (get raw "events").any Yaml.truthy = !task.events.isEmpty := by
    simp only [loadEvents, bind_eq_ok, orRaise_eq_ok, require_eq_ok, forM_eq_ok, pure_eq_ok] at hevents
    obtain ⟨-, -, es, hes, -, -, hes'⟩ := hevents
    rw [← hes', ← truthy_of_listOf hes, getOr]
    cases get raw "events" with
    | none => rfl
    | some w =>
      cases hw : w.truthy
      · have hnil : (Yaml.list []).truthy = false := rfl
        simp [hw, hnil]
      · simp [hw]
  have hplant' : (get raw "plant").any Yaml.truthy = v.truthy := by
    simp only [loadPlant, bind_eq_ok, require_eq_ok, checkWhen_eq_ok, pure_eq_ok] at hplant
    obtain ⟨-, -, -, -, rfl⟩ := hplant
    unfold getD
    cases get raw "plant" <;> rfl
  have hdict' := toDict_truthy hdict
  rw [checkDetector, require_eq_ok, hraw, hplant']
  grind

/-- The loader on the document with another target, for a document that it accepts. -/
private theorem load_withTarget_iff {task : Task} (h : loadMapping py raw = .ok task) (t : Text) :
    (∃ task', loadMapping py (withTarget t raw) = .ok task') ↔
      Fits task t ∧ (t = renode → RenodeKeysPresent task.renode ∧ RenodeTexts task.renode) := by
  obtain ⟨⟨mqtt, plantSection, environment, hmqtt, hplant, henvironment, hplantDict, hmqttDict, hmodules⟩, htarget, hsteps,
    hrenode, hnoise, hshim, hevents, hdetector, hname, hexpect, hfail, hscenario, htimeout, hstimulus, hcompile, htags,
    hlevel, hnotes, hboot, hentry, hdescription⟩ := loadMapping_eq_ok.1 h
  have hknown₀ : task.target ∈ taskTargets := by
    simp only [loadTarget, bind_eq_ok, require_eq_ok, pure_eq_ok] at htarget
    grind
  have hplantDict' := toDict_truthy hplantDict
  have hmqttDict' := toDict_truthy hmqttDict
  have hplant₀ := ((loadPlant_retarget hplant).1 hplant).2
  obtain ⟨hname', hexpect', hfail', hscenario', htimeout', hstimulus', htags', hlevel', hnotes', hboot', hentry',
    hdescription'⟩ := loaders_withTarget py raw t
  obtain ⟨hrenode', hnoise', hmqtt', hshim', hevents', hplant', henvironment', hdetector'⟩ :=
    sections_withTarget py raw t t
  constructor
  · rintro ⟨task', h'⟩
    obtain ⟨⟨m, p, e, hm, hp, -⟩, ht, hs, hr, hn, hsh, hev, hdet, -, hex, -, -, -, hst, -⟩ := loadMapping_eq_ok.1 h'
    obtain ⟨htask, hknown⟩ := loadTarget_withTarget.1 ht
    rw [htask] at hm hp hs hr hn hsh hev hdet
    have hsameSteps : task'.stimulus = task.stimulus := by
      rw [hstimulus', hstimulus] at hst
      exact (Except.ok.inj hst).symm
    have hsameExpect : task'.expect = task.expect := by
      rw [hexpect', hexpect] at hex
      exact (Except.ok.inj hex).symm
    rw [hsameSteps] at hs hm
    rw [hsameExpect, hdetector', checkDetector_eq_ok hevents hplant hplantDict] at hdet
    rw [hmqtt', loadMqtt_retarget hmqtt] at hm
    rw [hplant', loadPlant_retarget hplant, hplantDict'] at hp
    rw [hrenode', loadRenode_retarget hrenode] at hr
    rw [hnoise', loadNoise_retarget hnoise] at hn
    rw [hshim', loadShim_retarget hshim] at hsh
    rw [hevents', loadEvents_retarget hevents] at hev
    obtain ⟨hcontrol, hanchored⟩ := checkSteps_eq_ok.1 hs
    have hmqttTask : task.mqtt = [] ∨ t = unix := by
      refine hm.2.1.imp_left fun hfalsy => ?_
      by_contra hne
      exact Bool.eq_false_iff.1 hfalsy (hmqttDict'.2 hne)
    exact ⟨⟨hknown, hp.2, hev.2, hsh.2, hn.2, hmqttTask, hcontrol, hm.2.2, hanchored, hdet⟩, hr.2⟩
  · rintro ⟨hfits, hren⟩
    have hsamePlant : t = plant ↔ task.target = plant := by
      rw [← hfits.plant, ← hplantDict', hplant₀]
    have hmqttSection : mqtt.truthy = false ∨ t = unix := by
      refine hfits.mqtt.imp_left fun hnil => ?_
      rw [Bool.eq_false_iff, Ne, hmqttDict']
      exact not_not_intro hnil
    refine ⟨task.retarget t, loadMapping_eq_ok.2 ⟨⟨mqtt, plantSection, environment, ?_, ?_, ?_, hplantDict, hmqttDict,
      hmodules⟩, ?_, ?_, ?_, ?_, ?_, ?_, ?_, hname'.trans hname, hexpect'.trans hexpect, hfail'.trans hfail,
      hscenario'.trans hscenario, htimeout'.trans htimeout, hstimulus'.trans hstimulus, hcompile, htags'.trans htags,
      hlevel'.trans hlevel, hnotes'.trans hnotes, (hboot' _).trans hboot, hentry'.trans hentry, ?_⟩⟩
    · exact (hmqtt' _).trans ((loadMqtt_retarget hmqtt).2 ⟨rfl, hmqttSection, hfits.mqttSteps⟩)
    · exact hplant'.trans ((loadPlant_retarget hplant).2 ⟨rfl, hplantDict'.trans hfits.plant⟩)
    · exact (henvironment'.trans (loadEnvironment_retarget hfits.known hknown₀ hsamePlant)).trans henvironment
    · exact loadTarget_withTarget.2 ⟨rfl, hfits.known⟩
    · exact checkSteps_eq_ok.2 ⟨hfits.control, hfits.anchored⟩
    · exact hrenode'.trans ((loadRenode_retarget hrenode).2 ⟨rfl, hren⟩)
    · exact hnoise'.trans ((loadNoise_retarget hnoise).2 ⟨rfl, hfits.noise⟩)
    · exact hshim'.trans ((loadShim_retarget hshim).2 ⟨rfl, hfits.shim⟩)
    · exact hevents'.trans ((loadEvents_retarget hevents).2 ⟨rfl, hfits.events⟩)
    · exact (hdetector' _).trans ((checkDetector_eq_ok hevents hplant hplantDict).2 hfits.detector)
    · rw [hdescription']
      exact hdescription

/-! ### Where the two checks differ -/

/-- The document could be run on renode but for the values of its renode section: something to expect, no section or
step of another target, every awaited answer after a trigger, and a platform and a firmware. -/
structure FitsRenode (py : Python) (raw : Dict) : Prop where
  expect : (getOr raw "expect" (.list [])).truthy = true
  plant : (getD raw "plant" (.dict [])).truthy = false
  events : (getOr raw "events" (.list [])).truthy = false
  shim : py.str (getD raw "shim" (.str [])) = .ok []
  noise : (getD raw "noise" (.dict [])).truthy = false
  mqtt : (getD raw "mqtt" (.dict [])).truthy = false
  steps : ∀ stimulus, (getD raw "stimulus" (.list [])).listOf? Yaml.dict? = some stimulus →
    hasMqttStep stimulus = false ∧ triggersFirst false stimulus = true
  keys : ∀ d, getD raw "renode" (.dict []) = .dict d → RenodeKeysPresent d

/-- The values of the renode section that are there are non-empty strings. -/
def RenodeValues (raw : Dict) : Prop := ∀ d, getD raw "renode" (.dict []) = .dict d → RenodeTexts d

private theorem getD_renode {task : Task} (h : loadRenode t₀ raw = .ok task.renode) :
    getD raw "renode" (.dict []) = .dict task.renode := by
  simp only [loadRenode, bind_eq_ok, orRaise_eq_ok, require_eq_ok, pure_eq_ok] at h
  obtain ⟨d, hd, -, -, -, -, rfl⟩ := h
  cases hv : getD raw "renode" (.dict []) with
  | dict items =>
    rw [hv] at hd
    rw [Option.some.inj hd]
  | _ =>
    rw [hv] at hd
    cases hd

private theorem truthy_of_dict {v : Yaml} {d : Dict} (h : v.dict? = some d) : v.truthy = !d.isEmpty := by
  cases v with
  | dict items =>
    obtain rfl := Option.some.inj h
    rfl
  | _ => cases h

private theorem fitsRenode_iff {task : Task} (h : loadMapping py raw = .ok task) :
    FitsRenode py raw ↔ Fits task renode ∧ RenodeKeysPresent task.renode := by
  obtain ⟨⟨mqtt, plantSection, environment, hmqtt, hplant, henvironment, hplantDict, hmqttDict, hmodules⟩, htarget, hsteps,
    hrenode, hnoise, hshim, hevents, hdetector, hname, hexpect, hfail, hscenario, htimeout, hstimulus, hcompile, htags,
    hlevel, hnotes, hboot, hentry, hdescription⟩ := loadMapping_eq_ok.1 h
  have hvalue := getD_renode hrenode
  have hplantDict' := toDict_truthy hplantDict
  have hmqttDict' := toDict_truthy hmqttDict
  simp only [loadMqtt, loadPlant, loadNoise, loadShim, loadEvents, loadStrings, loadStimulus, bind_eq_ok, orRaise_eq_ok,
    require_eq_ok, escape_eq_ok, pure_eq_ok] at hmqtt hplant hnoise hshim hevents hexpect hstimulus
  obtain ⟨-, -, -, -, -, -, rfl⟩ := hmqtt
  obtain ⟨-, -, -, -, rfl⟩ := hplant
  obtain ⟨noise, hnoise, -, -, -, -, -, -, -, -, -, -, -, -, rfl⟩ := hnoise
  obtain ⟨shim, hshim, -, -, -, -, rfl⟩ := hshim
  obtain ⟨-, -, events, hes, -, -, rfl⟩ := hevents
  obtain ⟨stimulus, hst, -, -, rfl⟩ := hstimulus
  have hnoiseTruthy := truthy_of_dict hnoise
  have heventsTruthy := truthy_of_listOf hes
  have hexpectTruthy := truthy_of_listOf hexpect
  have hnotUnix : renode ≠ unix := by decide
  have hnotPlant : renode ≠ plant := by decide
  have hanchored : isAnchored renode = true := by decide
  constructor
  · rintro ⟨fexpect, fplant, fevents, fshim, fnoise, fmqtt, fsteps, fkeys⟩
    obtain ⟨fmqttSteps, ftriggers⟩ := fsteps _ hst
    refine ⟨⟨by decide, ?_, .inl ?_, .inl ?_, .inl ?_, .inl ?_, fun hunix => hnotUnix hunix.1, .inl fmqttSteps, .inr ftriggers,
      .inl ?_⟩, fkeys _ hvalue⟩
    · rw [← hplantDict', fplant]
      simp [hnotPlant]
    · simpa [fevents] using heventsTruthy
    · exact (Except.ok.inj (fshim.symm.trans hshim)).symm
    · simpa [fnoise] using hnoiseTruthy
    · by_contra hne
      exact absurd (hmqttDict'.2 hne) (by simp [fmqtt])
    · simpa [fexpect] using hexpectTruthy
  · rintro ⟨⟨-, hplant, hevents, hshimFits, hnoiseFits, hmqttFits, -, hstepsFits, hanchoredFits, hdetectorFits⟩, hkeys⟩
    have heventsNil := hevents.resolve_right hnotUnix
    have hmqttNil := hmqttFits.resolve_right hnotUnix
    have hplantNil : task.plant = [] := by
      by_contra hne
      exact hnotPlant (hplant.1 hne)
    have hexpectNe : task.expect ≠ [] := by
      rcases hdetectorFits with hne | ⟨-, hunix⟩ | ⟨-, heq⟩
      · exact hne
      · exact absurd hunix hnotUnix
      · exact absurd heq hnotPlant
    refine ⟨?_, ?_, ?_, ?_, ?_, ?_, ?_, ?_⟩
    · rw [hexpectTruthy]
      simpa using hexpectNe
    · rw [Bool.eq_false_iff, Ne, hplantDict']
      exact not_not_intro hplantNil
    · rw [heventsTruthy, heventsNil]
      rfl
    · rw [hshim, hshimFits.resolve_right hnotUnix]
    · rw [hnoiseTruthy, hnoiseFits.resolve_right hnotUnix]
      rfl
    · rw [Bool.eq_false_iff, Ne, hmqttDict']
      exact not_not_intro hmqttNil
    · intro stimulus hstimulus
      obtain rfl := Option.some.inj (hstimulus.symm.trans hst)
      exact ⟨hstepsFits.resolve_right hnotUnix, hanchoredFits.resolve_left (by simp [hanchored])⟩
    · intro d hd
      obtain rfl := Yaml.dict.inj (hd.symm.trans hvalue)
      exact hkeys

/-- The two checks agree, but for a document fit for renode with a value of its renode section that is no text. -/
theorem validators_agree_iff {task : Task} (h : loadTask py (.dict raw) = .ok task) (t : Text) :
    (checkTargetCompat (task.retarget t) = [] ↔ ∃ task', loadTask py (.dict (withTarget t raw)) = .ok task') ↔
      ¬ (t = renode ∧ FitsRenode py raw ∧ ¬ RenodeValues raw) := by
  have hload : loadMapping py raw = .ok task := h
  have hvalue : getD raw "renode" (.dict []) = .dict task.renode := getD_renode (loadMapping_eq_ok.1 hload).2.2.2.1
  have hvalues : RenodeValues raw ↔ RenodeTexts task.renode := by
    constructor
    · intro hv
      exact hv _ hvalue
    · intro hv d hd
      obtain rfl := Yaml.dict.inj (hd.symm.trans hvalue)
      exact hv
  show (_ ↔ ∃ task', loadMapping py (withTarget t raw) = .ok task') ↔ _
  rw [compat_iff, load_withTarget_iff hload, fitsRenode_iff hload, hvalues]
  constructor
  · rintro hiff ⟨rfl, ⟨hfits, hkeys⟩, hno⟩
    exact hno ((hiff.1 ⟨hfits, fun _ => hkeys⟩).2 rfl).2
  · intro hno
    constructor
    · rintro ⟨hfits, hkeys⟩
      refine ⟨hfits, fun heq => ⟨hkeys heq, ?_⟩⟩
      by_contra hbad
      subst heq
      exact hno ⟨rfl, ⟨hfits, hkeys rfl⟩, hbad⟩
    · rintro ⟨hfits, hren⟩
      exact ⟨hfits, fun heq => (hren heq).1⟩

/-- Python on documents that hold strings, lists and mappings and plain patterns. -/
def plainPython : Python where
  str := fun v => .ok (v.text?.getD [])
  str_text := fun _ => rfl
  intOfText := fun _ => none
  intOfBytes := fun _ => none
  round := .finite
  compile := fun _ => .ok ()

def entryOf (key : String) (value : Yaml) : Yaml × Yaml := (.str key.toList, value)

def textOf (s : String) : Yaml := .str s.toList

/-- A wokwi task with a renode section that nobody has filled in. -/
def emptyFirmware : Dict :=
  [entryOf "name" (textOf "t"), entryOf "expect" (.list [textOf "ok"]),
    entryOf "renode" (.dict [entryOf "platform" (textOf "p.repl"), entryOf "firmware" (textOf "")])]

theorem validators_agree_emptyFirmware :
    ∃ task, loadTask plainPython (.dict emptyFirmware) = .ok task ∧
      (checkTargetCompat (task.retarget unix) = [] ↔
        ∃ task', loadTask plainPython (.dict (withTarget unix emptyFirmware)) = .ok task') := by
  obtain ⟨task, h⟩ : ∃ task, loadTask plainPython (.dict emptyFirmware) = .ok task := ⟨_, rfl⟩
  exact ⟨task, h, (validators_agree_iff h unix).2 fun hbad => absurd hbad.1 (by decide)⟩

theorem emptyFirmware_disagrees :
    ∃ task, loadTask plainPython (.dict emptyFirmware) = .ok task ∧ checkTargetCompat (task.retarget renode) = [] ∧
      ¬ ∃ task', loadTask plainPython (.dict (withTarget renode emptyFirmware)) = .ok task' := by
  refine ⟨_, rfl, rfl, ?_⟩
  have herror : loadTask plainPython (.dict (withTarget renode emptyFirmware)) =
      .error (valueError "renode.firmware must be a non-empty string") := rfl
  rintro ⟨task', h⟩
  cases herror.symm.trans h

end IronHarness.Tasks
