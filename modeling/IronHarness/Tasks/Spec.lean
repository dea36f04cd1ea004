import IronHarness.Tasks.Compat
import Mathlib.Data.List.Forall2

/-!
# The parameters of a plant

`PlantSpec.from_section` (ironbench/plant.py) converts the plant section of a loaded task.  Behind the checks of the
loader only a number that no float holds is left to stop it (`fromSection_succeeds_iff`).
-/

namespace IronHarness.Tasks

open FirstError

/-- What `from_section` raises: a `KeyError`, or what a conversion raises. -/
inductive SpecError
  | key
  | conversion (kind : Kind)

structure PlantSpec where
  model : Text
  K : PyFloat
  T : PyFloat
  ambient : PyFloat
  y0 : PyFloat
  dt : PyFloat
  duration : PyFloat
  uMin : PyFloat
  uMax : PyFloat
  noiseStd : PyFloat
  seed : Int
  setpoint : PyFloat
  requirements : Dict
  disturbances : List (PyFloat × PyFloat)

def conversion {α : Type} : Except Kind α → Except SpecError α
  | .ok a => .ok a
  | .error kind => .error (.conversion kind)

/-- `value[key]` -/
def subscript (key : String) : Yaml → Except SpecError Yaml
  | .dict d => (get d key).elim (.error .key) .ok
  | _ => .error (.conversion .type)

section

variable (py : Python) (parse : Yaml → Option PyFloat)

/-- `float(value)`; `parse` reads the texts and bytes of a float. -/
def floatOf (v : Yaml) : Except Kind PyFloat :=
  match v with
  | .str _ | .bytes _ => (parse v).elim (.error .value) .ok
  | v => v.comparable?.elim (.error .type) py.float

/-- `float(value[key])` -/
def floatAt (key : String) (v : Yaml) : Except SpecError PyFloat := do
  let number ← subscript key v
  conversion (floatOf py parse number)

def disturbanceOf (d : Yaml) : Except SpecError (PyFloat × PyFloat) := do
  let start ← floatAt py parse "at" d
  let ambient ← floatAt py parse "ambient" d
  pure (start, ambient)

def fromSection (fields : Dict) : Except SpecError PlantSpec := do
  let model ← conversion (py.str (getD fields "model" (.str "heater".toList)))
  let K ← floatAt py parse "K" (.dict fields)
  let T ← floatAt py parse "T" (.dict fields)
  let ambient ← conversion (floatOf py parse (getD fields "ambient" (.float (.finite 20))))
  let y0 ← conversion (floatOf py parse (getD fields "y0" (getD fields "ambient" (.float (.finite 20)))))
  let dt ← conversion (floatOf py parse (getD fields "dt" (.float (.finite (1 / 2)))))
  let duration ← floatAt py parse "duration" (.dict fields)
  let uMin ← conversion (floatOf py parse (getD fields "u_min" (.float (.finite 0))))
  let uMax ← conversion (floatOf py parse (getD fields "u_max" (.float (.finite 1))))
  let noiseStd ← conversion (floatOf py parse (getD fields "noise_std" (.float (.finite 0))))
  let seed ← conversion (py.int (getD fields "seed" (.int 0)))
  let setpoint ← floatAt py parse "setpoint" (.dict fields)
  let requirements ← conversion (toDict (getOr fields "requirements" (.dict [])))
  let events ← conversion (toTuple (getD fields "disturbances" (.list [])))
  let disturbances ← events.mapM (disturbanceOf py parse)
  pure
    { model := model
      K := K
      T := T
      ambient := ambient
      y0 := y0
      dt := dt
      duration := duration
      uMin := uMin
      uMax := uMax
      noiseStd := noiseStd
      seed := seed
      setpoint := setpoint
      requirements := requirements
      disturbances := disturbances }

end

/-! ### Numbers of a section -/

/-- The number at a key, or `default` where the key is missing. -/
def numberAt (fields : Dict) (key : String) (default : PyFloat) : PyFloat :=
  ((get fields key).bind Yaml.number?).getD default

/-- The events of the section. -/
def disturbancesOf (fields : Dict) : List Dict := ((getD fields "disturbances" (.list [])).listOf? Yaml.dict?).getD []

/-- The numbers that the loader does not convert itself. -/
def sectionNumbers (fields : Dict) : List PyFloat :=
  let ambient := numberAt fields "ambient" (.finite 20)
  [numberAt fields "K" .nan, numberAt fields "T" .nan, ambient, numberAt fields "y0" ambient,
    numberAt fields "setpoint" .nan] ++
  (disturbancesOf fields).flatMap fun d => [numberAt d "at" .nan, numberAt d "ambient" .nan]

variable {py : Python} {parse : Yaml → Option PyFloat} {fields : Dict} {key : String}

@[simp] theorem succeeds_conversion {α : Type} {x : Except Kind α} : Succeeds (conversion x) ↔ Succeeds x := by
  cases x with
  | error kind =>
    show Succeeds (.error (.conversion kind) : Except SpecError α) ↔ _
    simp
  | ok a => exact iff_of_true ⟨a, rfl⟩ ⟨a, rfl⟩

private theorem floatOf_number {v : Yaml} {x : PyFloat} (h : v.number? = some x) : floatOf py parse v = py.float x := by
  cases v with
  | int n =>
    obtain rfl := Option.some.inj h
    rfl
  | float y =>
    obtain rfl := Option.some.inj h
    rfl
  | _ => cases h

private theorem floatOf_getD {default : Yaml} {x : PyFloat} (hdefault : floatOf py parse default = py.float x)
    (hnumber : ∀ v, get fields key = some v → v.number?.isSome = true) :
    floatOf py parse (getD fields key default) = py.float (numberAt fields key x) := by
  unfold getD numberAt
  cases hget : get fields key with
  | none => exact hdefault
  | some v =>
    obtain ⟨y, hy⟩ := Option.isSome_iff_exists.1 (hnumber v hget)
    rw [Option.getD_some, Option.bind_some, hy]
    exact floatOf_number hy

private theorem succeeds_floatAt (parse : Yaml → Option PyFloat) (hhas : has fields key = true)
    (hnumber : ∀ v, get fields key = some v → v.number?.isSome = true) (x : PyFloat) :
    Succeeds (floatAt py parse key (.dict fields)) ↔ Succeeds (py.float (numberAt fields key x)) := by
  obtain ⟨v, hv⟩ := Option.isSome_iff_exists.1 hhas
  obtain ⟨y, hy⟩ := Option.isSome_iff_exists.1 (hnumber v hv)
  have hitem : subscript key (.dict fields) = .ok v := by
    rw [subscript, hv]
    rfl
  have hfloat : floatAt py parse key (.dict fields) = conversion (py.float y) := by
    rw [floatAt, hitem]
    exact congrArg conversion (floatOf_number hy)
  rw [hfloat, succeeds_conversion, numberAt, hv, Option.bind_some, hy, Option.getD_some]

/-! ### A section that the loader has accepted -/

private theorem mem_of_get {v : Yaml} (h : get fields key = some v) : (.str key.toList, v) ∈ fields := by
  obtain ⟨item, hitem, rfl⟩ := Option.map_eq_some_iff.1 h
  have hkey := List.find?_some hitem
  have hmem := List.mem_of_find?_eq_some hitem
  obtain ⟨k, v⟩ := item
  cases k with
  | str s =>
    obtain rfl := of_decide_eq_true hkey
    exact hmem
  | _ => cases hkey

/-- A value of the section is a number, but at four keys. -/
private theorem number_of_checkPlantValue (h : ∀ item ∈ fields, checkPlantValue item = .ok ())
    (hkey : key ∉ ["model", "requirements", "disturbances", "seed"]) {v : Yaml} (hv : get fields key = some v) :
    v.number?.isSome = true := by
  have hitem := h _ (mem_of_get hv)
  simp only [List.mem_cons, List.not_mem_nil, or_false, not_or] at hkey
  simp only [checkPlantValue, isText_str, List.any_cons, List.any_nil, hkey, decide_false, Bool.or_false,
    Bool.false_eq_true, if_false, bind_eq_ok, require_eq_ok] at hitem
  obtain ⟨-, hnumber, -⟩ := hitem
  exact hnumber

private theorem seed_of_checkPlantValue (h : ∀ item ∈ fields, checkPlantValue item = .ok ()) :
    Succeeds (py.int (getD fields "seed" (.int 0))) := by
  unfold getD
  cases hget : get fields "seed" with
  | none => exact ⟨0, rfl⟩
  | some v =>
    have hrule : checkPlantValue (.str "seed".toList, v) =
        require v.int?.isSome (valueError "plant.seed must be an integer") := rfl
    have hint := require_eq_ok.1 (hrule.symm.trans (h _ (mem_of_get hget)))
    cases v with
    | int n => exact ⟨n, rfl⟩
    | _ => cases hint

/-- What the checks of the section leave behind. -/
structure PlantAccepted (py : Python) (fields : Dict) : Prop where
  model : Succeeds (py.str (getD fields "model" (.str "heater".toList)))
  keys : ∀ key ∈ ["K", "T", "duration", "setpoint"], has fields key = true
  values : ∀ item ∈ fields, checkPlantValue item = .ok ()
  times : checkTimes py fields = .ok ()
  range : checkRange py fields = .ok ()
  requirements : ∃ d, getD fields "requirements" .null = .dict d ∧ d ≠ []
  disturbances : ∃ events, (getD fields "disturbances" (.list [])).listOf? Yaml.dict? = some events ∧
    ∀ event ∈ events, checkDisturbance event = .ok ()

theorem plantAccepted (h : checkPlant py (.dict fields) = .ok ()) : PlantAccepted py fields := by
  simp only [checkPlant, bind_eq_ok, orRaise_eq_ok, require_eq_ok, escape_eq_ok, forM_eq_ok] at h
  obtain ⟨_, ⟨⟩, -, -, -, -, model, hmodel, -, -, -, hkeys, -, hvalues, -, -, -, -, ⟨⟩, htimes, ⟨⟩, hrange, ⟨⟩,
    hrequirements, events, hevents, hdisturbances⟩ := h
  refine ⟨⟨model, hmodel⟩, List.all_eq_true.1 hkeys, hvalues, htimes, hrange, ?_, events, hevents, hdisturbances⟩
  simp only [checkRequirements, bind_eq_ok, orRaise_eq_ok] at hrequirements
  obtain ⟨d, hd, -⟩ := hrequirements
  obtain ⟨hdict, hne⟩ := Option.filter_eq_some_iff.1 hd
  cases hvalue : getD fields "requirements" .null with
  | dict items =>
    rw [hvalue] at hdict
    obtain rfl := Option.some.inj hdict
    exact ⟨items, rfl, by simpa using hne⟩
  | _ =>
    rw [hvalue] at hdict
    cases hdict

theorem PlantAccepted.number (h : PlantAccepted py fields)
    (hkey : key ∉ ["model", "requirements", "disturbances", "seed"]) (v : Yaml) (hv : get fields key = some v) :
    v.number?.isSome = true :=
  number_of_checkPlantValue h.values hkey hv

/-- The numbers that the loader has converted convert again. -/
private theorem PlantAccepted.converted (h : PlantAccepted py fields) :
    Succeeds (py.float (numberAt fields "dt" (.finite (1 / 2)))) ∧
      Succeeds (py.float (numberAt fields "duration" .nan)) ∧
      Succeeds (py.float (numberAt fields "u_min" (.finite 0))) ∧
      Succeeds (py.float (numberAt fields "u_max" (.finite 1))) ∧
      Succeeds (py.float (numberAt fields "noise_std" (.finite 0))) := by
  have htimes := h.times
  have hrange := h.range
  simp only [checkTimes, checkRange, plantFloat, bind_eq_ok, escape_eq_ok] at htimes hrange
  obtain ⟨dt, hdt, -, -, duration, hduration, -⟩ := htimes
  obtain ⟨uMin, huMin, uMax, huMax, -, -, noiseStd, hnoiseStd, -⟩ := hrange
  exact ⟨⟨dt, hdt⟩, ⟨duration, hduration⟩, ⟨uMin, huMin⟩, ⟨uMax, huMax⟩, ⟨noiseStd, hnoiseStd⟩⟩

private theorem checkDisturbance_eq_ok {event : Dict} (h : checkDisturbance event = .ok ()) :
    (has event "at" = true ∧ has event "ambient" = true) ∧
      (∀ v, get event "at" = some v → v.number?.isSome = true) ∧
      ∀ v, get event "ambient" = some v → v.number?.isSome = true := by
  simp only [checkDisturbance, bind_eq_ok, require_eq_ok, Bool.and_eq_true] at h
  obtain ⟨-, -, -, hhas, -, hstart, -, hambient, -⟩ := h
  refine ⟨hhas, ?_, ?_⟩
  · intro v hv
    rw [getD, hv, Option.getD_some] at hstart
    cases hnumber : v.number? with
    | none => simp [hnumber] at hstart
    | some x => rfl
  · intro v hv
    rwa [getD, hv, Option.getD_some] at hambient

private theorem succeeds_disturbanceOf {event : Dict} (h : checkDisturbance event = .ok ()) :
    Succeeds (disturbanceOf py parse (.dict event)) ↔
      Succeeds (py.float (numberAt event "at" .nan)) ∧ Succeeds (py.float (numberAt event "ambient" .nan)) := by
  obtain ⟨⟨hstart, hambient⟩, hstartNumber, hambientNumber⟩ := checkDisturbance_eq_ok h
  rw [← succeeds_floatAt parse hstart hstartNumber, ← succeeds_floatAt parse hambient hambientNumber]
  unfold disturbanceOf
  refine succeeds_bind_const fun _ _ => ?_
  rw [succeeds_bind_const (q := True) fun _ _ => iff_of_true (succeeds_pure _) trivial, and_true]

private theorem forall₂_of_mapM {α : Type} {item? : Yaml → Option α} {items : List Yaml} {as : List α}
    (h : items.mapM item? = some as) : List.Forall₂ (fun v a => item? v = some a) items as := by
  induction items generalizing as with
  | nil =>
    obtain rfl := Option.some.inj h
    exact .nil
  | cons v items ih =>
    simp only [List.mapM_cons, Option.bind_eq_bind, Option.bind_eq_some_iff] at h
    obtain ⟨a, ha, rest, hrest, has⟩ := h
    obtain rfl := Option.some.inj has
    exact .cons ha (ih hrest)

theorem forall_mem_of_mapM {α : Type} {item? : Yaml → Option α} {items : List Yaml} {as : List α} {p : α → Prop}
    (hp : ∀ v a, item? v = some a → p a) (h : items.mapM item? = some as) : ∀ a ∈ as, p a := by
  have hall := forall₂_of_mapM h
  clear h
  induction hall with
  | nil => exact fun a ha => absurd ha List.not_mem_nil
  | cons ha _ ih => exact List.forall_mem_cons.2 ⟨hp _ _ ha, ih⟩

theorem eq_dict {v : Yaml} {d : Dict} (h : v.dict? = some d) : v = .dict d := by
  cases v with
  | dict items =>
    obtain rfl := Option.some.inj h
    rfl
  | _ => cases h

private theorem map_of_mapM_dict {items : List Yaml} {ds : List Dict} (h : items.mapM Yaml.dict? = some ds) :
    items = ds.map Yaml.dict := by
  rw [← List.forall₂_eq_eq_eq, List.forall₂_map_right_iff]
  exact (forall₂_of_mapM h).imp fun v d hd => eq_dict hd

/-- The events of the section are converted as they stand. -/
theorem PlantAccepted.events (h : PlantAccepted py fields) (parse : Yaml → Option PyFloat) :
    ∃ events, conversion (toTuple (getD fields "disturbances" (.list []))) = .ok events ∧
      (Succeeds (events.mapM (disturbanceOf py parse)) ↔
        ∀ d ∈ disturbancesOf fields, Succeeds (py.float (numberAt d "at" .nan)) ∧
          Succeeds (py.float (numberAt d "ambient" .nan))) := by
  obtain ⟨events, hevents, hchecks⟩ := h.disturbances
  have hof : disturbancesOf fields = events := by
    rw [disturbancesOf, hevents, Option.getD_some]
  cases hvalue : getD fields "disturbances" (.list []) with
  | list items =>
    rw [hvalue] at hevents
    refine ⟨items, rfl, ?_⟩
    have hitems : items = events.map Yaml.dict := map_of_mapM_dict hevents
    rw [succeeds_mapM, hof, hitems, List.forall_mem_map]
    exact forall₂_congr fun d hd => succeeds_disturbanceOf (hchecks d hd)
  | _ =>
    rw [hvalue] at hevents
    cases hevents

private theorem PlantAccepted.requirementsDict (h : PlantAccepted py fields) :
    Succeeds (toDict (getOr fields "requirements" (.dict []))) := by
  obtain ⟨d, hd, hne⟩ := h.requirements
  have hget : get fields "requirements" = some (.dict d) := by
    unfold getD at hd
    cases hvalue : get fields "requirements" with
    | none => simp [hvalue] at hd
    | some v => simpa [hvalue] using hd
  have htruthy : (Yaml.dict d).truthy = true := by simpa [Yaml.truthy] using hne
  refine ⟨d, ?_⟩
  simp only [getOr, hget, htruthy, if_true, toDict]

private theorem forall_sectionNumbers {p : PyFloat → Prop} :
    (∀ x ∈ sectionNumbers fields, p x) ↔
      p (numberAt fields "K" .nan) ∧ p (numberAt fields "T" .nan) ∧ p (numberAt fields "ambient" (.finite 20)) ∧
        p (numberAt fields "y0" (numberAt fields "ambient" (.finite 20))) ∧ p (numberAt fields "setpoint" .nan) ∧
        ∀ d ∈ disturbancesOf fields, p (numberAt d "at" .nan) ∧ p (numberAt d "ambient" .nan) := by
  simp only [sectionNumbers, List.forall_mem_append, List.forall_mem_cons, List.forall_mem_flatMap, List.not_mem_nil,
    false_implies, implies_true, and_true, and_assoc]

/-- Behind the checks of the loader, `from_section` fails exactly where a number of the section is too large for a
float. -/
theorem fromSection_succeeds_iff (h : PlantAccepted py fields) :
    Succeeds (fromSection py parse fields) ↔ ∀ x ∈ sectionNumbers fields, Succeeds (py.float x) := by
  obtain ⟨events, hevents, hdisturbances⟩ := h.events parse
  obtain ⟨hdt, hduration, huMin, huMax, hnoiseStd⟩ := h.converted
  have hat : ∀ key x, key ∉ ["model", "requirements", "disturbances", "seed"] → has fields key = true →
      (Succeeds (floatAt py parse key (.dict fields)) ↔ Succeeds (py.float (numberAt fields key x))) :=
    fun key x hkey hhas => succeeds_floatAt parse hhas (h.number hkey) x
  have hK := hat "K" .nan (by decide) (h.keys _ (by decide))
  have hT := hat "T" .nan (by decide) (h.keys _ (by decide))
  have hdurationAt := hat "duration" .nan (by decide) (h.keys _ (by decide))
  have hsetpoint := hat "setpoint" .nan (by decide) (h.keys _ (by decide))
  have hfloat : ∀ key x, key ∉ ["model", "requirements", "disturbances", "seed"] →
      floatOf py parse (getD fields key (.float x)) = py.float (numberAt fields key x) :=
    fun key x hkey => floatOf_getD rfl (h.number hkey)
  have hambient := hfloat "ambient" (.finite 20) (by decide)
  have hy0 : floatOf py parse (getD fields "y0" (getD fields "ambient" (.float (.finite 20)))) =
      py.float (numberAt fields "y0" (numberAt fields "ambient" (.finite 20))) :=
    floatOf_getD hambient (h.number (by decide))
  -- the value of a conversion does not matter for the next one
  simp only [fromSection, succeeds_bind, succeeds_pure, and_true, exists_and_right, exists_eq_ok, succeeds_conversion,
    hevents, Except.ok.injEq, exists_eq_left']
  rw [forall_sectionNumbers, ← hdisturbances, hK, hT, hambient, hy0, hfloat "dt" _ (by decide), hdurationAt,
    hfloat "u_min" _ (by decide), hfloat "u_max" _ (by decide), hfloat "noise_std" _ (by decide), hsetpoint]
  constructor
  · rintro ⟨-, hK, hT, hambient, hy0, -, -, -, -, -, -, hsetpoint, -, hall⟩
    exact ⟨hK, hT, hambient, hy0, hsetpoint, hall⟩
  · rintro ⟨hK, hT, hambient, hy0, hsetpoint, hall⟩
    exact ⟨h.model, hK, hT, hambient, hy0, hdt, hduration, huMin, huMax, hnoiseStd, seed_of_checkPlantValue h.values,
      hsetpoint, h.requirementsDict, hall⟩

end IronHarness.Tasks
