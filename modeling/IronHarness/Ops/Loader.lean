import IronHarness.Campaign.Setup
import IronHarness.Ops.Checks

/-!
# The ops task loader

`load_ops_task` and `load_ops_tasks` (ironbench/ops_tasks.py): the document of an ops task becomes a task, or the first
rule that it breaks is the error.  The suites that come out of documents with proper mappings are those of valid tasks
with names of their own, and all of them, and every step of a valid task is one that the runner knows how to do, with an
asset that `resolve_assets` has (`suite_loaded_iff`).
-/

namespace IronHarness.Ops.Loader

open TextLines (strip)
open Tasks (Yaml Dict Text Loads LoadError get getD getOr has onlyKeys require orRaise valueError typeError classTags
  hashable Keys Proper keys_texts proper_list proper_dict proper_texts bind_eq_ok require_eq_ok orRaise_eq_ok pure_eq_ok
  forM_eq_ok)
open Checks (isFilled isAbsolute isString isNull optional mapping loadJudge)

/-! ### The parts of a task -/

inductive StepKind
  | wipeFlash
  | flashAsset
  | deployFile
  | removeFile
  deriving DecidableEq

def StepKind.name : StepKind → String
  | .wipeFlash => "wipe_flash"
  | .flashAsset => "flash_asset"
  | .deployFile => "deploy_file"
  | .removeFile => "remove_file"

/-- `_STEP_KINDS` -/
def StepKind.keys : StepKind → List String
  | .wipeFlash => []
  | .flashAsset => ["asset"]
  | .deployFile => ["asset", "target"]
  | .removeFile => ["path"]

structure OpsStep where
  kind : StepKind
  params : Dict

structure OpsAsset where
  name : Yaml
  path : Yaml
  url : Yaml
  sha256 : Yaml

structure OpsBudget where
  maxIterations : Int
  iterTimeoutSec : Int

structure OpsTask where
  name : Text
  description : Text
  wallSec : Int
  budget : OpsBudget
  judge : List Checks.OpsCheck
  level : Int
  tags : List Text
  notes : List Text
  dossier : List Text
  allowedTools : List Text
  assets : List OpsAsset
  setup : List OpsStep
  restore : List OpsStep

/-- What the loader takes from outside: `==` on the values of a document, and the files that are there next to it. -/
structure Libraries extends Tasks.Equality where
  isFile : Text → Bool
  /-- The directory itself is no file. -/
  isFile_nil : isFile [] = false

/-! ### The rules -/

/-- `_int_in` -/
def intIn (low high : Int) (value : Yaml) : Loads Int :=
  orRaise (valueError "expected int in a range") (value.int?.filter fun n => low ≤ n && n ≤ high)

def stepKindOf (key : Yaml) : Option StepKind :=
  [.wipeFlash, .flashAsset, .deployFile, .removeFile].find? fun kind => key.isText kind.name

/-- The rules for the parameters of a step. -/
def checkStep (kind : StepKind) (params : Dict) : Loads Unit := do
  require (onlyKeys kind.keys params) (valueError "unknown keys")
  require (kind.keys.all (has params)) (valueError "missing params")
  require (kind != .flashAsset || isString (getD params "asset" .null)) (valueError "asset must be a name")
  require (kind != .deployFile || isAbsolute (getD params "target" .null))
    (valueError "target must be an absolute device path")
  optional params "asset" isString (valueError "asset must be a string")
  optional params "path" isString (valueError "path must be a string")
  require (kind != .removeFile || isAbsolute (getD params "path" (.str [])))
    (valueError "path must be an absolute device path")

def parseStep (entry : Yaml) : Loads OpsStep :=
  match entry with
  | .dict [(key, value)] => do
    let kind ← orRaise (valueError "unknown step kind") (stepKindOf key)
    let params ← mapping value
    checkStep kind params
    return ⟨kind, params⟩
  | _ => .error (valueError "expected a single-key mapping")

/-- `_parse_steps` -/
def parseSteps (raw : Yaml) : Loads (List OpsStep) :=
  match raw with
  | .null => .ok []
  | .list entries => entries.mapM parseStep
  | _ => .error (typeError "expected a list of steps")

def isUrl : Yaml → Bool
  | .str s => "https://".toList.isPrefixOf s || "file://".toList.isPrefixOf s
  | _ => false

def isPin : Yaml → Bool
  | .str s => s.length = 64
  | _ => false

/-- `_parse_asset` -/
def parseAsset (item : Yaml × Yaml) : Loads OpsAsset := do
  let spec ← orRaise (typeError "expected a mapping") item.2.dict?
  require (onlyKeys ["path", "url", "sha256"] spec) (valueError "unknown keys")
  let path := getD spec "path" .null
  let url := getD spec "url" .null
  let sha := getD spec "sha256" .null
  require (path.truthy != url.truthy) (valueError "exactly one of path/url is required")
  require (isNull url || isUrl url) (valueError "url must be https or file://")
  require (isNull url || isPin sha) (valueError "a 64-char sha256 pin is mandatory for url assets")
  require (!isNull url || isFilled path) (valueError "path must be a non-empty string")
  return ⟨item.1, path, url, sha⟩

/-- The file of an asset is there; a path that is neither a string nor `None` cannot be joined to the directory. -/
def checkFile (lib : Libraries) (asset : OpsAsset) : Loads Unit :=
  match asset.path with
  | .null => .ok ()
  | .str s => require (lib.isFile s) (valueError "the file of the asset is missing")
  | _ => .error (typeError "unsupported operand type(s) for /")

def loadText (raw : Dict) (key : String) : Loads Text :=
  orRaise (valueError (key ++ " must be a non-empty string")) (getD raw key .null).nonBlank?

def items? : Yaml → Option (List Yaml)
  | .list items => some items
  | _ => none

def member? (allowed : List Text) (value : Yaml) : Option Text := value.text?.filter allowed.contains

/-- `isinstance(value, list) and set(value) <= allowed` -/
def loadMembers (key : String) (allowed : List Text) (value : Yaml) : Loads (List Text) := do
  let items ← orRaise (valueError (key ++ " must be a subset")) (items? value)
  require (items.all hashable) (typeError "unhashable type")
  orRaise (valueError (key ++ " must be a subset")) (items.mapM (member? allowed))

def filled? : Yaml → Option Text
  | .str (c :: s) => some (c :: s)
  | _ => none

/-- `notes` and `dossier` -/
def loadTexts (raw : Dict) (key : String) : Loads (List Text) :=
  orRaise (valueError (key ++ " must be a non-empty string list")) ((getD raw key (.list [])).listOf? filled?)

/-- `ALLOWED_TOOLS` -/
def allowedTools : List Text := ["serial".toList, "file".toList, "esp".toList, "mqtt".toList]

def loadTools (raw : Dict) : Loads (List Text) := do
  let tools ← loadMembers "allowed_tools" allowedTools (getD raw "allowed_tools" (.list [.str "serial".toList]))
  require (!tools.isEmpty) (valueError "allowed_tools must be a non-empty subset")
  return tools

def loadBudget (raw : Dict) : Loads OpsBudget := do
  let budget ← orRaise (typeError "budget must be a mapping") (getOr raw "budget" (.dict [])).dict?
  require (onlyKeys ["max_iterations", "iter_timeout_sec"] budget) (valueError "unknown keys")
  let maxIterations ← intIn 1 20 (getD budget "max_iterations" (.int 8))
  let iterTimeoutSec ← intIn 10 1200 (getD budget "iter_timeout_sec" (.int 300))
  return ⟨maxIterations, iterTimeoutSec⟩

def loadAssets (lib : Libraries) (raw : Dict) : Loads (List OpsAsset) := do
  let items ← orRaise (typeError "assets must be a mapping") (getOr raw "assets" (.dict [])).dict?
  let assets ← items.mapM parseAsset
  assets.forM (checkFile lib)
  return assets

def declared (lib : Libraries) (assets : List OpsAsset) (ref : Yaml) : Bool := assets.any fun a => lib.eq a.name ref

/-- `setup` and `restore` -/
def loadSteps (lib : Libraries) (assets : List OpsAsset) (raw : Dict) : Loads (List OpsStep × List OpsStep) := do
  let setup ← parseSteps (getD raw "setup" .null)
  let restore ← parseSteps (getD raw "restore" .null)
  require ((setup ++ restore).all fun step => (get step.params "asset").all (declared lib assets))
    (valueError "undeclared asset")
  return (setup, restore)

def taskKeys : List String :=
  ["name", "description", "wall_sec", "budget", "judge", "level", "tags", "notes", "dossier", "allowed_tools", "assets",
    "setup", "restore"]

/-- `load_ops_task` with the document that has been read -/
def loadOpsTask (lib : Libraries) (document : Yaml) : Loads OpsTask := do
  let raw ← orRaise (typeError "expected a mapping at the top level") document.dict?
  require (onlyKeys taskKeys raw) (valueError "unknown keys")
  let name ← loadText raw "name"
  let description ← loadText raw "description"
  let wallSec ← intIn 60 3600 (getD raw "wall_sec" (.int 900))
  let level ← intIn 1 5 (getD raw "level" (.int 3))
  let tags ← loadMembers "tags" classTags (getD raw "tags" (.list []))
  let notes ← loadTexts raw "notes"
  let dossier ← loadTexts raw "dossier"
  let tools ← loadTools raw
  let budget ← loadBudget raw
  let assets ← loadAssets lib raw
  let steps ← loadSteps lib assets raw
  let judge ← loadJudge (declared lib assets) (getD raw "judge" .null)
  return {
    name, description, wallSec, budget, judge, level, tags, notes, dossier, allowedTools := tools, assets
    setup := steps.1
    restore := steps.2 }

/-- `load_ops_tasks`: every file is the directory that it is in and the document that has been read. -/
def loadOpsTasks (files : List (Libraries × Yaml)) : Loads (List OpsTask) := do
  let tasks ← files.mapM fun file => loadOpsTask file.1 file.2
  require (tasks.map OpsTask.name).Nodup (valueError "duplicate ops task names")
  return tasks

/-! ### What a valid task is -/

def textParam (params : Dict) (key : String) : Option String := ((get params key).bind Yaml.text?).map String.ofList

/-- What `_run_step` reads of a step. -/
def OpsStep.read (s : OpsStep) : Option Campaign.OpsStep :=
  match s.kind with
  | .wipeFlash => some .wipeFlash
  | .flashAsset => (textParam s.params "asset").map .flashAsset
  | .deployFile =>
    (textParam s.params "asset").bind fun asset => (textParam s.params "target").map (.deployFile asset)
  | .removeFile => (textParam s.params "path").map .removeFile

/-- The asset of a step, by its name. -/
def assetOf : Campaign.OpsStep → Option String
  | .flashAsset asset | .deployFile asset _ => some asset
  | _ => none

/-- The file of the device that a step is about. -/
def deviceFile : Campaign.OpsStep → Option String
  | .deployFile _ target => some target
  | .removeFile path => some path
  | _ => none

/-- The step has no other parameters than those of its kind, is one that the runner can read, and is about an absolute
path of the device. -/
structure StepFit (s : OpsStep) (step : Campaign.OpsStep) : Prop where
  keys : onlyKeys s.kind.keys s.params = true
  reads : s.read = some step
  device : ∀ path ∈ deviceFile step, path.toList.head? = some '/'

/-- The asset of the step is among those of the task. -/
def Refers (assets : List OpsAsset) (step : Campaign.OpsStep) : Prop :=
  ∀ name ∈ assetOf step, ∃ a ∈ assets, a.name = .str name.toList

/-- An asset is a file next to the document, or a download that is pinned. -/
inductive AssetFit (lib : Libraries) : OpsAsset → Prop
  | file {name sha : Yaml} {path : Text} (hne : path ≠ []) (hfile : lib.isFile path = true) :
    AssetFit lib ⟨name, .str path, .null, sha⟩
  | download {name : Yaml} {url sha : Text} (hurl : isUrl (.str url) = true) (hsha : sha.length = 64) :
    AssetFit lib ⟨name, .null, .str url, .str sha⟩

structure CheckFit (lib : Libraries) (assets : List OpsAsset) (c : Checks.OpsCheck) : Prop where
  keys : onlyKeys c.kind.keys c.params = true
  params : Checks.parseParams c.kind c.params = .ok ()
  asset : (get c.params "asset").all (declared lib assets) = true

structure Valid (lib : Libraries) (t : OpsTask) : Prop where
  name : strip t.name ≠ []
  description : strip t.description ≠ []
  wallSec : 60 ≤ t.wallSec ∧ t.wallSec ≤ 3600
  level : 1 ≤ t.level ∧ t.level ≤ 5
  maxIterations : 1 ≤ t.budget.maxIterations ∧ t.budget.maxIterations ≤ 20
  iterTimeoutSec : 10 ≤ t.budget.iterTimeoutSec ∧ t.budget.iterTimeoutSec ≤ 1200
  tags : ∀ tag ∈ t.tags, tag ∈ classTags
  notes : ∀ note ∈ t.notes, note ≠ []
  dossier : ∀ line ∈ t.dossier, line ≠ []
  someTool : t.allowedTools ≠ []
  tools : ∀ tool ∈ t.allowedTools, tool ∈ allowedTools
  assets : ∀ a ∈ t.assets, AssetFit lib a
  steps : ∀ s ∈ t.setup ++ t.restore, ∃ step, StepFit s step ∧ Refers t.assets step
  someCheck : t.judge ≠ []
  judge : ∀ c ∈ t.judge, CheckFit lib t.assets c
  /-- The names are the keys of one mapping. -/
  names : Keys lib.toEquality (t.assets.map OpsAsset.name)
  /-- The values that are not read have proper mappings, too. -/
  pins : ∀ a ∈ t.assets, Proper lib.toEquality a.sha256
  stepParams : ∀ s ∈ t.setup ++ t.restore, Proper lib.toEquality (.dict s.params)
  checkParams : ∀ c ∈ t.judge, Proper lib.toEquality (.dict c.params)

/-! ### One rule after the other -/

variable {lib : Libraries} {raw params : Dict} {key : String} {low high n : Int} {v : Yaml} {assets : List OpsAsset}

/-- Where `f` undoes `g` on what it accepts, it undoes it on lists. -/
private theorem mapM_eq_some {A : Type} {f : Yaml → Option A} {g : A → Yaml} {P : A → Prop}
    (h : ∀ v a, f v = some a ↔ v = g a ∧ P a) {items : List Yaml} {as : List A} :
    items.mapM f = some as ↔ items = as.map g ∧ ∀ a ∈ as, P a := by
  induction items generalizing as with
  | nil =>
    rw [List.mapM_nil]
    constructor
    · intro hnil
      obtain rfl := Option.some.inj hnil
      exact ⟨rfl, fun a ha => absurd ha List.not_mem_nil⟩
    · rintro ⟨hnil, -⟩
      rw [List.map_eq_nil_iff.1 hnil.symm]
      rfl
  | cons v items ih =>
    rw [List.mapM_cons]
    constructor
    · intro hcons
      obtain ⟨a, ha, hrest⟩ := Option.bind_eq_some_iff.1 hcons
      obtain ⟨as', has', heq⟩ := Option.bind_eq_some_iff.1 hrest
      obtain rfl := Option.some.inj heq
      obtain ⟨rfl, hP⟩ := (h v a).1 ha
      obtain ⟨rfl, hall⟩ := ih.1 has'
      exact ⟨rfl, List.forall_mem_cons.2 ⟨hP, hall⟩⟩
    · rintro ⟨hitems, hall⟩
      cases as with
      | nil => cases hitems
      | cons a as' =>
        obtain ⟨rfl, hrest⟩ := List.cons.inj hitems
        obtain ⟨hP, hall'⟩ := List.forall_mem_cons.1 hall
        rw [(h _ a).2 ⟨rfl, hP⟩, ih.2 ⟨hrest, hall'⟩]
        rfl

private theorem intIn_eq_ok : intIn low high v = .ok n ↔ v = .int n ∧ low ≤ n ∧ n ≤ high := by
  rw [intIn, orRaise_eq_ok, Option.filter_eq_some_iff]
  simp only [Bool.and_eq_true, decide_eq_true_eq]
  apply and_congr_left'
  cases v <;> simp [Yaml.int?]

private theorem loadText_eq_ok {s : Text} : loadText raw key = .ok s ↔ getD raw key .null = .str s ∧ strip s ≠ [] := by
  rw [loadText, orRaise_eq_ok]
  cases getD raw key .null with
  | str text =>
    simp only [Yaml.nonBlank?, Yaml.str.injEq]
    by_cases h : strip text = []
    · simp only [h, List.isEmpty_nil, if_true, reduceCtorEq, false_iff]
      rintro ⟨rfl, hne⟩
      exact hne h
    · simp only [List.isEmpty_iff, h, if_false, Option.some.injEq]
      constructor
      · rintro rfl
        exact ⟨rfl, h⟩
      · exact And.left
  | _ => simp [Yaml.nonBlank?]

private theorem member?_eq_some {allowed : List Text} {s : Text} :
    member? allowed v = some s ↔ v = .str s ∧ s ∈ allowed := by
  rw [member?, Option.filter_eq_some_iff, List.contains_iff_mem]
  apply and_congr_left'
  cases v <;> simp [Yaml.text?]

private theorem loadMembers_eq_ok {allowed xs : List Text} :
    loadMembers key allowed v = .ok xs ↔ v = .list (xs.map .str) ∧ ∀ x ∈ xs, x ∈ allowed := by
  simp only [loadMembers, bind_eq_ok, orRaise_eq_ok, require_eq_ok, mapM_eq_some fun v s => member?_eq_some]
  constructor
  · rintro ⟨items, hitems, -, -, rfl, hall⟩
    cases v with
    | list items' =>
      obtain rfl := Option.some.inj hitems
      exact ⟨rfl, hall⟩
    | _ => cases hitems
  · rintro ⟨rfl, hall⟩
    refine ⟨_, rfl, (), ?_, rfl, hall⟩
    rw [List.all_eq_true]
    intro item hitem
    obtain ⟨x, -, rfl⟩ := List.mem_map.1 hitem
    rfl

private theorem filled?_eq_some {s : Text} : filled? v = some s ↔ v = .str s ∧ s ≠ [] := by
  cases v with
  | str text =>
    cases text with
    | nil =>
      constructor
      · intro h
        cases h
      · rintro ⟨heq, hne⟩
        exact absurd (Yaml.str.inj heq).symm hne
    | cons c text =>
      simp only [filled?, Option.some.injEq, Yaml.str.injEq]
      constructor
      · rintro rfl
        exact ⟨rfl, List.cons_ne_nil _ _⟩
      · exact And.left
  | _ => simp [filled?]

theorem loadTexts_eq_ok {xs : List Text} :
    loadTexts raw key = .ok xs ↔ getD raw key (.list []) = .list (xs.map .str) ∧ ∀ x ∈ xs, x ≠ [] := by
  rw [loadTexts, orRaise_eq_ok]
  cases getD raw key (.list []) with
  | list items =>
    simp only [Yaml.listOf?, Yaml.list.injEq]
    exact mapM_eq_some fun v s => filled?_eq_some
  | _ => simp [Yaml.listOf?]

private theorem loadTools_eq_ok {xs : List Text} :
    loadTools raw = .ok xs ↔ getD raw "allowed_tools" (.list [.str "serial".toList]) = .list (xs.map .str) ∧
      (∀ x ∈ xs, x ∈ allowedTools) ∧ xs ≠ [] := by
  simp only [loadTools, bind_eq_ok, loadMembers_eq_ok, require_eq_ok, pure_eq_ok]
  constructor
  · rintro ⟨xs', ⟨hlist, hall⟩, -, hne, rfl⟩
    exact ⟨hlist, hall, by simpa using hne⟩
  · rintro ⟨hlist, hall, hne⟩
    exact ⟨xs, ⟨hlist, hall⟩, (), by simpa using hne, rfl⟩

/-! ### Steps -/

private theorem get_of_onlyKeys {allowed : List String} (h : onlyKeys allowed params = true) (hkey : key ∉ allowed) :
    get params key = none := by
  unfold Tasks.get
  rw [Option.map_eq_none_iff, List.find?_eq_none]
  intro item hitem htext
  obtain ⟨other, hother, hother'⟩ := List.any_eq_true.1 (List.all_eq_true.1 h item hitem)
  cases hv : item.1 with
  | str s =>
    rw [hv] at htext hother'
    have hs : s = key.toList := by simpa [Yaml.isText] using htext
    have hs' : s = other.toList := by simpa [Yaml.isText] using hother'
    obtain rfl := String.toList_inj.1 (hs.symm.trans hs')
    exact hkey hother
  | _ =>
    rw [hv] at htext
    cases htext

private theorem textParam_eq_some {t : String} :
    textParam params key = some t ↔ get params key = some (.str t.toList) := by
  unfold textParam
  cases get params key with
  | none => simp
  | some v =>
    cases v with
    | str s =>
      simp only [Option.bind_some, Yaml.text?, Option.map_some, Option.some.injEq, Yaml.str.injEq]
      constructor
      · rintro rfl
        exact String.toList_ofList.symm
      · rintro rfl
        exact String.ofList_toList
    | _ => simp [Yaml.text?]

private theorem isString_iff : isString v = true ↔ ∃ t : String, v = .str t.toList := by
  cases v with
  | str s => exact ⟨fun _ => ⟨String.ofList s, by rw [String.toList_ofList]⟩, fun _ => rfl⟩
  | _ => simp [isString]

private theorem isAbsolute_str {s : Text} : isAbsolute (.str s) = true ↔ s.head? = some '/' := by
  cases s with
  | nil => simp [isAbsolute]
  | cons c s =>
    by_cases hc : c = '/'
    · subst hc
      simp [isAbsolute]
    · simp [isAbsolute, hc]

private theorem str_of_isAbsolute (h : isAbsolute v = true) : ∃ t : String, v = .str t.toList := by
  unfold isAbsolute at h
  split at h
  · rename_i s
    exact ⟨String.ofList ('/' :: s), by rw [String.toList_ofList]⟩
  · cases h

theorem getD_of_get {default : Yaml} (h : get params key = some v) : getD params key default = v := by
  rw [getD, h]
  rfl

private theorem has_of_get (h : get params key = some v) : has params key = true := by
  rw [has, h]
  rfl

/-- A parameter that is there and passes the test for strings is a text. -/
private theorem exists_textParam (hhas : has params key = true) (h : (get params key).all isString = true) :
    ∃ t, textParam params key = some t := by
  obtain ⟨v, hv⟩ := Option.isSome_iff_exists.1 hhas
  rw [hv, Option.all_some, isString_iff] at h
  obtain ⟨t, rfl⟩ := h
  exact ⟨t, textParam_eq_some.2 hv⟩

private theorem exists_absolute {default : Yaml} (hhas : has params key = true)
    (h : isAbsolute (getD params key default) = true) :
    ∃ t, textParam params key = some t ∧ t.toList.head? = some '/' := by
  obtain ⟨v, hv⟩ := Option.isSome_iff_exists.1 hhas
  rw [getD_of_get hv] at h
  obtain ⟨t, rfl⟩ := str_of_isAbsolute h
  exact ⟨t, textParam_eq_some.2 hv, isAbsolute_str.1 h⟩

private theorem stepFit_of_checkStep {kind : StepKind} (h : checkStep kind params = .ok ()) :
    ∃ step, StepFit ⟨kind, params⟩ step := by
  simp only [checkStep, bind_eq_ok, require_eq_ok, Checks.optional] at h
  obtain ⟨-, hkeys, -, hhas, -, -, -, htarget, -, hasset, -, hpath, hremove⟩ := h
  -- Every parameter of the kind is there; the rules for strings and absolute paths say that the runner can read it.
  cases kind with
  | wipeFlash => exact ⟨.wipeFlash, hkeys, rfl, fun path h => by cases h⟩
  | flashAsset =>
    have hthere : has params "asset" = true := by simpa [StepKind.keys] using hhas
    obtain ⟨asset, ha⟩ := exists_textParam hthere hasset
    refine ⟨.flashAsset asset, hkeys, ?_, fun path h => by cases h⟩
    simp only [OpsStep.read, ha, Option.map_some]
  | deployFile =>
    have hthere : has params "asset" = true ∧ has params "target" = true := by simpa [StepKind.keys] using hhas
    obtain ⟨asset, ha⟩ := exists_textParam hthere.1 hasset
    obtain ⟨target, ht, hhead⟩ := exists_absolute hthere.2 htarget
    refine ⟨.deployFile asset target, hkeys, ?_, ?_⟩
    · simp only [OpsStep.read, ha, ht, Option.bind_some, Option.map_some]
    · intro path h
      obtain rfl := Option.some.inj h
      exact hhead
  | removeFile =>
    have hthere : has params "path" = true := by simpa [StepKind.keys] using hhas
    obtain ⟨path, hp, hhead⟩ := exists_absolute hthere hremove
    refine ⟨.removeFile path, hkeys, ?_, ?_⟩
    · simp only [OpsStep.read, hp, Option.map_some]
    · intro path' h
      obtain rfl := Option.some.inj h
      exact hhead

/-- What a fit step has as its parameters. -/
private theorem params_of_stepFit {s : OpsStep} {step : Campaign.OpsStep} (h : StepFit s step) :
    match step with
    | .wipeFlash => s.kind = .wipeFlash
    | .flashAsset asset => s.kind = .flashAsset ∧ get s.params "asset" = some (.str asset.toList)
    | .deployFile asset target => s.kind = .deployFile ∧ get s.params "asset" = some (.str asset.toList) ∧
        get s.params "target" = some (.str target.toList)
    | .removeFile path => s.kind = .removeFile ∧ get s.params "path" = some (.str path.toList) := by
  obtain ⟨kind, params⟩ := s
  have hread := h.reads
  cases kind with
  | wipeFlash =>
    obtain rfl := Option.some.inj hread
    rfl
  | flashAsset =>
    obtain ⟨asset, ha, rfl⟩ := Option.map_eq_some_iff.1 hread
    exact ⟨rfl, textParam_eq_some.1 ha⟩
  | deployFile =>
    obtain ⟨asset, ha, hrest⟩ := Option.bind_eq_some_iff.1 hread
    obtain ⟨target, ht, rfl⟩ := Option.map_eq_some_iff.1 hrest
    exact ⟨rfl, textParam_eq_some.1 ha, textParam_eq_some.1 ht⟩
  | removeFile =>
    obtain ⟨path, hp, rfl⟩ := Option.map_eq_some_iff.1 hread
    exact ⟨rfl, textParam_eq_some.1 hp⟩

private theorem get_asset {s : OpsStep} {step : Campaign.OpsStep} (h : StepFit s step) :
    get s.params "asset" = (assetOf step).map fun name => .str name.toList := by
  have hkeys := h.keys
  have hparams := params_of_stepFit h
  cases step with
  | wipeFlash =>
    rw [hparams] at hkeys
    exact get_of_onlyKeys hkeys (by simp [StepKind.keys])
  | flashAsset asset => exact hparams.2
  | deployFile asset target => exact hparams.2.1
  | removeFile path =>
    rw [hparams.1] at hkeys
    exact get_of_onlyKeys hkeys (by simp [StepKind.keys])

private theorem asset_isString {s : OpsStep} {step : Campaign.OpsStep} (h : StepFit s step) :
    (get s.params "asset").all isString = true := by
  rw [get_asset h]
  cases assetOf step <;> rfl

private theorem path_isString {s : OpsStep} {step : Campaign.OpsStep} (h : StepFit s step) :
    (get s.params "path").all isString = true := by
  have hparams := params_of_stepFit h
  have habsent : "path" ∉ s.kind.keys → (get s.params "path").all isString = true := by
    intro hkey
    rw [get_of_onlyKeys h.keys hkey]
    rfl
  cases step with
  | wipeFlash => exact habsent (by simp [hparams, StepKind.keys])
  | flashAsset asset => exact habsent (by simp [hparams.1, StepKind.keys])
  | deployFile asset target => exact habsent (by simp [hparams.1, StepKind.keys])
  | removeFile path =>
    rw [hparams.2]
    rfl

private theorem checkStep_of_stepFit {s : OpsStep} {step : Campaign.OpsStep} (h : StepFit s step) :
    checkStep s.kind s.params = .ok () := by
  have hparams := params_of_stepFit h
  simp only [checkStep, bind_eq_ok, require_eq_ok, Checks.optional]
  refine ⟨(), h.keys, ?_⟩
  cases step with
  | wipeFlash =>
    rw [hparams]
    exact ⟨(), rfl, (), rfl, (), rfl, (), asset_isString h, (), path_isString h, rfl⟩
  | flashAsset asset =>
    obtain ⟨hkind, ha⟩ := hparams
    rw [hkind]
    refine ⟨(), ?_, (), ?_, (), rfl, (), asset_isString h, (), path_isString h, rfl⟩
    · simp [StepKind.keys, has_of_get ha]
    · rw [getD_of_get ha]
      rfl
  | deployFile asset target =>
    obtain ⟨hkind, ha, ht⟩ := hparams
    rw [hkind]
    refine ⟨(), ?_, (), rfl, (), ?_, (), asset_isString h, (), path_isString h, rfl⟩
    · simp [StepKind.keys, has_of_get ha, has_of_get ht]
    · rw [getD_of_get ht]
      exact isAbsolute_str.2 (h.device target rfl)
  | removeFile path =>
    obtain ⟨hkind, hp⟩ := hparams
    rw [hkind]
    refine ⟨(), ?_, (), rfl, (), rfl, (), asset_isString h, (), path_isString h, ?_⟩
    · simp [StepKind.keys, has_of_get hp]
    · rw [getD_of_get hp]
      exact isAbsolute_str.2 (h.device path rfl)

private theorem declared_str {name : Text} :
    declared lib assets (.str name) = true ↔ ∃ a ∈ assets, a.name = .str name := by
  simp only [declared, List.any_eq_true, lib.eq_str]

private theorem refers_iff {s : OpsStep} {step : Campaign.OpsStep} (h : StepFit s step) :
    (get s.params "asset").all (declared lib assets) = true ↔ Refers assets step := by
  rw [get_asset h]
  unfold Refers
  cases assetOf step with
  | none => simp
  | some name => simp [declared_str]

/-! ### Lists of entries -/

private theorem mapM_map_eq_ok {A B : Type} {f : A → Loads B} {g : B → A} {ys : List B}
    (h : ∀ y ∈ ys, f (g y) = .ok y) :
    (ys.map g).mapM f = .ok ys := by
  induction ys with
  | nil => rfl
  | cons y ys ih =>
    obtain ⟨hy, hys⟩ := List.forall_mem_cons.1 h
    rw [List.map_cons, List.mapM_cons, hy, ih hys]
    rfl

private theorem mapping_dict {d : Dict} : mapping (.dict d) = .ok d := by
  cases d <;> rfl

/-- A step as a document has it. -/
def OpsStep.entry (s : OpsStep) : Yaml := .dict [(.str s.kind.name.toList, .dict s.params)]

private theorem parseStep_entry {s : OpsStep} (h : checkStep s.kind s.params = .ok ()) : parseStep s.entry = .ok s := by
  have hkind : stepKindOf (.str s.kind.name.toList) = some s.kind := by cases s.kind <;> rfl
  simp only [parseStep, OpsStep.entry, bind_eq_ok, orRaise_eq_ok, pure_eq_ok]
  exact ⟨s.kind, hkind, s.params, mapping_dict, (), h, rfl⟩

private theorem checkStep_of_parseStep {entry : Yaml} {s : OpsStep} (h : parseStep entry = .ok s) :
    checkStep s.kind s.params = .ok () := by
  unfold parseStep at h
  split at h
  · simp only [bind_eq_ok, pure_eq_ok] at h
    obtain ⟨kind, -, params, -, ⟨⟩, hcheck, rfl⟩ := h
    exact hcheck
  · cases h

private theorem checkStep_of_parseSteps {ss : List OpsStep} (h : parseSteps v = .ok ss) :
    ∀ s ∈ ss, checkStep s.kind s.params = .ok () := by
  unfold parseSteps at h
  split at h
  · cases h
    exact fun s hs => absurd hs List.not_mem_nil
  · intro s hs
    obtain ⟨entry, -, hentry⟩ := Checks.mem_of_mapM h s hs
    exact checkStep_of_parseStep hentry
  · cases h

/-- A check as a document has it. -/
def checkEntry (c : Checks.OpsCheck) : Yaml := .dict [(.str c.kind.name.toList, .dict c.params)]

private theorem parseCheck_entry {c : Checks.OpsCheck} (hkeys : onlyKeys c.kind.keys c.params = true)
    (h : Checks.parseParams c.kind c.params = .ok ()) : Checks.parseCheck (checkEntry c) = .ok c := by
  have hkind : Checks.kindOf (.str c.kind.name.toList) = some c.kind := by cases c.kind <;> rfl
  simp only [Checks.parseCheck, checkEntry, bind_eq_ok, orRaise_eq_ok, require_eq_ok, pure_eq_ok]
  exact ⟨c.kind, hkind, c.params, mapping_dict, (), hkeys, (), h, rfl⟩

private theorem onlyKeys_of_parseCheck {entry : Yaml} {c : Checks.OpsCheck} (h : Checks.parseCheck entry = .ok c) :
    onlyKeys c.kind.keys c.params = true := by
  unfold Checks.parseCheck at h
  split at h
  · simp only [bind_eq_ok, pure_eq_ok, require_eq_ok] at h
    obtain ⟨kind, -, params, -, -, hkeys, -, -, rfl⟩ := h
    exact hkeys
  · cases h

private theorem loadJudge_eq_ok {judge : List Checks.OpsCheck} (h : loadJudge (declared lib assets) v = .ok judge) :
    judge ≠ [] ∧ ∀ c ∈ judge, CheckFit lib assets c := by
  have hparams := Checks.parseParams_of_loadJudge h
  simp only [loadJudge, bind_eq_ok, require_eq_ok, pure_eq_ok] at h
  obtain ⟨checks, hparse, -, hdeclared, rfl⟩ := h
  unfold Checks.parseChecks at hparse
  split at hparse
  · rename_i entry entries
    constructor
    · rintro rfl
      rw [List.mapM_cons, bind_eq_ok] at hparse
      obtain ⟨c, -, hrest⟩ := hparse
      obtain ⟨cs, -, hcons⟩ := bind_eq_ok.1 hrest
      cases hcons
    · intro c hc
      obtain ⟨entry', -, hentry⟩ := Checks.mem_of_mapM hparse c hc
      exact ⟨onlyKeys_of_parseCheck hentry, (hparams c hc).1, List.all_eq_true.1 hdeclared c hc⟩
  · cases hparse

private theorem loadJudge_entries {judge : List Checks.OpsCheck} (hne : judge ≠ [])
    (h : ∀ c ∈ judge, CheckFit lib assets c) :
    loadJudge (declared lib assets) (.list (judge.map checkEntry)) = .ok judge := by
  have hparse : Checks.parseChecks (.list (judge.map checkEntry)) = .ok judge := by
    have hmap := mapM_map_eq_ok fun c hc => parseCheck_entry (h c hc).keys (h c hc).params
    cases judge with
    | nil => exact absurd rfl hne
    | cons c cs => exact hmap
  simp only [loadJudge, bind_eq_ok, require_eq_ok, pure_eq_ok]
  exact ⟨judge, hparse, (), List.all_eq_true.2 fun c hc => (h c hc).asset, rfl⟩

/-! ### Assets -/

private theorem str_of_isUrl (h : isUrl v = true) : ∃ u, v = .str u := by
  unfold isUrl at h
  split at h
  · exact ⟨_, rfl⟩
  · cases h

private theorem isUrl_truthy {u : Text} (h : isUrl (.str u) = true) : (Yaml.str u).truthy = true := by
  cases u with
  | nil => cases h
  | cons c u => rfl

private theorem str_of_isPin (h : isPin v = true) : ∃ p : Text, v = .str p ∧ p.length = 64 := by
  unfold isPin at h
  split at h
  · exact ⟨_, rfl, of_decide_eq_true h⟩
  · cases h

private theorem str_of_isFilled (h : isFilled v = true) : ∃ s : Text, v = .str s ∧ s ≠ [] := by
  unfold isFilled at h
  split at h
  · exact ⟨_, rfl, List.cons_ne_nil _ _⟩
  · cases h

private theorem assetFit_of_parse {item : Yaml × Yaml} {a : OpsAsset} (h : parseAsset item = .ok a)
    (hfile : checkFile lib a = .ok ()) : AssetFit lib a := by
  simp only [parseAsset, bind_eq_ok, orRaise_eq_ok, require_eq_ok, pure_eq_ok] at h
  obtain ⟨spec, -, -, -, -, hone, -, hurl, -, hsha, -, hpath, rfl⟩ := h
  generalize getD spec "path" .null = path at *
  generalize getD spec "url" .null = url at *
  generalize getD spec "sha256" .null = sha at *
  by_cases hnull : isNull url = true
  · obtain rfl : url = .null := by
      cases url <;> simp_all [isNull]
    have hfilled : isFilled path = true := by simpa [isNull] using hpath
    obtain ⟨s, rfl, hne⟩ := str_of_isFilled hfilled
    exact AssetFit.file hne (require_eq_ok.1 hfile)
  · have hurl' : isUrl url = true := by simpa [hnull] using hurl
    have hsha' : isPin sha = true := by simpa [hnull] using hsha
    obtain ⟨u, rfl⟩ := str_of_isUrl hurl'
    obtain ⟨p, rfl, hlength⟩ := str_of_isPin hsha'
    have hfalse : path.truthy = false := by simpa [isUrl_truthy hurl'] using hone
    -- An empty path is no `None`: its file is looked up, and it is the directory.
    obtain rfl : path = .null := by
      unfold checkFile at hfile
      split at hfile
      · rename_i hnone
        exact hnone
      · rename_i s hs
        have hs' : path = .str s := hs
        rw [hs'] at hfalse
        have hnil : s = [] := by simpa [Yaml.truthy] using hfalse
        rw [hnil, require_eq_ok, lib.isFile_nil] at hfile
        cases hfile
      · cases hfile
    exact AssetFit.download hurl' hlength

/-- An asset as a document has it. -/
def OpsAsset.entry (a : OpsAsset) : Yaml × Yaml :=
  (a.name, .dict [(.str "path".toList, a.path), (.str "url".toList, a.url), (.str "sha256".toList, a.sha256)])

private theorem parseAsset_entry {a : OpsAsset} (h : AssetFit lib a) : parseAsset a.entry = .ok a := by
  have hget : ∀ path url sha : Yaml,
      let spec : Dict := [(.str "path".toList, path), (.str "url".toList, url), (.str "sha256".toList, sha)]
      onlyKeys ["path", "url", "sha256"] spec = true ∧ getD spec "path" .null = path ∧
        getD spec "url" .null = url ∧ getD spec "sha256" .null = sha :=
    fun _ _ _ => ⟨rfl, rfl, rfl, rfl⟩
  simp only [parseAsset, OpsAsset.entry, bind_eq_ok, orRaise_eq_ok, require_eq_ok, pure_eq_ok]
  obtain ⟨hkeys, hpath, hurl', hsha'⟩ := hget a.path a.url a.sha256
  refine ⟨_, rfl, (), hkeys, ?_⟩
  rw [hpath, hurl', hsha']
  cases h with
  | @file name sha path hne hfile =>
    obtain ⟨c, cs, rfl⟩ := List.exists_cons_of_ne_nil hne
    exact ⟨(), rfl, (), rfl, (), rfl, (), rfl, rfl⟩
  | @download name url sha hurl hsha =>
    refine ⟨(), ?_, (), ?_, (), ?_, (), rfl, rfl⟩
    · rw [isUrl_truthy hurl]
      rfl
    · rw [hurl, Bool.or_true]
    · have hpin : isPin (.str sha) = true := decide_eq_true hsha
      rw [hpin, Bool.or_true]

private theorem checkFile_of_fit {a : OpsAsset} (h : AssetFit lib a) : checkFile lib a = .ok () := by
  cases h with
  | file hne hfile => exact require_eq_ok.2 hfile
  | download hurl hsha => rfl

private theorem loadAssets_fit (h : loadAssets lib raw = .ok assets) : ∀ a ∈ assets, AssetFit lib a := by
  simp only [loadAssets, bind_eq_ok, orRaise_eq_ok, forM_eq_ok, pure_eq_ok] at h
  obtain ⟨items, -, assets', hparse, -, hfiles, rfl⟩ := h
  intro a ha
  obtain ⟨item, -, hitem⟩ := Checks.mem_of_mapM hparse a ha
  exact assetFit_of_parse hitem (hfiles a ha)

private theorem loadBudget_ranges {budget : OpsBudget} (h : loadBudget raw = .ok budget) :
    (1 ≤ budget.maxIterations ∧ budget.maxIterations ≤ 20) ∧
      10 ≤ budget.iterTimeoutSec ∧ budget.iterTimeoutSec ≤ 1200 := by
  simp only [loadBudget, bind_eq_ok, intIn_eq_ok, pure_eq_ok] at h
  obtain ⟨-, -, -, -, iterations, ⟨-, hiterations⟩, timeout, ⟨-, htimeout⟩, rfl⟩ := h
  exact ⟨hiterations, htimeout⟩

private theorem loadSteps_fit {steps : List OpsStep × List OpsStep} (h : loadSteps lib assets raw = .ok steps) :
    ∀ s ∈ steps.1 ++ steps.2, ∃ step, StepFit s step ∧ Refers assets step := by
  simp only [loadSteps, bind_eq_ok, require_eq_ok, pure_eq_ok] at h
  obtain ⟨setup, hsetup, restore, hrestore, -, hrefs, rfl⟩ := h
  intro s hs
  have hcheck : checkStep s.kind s.params = .ok () := by
    rcases List.mem_append.1 hs with hs | hs
    · exact checkStep_of_parseSteps hsetup s hs
    · exact checkStep_of_parseSteps hrestore s hs
  obtain ⟨step, hfit⟩ := stepFit_of_checkStep hcheck
  exact ⟨step, hfit, (refers_iff hfit).1 (List.all_eq_true.1 hrefs s hs)⟩

/-! ### Proper mappings -/

section

variable {py : Tasks.Equality}

private theorem proper_mapping (hproper : Proper py v) (h : mapping v = .ok params) : Proper py (.dict params) := by
  unfold mapping at h
  split at h
  · cases v with
    | dict d =>
      obtain rfl := Option.some.inj (orRaise_eq_ok.1 h)
      exact hproper
    | _ => cases h
  · cases h
    exact proper_dict.2 ⟨keys_texts List.nodup_nil, fun item hitem => absurd hitem List.not_mem_nil⟩

private theorem proper_parseStep {entry : Yaml} {s : OpsStep} (hproper : Proper py entry)
    (h : parseStep entry = .ok s) :
    Proper py (.dict s.params) := by
  unfold parseStep at h
  split at h
  · simp only [bind_eq_ok, pure_eq_ok] at h
    obtain ⟨kind, -, params, hparams, -, -, rfl⟩ := h
    exact proper_mapping ((proper_dict.1 hproper).2 _ List.mem_cons_self) hparams
  · cases h

private theorem proper_parseCheck {entry : Yaml} {c : Checks.OpsCheck} (hproper : Proper py entry)
    (h : Checks.parseCheck entry = .ok c) : Proper py (.dict c.params) := by
  unfold Checks.parseCheck at h
  split at h
  · simp only [bind_eq_ok, pure_eq_ok] at h
    obtain ⟨kind, -, params, hparams, -, -, -, -, rfl⟩ := h
    exact proper_mapping ((proper_dict.1 hproper).2 _ List.mem_cons_self) hparams
  · cases h

/-- What is read from a list of proper values. -/
private theorem mem_of_mapM_proper {B : Type} {f : Yaml → Loads B} {items : List Yaml} {ys : List B}
    (hproper : Proper py (.list items)) (h : items.mapM f = .ok ys) : ∀ y ∈ ys, ∃ v, Proper py v ∧ f v = .ok y := by
  intro y hy
  obtain ⟨v, hv, hread⟩ := Checks.mem_of_mapM h y hy
  exact ⟨v, proper_list.1 hproper v hv, hread⟩

private theorem proper_parseSteps {ss : List OpsStep} (hproper : Proper py v) (h : parseSteps v = .ok ss) :
    ∀ s ∈ ss, Proper py (.dict s.params) := by
  unfold parseSteps at h
  split at h
  · cases h
    exact fun s hs => absurd hs List.not_mem_nil
  · intro s hs
    obtain ⟨entry, hentry, hparse⟩ := mem_of_mapM_proper hproper h s hs
    exact proper_parseStep hentry hparse
  · cases h

private theorem proper_loadSteps {steps : List OpsStep × List OpsStep} (hproper : Proper py (.dict raw))
    (h : loadSteps lib assets raw = .ok steps) : ∀ s ∈ steps.1 ++ steps.2, Proper py (.dict s.params) := by
  simp only [loadSteps, bind_eq_ok, pure_eq_ok] at h
  obtain ⟨setup, hsetup, restore, hrestore, -, -, rfl⟩ := h
  have hnull : Proper py .null := trivial
  intro s hs
  rcases List.mem_append.1 hs with hs | hs
  · exact proper_parseSteps (hproper.getD hnull) hsetup s hs
  · exact proper_parseSteps (hproper.getD hnull) hrestore s hs

private theorem proper_loadJudge {judge : List Checks.OpsCheck} {declared : Yaml → Bool} (hproper : Proper py v)
    (h : loadJudge declared v = .ok judge) : ∀ c ∈ judge, Proper py (.dict c.params) := by
  simp only [loadJudge, bind_eq_ok, pure_eq_ok] at h
  obtain ⟨checks, hparse, -, -, rfl⟩ := h
  unfold Checks.parseChecks at hparse
  split at hparse
  · intro c hc
    obtain ⟨entry, hentry, hread⟩ := mem_of_mapM_proper hproper hparse c hc
    exact proper_parseCheck hentry hread
  · cases hparse

private theorem parseAsset_name {item : Yaml × Yaml} {a : OpsAsset} (h : parseAsset item = .ok a) :
    a.name = item.1 := by
  simp only [parseAsset, bind_eq_ok, pure_eq_ok] at h
  obtain ⟨-, -, -, -, -, -, -, -, -, -, -, -, rfl⟩ := h
  rfl

private theorem proper_parseAsset {item : Yaml × Yaml} {a : OpsAsset} (hproper : Proper py item.2)
    (h : parseAsset item = .ok a) :
    Proper py a.sha256 := by
  simp only [parseAsset, bind_eq_ok, orRaise_eq_ok, pure_eq_ok] at h
  obtain ⟨spec, hspec, -, -, -, -, -, -, -, -, -, -, rfl⟩ := h
  cases hitem : item.2 with
  | dict d =>
    rw [hitem] at hspec hproper
    obtain rfl := Option.some.inj hspec
    exact hproper.getD trivial
  | _ =>
    rw [hitem] at hspec
    cases hspec

private theorem parseAsset_names {items : List (Yaml × Yaml)} (h : items.mapM parseAsset = .ok assets) :
    assets.map OpsAsset.name = items.map Prod.fst := by
  induction items generalizing assets with
  | nil =>
    cases h
    rfl
  | cons item items ih =>
    rw [List.mapM_cons, bind_eq_ok] at h
    obtain ⟨a, ha, hrest⟩ := h
    obtain ⟨as, has, heq⟩ := bind_eq_ok.1 hrest
    cases heq
    rw [List.map_cons, List.map_cons, parseAsset_name ha, ih has]

private theorem proper_loadAssets (hproper : Proper py (.dict raw)) (h : loadAssets lib raw = .ok assets) :
    Keys py (assets.map OpsAsset.name) ∧ ∀ a ∈ assets, Proper py a.sha256 := by
  simp only [loadAssets, bind_eq_ok, orRaise_eq_ok, pure_eq_ok] at h
  obtain ⟨items, hitems, assets', hparse, -, -, rfl⟩ := h
  have hdefault : Proper py (.dict []) :=
    proper_dict.2 ⟨keys_texts List.nodup_nil, fun item hitem => absurd hitem List.not_mem_nil⟩
  have hmapping : Proper py (.dict items) := by
    have hvalue : Proper py (getOr raw "assets" (.dict [])) := hproper.getOr hdefault
    revert hvalue hitems
    cases getOr raw "assets" (.dict []) with
    | dict d =>
      intro hitems
      obtain rfl := Option.some.inj hitems
      exact id
    | _ => exact nofun
  obtain ⟨hkeys, hvalues⟩ := proper_dict.1 hmapping
  refine ⟨?_, fun a ha => ?_⟩
  · rw [parseAsset_names hparse]
    exact hkeys
  · obtain ⟨item, hmem, hread⟩ := Checks.mem_of_mapM hparse a ha
    exact proper_parseAsset (hvalues item hmem) hread

private theorem proper_entries {A : Type} {as : List A} {entry : A → Yaml} (h : ∀ a ∈ as, Proper py (entry a)) :
    Proper py (.list (as.map entry)) := by
  rw [proper_list]
  intro v hv
  obtain ⟨a, ha, rfl⟩ := List.mem_map.1 hv
  exact h a ha

/-- A mapping whose keys are written out. -/
private theorem proper_of_keys {d : Dict} (texts : List Text) (hkeys : d.map Prod.fst = texts.map .str)
    (hnodup : texts.Nodup)
    (hvalues : ∀ item ∈ d, Proper py item.2) : Proper py (.dict d) := by
  rw [proper_dict, hkeys]
  exact ⟨keys_texts hnodup, hvalues⟩

private theorem proper_entry {key : String} {d : Dict} (h : Proper py (.dict d)) :
    Proper py (.dict [(.str key.toList, .dict d)]) :=
  proper_of_keys [key.toList] rfl (List.nodup_singleton _) (List.forall_mem_singleton.2 h)

end

/-! ### The whole task -/

/-- What comes out of the loader is valid. -/
private theorem valid_of_load {document : Yaml} {t : OpsTask} (hproper : Proper lib.toEquality document)
    (h : loadOpsTask lib document = .ok t) : Valid lib t := by
  simp only [loadOpsTask, bind_eq_ok, loadText_eq_ok, intIn_eq_ok, loadMembers_eq_ok, loadTexts_eq_ok, loadTools_eq_ok,
    pure_eq_ok] at h
  obtain ⟨raw, hraw, -, -, name, ⟨-, hname⟩, description, ⟨-, hdescription⟩, wallSec, ⟨-, hwall⟩, level, ⟨-, hlevel⟩, tags,
    ⟨-, htags⟩, notes, ⟨-, hnotes⟩, dossier, ⟨-, hdossier⟩, tools, ⟨-, htools, hsome⟩, budget, hbudget, assets, hassets,
    steps, hsteps, judge, hjudge, rfl⟩ := h
  have hfields : Proper lib.toEquality (.dict raw) := by
    cases document with
    | dict d =>
      obtain rfl := Option.some.inj (orRaise_eq_ok.1 hraw)
      exact hproper
    | _ => cases hraw
  obtain ⟨hiterations, htimeout⟩ := loadBudget_ranges hbudget
  have hnull : Proper lib.toEquality .null := trivial
  obtain ⟨hnames, hpins⟩ := proper_loadAssets hfields hassets
  obtain ⟨hchecks, hfit⟩ := loadJudge_eq_ok hjudge
  exact
    { name := hname
      description := hdescription
      wallSec := hwall
      level := hlevel
      maxIterations := hiterations
      iterTimeoutSec := htimeout
      tags := htags
      notes := hnotes
      dossier := hdossier
      someTool := hsome
      tools := htools
      assets := loadAssets_fit hassets
      steps := loadSteps_fit hsteps
      someCheck := hchecks
      judge := hfit
      names := hnames
      pins := hpins
      stepParams := proper_loadSteps hfields hsteps
      checkParams := proper_loadJudge (hfields.getD hnull) hjudge }

def OpsTask.fields (t : OpsTask) : Dict :=
  [(.str "name".toList, .str t.name),
    (.str "description".toList, .str t.description),
    (.str "wall_sec".toList, .int t.wallSec),
    (.str "level".toList, .int t.level),
    (.str "tags".toList, .list (t.tags.map .str)),
    (.str "notes".toList, .list (t.notes.map .str)),
    (.str "dossier".toList, .list (t.dossier.map .str)),
    (.str "allowed_tools".toList, .list (t.allowedTools.map .str)),
    (.str "budget".toList, .dict [(.str "max_iterations".toList, .int t.budget.maxIterations),
      (.str "iter_timeout_sec".toList, .int t.budget.iterTimeoutSec)]),
    (.str "assets".toList, .dict (t.assets.map OpsAsset.entry)),
    (.str "setup".toList, .list (t.setup.map OpsStep.entry)),
    (.str "restore".toList, .list (t.restore.map OpsStep.entry)),
    (.str "judge".toList, .list (t.judge.map checkEntry))]

/-- The document of a task, with every field written out. -/
def OpsTask.document (t : OpsTask) : Yaml := .dict t.fields

private theorem proper_document {t : OpsTask} (h : Valid lib t) : Proper lib.toEquality t.document := by
  have hbudget : Proper lib.toEquality (.dict [(.str "max_iterations".toList, .int t.budget.maxIterations),
      (.str "iter_timeout_sec".toList, .int t.budget.iterTimeoutSec)]) :=
    proper_of_keys ["max_iterations".toList, "iter_timeout_sec".toList] rfl (by decide)
      (by simp [Proper])
  have hassets : Proper lib.toEquality (.dict (t.assets.map OpsAsset.entry)) := by
    rw [proper_dict, List.map_map]
    refine ⟨h.names, fun item hitem => ?_⟩
    obtain ⟨a, ha, rfl⟩ := List.mem_map.1 hitem
    refine proper_of_keys ["path".toList, "url".toList, "sha256".toList] rfl (by decide) ?_
    have hsha := h.pins a ha
    cases h.assets a ha with
    | file hne hfile => simpa [Proper] using hsha
    | download hurl hpin => simp [Proper]
  have hsteps : ∀ ss : List OpsStep, (∀ s ∈ ss, s ∈ t.setup ++ t.restore) →
      Proper lib.toEquality (.list (ss.map OpsStep.entry)) :=
    fun ss hss => proper_entries fun s hs => proper_entry (h.stepParams s (hss s hs))
  have hjudge : Proper lib.toEquality (.list (t.judge.map checkEntry)) :=
    proper_entries fun c hc => proper_entry (h.checkParams c hc)
  refine proper_of_keys (["name", "description", "wall_sec", "level", "tags", "notes", "dossier", "allowed_tools", "budget",
    "assets", "setup", "restore", "judge"].map String.toList) rfl (by decide) ?_
  simp only [OpsTask.fields, List.forall_mem_cons]
  exact ⟨trivial, trivial, trivial, trivial, proper_texts, proper_texts, proper_texts, proper_texts, hbudget, hassets,
    hsteps t.setup fun s hs => List.mem_append_left _ hs, hsteps t.restore fun s hs => List.mem_append_right _ hs, hjudge,
    fun item hitem => absurd hitem List.not_mem_nil⟩

private theorem loadBudget_fields {t : OpsTask} (h : Valid lib t) : loadBudget t.fields = .ok t.budget := by
  simp only [loadBudget, bind_eq_ok, orRaise_eq_ok, require_eq_ok, intIn_eq_ok, pure_eq_ok]
  exact ⟨[(.str "max_iterations".toList, .int t.budget.maxIterations),
    (.str "iter_timeout_sec".toList, .int t.budget.iterTimeoutSec)], rfl, (), rfl, _, ⟨rfl, h.maxIterations⟩, _,
    ⟨rfl, h.iterTimeoutSec⟩, rfl⟩

private theorem loadAssets_fields {t : OpsTask} (h : Valid lib t) : loadAssets lib t.fields = .ok t.assets := by
  have hsection : (getOr t.fields "assets" (.dict [])).dict? = some (t.assets.map OpsAsset.entry) := by
    have hget : get t.fields "assets" = some (.dict (t.assets.map OpsAsset.entry)) := rfl
    rw [getOr, hget]
    cases t.assets <;> rfl
  simp only [loadAssets, bind_eq_ok, orRaise_eq_ok, forM_eq_ok, pure_eq_ok]
  exact ⟨_, hsection, _, mapM_map_eq_ok fun a ha => parseAsset_entry (h.assets a ha), (),
    fun a ha => checkFile_of_fit (h.assets a ha), rfl⟩

private theorem loadSteps_fields {t : OpsTask} (h : Valid lib t) :
    loadSteps lib t.assets t.fields = .ok (t.setup, t.restore) := by
  have hparse : ∀ ss : List OpsStep, (∀ s ∈ ss, s ∈ t.setup ++ t.restore) →
      parseSteps (.list (ss.map OpsStep.entry)) = .ok ss := by
    intro ss hss
    apply mapM_map_eq_ok
    intro s hs
    obtain ⟨step, hfit, -⟩ := h.steps s (hss s hs)
    exact parseStep_entry (checkStep_of_stepFit hfit)
  simp only [loadSteps, bind_eq_ok, require_eq_ok, pure_eq_ok]
  refine ⟨_, hparse t.setup fun s hs => List.mem_append_left _ hs, _,
    hparse t.restore fun s hs => List.mem_append_right _ hs, (), List.all_eq_true.2 ?_, rfl⟩
  intro s hs
  obtain ⟨step, hfit, hrefers⟩ := h.steps s hs
  exact (refers_iff hfit).2 hrefers

/-- A valid task is what its own document is loaded as. -/
private theorem load_document {t : OpsTask} (h : Valid lib t) : loadOpsTask lib t.document = .ok t := by
  simp only [loadOpsTask, bind_eq_ok, orRaise_eq_ok, require_eq_ok, loadText_eq_ok, intIn_eq_ok, loadMembers_eq_ok,
    loadTexts_eq_ok, loadTools_eq_ok, pure_eq_ok]
  exact ⟨t.fields, rfl, (), rfl, t.name, ⟨rfl, h.name⟩, t.description, ⟨rfl, h.description⟩, t.wallSec,
    ⟨rfl, h.wallSec⟩, t.level, ⟨rfl, h.level⟩, t.tags, ⟨rfl, h.tags⟩, t.notes, ⟨rfl, h.notes⟩, t.dossier,
    ⟨rfl, h.dossier⟩, t.allowedTools, ⟨rfl, h.tools, h.someTool⟩, t.budget, loadBudget_fields h, t.assets,
    loadAssets_fields h, (t.setup, t.restore), loadSteps_fields h, t.judge, loadJudge_entries h.someCheck h.judge, rfl⟩

/-- `resolve_assets`: the paths by the names of the assets. -/
def resolveAssets {P : Type} (resolve : OpsAsset → P) (t : OpsTask) : List (Yaml × P) :=
  t.assets.map fun a => (a.name, resolve a)

/-- The runner reads every step of a valid task, and the asset of the step has been resolved. -/
private theorem runs_of_valid {t : OpsTask} (h : Valid lib t) {s : OpsStep} (hs : s ∈ t.setup ++ t.restore) :
    ∃ step, s.read = some step ∧ ∀ {P : Type} (resolve : OpsAsset → P), ∀ name ∈ assetOf step,
      ∃ path, (.str name.toList, path) ∈ resolveAssets resolve t := by
  obtain ⟨step, hfit, hrefers⟩ := h.steps s hs
  refine ⟨step, hfit.reads, ?_⟩
  intro P resolve name hname
  obtain ⟨a, ha, heq⟩ := hrefers name hname
  exact ⟨resolve a, List.mem_map.2 ⟨a, ha, by rw [heq]⟩⟩

/-! ### A suite -/

private theorem forall₂_of_load {files : List (Libraries × Yaml)} {ts : List OpsTask}
    (hproper : ∀ file ∈ files, Proper file.1.toEquality file.2) (h : files.mapM (fun file => loadOpsTask file.1 file.2) = .ok ts) : List.Forall₂ Valid (files.map Prod.fst) ts := by
  induction files generalizing ts with
  | nil =>
    cases h
    exact List.Forall₂.nil
  | cons file files ih =>
    rw [List.mapM_cons, bind_eq_ok] at h
    obtain ⟨t, ht, hrest⟩ := h
    obtain ⟨ts', hts', heq⟩ := bind_eq_ok.1 hrest
    cases heq
    obtain ⟨hfile, hfiles⟩ := List.forall_mem_cons.1 hproper
    exact List.Forall₂.cons (valid_of_load hfile ht) (ih hfiles hts')

private theorem load_of_forall₂ {libs : List Libraries} {ts : List OpsTask} (h : List.Forall₂ Valid libs ts) :
    (libs.zip (ts.map OpsTask.document)).mapM (fun file => loadOpsTask file.1 file.2) = .ok ts := by
  induction h with
  | nil => rfl
  | cons hvalid hrest ih =>
    rw [List.map_cons, List.zip_cons_cons, List.mapM_cons, load_document hvalid, ih]
    rfl

private theorem proper_of_forall₂ {libs : List Libraries} {ts : List OpsTask} (h : List.Forall₂ Valid libs ts) :
    ∀ file ∈ libs.zip (ts.map OpsTask.document), Proper file.1.toEquality file.2 := by
  induction h with
  | nil => exact fun file hfile => absurd hfile List.not_mem_nil
  | cons hvalid hrest ih =>
    rw [List.map_cons, List.zip_cons_cons, List.forall_mem_cons]
    exact ⟨proper_document hvalid, ih⟩

/-- The suites that the loader gives for documents with proper mappings are the valid tasks with names of their own, each
loaded from its own document.  Every step of such a task is one that the runner reads without an error, and its asset has
been resolved. -/
theorem suite_loaded_iff (libs : List Libraries) (ts : List OpsTask) :
    ((∃ files, files.map Prod.fst = libs ∧ (∀ file ∈ files, Proper file.1.toEquality file.2) ∧
          loadOpsTasks files = .ok ts) ↔
        List.Forall₂ Valid libs ts ∧ (ts.map OpsTask.name).Nodup) ∧
      ∀ t ∈ ts, ∀ lib, Valid lib t → (Proper lib.toEquality t.document ∧ loadOpsTask lib t.document = .ok t) ∧
        ∀ s ∈ t.setup ++ t.restore, ∃ step, s.read = some step ∧
          ∀ {P : Type} (resolve : OpsAsset → P), ∀ name ∈ assetOf step,
            ∃ path, (.str name.toList, path) ∈ resolveAssets resolve t := by
  refine ⟨⟨?_, ?_⟩, fun t _ lib h => ⟨⟨proper_document h, load_document h⟩, fun s hs => runs_of_valid h hs⟩⟩
  · rintro ⟨files, rfl, hproper, h⟩
    simp only [loadOpsTasks, bind_eq_ok, require_eq_ok, pure_eq_ok] at h
    obtain ⟨ts', hload, -, hnames, rfl⟩ := h
    exact ⟨forall₂_of_load hproper hload, of_decide_eq_true hnames⟩
  · rintro ⟨hvalid, hnames⟩
    have hlength : libs.length = (ts.map OpsTask.document).length := by
      rw [List.length_map]
      exact hvalid.length_eq
    refine ⟨libs.zip (ts.map OpsTask.document), List.map_fst_zip hlength.le, proper_of_forall₂ hvalid, ?_⟩
    simp only [loadOpsTasks, bind_eq_ok, require_eq_ok, pure_eq_ok]
    exact ⟨ts, load_of_forall₂ hvalid, (), decide_eq_true hnames, rfl⟩

/-- A directory with one file. -/
def blinkLib : Libraries where
  toEquality := Checks.textEquality
  isFile path := path = "main.py".toList
  isFile_nil := rfl

def blinkTask : OpsTask where
  name := "blink".toList
  description := "Let the board blink.".toList
  wallSec := 900
  budget := ⟨8, 300⟩
  judge := [⟨.deviceFile, [(.str "path".toList, .str "/main.py".toList), (.str "asset".toList, .str "app".toList)]⟩]
  level := 3
  tags := ["io".toList]
  notes := []
  dossier := []
  allowedTools := ["serial".toList]
  assets := [⟨.str "app".toList, .str "main.py".toList, .null, .null⟩]
  setup := [⟨.deployFile, [(.str "asset".toList, .str "app".toList), (.str "target".toList, .str "/main.py".toList)]⟩]
  restore := [⟨.removeFile, [(.str "path".toList, .str "/main.py".toList)]⟩]

private theorem blinkTask_valid : Valid blinkLib blinkTask := by
  have hparams : ∀ {key key' value value' : String}, key ≠ key' → Proper blinkLib.toEquality
      (.dict [(.str key.toList, .str value.toList), (.str key'.toList, .str value'.toList)]) := by
    intro key key' value value' hne
    refine proper_of_keys [key.toList, key'.toList] rfl ?_ (by simp [Proper])
    simpa [String.toList_inj] using hne
  exact
    { name := by decide
      description := by decide
      wallSec := by decide
      level := by decide
      maxIterations := by decide
      iterTimeoutSec := by decide
      tags := by decide
      notes := by decide
      dossier := by decide
      someTool := by decide
      tools := by decide
      assets := List.forall_mem_singleton.2 (.file (by decide) rfl)
      steps := by
        refine List.forall_mem_cons.2 ⟨⟨.deployFile "app" "/main.py", ⟨rfl, rfl, ?_⟩, ?_⟩,
          List.forall_mem_singleton.2 ⟨.removeFile "/main.py", ⟨rfl, rfl, ?_⟩, ?_⟩⟩
        · rintro path ⟨⟩
          rfl
        · rintro name ⟨⟩
          exact ⟨_, List.mem_cons_self, rfl⟩
        · rintro path ⟨⟩
          rfl
        · rintro name ⟨⟩
      someCheck := List.cons_ne_nil _ _
      judge := List.forall_mem_singleton.2 ⟨rfl, rfl, rfl⟩
      names := keys_texts (List.nodup_singleton "app".toList)
      pins := List.forall_mem_singleton.2 trivial
      stepParams := by
        refine List.forall_mem_cons.2 ⟨hparams (by decide), List.forall_mem_singleton.2 ?_⟩
        exact proper_of_keys ["path".toList] rfl (List.nodup_singleton _) (by simp [Proper])
      checkParams := List.forall_mem_singleton.2 (hparams (by decide)) }

theorem suite_loaded_iff_blink :
    (∃ files, files.map Prod.fst = [blinkLib] ∧ (∀ file ∈ files, Proper file.1.toEquality file.2) ∧
      loadOpsTasks files = .ok [blinkTask]) ∧
      ∀ s ∈ blinkTask.setup ++ blinkTask.restore, ∃ step, s.read = some step ∧
        ∀ name ∈ assetOf step, ∃ path, (.str name.toList, path) ∈ resolveAssets OpsAsset.path blinkTask := by
  have hsuite := suite_loaded_iff [blinkLib] [blinkTask]
  refine ⟨hsuite.1.2 ⟨List.Forall₂.cons blinkTask_valid List.Forall₂.nil, List.nodup_singleton _⟩, ?_⟩
  intro s hs
  obtain ⟨step, hread, hassets⟩ := (hsuite.2 blinkTask (List.mem_singleton.2 rfl) blinkLib blinkTask_valid).2 s hs
  exact ⟨step, hread, hassets OpsAsset.path⟩

end IronHarness.Ops.Loader
