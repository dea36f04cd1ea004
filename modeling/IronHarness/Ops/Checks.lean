import IronHarness.Ops.Inventory
import IronHarness.Python.Loads
import IronHarness.Tasks.Compat

/-!
# The checks of an ops task

`_parse_checks` (ironbench/ops_tasks.py), which accepts the state checks of a task, and `OpsJudge.run`
(ironbench/ops_judge.py), which reads the same parameters again.  The two agree on a check unless `inventory_match` leaves
`i2c` out, the asset of a `device_file` is no string, a regular expression does not compile, or `mqtt_collect` names an
empty host, or a host or topic that the MQTT library does not take (`judge_checks_loaded_iff`).
-/

namespace IronHarness.Ops.Checks

open ByteText
open PyLiteral (PyStr)
open Python (Json loads lookup)
open Tasks (Yaml Dict Loads LoadError get getD has onlyKeys toTuple require orRaise valueError typeError)

/-! ### The loader -/

inductive CheckKind
  | bootExpect
  | deviceFile
  | busScan
  | inventoryMatch
  | mqttCollect
  deriving DecidableEq

def CheckKind.name : CheckKind → String
  | .bootExpect => "boot_expect"
  | .deviceFile => "device_file"
  | .busScan => "bus_scan"
  | .inventoryMatch => "inventory_match"
  | .mqttCollect => "mqtt_collect"

/-- `_CHECK_KINDS` -/
def CheckKind.keys : CheckKind → List String
  | .bootExpect => ["literals", "within_sec", "repl_echo"]
  | .deviceFile => ["path", "asset", "contains"]
  | .busScan => ["i2c_scl", "i2c_sda", "onewire_pin", "i2c_expected", "onewire_family"]
  | .inventoryMatch => ["i2c", "onewire", "i2c_scl", "i2c_sda", "onewire_pin"]
  | .mqttCollect => ["host", "port", "topic", "expect_regex", "within_sec"]

structure OpsCheck where
  kind : CheckKind
  params : Dict

def kindOf (key : Yaml) : Option CheckKind :=
  [.bootExpect, .deviceFile, .busScan, .inventoryMatch, .mqttCollect].find? fun kind => key.isText kind.name

/-- The value of an `isinstance(x, int)`. -/
def intLike : Yaml → Option Int
  | .bool b => some (if b then 1 else 0)
  | .int n => some n
  | _ => none

def isBool : Yaml → Bool
  | .bool _ => true
  | _ => false

def isNull : Yaml → Bool
  | .null => true
  | _ => false

def isString : Yaml → Bool
  | .str _ => true
  | _ => false

/-- `isinstance(x, str) and x` -/
def isFilled : Yaml → Bool
  | .str (_ :: _) => true
  | _ => false

def isAbsolute : Yaml → Bool
  | .str ('/' :: _) => true
  | _ => false

/-- The test of `_int_in`. -/
def inRange (low high : Int) (value : Yaml) : Bool := value.int?.any fun n => low ≤ n && n ≤ high

/-- A rule for a parameter that may be missing. -/
def optional (p : Dict) (key : String) (ok : Yaml → Bool) (e : LoadError) : Loads Unit := require ((get p key).all ok) e

/-- `_int_in` for a parameter that may be missing. -/
def optionalInt (p : Dict) (key : String) (low high : Int) : Loads Unit :=
  optional p key (inRange low high) (valueError "expected int in a range")

def parseBootExpect (p : Dict) : Loads Unit := do
  require (((getD p "literals" .null).listOf? fun x => if isFilled x then some x else none).any fun xs => !xs.isEmpty)
    (valueError "literals must be a non-empty str list")
  optionalInt p "within_sec" 5 120
  require (isBool (getD p "repl_echo" (.bool false))) (valueError "repl_echo must be boolean")

def parseDeviceFile (p : Dict) : Loads Unit := do
  require (isAbsolute (getD p "path" .null)) (valueError "path must be an absolute device path")
  require (has p "asset" != has p "contains") (valueError "exactly one of asset/contains is required")
  optional p "contains" isString (valueError "contains must be a regex string")

def parsePins (p : Dict) : Loads Unit := do
  optionalInt p "i2c_scl" 0 60
  optionalInt p "i2c_sda" 0 60
  optionalInt p "onewire_pin" 0 60

def isAddresses (value : Yaml) : Bool :=
  (value.listOf? intLike).any fun addresses => addresses.all fun n => 0 ≤ n && n ≤ 0x7F

def parseBusScan (p : Dict) : Loads Unit := do
  parsePins p
  optional p "i2c_expected" isAddresses (valueError "i2c_expected must be a list of 0..127 ints")
  optionalInt p "onewire_family" 0 255

def parseInventoryMatch (p : Dict) : Loads Unit := do
  parsePins p
  require (isBool (getD p "i2c" (.bool false))) (typeError "i2c must be boolean")
  require (isBool (getD p "onewire" (.bool false))) (typeError "onewire must be boolean")
  require ((getD p "i2c" (.bool false)).truthy || (getD p "onewire" (.bool false)).truthy)
    (valueError "at least one of i2c/onewire is required")

def parseMqttCollect (p : Dict) : Loads Unit := do
  require (isFilled (getD p "topic" .null)) (valueError "topic must be a non-empty string")
  require (isFilled (getD p "expect_regex" .null)) (valueError "expect_regex must be a non-empty string")
  optionalInt p "within_sec" 5 300
  let host := getD p "host" .null
  let port := getD p "port" .null
  require (isNull host || isString host) (valueError "host must be a string")
  require (isNull port || inRange 1 65535 port) (valueError "port must be an int in [1, 65535]")
  require (isNull host == isNull port)
    (valueError "host and port must be set together (or both omitted for env fallback)")

def parseParams : CheckKind → Dict → Loads Unit
  | .bootExpect => parseBootExpect
  | .deviceFile => parseDeviceFile
  | .busScan => parseBusScan
  | .inventoryMatch => parseInventoryMatch
  | .mqttCollect => parseMqttCollect

/-- `params or {}`, where it is a mapping. -/
def mapping (value : Yaml) : Loads Dict :=
  if value.truthy then orRaise (typeError "params must be a mapping") value.dict? else .ok []

def parseCheck (entry : Yaml) : Loads OpsCheck :=
  match entry with
  | .dict [(key, value)] => do
    let kind ← orRaise (valueError "unknown check kind") (kindOf key)
    let params ← mapping value
    require (onlyKeys kind.keys params) (valueError "unknown keys")
    parseParams kind params
    return ⟨kind, params⟩
  | _ => .error (valueError "expected a single-key mapping")

/-- `_parse_checks` -/
def parseChecks (raw : Yaml) : Loads (List OpsCheck) :=
  match raw with
  | .list (entry :: entries) => (entry :: entries).mapM parseCheck
  | _ => .error (valueError "at least one state check is mandatory")

/-- The checks of `load_ops_task`; `declared` is whether an asset has this name. -/
def loadJudge (declared : Yaml → Bool) (raw : Yaml) : Loads (List OpsCheck) := do
  let checks ← parseChecks raw
  require (checks.all fun check => (get check.params "asset").all declared) (valueError "undeclared asset")
  return checks

/-! ### The judge -/

/-- What an exception in a check is due to. -/
inductive Cause
  /-- the parameters of the check itself -/
  | own
  /-- the report in the transcript -/
  | report
  /-- `OPS_AB_MQTT_HOST` and `OPS_AB_MQTT_PORT` -/
  | environment
  /-- the answer of the board -/
  | board

/-- What the judge takes from outside of the repository: Python and its `json`, `re.search` for a pattern that compiles,
and the hosts and topics that the MQTT library takes. -/
structure Libraries extends Tasks.Python, Tasks.Equality where
  json : Python.Libraries
  nesting_pos : 0 < json.nesting
  search : Text → Text → Bool
  takesHost : Text → Bool
  takesHost_localhost : takesHost "localhost".toList = true
  takesTopic : Text → Bool

/-- What the checks find. -/
structure World where
  /-- what `_collect` reads in a time, up to where all the literals are there -/
  boot : ℚ → List Text → Text
  /-- what the board prints behind the REPL probe -/
  echo : Text
  /-- `get_file`; `none` where the board refuses -/
  file : Text → Option Bytes
  /-- the names of the resolved assets and their bytes -/
  assets : List (Yaml × Bytes)
  /-- the addresses on the bus with this clock and data pin -/
  i2c : Int → Int → List Int
  /-- the ROMs on the bus at this pin -/
  onewire : Int → List (List Int)
  transcript : Text
  /-- where it is set and not empty -/
  envHost : Option Text
  /-- where it is set and not empty, with what `int` makes of it -/
  envPort : Option (Option Int)
  /-- the payloads that a broker sends on a topic in a time -/
  messages : Text → Int → Text → ℚ → List Text

/-- The assets with these names are resolved, and the board answers with data that is well formed. -/
structure World.WellFormed (names : List Yaml) (world : World) : Prop where
  assets : world.assets.map Prod.fst = names
  /-- every ROM has its bytes -/
  roms : ∀ pin, ∀ rom ∈ world.onewire pin, rom ≠ []

def replMarker : Text := "JUDGE-OK".toList

/-- An exception that a parameter raises. -/
def own {α : Type} (x : Except Tasks.Kind α) : Except Cause α := x.mapError fun _ => .own

def raise {α : Type} (cause : Cause) : Option α → Except Cause α
  | some a => .ok a
  | none => .error cause

/-- `float(value)`; the loader lets small integers through only. -/
def seconds (value : Yaml) : Except Cause ℚ :=
  match value.comparable? with
  | some (.finite q) => .ok q
  | _ => .error .own

def occurs (needle text : Text) : Bool := (find needle text).isSome

def checkBootExpect (lib : Libraries) (world : World) (p : Dict) : Except Cause Bool := do
  let within ← seconds (getD p "within_sec" (.int 30))
  let literals ← own ((toTuple (getD p "literals" (.list []))).bind fun xs => xs.mapM lib.str)
  if !literals.all (fun literal => occurs literal (world.boot within literals)) then return false
  if (getD p "repl_echo" .null).truthy then return occurs replMarker world.echo
  return true

/-- `self._assets.get(name)` -/
def assetNamed (lib : Libraries) (world : World) (name : Yaml) : Option Bytes :=
  (world.assets.find? fun asset => lib.eq asset.1 name).map Prod.snd

def checkDeviceFile (lib : Libraries) (world : World) (p : Dict) : Except Cause Bool := do
  let path ← own (lib.str (← raise .own (get p "path")))
  match world.file path with
  | none => return false
  | some content =>
    match get p "asset" with
    | some ref => do
      let name ← own (lib.str ref)
      match assetNamed lib world (.str name) with
      | none => return false
      | some expected => return content == expected
    | none => do
      let pattern ← own (lib.str (getD p "contains" (.str [])))
      own (lib.compile pattern)
      return lib.search pattern (decodeReplace content)

/-- `_scan_bus` -/
def scanBus (lib : Libraries) (world : World) (p : Dict) : Except Cause (List Int × List (List Int)) := do
  let scl ← own (lib.toPython.int (getD p "i2c_scl" (.int 22)))
  let sda ← own (lib.toPython.int (getD p "i2c_sda" (.int 21)))
  let pin ← own (lib.toPython.int (getD p "onewire_pin" (.int 4)))
  return (world.i2c scl sda, world.onewire pin)

/-- `onewire[0][0] if onewire else None` -/
def firstFamily (onewire : List (List Int)) : Except Cause (Option Int) :=
  match onewire with
  | [] => .ok none
  | rom :: _ => (raise .board rom.head?).map some

/-- `i2c_expected` -/
def matchAddresses (lib : Libraries) (p : Dict) (i2c : List Int) : Except Cause Bool :=
  match get p "i2c_expected" with
  | some value => do
    let expected ← own ((toTuple value).bind fun xs => xs.mapM lib.toPython.int)
    return i2c.isPerm expected
  | none => .ok true

/-- `onewire_family` -/
def matchFamily (lib : Libraries) (p : Dict) (onewire : List (List Int)) : Except Cause Bool :=
  match get p "onewire_family" with
  | some value => do
    let family ← own (lib.toPython.int value)
    let first ← firstFamily onewire
    return first == some family
  | none => .ok true

def checkBusScan (lib : Libraries) (world : World) (p : Dict) : Except Cause Bool := do
  let (i2c, onewire) ← scanBus lib world p
  if !(← matchAddresses lib p i2c) then return false
  matchFamily lib p onewire

/-- `sorted(int(x) for x in got) == sorted(i2c)`, for the list that is reported. -/
def reportsBus (lib : Libraries) (reported : List (PyStr × Json)) (i2c : List Int) : Except Cause Bool :=
  match lookup "i2c" reported with
  | some (.arr got) => do
    let addresses ← (got.mapM (Python.intOf lib.json)).mapError fun _ => .report
    return addresses.isPerm i2c
  | _ => .ok false

/-- `got_family == actual` -/
def isFamily : Option Json → Option Int → Bool
  | none, none | some .null, none => true
  | some value, some family => value.isInt family
  | _, _ => false

/-- A comparison that is made where it is wanted. -/
def ifWanted (wanted : Bool) (compare : Except Cause Bool) : Except Cause Bool := if wanted then compare else .ok true

/-- The object in the last match of the transcript. -/
def inventory (lib : Libraries) (transcript : Text) : Except Cause (Option (List (PyStr × Json))) :=
  match (inventories 0 transcript).getLast? with
  | none => .ok none
  | some group =>
    match loads lib.json group with
    | .ok (.obj reported) => .ok (some reported)
    | .ok _ | .error .decode => .ok none
    | .error _ => .error .report

def checkInventoryMatch (lib : Libraries) (world : World) (p : Dict) : Except Cause Bool := do
  match ← inventory lib world.transcript with
  | none => return false
  | some reported =>
    let (i2c, onewire) ← scanBus lib world p
    let sameBus ← ifWanted (getD p "i2c" (.bool true)).truthy (reportsBus lib reported i2c)
    let sameFamily ← ifWanted (getD p "onewire" (.bool false)).truthy
      ((firstFamily onewire).map (isFamily (lookup "onewire_family" reported)))
    return sameBus && sameFamily

/-- `params.get(key) or ...`: the parameter, unless it is missing or empty. -/
def given (p : Dict) (key : String) : Option Yaml := (get p key).filter Yaml.truthy

def ensure (ok : Bool) (cause : Cause) : Except Cause Unit := if ok then .ok () else .error cause

/-- The host and the port, each from the parameters or from the environment. -/
def brokerOf (world : World) (p : Dict) : Except Cause ((Yaml ⊕ Text) × (Yaml ⊕ Option Int)) := do
  let declared := !isNull (getD p "host" .null) || !isNull (getD p "port" .null)
  let missing := if declared then Cause.own else Cause.environment
  let host ← raise missing (((given p "host").map Sum.inl).or (world.envHost.map Sum.inr))
  let port ← raise missing (((given p "port").map Sum.inl).or (world.envPort.map Sum.inr))
  return (host, port)

/-- `broker_factory(str(host), int(port))` and `open` -/
def openBroker (lib : Libraries) (broker : (Yaml ⊕ Text) × (Yaml ⊕ Option Int)) : Except Cause (Text × Int) := do
  let host ← broker.1.elim (fun value => own (lib.str value)) .ok
  let port ← broker.2.elim (fun value => own (lib.toPython.int value)) (raise .environment)
  ensure (lib.takesHost host) (broker.1.elim (fun _ => .own) fun _ => .environment)
  return (host, port)

def checkMqttCollect (lib : Libraries) (world : World) (p : Dict) : Except Cause Bool := do
  let broker ← brokerOf world p
  let pattern ← own (lib.str (← raise .own (get p "expect_regex")))
  own (lib.compile pattern)
  let within ← seconds (getD p "within_sec" (.int 60))
  let (host, port) ← openBroker lib broker
  let topic ← own (lib.str (← raise .own (get p "topic")))
  ensure (lib.takesTopic topic) .own
  return (world.messages host port topic within).any (lib.search pattern)

def runCheck (lib : Libraries) (world : World) (check : OpsCheck) : Except Cause Bool :=
  match check.kind with
  | .bootExpect => checkBootExpect lib world check.params
  | .deviceFile => checkDeviceFile lib world check.params
  | .busScan => checkBusScan lib world check.params
  | .inventoryMatch => checkInventoryMatch lib world check.params
  | .mqttCollect => checkMqttCollect lib world check.params

structure CheckOutcome where
  kind : CheckKind
  passed : Bool
  judgeError : Option Cause

/-- An exception of a check is a failed outcome. -/
def outcomeOf (lib : Libraries) (world : World) (check : OpsCheck) : CheckOutcome :=
  match runCheck lib world check with
  | .ok passed => ⟨check.kind, passed, none⟩
  | .error cause => ⟨check.kind, false, some cause⟩

/-- `OpsJudge.run` -/
def run (lib : Libraries) (world : World) (checks : List OpsCheck) : Bool × List CheckOutcome :=
  let outcomes := checks.map (outcomeOf lib world)
  (outcomes.all (·.passed), outcomes)

/-! ### What the judge is to do -/

/-- The pin or time of a parameter, or its default. -/
def intOr (p : Dict) (key : String) (default : Int) : Int := ((get p key).bind Yaml.int?).getD default

/-- The parameter is declared true. -/
def Declares (p : Dict) (key : String) : Prop := get p key = some (.bool true)

section

variable (lib : Libraries) (world : World) (p : Dict)

def busAddresses : List Int := world.i2c (intOr p "i2c_scl" 22) (intOr p "i2c_sda" 21)

def busRoms : List (List Int) := world.onewire (intOr p "onewire_pin" 4)

/-- The literals are in the boot output, and the probe is answered if it is declared. -/
structure BootAgrees : Prop where
  literals : ∀ literals, (getD p "literals" .null).listOf? Yaml.text? = some literals →
    ∀ literal ∈ literals, occurs literal (world.boot (intOr p "within_sec" 30) literals) = true
  echo : Declares p "repl_echo" → occurs replMarker world.echo = true

/-- The file that the board has is the one that is declared. -/
structure FileAgrees (content : Bytes) : Prop where
  path : ∃ path, get p "path" = some (.str path) ∧ world.file path = some content
  asset : ∀ ref, get p "asset" = some ref → assetNamed lib world ref = some content
  contains : ∀ pattern, get p "contains" = some (.str pattern) → lib.search pattern (decodeReplace content) = true

/-- The expected values that are present. -/
structure BusAgrees : Prop where
  i2c : ∀ value, get p "i2c_expected" = some value → ∃ expected, value.listOf? intLike = some expected ∧
    (busAddresses world p).Perm expected
  family : ∀ value, get p "onewire_family" = some value → ∃ family rom roms, value = .int family ∧
    busRoms world p = (family :: rom) :: roms

/-- The facts that are declared true. -/
structure ReportAgrees (reported : List (PyStr × Json)) : Prop where
  i2c : Declares p "i2c" → ∃ got addresses, lookup "i2c" reported = some (.arr got) ∧
    got.mapM (Python.intOf lib.json) = .ok addresses ∧ addresses.Perm (busAddresses world p)
  family : Declares p "onewire" →
    isFamily (lookup "onewire_family" reported) ((busRoms world p).head?.bind List.head?) = true

/-- The broker that is declared, or that of the environment. -/
def broker : Option (Text × Int) :=
  match get p "host", get p "port" with
  | some (.str host), some (.int port) => some (host, port)
  | _, _ => do
    let host ← world.envHost.filter lib.takesHost
    let port ← world.envPort.join
    return (host, port)

/-- A message of the topic matches. -/
def MessageAgrees : Prop :=
  ∃ host port topic pattern, broker lib world p = some (host, port) ∧ get p "topic" = some (.str topic) ∧
    get p "expect_regex" = some (.str pattern) ∧
      ∃ message ∈ world.messages host port topic (intOr p "within_sec" 60), lib.search pattern message = true

end

/-- The declared facts. -/
def Declared (lib : Libraries) (world : World) (check : OpsCheck) : Prop :=
  match check.kind with
  | .bootExpect => BootAgrees world check.params
  | .deviceFile => ∃ content, FileAgrees lib world check.params content
  | .busScan => BusAgrees world check.params
  | .inventoryMatch =>
      ∃ reported, inventory lib world.transcript = .ok (some reported) ∧ ReportAgrees lib world check.params reported
  | .mqttCollect => MessageAgrees lib world check.params

/-- The outcome is no error of the check's own parameters, and it depends on exactly the declared facts. -/
structure Faithful (lib : Libraries) (world : World) (check : OpsCheck) (outcome : CheckOutcome) : Prop where
  noOwnError : outcome.judgeError ≠ some .own
  facts : outcome.passed = true ↔ Declared lib world check

/-- The judge checks what the loader has accepted. -/
def Sound (lib : Libraries) (names : List Yaml) (check : OpsCheck) : Prop :=
  ∀ world : World, world.WellFormed names → Faithful lib world check (outcomeOf lib world check)

/-- The parameters that the two read in the same way. -/
def Agreed (lib : Libraries) (check : OpsCheck) : Prop :=
  match check.kind with
  | .bootExpect | .busScan => True
  | .deviceFile =>
      (∀ ref, get check.params "asset" = some ref → isString ref = true) ∧
      ∀ pattern, get check.params "contains" = some (.str pattern) → lib.compile pattern = .ok ()
  | .inventoryMatch => has check.params "i2c" = true
  | .mqttCollect =>
      (∀ pattern, get check.params "expect_regex" = some (.str pattern) → lib.compile pattern = .ok ()) ∧
      (∀ host, get check.params "host" = some (.str host) → host ≠ [] ∧ lib.takesHost host = true) ∧
      ∀ topic, get check.params "topic" = some (.str topic) → lib.takesTopic topic = true

/-! ### The parameters as the judge reads them -/

variable {lib : Libraries} {world : World} {names : List Yaml} {p : Dict} {check : OpsCheck} {key : String}
  {low high : Int} {u : Unit}

theorem ok_bind {E A B : Type} (a : A) (f : A → Except E B) : (Except.ok a >>= f) = f a := rfl

private theorem error_bind {E A B : Type} (e : E) (f : A → Except E B) : (Except.error e >>= f) = .error e := rfl

private theorem pure_eq {E A : Type} (a : A) : (pure a : Except E A) = .ok a := rfl

open Tasks (bind_eq_ok require_eq_ok orRaise_eq_ok pure_eq_ok)

/-- A parameter that may be missing and is an integer in a range. -/
def IntParam (p : Dict) (key : String) : Prop := ∀ value, get p key = some value → ∃ n, value = .int n

private theorem intParam_of_optionalInt (h : optionalInt p key low high = .ok u) : IntParam p key := by
  unfold optionalInt optional at h
  rw [require_eq_ok] at h
  intro value hget
  rw [hget] at h
  cases value with
  | int n => exact ⟨n, rfl⟩
  | _ => cases h

/-- An integer parameter that the loader accepts is read as it is. -/
private theorem own_int {default : Int} (h : IntParam p key) :
    own (lib.toPython.int (getD p key (.int default))) = .ok (intOr p key default) := by
  unfold getD intOr
  cases hget : get p key with
  | none => rfl
  | some value =>
    obtain ⟨n, rfl⟩ := h value hget
    rfl

private theorem seconds_param {default : Int} (h : IntParam p key) :
    seconds (getD p key (.int default)) = .ok (intOr p key default : ℚ) := by
  unfold getD intOr
  cases hget : get p key with
  | none => rfl
  | some value =>
    obtain ⟨n, rfl⟩ := h value hget
    rfl

private theorem own_str (s : Text) : own (lib.str (.str s)) = .ok s := by
  rw [lib.str_text]
  rfl

theorem getD_of_get {value default : Yaml} (h : get p key = some value) : getD p key default = value := by
  rw [getD, h]
  rfl

/-- A switch that is missing or a boolean is on where it is declared true. -/
private theorem declares_iff (default : Yaml) (h : isBool (getD p key (.bool false)) = true)
    (hdefault : default.truthy = false) :
    (getD p key default).truthy = true ↔ Declares p key := by
  unfold getD Declares at *
  cases hget : get p key with
  | none => simpa using hdefault
  | some value =>
    rw [hget] at h
    cases value with
    | bool b => simp [Yaml.truthy]
    | _ => cases h

/-- A list of strings that are not empty. -/
private theorem filled_texts {items : List Yaml} {xs : List Yaml}
    (h : items.mapM (fun x => if isFilled x then some x else none) = some xs) :
    ∃ texts : List Text, items = texts.map Yaml.str := by
  induction items generalizing xs with
  | nil => exact ⟨[], rfl⟩
  | cons x items ih =>
    rw [List.mapM_cons, Option.bind_eq_bind, Option.bind_eq_some_iff] at h
    obtain ⟨y, hy, h⟩ := h
    rw [Option.bind_eq_bind, Option.bind_eq_some_iff] at h
    obtain ⟨ys, hys, -⟩ := h
    obtain ⟨texts, rfl⟩ := ih hys
    cases x with
    | str s => exact ⟨s :: texts, rfl⟩
    | _ => simp [isFilled] at hy

private theorem isString_eq_true {value : Yaml} : isString value = true ↔ ∃ s, value = .str s := by
  cases value <;> simp [isString]

private theorem own_strs (texts : List Text) : own ((texts.map Yaml.str).mapM lib.str) = .ok texts := by
  have hstr : lib.str ∘ Yaml.str = fun s => Except.ok s := funext lib.str_text
  rw [List.mapM_map, hstr]
  have hpure := List.mapM_pure (m := Except Tasks.Kind) (l := texts) (f := fun s => s)
  rw [List.map_id'] at hpure
  exact congrArg own hpure

private theorem mapM_text (texts : List Text) : (texts.map Yaml.str).mapM Yaml.text? = some texts := by
  rw [List.mapM_map]
  have hpure := List.mapM_pure (m := Option) (l := texts) (f := fun s => s)
  rw [List.map_id'] at hpure
  exact hpure

/-- The addresses that the loader accepts are read as they are. -/
private theorem own_ints {items : List Yaml} {expected : List Int} (h : items.mapM intLike = some expected) :
    items.mapM lib.toPython.int = .ok expected := by
  induction items generalizing expected with
  | nil =>
    cases h
    rfl
  | cons x items ih =>
    rw [List.mapM_cons, Option.bind_eq_bind, Option.bind_eq_some_iff] at h
    obtain ⟨n, hn, h⟩ := h
    rw [Option.bind_eq_bind, Option.bind_eq_some_iff] at h
    obtain ⟨ns, hns, h⟩ := h
    cases h
    have hx : lib.toPython.int x = .ok n := by
      cases x with
      | bool b =>
        cases hn
        rfl
      | int m =>
        cases hn
        rfl
      | _ => cases hn
    rw [List.mapM_cons, hx, ok_bind, ih hns]
    rfl

/-! ### Every kind of check -/

private theorem parseBootExpect_eq_ok (h : parseBootExpect p = .ok u) :
    (∃ literals : List Text, get p "literals" = some (.list (literals.map Yaml.str))) ∧
      IntParam p "within_sec" ∧ isBool (getD p "repl_echo" (.bool false)) = true := by
  simp only [parseBootExpect, bind_eq_ok, require_eq_ok] at h
  obtain ⟨-, hliterals, _, hwithin, hecho⟩ := h
  refine ⟨?_, intParam_of_optionalInt hwithin, hecho⟩
  rw [Option.any_eq_true] at hliterals
  obtain ⟨xs, hxs, -⟩ := hliterals
  cases hget : get p "literals" with
  | none =>
    rw [getD, hget] at hxs
    cases hxs
  | some value =>
    rw [getD_of_get hget] at hxs
    cases value with
    | list items =>
      obtain ⟨texts, rfl⟩ := filled_texts hxs
      exact ⟨texts, rfl⟩
    | _ => cases hxs

private theorem checkBootExpect_spec (h : parseBootExpect p = .ok u) :
    ∃ passed, checkBootExpect lib world p = .ok passed ∧ (passed = true ↔ BootAgrees world p) := by
  obtain ⟨⟨literals, hget⟩, hwithin, hecho⟩ := parseBootExpect_eq_ok h
  have hdeclared := declares_iff .null hecho rfl
  have htexts : (getD p "literals" .null).listOf? Yaml.text? = some literals := by
    rw [getD_of_get hget]
    exact mapM_text literals
  have hiff : BootAgrees world p ↔
      (∀ literal ∈ literals, occurs literal (world.boot (intOr p "within_sec" 30) literals) = true) ∧
        (Declares p "repl_echo" → occurs replMarker world.echo = true) := by
    constructor
    · intro hagrees
      exact ⟨hagrees.literals literals htexts, hagrees.echo⟩
    · rintro ⟨hall, hmarker⟩
      refine ⟨fun texts hsome => ?_, hmarker⟩
      cases hsome.symm.trans htexts
      exact hall
  have hread : own ((toTuple (getD p "literals" (.list []))).bind fun xs => xs.mapM lib.str) = .ok literals := by
    rw [getD_of_get hget]
    exact own_strs literals
  rw [hiff, ← List.all_eq_true]
  simp only [checkBootExpect, seconds_param hwithin, hread, ok_bind]
  cases hall : literals.all fun literal => occurs literal (world.boot (intOr p "within_sec" 30) literals) with
  | false => exact ⟨false, rfl, by simp⟩
  | true =>
    by_cases htrue : Declares p "repl_echo"
    · have := hdeclared.2 htrue
      simp [this, htrue, pure_eq]
    · have := mt hdeclared.1 htrue
      simp [this, htrue, pure_eq]

private theorem parseDeviceFile_eq_ok (h : parseDeviceFile p = .ok u) :
    (∃ path, get p "path" = some (.str path)) ∧ (has p "asset" != has p "contains") = true ∧
      ∀ value, get p "contains" = some value → ∃ pattern, value = .str pattern := by
  simp only [parseDeviceFile, bind_eq_ok, require_eq_ok, optional] at h
  obtain ⟨-, hpath, -, hone, hcontains⟩ := h
  refine ⟨?_, hone, ?_⟩
  · cases hget : get p "path" with
    | none =>
      rw [getD, hget] at hpath
      cases hpath
    | some value =>
      rw [getD_of_get hget] at hpath
      cases value with
      | str path => exact ⟨path, rfl⟩
      | _ => cases hpath
  · intro value hget
    rw [hget] at hcontains
    cases value with
    | str pattern => exact ⟨pattern, rfl⟩
    | _ => cases hcontains

private theorem fileAgrees_iff {path : Text} {content : Bytes} (hpath : get p "path" = some (.str path))
    (hfile : world.file path = some content) :
    (∃ content, FileAgrees lib world p content) ↔
      (∀ ref, get p "asset" = some ref → assetNamed lib world ref = some content) ∧
        ∀ pattern, get p "contains" = some (.str pattern) → lib.search pattern (decodeReplace content) = true := by
  constructor
  · rintro ⟨other, ⟨path', hpath', hfile'⟩, hasset, hcontains⟩
    cases hpath.symm.trans hpath'
    cases hfile.symm.trans hfile'
    exact ⟨hasset, hcontains⟩
  · rintro ⟨hasset, hcontains⟩
    exact ⟨content, ⟨path, hpath, hfile⟩, hasset, hcontains⟩

private theorem checkDeviceFile_spec (h : parseDeviceFile p = .ok u)
    (hstring : ∀ ref, get p "asset" = some ref → isString ref = true)
    (hcompile : ∀ pattern, get p "contains" = some (.str pattern) → lib.compile pattern = .ok ()) :
    ∃ passed, checkDeviceFile lib world p = .ok passed ∧
      (passed = true ↔ ∃ content, FileAgrees lib world p content) := by
  obtain ⟨⟨path, hpath⟩, hone, hcontains⟩ := parseDeviceFile_eq_ok h
  simp only [checkDeviceFile, hpath, raise, ok_bind, own_str]
  cases hfile : world.file path with
  | none =>
    refine ⟨false, rfl, ?_⟩
    constructor
    · intro hfalse
      cases hfalse
    · rintro ⟨content, ⟨path', hpath', hfile'⟩, -, -⟩
      cases hpath.symm.trans hpath'
      cases hfile.symm.trans hfile'
  | some content =>
    rw [fileAgrees_iff hpath hfile]
    cases hasset : get p "asset" with
    | some ref =>
      have hnone : get p "contains" = none := by
        rw [has, has, hasset] at hone
        simpa using hone
      obtain ⟨name, rfl⟩ := isString_eq_true.1 (hstring ref hasset)
      rw [hnone]
      simp only [own_str, ok_bind]
      cases hbytes : assetNamed lib world (.str name) with
      | none => exact ⟨false, by simp [pure_eq], by simp [hbytes]⟩
      | some expected =>
        refine ⟨content == expected, by simp [pure_eq], ?_⟩
        rw [beq_iff_eq]
        simp only [Option.some.injEq, forall_eq', hbytes, reduceCtorEq, false_implies, implies_true, and_true]
        exact eq_comm
    | none =>
      have hsome : (get p "contains").isSome = true := by
        rw [has, has, hasset] at hone
        simpa using hone
      obtain ⟨value, hget⟩ := Option.isSome_iff_exists.1 hsome
      obtain ⟨pattern, rfl⟩ := hcontains value hget
      have hread : own (lib.compile pattern) = .ok () := by
        rw [hcompile pattern hget]
        rfl
      refine ⟨lib.search pattern (decodeReplace content), ?_, by simp [hget]⟩
      simp only [getD_of_get hget, own_str, hread, ok_bind]
      rfl

private theorem parsePins_eq_ok (h : parsePins p = .ok u) :
    IntParam p "i2c_scl" ∧ IntParam p "i2c_sda" ∧ IntParam p "onewire_pin" := by
  simp only [parsePins, bind_eq_ok] at h
  obtain ⟨_, hscl, _, hsda, hpin⟩ := h
  exact ⟨intParam_of_optionalInt hscl, intParam_of_optionalInt hsda, intParam_of_optionalInt hpin⟩

private theorem scanBus_eq (h : parsePins p = .ok u) :
    scanBus lib world p = .ok (busAddresses world p, busRoms world p) := by
  obtain ⟨hscl, hsda, hpin⟩ := parsePins_eq_ok h
  simp only [scanBus, own_int hscl, own_int hsda, own_int hpin, ok_bind]
  rfl

private theorem firstFamily_eq (hworld : world.WellFormed names) :
    firstFamily (busRoms world p) = .ok ((busRoms world p).head?.bind List.head?) := by
  cases hroms : busRoms world p with
  | nil => rfl
  | cons rom roms =>
    have hmem : rom ∈ world.onewire (intOr p "onewire_pin" 4) := by
      rw [← busRoms, hroms]
      exact List.mem_cons_self
    cases rom with
    | nil => exact absurd rfl (hworld.roms _ _ hmem)
    | cons family rom => rfl

private theorem parseBusScan_eq_ok (h : parseBusScan p = .ok u) :
    parsePins p = .ok () ∧ IntParam p "onewire_family" ∧
      ∀ value, get p "i2c_expected" = some value →
        ∃ items expected, value = .list items ∧ items.mapM intLike = some expected := by
  simp only [parseBusScan, bind_eq_ok, optional, require_eq_ok] at h
  obtain ⟨_, hpins, _, hexpected, hfamily⟩ := h
  refine ⟨hpins, intParam_of_optionalInt hfamily, ?_⟩
  intro value hget
  rw [hget] at hexpected
  obtain ⟨expected, hlist, -⟩ := Option.any_eq_true _ _ |>.1 hexpected
  cases value with
  | list items => exact ⟨items, expected, rfl, hlist⟩
  | _ => cases hlist

private theorem matchAddresses_spec (lib : Libraries) (world : World) (h : parseBusScan p = .ok u) :
    ∃ passed, matchAddresses lib p (busAddresses world p) = .ok passed ∧
      (passed = true ↔ ∀ value, get p "i2c_expected" = some value → ∃ expected, value.listOf? intLike = some expected ∧
        (busAddresses world p).Perm expected) := by
  obtain ⟨-, -, hexpected⟩ := parseBusScan_eq_ok h
  unfold matchAddresses
  cases hget : get p "i2c_expected" with
  | none => exact ⟨true, rfl, by simp⟩
  | some value =>
    obtain ⟨items, expected, rfl, hlist⟩ := hexpected value hget
    have hread : own ((toTuple (.list items)).bind fun xs => xs.mapM lib.toPython.int) = .ok expected :=
      congrArg own (own_ints hlist)
    refine ⟨(busAddresses world p).isPerm expected, ?_, ?_⟩
    · simp only [hread, ok_bind]
      rfl
    · rw [List.isPerm_iff]
      simp [Yaml.listOf?, hlist]

private theorem matchFamily_spec (lib : Libraries) (hworld : world.WellFormed names) (h : parseBusScan p = .ok u) :
    ∃ passed, matchFamily lib p (busRoms world p) = .ok passed ∧
      (passed = true ↔ ∀ value, get p "onewire_family" = some value → ∃ family rom roms, value = .int family ∧
        busRoms world p = (family :: rom) :: roms) := by
  obtain ⟨-, hfamily, -⟩ := parseBusScan_eq_ok h
  unfold matchFamily
  cases hget : get p "onewire_family" with
  | none => exact ⟨true, rfl, by simp⟩
  | some value =>
    obtain ⟨family, rfl⟩ := hfamily value hget
    have hread : own (lib.toPython.int (.int family)) = .ok family := rfl
    refine ⟨(busRoms world p).head?.bind List.head? == some family, ?_, ?_⟩
    · simp only [hread, firstFamily_eq hworld, ok_bind]
      rfl
    · rcases busRoms world p with _ | ⟨_ | ⟨first, rom⟩, roms⟩
      · simp
      · simp
      · simpa using eq_comm

private theorem checkBusScan_spec (hworld : world.WellFormed names) (h : parseBusScan p = .ok u) :
    ∃ passed, checkBusScan lib world p = .ok passed ∧ (passed = true ↔ BusAgrees world p) := by
  obtain ⟨hpins, -, -⟩ := parseBusScan_eq_ok h
  obtain ⟨i2cOk, hi2c, hi2cIff⟩ := matchAddresses_spec lib world h
  obtain ⟨familyOk, hfamily, hfamilyIff⟩ := matchFamily_spec lib hworld h
  refine ⟨i2cOk && familyOk, ?_, ?_⟩
  · simp only [checkBusScan, scanBus_eq hpins, hi2c, ok_bind]
    cases i2cOk with
    | false => rfl
    | true => exact hfamily
  · rw [Bool.and_eq_true, hi2cIff, hfamilyIff]
    constructor
    · rintro ⟨haddresses, hrom⟩
      exact ⟨haddresses, hrom⟩
    · rintro ⟨haddresses, hrom⟩
      exact ⟨haddresses, hrom⟩

private theorem parseInventoryMatch_eq_ok (h : parseInventoryMatch p = .ok u) :
    parsePins p = .ok () ∧ isBool (getD p "i2c" (.bool false)) = true ∧
      isBool (getD p "onewire" (.bool false)) = true ∧ (Declares p "i2c" ∨ Declares p "onewire") := by
  simp only [parseInventoryMatch, bind_eq_ok, require_eq_ok] at h
  obtain ⟨_, hpins, _, hi2c, _, honewire, hone⟩ := h
  refine ⟨hpins, hi2c, honewire, ?_⟩
  rw [← declares_iff (.bool false) hi2c rfl, ← declares_iff (.bool false) honewire rfl,
    ← Bool.or_eq_true]
  exact hone

private theorem reportsBus_spec (lib : Libraries) (reported : List (PyStr × Json)) (i2c : List Int) :
    reportsBus lib reported i2c ≠ .error .own ∧ (reportsBus lib reported i2c = .ok true ↔
      ∃ got addresses, lookup "i2c" reported = some (.arr got) ∧ got.mapM (Python.intOf lib.json) = .ok addresses ∧
        addresses.Perm i2c) := by
  unfold reportsBus
  cases hlookup : lookup "i2c" reported with
  | none => simp
  | some value =>
    cases value with
    | arr got =>
      cases haddresses : got.mapM (Python.intOf lib.json) with
      | error e => simp [haddresses, Except.mapError]
      | ok addresses => simp [haddresses, Except.mapError, ok_bind, pure_eq, List.isPerm_iff]
    | _ => simp

private theorem ifWanted_spec (wanted : Bool) (compare : Except Cause Bool) :
    (compare ≠ .error .own → ifWanted wanted compare ≠ .error .own) ∧
      (ifWanted wanted compare = .ok true ↔ (wanted = true → compare = .ok true)) := by
  cases wanted <;> simp [ifWanted]

/-- Two comparisons, one after the other. -/
private theorem both_spec {a b : Except Cause Bool} (ha : a ≠ .error .own) (hb : b ≠ .error .own) :
    (do return (← a) && (← b)) ≠ Except.error Cause.own ∧
      ((do return (← a) && (← b)) = Except.ok true ↔ a = .ok true ∧ b = .ok true) := by
  cases a with
  | error cause => exact ⟨ha, by simp [error_bind]⟩
  | ok x =>
    cases b with
    | error cause => exact ⟨hb, by simp [ok_bind]⟩
    | ok y => exact ⟨by simp [ok_bind, pure_eq], by simp [ok_bind, pure_eq]⟩

/-- The judge compares the i2c list unless it is declared false. -/
private theorem checkInventoryMatch_object (lib : Libraries) {reported : List (PyStr × Json)}
    (hworld : world.WellFormed names) (h : parseInventoryMatch p = .ok u)
    (hreport : inventory lib world.transcript = .ok (some reported)) :
    checkInventoryMatch lib world p ≠ .error .own ∧
      (checkInventoryMatch lib world p = .ok true ↔
        ((getD p "i2c" (.bool true)).truthy = true → ∃ got addresses, lookup "i2c" reported = some (.arr got) ∧
          got.mapM (Python.intOf lib.json) = .ok addresses ∧ addresses.Perm (busAddresses world p)) ∧
        (Declares p "onewire" →
          isFamily (lookup "onewire_family" reported) ((busRoms world p).head?.bind List.head?) = true)) := by
  obtain ⟨hpins, -, honewire, -⟩ := parseInventoryMatch_eq_ok h
  obtain ⟨hbus, hbusIff⟩ := reportsBus_spec lib reported (busAddresses world p)
  have hsameBus := ifWanted_spec (getD p "i2c" (.bool true)).truthy (reportsBus lib reported (busAddresses world p))
  have hsameFamily := ifWanted_spec (getD p "onewire" (.bool false)).truthy
    (.ok (isFamily (lookup "onewire_family" reported) ((busRoms world p).head?.bind List.head?)))
  obtain ⟨hnoError, hpasses⟩ := both_spec (hsameBus.1 hbus) (hsameFamily.1 nofun)
  rw [hsameBus.2, hsameFamily.2, hbusIff, declares_iff _ honewire rfl, Except.ok.injEq] at hpasses
  rw [← hpasses]
  simp only [checkInventoryMatch, hreport, scanBus_eq hpins, ok_bind, firstFamily_eq hworld]
  exact ⟨hnoError, Iff.rfl⟩

private theorem inventory_notOwn (lib : Libraries) (transcript : Text) : inventory lib transcript ≠ .error .own := by
  unfold inventory
  split
  · exact nofun
  · split <;> exact nofun

/-- Where there is no object in the transcript, the check fails without an error of its own. -/
private theorem checkInventoryMatch_other (lib : Libraries) (p : Dict)
    (hreport : ∀ reported, inventory lib world.transcript ≠ .ok (some reported)) :
    checkInventoryMatch lib world p ≠ .error .own ∧ checkInventoryMatch lib world p ≠ .ok true := by
  have hown := inventory_notOwn lib world.transcript
  unfold checkInventoryMatch
  cases hread : inventory lib world.transcript with
  | error cause =>
    rw [hread] at hown
    rw [error_bind]
    refine ⟨fun heq => hown ?_, nofun⟩
    rw [Except.error.inj heq]
  | ok found =>
    cases found with
    | none => exact ⟨nofun, by simp [ok_bind, pure_eq]⟩
    | some reported => exact absurd hread (hreport reported)

private theorem get_filled (h : isFilled (getD p key .null) = true) : ∃ s : Text, get p key = some (.str s) := by
  cases hget : get p key with
  | none =>
    rw [getD, hget] at h
    cases h
  | some value =>
    rw [getD_of_get hget] at h
    cases value with
    | str s => exact ⟨s, rfl⟩
    | _ => cases h

private theorem given_of_get {value : Yaml} (h : get p key = some value) (htruthy : value.truthy = true) :
    given p key = some value := by
  rw [given, h, Option.filter_some, if_pos htruthy]

private theorem given_null (h : isNull (getD p key .null) = true) : given p key = none := by
  unfold given
  cases hget : get p key with
  | none => rfl
  | some value =>
    rw [getD_of_get hget] at h
    cases value with
    | null => rfl
    | _ => cases h

/-- The broker is declared, or it is the one of the environment. -/
private theorem parseMqttCollect_eq_ok (h : parseMqttCollect p = .ok u) :
    (∃ topic, get p "topic" = some (.str topic)) ∧ (∃ pattern, get p "expect_regex" = some (.str pattern)) ∧
      IntParam p "within_sec" ∧
      ((∃ host port, get p "host" = some (.str host) ∧ get p "port" = some (.int port) ∧ 1 ≤ port) ∨
        isNull (getD p "host" .null) = true ∧ isNull (getD p "port" .null) = true) := by
  simp only [parseMqttCollect, bind_eq_ok, require_eq_ok] at h
  obtain ⟨_, htopic, _, hpattern, _, hwithin, _, hhost, _, hport, hboth⟩ := h
  refine ⟨get_filled htopic, get_filled hpattern, intParam_of_optionalInt hwithin, ?_⟩
  cases hnull : isNull (getD p "host" .null) with
  | true =>
    rw [hnull] at hboth
    exact .inr ⟨rfl, (beq_iff_eq.1 hboth).symm⟩
  | false =>
    rw [hnull] at hboth hhost
    have hport' : isNull (getD p "port" .null) = false := (beq_iff_eq.1 hboth).symm
    rw [hport'] at hport
    refine .inl ?_
    unfold getD at hhost hport
    rcases hgetHost : get p "host" with _ | host
    · rw [hgetHost] at hhost
      cases hhost
    rcases hgetPort : get p "port" with _ | port
    · rw [hgetPort] at hport
      cases hport
    rw [hgetHost] at hhost
    rw [hgetPort] at hport
    cases host with
    | str host =>
      cases port with
      | int port =>
        simp only [Option.getD_some, inRange, Yaml.int?, Option.any_some, Bool.false_or, Bool.and_eq_true,
          decide_eq_true_eq] at hport
        exact ⟨host, port, rfl, rfl, hport.1⟩
      | _ => cases hport
    | _ => cases hhost

/-- The broker is opened as it is declared, or else as the environment says. -/
private theorem openBroker_eq (world : World) (h : parseMqttCollect p = .ok u)
    (hhost : ∀ host, get p "host" = some (.str host) → host ≠ [] ∧ lib.takesHost host = true) :
    brokerOf world p = .error .environment ∧ broker lib world p = none ∨
      ∃ parts, brokerOf world p = .ok parts ∧ openBroker lib parts = raise .environment (broker lib world p) := by
  obtain ⟨-, -, -, hbroker⟩ := parseMqttCollect_eq_ok h
  rcases hbroker with ⟨host, port, hgetHost, hgetPort, hpos⟩ | ⟨hnullHost, hnullPort⟩
  · obtain ⟨hne, htakesHost⟩ := hhost host hgetHost
    have hgivenHost := given_of_get hgetHost (by cases host <;> simp_all [Yaml.truthy])
    have hgivenPort := given_of_get hgetPort (by simp [Yaml.truthy]; omega)
    refine .inr ⟨(.inl (.str host), .inl (.int port)), ?_, ?_⟩
    · simp only [brokerOf, hgivenHost, hgivenPort, Option.map_some, Option.some_or, raise, ok_bind]
      rfl
    · have hport : own (lib.toPython.int (.int port)) = .ok port := rfl
      simp only [openBroker, Sum.elim_inl, own_str, hport, ok_bind, htakesHost, ensure, if_true, broker, hgetHost, hgetPort,
        raise]
      rfl
  · have hbroker : broker lib world p = do
        let host ← world.envHost.filter lib.takesHost
        let port ← world.envPort.join
        return (host, port) := by
      unfold broker
      split
      · rename_i hgetHost _
        rw [getD_of_get hgetHost] at hnullHost
        cases hnullHost
      · rfl
    rw [hbroker]
    simp only [brokerOf, given_null hnullHost, given_null hnullPort, hnullHost, hnullPort, Option.map_none,
      Option.none_or]
    cases world.envHost with
    | none => exact .inl ⟨rfl, rfl⟩
    | some host =>
      cases world.envPort with
      | none =>
        refine .inl ⟨rfl, ?_⟩
        cases htakes : lib.takesHost host <;> simp [Option.filter_some, htakes]
      | some port =>
        refine .inr ⟨(.inr host, .inr port), rfl, ?_⟩
        simp only [openBroker, Sum.elim_inr, ok_bind]
        cases port with
        | none => cases lib.takesHost host <;> simp [raise, error_bind]
        | some port =>
          cases htakes : lib.takesHost host <;>
            simp [Option.filter_some, htakes, raise, ok_bind, error_bind, ensure, pure_eq]

private theorem checkMqttCollect_eq {topic pattern : Text} (h : parseMqttCollect p = .ok u)
    (htopic : get p "topic" = some (.str topic)) (hpattern : get p "expect_regex" = some (.str pattern))
    (hcompile : lib.compile pattern = .ok ()) (htakes : lib.takesTopic topic = true)
    (hhost : ∀ host, get p "host" = some (.str host) → host ≠ [] ∧ lib.takesHost host = true) :
    checkMqttCollect lib world p = (raise .environment (broker lib world p)).map fun address =>
      (world.messages address.1 address.2 topic (intOr p "within_sec" 60)).any (lib.search pattern) := by
  obtain ⟨-, -, hwithin, -⟩ := parseMqttCollect_eq_ok h
  have hread : own (lib.compile pattern) = .ok () := by
    rw [hcompile]
    rfl
  rcases openBroker_eq world h hhost with ⟨hnone, hbroker⟩ | ⟨parts, hparts, hopen⟩
  · rw [checkMqttCollect, hnone, hbroker]
    rfl
  · simp only [checkMqttCollect, hparts, hpattern, raise, ok_bind, own_str, hread, seconds_param hwithin, hopen, htopic,
      htakes]
    cases broker lib world p with
    | none => rfl
    | some address => rfl

private theorem checkMqttCollect_spec (h : parseMqttCollect p = .ok u)
    (hcompile : ∀ pattern, get p "expect_regex" = some (.str pattern) → lib.compile pattern = .ok ())
    (hhost : ∀ host, get p "host" = some (.str host) → host ≠ [] ∧ lib.takesHost host = true)
    (htopic : ∀ topic, get p "topic" = some (.str topic) → lib.takesTopic topic = true) :
    checkMqttCollect lib world p ≠ .error .own ∧ (checkMqttCollect lib world p = .ok true ↔ MessageAgrees lib world p) := by
  obtain ⟨⟨topic, hgetTopic⟩, ⟨pattern, hgetPattern⟩, -, -⟩ := parseMqttCollect_eq_ok h
  rw [checkMqttCollect_eq h hgetTopic hgetPattern (hcompile pattern hgetPattern) (htopic topic hgetTopic) hhost]
  have hagrees : MessageAgrees lib world p ↔ ∃ address, broker lib world p = some address ∧
      (world.messages address.1 address.2 topic (intOr p "within_sec" 60)).any (lib.search pattern) = true := by
    constructor
    · rintro ⟨host, port, topic', pattern', hbroker, htopic', hpattern', hmessage⟩
      cases hgetTopic.symm.trans htopic'
      cases hgetPattern.symm.trans hpattern'
      exact ⟨(host, port), hbroker, List.any_eq_true.2 hmessage⟩
    · rintro ⟨⟨host, port⟩, hbroker, hany⟩
      exact ⟨host, port, topic, pattern, hbroker, hgetTopic, hgetPattern, List.any_eq_true.1 hany⟩
  rw [hagrees]
  cases broker lib world p with
  | none => simp [raise, Except.map]
  | some address => simp [raise, Except.map]

/-! ### The worlds in which the two differ -/

/-- A world where nothing is found and the environment names a broker. -/
def idle (names : List Yaml) : World where
  boot _ _ := []
  echo := []
  file _ := some []
  assets := names.map fun name => (name, [])
  i2c _ _ := [0]
  onewire _ := []
  transcript := "INVENTORY: \x7b\x7d".toList
  envHost := some "localhost".toList
  envPort := some (some 1)
  messages _ _ _ _ := []

private theorem idle_wellFormed (names : List Yaml) : (idle names).WellFormed names where
  assets := by simp [idle, Function.comp_def]
  roms _ _ hrom := absurd hrom List.not_mem_nil

/-- The board has the file, and so has the asset that is declared; the other assets are empty. -/
def deployed (lib : Libraries) (names : List Yaml) (ref : Yaml) : World :=
  { idle names with
    file := fun _ => some [0]
    assets := names.map fun name => (name, if lib.eq name ref then [0] else []) }

private theorem deployed_wellFormed (lib : Libraries) (names : List Yaml) (ref : Yaml) :
    (deployed lib names ref).WellFormed names where
  assets := by simp [deployed, Function.comp_def]
  roms _ _ hrom := absurd hrom List.not_mem_nil

/-- A declared asset is found by its own name. -/
private theorem assetNamed_deployed {ref : Yaml} (h : names.any (fun name => lib.eq name ref) = true) :
    assetNamed lib (deployed lib names ref) ref = some [0] := by
  unfold assetNamed deployed
  rw [List.find?_map, Option.map_map]
  obtain ⟨name, hfind⟩ := Option.isSome_iff_exists.1 (List.find?_isSome.2 (List.any_eq_true.1 h))
  have heq := List.find?_some hfind
  have hfind' : names.find? ((fun asset : Yaml × Bytes => lib.eq asset.1 ref) ∘
      fun name => (name, if lib.eq name ref then [0] else [])) = some name := hfind
  rw [hfind', Option.map_some]
  exact congrArg some (if_pos heq)

/-- No string finds an asset that has no string for a name. -/
private theorem assetNamed_str_deployed (lib : Libraries) (names : List Yaml) {ref : Yaml} (h : isString ref = false)
    (s : Text) :
    assetNamed lib (deployed lib names ref) (.str s) ≠ some [0] := by
  intro hfound
  obtain ⟨⟨name, bytes⟩, hfind, hbytes⟩ := Option.map_eq_some_iff.1 hfound
  obtain ⟨name', -, heq⟩ := List.mem_map.1 (List.mem_of_find?_eq_some hfind)
  cases heq
  have heq := List.find?_some hfind
  obtain rfl := (lib.eq_str name s).1 heq
  have hne : lib.eq (.str s) ref = false := by
    rw [lib.eq_comm, Bool.eq_false_iff]
    intro hstr
    rw [(lib.eq_str _ _).1 hstr] at h
    cases h
  rw [hne] at hbytes
  cases hbytes

private theorem checkDeviceFile_differs {ref : Yaml} (h : parseDeviceFile p = .ok u) (hget : get p "asset" = some ref)
    (hdeclared : names.any (fun name => lib.eq name ref) = true) (hstring : isString ref = false) :
    checkDeviceFile lib (deployed lib names ref) p ≠ .ok true ∧
      ∃ content, FileAgrees lib (deployed lib names ref) p content := by
  obtain ⟨⟨path, hpath⟩, hone, -⟩ := parseDeviceFile_eq_ok h
  have hfile : (deployed lib names ref).file path = some [0] := rfl
  have hnone : get p "contains" = none := by
    rw [has, has, hget] at hone
    simpa using hone
  constructor
  · simp only [checkDeviceFile, hpath, raise, ok_bind, own_str, hfile, hget]
    cases lib.str ref with
    | error e => exact nofun
    | ok name =>
      have hother := assetNamed_str_deployed lib names hstring name
      simp only [own, Except.mapError, ok_bind]
      cases hbytes : assetNamed lib (deployed lib names ref) (.str name) with
      | none => simp [pure_eq]
      | some expected =>
        rw [hbytes] at hother
        simp only [pure_eq, ne_eq, Except.ok.injEq, beq_iff_eq]
        rintro rfl
        exact hother rfl
  · rw [fileAgrees_iff hpath hfile]
    constructor
    · intro ref' hget'
      cases hget.symm.trans hget'
      exact assetNamed_deployed hdeclared
    · intro pattern hpattern
      cases hnone.symm.trans hpattern

private theorem own_error {x : Except Tasks.Kind Unit} (h : x ≠ .ok ()) : own x = .error .own := by
  cases x with
  | error e => rfl
  | ok u => exact absurd rfl h

private theorem checkDeviceFile_error {pattern : Text} (h : parseDeviceFile p = .ok u)
    (hget : get p "contains" = some (.str pattern)) (hcompile : lib.compile pattern ≠ .ok ()) :
    checkDeviceFile lib (idle names) p = .error .own := by
  obtain ⟨⟨path, hpath⟩, hone, -⟩ := parseDeviceFile_eq_ok h
  have hasset : get p "asset" = none := by
    rw [has, has, hget] at hone
    simpa using hone
  simp only [checkDeviceFile, hpath, raise, ok_bind, own_str, hasset, getD_of_get hget, own_error hcompile]
  rfl

/-- The report in the idle world is the empty object. -/
private theorem inventory_idle (lib : Libraries) (names : List Yaml) :
    inventory lib (idle names).transcript = .ok (some []) := by
  obtain ⟨nesting, hnesting⟩ := Nat.exists_eq_add_one_of_ne_zero (Nat.pos_iff_ne_zero.1 lib.nesting_pos)
  have hloads : loads lib.json "\x7b\x7d".toList = .ok (.obj []) := by
    unfold loads
    rw [hnesting]
    rfl
  have hgroup : (inventories 0 "INVENTORY: \x7b\x7d".toList).getLast? = some "\x7b\x7d".toList := by decide
  have htranscript : (idle names).transcript = "INVENTORY: \x7b\x7d".toList := rfl
  rw [inventory, htranscript, hgroup]
  simp only [hloads]

private theorem checkInventoryMatch_differs (lib : Libraries) (h : parseInventoryMatch p = .ok u)
    (hi2c : has p "i2c" = false) :
    checkInventoryMatch lib (idle names) p ≠ .ok true ∧
      ∃ reported, inventory lib (idle names).transcript = .ok (some reported) ∧
        ReportAgrees lib (idle names) p reported := by
  have hnone : get p "i2c" = none := by simpa [has] using hi2c
  have hreport := inventory_idle lib names
  refine ⟨?_, [], hreport, ?_⟩
  · rw [Ne, (checkInventoryMatch_object lib (idle_wellFormed names) h hreport).2]
    rintro ⟨hcompared, -⟩
    obtain ⟨got, addresses, hlookup, -⟩ := hcompared (by rw [getD, hnone]; rfl)
    cases hlookup
  · constructor
    · intro hdeclared
      cases hnone.symm.trans hdeclared
    · exact fun _ => rfl

private theorem checkMqttCollect_error_compile {pattern : Text} (hget : get p "expect_regex" = some (.str pattern))
    (hcompile : lib.compile pattern ≠ .ok ()) : checkMqttCollect lib (idle names) p = .error .own := by
  obtain ⟨parts, hparts⟩ : ∃ parts, brokerOf (idle names) p = .ok parts := by
    unfold brokerOf
    cases given p "host" <;> cases given p "port" <;> exact ⟨_, rfl⟩
  simp only [checkMqttCollect, hparts, ok_bind, hget, raise, own_str, own_error hcompile]
  rfl

private theorem checkMqttCollect_error_host (hget : get p "host" = some (.str [])) :
    checkMqttCollect lib { idle names with envHost := none } p = .error .own := by
  have hgiven : given p "host" = none := by
    rw [given, hget]
    rfl
  have hbroker : brokerOf { idle names with envHost := none } p = .error .own := by
    simp only [brokerOf, hgiven, getD_of_get hget]
    rfl
  rw [checkMqttCollect, hbroker]
  rfl

private theorem checkMqttCollect_error_open {host : Text} (h : parseMqttCollect p = .ok u)
    (hget : get p "host" = some (.str host)) (hne : host ≠ []) (htakes : lib.takesHost host = false) :
    checkMqttCollect lib (idle names) p = .error .own := by
  obtain ⟨-, ⟨pattern, hpattern⟩, hwithin, hbroker⟩ := parseMqttCollect_eq_ok h
  by_cases hcompile : lib.compile pattern = .ok ()
  · have hread : own (lib.compile pattern) = .ok () := by
      rw [hcompile]
      rfl
    rcases hbroker with ⟨host', port, hgetHost, hgetPort, hpos⟩ | ⟨hnull, -⟩
    · cases hget.symm.trans hgetHost
      have hgivenHost := given_of_get hgetHost (by cases host <;> simp_all [Yaml.truthy])
      have hgivenPort := given_of_get hgetPort (by simp [Yaml.truthy]; omega)
      have hparts : brokerOf (idle names) p = .ok (.inl (.str host), .inl (.int port)) := by
        simp only [brokerOf, hgivenHost, hgivenPort, Option.map_some, Option.some_or, raise, ok_bind]
        rfl
      have hport : own (lib.toPython.int (.int port)) = .ok port := rfl
      have hopen : openBroker lib (.inl (.str host), .inl (.int port)) = .error .own := by
        simp only [openBroker, Sum.elim_inl, own_str, hport, ok_bind, htakes]
        rfl
      simp only [checkMqttCollect, hparts, hpattern, raise, ok_bind, own_str, hread, seconds_param hwithin, hopen]
      rfl
    · rw [getD_of_get hget] at hnull
      cases hnull
  · exact checkMqttCollect_error_compile hpattern hcompile

private theorem checkMqttCollect_error_topic {topic : Text} (h : parseMqttCollect p = .ok u)
    (hhost : ∀ host, get p "host" = some (.str host) → host ≠ [] ∧ lib.takesHost host = true)
    (hget : get p "topic" = some (.str topic)) (htakes : lib.takesTopic topic = false) :
    checkMqttCollect lib (idle names) p = .error .own := by
  obtain ⟨-, ⟨pattern, hpattern⟩, hwithin, -⟩ := parseMqttCollect_eq_ok h
  by_cases hcompile : lib.compile pattern = .ok ()
  · have hread : own (lib.compile pattern) = .ok () := by
      rw [hcompile]
      rfl
    obtain ⟨address, haddress⟩ : ∃ address, broker lib (idle names) p = some address := by
      unfold broker
      split
      · exact ⟨_, rfl⟩
      · refine ⟨("localhost".toList, 1), ?_⟩
        rw [idle, Option.filter_some, if_pos lib.takesHost_localhost]
        rfl
    rcases openBroker_eq (idle names) h hhost with ⟨-, hnone⟩ | ⟨parts, hparts, hopen⟩
    · cases haddress.symm.trans hnone
    · rw [haddress] at hopen
      simp only [checkMqttCollect, hparts, hpattern, raise, ok_bind, own_str, hread, seconds_param hwithin, hopen, hget,
        htakes]
      rfl
  · exact checkMqttCollect_error_compile hpattern hcompile

/-! ### The judge against the loader -/

private theorem faithful_iff {outcome : CheckOutcome} (h : outcome = outcomeOf lib world check) :
    Faithful lib world check outcome ↔
      runCheck lib world check ≠ .error .own ∧ (runCheck lib world check = .ok true ↔ Declared lib world check) := by
  subst h
  unfold outcomeOf
  cases hrun : runCheck lib world check with
  | error cause =>
    constructor
    · rintro ⟨hnoError, hfacts⟩
      exact ⟨fun heq => hnoError (congrArg some (Except.error.inj heq)), by simpa using hfacts⟩
    · rintro ⟨hnoError, hfacts⟩
      exact ⟨fun heq => hnoError (congrArg Except.error (Option.some.inj heq)), by simpa using hfacts⟩
  | ok passed =>
    constructor
    · rintro ⟨-, hfacts⟩
      exact ⟨nofun, by simpa using hfacts⟩
    · rintro ⟨-, hfacts⟩
      exact ⟨nofun, by simpa using hfacts⟩

theorem sound_iff : Sound lib names check ↔ ∀ world : World, world.WellFormed names →
    runCheck lib world check ≠ .error .own ∧ (runCheck lib world check = .ok true ↔ Declared lib world check) :=
  forall₂_congr fun _ _ => faithful_iff rfl

/-- A check that ends without an exception is right where its outcome is. -/
private theorem Sound.of_spec (h : ∀ world : World, world.WellFormed names →
    ∃ passed, runCheck lib world check = .ok passed ∧ (passed = true ↔ Declared lib world check)) :
    Sound lib names check := by
  rw [sound_iff]
  intro world hworld
  obtain ⟨passed, hrun, hiff⟩ := h world hworld
  rw [hrun, ← hiff]
  exact ⟨nofun, by simp only [Except.ok.injEq]⟩

private theorem sound_inventory (h : parseInventoryMatch p = .ok u) (hi2c : has p "i2c" = true) :
    Sound lib names ⟨.inventoryMatch, p⟩ := by
  obtain ⟨-, hbool, -, -⟩ := parseInventoryMatch_eq_ok h
  have hdefault : getD p "i2c" (.bool true) = getD p "i2c" (.bool false) := by
    obtain ⟨value, hget⟩ := Option.isSome_iff_exists.1 hi2c
    rw [getD_of_get hget, getD_of_get hget]
  have hwanted : (getD p "i2c" (.bool true)).truthy = true ↔ Declares p "i2c" := by
    rw [hdefault]
    exact declares_iff _ hbool rfl
  rw [sound_iff]
  intro world hworld
  by_cases hobject : ∃ reported, inventory lib world.transcript = .ok (some reported)
  · obtain ⟨reported, hreport⟩ := hobject
    obtain ⟨hnoError, hspec⟩ := checkInventoryMatch_object lib hworld h hreport
    refine ⟨hnoError, ?_⟩
    rw [hwanted] at hspec
    rw [runCheck, hspec, Declared]
    constructor
    · rintro ⟨hcompared, hfamily⟩
      exact ⟨reported, hreport, hcompared, hfamily⟩
    · rintro ⟨reported', hreport', hcompared, hfamily⟩
      cases hreport.symm.trans hreport'
      exact ⟨hcompared, hfamily⟩
  · obtain ⟨hnoError, hfails⟩ := checkInventoryMatch_other lib p (not_exists.1 hobject)
    refine ⟨hnoError, fun hpassed => absurd hpassed hfails, ?_⟩
    rintro ⟨reported, hreport, -⟩
    exact absurd ⟨reported, hreport⟩ hobject

private theorem sound_of_agreed (h : parseParams check.kind check.params = .ok u) (hagreed : Agreed lib check) :
    Sound lib names check := by
  obtain ⟨kind, p⟩ := check
  cases kind with
  | bootExpect => exact .of_spec fun world _ => checkBootExpect_spec h
  | deviceFile => exact .of_spec fun world _ => checkDeviceFile_spec h hagreed.1 hagreed.2
  | busScan => exact .of_spec fun world hworld => checkBusScan_spec hworld h
  | inventoryMatch => exact sound_inventory h hagreed
  | mqttCollect =>
    obtain ⟨hcompile, hhost, htopic⟩ := hagreed
    exact sound_iff.2 fun world _ => checkMqttCollect_spec h hcompile hhost htopic

private theorem agreed_of_sound (h : parseParams check.kind check.params = .ok u)
    (hdeclared : ∀ ref, get check.params "asset" = some ref → names.any (fun name => lib.eq name ref) = true)
    (hsound : Sound lib names check) : Agreed lib check := by
  obtain ⟨kind, p⟩ := check
  rw [sound_iff] at hsound
  have hnoError := (hsound (idle names) (idle_wellFormed names)).1
  cases kind with
  | bootExpect => trivial
  | deviceFile =>
    constructor
    · intro ref hget
      by_contra hstring
      obtain ⟨hfails, hfile⟩ := checkDeviceFile_differs h hget (hdeclared ref hget) (Bool.eq_false_iff.2 hstring)
      exact hfails ((hsound _ (deployed_wellFormed lib names ref)).2.2 hfile)
    · intro pattern hget
      by_contra hcompile
      exact hnoError (checkDeviceFile_error h hget hcompile)
  | busScan => trivial
  | inventoryMatch =>
    by_contra hi2c
    obtain ⟨hfails, hfacts⟩ := checkInventoryMatch_differs lib h (Bool.eq_false_iff.2 hi2c)
    exact hfails ((hsound (idle names) (idle_wellFormed names)).2.2 hfacts)
  | mqttCollect =>
    have hhost : ∀ host, get p "host" = some (.str host) → host ≠ [] ∧ lib.takesHost host = true := by
      intro host hget
      have hne : host ≠ [] := by
        rintro rfl
        exact (hsound { idle names with envHost := none } ⟨(idle_wellFormed names).assets, (idle_wellFormed names).roms⟩).1
          (checkMqttCollect_error_host hget)
      refine ⟨hne, ?_⟩
      by_contra htakes
      exact hnoError (checkMqttCollect_error_open h hget hne (Bool.eq_false_iff.2 htakes))
    refine ⟨?_, hhost, ?_⟩
    · intro pattern hget
      by_contra hcompile
      exact hnoError (checkMqttCollect_error_compile hget hcompile)
    · intro topic hget
      by_contra htakes
      exact hnoError (checkMqttCollect_error_topic h hhost hget (Bool.eq_false_iff.2 htakes))

theorem mem_of_mapM {A B : Type} {f : A → Loads B} {xs : List A} {ys : List B} (h : xs.mapM f = .ok ys) :
    ∀ y ∈ ys, ∃ x ∈ xs, f x = .ok y := by
  induction xs generalizing ys with
  | nil =>
    cases h
    exact fun y hmem => absurd hmem List.not_mem_nil
  | cons x xs ih =>
    rw [List.mapM_cons, bind_eq_ok] at h
    obtain ⟨y, hx, h⟩ := h
    rw [bind_eq_ok] at h
    obtain ⟨ys', hxs, h⟩ := h
    obtain rfl := pure_eq_ok.1 h
    refine List.forall_mem_cons.2 ⟨⟨x, List.mem_cons_self, hx⟩, fun y hy => ?_⟩
    obtain ⟨x', hmem, hx'⟩ := ih hxs y hy
    exact ⟨x', List.mem_cons_of_mem _ hmem, hx'⟩

private theorem parseParams_of_parseCheck {entry : Yaml} (h : parseCheck entry = .ok check) :
    parseParams check.kind check.params = .ok () := by
  unfold parseCheck at h
  split at h
  · simp only [bind_eq_ok, pure_eq_ok] at h
    obtain ⟨kind, -, params, -, _, -, _, hparams, rfl⟩ := h
    exact hparams
  · cases h

/-- The loader has accepted the parameters of every check, and its asset is declared. -/
theorem parseParams_of_loadJudge {declared : Yaml → Bool} {raw : Yaml} {checks : List OpsCheck}
    (h : loadJudge declared raw = .ok checks) :
    ∀ check ∈ checks, parseParams check.kind check.params = .ok () ∧
      ∀ ref, get check.params "asset" = some ref → declared ref = true := by
  simp only [loadJudge, bind_eq_ok, require_eq_ok, pure_eq_ok] at h
  obtain ⟨parsed, hparse, -, hdeclared, rfl⟩ := h
  intro check hmem
  constructor
  · unfold parseChecks at hparse
    split at hparse
    · obtain ⟨entry, -, hentry⟩ := mem_of_mapM hparse check hmem
      exact parseParams_of_parseCheck hentry
    · cases hparse
  · intro ref hget
    have hall := List.all_eq_true.1 hdeclared check hmem
    rw [hget] at hall
    exact hall

/-- The outcomes of a run are right where they are right check by check. -/
private theorem forall₂_run_iff {checks : List OpsCheck} :
    List.Forall₂ (Faithful lib world) checks (run lib world checks).2 ↔
      ∀ check ∈ checks, Faithful lib world check (outcomeOf lib world check) := by
  rw [run, List.forall₂_map_right_iff, List.forall₂_same]

/-- The judge checks what the loader has accepted exactly where both read the parameters in the same way. -/
theorem judge_checks_loaded_iff (lib : Libraries) (names : List Yaml) (raw : Yaml)
    (checks : List OpsCheck) (h : loadJudge (fun ref => names.any fun name => lib.eq name ref) raw = .ok checks) :
    (∀ world : World, world.WellFormed names → List.Forall₂ (Faithful lib world) checks (run lib world checks).2) ↔
      ∀ check ∈ checks, Agreed lib check := by
  have hloaded := parseParams_of_loadJudge h
  constructor
  · intro hfaithful check hmem
    obtain ⟨hparams, hdeclared⟩ := hloaded check hmem
    exact agreed_of_sound hparams hdeclared fun world hworld => forall₂_run_iff.1 (hfaithful world hworld) check hmem
  · intro hagreed world hworld
    rw [forall₂_run_iff]
    intro check hmem
    exact sound_of_agreed (hloaded check hmem).1 (hagreed check hmem) world hworld

/-- Strings are the only values that are equal here. -/
def textEquality : Tasks.Equality where
  eq
    | .str s, .str s' => s = s'
    | _, _ => false
  eq_str v s := by cases v <;> simp
  eq_comm v w := by cases v <;> cases w <;> simp [eq_comm]

/-- Patterns are searched as plain texts. -/
def plainLibraries : Libraries where
  toPython := Tasks.plainPython
  toEquality := textEquality
  search pattern text := occurs pattern text
  takesHost host := !host.isEmpty
  takesHost_localhost := rfl
  takesTopic topic := !topic.isEmpty
  json := ⟨fun _ => none, fun _ => none, .finite, 1000⟩
  nesting_pos := by decide

/-- A file that is to be the asset `app`, and a scan of both buses. -/
def fileAndBuses : List OpsCheck :=
  [⟨.deviceFile, [(.str "path".toList, .str "/main.py".toList), (.str "asset".toList, .str "app".toList)]⟩,
    ⟨.inventoryMatch, [(.str "i2c".toList, .bool true), (.str "onewire".toList, .bool true)]⟩]

theorem judge_checks_loaded_iff_both :
    let raw := Yaml.list (fileAndBuses.map fun check => .dict [(.str check.kind.name.toList, .dict check.params)])
    let names := [Yaml.str "app".toList]
    loadJudge (fun ref => names.any fun name => plainLibraries.eq name ref) raw = .ok fileAndBuses ∧
      ∀ world : World, world.WellFormed names →
        List.Forall₂ (Faithful plainLibraries world) fileAndBuses (run plainLibraries world fileAndBuses).2 := by
  intro raw names
  refine ⟨by rfl, (judge_checks_loaded_iff plainLibraries names raw fileAndBuses (by rfl)).2 ?_⟩
  intro check hmem
  rcases List.mem_cons.1 hmem with rfl | hmem
  · exact ⟨by rintro ref ⟨⟩; rfl, nofun⟩
  · obtain rfl := List.mem_singleton.1 hmem
    rfl

/-- A check of the one-wire family alone. -/
def onewireOnly : Yaml :=
  .list [.dict [(.str "inventory_match".toList, .dict [(.str "onewire".toList, .bool true)])]]

/-- The loader takes `i2c` to be false where it is missing, the judge takes it to be true. -/
theorem judge_compares_undeclared :
    ¬ ∀ (lib : Libraries) (names : List Yaml) (raw : Yaml) (checks : List OpsCheck),
      loadJudge (fun ref => names.any fun name => lib.eq name ref) raw = .ok checks →
        ∀ world : World, world.WellFormed names →
          List.Forall₂ (Faithful lib world) checks (run lib world checks).2 := by
  intro hclaim
  have hfaithful := hclaim plainLibraries [] onewireOnly
    [⟨.inventoryMatch, [(.str "onewire".toList, .bool true)]⟩] rfl
  have hagreed := agreed_of_sound (u := ()) rfl (by rintro ref ⟨⟩) fun world hworld =>
    forall₂_run_iff.1 (hfaithful world hworld) _ List.mem_cons_self
  cases hagreed

end IronHarness.Ops.Checks
