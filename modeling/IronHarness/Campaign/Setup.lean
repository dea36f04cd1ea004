import IronHarness.Campaign.Coverage

/-!
# The setup steps of an attempt

The harness journals every setup step of a task in `harness.jsonl`; flashing and erasing journal the event of their
operation too.  The coverage of an attempt counts that file, so it depends on the setup: two attempts whose agents do
the same have the same coverage exactly when their setups are counted alike or both cover all that was declared
(`coverage_noninterference_iff`).
-/

namespace IronHarness.Campaign

open ByteText JsonLines JsonText
open Journal (Event)

variable {F : Type} [JsonFloat F]

/-! ### Steps -/

inductive OpsStep
  | wipeFlash
  | flashAsset (asset : String)
  | deployFile (asset target : String)
  | removeFile (path : String)
  deriving DecidableEq, Repr

def OpsStep.kind : OpsStep → String
  | .wipeFlash => "wipe_flash"
  | .flashAsset _ => "flash_asset"
  | .deployFile _ _ => "deploy_file"
  | .removeFile _ => "remove_file"

def OpsStep.params : OpsStep → Fields F
  | .wipeFlash => []
  | .flashAsset asset => [("asset", .str asset)]
  | .deployFile asset target => [("asset", .str asset), ("target", .str target)]
  | .removeFile path => [("path", .str path)]

/-- A file of the task: its path, the last component of it, and its bytes. -/
structure AssetFile where
  path : String
  name : String
  data : Bytes

/-- What `_run_step` returns. -/
def OpsStep.note (assets : String → AssetFile) : OpsStep → String
  | .wipeFlash => "flash erased"
  | .flashAsset asset => "flashed " ++ (assets asset).name
  | .deployFile asset target => "deployed " ++ target ++ " (" ++ toString (assets asset).data.length ++ "B)"
  | .removeFile path => "removed " ++ path

/-! ### The journal of the harness -/

omit [JsonFloat F] in
private theorem OpsStep.params_nodup (step : OpsStep) (i : Nat) :
    (Value.obj (F := F) ([("index", .int i), ("kind", .str step.kind)] ++ step.params)).keysNodup := by
  cases step <;> simp [OpsStep.params, Value.keysNodup, Value.keysNodup.fieldsNodup]

/-- `{"index": i, "kind": step.kind, **step.params}` -/
def startData (i : Nat) (step : OpsStep) : Event F :=
  ⟨[("index", .int i), ("kind", .str step.kind)] ++ step.params, step.params_nodup i⟩

def doneData (i : Nat) (note : String) : Event F :=
  ⟨[("index", .int i), ("result", .str note)], by simp [Value.keysNodup, Value.keysNodup.fieldsNodup]⟩

/-- The success event of `EspFlasher.erase`. -/
def eraseData (port : String) : Event F :=
  ⟨[("port", .str port), ("baud", .int 921600)], by simp [Value.keysNodup, Value.keysNodup.fieldsNodup]⟩

/-- The success event of `EspFlasher.flash`. -/
def flashData (port path : String) : Event F :=
  ⟨[("port", .str port), ("addr", .int 0x1000), ("baud", .int 921600), ("path", .str path)], by
    simp [Value.keysNodup, Value.keysNodup.fieldsNodup]⟩

/-- What the operation of a step journals itself. -/
def stepEvents (port : String) (assets : String → AssetFile) : OpsStep → List (String × Event F)
  | .wipeFlash => [("esp_erase", eraseData port)]
  | .flashAsset asset => [("esp_flash", flashData port (assets asset).path)]
  | .deployFile _ _ => []
  | .removeFile _ => []

/-- What `run_steps` journals in the setup phase from step `i` on, when the steps succeed. -/
def setupEvents (port : String) (assets : String → AssetFile) : Nat → List OpsStep → List (String × Event F)
  | _, [] => []
  | i, step :: steps =>
    ("harness_step_setup", startData i step) :: (stepEvents port assets step ++
      (("harness_step_setup_done", doneData i (step.note assets)) :: setupEvents port assets (i + 1) steps))

/-- The steps whose operation journals an event of a counted kind. -/
def OpsStep.isFlash : OpsStep → Bool
  | .wipeFlash | .flashAsset _ => true
  | .deployFile _ _ | .removeFile _ => false

omit [JsonFloat F] in
private theorem setupEvents_count (port : String) (assets : String → AssetFile) (i : Nat) (steps : List OpsStep) :
    (setupEvents (F := F) port assets i steps).countP (fun e => journaledKinds.contains e.1) =
      steps.countP OpsStep.isFlash := by
  induction steps generalizing i with
  | nil => rfl
  | cons step steps ih =>
    have hstart : journaledKinds.contains "harness_step_setup" = false := by decide
    have hdone : journaledKinds.contains "harness_step_setup_done" = false := by decide
    have hstep : (stepEvents (F := F) port assets step).countP (fun e => journaledKinds.contains e.1) =
        if step.isFlash then 1 else 0 := by
      cases step <;> rfl
    rw [setupEvents, List.countP_cons, List.countP_append, List.countP_cons, ih, hstep, hstart, hdone, List.countP_cons]
    simp only [Bool.false_eq_true, if_false]
    omega

/-! ### An attempt -/

inductive Arm
  | bare
  | mcp
  deriving DecidableEq, Repr

/-- The matches of a literal, one behind the other; the number is what is left of the last match. -/
def countLiteral (literal : List Char) : Nat → List Char → Nat
  | _, [] => 0
  | n + 1, _ :: r => countLiteral literal n r
  | 0, c :: r =>
    if literal.isPrefixOf (c :: r) then countLiteral literal (literal.length - 1) r + 1 else countLiteral literal 0 r

/-- The matches of a literal between word boundaries; `before` says whether a word character stands in front. -/
def countWord (isWord : Char → Bool) (word : List Char) : Bool → List Char → Nat
  | _, [] => 0
  | before, c :: r =>
    let hit := !before && word.isPrefixOf (c :: r) && !(((c :: r).drop word.length).head?.any isWord)
    countWord isWord word (isWord c) r + if hit then 1 else 0

/-- `count_script_ops`; `isWord` is the class of word characters of the regular expressions. -/
def countScriptOps (isWord : Char → Bool) (scripts : List (List Char)) : Nat :=
  (scripts.map fun script =>
    countLiteral "serial.Serial(".toList 0 script + countWord isWord "esptool".toList false script).sum

def scripts (turns : List Turn) : List (List Char) :=
  turns.filterMap fun
    | .script code => some code
    | _ => none

def declaredOps (isWord : Char → Bool) (turns : List Turn) : Arm → Nat
  | .bare => countScriptOps isWord (scripts turns)
  | .mcp => countToolOps turns

/-- The journals of an attempt, of the harness and of the server the agent talks to. -/
def journalPaths (harness server : Option Bytes) : Arm → List (Option Bytes)
  | .bare => [harness]
  | .mcp => [harness, server]

/-- `run_dir / "harness.jsonl"` -/
def harnessJournal : Journal.Config := ⟨"harness.jsonl", 32 * 1024 * 1024, 5⟩

/-- The coverage that `run_ops_attempt` reports; `setup` is what the harness has journaled before the agent starts. -/
def attemptCoverage (isWord : Char → Bool) (arm : Arm) (turns : List Turn) (server : Option Bytes)
    (setup : List (Journal.Call F)) : Option ℚ :=
  (journalCoverage F (declaredOps isWord turns arm)
    (journalPaths (Journal.liveFile harnessJournal "ops-run" setup) server arm)).1

/-- The setup of an attempt, whose steps have succeeded. -/
structure Setup (F : Type) [JsonFloat F] where
  port : String
  assets : String → AssetFile
  steps : List OpsStep
  calls : List (Journal.Call F)
  journaled : calls.map (fun c => (c.kind, c.data)) = setupEvents port assets 0 steps

/-- The events of the setup that are counted. -/
def Setup.ops (s : Setup F) : Nat := (Journal.liveEvents harnessJournal "ops-run" s.calls).countP isCounted

/-- What the journal of the server counts for. -/
def serverOps (F : Type) [JsonFloat F] (server : Option Bytes) : Arm → Nat
  | .bare => 0
  | .mcp => (countJournalOps F [server]).1

private theorem attempt_ops (arm : Arm) (server : Option Bytes) (s : Setup F) :
    (countJournalOps F (journalPaths (Journal.liveFile harnessJournal "ops-run" s.calls) server arm)).1 =
      s.ops + serverOps F server arm := by
  have hharness : (countJournalOps F [Journal.liveFile harnessJournal "ops-run" s.calls]).1 = s.ops := by
    rw [Journal.liveFile_eq, ops_eventBytes]
    rfl
  cases arm with
  | bare => exact hharness
  | mcp => rw [journalPaths, ← List.singleton_append, ops_append, hharness]; rfl

/-- In an intact journal the steps that erase or flash are counted, each once. -/
private theorem Setup.ops_intact (s : Setup F) (h : Intact harnessJournal "ops-run" s.calls) :
    s.ops = s.steps.countP OpsStep.isFlash := by
  rw [ops, h.count, ← setupEvents_count (F := F) s.port s.assets 0, ← s.journaled, List.countP_map]
  rfl

/-- Two attempts with the same turns and the same journal of the server have the same coverage exactly when nothing
was declared, their setups are counted alike, or the counted events of both reach what was declared. -/
theorem coverage_noninterference_iff (isWord : Char → Bool) (arm : Arm) (turns : List Turn) (server : Option Bytes)
    (s s' : Setup F) :
    (attemptCoverage isWord arm turns server s.calls = attemptCoverage isWord arm turns server s'.calls ↔
      declaredOps isWord turns arm = 0 ∨ s.ops = s'.ops ∨
        (declaredOps isWord turns arm ≤ s.ops + serverOps F server arm ∧
          declaredOps isWord turns arm ≤ s'.ops + serverOps F server arm)) ∧
    (Intact harnessJournal "ops-run" s.calls → s.ops = s.steps.countP OpsStep.isFlash) := by
  constructor
  · rw [attemptCoverage, attemptCoverage, coverage_eq_iff, attempt_ops, attempt_ops]
    constructor
    · rintro (h | h | h)
      · exact .inl h
      · exact .inr (.inl (by omega))
      · exact .inr (.inr h)
    · rintro (h | h | h)
      · exact .inl h
      · exact .inr (.inl (by omega))
      · exact .inr (.inr h)
  · exact s.ops_intact

/-- The calls of the setup with one clock reading. -/
def stamped (events : List (String × Event LitFloat)) : List (Journal.Call LitFloat) :=
  events.map fun e => ⟨e.1, e.2, Journal.tick.ts, Journal.tick.ts⟩

private theorem stamped_events (events : List (String × Event LitFloat)) :
    (stamped events).map (fun c => (c.kind, c.data)) = events := by
  rw [stamped, List.map_map]
  exact List.map_id events

def setupOf (steps : List OpsStep) : Setup LitFloat where
  port := "COM3"
  assets := fun asset => ⟨"assets/" ++ asset, asset, []⟩
  steps := steps
  calls := stamped (setupEvents "COM3" (fun asset => ⟨"assets/" ++ asset, asset, []⟩) 0 steps)
  journaled := stamped_events _

/-- One declared call, nothing in the journal of the server: an erasing setup covers it. -/
theorem setup_interferes :
    attemptCoverage (fun _ => true) .mcp [.tool "serial_open"] none (setupOf []).calls ≠
      attemptCoverage (fun _ => true) .mcp [.tool "serial_open"] none (setupOf [.wipeFlash]).calls := by
  have hnone : (setupOf []).ops = 0 := rfl
  have hone : (setupOf [.wipeFlash]).ops = 1 := by decide +kernel
  rw [attemptCoverage, attemptCoverage, Ne, coverage_eq_iff, attempt_ops, attempt_ops, hnone, hone]
  decide

end IronHarness.Campaign
