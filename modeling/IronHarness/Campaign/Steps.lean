import IronHarness.Board.Contract
import IronHarness.Campaign.Setup

/-!
# The setup steps on a board

`deploy_file` and `remove_file` drive the board over a fresh connection each.  Deploying reaches raw mode first and
leaves the board in normal mode; removing sends its command without reaching raw mode, so at an idle prompt it is typed
into the normal mode, which executes nothing and answers nothing.  A list of such steps does to the files what it says
exactly when it removes none (`run_steps_iff`).
-/

namespace IronHarness.Campaign

open Board ByteText JsonText PyLiteral Polled
open Journal (Event)

variable {F : Type}

/-! ### Removing -/

/-- `str(params["path"])` -/
def pathOf (path : String) : PyStr := path.toList.map ofChar

section Remove

variable (isPrintable : Char → Bool)

def removeCommand (path : PyStr) : List Char :=
  "import os; os.remove(".toList ++ repr isPrintable path ++ ")".toList

/-- The board of the transfer tests with an `os` module that removes files. -/
def execOs (fs : Fs) (command : List Char) : Fs × Reply :=
  match (between "import os; os.remove(".toList ")".toList command).bind literalEval with
  | some path =>
    if (fs.files path).isSome then (fs.store path none, .done [])
    else ({ fs with f := none }, .failed "OSError: [Errno 2] ENOENT".toList)
  | none => exec isPrintable fs command

private theorem execOs_runs (target : PyStr) (chunk : Nat) : Runs isPrintable target chunk (execOs isPrintable) := by
  intro fs command hsent
  have hfront : "import os; os.remove(".toList.isPrefixOf command = false := by
    cases hsent with
    | binascii => rfl
    | openFile _ => rfl
    | write _ => rfl
    | read => rfl
    | close => rfl
  rw [execOs, between_other_front hfront, Option.bind_none]

end Remove

/-! ### The steps -/

/-- The board behind its port, and the journal of the harness. -/
abbrev Bench (F : Type) : Type := Wire Fs × List (String × Event F)

structure OpsSetupError where
  text : String
  deriving DecidableEq

def failedData (i : Nat) (step : OpsStep) (error : String) : Event F :=
  ⟨[("index", .int i), ("kind", .str step.kind), ("error", .str error)], by
    simp [Value.keysNodup, Value.keysNodup.fieldsNodup]⟩

section Run

variable (isPrintable : Char → Bool) (flasher : OpsStep → Link Fs Unit) (fuel : Nat) (assets : String → AssetFile)
  (phase : String)

/-- `_run_step`, each step over a connection of its own; `flasher` is what flashing does. -/
def runStep : OpsStep → Link Fs Unit
  | .deployFile asset target => do
    let _ ← putFile (execOs isPrintable) isPrintable fuel 256 (assets asset).data (pathOf target)
    return ()
  | .removeFile path => do
    newSession
    catching (do
      let _ ← MpRepl.exec_ (execOs isPrintable) (removeCommand isPrintable (pathOf path))
      return ()) fun e => if (find "ENOENT".toList e.str).isSome then return () else throw e
  | step => flasher step

def journal (kind : String) (data : Event F) : Prog Poll (Bench F) OpsSetupError Unit :=
  Polled.modify fun s => (s.1, s.2 ++ [(kind, data)])

/-- One turn of the loop of `run_steps`. -/
def turn (i : Nat) (step : OpsStep) : Prog Poll (Bench F) OpsSetupError String := do
  journal ("harness_step_" ++ phase) (startData i step)
  after (zoom (runStep isPrintable flasher fuel assets step)) fun
    | .ok _ => do
      journal ("harness_step_" ++ phase ++ "_done") (doneData i (step.note assets))
      return step.note assets
    | .error e => do
      journal ("harness_step_" ++ phase ++ "_failed")
        (failedData i step (e.typeName ++ ": " ++ String.ofList e.str))
      throw ⟨phase ++ " step " ++ toString i ++ " (" ++ step.kind ++ ") failed: " ++ String.ofList e.str⟩

def runSteps : Nat → List OpsStep → Prog Poll (Bench F) OpsSetupError (List String)
  | _, [] => return []
  | i, step :: steps => do
    let note ← turn isPrintable flasher fuel assets phase i step
    let notes ← runSteps (i + 1) steps
    return note :: notes

end Run

/-- What a step does to the files of a board. -/
def applyStep (assets : String → AssetFile) (files : PyStr → Option Bytes) : OpsStep → PyStr → Option Bytes
  | .deployFile asset target => fun p => if p = pathOf target then some (assets asset).data else files p
  | .removeFile path => fun p => if p = pathOf path then none else files p
  | _ => files

def OpsStep.isRemove : OpsStep → Bool
  | .removeFile _ => true
  | _ => false

/-- A board at an idle normal prompt: whatever was typed or printed before, it does not answer a command. -/
structure Idle (w : Wire Fs) : Prop where
  normal : w.device.raw = false
  clean : ctrlD ∉ w.device.outbuf
  short : w.device.outbuf.length ≤ 64 * 1024

/-! ### Deploying -/

section Run

variable {isPrintable : Char → Bool} {flasher : OpsStep → Link Fs Unit} {fuel : Nat} {assets : String → AssetFile}
  {phase : String} {w : Wire Fs}

private theorem deploy_total (hfuel : 0 < fuel) (h : Idle w) (asset target : String) :
    Returns inTime (runStep isPrintable flasher fuel assets (.deployFile asset target)) w fun _ w' =>
      Idle w' ∧ w'.device.state.files = applyStep assets w.device.state.files (.deployFile asset target) := by
  have hfit : 64 * 1024 + 30 + (2 * 256 + 128) ≤ Stream.maxStreamBuf := by decide
  refine Returns.seq (Returns.seq (newSession_total h.clean h.short) fun _ w₁ h₁ =>
    putFile_total (execOs_runs isPrintable _ 256) (by decide) hfit h₁ hfuel _) fun _ w₂ ⟨_, hraw, _, h₂⟩ => ?_
  obtain ⟨hstate, -, hclean, hshort⟩ := h₂.device
  refine Returns.pure ⟨⟨hraw, hclean, Nat.le_trans hshort (by decide)⟩, ?_⟩
  rw [hstate]
  rfl

/-- A step that succeeds is journaled twice, and the board is as the step leaves it. -/
private theorem turn_total {i : Nat} {step : OpsStep} {events : List (String × Event F)} {P : Wire Fs → Prop}
    (hstep : Returns inTime (runStep isPrintable flasher fuel assets step) w fun _ w' => P w') :
    Returns inTime (turn isPrintable flasher fuel assets phase i step) (w, events) fun _ s' => P s'.1 := by
  have hstart : Returns inTime (journal ("harness_step_" ++ phase) (startData i step)) (w, events) fun _ s' =>
      s'.1 = w :=
    Total.modify ⟨(), rfl, rfl⟩
  refine Returns.seq hstart fun _ ⟨w₁, events₁⟩ h₁ => ?_
  obtain rfl : w₁ = w := h₁
  refine Total.after (Total.zoom hstep) ?_
  rintro r ⟨w₂, events₂⟩ ⟨-, _, rfl, h₂⟩
  have hdone : Returns inTime (journal ("harness_step_" ++ phase ++ "_done") (doneData i (step.note assets)))
      (w₂, events₂) fun _ s' => s'.1 = w₂ :=
    Total.modify ⟨(), rfl, rfl⟩
  refine Returns.seq hdone fun _ ⟨w₃, events₃⟩ h₃ => ?_
  obtain rfl : w₃ = w₂ := h₃
  exact Returns.pure h₂

/-- Steps that deploy files leave the board idle, with the files they deploy. -/
private theorem deploys_total (hfuel : 0 < fuel) {steps : List OpsStep} (hsteps : ∀ step ∈ steps, step.isFlash = false)
    (hremove : ∀ step ∈ steps, step.isRemove = false) (h : Idle w) (i : Nat) (events : List (String × Event F)) :
    Returns inTime (runSteps isPrintable flasher fuel assets phase i steps) (w, events) fun _ s' =>
      Idle s'.1 ∧ s'.1.device.state.files = steps.foldl (applyStep assets) w.device.state.files := by
  induction steps generalizing w i events with
  | nil => exact Returns.pure ⟨h, rfl⟩
  | cons step steps ih =>
    obtain ⟨hflash, hflashes⟩ := List.forall_mem_cons.1 hsteps
    obtain ⟨hkeep, hkeeps⟩ := List.forall_mem_cons.1 hremove
    have hstep : Returns inTime (runStep isPrintable flasher fuel assets step) w fun _ w' =>
        Idle w' ∧ w'.device.state.files = applyStep assets w.device.state.files step := by
      cases step with
      | wipeFlash => cases hflash
      | flashAsset asset => cases hflash
      | removeFile path => cases hkeep
      | deployFile asset target => exact deploy_total hfuel h asset target
    refine Returns.seq (turn_total hstep) fun note ⟨w₁, events₁⟩ ⟨hidle, hfiles⟩ => ?_
    refine Returns.seq (ih hflashes hkeeps hidle (i + 1) events₁) fun notes ⟨w₂, events₂⟩ ⟨hidle₂, hfiles₂⟩ => ?_
    refine Returns.pure ⟨hidle₂, ?_⟩
    rw [hfiles₂, hfiles, List.foldl_cons]

/-! ### Removing at an idle prompt -/

private theorem removeCommand_isCommand (path : PyStr) : IsCommand (removeCommand isPrintable path) := by
  have hcommand : removeCommand isPrintable path =
      "import os; os.remove(".toList ++ (repr isPrintable path ++ ")".toList) :=
    List.append_assoc ..
  rw [hcommand]
  exact isCommand_append (by decide) (by decide) (fun _ hc => repr_printable hc) (by decide)

/-- Removing a file at an idle prompt does not succeed, whatever the polls see. -/
private theorem remove_fails (h : Idle w) (path : String) :
    Partial (runStep isPrintable flasher fuel assets (.removeFile path)) w fun r _ => ∃ e, r = .error e := by
  have hsession : Partial newSession w fun r w' => r = .ok () ∧ w'.view.raw = false ∧ ctrlD ∉ w'.view.outbuf :=
    Partial.modify ⟨rfl, h.normal, h.clean⟩
  refine Partial.bind hsession (fun _ w₁ ⟨_, hnormal, hclean⟩ => ?_) fun e w₁ ⟨h₁, _⟩ => by cases h₁
  have hexec : Partial (MpRepl.exec_ (execOs isPrintable) (removeCommand isPrintable (pathOf path))) w₁ fun r _ =>
      r = .error .timeoutError ∨ r = .error .transportIoError :=
    MpRepl.exec_normal (removeCommand_isCommand (pathOf path)) hnormal hclean
  refine Partial.catching (R := fun r _ => r = .error .timeoutError ∨ r = .error .transportIoError) ?_ ?_ ?_
  · refine Partial.bind hexec (fun _ w₂ h₂ => ?_) fun e w₂ h₂ => ?_
    · rcases h₂ with h₂ | h₂ <;> cases h₂
    · rcases h₂ with h₂ | h₂
      · cases h₂
        exact .inl rfl
      · cases h₂
        exact .inr rfl
  · rintro a w₂ (h₂ | h₂) <;> cases h₂
  · -- neither text says that the file is missing
    rintro e w₂ (h₂ | h₂)
    · cases h₂
      have htext : (find "ENOENT".toList Exn.timeoutError.str).isSome = false := by decide
      rw [htext]
      exact Partial.throw ⟨_, rfl⟩
    · cases h₂
      have htext : (find "ENOENT".toList Exn.transportIoError.str).isSome = false := by decide
      rw [htext]
      exact Partial.throw ⟨_, rfl⟩

private theorem turn_fails {i : Nat} {step : OpsStep} {events : List (String × Event F)}
    (hstep : Partial (runStep isPrintable flasher fuel assets step) w fun r _ => ∃ e, r = .error e) :
    Partial (turn isPrintable flasher fuel assets phase i step) (w, events) fun r _ => ∃ e, r = .error e := by
  have hstart : Partial (journal ("harness_step_" ++ phase) (startData i step)) (w, events) fun r s' =>
      r = .ok () ∧ s'.1 = w :=
    Partial.modify ⟨rfl, rfl⟩
  refine Partial.bind hstart (fun _ ⟨w₁, events₁⟩ ⟨_, h₁⟩ => ?_) fun e s' ⟨h, _⟩ => by cases h
  obtain rfl : w₁ = w := h₁
  refine Partial.after (Partial.zoom hstep) ?_
  rintro r ⟨w₂, events₂⟩ ⟨-, e, rfl⟩
  refine Partial.bind (R := fun r _ => r = .ok ()) (Partial.modify rfl) (fun _ s' _ => Partial.throw ⟨_, rfl⟩) ?_
  intro e s' h
  cases h

/-- Steps do not get past one that removes a file. -/
private theorem runSteps_remove (h : Idle w) (path : String) (steps : List OpsStep) (i : Nat)
    (events : List (String × Event F)) :
    Partial (runSteps isPrintable flasher fuel assets phase i (.removeFile path :: steps)) (w, events) fun r _ =>
      ∃ e, r = .error e := by
  refine Partial.bind (turn_fails (remove_fails h path)) ?_ fun e s' _ => ⟨e, rfl⟩
  rintro note s' ⟨e, he⟩
  cases he

private theorem runSteps_append (i : Nat) (steps steps' : List OpsStep) :
    runSteps (F := F) isPrintable flasher fuel assets phase i (steps ++ steps') =
      runSteps isPrintable flasher fuel assets phase i steps >>= fun notes =>
        runSteps isPrintable flasher fuel assets phase (i + steps.length) steps' >>= fun notes' =>
          return notes ++ notes' := by
  induction steps generalizing i with
  | nil => exact (bind_pure _).symm
  | cons step steps ih =>
    have hindex : i + (step :: steps).length = i + 1 + steps.length := by
      rw [List.length_cons]
      omega
    rw [List.cons_append, runSteps, runSteps, hindex]
    simp only [ih, bind_assoc, pure_bind, List.cons_append]

end Run

/-- Over a board at an idle prompt, setup steps that deploy and remove files succeed and leave the files they say
exactly when none of them removes a file. -/
theorem run_steps_iff (isPrintable : Char → Bool) (flasher : OpsStep → Link Fs Unit) (fuel : Nat)
    (assets : String → AssetFile) (phase : String) (hfuel : 0 < fuel) (steps : List OpsStep)
    (hsteps : ∀ step ∈ steps, step.isFlash = false) (w : Wire Fs) (h : Idle w) :
    Returns inTime (runSteps (F := F) isPrintable flasher fuel assets phase 0 steps) (w, []) (fun _ s' =>
      s'.1.device.state.files = steps.foldl (applyStep assets) w.device.state.files) ↔
      ∀ step ∈ steps, step.isRemove = false := by
  constructor
  · intro hall
    by_contra hremove
    obtain ⟨step, hmem, hstep⟩ : ∃ step ∈ steps, step.isRemove = true := by
      simpa using hremove
    -- up to the first step that removes a file the run is known
    obtain ⟨first, hfirst⟩ : ∃ first, steps.find? OpsStep.isRemove = some first := by
      rw [← Option.isSome_iff_exists, List.find?_isSome]
      exact ⟨step, hmem, hstep⟩
    obtain ⟨hisRemove, before, later, rfl, hbefore⟩ := List.find?_eq_some_iff_append.1 hfirst
    rw [runSteps_append] at hall
    have hdeploys : Returns inTime (runSteps isPrintable flasher fuel assets phase 0 before) (w, ([] : List (String × Event F)))
        fun _ s' => Idle s'.1 ∧ s'.1.device.state.files = before.foldl (applyStep assets) w.device.state.files :=
      deploys_total hfuel (fun step hstep => hsteps step (List.mem_append_left _ hstep))
        (fun step hstep => by simpa using hbefore step hstep) h 0 []
    obtain ⟨r, s', ⟨notes, rfl, hidle, -⟩, htail⟩ := Total.tail steady_fair hall hdeploys
    obtain ⟨polls, r', s'', rest, hrun, ⟨notes', rfl, -⟩⟩ := htail notes rfl
    cases first with
    | wipeFlash => cases hisRemove
    | flashAsset asset => cases hisRemove
    | deployFile asset target => cases hisRemove
    | removeFile path =>
      have hnever : Partial (runSteps isPrintable flasher fuel assets phase (0 + before.length) (.removeFile path :: later) >>=
          fun notes' => return notes ++ notes') s' fun r _ => ∃ e, r = .error e := by
        refine Partial.bind (runSteps_remove hidle path later _ s'.2) ?_ fun e s₁ _ => ⟨e, rfl⟩
        rintro notes' s₁ ⟨e, he⟩
        cases he
      obtain ⟨e, he⟩ := hnever _ _ _ _ hrun
      cases he
  · intro hkeep
    exact (deploys_total hfuel hsteps hkeep h 0 []).mono fun _ _ h' => h'.2

/-- A file of four bytes. -/
def smallAsset (_ : String) : AssetFile := ⟨"boot.py", "boot.py", [112, 97, 115, 115]⟩

/-- A board at an idle prompt with one file. -/
def configWire : Wire Fs :=
  ⟨⟨⟨fun p => if p = pathOf "/config.py" then some [1, 2, 3] else none, none⟩, [], encode ">>> ".toList, false, []⟩, []⟩

private theorem configWire_idle : Idle configWire := ⟨rfl, by decide, by decide⟩

theorem run_steps_deploy :
    Returns inTime (runSteps (F := Unit) Char.isAlpha (fun _ => return ()) 1 smallAsset "setup" 0
        [.deployFile "boot" "/boot.py", .deployFile "boot" "/config.py"]) (configWire, []) (fun _ s' =>
      s'.1.device.state.files = [OpsStep.deployFile "boot" "/boot.py", .deployFile "boot" "/config.py"].foldl
        (applyStep smallAsset) configWire.device.state.files) :=
  (run_steps_iff Char.isAlpha (fun _ => return ()) 1 smallAsset "setup" (by decide) _ (by decide) configWire
    configWire_idle).2 (by decide)

/-- The text of an OpsSetupError, the file at `/config.py` and the kinds of the events of the harness. -/
def seen (o : Except OpsSetupError (List String) × Bench Unit × List Poll) : Option String × Option Bytes × List String :=
  (match o.1 with
    | .ok _ => none
    | .error e => some e.text,
    o.2.1.1.device.state.files (pathOf "/config.py"), o.2.1.2.map (·.1))

/-- Removing an existing file at an idle prompt: the deadline passes, the step fails, and the file is still there.  No
schedule of polls lets the step succeed. -/
theorem remove_existing_file_fails :
    (runSteps (F := Unit) Char.isAlpha (fun _ => return ()) 1 smallAsset "setup" 0 [.removeFile "/config.py"]
        (configWire, []) [.read 256, .read 256, .late]).map seen =
      some (some "setup step 0 (remove_file) failed: board did not answer within 10.0s (raw REPL)", some [1, 2, 3],
        ["harness_step_setup", "harness_step_setup_failed"]) ∧
    Partial (runSteps (F := Unit) Char.isAlpha (fun _ => return ()) 1 smallAsset "setup" 0 [.removeFile "/config.py"])
      (configWire, []) fun r _ => ∃ e, r = .error e :=
  ⟨by decide +kernel, runSteps_remove configWire_idle "/config.py" [] 0 []⟩

end IronHarness.Campaign
