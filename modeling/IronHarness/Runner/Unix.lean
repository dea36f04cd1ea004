import IronHarness.Lib.Runs
import IronHarness.Runner.Log

/-!
# The unix runner

`_run_unix` (ironbench/runner_unix.py) as a machine: `Pc` is where the harness thread stands, and one step is what it
does between two looks at the world.  A `Moment` is what it meets there: what the reader thread has ingested since the
last look, the clock, and how a call into the outside ends.  A schedule is a list of moments, so the machine takes
every interleaving of the two threads, every clock and every early exit.
-/

namespace IronHarness.Runner

open ByteText Runs

/-- What the harness meets in one step. -/
structure Moment where
  /-- the chunks the reader thread has ingested since the last step -/
  ingested : Chunks
  /-- and whether it has seen the end of the output -/
  eof : Bool
  now : ℚ
  /-- the topic and payload `read_message` returns -/
  message : Option (List Char × List Char)
  /-- the exit code `proc.wait` returns; `none` when it times out -/
  exit : Option Int
  /-- `writer.overflow()` -/
  overflow : Bool
  /-- the call made here raises -/
  fails : Bool

inductive RunError
  | infra
  | prePrinted (needle : List Char)
  | zeroWaits
  | undelivered
  | exited (code : Int)

/-- `error_kind` -/
inductive ErrorKind
  | none
  | infra
  | run

def errorKind : Option RunError → ErrorKind
  | none => .none
  | some .infra => .infra
  | some _ => .run

structure TaskResult where
  passed : Bool
  exitCode : Option Int
  missed : List Missed
  hitFail : List (List Char)
  error : Option RunError
  errorKind : ErrorKind

/-- Where the harness thread stands. -/
inductive Pc
  | preparing
  /-- at the head of `for step in task.stimulus` -/
  | next (i : Nat)
  /-- in the loop of a `wait-serial` step: about to look for the answer -/
  | polling (i : Nat) (needle : List Char)
  /-- no answer so far: about to decide whether to go on waiting -/
  | unanswered (i : Nat) (needle : List Char)
  | driving (i : Nat) (action : Action)
  /-- in `_wait_quiet` -/
  | quiet (i : Nat) (quietFor : ℚ) (seen : Option Nat)
  | listening (i : Nat) (quietFor : ℚ) (seen : Option Nat)
  /-- about to record the trigger stamp -/
  | stamping (i : Nat)
  | delivering (i : Nat)
  | subscribing (i : Nat) (col : Collect)
  | collecting (i : Nat) (col : Collect) (got : Nat) (limit : ℚ)
  | receiving (i : Nat) (col : Collect) (got : Nat) (limit : ℚ)
  /-- after the stimulus: reading on until the literal expects are there -/
  | settling
  | leaving
  | joining
  /-- the verdict over the waits not yet replayed -/
  | replaying (rest : List (List Char × Option ℚ))
  | crediting
  | closing
  | scoring
  | done (result : TaskResult)
  | raised

structure Harness where
  pc : Pc
  box : Box
  deadline : ℚ
  /-- every `wait-serial` step reached, with the trigger stamp at that moment -/
  waited : List (List Char × Option ℚ)
  waitsDone : Nat
  lastTriggerStamp : Option ℚ
  triggerStamps : List ℚ
  exitCode : Option Int
  error : Option RunError
  serialText : List Char
  /-- not in the source: how many steps of the stimulus the loop has begun -/
  entered : Nat

def start : Harness :=
  ⟨.preparing, emptyBox, 0, [], 0, none, [], none, none, [], 0⟩

def wallGraceSec : Nat := 15

def quietSec : ℚ := 15 / 100

def pollSec : ℚ := 5 / 100

/-- `needle in text` -/
def occurs (needle text : List Char) : Bool := (find needle text).isSome

/-- `plain and all(p in text for p in plain)` -/
def collected (expect : List (List Char)) (text : List Char) : Bool :=
  let plain := expect.filter fun pattern => !pattern.isEmpty && isPlainText pattern
  !plain.isEmpty && plain.all fun pattern => occurs pattern text

/-- One of the handlers around the run takes the exception. -/
def Harness.infra (s : Harness) : Harness := { s with error := some .infra, pc := .scoring }

/-- The head of the stimulus loop, with its deadline. -/
def Harness.enter (task : Task) (s : Harness) (now : ℚ) (i : Nat) : Harness :=
  match task.stimulus[i]? with
  | none => { s with pc := .settling }
  | some st =>
    if s.deadline < now then { s with pc := .settling }
    else
      match st.action task.mqtt with
      | .wait needle =>
        { s with entered := i + 1, waited := s.waited ++ [(needle, s.lastTriggerStamp)], pc := .polling i needle }
      | action => { s with entered := i + 1, pc := .driving i action }

/-- A step of the stimulus other than a wait. -/
def Harness.drive (s : Harness) (i : Nat) (action : Action) : Harness :=
  if s.box.eof then { s with pc := .settling }
  else
    match action with
    | .delay none => s.infra
    | .delay (some seconds) => if seconds < 0 then s.infra else { s with pc := .next (i + 1) }
    | .write _ | .publish _ => { s with pc := .quiet i 0 none }
    | .collect col => { s with pc := .subscribing i col }
    | .wait _ | .skip => { s with pc := .next (i + 1) }

def messageLine (topic payload : List Char) : List Char := "mqtt: ".toList ++ topic ++ ' ' :: payload ++ ['\n']

def shortLine (col : Collect) (got : Nat) : List Char :=
  "mqtt: collect ".toList ++ col.topic ++ ": received ".toList ++ (toString got).toList ++ " of ".toList ++
    (toString col.count).toList ++ ['\n']

/-- The first `wait-serial` needle of the stimulus that is in the log. -/
def dumped (task : Task) (text : List Char) : Option (List Char) :=
  (task.stimulus.filterMap (·.waitSerial)).find? fun needle => occurs needle text

def Harness.result (py : Builtins) (task : Task) (s : Harness) : TaskResult :=
  let (missed, hitFail) := checkPatterns py s.serialText task.expect task.fail
  let missed := missed ++ checkEvents py s.serialText task.events ++
    (if task.events.isEmpty then [] else checkEventsRealtime py s.box.chunks task.events)
  ⟨missed.isEmpty && hitFail.isEmpty && s.error.isNone, s.exitCode, missed, hitFail, s.error, errorKind s.error⟩

/-- The result where the stimulus asks for a Wokwi part. -/
def unsupported (task : Task) : TaskResult :=
  ⟨false, none, task.expect.map .pattern, [], some .infra, .infra⟩

/-- What the harness does at one place of `_run_unix`, with the box as it finds it. -/
def act (py : Builtins) (task : Task) (s : Harness) (m : Moment) : Option Harness :=
  match s.pc with
  | .preparing =>
    if task.stimulus.any (·.setControl) then some { s with pc := .done (unsupported task) }
    else if m.fails then some s.infra
    else some { s with deadline := m.now + (task.timeoutSec * 2 + wallGraceSec : Nat), pc := .next 0 }
  | .next i => some (s.enter task m.now i)
  | .polling i needle =>
    match s.box.firstAnswerStamp needle s.lastTriggerStamp with
    | some _ => some { s with waitsDone := s.waitsDone + 1, pc := .next (i + 1) }
    | none => some { s with pc := .unanswered i needle }
  | .unanswered i needle =>
    if occurs needle s.box.text || s.deadline ≤ m.now || s.box.eof then some { s with pc := .settling }
    else some { s with pc := .polling i needle }
  | .driving i action => some (s.drive i action)
  | .quiet i quietFor seen =>
    if quietFor < quietSec ∧ m.now < s.deadline then some { s with pc := .listening i quietFor seen }
    else some { s with pc := .stamping i }
  | .listening i quietFor seen =>
    if some s.box.chunks.length ≠ seen then some { s with pc := .quiet i 0 (some s.box.chunks.length) }
    else some { s with pc := .quiet i (quietFor + pollSec) seen }
  | .stamping i =>
    some { s with lastTriggerStamp := some m.now, triggerStamps := s.triggerStamps ++ [m.now], pc := .delivering i }
  | .delivering i => if m.fails then some s.infra else some { s with pc := .next (i + 1) }
  | .subscribing i col =>
    if m.fails then some s.infra else some { s with pc := .collecting i col 0 (m.now + col.timeoutSec) }
  | .collecting i col got limit =>
    if got < col.count ∧ m.now < limit ∧ s.box.eof = false then some { s with pc := .receiving i col got limit }
    else if got < col.count then some { s with box := s.box.append m.now (shortLine col got), pc := .next (i + 1) }
    else some { s with pc := .next (i + 1) }
  | .receiving i col got limit =>
    if m.fails then some s.infra
    else
      match m.message with
      | some (topic, payload) =>
        some { s with box := s.box.append m.now (messageLine topic payload), pc := .collecting i col (got + 1) limit }
      | none => some { s with pc := .collecting i col got limit }
  | .settling =>
    if m.now < s.deadline ∧ s.box.eof = false then
      if collected task.expect s.box.text then some { s with pc := .leaving } else some s
    else some { s with pc := .leaving }
  | .leaving =>
    if s.box.eof then
      match m.exit with
      | some code => some { s with exitCode := some code, pc := .joining }
      | none => some { s with pc := .raised }
    else if m.fails then some { s with pc := .raised }  -- still there after the kill
    else some { s with exitCode := m.exit, pc := .joining }
  | .joining => some { s with serialText := s.box.text, pc := .replaying s.waited }
  | .replaying [] => some { s with pc := .crediting }
  | .replaying ((needle, since) :: rest) =>
    if occurs needle s.serialText && (s.box.firstAnswerStamp needle since).isNone then
      some { s with error := some (.prePrinted needle), pc := .crediting }
    else some { s with pc := .replaying rest }
  | .crediting =>
    if s.error.isNone && s.box.eof && s.waitsDone == 0 && task.stimulus.any (·.waitSerial.isSome) then
      match dumped task s.serialText with
      | some needle => some { s with error := some (.prePrinted needle), pc := .closing }
      | none => some { s with error := some .zeroWaits, pc := .closing }
    else some { s with pc := .closing }
  | .closing =>
    let error := if s.error.isNone && m.overflow then some .undelivered else s.error
    match s.exitCode with
    | none | some 0 => some { s with error := error, pc := .scoring }
    | some code => some { s with error := some (.exited code), pc := .scoring }
  | .scoring => if m.fails then some { s with pc := .raised } else some { s with pc := .done (s.result py task) }
  | .done _ | .raised => none

/-- The reader thread goes first, then the harness. -/
def step (py : Builtins) (task : Task) (s : Harness) (m : Moment) : Option Harness :=
  act py task { s with box := s.box.hear m.ingested m.eof } m

/-! ### The moves of the harness -/

/-- The places the harness goes on to with nothing recorded. -/
inductive Pc.Goes : Pc → Pc → Prop
  | givesUp (i : Nat) (needle : List Char) : Goes (.unanswered i needle) .settling
  | listens (i : Nat) (quietFor : ℚ) (seen : Option Nat) : Goes (.quiet i quietFor seen) (.listening i quietFor seen)
  | quiet (i : Nat) (quietFor : ℚ) (seen : Option Nat) : Goes (.quiet i quietFor seen) (.stamping i)
  | hears (i : Nat) (quietFor quietFor' : ℚ) (seen seen' : Option Nat) :
      Goes (.listening i quietFor seen) (.quiet i quietFor' seen')
  | delivered (i : Nat) : Goes (.delivering i) (.next (i + 1))
  | subscribed (i : Nat) (col : Collect) (limit : ℚ) : Goes (.subscribing i col) (.collecting i col 0 limit)
  | receives (i : Nat) (col : Collect) (got : Nat) (limit : ℚ) :
      Goes (.collecting i col got limit) (.receiving i col got limit)
  | collected (i : Nat) (col : Collect) (got : Nat) (limit : ℚ) : Goes (.collecting i col got limit) (.next (i + 1))
  | silent (i : Nat) (col : Collect) (got : Nat) (limit : ℚ) :
      Goes (.receiving i col got limit) (.collecting i col got limit)
  | leaves : Goes .settling .leaving
  | breaks : Goes .leaving .raised
  | replayed : Goes (.replaying []) .crediting
  | credited : Goes .crediting .closing
  | fails : Goes .scoring .raised

/-- What the harness does, by where it is. -/
inductive Move (py : Builtins) (task : Task) (s : Harness) (m : Moment) : Pc → Harness → Prop
  | refuses : Move py task s m .preparing { s with pc := .done (unsupported task) }
  | infra (pc : Pc) (hfails : m.fails = true) : Move py task s m pc s.infra
  | prepares (deadline : ℚ) : Move py task s m .preparing { s with deadline := deadline, pc := .next 0 }
  | enters (i : Nat) : Move py task s m (.next i) (s.enter task m.now i)
  | drives (i : Nat) (action : Action) : Move py task s m (.driving i action) (s.drive i action)
  | answered (i : Nat) (needle : List Char) :
      Move py task s m (.polling i needle) { s with waitsDone := s.waitsDone + 1, pc := .next (i + 1) }
  | unanswered (i : Nat) (needle : List Char) (hnone : s.box.firstAnswerStamp needle s.lastTriggerStamp = none) :
      Move py task s m (.polling i needle) { s with pc := .unanswered i needle }
  | waits (i : Nat) (needle : List Char) : Move py task s m (.unanswered i needle) { s with pc := .polling i needle }
  | stamps (i : Nat) : Move py task s m (.stamping i)
      { s with lastTriggerStamp := some m.now, triggerStamps := s.triggerStamps ++ [m.now], pc := .delivering i }
  | short (i : Nat) (col : Collect) (got : Nat) (limit : ℚ) : Move py task s m (.collecting i col got limit)
      { s with box := s.box.append m.now (shortLine col got), pc := .next (i + 1) }
  | message (i : Nat) (col : Collect) (got : Nat) (limit : ℚ) (topic payload : List Char) :
      Move py task s m (.receiving i col got limit)
        { s with box := s.box.append m.now (messageLine topic payload), pc := .collecting i col (got + 1) limit }
  | settles : Move py task s m .settling s
  | exits (code : Option Int) : Move py task s m .leaving { s with exitCode := code, pc := .joining }
  | joins : Move py task s m .joining { s with serialText := s.box.text, pc := .replaying s.waited }
  | objects (entry : List Char × Option ℚ) (rest : List (List Char × Option ℚ)) (error : RunError) :
      Move py task s m (.replaying (entry :: rest)) { s with error := some error, pc := .crediting }
  | accepts (needle : List Char) (since : Option ℚ) (rest : List (List Char × Option ℚ))
      (hfine : ¬ (occurs needle s.serialText && (s.box.firstAnswerStamp needle since).isNone) = true) :
      Move py task s m (.replaying ((needle, since) :: rest)) { s with pc := .replaying rest }
  | discredits (error : RunError) : Move py task s m .crediting { s with error := some error, pc := .closing }
  | closes (error : Option RunError) (herror : error = none → s.error = none) :
      Move py task s m .closing { s with error := error, pc := .scoring }
  | scores : Move py task s m .scoring { s with pc := .done (s.result py task) }
  | goes (pc pc' : Pc) (hgoes : pc.Goes pc') : Move py task s m pc { s with pc := pc' }

variable {py : Builtins} {task : Task} {s s' : Harness} {m : Moment}

theorem act_move (hact : act py task s m = some s') : Move py task s m s.pc s' := by
  have hto : ∀ {t : Harness} {pc : Pc}, some t = some s' → Move py task s m pc t → Move py task s m pc s' := by
    intro t pc ht hmove
    obtain rfl := Option.some.inj ht
    exact hmove
  have hgo : ∀ {pc pc' : Pc}, some { s with pc := pc' } = some s' → pc.Goes pc' → Move py task s m pc s' := by
    intro pc pc' ht hgoes
    exact hto ht (.goes pc pc' hgoes)
  unfold act at hact
  cases hpc : s.pc with
  | preparing =>
    simp only [hpc] at hact
    apply of_ite hact fun hact => hto hact .refuses
    intro hact
    split at hact
    · rename_i hfails
      exact hto hact (.infra _ hfails)
    · exact hto hact (.prepares _)
  | next i =>
    simp only [hpc] at hact
    exact hto hact (.enters i)
  | polling i needle =>
    simp only [hpc] at hact
    cases hstamp : s.box.firstAnswerStamp needle s.lastTriggerStamp with
    | some stamp =>
      rw [hstamp] at hact
      exact hto hact (.answered i needle)
    | none =>
      rw [hstamp] at hact
      exact hto hact (.unanswered i needle hstamp)
  | unanswered i needle =>
    simp only [hpc] at hact
    exact of_ite hact (fun hact => hgo hact (.givesUp i needle)) fun hact => hto hact (.waits i needle)
  | driving i action =>
    simp only [hpc] at hact
    exact hto hact (.drives i action)
  | quiet i quietFor seen =>
    simp only [hpc] at hact
    exact of_ite hact (fun hact => hgo hact (.listens i quietFor seen)) fun hact => hgo hact (.quiet i quietFor seen)
  | listening i quietFor seen =>
    simp only [hpc] at hact
    exact of_ite hact (fun hact => hgo hact (.hears i quietFor _ seen _)) fun hact => hgo hact (.hears i quietFor _ seen _)
  | stamping i =>
    simp only [hpc] at hact
    exact hto hact (.stamps i)
  | delivering i =>
    simp only [hpc] at hact
    split at hact
    · rename_i hfails
      exact hto hact (.infra _ hfails)
    · exact hgo hact (.delivered i)
  | subscribing i col =>
    simp only [hpc] at hact
    split at hact
    · rename_i hfails
      exact hto hact (.infra _ hfails)
    · exact hgo hact (.subscribed i col _)
  | collecting i col got limit =>
    simp only [hpc] at hact
    apply of_ite hact fun hact => hgo hact (.receives i col got limit)
    intro hact
    exact of_ite hact (fun hact => hto hact (.short i col got limit)) fun hact => hgo hact (.collected i col got limit)
  | receiving i col got limit =>
    simp only [hpc] at hact
    split at hact
    · rename_i hfails
      exact hto hact (.infra _ hfails)
    · cases hmessage : m.message with
      | some message =>
        rw [hmessage] at hact
        exact hto hact (.message i col got limit message.1 message.2)
      | none =>
        rw [hmessage] at hact
        exact hgo hact (.silent i col got limit)
  | settling =>
    simp only [hpc] at hact
    apply of_ite hact _ fun hact => hgo hact .leaves
    intro hact
    exact of_ite hact (fun hact => hgo hact .leaves) fun hact => hto hact .settles
  | leaving =>
    simp only [hpc] at hact
    apply of_ite hact
    · intro hact
      cases hexit : m.exit with
      | some code =>
        rw [hexit] at hact
        exact hto hact (.exits _)
      | none =>
        rw [hexit] at hact
        exact hgo hact .breaks
    · intro hact
      exact of_ite hact (fun hact => hgo hact .breaks) fun hact => hto hact (.exits _)
  | joining =>
    simp only [hpc] at hact
    exact hto hact .joins
  | replaying rest =>
    cases rest with
    | nil =>
      simp only [hpc] at hact
      exact hgo hact .replayed
    | cons entry rest =>
      simp only [hpc] at hact
      split at hact
      · exact hto hact (.objects entry rest _)
      · rename_i hfine
        exact hto hact (.accepts entry.1 entry.2 rest hfine)
  | crediting =>
    simp only [hpc] at hact
    apply of_ite hact _ fun hact => hgo hact .credited
    intro hact
    cases hdumped : dumped task s.serialText with
    | some needle =>
      rw [hdumped] at hact
      exact hto hact (.discredits _)
    | none =>
      rw [hdumped] at hact
      exact hto hact (.discredits _)
  | closing =>
    simp only [hpc] at hact
    -- the exit code may add an error, and an overflow too
    have herror : (if s.error.isNone && m.overflow then some RunError.undelivered else s.error) = none →
        s.error = none := by
      split
      · intro hnone
        cases hnone
      · exact id
    split at hact
    · exact hto hact (.closes _ herror)
    · exact hto hact (.closes _ herror)
    · exact hto hact (.closes _ fun hnone => absurd hnone (Option.some_ne_none _))
  | scoring =>
    simp only [hpc] at hact
    exact of_ite hact (fun hact => hgo hact .fails) fun hact => hto hact .scores
  | done result | raised =>
    simp only [hpc] at hact
    cases hact

end IronHarness.Runner
