import IronHarness.Lib.Lines
import Mathlib.Data.Rat.Defs
import Mathlib.Algebra.Order.Ring.Rat

/-!
# Tasks of the unix target

A task is what `load_task` returns (ironbench/tasks.py), with the fields the unix runner reads.  A stimulus step is a
mapping that may carry several keys at once: the loader asks of a key only that it is known, and the runner does the
first one of its own order (`Step.action`).
-/

namespace IronHarness.Runner

open TextLines

structure Publish where
  topic : List Char
  payload : List Char
  qos : Nat
  retain : Bool

structure Collect where
  topic : List Char
  count : Nat
  timeoutSec : ℚ

/-- One step of the stimulus.  The inner value of `delay` is what `_parse_delay` makes of the text, `none` where it
raises; the loader does not look at it. -/
structure Step where
  writeSerial : Option (List Char)
  waitSerial : Option (List Char)
  delay : Option (Option ℚ)
  setControl : Bool
  mqttPublish : Option Publish
  mqttCollect : Option Collect

def emptyStep : Step := ⟨none, none, none, false, none, none⟩

/-- `"write-serial" in step or "mqtt-publish" in step`: the step asks the firmware for something. -/
def Step.isTrigger (st : Step) : Bool := st.writeSerial.isSome || st.mqttPublish.isSome

structure Events where
  pattern : List Char
  countMin : Nat
  periodMs : Option (ℚ × ℚ)

structure Task where
  name : List Char
  timeoutSec : Nat
  expect : List (List Char)
  fail : List (List Char)
  stimulus : List Step
  mqtt : Bool
  events : List Events

/-! ### The loader -/

/-- The checks of `load_task` on one stimulus step. -/
def Step.loads (mqtt : Bool) (st : Step) : Bool :=
  (st.writeSerial.all fun data => !data.isEmpty) &&
  (st.mqttPublish.all fun pub => !(strip pub.topic).isEmpty && pub.qos ≤ 1) &&
  (st.mqttCollect.all fun col => !(strip col.topic).isEmpty && 1 ≤ col.count && 0 < col.timeoutSec && col.timeoutSec ≤ 600) &&
  (st.waitSerial.all fun answer => !(strip answer).isEmpty) &&
  !st.setControl &&
  (!(st.mqttPublish.isSome || st.mqttCollect.isSome) || mqtt)

/-- `seen_trigger`: every `wait-serial` has a trigger in its own step or in one before it. -/
def triggerFirst : Bool → List Step → Bool
  | _, [] => true
  | seen, st :: rest =>
    let seen := seen || st.isTrigger
    (!st.waitSerial.isSome || seen) && triggerFirst seen rest

def Events.loads (ev : Events) : Bool :=
  !ev.pattern.isEmpty && 1 ≤ ev.countMin && ev.periodMs.all fun period => 0 < period.1 && period.1 < period.2

/-- `load_task` accepts the task for the unix target; `compiles` is `re.compile`. -/
def Task.loads (compiles : List Char → Bool) (task : Task) : Bool :=
  !task.name.isEmpty && 1 ≤ task.timeoutSec && task.timeoutSec ≤ 600 &&
  task.stimulus.all (Step.loads task.mqtt) && triggerFirst false task.stimulus && task.events.all Events.loads &&
  (task.expect ++ task.fail ++ task.events.map (·.pattern)).all compiles &&
  !(task.expect.isEmpty && task.events.isEmpty)

/-- A task that `load_task` accepted for the unix target. -/
structure UnixTask (compiles : List Char → Bool) extends Task where
  loads : toTask.loads compiles = true

/-! ### What the runner makes of a step -/

inductive Action
  | wait (needle : List Char)
  | delay (seconds : Option ℚ)
  | write (data : List Char)
  | publish (pub : Publish)
  | collect (col : Collect)
  | skip

/-- The branch `_run_unix` takes; `mqtt` is `mqtt_client is not None`. -/
def Step.action (mqtt : Bool) (st : Step) : Action :=
  match st.waitSerial, st.delay, st.writeSerial, st.mqttPublish, st.mqttCollect with
  | some needle, _, _, _, _ => .wait needle
  | none, some seconds, _, _, _ => .delay seconds
  | none, none, some data, _, _ => .write data
  | none, none, none, some pub, _ => if mqtt then .publish pub else .skip
  | none, none, none, none, some col => if mqtt then .collect col else .skip
  | none, none, none, none, none => .skip

theorem Step.action_eq_wait {mqtt : Bool} {st : Step} {needle : List Char} :
    st.action mqtt = .wait needle ↔ st.waitSerial = some needle := by
  unfold action
  cases hwait : st.waitSerial with
  | some answer => simp
  | none =>
    have hnot : ∀ a, (∀ n, a ≠ Action.wait n) → (a = .wait needle ↔ none = some needle) := by
      intro a ha
      simp [ha needle]
    apply hnot
    intro n
    cases st.delay <;> cases st.writeSerial <;> cases st.mqttPublish <;> cases st.mqttCollect <;> cases mqtt <;> simp

end IronHarness.Runner
