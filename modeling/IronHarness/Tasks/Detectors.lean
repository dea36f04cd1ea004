import IronHarness.Runner.Log
import IronHarness.Tasks.Compat

/-!
# Detectors

The loader and the check of a target ask for a detector: expect patterns, or events on the unix target.  Events are
missed on the empty text, since the loader asks for at least one of each; a pattern is missed only if it does not
match there (`misses_empty_iff`).
-/

namespace IronHarness.Tasks

open Runner

/-- `ev["count_min"]` -/
def eventCount (event : Dict) : Nat := (((getD event "count_min" .null).int?).getD 0).toNat

/-- `ev.get("period_ms")`; a period without a bound above is left out. -/
def eventPeriod (event : Dict) : Option (ℚ × ℚ) :=
  match getD event "period_ms" .null with
  | .list [lo, hi] =>
    match lo.number?, hi.number? with
    | some (.finite lo), some (.finite hi) => some (lo, hi)
    | _, _ => none
  | _ => none

/-- An event section as the runner reads it. -/
def eventOf (event : Dict) : Events := ⟨eventPattern event, eventCount event, eventPeriod event⟩

/-- What the scoring of the target reports as missed on the empty text. -/
def emptyMisses (py : Builtins) (task : Task) : List Missed :=
  (checkPatterns py [] task.expect task.fail).1 ++
    if task.target = unix then checkEvents py [] (task.events.map eventOf) else []

variable {lp : Python} {raw : Dict} {t : Text}

private theorem eventCount_pos {event : Dict} (h : checkEvent event = .ok ()) : 0 < eventCount event := by
  simp only [checkEvent, bind_eq_ok, require_eq_ok] at h
  obtain ⟨-, -, -, -, -, hcount, -⟩ := h
  unfold eventCount
  cases hint : (getD event "count_min" .null).int? with
  | none => simp [hint] at hcount
  | some n =>
    rw [hint] at hcount
    have hn : 1 ≤ n := by simpa using hcount
    show 0 < n.toNat
    omega

/-- The events of a loaded task are each asked for at least once. -/
private theorem eventCount_of_load {task : Task} (h : loadTask lp (.dict raw) = .ok task) :
    ∀ event ∈ task.events, 0 < eventCount event := by
  have hevents := (loadMapping_eq_ok.1 h).2.2.2.2.2.2.1
  simp only [loadEvents, bind_eq_ok, require_eq_ok, forM_eq_ok, pure_eq_ok] at hevents
  obtain ⟨-, -, events, -, -, hchecks, rfl⟩ := hevents
  intro event hevent
  exact eventCount_pos (hchecks event hevent)

private theorem checkEvents_nil (py : Builtins) (events : List Events) (hcount : ∀ ev ∈ events, 0 < ev.countMin) :
    checkEvents py [] events = events.map fun ev => .count ev.pattern 0 ev.countMin := by
  induction events with
  | nil => rfl
  | cons ev events ih =>
    have hstamps : (TextLines.splitlines []).filterMap (eventStamp py ev.pattern) = [] := rfl
    have hrest := ih fun ev hev => hcount ev (List.mem_cons_of_mem _ hev)
    have hev := hcount ev (by simp)
    unfold checkEvents at hrest ⊢
    rw [List.filterMap_cons, hrest]
    simp [hstamps, hev]

/-- An empty text misses something where an event is asked for or a pattern does not match it, and only there. -/
theorem misses_empty_iff (py : Builtins) {task : Task} (h : loadTask lp (.dict raw) = .ok task) (t : Text) :
    emptyMisses py (task.retarget t) ≠ [] ↔
      (t = unix ∧ task.events ≠ []) ∨ ∃ p ∈ task.expect, py.search p [] = none := by
  have hcount : ∀ ev ∈ task.events.map eventOf, 0 < ev.countMin := by
    intro ev hev
    obtain ⟨event, hevent, rfl⟩ := List.mem_map.1 hev
    exact eventCount_of_load h event hevent
  have hpatterns : (checkPatterns py [] task.expect task.fail).1 ≠ [] ↔ ∃ p ∈ task.expect, py.search p [] = none := by
    simp [checkPatterns]
  unfold emptyMisses Task.retarget
  dsimp only
  rw [Ne, List.append_eq_nil_iff, not_and_or, ← Ne, ← Ne, hpatterns, or_comm]
  apply or_congr_left
  by_cases hunix : t = unix
  · rw [if_pos hunix, checkEvents_nil py _ hcount]
    simp [hunix]
  · simp [hunix]

/-- What a search finds in the empty text: only the empty pattern. -/
def plainBuiltinsEmpty : Builtins where
  compiles := fun _ => true
  search := fun pattern text => if pattern.isPrefixOf text then some pattern.length else none
  float := fun _ => none

def expectNothing : Dict := [entryOf "name" (textOf "t"), entryOf "expect" (.list [textOf ""])]

def expectOk : Dict := [entryOf "name" (textOf "t"), entryOf "expect" (.list [textOf "ok"])]

theorem misses_empty_ok :
    ∃ task, loadTask plainPython (.dict expectOk) = .ok task ∧
      emptyMisses plainBuiltinsEmpty (task.retarget renode) ≠ [] := by
  obtain ⟨task, h, hexpect⟩ : ∃ task, loadTask plainPython (.dict expectOk) = .ok task ∧ task.expect = ["ok".toList] :=
    ⟨_, rfl, rfl⟩
  refine ⟨task, h, (misses_empty_iff plainBuiltinsEmpty h renode).2 (.inr ⟨"ok".toList, ?_, rfl⟩)⟩
  rw [hexpect]
  exact List.mem_singleton_self _

theorem expectNothing_passes :
    ∃ task, loadTask plainPython (.dict expectNothing) = .ok task ∧ checkTargetCompat (task.retarget real) = [] ∧
      emptyMisses plainBuiltinsEmpty (task.retarget real) = [] :=
  ⟨_, rfl, rfl, rfl⟩

end IronHarness.Tasks
