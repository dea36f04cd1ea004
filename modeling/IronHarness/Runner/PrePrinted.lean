import IronHarness.Lib.LineEnds
import IronHarness.Runner.Unix

/-!
# The boot-dump verdict of Wokwi

`_pre_printed_error` (ironbench/runner_wokwi.py).  The anchor is counted from the lines, one character for each end,
and the literals are found in the text.  What is left of `\r\r\n` once `\r\n` is a newline is an end of two characters,
so the anchor is right if and only if no such line stands before the echoed one (`pre_printed_exact_iff`).
-/

namespace IronHarness.Runner

open ByteText TextLines

namespace Wokwi

/-- A task of the wokwi target, with the startup output it declares. -/
structure WokwiTask extends Task where
  bootExpect : List (List Char)

/-- `text.replace("\r\n", newline)` -/
def replaceCrlf (newline : Char) : List Char → List Char
  | '\r' :: '\n' :: r => newline :: replaceCrlf newline r
  | c :: r => c :: replaceCrlf newline r
  | [] => []

/-- The log with its newlines made one. -/
def normalize (log : List Char) : List Char := replaceCrlf '\n' log

def payload (data : List Char) : List Char :=
  strip ((replaceCrlf '\r' data).map fun c => if c = '\n' then '\r' else c)

/-- What the stimulus writes, where it is not blank. -/
def payloads (task : Task) : List (List Char) :=
  ((task.stimulus.filterMap (·.writeSerial)).map payload).filter fun data => !data.isEmpty

/-- The loop over the lines, `offset` characters into the text. -/
def anchorFrom (offset : Nat) (payload : List Char) : List Line → Option Nat
  | [] => none
  | line :: rest => if strip line = payload then some offset else anchorFrom (offset + (line.length + 1)) payload rest

/-- The anchor: of the first payload that has a line of its own. -/
def anchor (text : List Char) (payloads : List (List Char)) : Option Nat :=
  payloads.findSome? fun payload => anchorFrom 0 payload (splitlines text)

/-- The literal is one that the task neither declares as startup output nor may find before the position. -/
def dumpedBefore (text : List Char) (task : WokwiTask) (start : Nat) (literal : List Char) : Bool :=
  !literal.isEmpty && isPlainText literal && !task.bootExpect.contains literal &&
    (find literal text).any fun pos => pos < start

/-- `_pre_printed_error`: the literal that is condemned. -/
def prePrintedError (log : List Char) (task : WokwiTask) : Option (List Char) :=
  let text := normalize log
  match anchor text (payloads task.toTask) with
  | none => none
  | some start => task.expect.find? (dumpedBefore text task start)

/-! ### The anchor -/

/-- These are the lines before the first one that is, but for white space, the first payload echoed at all. -/
def Echoed (text : List Char) (payloads : List (List Char)) (before : List Cut) : Prop :=
  ∃ skipped payload later cut after, payloads = skipped ++ payload :: later ∧
    (∀ p ∈ skipped, ∀ line ∈ splitlines text, strip line ≠ p) ∧
    cutLines text = before ++ cut :: after ∧ strip cut.1 = payload ∧ ∀ b ∈ before, strip b.1 ≠ payload

/-- The literal is plain text, not startup output, and first occurs before the position. -/
def Dumped (text : List Char) (task : WokwiTask) (start : Nat) (literal : List Char) : Prop :=
  literal ≠ [] ∧ isPlainText literal = true ∧ literal ∉ task.bootExpect ∧ ∃ pos, find literal text = some pos ∧ pos < start

/-- The verdict is positional and exact. -/
structure Exact (log : List Char) (task : WokwiTask) : Prop where
  /-- the anchor is where the echoed line begins -/
  anchor : ∀ before, Echoed (normalize log) (payloads task.toTask) before →
    Wokwi.anchor (normalize log) (payloads task.toTask) = some (whole before).length
  /-- the first literal that begins before the echoed line is condemned -/
  condemned : ∀ before, Echoed (normalize log) (payloads task.toTask) before → ∀ literal,
    prePrintedError log task = some literal ↔ ∃ front back, task.expect = front ++ literal :: back ∧
      Dumped (normalize log) task (whole before).length literal ∧
      ∀ other ∈ front, ¬ Dumped (normalize log) task (whole before).length other
  /-- without an echo none is -/
  unechoed : (¬ ∃ before, Echoed (normalize log) (payloads task.toTask) before) → prePrintedError log task = none

variable {text payload : List Char} {payloads : List (List Char)} {before : List Cut}

private theorem dumpedBefore_iff {task : WokwiTask} {start : Nat} {literal : List Char} :
    dumpedBefore text task start literal = true ↔ Dumped text task start literal := by
  simp [dumpedBefore, Dumped, Option.any_eq_true, and_assoc]

private theorem anchorFrom_eq_none {offset : Nat} {lines : List Line} :
    anchorFrom offset payload lines = none ↔ ∀ line ∈ lines, strip line ≠ payload := by
  induction lines generalizing offset with
  | nil => simp [anchorFrom]
  | cons line rest ih =>
    rw [anchorFrom]
    split
    · rename_i hline
      simp [hline]
    · rename_i hline
      rw [ih, List.forall_mem_cons]
      exact ⟨fun h => ⟨hline, h⟩, fun h => h.2⟩

private theorem anchorFrom_before {offset : Nat} {cut : Cut} {after : List Cut} (hcut : strip cut.1 = payload)
    (hbefore : ∀ b ∈ before, strip b.1 ≠ payload) :
    anchorFrom offset payload ((before ++ cut :: after).map (·.1)) =
      some (offset + (before.map fun b => b.1.length + 1).sum) := by
  induction before generalizing offset with
  | nil => simp [anchorFrom, hcut]
  | cons b before ih =>
    rw [List.cons_append, List.map_cons, anchorFrom, if_neg (hbefore b List.mem_cons_self),
      ih fun b' hb' => hbefore b' (List.mem_cons_of_mem b hb'), List.map_cons, List.sum_cons]
    congr 1
    omega

/-- The anchor counts one character for each end. -/
private theorem anchor_of_echoed (h : Echoed text payloads before) :
    anchor text payloads = some (before.map fun b => b.1.length + 1).sum := by
  obtain ⟨skipped, payload, later, cut, after, rfl, hskipped, hcuts, hcut, hbefore⟩ := h
  have hlines : splitlines text = (before ++ cut :: after).map (·.1) := by rw [← map_fst_cutLines, hcuts]
  rw [anchor, List.findSome?_append]
  have hnone : skipped.findSome? (fun payload => anchorFrom 0 payload (splitlines text)) = none := by
    apply List.findSome?_eq_none_iff.2
    intro p hp
    exact anchorFrom_eq_none.2 (hskipped p hp)
  rw [hnone, Option.none_or, List.findSome?_cons, hlines, anchorFrom_before hcut hbefore, Nat.zero_add]

/-- Where there is an anchor, a line is echoed. -/
private theorem echoed_of_anchor {start : Nat} (h : anchor text payloads = some start) :
    ∃ before, Echoed text payloads before := by
  obtain ⟨skipped, payload, later, rfl, hstart, hskipped⟩ := List.findSome?_eq_some_iff.1 h
  have hsome : ∃ line ∈ splitlines text, strip line = payload := by
    by_contra hnone
    simp only [not_exists, not_and] at hnone
    rw [anchorFrom_eq_none.2 hnone] at hstart
    cases hstart
  rw [← map_fst_cutLines] at hsome
  obtain ⟨line, hline, hpayload⟩ := hsome
  obtain ⟨cut, hmem, rfl⟩ := List.mem_map.1 hline
  obtain ⟨first, hfirst⟩ : ∃ first, (cutLines text).find? (fun c => strip c.1 = payload) = some first := by
    apply Option.isSome_iff_exists.1
    rw [List.find?_isSome]
    exact ⟨cut, hmem, by simpa using hpayload⟩
  obtain ⟨hcut, before, after, hcuts, hbefore⟩ := List.find?_eq_some_iff_append.1 hfirst
  refine ⟨before, skipped, payload, later, first, after, rfl, ?_, hcuts, by simpa using hcut, ?_⟩
  · intro p hp
    exact anchorFrom_eq_none.1 (hskipped p hp)
  · intro b hb
    simpa using hbefore b hb

/-- The anchor falls short of the echoed line by the lines before it that end in `\r\n`. -/
private theorem length_of_echoed (h : Echoed text payloads before) :
    (whole before).length = (before.map fun b => b.1.length + 1).sum + before.countP (fun b => b.2 = crlf) := by
  obtain ⟨_, _, _, cut, after, -, -, hcuts, -⟩ := h
  exact length_whole (end_of_cutLines hcuts)

/-- The verdict is positional and exact if and only if no line before the echoed one ends in `\r\n` once `\r\n` is made
a newline. -/
theorem pre_printed_exact_iff (log : List Char) (task : WokwiTask) :
    Exact log task ↔
      ∀ before, Echoed (normalize log) (Wokwi.payloads task.toTask) before → ∀ b ∈ before, b.2 ≠ crlf := by
  constructor
  · intro hexact before hechoed b hb hend
    have hanchor := hexact.anchor before hechoed
    rw [anchor_of_echoed hechoed, length_of_echoed hechoed] at hanchor
    have hpos : 0 < before.countP (fun b => b.2 = crlf) := List.countP_pos_iff.2 ⟨b, hb, by simpa using hend⟩
    have hsum := Option.some.inj hanchor
    omega
  · intro hplain
    have hanchor : ∀ before, Echoed (normalize log) (Wokwi.payloads task.toTask) before →
        Wokwi.anchor (normalize log) (Wokwi.payloads task.toTask) = some (whole before).length := by
      intro before hechoed
      have hzero : before.countP (fun b => b.2 = crlf) = 0 := by
        apply List.countP_eq_zero.2
        intro b hb
        simpa using hplain before hechoed b hb
      rw [anchor_of_echoed hechoed, length_of_echoed hechoed, hzero, Nat.add_zero]
    refine ⟨hanchor, ?_, ?_⟩
    · intro before hechoed literal
      rw [prePrintedError, hanchor before hechoed]
      dsimp only
      rw [List.find?_eq_some_iff_append]
      constructor
      · rintro ⟨hliteral, front, back, hexpect, hfront⟩
        refine ⟨front, back, hexpect, dumpedBefore_iff.1 hliteral, fun other hother => ?_⟩
        rw [← dumpedBefore_iff]
        simpa using hfront other hother
      · rintro ⟨front, back, hexpect, hliteral, hfront⟩
        refine ⟨dumpedBefore_iff.2 hliteral, front, back, hexpect, fun other hother => ?_⟩
        have hother' := hfront other hother
        rw [← dumpedBefore_iff] at hother'
        simpa using hother'
    · intro hnone
      rw [prePrintedError]
      cases hstart : Wokwi.anchor (normalize log) (Wokwi.payloads task.toTask) with
      | none => rfl
      | some start => exact absurd (echoed_of_anchor hstart) hnone

/-- One write and one expected answer. -/
def pingTask : WokwiTask where
  name := "ping".toList
  timeoutSec := 30
  expect := ["ok".toList]
  fail := []
  stimulus := [{ emptyStep with writeSerial := some "ping\n".toList }]
  mqtt := false
  events := []
  bootExpect := []

/-- The answer stands in the log before the echo, behind four lines that end in `\r\r\n`. -/
def returnsLog : List Char := "\r\r\n\r\r\n\r\r\n\r\r\nok\nping\n".toList

/-- The dump behind the lines with two returns is not condemned. -/
theorem returns_hide_dump : ¬ ∀ log task, Exact log task := by
  intro hclaim
  have hexact := hclaim returnsLog pingTask
  have hechoed : Echoed (normalize returnsLog) (payloads pingTask.toTask)
      [([], crlf), ([], crlf), ([], crlf), ([], crlf), ("ok".toList, ['\n'])] := by
    refine ⟨[], "ping".toList, [], ("ping".toList, ['\n']), [], ?_, ?_, ?_, ?_, ?_⟩
    all_goals decide +kernel
  have hnone : prePrintedError returnsLog pingTask = none := by decide +kernel
  have hdumped : Dumped (normalize returnsLog) pingTask
      (whole [([], crlf), ([], crlf), ([], crlf), ([], crlf), ("ok".toList, ['\n'])]).length "ok".toList :=
    dumpedBefore_iff.1 (by decide +kernel)
  have hsome := (hexact.condemned _ hechoed "ok".toList).2 ⟨[], [], rfl, hdumped, by simp⟩
  rw [hnone] at hsome
  cases hsome

end Wokwi

end IronHarness.Runner
