import IronHarness.Lib.Runs
import IronHarness.Runner.Log

/-!
# Two writers of the box

`_box_append` (ironbench/runner_unix.py), statement by statement: the reader thread and the collector of MQTT messages
append to the box of the unix runner under its lock.  Wherever the lock is free the chunks put together are the text;
the stamps never decrease, and the text is never longer than the cap and one marker (`Shared.Inv`).
-/

namespace IronHarness.Runner.Writers

open Runs

inductive Writer
  | reader
  | collector
  deriving DecidableEq

/-- Where the thread inside the lock stands: before the tests, before `chunks.append`, before `text +=`, at the end. -/
inductive Pc
  | check (chunk : List Char)
  | stamp (piece : List Char)
  | write (piece : List Char)
  | leave

/-- The box, the clock, and the thread inside the lock. -/
structure Shared where
  box : Box
  clock : ℚ
  inside : Option (Writer × Pc)

inductive Act
  /-- A thread calls `_box_append` and gets the lock. -/
  | enter (writer : Writer) (chunk : List Char)
  /-- A thread does its next statement; a stamp it takes is `now`. -/
  | next (writer : Writer) (now : ℚ)

/-- The statement at a place: the box behind it, and where the thread then stands. -/
def statement (b : Box) (now : ℚ) : Pc → Box × Option Pc
  | .check chunk =>
    if b.dropped then (b, some .leave)
    else if maxSerialText < b.text.length + chunk.length then
      ({ b with dropped := true }, some (.stamp truncationMarker))
    else (b, some (.stamp chunk))
  | .stamp piece => ({ b with chunks := b.chunks ++ [(now, piece)] }, some (.write piece))
  | .write piece => ({ b with text := b.text ++ piece }, some .leave)
  | .leave => (b, none)

def step (s : Shared) : Act → Option Shared
  | .enter writer chunk =>
    match s.inside with
    | some _ => none
    | none => some { s with inside := some (writer, .check chunk) }
  | .next writer now =>
    match s.inside with
    | none => none
    | some (owner, pc) =>
      if owner = writer ∧ s.clock ≤ now then
        some ⟨(statement s.box now pc).1, now, (statement s.box now pc).2.map fun pc => (owner, pc)⟩
      else none

def start (clock : ℚ) : Shared := ⟨emptyBox, clock, none⟩

/-! ### The invariant -/

/-- What the thread inside the lock has put into the chunks and not yet into the text. -/
def Pc.ahead : Pc → List Char
  | .write piece => piece
  | _ => []

/-- What it is going to put into the text. -/
def Pc.due : Pc → List Char
  | .stamp piece => piece
  | .write piece => piece
  | _ => []

/-- The room for the text: the cap, and one marker where the text was cut. -/
def room (b : Box) : Nat := maxSerialText + if b.dropped then truncationMarker.length else 0

/-- The box and the clock while a thread stands at `pc`, or none is inside. -/
structure Inv (b : Box) (clock : ℚ) (pc : Option Pc) : Prop where
  text : b.chunks.flatMap (·.2) = b.text ++ (pc.map Pc.ahead).getD []
  ordered : (b.chunks.map (·.1)).Pairwise (· ≤ ·)
  past : ∀ chunk ∈ b.chunks, chunk.1 ≤ clock
  fits : b.text.length + ((pc.map Pc.due).getD []).length ≤ room b

def Shared.Inv (s : Shared) : Prop := Writers.Inv s.box s.clock (s.inside.map (·.2))

theorem inv_start (clock : ℚ) : (start clock).Inv := by
  constructor
  · rfl
  · exact List.Pairwise.nil
  · exact List.forall_mem_nil _
  · exact Nat.zero_le _

variable {s s' : Shared} {b : Box} {clock now : ℚ}

theorem Inv.later {pc : Option Pc} (h : Inv b clock pc) (hnow : clock ≤ now) : Inv b now pc :=
  ⟨h.text, h.ordered, fun chunk hmem => (h.past chunk hmem).trans hnow, h.fits⟩

private theorem inv_check {chunk : List Char} (h : Inv b now (some (.check chunk))) :
    Inv (statement b now (.check chunk)).1 now (statement b now (.check chunk)).2 := by
  obtain ⟨htext, hordered, hpast, hfits⟩ := h
  rw [statement]
  split
  · exact ⟨htext, hordered, hpast, hfits⟩
  · rename_i hdropped
    have hroom : room b = maxSerialText := by simp [room, hdropped]
    rw [hroom] at hfits
    split
    · refine ⟨htext, hordered, hpast, ?_⟩
      have hmarked : room { b with dropped := true } = maxSerialText + truncationMarker.length := rfl
      rw [hmarked]
      simpa [Pc.due] using hfits
    · rename_i hroomy
      refine ⟨htext, hordered, hpast, ?_⟩
      rw [hroom]
      exact Nat.not_lt.1 hroomy

private theorem inv_stamp {piece : List Char} (h : Inv b now (some (.stamp piece))) :
    Inv (statement b now (.stamp piece)).1 now (statement b now (.stamp piece)).2 := by
  obtain ⟨htext, hordered, hpast, hfits⟩ := h
  have htext' : b.chunks.flatMap (·.2) = b.text := by simpa [Pc.ahead] using htext
  refine ⟨?_, ?_, ?_, hfits⟩
  · simp [statement, Pc.ahead, htext']
  · rw [statement, List.map_append, List.pairwise_append]
    refine ⟨hordered, List.pairwise_singleton _ _, ?_⟩
    intro stamp hstamp later hlater
    obtain ⟨chunk, hchunk, rfl⟩ := List.mem_map.1 hstamp
    obtain rfl := List.mem_singleton.1 hlater
    exact hpast chunk hchunk
  · intro chunk hchunk
    rcases List.mem_append.1 hchunk with hchunk | hchunk
    · exact hpast chunk hchunk
    · obtain rfl := List.mem_singleton.1 hchunk
      exact le_rfl

private theorem inv_statement {pc : Pc} (h : Inv b now (some pc)) :
    Inv (statement b now pc).1 now (statement b now pc).2 := by
  cases pc with
  | check chunk => exact inv_check h
  | stamp piece => exact inv_stamp h
  | write piece =>
    obtain ⟨htext, hordered, hpast, hfits⟩ := h
    refine ⟨?_, hordered, hpast, ?_⟩
    · simpa [statement, Pc.ahead] using htext
    · have hlength : (b.text ++ piece).length ≤ room b := by
        rw [List.length_append]
        exact hfits
      exact hlength
  | leave => exact ⟨h.text, h.ordered, h.past, h.fits⟩

private theorem inv_step {a : Act} (hstep : step s a = some s') (h : s.Inv) : s'.Inv := by
  cases a with
  | enter writer chunk =>
    rw [step] at hstep
    cases hinside : s.inside with
    | some inside => rw [hinside] at hstep; cases hstep
    | none =>
      rw [hinside] at hstep
      obtain rfl := Option.some.inj hstep
      rw [Shared.Inv, hinside] at h
      exact ⟨h.text, h.ordered, h.past, h.fits⟩
  | next writer now =>
    rw [step] at hstep
    cases hinside : s.inside with
    | none => rw [hinside] at hstep; cases hstep
    | some inside =>
      obtain ⟨owner, pc⟩ := inside
      rw [hinside] at hstep
      dsimp only at hstep
      split at hstep
      · rename_i hguard
        obtain rfl := Option.some.inj hstep
        rw [Shared.Inv, hinside] at h
        have hnext := inv_statement (h.later hguard.2)
        rw [Shared.Inv, Option.map_map]
        convert hnext
        exact Option.map_id_apply ..
      · cases hstep

/-- In every state that a run reaches. -/
theorem inv_run {acts : List Act} (hrun : run step (start clock) acts = some s) : s.Inv :=
  Runs.invariant (fun _ _ _ => inv_step) hrun (inv_start clock)

theorem Shared.Inv.consistent (h : s.Inv) (hfree : s.inside = none) : s.box.Consistent := by
  rw [Shared.Inv, hfree] at h
  have htext : s.box.chunks.flatMap (·.2) = s.box.text := by simpa using h.text
  exact htext.symm

theorem Shared.Inv.length_le (h : s.Inv) : s.box.text.length ≤ maxSerialText + truncationMarker.length := by
  have hfits := h.fits
  unfold room at hfits
  split at hfits <;> omega

/-- A whole block of one thread is one `Box.append`, whatever the other thread would do. -/
theorem block_append (b : Box) (clock : ℚ) (writer : Writer) (chunk : List Char) (hclock : clock ≤ now) :
    ∃ statements, statements ≤ 4 ∧
      run step ⟨b, clock, none⟩ (.enter writer chunk :: List.replicate statements (.next writer now)) =
        some ⟨b.append now chunk, now, none⟩ := by
  by_cases hdropped : b.dropped = true
  · refine ⟨2, by decide, ?_⟩
    simp [run, step, statement, Box.append, hdropped, hclock, List.replicate]
  · refine ⟨4, Nat.le_refl 4, ?_⟩
    by_cases hfull : maxSerialText < b.text.length + chunk.length
    · simp [run, step, statement, Box.append, hdropped, hfull, hclock, List.replicate]
    · simp [run, step, statement, Box.append, hdropped, hfull, hclock, List.replicate]

end IronHarness.Runner.Writers
