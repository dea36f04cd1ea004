import IronHarness.Runner.Echo
import IronHarness.Runner.Waits

/-!
# The real runner

`_run_real` (ironbench/runner_real.py) from the end of the staging on, as a machine: one step is what it does between
two looks at the world.  There is no reader thread: what the board has sent is read where the runner asks for the
output (`Pc.pumps`), and stamped then.  Its wait loop looks twice like that of the unix runner (`realLoop`), so both
agree with their verdicts in the same runs (`verdicts_agree_iff`); the answer that comes in between the two looks is
lost (`late_look_disagrees`).
-/

namespace IronHarness.Runner

open ByteText Segments Runs TextLines

namespace Real

/-! ### The log -/

/-- What `_pump` makes of one read. -/
def retain (b : Box) (now : ℚ) (chunk : List Char) : Box :=
  if maxSerialText ≤ b.text.length then
    if b.dropped then b
    else { b with dropped := true, chunks := b.chunks ++ [(now, truncationMarker)], text := b.text ++ truncationMarker }
  else { b with chunks := b.chunks ++ [(now, chunk)], text := b.text ++ chunk }

/-- `_pump` -/
def pump (b : Box) (reads : Chunks) : Box := reads.foldl (fun box read => retain box read.1 read.2) b

private theorem grows_retain (b : Box) (now : ℚ) (chunk : List Char) : b.Grows (retain b now chunk) := by
  unfold retain
  split
  · split
    · exact .refl b
    · exact ⟨List.prefix_append _ _, List.prefix_append _ _⟩
  · exact ⟨List.prefix_append _ _, List.prefix_append _ _⟩

private theorem grows_pump (b : Box) (reads : Chunks) : b.Grows (pump b reads) := by
  induction reads generalizing b with
  | nil => exact .refl b
  | cons read rest ih => exact (grows_retain b read.1 read.2).trans (ih _)

theorem consistent_retain {b : Box} (h : b.Consistent) (now : ℚ) (chunk : List Char) :
    (retain b now chunk).Consistent := by
  unfold Box.Consistent at h
  unfold retain
  split
  · split
    · exact h
    · simp [Box.Consistent, h]
  · simp [Box.Consistent, h]

private theorem consistent_pump {b : Box} (h : b.Consistent) (reads : Chunks) : (pump b reads).Consistent := by
  induction reads generalizing b with
  | nil => exact h
  | cons read rest ih => exact ih (consistent_retain h read.1 read.2)

/-- The log as the staging leaves it. -/
structure Staged where
  box : Box
  consistent : box.Consistent

private theorem truncateAfterStagingEcho_text {code text text' : List Char} {chunks chunks' : Chunks}
    (h : chunks.flatMap (·.2) = text) (hcut : truncateAfterStagingEcho code text chunks = .ok (text', chunks')) :
    text' = chunks'.flatMap (·.2) := by
  have hsame : ∀ {pair : List Char × Chunks}, Except.ok (ε := List Char) pair = .ok (text', chunks') →
      pair.2.flatMap (·.2) = pair.1 → text' = chunks'.flatMap (·.2) := by
    intro pair hpair htext
    obtain rfl := Except.ok.inj hpair
    exact htext.symm
  unfold truncateAfterStagingEcho at hcut
  split at hcut
  · exact hsame hcut h
  · split at hcut
    · exact hsame hcut (truncateTextAndChunks_text h)
    · split at hcut
      · split at hcut
        · cases hcut
        · exact hsame hcut h
      · exact hsame hcut h

/-- The end of `boot`: the log was emptied, though not the mark that it was truncated, and it is cut behind the echo of
the source. -/
def stage (code : List Char) (truncated : Bool) (reads : Chunks) : Except (List Char) Staged :=
  let b := pump { emptyBox with dropped := truncated } reads
  match hcut : truncateAfterStagingEcho code b.text b.chunks with
  | .error message => .error message
  | .ok (text, chunks) =>
    .ok ⟨{ b with text := text, chunks := chunks },
      truncateAfterStagingEcho_text (consistent_pump (b := { emptyBox with dropped := truncated }) rfl reads).symm hcut⟩

/-! ### The machine -/

/-- How a call to the board ends when it raises. -/
inductive Failure
  | timeout
  | broken

/-- What the runner meets in one step. -/
structure Look where
  /-- what one `_pump` reads, with the stamps -/
  reads : Chunks
  now : ℚ
  raises : Option Failure

inductive Error
  | timeout
  | infra
  | prePrinted (needle : List Char)

inductive ErrorKind
  | none
  | timeout
  | infra
  | run

def errorKind : Option Error → ErrorKind
  | none => .none
  | some .timeout => .timeout
  | some .infra => .infra
  | some (.prePrinted _) => .run

structure Result where
  passed : Bool
  missed : List Missed
  hitFail : List (List Char)
  error : Option Error
  errorKind : ErrorKind

/-- Where `_run_real` stands. -/
inductive Pc
  /-- at the head of `for step in task.stimulus` -/
  | next (i : Nat)
  /-- in the loop of a `wait-serial` step: about to look for the answer -/
  | polling (i : Nat) (needle : List Char)
  /-- no answer so far: about to look for the needle -/
  | unanswered (i : Nat) (needle : List Char)
  /-- at a `write-serial` step: about to drain the buffer of the board -/
  | draining (i : Nat)
  | stamping (i : Nat)
  | writing (i : Nat)
  /-- after the stimulus: reading on until the literal expects are there -/
  | settling
  | collecting (rest : List (List Char))
  | reading
  /-- the verdict over the waits not yet replayed -/
  | replaying (rest : List Wait)
  | scoring
  | done (result : Result)
  | raised

structure State where
  pc : Pc
  box : Box
  deadline : ℚ
  /-- every `wait-serial` step reached, with the trigger stamp at that moment -/
  waited : List Wait
  lastTriggerStamp : Option ℚ
  error : Option Error
  serialText : List Char

def start (deadline : ℚ) (staged : Staged) : State := ⟨.next 0, staged.box, deadline, [], none, none, []⟩

/-- A task whose waits `load_task` has accepted, for whatever target. -/
structure LoadedTask extends Task where
  answers : toTask.stimulus.all (fun st => st.waitSerial.all fun answer => !(strip answer).isEmpty) = true

/-- The branch `_run_real` takes. -/
def action (st : Step) : Action :=
  match st.delay, st.waitSerial, st.writeSerial with
  | some seconds, _, _ => .delay seconds
  | none, some needle, _ => .wait needle
  | none, none, some data => .write data
  | none, none, none => .skip

/-- `repl.output()` is called here. -/
def Pc.pumps : Pc → Bool
  | .polling .. | .unanswered .. | .draining _ | .collecting (_ :: _) | .reading => true
  | _ => false

/-- The log as a step finds it. -/
def State.heard (s : State) (m : Look) : Box := if s.pc.pumps then pump s.box m.reads else s.box

/-- One of the handlers around the run takes the exception. -/
def State.fail (s : State) : Failure → State
  | .timeout => { s with error := some .timeout, pc := .scoring }
  | .broken => { s with error := some .infra, pc := .scoring }

/-- The head of the stimulus loop, with its deadline, and a step that sends and reads nothing. -/
def State.enter (task : Task) (s : State) (now : ℚ) (i : Nat) : State :=
  match task.stimulus[i]? with
  | none => { s with pc := .settling }
  | some st =>
    if s.deadline < now then { s with pc := .settling }
    else
      match action st with
      | .wait needle => { s with waited := s.waited ++ [(needle, s.lastTriggerStamp)], pc := .polling i needle }
      | .delay none => s.fail .broken
      | .delay (some seconds) => if seconds < 0 then s.fail .broken else { s with pc := .next (i + 1) }
      | .write _ => { s with pc := .draining i }
      | .publish _ | .collect _ | .skip => { s with pc := .next (i + 1) }

/-- The expects that are plain text. -/
def plain (task : Task) : List (List Char) := task.expect.filter fun pattern => !pattern.isEmpty && isPlainText pattern

def State.result (py : Builtins) (task : Task) (s : State) : Result :=
  let (missed, hitFail) := checkPatterns py s.serialText task.expect task.fail
  ⟨missed.isEmpty && hitFail.isEmpty && s.error.isNone, missed, hitFail, s.error, errorKind s.error⟩

/-- What the runner does at one place, with the log as it finds it, where no call raises. -/
def act (py : Builtins) (task : Task) (s : State) (now : ℚ) : Option State :=
  match s.pc with
  | .next i => some (s.enter task now i)
  | .polling i needle =>
    match s.box.firstAnswerStamp needle s.lastTriggerStamp with
    | some _ => some { s with pc := .next (i + 1) }
    | none => some { s with pc := .unanswered i needle }
  | .unanswered i needle =>
    if occurs needle s.box.text || s.deadline ≤ now then some { s with pc := .settling }
    else some { s with pc := .polling i needle }
  | .draining i => some { s with pc := .stamping i }
  | .stamping i => some { s with lastTriggerStamp := some now, pc := .writing i }
  | .writing i => some { s with pc := .next (i + 1) }
  | .settling =>
    if now < s.deadline then
      if plain task = [] then some s else some { s with pc := .collecting (plain task) }
    else some { s with pc := .reading }
  | .collecting [] => some { s with pc := .reading }
  | .collecting (pattern :: rest) =>
    if occurs pattern s.box.text then some { s with pc := .collecting rest } else some { s with pc := .settling }
  | .reading => some { s with serialText := s.box.text, pc := .replaying s.waited }
  | .replaying [] => some { s with pc := .scoring }
  | .replaying ((needle, since) :: rest) =>
    if occurs needle s.serialText && (s.box.firstAnswerStamp needle since).isNone then
      some { s with error := some (.prePrinted needle), pc := .scoring }
    else some { s with pc := .replaying rest }
  | .scoring => some { s with pc := .done (s.result py task) }
  | .done _ | .raised => none

/-- A call to the board is made here. -/
def Pc.calls : Pc → Bool
  | .writing _ => true
  | pc => pc.pumps

/-- One step: a call may raise, and so may the writing of the log to a file, outside of the handlers. -/
def step (py : Builtins) (task : Task) (s : State) (m : Look) : Option State :=
  let s := { s with box := s.heard m }
  match m.raises, s.pc with
  | some _, .scoring => some { s with pc := .raised }
  | some failure, pc => if pc.calls then some (s.fail failure) else act py task s m.now
  | none, _ => act py task s m.now

/-! ### The wait loop -/

variable {task : Task} {py : Builtins} {s s' : State} {m : Look}

/-- The needle the loop is waiting for. -/
def Pc.waitsFor : Pc → Option (List Char)
  | .polling _ needle => some needle
  | .unanswered _ needle => some needle
  | _ => none

/-- What a step does, once the log is read: the log stays, and the log the verdict goes over is its text. -/
structure LogStep (task : Task) (s s' : State) : Prop where
  box : s'.box = s.box
  replay : ∀ rest, s'.pc = .replaying rest →
    s'.serialText = s.box.text ∨ (∃ rest', s.pc = .replaying rest') ∧ s'.serialText = s.serialText
  waits : ∀ needle, s'.pc.waitsFor = some needle → s.pc.waitsFor = some needle ∨ ∃ i, task.wait i = some needle
  unanswered : ∀ i needle, s'.pc = .unanswered i needle →
    s.box.firstAnswerStamp needle s.lastTriggerStamp = none ∧ s'.lastTriggerStamp = s.lastTriggerStamp

theorem LogStep.of_moves (hbox : s'.box = s.box) (hreplay : ∀ rest, s'.pc ≠ .replaying rest)
    (hwaits : s'.pc.waitsFor = none) : LogStep task s s' where
  box := hbox
  replay rest h := absurd h (hreplay rest)
  waits needle h := by
    rw [hwaits] at h
    cases h
  unanswered i needle h := by
    rw [h] at hwaits
    cases hwaits

private theorem logStep_fail (s : State) (failure : Failure) : LogStep task s (s.fail failure) := by
  cases failure <;> exact .of_moves rfl (fun _ h => by cases h) rfl

theorem action_eq_wait {st : Step} {needle : List Char} (h : action st = .wait needle) :
    st.waitSerial = some needle := by
  unfold action at h
  split at h
  · cases h
  · rename_i _ hwait
    obtain rfl := Action.wait.inj h
    exact hwait
  · cases h
  · cases h

theorem logStep_enter (now : ℚ) (i : Nat) : LogStep task s (s.enter task now i) := by
  unfold State.enter
  split
  · exact .of_moves rfl (fun _ h => by cases h) rfl
  · rename_i st hst
    split
    · exact .of_moves rfl (fun _ h => by cases h) rfl
    · split
      · rename_i needle haction
        refine ⟨rfl, (fun _ h => by cases h), ?_, (fun _ _ h => by cases h)⟩
        rintro answer hanswer
        obtain rfl := Option.some.inj hanswer
        refine .inr ⟨i, ?_⟩
        rw [Task.wait, hst]
        exact action_eq_wait haction
      · exact logStep_fail s .broken
      · split
        · exact logStep_fail s .broken
        · exact .of_moves rfl (fun _ h => by cases h) rfl
      all_goals exact .of_moves rfl (fun _ h => by cases h) rfl

theorem act_log {now : ℚ} (hact : act py task s now = some s') : LogStep task s s' := by
  have hmove : ∀ {t : State}, some t = some s' → t.box = s.box → (∀ rest, t.pc ≠ .replaying rest) →
      t.pc.waitsFor = none → LogStep task s s' := by
    intro t ht hbox hreplay hwaits
    obtain rfl := Option.some.inj ht
    exact .of_moves hbox hreplay hwaits
  unfold act at hact
  cases hpc : s.pc with
  | next i =>
    simp only [hpc] at hact
    obtain rfl := Option.some.inj hact
    exact logStep_enter now i
  | polling i needle =>
    simp only [hpc] at hact
    cases hstamp : s.box.firstAnswerStamp needle s.lastTriggerStamp with
    | some stamp =>
      rw [hstamp] at hact
      exact hmove hact rfl (fun _ h => by cases h) rfl
    | none =>
      rw [hstamp] at hact
      obtain rfl := Option.some.inj hact
      refine ⟨rfl, (fun _ h => by cases h), fun answer h => .inl ?_, ?_⟩
      · rw [hpc]
        exact h
      · rintro _ _ ⟨⟩
        exact ⟨hstamp, rfl⟩
  | unanswered i needle =>
    simp only [hpc] at hact
    apply of_ite hact fun hact => hmove hact rfl (fun _ h => by cases h) rfl
    intro hact
    obtain rfl := Option.some.inj hact
    refine ⟨rfl, (fun _ h => by cases h), fun answer h => .inl ?_, (fun _ _ h => by cases h)⟩
    rw [hpc]
    exact h
  | draining i | stamping i | writing i | scoring =>
    simp only [hpc] at hact
    exact hmove hact rfl (fun _ h => by cases h) rfl
  | settling =>
    simp only [hpc] at hact
    apply of_ite hact _ fun hact => hmove hact rfl (fun _ h => by cases h) rfl
    intro hact
    apply of_ite hact _ fun hact => hmove hact rfl (fun _ h => by cases h) rfl
    intro hact
    exact hmove hact rfl (by simp [hpc]) (by rw [hpc]; rfl)
  | collecting rest =>
    cases rest with
    | nil =>
      simp only [hpc] at hact
      exact hmove hact rfl (fun _ h => by cases h) rfl
    | cons pattern rest =>
      simp only [hpc] at hact
      exact of_ite hact (fun hact => hmove hact rfl (fun _ h => by cases h) rfl) fun hact => hmove hact rfl (fun _ h => by cases h) rfl
  | reading =>
    simp only [hpc] at hact
    obtain rfl := Option.some.inj hact
    exact ⟨rfl, fun rest _ => .inl rfl, (fun _ h => by cases h), (fun _ _ h => by cases h)⟩
  | replaying rest =>
    cases rest with
    | nil =>
      simp only [hpc] at hact
      exact hmove hact rfl (fun _ h => by cases h) rfl
    | cons entry rest =>
      simp only [hpc] at hact
      apply of_ite hact fun hact => hmove hact rfl (fun _ h => by cases h) rfl
      intro hact
      obtain rfl := Option.some.inj hact
      exact ⟨rfl, fun _ _ => .inr ⟨⟨_, hpc⟩, rfl⟩, (fun _ h => by cases h), (fun _ _ h => by cases h)⟩
  | done result | raised =>
    simp only [hpc] at hact
    cases hact

private theorem step_log (hstep : step py task s m = some s') : LogStep task { s with box := s.heard m } s' := by
  unfold step at hstep
  dsimp only at hstep
  split at hstep
  · obtain rfl := Option.some.inj hstep
    exact .of_moves rfl (fun _ h => by cases h) rfl
  · apply of_ite hstep _ act_log
    intro hfail
    obtain rfl := Option.some.inj hfail
    exact logStep_fail _ _
  · exact act_log hstep

theorem grows_heard (s : State) (m : Look) : s.box.Grows (s.heard m) := by
  unfold State.heard
  split
  · exact grows_pump s.box m.reads
  · exact .refl s.box

theorem consistent_heard (h : s.box.Consistent) : (s.heard m).Consistent := by
  unfold State.heard
  split
  · exact consistent_pump h m.reads
  · exact h

def State.firstLook (s : State) : Option Wait :=
  match s.pc with
  | .polling _ needle => some (needle, s.lastTriggerStamp)
  | _ => none

def State.secondLook (s : State) : Option Wait :=
  match s.pc with
  | .unanswered _ needle => some (needle, s.lastTriggerStamp)
  | _ => none

/-- The log of the verdict, while it goes over the waits. -/
def State.taken (s : State) : Option (List Char) :=
  match s.pc with
  | .replaying _ => some s.serialText
  | _ => none

theorem State.firstLook_eq_some {wait : Wait} (h : s.firstLook = some wait) :
    s.pc.waitsFor = some wait.1 ∧ wait.2 = s.lastTriggerStamp ∧ s.taken = none := by
  unfold State.firstLook at h
  split at h
  · rename_i i needle hpc
    obtain rfl := Option.some.inj h
    exact ⟨by rw [hpc]; rfl, rfl, by rw [State.taken, hpc]⟩
  · cases h

theorem State.secondLook_eq_some {wait : Wait} (h : s.secondLook = some wait) :
    (∃ i, s.pc = .unanswered i wait.1) ∧ wait.2 = s.lastTriggerStamp ∧ s.taken = none := by
  unfold State.secondLook at h
  split at h
  · rename_i i needle hpc
    obtain rfl := Option.some.inj h
    exact ⟨⟨i, hpc⟩, rfl, by rw [State.taken, hpc]⟩
  · cases h

theorem State.look_of_waitsFor {needle : List Char} (h : s.pc.waitsFor = some needle) :
    s.firstLook = some (needle, s.lastTriggerStamp) ∨ s.secondLook = some (needle, s.lastTriggerStamp) := by
  unfold Pc.waitsFor at h
  split at h
  · rename_i i answer hpc
    obtain rfl := Option.some.inj h
    exact .inl (by rw [State.firstLook, hpc])
  · rename_i i answer hpc
    obtain rfl := Option.some.inj h
    exact .inr (by rw [State.secondLook, hpc])
  · cases h

theorem LoadedTask.wait_ne_nil (task : LoadedTask) {i : Nat} {needle : List Char} (h : task.wait i = some needle) :
    needle ≠ [] := by
  obtain ⟨st, hst, hwait⟩ := Option.bind_eq_some_iff.1 h
  have hstep := List.all_eq_true.1 task.answers st (List.mem_of_getElem? hst)
  rw [hwait] at hstep
  rintro rfl
  exact absurd hstep (by decide)

end Real

open IronHarness.Runner.Real in
/-- The real runner as a machine with a wait loop and a verdict. -/
def realLoop (py : Builtins) (task : LoadedTask) (deadline : ℚ) (staged : Staged) : WaitLoop State Look where
  step := Real.step py task.toTask
  start := Real.start deadline staged
  log := State.box
  heard := State.heard
  firstLook := State.firstLook
  secondLook := State.secondLook
  taken := State.taken
  consistent_start := staged.consistent
  no_look := ⟨rfl, rfl⟩
  grows_heard := grows_heard
  consistent_heard s m h := consistent_heard h
  grows_step s m s' hstep := by
    rw [(step_log hstep).box]
    exact .refl _
  consistent_step s m s' hstep h := by
    rw [(step_log hstep).box]
    exact h
  needle s m s' wait hstep hlook := by
    have hfor : s'.pc.waitsFor = some wait.1 := by
      rcases hlook with hfirst | hsecond
      · exact (State.firstLook_eq_some hfirst).1
      · obtain ⟨⟨i, hpc⟩, -⟩ := State.secondLook_eq_some hsecond
        rw [hpc]
        rfl
    rcases (step_log hstep).waits wait.1 hfor with hbefore | ⟨i, hwait⟩
    · exact .inl ⟨s.lastTriggerStamp, State.look_of_waitsFor hbefore⟩
    · exact .inr (task.wait_ne_nil hwait)
  second s m s' wait hstep hlook := by
    obtain ⟨⟨i, hpc⟩, hsince, -⟩ := State.secondLook_eq_some hlook
    obtain ⟨hnone, hlast⟩ := (step_log hstep).unanswered i wait.1 hpc
    rw [hsince, hlast]
    exact ⟨hnone, (step_log hstep).box⟩
  take s m s' text hstep htaken := by
    unfold State.taken at htaken
    split at htaken
    · rename_i rest hpc
      obtain rfl := Option.some.inj htaken
      rcases (step_log hstep).replay rest hpc with htext | ⟨⟨rest', hbefore⟩, htext⟩
      · exact .inr htext
      · have hpc' : s.pc = .replaying rest' := hbefore
        rw [htext]
        exact .inl (by rw [State.taken, hpc'])
    · cases htaken
  untaken s hlook := by
    rcases hlook with hfirst | hsecond
    · obtain ⟨wait, hwait⟩ := Option.ne_none_iff_exists'.1 hfirst
      exact (State.firstLook_eq_some hwait).2.2
    · obtain ⟨wait, hwait⟩ := Option.ne_none_iff_exists'.1 hsecond
      exact (State.secondLook_eq_some hwait).2.2

/-! ### The looks and the verdicts -/

/-- The stamps do not go back. -/
def InOrder (chunks : Chunks) : Prop := chunks.Pairwise fun first second => first.1 ≤ second.1

/-- Chunks that come later leave the answer as it is. -/
def Stable (chunks : Chunks) (needle : List Char) : Prop :=
  ∀ (more : Chunks) (since : Option ℚ), InOrder (chunks ++ more) →
    firstOccurrenceStamp ((chunks ++ more).flatMap (·.2)) (chunks ++ more) needle since =
      firstOccurrenceStamp (chunks.flatMap (·.2)) chunks needle since

private theorem InOrder.exists_later (chunks : Chunks) : ∃ now : ℚ, ∀ chunk ∈ chunks, chunk.1 ≤ now := by
  induction chunks with
  | nil => exact ⟨0, by simp⟩
  | cons first rest ih =>
    obtain ⟨now, hnow⟩ := ih
    refine ⟨max first.1 now, ?_⟩
    intro chunk hchunk
    rcases List.mem_cons.1 hchunk with rfl | hrest
    · exact le_max_left _ _
    · exact (hnow chunk hrest).trans (le_max_right _ _)

/-- The empty text is found in the empty log, but its chunk comes later. -/
private theorem stable_iff {chunks : Chunks} {needle : List Char} (horder : InOrder chunks)
    (hoccurs : occurs needle (chunks.flatMap (·.2)) = true) :
    Stable chunks needle ↔ needle ≠ [] ∨ chunks.flatMap (·.2) ≠ [] := by
  obtain ⟨pos, hpos⟩ := Option.isSome_iff_exists.1 hoccurs
  constructor
  · intro hstable
    by_contra hempty
    simp only [ne_eq, not_or, not_not] at hempty
    obtain ⟨rfl, htext⟩ := hempty
    obtain ⟨now, hnow⟩ := InOrder.exists_later chunks
    have hlater : InOrder (chunks ++ [(now, ['.'])]) := by
      refine List.pairwise_append.2 ⟨horder, List.pairwise_singleton _ _, ?_⟩
      intro chunk hchunk last hlast
      obtain rfl := List.mem_singleton.1 hlast
      exact hnow chunk hchunk
    have hsame := hstable [(now, ['.'])] (some now) hlater
    have hnone : firstOccurrenceStamp (chunks.flatMap (·.2)) chunks [] (some now) = none := by
      apply firstOccurrenceStamp_eq_none.2
      rintro stamp ⟨pos, start, before, chunk, after, -, rfl, -, hhigh, -⟩
      have hlen := congrArg List.length htext
      simp only [List.flatMap_append, List.flatMap_cons, List.length_append, List.length_nil] at hlen
      omega
    have hsome : firstOccurrenceStamp ((chunks ++ [(now, ['.'])]).flatMap (·.2)) (chunks ++ [(now, ['.'])]) []
        (some now) = some now := by
      apply firstOccurrenceStamp_iff.2
      refine ⟨0, now, chunks, ['.'], [], ?_, rfl, ?_, ?_, rfl, le_refl now⟩
      · simp [htext, find]
      · rw [htext]
        exact le_refl 0
      · rw [htext]
        exact Nat.one_pos
    rw [hnone, hsome] at hsame
    cases hsame
  · intro hne more since _
    rw [List.flatMap_append]
    exact firstOccurrenceStamp_kept rfl hpos hne (List.prefix_append _ _) (List.prefix_append _ _) since

/-- The look and the verdict are the same function of the log, exact in its chunks and stable; and in every run that
comes to the verdict, the wait loop agrees with it if and only if no answer comes in between the two looks of a round. -/
theorem verdicts_agree_iff (py : Builtins) :
    (∀ text chunks needle since stamp,
      firstOccurrenceStamp text chunks needle since = some stamp ↔ Answered text chunks needle since stamp) ∧
    (∀ chunks needle, InOrder chunks → occurs needle (chunks.flatMap (·.2)) = true →
      (Stable chunks needle ↔ needle ≠ [] ∨ chunks.flatMap (·.2) ≠ [])) ∧
    (∀ (compiles : List Char → Bool) (task : UnixTask compiles) (moments : List Moment) (s : Harness) (text : List Char),
      run (step py task.toTask) start moments = some s → s.taken = some text →
      ((unixLoop py task).Agrees moments s text ↔
        Along (step py task.toTask) (unixLoop py task).Timely start moments)) ∧
    (∀ (task : Real.LoadedTask) (deadline : ℚ) (staged : Real.Staged) (looks : List Real.Look) (s : Real.State)
      (text : List Char), run (Real.step py task.toTask) (Real.start deadline staged) looks = some s →
      s.taken = some text →
      ((realLoop py task deadline staged).Agrees looks s text ↔
        Along (Real.step py task.toTask) (realLoop py task deadline staged).Timely (Real.start deadline staged) looks)) := by
  refine ⟨?_, ?_, ?_, ?_⟩
  · intro text chunks needle since stamp
    exact firstOccurrenceStamp_iff
  · intro chunks needle horder hoccurs
    exact stable_iff horder hoccurs
  · intro compiles task moments s text hrun htaken
    exact (unixLoop py task).agrees_iff hrun htaken
  · intro task deadline staged looks s text hrun htaken
    exact (realLoop py task deadline staged).agrees_iff hrun htaken

/-- The firmware answers the first question in time, in between the two looks of a round, and exits. -/
def lateTicks : List Moment :=
  askTicks ++ [tick 30, tick 30, { tick 31 with ingested := [(31 / 100, "echo: hi\n".toList)], eof := true }]

/-- The runner up to the verdict. -/
def lateEnd : List Moment := lateTicks ++ [tick 31, { tick 31 with exit := some 0 }, tick 31]

/-- The loop has given up on the answer, and the verdict takes it. -/
theorem late_look_disagrees : ¬ ∀ (task : UnixTask plainBuiltins.compiles) (moments : List Moment) (s : Harness)
    (text : List Char), run (step plainBuiltins task.toTask) start moments = some s → s.taken = some text →
    (unixLoop plainBuiltins task).Agrees moments s text := by
  intro hclaim
  have hend : ((run (step plainBuiltins echoTask.toTask) start lateEnd).bind fun s => s.taken.map fun text =>
      (unixLoop plainBuiltins echoTask).condemns s text ("echo: hi".toList, some (3 / 10))) = some false := by
    decide +kernel
  obtain ⟨s, hrun, hs⟩ := Option.bind_eq_some_iff.1 hend
  obtain ⟨text, htaken, hverdict⟩ := Option.map_eq_some_iff.1 hs
  have hlook : ((run (step plainBuiltins echoTask.toTask) start (lateEnd.take 18)).bind fun t =>
      (unixLoop plainBuiltins echoTask).judges t
        { tick 31 with ingested := [(31 / 100, "echo: hi\n".toList)], eof := true }) =
      some (("echo: hi".toList, some (3 / 10)), false) := by
    decide +kernel
  obtain ⟨t, hfront, hjudges⟩ := Option.bind_eq_some_iff.1 hlook
  have hat : At (step plainBuiltins echoTask.toTask) start lateEnd 18
      { tick 31 with ingested := [(31 / 100, "echo: hi\n".toList)], eof := true } t := ⟨rfl, hfront⟩
  have hagrees := hclaim echoTask lateEnd s text hrun htaken 18 _ t _ false hat hjudges
  rw [hverdict] at hagrees
  cases hagrees

/-- The two questions to a board. -/
def boardTask : Real.LoadedTask := { echoTask.toTask with answers := by decide +kernel }

def emptyLog : Real.Staged := ⟨emptyBox, rfl⟩

/-- A look at the board at a time in hundredths of a second, with nothing new. -/
def glance (now : ℕ) : Real.Look := ⟨[], now / 100, none⟩

/-- The board answers the first question, and then the time is up. -/
def boardLooks : List Real.Look :=
  [glance 0, glance 10, glance 10, glance 10, glance 20, glance 20,
    { glance 25 with reads := [(25 / 100, "echo: hi\n".toList)] }, glance 60, glance 60, glance 60]

theorem verdicts_agree_answer :
    (∃ s text, run (step plainBuiltins echoTask.toTask) start (answerTicks.take 41) = some s ∧ s.taken = some text ∧
      ((unixLoop plainBuiltins echoTask).Agrees (answerTicks.take 41) s text ↔
        Along (step plainBuiltins echoTask.toTask) (unixLoop plainBuiltins echoTask).Timely start
          (answerTicks.take 41))) ∧
    (∃ s text, run (Real.step plainBuiltins boardTask.toTask) (Real.start (1 / 2) emptyLog) boardLooks = some s ∧
      s.taken = some text ∧ ((realLoop plainBuiltins boardTask (1 / 2) emptyLog).Agrees boardLooks s text ↔
        Along (Real.step plainBuiltins boardTask.toTask) (realLoop plainBuiltins boardTask (1 / 2) emptyLog).Timely
          (Real.start (1 / 2) emptyLog) boardLooks)) ∧
    (Stable [(1, "ok".toList)] "k".toList ↔
      "k".toList ≠ [] ∨ [((1 : ℚ), "ok".toList)].flatMap (·.2) ≠ []) := by
  refine ⟨?_, ?_, ?_⟩
  · have hend : ((run (step plainBuiltins echoTask.toTask) start (answerTicks.take 41)).bind fun s => s.taken) =
        some "boot ok\necho: hi\necho: again\n".toList := by decide +kernel
    obtain ⟨s, hrun, htaken⟩ := Option.bind_eq_some_iff.1 hend
    exact ⟨s, _, hrun, htaken, (verdicts_agree_iff plainBuiltins).2.2.1 _ echoTask _ s _ hrun htaken⟩
  · have hend : ((run (Real.step plainBuiltins boardTask.toTask) (Real.start (1 / 2) emptyLog) boardLooks).bind
        fun s => s.taken) = some "echo: hi\n".toList := by decide +kernel
    obtain ⟨s, hrun, htaken⟩ := Option.bind_eq_some_iff.1 hend
    exact ⟨s, _, hrun, htaken, (verdicts_agree_iff plainBuiltins).2.2.2 boardTask _ emptyLog _ s _ hrun htaken⟩
  · exact (verdicts_agree_iff plainBuiltins).2.1 _ _ (List.pairwise_singleton _ _) (by decide +kernel)

end IronHarness.Runner
