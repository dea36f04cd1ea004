import IronHarness.Runner.Anchor

/-!
# The wait loop and the verdict

A `wait-serial` step looks at the log twice in each round: for an answer (`first_occurrence_stamp`), and then for the
needle at all.  The verdict after the run looks once more.  Where the needle is in the log the first occurrence stays
what it is, so the looks agree, unless a genuine answer comes in between the two looks of one round: the loop then
gives up on an answer that the verdict accepts.  This is shown for any machine with such a loop (`agrees_iff`), and the
unix runner is such a machine (`unixLoop`).
-/

namespace IronHarness.Runner

open ByteText Segments Runs

/-! ### Answers -/

/-- The first character of the first occurrence is in a chunk with this stamp, which is no earlier than the trigger. -/
def Answered (text : List Char) (chunks : Chunks) (needle : List Char) (since : Option ℚ) (stamp : ℚ) : Prop :=
  ∃ pos start before chunk after, find needle text = some pos ∧ chunks = before ++ (stamp, chunk) :: after ∧
    (before.flatMap (·.2)).length ≤ pos ∧ pos < (before.flatMap (·.2)).length + chunk.length ∧
    since = some start ∧ start ≤ stamp

theorem firstOccurrenceStamp_iff {text needle : List Char} {chunks : Chunks} {since : Option ℚ} {stamp : ℚ} :
    firstOccurrenceStamp text chunks needle since = some stamp ↔ Answered text chunks needle since stamp := by
  rw [firstOccurrenceStamp_eq_some]
  constructor
  · rintro ⟨pos, start, hpos, htag, hsince, hle⟩
    obtain ⟨before, chunk, after, hchunks, hlow, hhigh⟩ := tagAt_eq_some_iff.1 htag
    exact ⟨pos, start, before, chunk, after, hpos, hchunks, hlow, hhigh, hsince, hle⟩
  · rintro ⟨pos, start, before, chunk, after, hpos, hchunks, hlow, hhigh, hsince, hle⟩
    exact ⟨pos, start, hpos, tagAt_eq_some_iff.2 ⟨before, chunk, after, hchunks, hlow, hhigh⟩, hsince, hle⟩

theorem firstOccurrenceStamp_eq_none {text needle : List Char} {chunks : Chunks} {since : Option ℚ} :
    firstOccurrenceStamp text chunks needle since = none ↔ ∀ stamp, ¬ Answered text chunks needle since stamp := by
  simp only [← firstOccurrenceStamp_iff, Option.eq_none_iff_forall_ne_some, ne_eq]

/-! ### A loop with two looks -/

/-- A wait: the needle, and the stamp of the trigger before it. -/
abbrev Wait := List Char × Option ℚ

/-- A machine with a log that only grows, a wait loop and a verdict. -/
structure WaitLoop (σ α : Type) where
  step : σ → α → Option σ
  start : σ
  log : σ → Box
  /-- the log as a step finds it -/
  heard : σ → α → Box
  /-- about to look for an answer -/
  firstLook : σ → Option Wait
  /-- about to look for the needle at all -/
  secondLook : σ → Option Wait
  /-- the text the verdict goes over -/
  taken : σ → Option (List Char)
  consistent_start : (log start).Consistent
  no_look : firstLook start = none ∧ secondLook start = none
  grows_heard : ∀ s a, (log s).Grows (heard s a)
  consistent_heard : ∀ s a, (log s).Consistent → (heard s a).Consistent
  grows_step : ∀ s a s', step s a = some s' → (heard s a).Grows (log s')
  consistent_step : ∀ s a s', step s a = some s' → (heard s a).Consistent → (log s').Consistent
  /-- a wait goes on, or starts with a needle that is not empty -/
  needle : ∀ s a s' wait, step s a = some s' → firstLook s' = some wait ∨ secondLook s' = some wait →
    (∃ since, firstLook s = some (wait.1, since) ∨ secondLook s = some (wait.1, since)) ∨ wait.1 ≠ []
  /-- the second look comes where the first one has found no answer -/
  second : ∀ s a s' wait, step s a = some s' → secondLook s' = some wait →
    (heard s a).firstAnswerStamp wait.1 wait.2 = none ∧ log s' = heard s a
  take : ∀ s a s' text, step s a = some s' → taken s' = some text → taken s = some text ∨ text = (heard s a).text
  untaken : ∀ s, firstLook s ≠ none ∨ secondLook s ≠ none → taken s = none

namespace WaitLoop

variable {σ α : Type} (loop : WaitLoop σ α) {s s' t : σ} {a : α} {acts : List α}

/-- What the loop judges in a step: the wait, and whether it is answered. -/
def judges (s : σ) (a : α) : Option (Wait × Bool) :=
  match loop.firstLook s, loop.secondLook s with
  | some wait, _ => ((loop.heard s a).firstAnswerStamp wait.1 wait.2).map fun _ => (wait, true)
  | none, some wait => if occurs wait.1 (loop.heard s a).text then some (wait, false) else none
  | none, none => none

/-- The verdict over a text condemns a wait. -/
def condemns (s : σ) (text : List Char) (wait : Wait) : Bool :=
  occurs wait.1 text && ((loop.log s).firstAnswerStamp wait.1 wait.2).isNone

/-- The loop and the verdict agree on every wait that the loop has judged. -/
def Agrees (acts : List α) (s : σ) (text : List Char) : Prop :=
  ∀ n a t wait answered, At loop.step loop.start acts n a t → loop.judges t a = some (wait, answered) →
    loop.condemns s text wait = !answered

/-- No answer comes in between the two looks of a round. -/
def Timely (s : σ) (a : α) : Prop :=
  ∀ wait, loop.firstLook s = none → loop.secondLook s = some wait → occurs wait.1 (loop.log s).text = false →
    ∀ stamp, ¬ Answered (loop.heard s a).text (loop.heard s a).chunks wait.1 wait.2 stamp

private theorem consistent_run (hrun : run loop.step loop.start acts = some s) : (loop.log s).Consistent := by
  apply invariant _ hrun loop.consistent_start
  intro t a t' hstep h
  exact loop.consistent_step t a t' hstep (loop.consistent_heard t a h)

private theorem needle_run (hrun : run loop.step loop.start acts = some s) {wait : Wait}
    (hlook : loop.firstLook s = some wait ∨ loop.secondLook s = some wait) : wait.1 ≠ [] := by
  have hinv : ∀ wait, loop.firstLook s = some wait ∨ loop.secondLook s = some wait → wait.1 ≠ [] := by
    apply invariant _ hrun (I := fun s => ∀ wait : Wait, loop.firstLook s = some wait ∨ loop.secondLook s = some wait →
      wait.1 ≠ [])
    · intro wait h
      rw [loop.no_look.1, loop.no_look.2] at h
      rcases h with h | h <;> cases h
    · intro t a t' hstep h wait hwait
      rcases loop.needle t a t' wait hstep hwait with ⟨since, hbefore⟩ | hne
      · exact h (wait.1, since) hbefore
      · exact hne
  exact hinv wait hlook

/-- At the second look there is no answer yet. -/
private theorem second_run (hrun : run loop.step loop.start acts = some s) {wait : Wait}
    (hlook : loop.secondLook s = some wait) : (loop.log s).firstAnswerStamp wait.1 wait.2 = none := by
  have hinv : ∀ wait, loop.secondLook s = some wait → (loop.log s).firstAnswerStamp wait.1 wait.2 = none := by
    apply invariant _ hrun (I := fun s => ∀ wait : Wait, loop.secondLook s = some wait →
      (loop.log s).firstAnswerStamp wait.1 wait.2 = none)
    · intro wait h
      rw [loop.no_look.2] at h
      cases h
    · intro t a t' hstep _ wait hwait
      obtain ⟨hnone, hlog⟩ := loop.second t a t' wait hstep hwait
      rw [hlog]
      exact hnone
  exact hinv wait hlook

/-- The log has come to be at least `b`, also the one that is taken for the verdict. -/
structure Reaches (b : Box) (s : σ) : Prop where
  grows : b.Grows (loop.log s)
  taken : ∀ text, loop.taken s = some text → b.text <+: text

variable {loop}

theorem Reaches.step {b : Box} (h : loop.Reaches b s) (hstep : loop.step s a = some s') : loop.Reaches b s' := by
  have hheard : b.Grows (loop.heard s a) := h.grows.trans (loop.grows_heard s a)
  constructor
  · exact hheard.trans (loop.grows_step s a s' hstep)
  · intro text htaken
    rcases loop.take s a s' text hstep htaken with hbefore | rfl
    · exact h.taken text hbefore
    · exact hheard.text

private theorem judges_look {wait : Wait} {answered : Bool} (h : loop.judges s a = some (wait, answered)) :
    (loop.firstLook s = some wait ∨ loop.secondLook s = some wait) ∧
      occurs wait.1 (loop.heard s a).text = true := by
  unfold judges at h
  split at h
  · rename_i wait' _ hfirst
    obtain ⟨stamp, hstamp, hpair⟩ := Option.map_eq_some_iff.1 h
    obtain ⟨rfl, -⟩ := Prod.mk.inj hpair
    obtain ⟨pos, _, hpos, -⟩ := firstOccurrenceStamp_eq_some.1 hstamp
    rw [occurs, hpos]
    exact ⟨.inl hfirst, rfl⟩
  · rename_i wait' _ hsecond
    split at h
    · rename_i hoccurs
      obtain ⟨rfl, -⟩ := Prod.mk.inj (Option.some.inj h)
      exact ⟨.inr hsecond, hoccurs⟩
    · cases h
  · cases h

/-- A wait that is judged in a step is condemned by the verdict where there is no answer in the log of that step. -/
private theorem condemns_of_judges {n : Nat} {wait : Wait} {answered : Bool} {text : List Char}
    (hrun : run loop.step loop.start acts = some s) (htaken : loop.taken s = some text)
    (hat : At loop.step loop.start acts n a t) (hjudges : loop.judges t a = some (wait, answered)) :
    loop.condemns s text wait = ((loop.heard t a).firstAnswerStamp wait.1 wait.2).isNone := by
  obtain ⟨hlook, hoccurs⟩ := judges_look hjudges
  obtain ⟨t', ht', hrest, -⟩ := hat.part acts.length (by rwa [List.take_of_length_le (by omega)])
  have huntaken : loop.taken t = none := by
    apply loop.untaken t
    rcases hlook with h | h
    · exact .inl (by simp [h])
    · exact .inr (by simp [h])
  have hreaches : loop.Reaches (loop.heard t a) s := by
    apply invariant _ hrest (I := loop.Reaches (loop.heard t a))
    · refine ⟨loop.grows_step t a t' ht', fun text' htext => ?_⟩
      rcases loop.take t a t' text' ht' htext with hbefore | rfl
      · rw [huntaken] at hbefore
        cases hbefore
      · exact List.prefix_refl _
    · intro u b u' hstep h
      exact h.step hstep
  have hconsistent := loop.consistent_heard t a (loop.consistent_run hat.2)
  obtain ⟨more, hmore⟩ := hreaches.taken text htaken
  have hlog : occurs wait.1 text = true := by
    obtain ⟨pos, hpos⟩ := Option.isSome_iff_exists.1 hoccurs
    rw [← hmore, occurs, find_append hpos]
    rfl
  have hkept := hconsistent.kept hreaches.grows (loop.needle_run hat.2 hlook) hoccurs wait.2
  rw [condemns, hlog, Bool.true_and, hkept]

/-- In a run that comes to the verdict, the loop and the verdict agree if and only if no answer comes in between the two
looks of a round. -/
theorem agrees_iff {text : List Char} (hrun : run loop.step loop.start acts = some s)
    (htaken : loop.taken s = some text) :
    loop.Agrees acts s text ↔ Along loop.step loop.Timely loop.start acts := by
  constructor
  · intro hagrees
    apply Along.of_at
    intro n a t hat wait hfirst hsecond hbefore stamp hanswer
    have hstamp : (loop.heard t a).firstAnswerStamp wait.1 wait.2 = some stamp := firstOccurrenceStamp_iff.2 hanswer
    have hjudges : loop.judges t a = some (wait, false) := by
      obtain ⟨pos, _, hpos, -⟩ := firstOccurrenceStamp_eq_some.1 hstamp
      have hoccurs : occurs wait.1 (loop.heard t a).text = true := by rw [occurs, hpos]; rfl
      rw [judges, hfirst, hsecond]
      exact if_pos hoccurs
    have hverdict := hagrees n a t wait false hat hjudges
    rw [condemns_of_judges hrun htaken hat hjudges, hstamp] at hverdict
    cases hverdict
  · intro htimely n a t wait answered hat hjudges
    have hnow : loop.Timely t a := htimely.apply hat
    rw [condemns_of_judges hrun htaken hat hjudges]
    unfold judges at hjudges
    split at hjudges
    · obtain ⟨stamp, hstamp, hpair⟩ := Option.map_eq_some_iff.1 hjudges
      obtain ⟨rfl, rfl⟩ := Prod.mk.inj hpair
      rw [hstamp]
      rfl
    · rename_i wait' hfirst hsecond
      split at hjudges
      · obtain ⟨rfl, rfl⟩ := Prod.mk.inj (Option.some.inj hjudges)
        -- the needle was there at the first look, or it comes without an answer
        cases hbefore : occurs wait'.1 (loop.log t).text with
        | false =>
          have hnone : (loop.heard t a).firstAnswerStamp wait'.1 wait'.2 = none :=
            firstOccurrenceStamp_eq_none.2 (hnow wait' hfirst hsecond hbefore)
          rw [hnone]
          rfl
        | true =>
          have hkept := (loop.consistent_run hat.2).kept (loop.grows_heard t a) (loop.needle_run hat.2 (.inr hsecond))
            hbefore wait'.2
          rw [hkept, loop.second_run hat.2 hsecond]
          rfl
      · cases hjudges
    · cases hjudges

end WaitLoop

/-! ### The unix runner -/

section Unix

variable {task : Task} {py : Builtins} {s s' : Harness} {m : Moment}

/-- The needle the loop is waiting for. -/
def Pc.waitsFor : Pc → Option (List Char)
  | .polling _ needle => some needle
  | .unanswered _ needle => some needle
  | _ => none

/-- What a step does to the log: it may append a chunk, and the log the verdict goes over is the text of the box.  The
needle waited for is one of the task, and behind the first look there is no answer. -/
structure LogStep (task : Task) (s s' : Harness) : Prop where
  box : s'.box = s.box ∨ ∃ now chunk, s'.box = s.box.append now chunk
  replay : ∀ rest, s'.pc = .replaying rest →
    s'.serialText = s.box.text ∨ (∃ rest', s.pc = .replaying rest') ∧ s'.serialText = s.serialText
  waits : ∀ needle, s'.pc.waitsFor = some needle → s.pc.waitsFor = some needle ∨ ∃ i, task.wait i = some needle
  unanswered : ∀ i needle, s'.pc = .unanswered i needle →
    s.box.firstAnswerStamp needle s.lastTriggerStamp = none ∧ s'.box = s.box ∧
      s'.lastTriggerStamp = s.lastTriggerStamp

/-- A step to another place, where nothing is waited for and nothing replayed. -/
theorem LogStep.of_moves (hbox : s'.box = s.box ∨ ∃ now chunk, s'.box = s.box.append now chunk)
    (hreplay : ∀ rest, s'.pc ≠ .replaying rest) (hwaits : s'.pc.waitsFor = none) : LogStep task s s' where
  box := hbox
  replay rest h := absurd h (hreplay rest)
  waits needle h := by
    rw [hwaits] at h
    cases h
  unanswered i needle h := by
    rw [h] at hwaits
    cases hwaits

theorem logStep_enter (now : ℚ) (i : Nat) : LogStep task s (s.enter task now i) := by
  unfold Harness.enter
  split
  · exact .of_moves (.inl rfl) (fun _ h => by cases h) rfl
  · rename_i st hst
    split
    · exact .of_moves (.inl rfl) (fun _ h => by cases h) rfl
    · split
      · rename_i needle haction
        refine ⟨.inl rfl, (fun _ h => by cases h), ?_, (fun _ _ h => by cases h)⟩
        rintro answer hanswer
        obtain rfl := Option.some.inj hanswer
        refine .inr ⟨i, ?_⟩
        rw [Task.wait, hst]
        exact Step.action_eq_wait.1 haction
      · exact .of_moves (.inl rfl) (fun _ h => by cases h) rfl

private theorem logStep_drive (i : Nat) (action : Action) : LogStep task s (s.drive i action) := by
  unfold Harness.drive
  split
  · exact .of_moves (.inl rfl) (fun _ h => by cases h) rfl
  · split
    · exact .of_moves (.inl rfl) (fun _ h => by cases h) rfl
    · split <;> exact .of_moves (.inl rfl) (fun _ h => by cases h) rfl
    all_goals exact .of_moves (.inl rfl) (fun _ h => by cases h) rfl

private theorem logStep_goes {pc' : Pc} (hgoes : s.pc.Goes pc') : LogStep task s { s with pc := pc' } := by
  generalize s.pc = pc at hgoes
  refine .of_moves (.inl rfl) ?_ ?_
  · intro rest hrest
    obtain rfl : pc' = .replaying rest := hrest
    cases hgoes
  · show pc'.waitsFor = none
    cases hgoes <;> rfl

theorem act_log (hact : act py task s m = some s') : LogStep task s s' := by
  have hmove := act_move hact
  generalize hpc : s.pc = pc at hmove
  cases hmove with
  | enters i => exact logStep_enter m.now i
  | drives i action => exact logStep_drive i action
  | goes pc pc' hgoes => exact logStep_goes (hpc ▸ hgoes)
  | unanswered i needle hnone =>
    refine ⟨.inl rfl, (fun _ h => by cases h), fun answer h => .inl ?_, ?_⟩
    · rw [hpc]
      exact h
    · rintro _ _ ⟨⟩
      exact ⟨hnone, rfl, rfl⟩
  | waits i needle =>
    refine ⟨.inl rfl, (fun _ h => by cases h), fun answer h => .inl ?_, (fun _ _ h => by cases h)⟩
    rw [hpc]
    exact h
  | joins => exact ⟨.inl rfl, fun rest _ => .inl rfl, (fun _ h => by cases h), (fun _ _ h => by cases h)⟩
  | accepts needle since rest hfine =>
    exact ⟨.inl rfl, fun _ _ => .inr ⟨⟨_, hpc⟩, rfl⟩, (fun _ h => by cases h), (fun _ _ h => by cases h)⟩
  | settles => exact .of_moves (.inl rfl) (by simp [hpc]) (by rw [hpc]; rfl)
  | short | message => exact .of_moves (.inr ⟨_, _, rfl⟩) (fun _ h => by cases h) rfl
  | refuses | infra | prepares | answered | stamps | exits | objects | discredits | closes | scores =>
    exact .of_moves (.inl rfl) (fun _ h => by cases h) rfl

/-- The box as the harness finds it in a step. -/
def Harness.heard (s : Harness) (m : Moment) : Box := s.box.hear m.ingested m.eof

/-- The loader takes no empty answer. -/
theorem UnixTask.wait_ne_nil {compiles : List Char → Bool} (task : UnixTask compiles) {i : Nat} {needle : List Char}
    (h : task.wait i = some needle) : needle ≠ [] := by
  have hloads := task.loads
  simp only [Task.loads, Bool.and_eq_true, List.all_eq_true] at hloads
  obtain ⟨st, hst, hwait⟩ := Option.bind_eq_some_iff.1 h
  have hstep := hloads.1.1.1.1.2 st (List.mem_of_getElem? hst)
  simp only [Step.loads, hwait, Bool.and_eq_true, Option.all_some] at hstep
  rintro rfl
  exact absurd hstep.1.1.2 (by decide)

def Harness.firstLook (s : Harness) : Option Wait :=
  match s.pc with
  | .polling _ needle => some (needle, s.lastTriggerStamp)
  | _ => none

def Harness.secondLook (s : Harness) : Option Wait :=
  match s.pc with
  | .unanswered _ needle => some (needle, s.lastTriggerStamp)
  | _ => none

/-- The log of the verdict, while it goes over the waits. -/
def Harness.taken (s : Harness) : Option (List Char) :=
  match s.pc with
  | .replaying _ => some s.serialText
  | _ => none

theorem Harness.firstLook_eq_some {s : Harness} {wait : Wait} (h : s.firstLook = some wait) :
    s.pc.waitsFor = some wait.1 ∧ wait.2 = s.lastTriggerStamp ∧ s.taken = none := by
  unfold Harness.firstLook at h
  split at h
  · rename_i i needle hpc
    obtain rfl := Option.some.inj h
    exact ⟨by rw [hpc]; rfl, rfl, by rw [Harness.taken, hpc]⟩
  · cases h

theorem Harness.secondLook_eq_some {s : Harness} {wait : Wait} (h : s.secondLook = some wait) :
    (∃ i, s.pc = .unanswered i wait.1) ∧ wait.2 = s.lastTriggerStamp ∧ s.taken = none := by
  unfold Harness.secondLook at h
  split at h
  · rename_i i needle hpc
    obtain rfl := Option.some.inj h
    exact ⟨⟨i, hpc⟩, rfl, by rw [Harness.taken, hpc]⟩
  · cases h

theorem Harness.look_of_waitsFor {s : Harness} {needle : List Char} (h : s.pc.waitsFor = some needle) :
    s.firstLook = some (needle, s.lastTriggerStamp) ∨ s.secondLook = some (needle, s.lastTriggerStamp) := by
  unfold Pc.waitsFor at h
  split at h
  · rename_i i answer hpc
    obtain rfl := Option.some.inj h
    exact .inl (by rw [Harness.firstLook, hpc])
  · rename_i i answer hpc
    obtain rfl := Option.some.inj h
    exact .inr (by rw [Harness.secondLook, hpc])
  · cases h

/-- The unix runner as a machine with a wait loop and a verdict. -/
def unixLoop (py : Builtins) {compiles : List Char → Bool} (task : UnixTask compiles) : WaitLoop Harness Moment where
  step := step py task.toTask
  start := start
  log := Harness.box
  heard := Harness.heard
  firstLook := Harness.firstLook
  secondLook := Harness.secondLook
  taken := Harness.taken
  consistent_start := rfl
  no_look := ⟨rfl, rfl⟩
  grows_heard s m := s.box.grows_hear m.ingested m.eof
  consistent_heard s m h := h.hear m.ingested m.eof
  grows_step s m s' hstep := by
    rcases (act_log hstep).box with hbox | ⟨now, chunk, hbox⟩
    · rw [hbox]
      exact .refl _
    · rw [hbox]
      exact (s.heard m).grows_append now chunk
  consistent_step s m s' hstep h := by
    rcases (act_log hstep).box with hbox | ⟨now, chunk, hbox⟩
    · rw [hbox]
      exact h
    · rw [hbox]
      exact Box.Consistent.append h now chunk
  needle s m s' wait hstep hlook := by
    have hfor : s'.pc.waitsFor = some wait.1 := by
      rcases hlook with hfirst | hsecond
      · exact (Harness.firstLook_eq_some hfirst).1
      · obtain ⟨⟨i, hpc⟩, -⟩ := Harness.secondLook_eq_some hsecond
        rw [hpc]
        rfl
    rcases (act_log hstep).waits wait.1 hfor with hbefore | ⟨i, hwait⟩
    · exact .inl ⟨s.lastTriggerStamp, Harness.look_of_waitsFor hbefore⟩
    · exact .inr (task.wait_ne_nil hwait)
  second s m s' wait hstep hlook := by
    obtain ⟨⟨i, hpc⟩, hsince, -⟩ := Harness.secondLook_eq_some hlook
    obtain ⟨hnone, hbox, hlast⟩ := (act_log hstep).unanswered i wait.1 hpc
    rw [hsince, hlast]
    exact ⟨hnone, hbox⟩
  take s m s' text hstep htaken := by
    unfold Harness.taken at htaken
    split at htaken
    · rename_i rest hpc
      obtain rfl := Option.some.inj htaken
      rcases (act_log hstep).replay rest hpc with htext | ⟨⟨rest', hbefore⟩, htext⟩
      · exact .inr htext
      · have hpc' : s.pc = .replaying rest' := hbefore
        rw [htext]
        exact .inl (by rw [Harness.taken, hpc'])
    · cases htaken
  untaken s hlook := by
    rcases hlook with hfirst | hsecond
    · obtain ⟨wait, hwait⟩ := Option.ne_none_iff_exists'.1 hfirst
      exact (Harness.firstLook_eq_some hwait).2.2
    · obtain ⟨wait, hwait⟩ := Option.ne_none_iff_exists'.1 hsecond
      exact (Harness.secondLook_eq_some hwait).2.2

end Unix

end IronHarness.Runner
