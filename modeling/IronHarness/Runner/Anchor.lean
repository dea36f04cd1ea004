import IronHarness.Runner.Unix

/-!
# The anti-cheat verdict of the unix runner

The stimulus loop keeps a ledger: each wait it has begun is in `waited` with the stamp of the last trigger delivered
before it (`Ledger`).  The verdict replays `waited` over the settled log, so in a run that passes every needle of a
wait that was begun counts as an answer (`Judged`).  A wait the loop never came to is not in the ledger, and nothing
is said about its needle (`pass_anchored_iff`).
-/

namespace IronHarness.Runner

open ByteText Segments Runs

/-! ### Triggers and waits of a task -/

def Task.wait (task : Task) (i : Nat) : Option (List Char) := task.stimulus[i]?.bind (·.waitSerial)

/-- The runner writes to the firmware or publishes. -/
def Task.fires (task : Task) (st : Step) : Bool :=
  match st.action task.mqtt with
  | .write _ | .publish _ => true
  | _ => false

/-- The triggers the runner delivers in the first `n` steps. -/
def Task.fired (task : Task) (n : Nat) : Nat := (task.stimulus.take n).countP task.fires

/-- `j` is the last trigger step before step `i`. -/
structure Task.LastTrigger (task : Task) (i j : Nat) : Prop where
  before : j < i
  trigger : ∃ st, task.stimulus[j]? = some st ∧ st.isTrigger = true
  last : ∀ k st, j < k → k < i → task.stimulus[k]? = some st → st.isTrigger = false

/-- When step `j` was delivered, by the stamps of all triggers that were. -/
def Task.deliveryTime (task : Task) (stamps : List ℚ) (j : Nat) : Option ℚ :=
  task.stimulus[j]?.bind fun st => if task.fires st then stamps[task.fired j]? else none

variable {task : Task}

private theorem Task.fires_eq_false_of_quiet {st : Step} (h : st.isTrigger = false) : task.fires st = false := by
  unfold Step.isTrigger at h
  simp only [Bool.or_eq_false_iff, Option.isSome_eq_false_iff, Option.isNone_iff_eq_none] at h
  unfold fires Step.action
  rw [h.1, h.2]
  cases st.waitSerial <;> cases st.delay <;> cases st.mqttCollect <;> cases task.mqtt <;> rfl

private theorem Task.fires_eq_false_of_wait {st : Step} {needle : List Char} (h : st.waitSerial = some needle) :
    task.fires st = false := by
  unfold fires
  rw [Step.action_eq_wait.2 h]

private theorem Task.fired_succ {i : Nat} {st : Step} (h : task.stimulus[i]? = some st) :
    task.fired (i + 1) = task.fired i + if task.fires st then 1 else 0 := by
  unfold Task.fired
  rw [List.take_add_one, h, List.countP_append]
  simp

private theorem Task.fired_of_quiet {a b : Nat} (hab : a ≤ b)
    (h : ∀ k st, a ≤ k → k < b → task.stimulus[k]? = some st → task.fires st = false) : task.fired b = task.fired a := by
  induction b, hab using Nat.le_induction with
  | base => rfl
  | succ b hb ih =>
    have hfront := ih fun k st hk hkb => h k st hk (by omega)
    cases hst : task.stimulus[b]? with
    | none =>
      have hlen := List.getElem?_eq_none_iff.1 hst
      rw [← hfront]
      unfold Task.fired
      rw [List.take_of_length_le (by omega), List.take_of_length_le hlen]
    | some st =>
      rw [fired_succ hst, h b st hb (by omega) hst, ← hfront]
      rfl

/-- The stamp at hand when the loop comes to a wait is the one of the last trigger before it. -/
theorem Task.LastTrigger.stamp {i j : Nat} (h : task.LastTrigger i j) {stamps : List ℚ} {delivered : ℚ}
    (hdelivered : task.deliveryTime stamps j = some delivered) :
    (stamps.take (task.fired i)).getLast? = some delivered := by
  obtain ⟨st, hst, hfire⟩ := Option.bind_eq_some_iff.1 hdelivered
  obtain ⟨hfires, hstamp⟩ := Option.ite_none_right_eq_some.1 hfire
  have hj : task.fired (j + 1) = task.fired j + 1 := by rw [fired_succ hst, if_pos hfires]
  have hi : task.fired i = task.fired (j + 1) := by
    apply fired_of_quiet h.before
    intro k st hk hki hkst
    exact fires_eq_false_of_quiet (h.last k st hk hki hkst)
  obtain ⟨hlen, -⟩ := List.getElem?_eq_some_iff.1 hstamp
  rw [hi, hj, List.take_add_one, hstamp]
  simp

/-! ### The ledger of the stimulus loop -/

/-- Where the loop stands, by the steps it has begun and the triggers it has delivered. -/
def Harness.Placed (task : Task) (s : Harness) : Prop :=
  match s.pc with
  | .preparing => s.entered = 0 ∧ s.triggerStamps.length = task.fired 0
  | .next i => s.entered = i ∧ s.triggerStamps.length = task.fired i
  | .driving i action => s.entered = i + 1 ∧ s.triggerStamps.length = task.fired i ∧
      ∃ st, task.stimulus[i]? = some st ∧ st.action task.mqtt = action
  | .quiet i _ _ | .listening i _ _ | .stamping i =>
    s.entered = i + 1 ∧ s.triggerStamps.length + 1 = task.fired (i + 1)
  | .polling i _ | .unanswered i _ | .delivering i | .subscribing i _ | .collecting i _ _ _ | .receiving i _ _ _ =>
    s.entered = i + 1 ∧ s.triggerStamps.length = task.fired (i + 1)
  | _ => True

structure Ledger (task : Task) (s : Harness) : Prop where
  last : s.lastTriggerStamp = s.triggerStamps.getLast?
  waited : ∀ i < s.entered, ∀ needle, task.wait i = some needle →
    task.fired i ≤ s.triggerStamps.length ∧ (needle, (s.triggerStamps.take (task.fired i)).getLast?) ∈ s.waited
  placed : s.Placed task

variable {s s' : Harness}

private theorem ledger_start : Ledger task start := by
  constructor
  · rfl
  · intro i hi
    cases hi
  · exact ⟨rfl, rfl⟩

/-- A step that only moves the harness keeps the ledger. -/
theorem Ledger.move (h : Ledger task s) (hlast : s'.lastTriggerStamp = s.lastTriggerStamp)
    (hstamps : s'.triggerStamps = s.triggerStamps) (hwaited : s'.waited = s.waited) (hentered : s'.entered = s.entered)
    (hplaced : s'.Placed task) : Ledger task s' := by
  constructor
  · rw [hlast, hstamps, h.last]
  · rw [hentered, hstamps, hwaited]
    exact h.waited
  · exact hplaced

theorem Ledger.enter {i : Nat} (h : Ledger task s) (hpc : s.pc = .next i) (now : ℚ) :
    Ledger task (s.enter task now i) := by
  have hplaced := h.placed
  simp only [Harness.Placed, hpc] at hplaced
  obtain ⟨hentered, hstamps⟩ := hplaced
  unfold Harness.enter
  split
  · exact h.move rfl rfl rfl rfl trivial
  · rename_i st hst
    have hwait : task.wait i = st.waitSerial := by simp [Task.wait, hst]
    split
    · exact h.move rfl rfl rfl rfl trivial
    · split
      · rename_i needle haction
        have hneedle := Step.action_eq_wait.1 haction
        constructor
        · exact h.last
        · intro k hk answer hanswer
          rcases Nat.lt_succ_iff_lt_or_eq.1 hk with hlt | rfl
          · obtain ⟨hfired, hmem⟩ := h.waited k (by omega) answer hanswer
            exact ⟨hfired, List.mem_append_left _ hmem⟩
          · obtain rfl : needle = answer := by simpa [hwait, hneedle] using hanswer
            refine ⟨hstamps.ge, List.mem_append_right _ ?_⟩
            show _ ∈ [(needle, s.lastTriggerStamp)]
            rw [← hstamps, List.take_length, h.last]
            exact List.mem_singleton.2 rfl
        · refine ⟨rfl, ?_⟩
          show s.triggerStamps.length = _
          rw [Task.fired_succ hst, Task.fires_eq_false_of_wait hneedle, hstamps]
          rfl
      · rename_i action hnot
        constructor
        · exact h.last
        · intro k hk answer hanswer
          rcases Nat.lt_succ_iff_lt_or_eq.1 hk with hlt | rfl
          · exact h.waited k (by omega) answer hanswer
          · exact absurd (Step.action_eq_wait.2 (hwait ▸ hanswer)) (hnot answer)
        · exact ⟨rfl, hstamps, st, hst, rfl⟩

theorem Ledger.drive {i : Nat} {action : Action} (h : Ledger task s) (hpc : s.pc = .driving i action) :
    Ledger task (s.drive i action) := by
  have hplaced := h.placed
  simp only [Harness.Placed, hpc] at hplaced
  obtain ⟨hentered, hstamps, st, hst, haction⟩ := hplaced
  have hfired := Task.fired_succ hst
  unfold Harness.drive
  split
  · exact h.move rfl rfl rfl rfl trivial
  · cases action with
    | delay seconds =>
      have hnext : s.triggerStamps.length = task.fired (i + 1) := by simpa [Task.fires, haction, hstamps] using hfired.symm
      cases seconds with
      | none => exact h.move rfl rfl rfl rfl trivial
      | some seconds =>
        show Ledger task (if seconds < 0 then _ else _)
        split
        · exact h.move rfl rfl rfl rfl trivial
        · exact h.move rfl rfl rfl rfl ⟨hentered, hnext⟩
    | write data =>
      have hnext : s.triggerStamps.length + 1 = task.fired (i + 1) := by simp [hfired, Task.fires, haction, hstamps]
      exact h.move rfl rfl rfl rfl ⟨hentered, hnext⟩
    | publish pub =>
      have hnext : s.triggerStamps.length + 1 = task.fired (i + 1) := by simp [hfired, Task.fires, haction, hstamps]
      exact h.move rfl rfl rfl rfl ⟨hentered, hnext⟩
    | collect col =>
      have hnext : s.triggerStamps.length = task.fired (i + 1) := by simp [hfired, Task.fires, haction, hstamps]
      exact h.move rfl rfl rfl rfl ⟨hentered, hnext⟩
    | wait needle =>
      have hnext : s.triggerStamps.length = task.fired (i + 1) := by simp [hfired, Task.fires, haction, hstamps]
      exact h.move rfl rfl rfl rfl ⟨hentered, hnext⟩
    | skip =>
      have hnext : s.triggerStamps.length = task.fired (i + 1) := by simp [hfired, Task.fires, haction, hstamps]
      exact h.move rfl rfl rfl rfl ⟨hentered, hnext⟩

theorem Ledger.stamp {i : Nat} (h : Ledger task s) (hpc : s.pc = .stamping i) (now : ℚ) :
    Ledger task { s with lastTriggerStamp := some now, triggerStamps := s.triggerStamps ++ [now], pc := .delivering i } := by
  have hplaced := h.placed
  simp only [Harness.Placed, hpc] at hplaced
  constructor
  · simp
  · intro k hk answer hanswer
    obtain ⟨hfired, hmem⟩ := h.waited k hk answer hanswer
    constructor
    · simp
      omega
    · rw [List.take_append_of_le_length hfired]
      exact hmem
  · exact ⟨hplaced.1, by simpa using hplaced.2⟩

/-- Going on with nothing recorded keeps the ledger. -/
theorem Ledger.goes {pc' : Pc} (h : Ledger task s) (hgoes : s.pc.Goes pc') : Ledger task { s with pc := pc' } := by
  have hplaced := h.placed
  refine h.move rfl rfl rfl rfl ?_
  unfold Harness.Placed at hplaced ⊢
  generalize s.pc = pc at hgoes hplaced
  cases hgoes with
  | givesUp | leaves | breaks | replayed | credited | fails => trivial
  | listens | quiet | hears | delivered | subscribed | receives | collected | silent => exact hplaced

theorem Ledger.act {py : Builtins} {m : Moment} (h : Ledger task s) (hact : act py task s m = some s') :
    Ledger task s' := by
  have hmove := act_move hact
  have hplaced := h.placed
  unfold Harness.Placed at hplaced
  generalize hpc : s.pc = pc at hmove hplaced
  cases hmove with
  | prepares | answered | unanswered | waits => exact h.move rfl rfl rfl rfl hplaced
  | enters i => exact h.enter hpc m.now
  | drives i action => exact h.drive hpc
  | stamps i => exact h.stamp hpc m.now
  | short | message => exact h.move rfl rfl rfl rfl hplaced
  | goes pc pc' hgoes => exact h.goes (hpc ▸ hgoes)
  | settles => exact h
  -- nothing of the ledger is left to keep in its place
  | refuses | infra | exits | joins | objects | accepts | discredits | closes | scores =>
    exact h.move rfl rfl rfl rfl trivial

/-! ### The verdict -/

/-- The needle of a wait that was begun counts as an answer, where it is in the log. -/
def Harness.Credited (s : Harness) (entry : List Char × Option ℚ) : Prop :=
  occurs entry.1 s.serialText = true → (s.box.firstAnswerStamp entry.1 entry.2).isSome = true

/-- The verdict found nothing against the waits that were begun. -/
structure Harness.Settled (s : Harness) : Prop where
  text : s.serialText <+: s.box.text
  credited : ∀ entry ∈ s.waited, s.Credited entry

/-- What the verdict has established so far. -/
def Harness.Judged (s : Harness) : Prop :=
  match s.pc with
  | .replaying rest => s.serialText <+: s.box.text ∧ ∀ entry ∈ s.waited, entry ∈ rest ∨ s.Credited entry
  | .crediting | .closing | .scoring => s.error = none → s.Settled
  | .done result => result.passed = true → s.Settled
  | _ => True

theorem Harness.Credited.grows {entry : List Char × Option ℚ} (h : s.Credited entry)
    (htext : s'.serialText = s.serialText) (hgrows : s.box.Grows s'.box) : s'.Credited entry := by
  intro hoccurs
  rw [htext] at hoccurs
  obtain ⟨stamp, hstamp⟩ := Option.isSome_iff_exists.1 (h hoccurs)
  exact Option.isSome_iff_exists.2 ⟨stamp, hgrows.firstAnswerStamp hstamp⟩

theorem Harness.Settled.grows (h : s.Settled) (htext : s'.serialText = s.serialText) (hwaited : s'.waited = s.waited)
    (hgrows : s.box.Grows s'.box) : s'.Settled := by
  constructor
  · rw [htext]
    exact h.text.trans hgrows.text
  · intro entry hentry
    rw [hwaited] at hentry
    exact (h.credited entry hentry).grows htext hgrows

theorem Harness.Judged.grows {box : Box} (h : s.Judged) (hgrows : s.box.Grows box) :
    Harness.Judged { s with box := box } := by
  unfold Harness.Judged at h ⊢
  cases hpc : s.pc with
  | replaying rest =>
    simp only [hpc] at h ⊢
    constructor
    · exact h.1.trans hgrows.text
    · intro entry hentry
      rcases h.2 entry hentry with hrest | hcredited
      · exact .inl hrest
      · exact .inr (hcredited.grows rfl hgrows)
  | crediting | closing | scoring =>
    simp only [hpc] at h ⊢
    intro herror
    exact (h herror).grows rfl rfl hgrows
  | done result =>
    simp only [hpc] at h ⊢
    intro hpassed
    exact (h hpassed).grows rfl rfl hgrows
  | _ => trivial

private theorem Harness.judged_infra (s : Harness) : s.infra.Judged := by
  intro herror
  cases herror

private theorem Harness.judged_enter (s : Harness) (now : ℚ) (i : Nat) : (s.enter task now i).Judged := by
  unfold Harness.enter
  split
  · trivial
  · split
    · trivial
    · split <;> trivial

private theorem Harness.judged_drive (s : Harness) (i : Nat) (action : Action) : (s.drive i action).Judged := by
  unfold Harness.drive
  split
  · trivial
  · split
    · exact s.judged_infra
    · split
      · exact s.judged_infra
      · trivial
    all_goals trivial

private theorem Harness.result_passed {py : Builtins} (h : (s.result py task).passed = true) : s.error = none := by
  simp only [Harness.result, Bool.and_eq_true] at h
  exact Option.isNone_iff_eq_none.1 h.2

/-- Going on with nothing recorded, the verdict keeps what it has established. -/
theorem Harness.Judged.goes {pc' : Pc} (h : s.Judged) (hgoes : s.pc.Goes pc') :
    Harness.Judged { s with pc := pc' } := by
  unfold Harness.Judged at h ⊢
  generalize s.pc = pc at hgoes h
  cases hgoes with
  | replayed =>
    intro _
    refine ⟨h.1, fun entry hentry => ?_⟩
    rcases h.2 entry hentry with hrest | hcredited
    · cases hrest
    · exact hcredited
  | credited =>
    intro herror
    exact (h herror).grows rfl rfl (.refl _)
  | _ => trivial

theorem Harness.Judged.act {py : Builtins} {m : Moment} (h : s.Judged) (hact : act py task s m = some s') :
    s'.Judged := by
  have hmove := act_move hact
  generalize hpc : s.pc = pc at hmove
  cases hmove with
  | refuses => exact fun hpassed => absurd hpassed Bool.false_ne_true
  | infra => exact s.judged_infra
  | enters i => exact s.judged_enter m.now i
  | drives i action => exact s.judged_drive i action
  | joins => exact ⟨List.prefix_refl _, fun entry hentry => .inl hentry⟩
  | objects | discredits => exact fun herror => absurd herror (Option.some_ne_none _)
  | accepts needle since rest hfine =>
    rw [Harness.Judged, hpc] at h
    refine ⟨h.1, fun other hother => ?_⟩
    rcases h.2 other hother with hmem | hcredited
    · rcases List.mem_cons.1 hmem with rfl | hrest
      · right
        intro hoccurs
        by_contra hnone
        exact hfine (by simpa [hoccurs] using hnone)
      · exact .inl hrest
    · exact .inr hcredited
  | closes error herror =>
    rw [Harness.Judged, hpc] at h
    exact fun hnone => (h (herror hnone)).grows rfl rfl (.refl _)
  | scores =>
    rw [Harness.Judged, hpc] at h
    exact fun hpassed => (h (Harness.result_passed hpassed)).grows rfl rfl (.refl _)
  | goes pc pc' hgoes => exact h.goes (hpc ▸ hgoes)
  | settles => exact h
  | prepares | answered | unanswered | waits | stamps | short | message | exits => trivial

/-! ### Runs -/

variable {py : Builtins} {moments : List Moment}

private theorem ledger_run (hrun : run (step py task) start moments = some s) : Ledger task s := by
  apply invariant _ hrun ledger_start
  intro t m t' hstep h
  have hheard : Ledger task { t with box := t.box.hear m.ingested m.eof } := h.move rfl rfl rfl rfl h.placed
  exact hheard.act hstep

private theorem judged_run (hrun : run (step py task) start moments = some s) : s.Judged := by
  apply invariant _ hrun trivial
  intro t m t' hstep h
  have hheard := h.grows (t.box.grows_hear m.ingested m.eof)
  exact hheard.act hstep

/-- Every needle of a wait in the log was ingested after the last trigger before that wait. -/
def Anchored (task : Task) (s : Harness) : Prop :=
  ∀ i j needle pos, task.wait i = some needle → task.LastTrigger i j → find needle s.serialText = some pos →
    ∃ delivered stamp, task.deliveryTime s.triggerStamps j = some delivered ∧ tagAt pos s.box.chunks = some stamp ∧
      delivered ≤ stamp

/-- The last trigger before a wait whose needle is in the log was delivered, and the loop came to the wait; or it
broke off between the two, and the needle is no earlier than the trigger. -/
def Covered (task : Task) (s : Harness) : Prop :=
  ∀ i j needle, task.wait i = some needle → task.LastTrigger i j → occurs needle s.serialText = true →
    ∃ delivered, task.deliveryTime s.triggerStamps j = some delivered ∧
      (i < s.entered ∨ (firstOccurrenceStamp s.serialText s.box.chunks needle (some delivered)).isSome = true)

/-- A wait that was begun after its trigger is replayed with the stamp of that trigger. -/
theorem Ledger.credited (h : Ledger task s) (hsettled : s.Settled) {i j : Nat} {needle : List Char} {delivered : ℚ}
    (hi : i < s.entered) (hwait : task.wait i = some needle) (htrigger : task.LastTrigger i j)
    (hdelivered : task.deliveryTime s.triggerStamps j = some delivered) :
    occurs needle s.serialText = true → (s.box.firstAnswerStamp needle (some delivered)).isSome = true := by
  obtain ⟨-, hmem⟩ := h.waited i hi needle hwait
  rw [htrigger.stamp hdelivered] at hmem
  exact hsettled.credited _ hmem

theorem Covered.anchored (h : Covered task s) (hledger : Ledger task s) (hsettled : s.Settled) : Anchored task s := by
  intro i j needle pos hwait htrigger hpos
  have hoccurs : occurs needle s.serialText = true := by rw [occurs, hpos]; rfl
  obtain ⟨delivered, hdelivered, hreached⟩ := h i j needle hwait htrigger hoccurs
  rcases hreached with hbegun | hlate
  · have hanswer := hledger.credited hsettled hbegun hwait htrigger hdelivered hoccurs
    obtain ⟨stamp, hstamp⟩ := Option.isSome_iff_exists.1 hanswer
    obtain ⟨pos', since, hpos', htag, hsince, hle⟩ := firstOccurrenceStamp_eq_some.1 hstamp
    -- the box may have grown after the log was taken; the first occurrence is where it was
    obtain ⟨more, hmore⟩ := hsettled.text
    obtain rfl : pos = pos' := by
      rw [← hmore, find_append hpos more] at hpos'
      exact Option.some.inj hpos'
    obtain rfl := Option.some.inj hsince
    exact ⟨delivered, stamp, hdelivered, htag, hle⟩
  · obtain ⟨stamp, hstamp⟩ := Option.isSome_iff_exists.1 hlate
    obtain ⟨pos', since, hpos', htag, hsince, hle⟩ := firstOccurrenceStamp_eq_some.1 hstamp
    obtain rfl : pos = pos' := Option.some.inj (hpos.symm.trans hpos')
    obtain rfl := Option.some.inj hsince
    exact ⟨delivered, stamp, hdelivered, htag, hle⟩

private theorem Anchored.covered (h : Anchored task s) : Covered task s := by
  intro i j needle hwait htrigger hoccurs
  obtain ⟨pos, hpos⟩ := Option.isSome_iff_exists.1 hoccurs
  obtain ⟨delivered, stamp, hdelivered, htag, hle⟩ := h i j needle pos hwait htrigger hpos
  refine ⟨delivered, hdelivered, .inr ?_⟩
  rw [firstOccurrenceStamp_eq_some.2 ⟨pos, delivered, hpos, htag, rfl, hle⟩]
  rfl

private theorem settled_of_passed {result : TaskResult} (hrun : run (step py task) start moments = some s)
    (hdone : s.pc = .done result) (hpassed : result.passed = true) : s.Settled := by
  have hjudged := judged_run hrun
  rw [Harness.Judged, hdone] at hjudged
  exact hjudged hpassed

/-- `re` on patterns without special characters, `float` on none. -/
def plainBuiltins : Builtins where
  compiles := isPlainText
  search pattern text := (find pattern text).map (· + pattern.length)
  float _ := none

/-- Two questions, each with its answer. -/
def echoTask : UnixTask plainBuiltins.compiles where
  name := "synth-echo".toList
  timeoutSec := 5
  expect := ["boot ok".toList, "echo: hi".toList, "echo: again".toList]
  fail := []
  stimulus :=
    [{ emptyStep with delay := some (some (1 / 10)) },
      { emptyStep with writeSerial := some "hi\r".toList }, { emptyStep with waitSerial := some "echo: hi".toList },
      { emptyStep with writeSerial := some "again\r".toList }, { emptyStep with waitSerial := some "echo: again".toList }]
  mqtt := false
  events := []
  loads := by decide +kernel

/-- A step at a time in hundredths of a second, with nothing new. -/
def tick (now : ℕ) : Moment := ⟨[], false, now / 100, none, none, false, false⟩

/-- A write: the quiet window, the stamp and the delivery. -/
def writeTicks (now : ℕ) : List Moment :=
  [now, now, now + 5, now + 5, now + 10, now + 10, now + 15, now + 15, now + 20, now + 20, now + 20, now + 20].map tick

/-- A wait that finds its answer at the second look. -/
def waitTicks (now : ℕ) (ingested : Chunks) (eof : Bool) : List Moment :=
  [tick now, tick now, tick now, { tick (now + 5) with ingested := ingested, eof := eof }]

/-- The stimulus up to the first question. -/
def askTicks : List Moment :=
  [tick 0, tick 0, tick 0, { tick 10 with ingested := [(5 / 100, "boot ok\n".toList)] }] ++ writeTicks 10

/-- The end of the output is seen, the exit code is read, and the verdict goes over `waits` waits. -/
def endTicks (now waits : ℕ) : List Moment :=
  [tick now, { tick now with exit := some 0 }] ++ (List.replicate (waits + 5) now).map tick

/-- What a run ends with: whether it passed, the log, the trigger stamps and the steps begun. -/
def outcome (moments : List Moment) : Option (Bool × String × List ℚ × Nat) :=
  (run (step plainBuiltins echoTask.toTask) start moments).bind fun s =>
    match s.pc with
    | .done result => some (result.passed, String.ofList s.serialText, s.triggerStamps, s.entered)
    | _ => none

/-- The firmware answers both questions and exits. -/
def answerTicks : List Moment :=
  askTicks ++ waitTicks 30 [(31 / 100, "echo: hi\n".toList)] false ++ [tick 35] ++ writeTicks 35 ++
    waitTicks 55 [(56 / 100, "echo: again\n".toList)] true ++ [tick 60] ++ endTicks 60 2

/-- The firmware answers the first question, prints the second answer with it and exits. -/
def dumpTicks : List Moment :=
  askTicks ++ waitTicks 30 [(31 / 100, "echo: hi\n".toList), (31 / 100, "echo: again\n".toList)] true ++
    [tick 35, tick 35] ++ endTicks 35 1

/-- A run that passes and has come to every wait whose needle is in the log is sound, where no step hides a trigger
behind another key. -/
theorem pass_anchored {result : TaskResult} (hrun : run (step py task) start moments = some s)
    (hdone : s.pc = .done result) (hpassed : result.passed = true)
    (hplain : ∀ st ∈ task.stimulus, st.isTrigger = true → task.fires st = true)
    (hbegun : ∀ i needle, task.wait i = some needle → occurs needle s.serialText = true → i < s.entered) :
    Anchored task s := by
  have hledger := ledger_run hrun
  apply Covered.anchored _ hledger (settled_of_passed hrun hdone hpassed)
  intro i j needle hwait htrigger hoccurs
  have hi := hbegun i needle hwait hoccurs
  obtain ⟨st, hst, htrig⟩ := htrigger.trigger
  have hfires := hplain st (List.mem_of_getElem? hst) htrig
  obtain ⟨hcount, -⟩ := hledger.waited i hi needle hwait
  have hmore : task.fired j + 1 ≤ task.fired i := by
    have hsucc : task.fired (j + 1) = task.fired j + 1 := by rw [Task.fired_succ hst, if_pos hfires]
    rw [← hsucc]
    exact List.Sublist.countP_le (List.take_sublist_take_left htrigger.before)
  have hlen : task.fired j < s.triggerStamps.length := by omega
  refine ⟨s.triggerStamps[task.fired j], ?_, .inl hi⟩
  simp [Task.deliveryTime, hst, hfires, hlen]

end IronHarness.Runner
