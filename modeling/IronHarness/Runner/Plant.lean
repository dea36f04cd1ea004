import IronHarness.Lib.Runs

/-!
# The closed loop of the plant target

`_run_plant` (ironbench/runner_plant.py) with `run_closed_loop` (ironbench/plant.py): the harness sends a measurement
for each step and takes the next line of a bounded queue as the answer, while a thread (`_pump_lines`) moves the
lines of the controller into the queue.  The controller prints what it likes whenever it likes.  The physics of the
plant is a parameter: it only decides which measurements are sent.
-/

namespace IronHarness.Runner.Plant

open Runs

abbrev Line := List Char

/-- `float` and `math.isfinite`, and the simulated plant: the text of the measurement of a step, and the plant after
the (clamped) answer to it. -/
structure Spec (F Y : Type) where
  /-- `max(1, round(duration / dt))` -/
  steps : Nat
  steps_pos : 0 < steps
  start : Y
  measurement : Nat → Y → Line
  advance : Nat → Y → F → Y
  float : Line → Option F
  finite : F → Bool

inductive Error
  | overflow
  | broken
  | flooded
  | timeout
  | eof
  | nonNumber
  | exitCode
  deriving DecidableEq

/-- Where the harness is. -/
inductive Pc
  | sending
  /-- after `writer.write` -/
  | checking
  /-- in the loop around `out_q.get` -/
  | waiting
  /-- after `run_closed_loop` -/
  | closing
  /-- before `proc.wait` -/
  | exiting
  /-- before the last look at `dropped`; the pump may have been joined or not -/
  | judging (exitCode : Option Int)
  | done (error : Option Error)
  deriving DecidableEq

/-- Where `_pump_lines` is; `none` is the item for the end of the stream. -/
inductive Pump
  | reading
  | holding (item : Option Line)
  | dropping (item : Option Line)
  | putting (item : Option Line)
  | ended
  deriving DecidableEq

def maxLines : Nat := 8192

/-- The whole system.  `printed` are the lines of the controller, each with the number of measurements that the
harness had sent by then; `pending` are those that the pump has not read. -/
structure State (F Y : Type) where
  pc : Pc
  plant : Y
  /-- the measurements sent -/
  sent : List Line
  /-- the control values taken, before clamping -/
  taken : List F
  printed : List (Line × Nat)
  pending : List Line
  /-- the controller has closed its stdout -/
  closed : Bool
  pump : Pump
  queue : List (Option Line)
  dropped : Nat

inductive Act
  | print (line : Line)
  | closeStdout
  | pump
  | send
  | check (overflow broken : Bool)
  | get
  /-- the wall deadline -/
  | expire
  | close
  | exit (exitCode : Option Int)
  | judge
  deriving DecidableEq

variable {F Y : Type}

def Spec.init (spec : Spec F Y) : State F Y where
  pc := .sending
  plant := spec.start
  sent := []
  taken := []
  printed := []
  pending := []
  closed := false
  pump := .reading
  queue := []
  dropped := 0

/-- The next step of `_pump_lines`. -/
def State.pumpStep (s : State F Y) : Option (State F Y) :=
  match s.pump with
  | .reading =>
    match s.pending with
    | line :: pending => some { s with pump := .holding (some line), pending := pending }
    | [] => if s.closed then some { s with pump := .holding none } else none
  | .holding item =>
    if maxLines ≤ s.queue.length then some { s with pump := .dropping item, dropped := s.dropped + 1 }
    else some { s with pump := .putting item }
  | .dropping item =>
    match s.queue with
    | _ :: queue => some { s with pump := .putting item, queue := queue }
    -- `get_nowait` raises
    | [] => some { s with pump := .ended }
  | .putting item =>
    -- `put_nowait` raises on a full queue
    if maxLines ≤ s.queue.length then some { s with pump := .ended }
    else some { s with pump := if item.isNone then .ended else .reading, queue := s.queue ++ [item] }
  | .ended => none

/-- The answer to a step: `float(item)`, then the checks and the plant of `run_closed_loop`. -/
def State.answer (spec : Spec F Y) (s : State F Y) (line : Line) : State F Y :=
  match spec.float line with
  | none => { s with pc := .done (some .nonNumber) }
  | some u =>
    if !spec.finite u then { s with pc := .done (some .nonNumber) }
    else
      { s with
        pc := if s.taken.length + 1 < spec.steps then .sending else .closing
        plant := spec.advance s.taken.length s.plant u
        taken := s.taken ++ [u] }

def State.act (spec : Spec F Y) (s : State F Y) (a : Act) : Option (State F Y) :=
  match a, s.pc with
  | .print line, _ =>
    if s.closed then none
    else some { s with printed := s.printed ++ [(line, s.sent.length)], pending := s.pending ++ [line] }
  | .closeStdout, _ => some { s with closed := true }
  | .pump, _ => s.pumpStep
  | .send, .sending =>
    some { s with pc := .checking, sent := s.sent ++ [spec.measurement s.taken.length s.plant] }
  | .check overflow broken, .checking =>
    some { s with
      pc :=
        if overflow then .done (some .overflow)
        else if broken then .done (some .broken)
        else if s.dropped ≠ 0 then .done (some .flooded)
        else .waiting }
  | .get, .waiting =>
    match s.queue with
    | [] => none
    | none :: queue => some { s with pc := .done (some .eof), queue := queue }
    | some line :: queue => some ({ s with queue := queue }.answer spec line)
  | .expire, .waiting => some { s with pc := .done (some .timeout) }
  | .close, .closing => some { s with pc := if s.dropped ≠ 0 then .done (some .flooded) else .exiting }
  | .exit exitCode, .exiting => some { s with pc := .judging exitCode }
  | .judge, .judging exitCode =>
    some { s with
      pc :=
        if s.dropped ≠ 0 then .done (some .flooded)
        else if exitCode = none ∨ exitCode = some 0 then .done none
        else .done (some .exitCode) }
  | _, _ => none

/-! ### What a line-for-line exchange is -/

/-- The value of each step is the float on the line of that number, the line was printed after the measurement of the
step was sent, and there are as many lines as steps. -/
structure Lockstep (spec : Spec F Y) (s : State F Y) : Prop where
  steps : s.taken.length = spec.steps
  answers : ∀ k u, s.taken[k]? = some u →
    ∃ (line : Line) (sent : Nat), s.printed[k]? = some (line, sent) ∧ spec.float line = some u ∧ k < sent
  exact_lines : s.printed.length = spec.steps

/-- A line is printed only while a measurement has no line yet. -/
def Answers (s : State F Y) (a : Act) : Prop := ∀ line, a = .print line → s.printed.length < s.sent.length

instance (s : State F Y) (a : Act) : Decidable (Answers s a) :=
  match a with
  | .print line =>
    decidable_of_iff (s.printed.length < s.sent.length) ⟨fun h _ _ => h, fun (h : Answers s (.print line)) => h line rfl⟩
  | .closeStdout | .pump | .send | .check _ _ | .get | .expire | .close | .exit _ | .judge =>
    isTrue fun _ h => Act.noConfusion h

/-! ### The exchange while every line is an answer -/

/-- The lines in the hands of the pump. -/
def Pump.held : Pump → List Line
  | .holding (some line) | .dropping (some line) | .putting (some line) => [line]
  | _ => []

/-- The counts of the measurements and the answers where the harness is. -/
def Pc.Counts (steps sent taken : Nat) : Pc → Prop
  | .sending => sent = taken ∧ taken < steps
  | .checking | .waiting => sent = taken + 1 ∧ taken < steps
  | .closing | .exiting | .judging _ | .done none => sent = taken ∧ taken = steps
  | .done (some _) => True

/-- Every printed line is taken, in the queue, in the hands of the pump or pending, in this order; the item for the
end of the stream is last. -/
def Flow (spec : Spec F Y) (s : State F Y) : Prop :=
  ∃ old lines : List Line, ∃ tail : List (Option Line),
    s.printed.map Prod.fst = old ++ (lines ++ (s.pump.held ++ s.pending)) ∧ old.map spec.float = s.taken.map some ∧
      s.queue = lines.map some ++ tail ∧ (tail = [] ∨ s.pump = .ended ∧ tail = [none])

structure Exchange (spec : Spec F Y) (s : State F Y) : Prop where
  printed_le : s.printed.length ≤ s.sent.length
  stamps : ∀ (k : Nat) (line : Line) (sent : Nat), s.printed[k]? = some (line, sent) → k < sent
  counts : s.pc.Counts spec.steps s.sent.length s.taken.length
  none_dropped : s.dropped = 0
  not_dropping : ∀ item, s.pump ≠ .dropping item
  flow : Flow spec s

def Failed (s : State F Y) : Prop := ∃ e, s.pc = .done (some e)

variable {spec : Spec F Y} {s s' : State F Y} {a : Act}

private theorem exchange_init : Exchange spec spec.init where
  printed_le := Nat.le_refl _
  stamps := by simp [Spec.init]
  counts := ⟨rfl, spec.steps_pos⟩
  none_dropped := rfl
  not_dropping := by simp [Spec.init]
  flow := ⟨[], [], [], rfl, rfl, rfl, .inl rfl⟩

theorem Failed.act (h : Failed s) (hact : s.act spec a = some s') : Failed s' := by
  obtain ⟨e, he⟩ := h
  unfold State.act State.pumpStep at hact
  rw [he] at hact
  refine ⟨e, ?_⟩
  grind

/-- While the pump still puts lines, the queue is short. -/
private theorem Exchange.queue_short (h : Exchange spec s) (hlive : ¬ Failed s) (hpump : s.pump ≠ .ended) :
    s.queue.length < maxLines := by
  obtain ⟨old, lines, tail, hprinted, hold, hqueue, htail⟩ := h.flow
  have hlength := congrArg List.length hprinted
  have htaken := congrArg List.length hold
  have hle := h.printed_le
  have hcounts := h.counts
  simp only [List.length_map, List.length_append] at hlength htaken
  have hsent : s.sent.length ≤ s.taken.length + 1 := by
    unfold Pc.Counts at hcounts
    split at hcounts
    · omega
    · omega
    · omega
    · omega
    · omega
    · omega
    · omega
    · rename_i e he
      exact absurd ⟨e, he⟩ hlive
  obtain rfl : tail = [] := htail.resolve_right fun hend => hpump hend.1
  rw [hqueue, List.append_nil, List.length_map, maxLines]
  omega

/-- The pump moves lines on and drops none. -/
private theorem Exchange.pumpStep (h : Exchange spec s) (hlive : ¬ Failed s) (hact : s.pumpStep = some s') :
    Exchange spec s' := by
  obtain ⟨old, lines, tail, hprinted, hold, hqueue, htail⟩ := h.flow
  have htail' : s.pump ≠ .ended → tail = [] := fun hpump => htail.resolve_right fun hend => hpump hend.1
  unfold State.pumpStep at hact
  split at hact
  · rename_i hpump
    obtain rfl := htail' (by simp [hpump])
    rw [hpump] at hprinted
    split at hact
    · rename_i line pending hpending
      obtain rfl := Option.some.inj hact
      rw [hpending] at hprinted
      exact ⟨h.printed_le, h.stamps, h.counts, h.none_dropped, by simp, old, lines, [], hprinted, hold, hqueue, .inl rfl⟩
    · split at hact
      · obtain rfl := Option.some.inj hact
        exact ⟨h.printed_le, h.stamps, h.counts, h.none_dropped, by simp, old, lines, [], hprinted, hold, hqueue,
          .inl rfl⟩
      · cases hact
  · rename_i item hpump
    obtain rfl := htail' (by simp [hpump])
    rw [if_neg (Nat.not_le.2 (h.queue_short hlive (by simp [hpump])))] at hact
    obtain rfl := Option.some.inj hact
    refine ⟨h.printed_le, h.stamps, h.counts, h.none_dropped, by simp, old, lines, [], ?_, hold, hqueue, .inl rfl⟩
    rw [hpump] at hprinted
    cases item <;> exact hprinted
  · rename_i item hpump
    exact absurd hpump (h.not_dropping item)
  · rename_i item hpump
    obtain rfl := htail' (by simp [hpump])
    rw [if_neg (Nat.not_le.2 (h.queue_short hlive (by simp [hpump])))] at hact
    obtain rfl := Option.some.inj hact
    rw [hpump] at hprinted
    cases item with
    | none =>
      exact ⟨h.printed_le, h.stamps, h.counts, h.none_dropped, by simp, old, lines, [none], hprinted, hold,
        by simp [hqueue], .inr ⟨rfl, rfl⟩⟩
    | some line =>
      refine ⟨h.printed_le, h.stamps, h.counts, h.none_dropped, by simp, old, lines ++ [line], [], ?_, hold,
        by simp [hqueue], .inl rfl⟩
      rw [hprinted]
      simp [Pump.held]
  · cases hact

/-- An answer is the line after those taken. -/
theorem Exchange.answer (h : Exchange spec s) (hpc : s.pc = .waiting) {line : Line} {queue : List (Option Line)}
    (hget : s.queue = some line :: queue) :
    Failed (State.answer spec { s with queue := queue } line) ∨
      Exchange spec (State.answer spec { s with queue := queue } line) := by
  obtain ⟨old, lines, tail, hprinted, hold, hqueue, htail⟩ := h.flow
  have hcounts := h.counts
  rw [hpc] at hcounts
  obtain ⟨hsent, htaken⟩ := hcounts
  obtain ⟨lines, rfl⟩ : ∃ rest, lines = line :: rest := by
    cases lines with
    | nil =>
      rcases htail with rfl | ⟨-, rfl⟩
      · simp [hqueue] at hget
      · simp [hqueue] at hget
    | cons first rest =>
      rw [hqueue, List.map_cons, List.cons_append] at hget
      obtain rfl := Option.some.inj (List.cons.inj hget).1
      exact ⟨rest, rfl⟩
  have hrest : queue = lines.map some ++ tail := by
    rw [hqueue] at hget
    simpa using hget.symm
  unfold State.answer
  split
  · exact .inl ⟨_, rfl⟩
  · rename_i u hu
    split
    · exact .inl ⟨_, rfl⟩
    · refine .inr ⟨h.printed_le, h.stamps, ?_, h.none_dropped, h.not_dropping, old ++ [line], lines, tail, ?_, ?_, hrest,
        htail⟩
      · dsimp only
        rw [List.length_append, List.length_singleton]
        split
        · rename_i hmore
          exact ⟨hsent, hmore⟩
        · exact ⟨hsent, by omega⟩
      · simpa using hprinted
      · simp [hold, hu]

/-- Every step keeps the exchange, or the run has failed. -/
theorem Exchange.act (h : Exchange spec s) (hlive : ¬ Failed s) (ha : Answers s a) (hact : s.act spec a = some s') :
    Failed s' ∨ Exchange spec s' := by
  obtain ⟨hle, hstamps, hcounts, hdropped, hnot, hflow⟩ := h
  have h : Exchange spec s := ⟨hle, hstamps, hcounts, hdropped, hnot, hflow⟩
  unfold State.act at hact
  split at hact
  · rename_i line
    split at hact
    · cases hact
    · obtain rfl := Option.some.inj hact
      have hlt := ha line rfl
      obtain ⟨old, lines, tail, hprinted, hrest⟩ := hflow
      refine .inr ⟨?_, ?_, hcounts, hdropped, hnot, old, lines, tail, by simp [hprinted], hrest⟩
      · rw [List.length_append]
        exact hlt
      · intro k line' sent hk
        rcases Nat.lt_trichotomy k s.printed.length with hk' | rfl | hk'
        · rw [List.getElem?_append_left hk'] at hk
          exact hstamps k line' sent hk
        · simp at hk
          omega
        · rw [List.getElem?_eq_none (by rw [List.length_append]; exact hk')] at hk
          cases hk
  · obtain rfl := Option.some.inj hact
    exact .inr ⟨hle, hstamps, hcounts, hdropped, hnot, hflow⟩
  · exact .inr (h.pumpStep hlive hact)
  · rename_i hpc
    obtain rfl := Option.some.inj hact
    rw [hpc] at hcounts
    refine .inr ⟨?_, hstamps, ?_, hdropped, hnot, hflow⟩
    · rw [List.length_append]
      exact Nat.le_add_right_of_le hle
    · rw [List.length_append]
      exact ⟨congrArg (· + 1) hcounts.1, hcounts.2⟩
  · rename_i overflow broken hpc
    obtain rfl := Option.some.inj hact
    rw [hpc] at hcounts
    cases overflow with
    | true => exact .inl ⟨_, rfl⟩
    | false =>
      cases broken with
      | true => exact .inl ⟨_, rfl⟩
      | false =>
        refine .inr ⟨hle, hstamps, ?_, hdropped, hnot, hflow⟩
        simp only [Bool.false_eq_true, if_false, hdropped, ne_eq, not_true_eq_false]
        exact hcounts
  · rename_i hpc
    split at hact
    · cases hact
    · obtain rfl := Option.some.inj hact
      exact .inl ⟨_, rfl⟩
    · rename_i line queue hqueue
      obtain rfl := Option.some.inj hact
      exact h.answer hpc hqueue
  · obtain rfl := Option.some.inj hact
    exact .inl ⟨_, rfl⟩
  · rename_i hpc
    obtain rfl := Option.some.inj hact
    rw [hpc] at hcounts
    refine .inr ⟨hle, hstamps, ?_, hdropped, hnot, hflow⟩
    simp only [hdropped, ne_eq, not_true_eq_false, if_false]
    exact hcounts
  · rename_i exitCode hpc
    obtain rfl := Option.some.inj hact
    rw [hpc] at hcounts
    exact .inr ⟨hle, hstamps, hcounts, hdropped, hnot, hflow⟩
  · rename_i exitCode hpc
    obtain rfl := Option.some.inj hact
    rw [hpc] at hcounts
    by_cases hexit : exitCode = none ∨ exitCode = some 0
    · refine .inr ⟨hle, hstamps, ?_, hdropped, hnot, hflow⟩
      simp only [hdropped, hexit, ne_eq, not_true_eq_false, if_false, if_true]
      exact hcounts
    · exact .inl ⟨.exitCode, by simp [hdropped, hexit]⟩
  · cases hact

/-! ### Runs -/

variable {acts : List Act} {fin : State F Y}

private theorem exchange_run (h : Exchange spec s) (hanswers : Along (State.act spec) Answers s acts)
    (hrun : run (State.act spec) s acts = some s') : Failed s' ∨ Exchange spec s' := by
  refine hanswers.invariant (I := fun s => Failed s ∨ Exchange spec s) (fun s a s' ha hact h => ?_) hrun (.inr h)
  rcases h with hfailed | h
  · exact .inl (hfailed.act hact)
  · by_cases hlive : Failed s
    · exact .inl (hlive.act hact)
    · exact h.act hlive ha hact

private theorem Exchange.lockstep (h : Exchange spec s) (hdone : s.pc = .done none) : Lockstep spec s := by
  obtain ⟨old, lines, tail, hprinted, hold, -, -⟩ := h.flow
  have hcounts := h.counts
  rw [hdone] at hcounts
  obtain ⟨hsent, htaken⟩ := hcounts
  have hlength := congrArg List.length hprinted
  have holdLength := congrArg List.length hold
  have hle := h.printed_le
  simp only [List.length_map, List.length_append] at hlength holdLength
  refine ⟨htaken, fun k u hk => ?_, by omega⟩
  have hline : (old.map spec.float)[k]? = some (some u) := by
    rw [hold, List.getElem?_map, hk]
    rfl
  rw [List.getElem?_map, Option.map_eq_some_iff] at hline
  obtain ⟨line, hline, hfloat⟩ := hline
  have hpair : (s.printed.map Prod.fst)[k]? = some line := by
    obtain ⟨hlt, -⟩ := List.getElem?_eq_some_iff.1 hline
    rw [hprinted, List.getElem?_append_left hlt, hline]
  rw [List.getElem?_map, Option.map_eq_some_iff] at hpair
  obtain ⟨⟨line', sent⟩, hp, rfl⟩ := hpair
  exact ⟨line', sent, hp, hfloat, h.stamps k line' sent hp⟩

/-- What is printed stays printed. -/
private theorem printed_act (hact : s.act spec a = some s') : s.printed <+: s'.printed := by
  unfold State.act State.pumpStep State.answer at hact
  grind [List.prefix_refl, List.prefix_append]

private theorem printed_run (hrun : run (State.act spec) s acts = some s') : s.printed <+: s'.printed :=
  invariant (I := fun t => s.printed <+: t.printed) (fun _ _ _ hact h => h.trans (printed_act hact)) hrun
    (List.prefix_refl _)

/-- In an exchange line for line every line is an answer. -/
private theorem answers_of_lockstep (hrun : run (State.act spec) spec.init acts = some fin) (h : Lockstep spec fin) :
    Along (State.act spec) Answers spec.init acts := by
  apply Along.of_at
  rintro n a t hat line rfl
  obtain ⟨t', hact, hrest, -⟩ := hat.part acts.length (by rw [List.take_of_length_le (by omega)]; exact hrun)
  have hprinted : t.printed ++ [(line, t.sent.length)] <+: fin.printed := by
    simp only [State.act] at hact
    split at hact
    · cases hact
    · obtain rfl := Option.some.inj hact
      exact printed_run hrest
  obtain ⟨more, hmore⟩ := hprinted
  have hline : fin.printed[t.printed.length]? = some (line, t.sent.length) := by
    rw [← hmore]
    simp
  have hlt : t.printed.length < fin.taken.length := by
    obtain ⟨hlt, -⟩ := List.getElem?_eq_some_iff.1 hline
    rw [h.steps, ← h.exact_lines]
    exact hlt
  obtain ⟨line', sent, hk, -, hsent⟩ := h.answers _ _ (List.getElem?_eq_getElem hlt)
  obtain ⟨-, rfl⟩ := Prod.mk.inj (Option.some.inj (hline.symm.trans hk))
  exact hsent

/-- A run without an error is an exchange line for line when every line is printed as an answer, and only then. -/
theorem lockstep_iff (hrun : run (State.act spec) spec.init acts = some fin) (hdone : fin.pc = .done none) :
    Lockstep spec fin ↔ Along (State.act spec) Answers spec.init acts := by
  constructor
  · exact answers_of_lockstep hrun
  · intro hanswers
    rcases exchange_run exchange_init hanswers hrun with ⟨e, he⟩ | h
    · cases he.symm.trans hdone
    · exact h.lockstep hdone

/-- Two steps, numbers of one digit. -/
def twoSteps : Spec Nat Unit where
  steps := 2
  steps_pos := by decide
  start := ()
  measurement := fun k _ => (toString k).toList
  advance := fun _ _ _ => ()
  float := fun line =>
    match line with
    | ['0', '\n'] => some 0
    | ['1', '\n'] => some 1
    | _ => none
  finite := fun _ => true

def stepActs : List Act := [.print ['1', '\n'], .pump, .pump, .pump, .get]

def endActs : List Act := [.close, .exit (some 0), .judge]

def answeredActs : List Act :=
  [.send, .check false false] ++ stepActs ++ ([.send, .check false false] ++ stepActs) ++ endActs

theorem lockstep_iff_answered :
    ∃ fin, run (State.act twoSteps) twoSteps.init answeredActs = some fin ∧ Lockstep twoSteps fin := by
  obtain ⟨fin, hrun, hdone⟩ :
      ∃ fin, run (State.act twoSteps) twoSteps.init answeredActs = some fin ∧ fin.pc = .done none := ⟨_, rfl, rfl⟩
  exact ⟨fin, hrun, (lockstep_iff hrun hdone).2 (by decide)⟩

/-- The controller prints both answers before the first measurement. -/
def aheadActs : List Act :=
  [.print ['1', '\n'], .print ['1', '\n'], .pump, .pump, .pump, .pump, .pump, .pump, .send, .check false false, .get,
    .send, .check false false, .get] ++ endActs

theorem ahead_is_no_lockstep :
    ∃ fin, run (State.act twoSteps) twoSteps.init aheadActs = some fin ∧ fin.pc = .done none ∧
      ¬ Lockstep twoSteps fin := by
  refine ⟨_, rfl, rfl, fun h => ?_⟩
  obtain ⟨line, sent, hline, -, hsent⟩ := h.answers 0 1 rfl
  obtain ⟨-, rfl⟩ := Prod.mk.inj (Option.some.inj hline)
  exact absurd hsent (Nat.not_lt_zero 0)

end IronHarness.Runner.Plant
