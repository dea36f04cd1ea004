import Mathlib.Data.List.Basic
import IronHarness.Lib.Runs

/-!
# The stdin pump of a runner

`_StdinWriter`: any number of threads call `write` and `close`, and the pump thread takes the items from the queue and
writes them to the pipe, where a write may block, hand over a part, or fail.  The queue is under a lock; the event that
wakes the pump is set behind the lock and cleared under it.  The bound is on the queue: an item that the pump has taken
counts no more, so that what is accepted and not yet delivered can be twice as much (`backlog_is_twice`).
-/

namespace IronHarness.Runner

open Runs

/-- Where `_pump` is.  `writing` and `failing` hold the part of the item that the pipe has not got. -/
inductive PumpPc (α : Type)
  /-- within `_wake.wait()` -/
  | waiting
  /-- before the locked section that pops -/
  | popping
  | writing (rest : List α)
  /-- after the exception, before the locked section that drops the backlog -/
  | failing (rest : List α)
  /-- before the locked section at the end of the outer loop -/
  | checking
  /-- within that section, before `_wake.clear()` -/
  | clearing
  | exited
  deriving DecidableEq

/-- A `_StdinWriter` of bytes or of characters.  The last three are no fields of the code: how many calls of `write` and
`close` are between their locked section and `_wake.set()`, the items accepted so far, and what the pipe has got. -/
structure StdinWriter (α : Type) where
  queue : List (List α) := []
  pending : Nat := 0
  overflow : Bool := false
  broken : Bool := false
  closing : Bool := false
  wake : Bool := false
  pump : PumpPc α := .waiting
  setting : Nat := 0
  accepted : List (List α) := []
  handed : List α := []
  deriving DecidableEq

/-- `MAX_PENDING_BYTES`. -/
def maxPendingBytes : Nat := 1 <<< 20

inductive PumpAct (α : Type)
  /-- the locked section of `write` -/
  | write (data : List α)
  /-- the locked section of `close` -/
  | close
  /-- `_wake.set()` of one of them -/
  | set
  /-- `_wake.wait()` returns -/
  | wakes
  | pop
  /-- the pipe takes a part of the item -/
  | flows (n : Nat)
  /-- `write` and `flush` return -/
  | wrote
  /-- one of them raises -/
  | fails
  | drops
  | check
  | clears
  deriving DecidableEq

namespace StdinWriter

variable {α : Type}

/-- The locked section of `write`. -/
def enqueue (s : StdinWriter α) (data : List α) : StdinWriter α :=
  if s.broken || s.overflow then s
  else if maxPendingBytes < s.pending + data.length then { s with overflow := true }
  else
    { s with
      queue := s.queue ++ [data], pending := s.pending + data.length, setting := s.setting + 1,
      accepted := s.accepted ++ [data] }

/-- The locked section of the inner loop. -/
def popLeft (s : StdinWriter α) : StdinWriter α :=
  match s.queue with
  | [] => { s with pump := .checking }
  | data :: queue => { s with queue := queue, pending := s.pending - data.length, pump := .writing data }

/-- The locked section of the outer loop, up to the clear. -/
def checkEmpty (s : StdinWriter α) : StdinWriter α :=
  { s with pump := if s.queue.isEmpty then if s.closing then .exited else .clearing else .waiting }

/-- The section that the pump has entered keeps the writers out until the event is cleared. -/
def step (s : StdinWriter α) : PumpAct α → Option (StdinWriter α)
  | .write data =>
    match s.pump with
    | .clearing => none
    | _ => some (s.enqueue data)
  | .close =>
    match s.pump with
    | .clearing => none
    | _ => some { s with closing := true, setting := s.setting + 1 }
  | .set => if 0 < s.setting then some { s with wake := true, setting := s.setting - 1 } else none
  | .wakes =>
    match s.pump with
    | .waiting => if s.wake then some { s with pump := .popping } else none
    | _ => none
  | .pop =>
    match s.pump with
    | .popping => some s.popLeft
    | _ => none
  | .flows n =>
    match s.pump with
    | .writing rest => some { s with handed := s.handed ++ rest.take n, pump := .writing (rest.drop n) }
    | _ => none
  | .wrote =>
    match s.pump with
    | .writing rest => some { s with handed := s.handed ++ rest, pump := .popping }
    | _ => none
  | .fails =>
    match s.pump with
    | .writing rest => some { s with pump := .failing rest }
    | _ => none
  | .drops =>
    match s.pump with
    | .failing _ => some { s with broken := true, queue := [], pending := 0, pump := .exited }
    | _ => none
  | .check =>
    match s.pump with
    | .checking => some s.checkEmpty
    | _ => none
  | .clears =>
    match s.pump with
    | .clearing => some { s with wake := false, pump := .waiting }
    | _ => none

/-- What the pump has taken from the queue and the pipe has not got. -/
def inFlight (s : StdinWriter α) : List α :=
  match s.pump with
  | .writing rest => rest
  | .failing rest => rest
  | _ => []

/-- What was accepted and is on its way: in the queue, or with the pump. -/
def backlog (s : StdinWriter α) : List α := s.inFlight ++ s.queue.flatten

/-- The pump is between `wait` and the end of the outer loop. -/
def Draining (s : StdinWriter α) : Prop := s.pump ≠ .waiting ∧ s.pump ≠ .exited

/-- What holds between any two steps. -/
structure Inv (s : StdinWriter α) : Prop where
  pending : s.pending = s.queue.flatten.length
  cap : s.pending ≤ maxPendingBytes
  inFlight : s.inFlight.length ≤ maxPendingBytes
  front : s.handed <+: s.accepted.flatten
  order : s.broken = false → s.accepted.flatten = s.handed ++ s.backlog
  broken : s.broken = true → s.pump = .exited
  draining : s.Draining → s.wake = true
  waiting : s.pump = .waiting → (s.queue ≠ [] ∨ s.closing = true) → s.wake = true ∨ 0 < s.setting
  clearing : s.pump = .clearing → s.queue = [] ∧ s.closing = false

theorem inv_start : ({} : StdinWriter α).Inv where
  pending := rfl
  cap := Nat.zero_le _
  inFlight := Nat.zero_le _
  front := List.nil_prefix
  order := fun _ => rfl
  broken := fun h => by cases h
  draining := fun h => absurd rfl h.1
  waiting := by
    rintro - (h | h)
    · exact absurd rfl h
    · cases h
  clearing := fun h => by cases h

variable {s s' : StdinWriter α}

private theorem Inv.enqueue (h : s.Inv) (data : List α) (hlock : s.pump ≠ .clearing) : (s.enqueue data).Inv := by
  unfold StdinWriter.enqueue
  by_cases hrefused : (s.broken || s.overflow) = true
  · rw [if_pos hrefused]
    exact h
  rw [if_neg hrefused]
  by_cases hfull : maxPendingBytes < s.pending + data.length
  · rw [if_pos hfull]
    exact { h with }
  rw [if_neg hfull]
  obtain ⟨hbroken, -⟩ : s.broken = false ∧ s.overflow = false := by simpa using hrefused
  have horder : (s.accepted ++ [data]).flatten = s.handed ++ (s.inFlight ++ (s.queue ++ [data]).flatten) := by
    simp only [List.flatten_append, List.flatten_singleton, h.order hbroken, backlog, List.append_assoc]
  exact {
    pending := by simp [h.pending]
    cap := Nat.not_lt.1 hfull
    inFlight := h.inFlight
    front := by
      rw [horder]
      exact List.prefix_append _ _
    order := fun _ => horder
    broken := h.broken
    draining := h.draining
    waiting := fun _ _ => .inr (Nat.succ_pos _)
    clearing := fun hclearing => absurd hclearing hlock }

private theorem Inv.not_broken (h : s.Inv) (hpump : s.pump ≠ .exited) : s.broken = false := by
  by_contra hbroken
  exact hpump (h.broken (by simpa using hbroken))

/-- The pump goes on to another section, with the event set. -/
theorem Inv.goto (h : s.Inv) (hpump : s.pump ≠ .exited) (hwake : s.wake = true) (pump : PumpPc α)
    (hflight : StdinWriter.inFlight { s with pump := pump } = s.inFlight)
    (hclearing : pump = .clearing → s.queue = [] ∧ s.closing = false) : Inv { s with pump := pump } where
  pending := h.pending
  cap := h.cap
  inFlight := hflight ▸ h.inFlight
  front := h.front
  order := by
    intro hbroken
    rw [backlog, hflight]
    exact h.order hbroken
  broken := fun hbroken => absurd (h.broken hbroken) hpump
  draining := fun _ => hwake
  waiting := fun _ _ => .inl hwake
  clearing := hclearing

private theorem Inv.popLeft (h : s.Inv) (hpump : s.pump = .popping) : s.popLeft.Inv := by
  have hwake : s.wake = true := h.draining (by simp [Draining, hpump])
  have hbroken := h.not_broken (by simp [hpump])
  have hpending := h.pending
  have horder := h.order hbroken
  have hcap := h.cap
  match hqueue : s.queue with
  | [] =>
    have hpop : s.popLeft = { s with pump := .checking } := by
      rw [StdinWriter.popLeft, hqueue]
    rw [hpop]
    apply h.goto (by simp [hpump]) hwake
    · simp [StdinWriter.inFlight, hpump]
    · simp
  | data :: queue =>
    have hpop : s.popLeft = { s with queue := queue, pending := s.pending - data.length, pump := .writing data } := by
      rw [StdinWriter.popLeft, hqueue]
    rw [hpop]
    rw [hqueue, List.flatten_cons, List.length_append] at hpending
    simp only [backlog, StdinWriter.inFlight, hpump, hqueue, List.nil_append, List.flatten_cons] at horder
    exact {
      pending := by
        dsimp only
        omega
      cap := by
        dsimp only
        omega
      inFlight := by
        dsimp only [StdinWriter.inFlight]
        omega
      front := h.front
      order := fun _ => horder
      broken := fun hb => by simp [hbroken] at hb
      draining := fun _ => hwake
      waiting := fun hw => by cases hw
      clearing := fun hc => by cases hc }

/-- What the pipe takes is the front of the item that the pump holds. -/
theorem Inv.flow (h : s.Inv) {rest front back : List α} (hpump : s.pump = .writing rest) (hrest : rest = front ++ back)
    (pump : PumpPc α) (hnext : pump = .writing back ∨ (pump = .popping ∧ back = [])) :
    Inv { s with handed := s.handed ++ front, pump := pump } := by
  have hwake : s.wake = true := h.draining (by simp [Draining, hpump])
  have hbroken := h.not_broken (by simp [hpump])
  have hflight : s.inFlight = front ++ back := by
    simp only [StdinWriter.inFlight, hpump, hrest]
  have hnew : StdinWriter.inFlight { s with handed := s.handed ++ front, pump := pump } = back := by
    rcases hnext with rfl | ⟨rfl, rfl⟩
    · rfl
    · rfl
  have horder : s.accepted.flatten = (s.handed ++ front) ++ (back ++ s.queue.flatten) := by
    rw [h.order hbroken, backlog, hflight]
    simp only [List.append_assoc]
  exact {
    pending := h.pending
    cap := h.cap
    inFlight := by
      have hle := h.inFlight
      rw [hflight, List.length_append] at hle
      rw [hnew]
      omega
    front := by
      dsimp only
      rw [horder]
      exact List.prefix_append _ _
    order := by
      intro _
      rw [backlog, hnew]
      exact horder
    broken := fun hb => by simp [hbroken] at hb
    draining := fun _ => hwake
    waiting := by
      rintro rfl
      rcases hnext with hnext | ⟨hnext, -⟩
      · cases hnext
      · cases hnext
    clearing := by
      rintro rfl
      rcases hnext with hnext | ⟨hnext, -⟩
      · cases hnext
      · cases hnext }

/-! ### The steps -/

/-- What a step does, by where the pump is. -/
inductive Rule (s : StdinWriter α) : PumpPc α → PumpAct α → StdinWriter α → Prop
  | write (pump : PumpPc α) (data : List α) (hlock : pump ≠ .clearing) : Rule s pump (.write data) (s.enqueue data)
  | close (pump : PumpPc α) (hlock : pump ≠ .clearing) :
      Rule s pump .close { s with closing := true, setting := s.setting + 1 }
  | set (pump : PumpPc α) : Rule s pump .set { s with wake := true, setting := s.setting - 1 }
  | wakes (hwake : s.wake = true) : Rule s .waiting .wakes { s with pump := .popping }
  | pop : Rule s .popping .pop s.popLeft
  | flows (rest : List α) (n : Nat) :
      Rule s (.writing rest) (.flows n) { s with handed := s.handed ++ rest.take n, pump := .writing (rest.drop n) }
  | wrote (rest : List α) : Rule s (.writing rest) .wrote { s with handed := s.handed ++ rest, pump := .popping }
  | fails (rest : List α) : Rule s (.writing rest) .fails { s with pump := .failing rest }
  | drops (rest : List α) :
      Rule s (.failing rest) .drops { s with broken := true, queue := [], pending := 0, pump := .exited }
  | check : Rule s .checking .check s.checkEmpty
  | clears : Rule s .clearing .clears { s with wake := false, pump := .waiting }

private theorem step_rule {a : PumpAct α} (h : s.step a = some s') : Rule s s.pump a s' := by
  cases a with
  | write data =>
    simp only [StdinWriter.step] at h
    split at h
    · cases h
    · rename_i hlock
      obtain rfl := Option.some.inj h
      exact .write _ data hlock
  | close =>
    simp only [StdinWriter.step] at h
    split at h
    · cases h
    · rename_i hlock
      obtain rfl := Option.some.inj h
      exact .close _ hlock
  | set =>
    obtain rfl := Option.some.inj (Option.ite_none_right_eq_some.1 h).2
    exact .set _
  | wakes =>
    simp only [StdinWriter.step] at h
    split at h
    · rename_i hpump
      obtain ⟨hwake, hset⟩ := Option.ite_none_right_eq_some.1 h
      obtain rfl := Option.some.inj hset
      rw [hpump]
      exact .wakes hwake
    · cases h
  | pop =>
    simp only [StdinWriter.step] at h
    split at h
    · rename_i hpump
      obtain rfl := Option.some.inj h
      rw [hpump]
      exact .pop
    · cases h
  | flows n =>
    simp only [StdinWriter.step] at h
    split at h
    · rename_i rest hpump
      obtain rfl := Option.some.inj h
      rw [hpump]
      exact .flows rest n
    · cases h
  | wrote =>
    simp only [StdinWriter.step] at h
    split at h
    · rename_i rest hpump
      obtain rfl := Option.some.inj h
      rw [hpump]
      exact .wrote rest
    · cases h
  | fails =>
    simp only [StdinWriter.step] at h
    split at h
    · rename_i rest hpump
      obtain rfl := Option.some.inj h
      rw [hpump]
      exact .fails rest
    · cases h
  | drops =>
    simp only [StdinWriter.step] at h
    split at h
    · rename_i rest hpump
      obtain rfl := Option.some.inj h
      rw [hpump]
      exact .drops rest
    · cases h
  | check =>
    simp only [StdinWriter.step] at h
    split at h
    · rename_i hpump
      obtain rfl := Option.some.inj h
      rw [hpump]
      exact .check
    · cases h
  | clears =>
    simp only [StdinWriter.step] at h
    split at h
    · rename_i hpump
      obtain rfl := Option.some.inj h
      rw [hpump]
      exact .clears
    · cases h

theorem Inv.drops (h : s.Inv) :
    ({ s with broken := true, queue := [], pending := 0, pump := .exited } : StdinWriter α).Inv where
  pending := rfl
  cap := Nat.zero_le _
  inFlight := Nat.zero_le _
  front := h.front
  order := fun hbroken => by cases hbroken
  broken := fun _ => rfl
  draining := fun hdraining => absurd rfl hdraining.2
  waiting := fun hwaiting => by cases hwaiting
  clearing := fun hclearing => by cases hclearing

private theorem Inv.clears (h : s.Inv) (hpump : s.pump = .clearing) :
    ({ s with wake := false, pump := .waiting } : StdinWriter α).Inv := by
  obtain ⟨hqueue, hclosing⟩ := h.clearing hpump
  have horder := h.order (h.not_broken (by simp [hpump]))
  simp only [backlog, StdinWriter.inFlight, hpump, List.nil_append] at horder
  exact {
    pending := h.pending
    cap := h.cap
    inFlight := Nat.zero_le _
    front := h.front
    order := fun _ => horder
    broken := fun hbroken => absurd (h.broken hbroken) (by simp [hpump])
    draining := fun hdraining => absurd rfl hdraining.1
    -- nobody has written or closed since the check, the lock was held
    waiting := by
      rintro - (hmore | hclose)
      · exact absurd hqueue hmore
      · exact absurd hclose (by simp [hclosing])
    clearing := fun hclearing => by cases hclearing }

theorem Inv.step (h : s.Inv) {a : PumpAct α} (hstep : s.step a = some s') : s'.Inv := by
  have hrule := step_rule hstep
  generalize hpump : s.pump = pump at hrule
  cases hrule with
  | write _ data hlock => exact h.enqueue data (by rwa [hpump])
  | close _ hlock =>
    exact { h with
      waiting := fun _ _ => .inr (Nat.succ_pos _)
      clearing := fun hclearing => absurd (hpump.symm.trans hclearing) hlock }
  | set =>
    exact { h with
      draining := fun _ => rfl
      waiting := fun _ _ => .inl rfl }
  | wakes hwake =>
    apply h.goto (by simp [hpump]) hwake
    · simp [StdinWriter.inFlight, hpump]
    · simp
  | pop => exact h.popLeft hpump
  | flows rest n => exact h.flow hpump (List.take_append_drop n rest).symm _ (.inl rfl)
  | wrote rest => exact h.flow hpump (List.append_nil rest).symm _ (.inr ⟨rfl, rfl⟩)
  | fails rest =>
    apply h.goto (by simp [hpump]) (h.draining (by simp [Draining, hpump]))
    · simp [StdinWriter.inFlight, hpump]
    · simp
  | drops rest => exact h.drops
  | check =>
    apply h.goto (by simp [hpump]) (h.draining (by simp [Draining, hpump]))
    · unfold StdinWriter.inFlight
      rw [hpump]
      split_ifs <;> rfl
    · intro hclearing
      split_ifs at hclearing with hqueue hclosing
      exact ⟨List.isEmpty_iff.1 hqueue, by simpa using hclosing⟩
  | clears => exact h.clears hpump

private theorem enqueue_pump (s : StdinWriter α) (data : List α) : (s.enqueue data).pump = s.pump := by
  unfold StdinWriter.enqueue
  split_ifs <;> rfl

/-- The pump ends with its pipe whole only where the queue was found empty, and a close was called. -/
private theorem exit_cases {a : PumpAct α} (hstep : s.step a = some s') (hpump : s.pump ≠ .exited)
    (hexit : s'.pump = .exited) (hbroken : s'.broken = false) :
    s.pump = .checking ∧ s.queue = [] ∧ s.closing = true ∧ s' = s.checkEmpty := by
  have hrule := step_rule hstep
  generalize hpc : s.pump = pump at hrule hpump ⊢
  cases hrule with
  | write _ data hlock => exact absurd (hpc.symm.trans ((enqueue_pump s data).symm.trans hexit)) hpump
  | close _ hlock => exact absurd (hpc.symm.trans hexit) hpump
  | set => exact absurd (hpc.symm.trans hexit) hpump
  | pop =>
    unfold StdinWriter.popLeft at hexit
    split at hexit
    · cases hexit
    · cases hexit
  | drops rest => cases hbroken
  | check =>
    unfold StdinWriter.checkEmpty at hexit
    dsimp only at hexit
    split_ifs at hexit with hqueue hclosing
    exact ⟨rfl, List.isEmpty_iff.1 hqueue, hclosing, rfl⟩
  -- the other steps move the pump elsewhere
  | _ => cases hexit

/-- In every run the pipe has got a front of what was accepted; the queue keeps its bound, and what is neither there nor
delivered is the rest of one item; a pump that ends with its pipe whole has delivered everything that was accepted; and
a pump that waits with work to do is about to be woken. -/
theorem pump_contract {acts : List (PumpAct α)} (hrun : run StdinWriter.step {} acts = some s) :
    s.handed <+: s.accepted.flatten ∧
    s.queue.flatten.length ≤ maxPendingBytes ∧
    (s.broken = false →
      s.accepted.flatten = s.handed ++ (s.inFlight ++ s.queue.flatten) ∧ s.inFlight.length ≤ maxPendingBytes) ∧
    (∀ a s', s.step a = some s' → s.pump ≠ .exited → s'.pump = .exited → s'.broken = false →
      s'.closing = true ∧ s'.handed = s'.accepted.flatten) ∧
    (s.pump = .waiting → (s.queue ≠ [] ∨ s.closing = true) → s.wake = true ∨ 0 < s.setting) := by
  have h : s.Inv := invariant (fun s a s' hstep hs => Inv.step hs hstep) hrun inv_start
  refine ⟨h.front, ?_, ?_, ?_, h.waiting⟩
  · rw [← h.pending]
    exact h.cap
  · intro hbroken
    exact ⟨h.order hbroken, h.inFlight⟩
  · intro a s' hstep hpump hexit hbroken
    obtain ⟨hchecking, hqueue, hclosing, rfl⟩ := exit_cases hstep hpump hexit hbroken
    have horder := h.order (h.not_broken hpump)
    simp only [backlog, inFlight, hchecking, hqueue, List.flatten_nil, List.append_nil] at horder
    exact ⟨hclosing, horder.symm⟩

/-- An item is written, the writer is closed, the pump ends. -/
theorem pump_contract_closed :
    ∃ s s' : StdinWriter UInt8,
      run StdinWriter.step {} [.write [1, 2], .set, .wakes, .close, .pop, .flows 1, .wrote, .set, .pop] = some s ∧
      s.step .check = some s' ∧ s'.pump = .exited ∧ s'.closing = true ∧ s'.handed = s'.accepted.flatten := by
  have hrun : run StdinWriter.step {} [.write [1, 2], .set, .wakes, .close, .pop, .flows 1, .wrote, .set, .pop] = some
      { wake := true, closing := true, pump := .checking, accepted := [[1, 2]], handed := [(1 : UInt8), 2] } := by
    decide +kernel
  obtain ⟨-, -, -, hexit, -⟩ := pump_contract hrun
  exact ⟨_, _, hrun, rfl, rfl, hexit .check _ rfl (by simp) rfl rfl⟩

/-- With one item in the pipe and one in the queue, twice `MAX_PENDING_BYTES` are accepted and not delivered. -/
theorem backlog_is_twice : ¬ ∀ (acts : List (PumpAct UInt8)) (s : StdinWriter UInt8),
    run StdinWriter.step {} acts = some s → s.broken = false → s.backlog.length ≤ maxPendingBytes := by
  intro hclaim
  obtain ⟨data, hlen⟩ : ∃ data : List UInt8, data.length = maxPendingBytes :=
    ⟨List.replicate maxPendingBytes 0, List.length_replicate⟩
  have hrun : run StdinWriter.step {} [.write data, .set, .wakes, .pop, .write data] = some
      { queue := [data], pending := maxPendingBytes, wake := true, pump := .writing data, setting := 1,
        accepted := [data, data] } := by
    simp [run, StdinWriter.step, enqueue, popLeft, hlen]
  have hle := hclaim _ _ hrun rfl
  simp [backlog, inFlight, hlen, maxPendingBytes] at hle

end StdinWriter

end IronHarness.Runner
