import IronHarness.Lib.Census
import IronHarness.Limits.Rate

/-!
# The limits of a connection

`Session._apply_limits` puts a `DeadlineTransport` around a fresh transport and a `RateLimitedTransport` around that
(io_core/limits.py), each where the environment configures it.  Any number of threads operate on the connection, and
a step is what one thread does without giving way: `acquire` under the lock of the limiter, each reading of the clock
or of `_started`, each write to `_started` and to the journal, and the beginning and end of the operation on the
transport itself.  The difference of two readings is rounded where the deadline takes it; the limiter's is exact here,
since the monotonic clock does not go below zero, where a rounding could let a third window begin too early
(`acquire_bounds`).  What leaves the wrappers is counted: in a stretch of the window's length at most twice the limit
and the operations that had been granted before it (`starts_le`).  A connection that went stale lets nothing through
until it is opened again (`stale_refused`).
-/

namespace IronHarness.Limits

open Runs

variable {T : Type} [AddCommGroup T] [LinearOrder T]

/-- What `_apply_limits` makes of the environment: the idle seconds allowed, and the calls of a window and its length;
and the rounding of the difference that the deadline takes. -/
structure Configured (T : Type) [AddCommGroup T] [LinearOrder T] where
  deadline : Option T
  rate : Option (Nat × T)
  round : T → T
  deadline_pos : ∀ seconds ∈ deadline, 0 < seconds
  rate_pos : ∀ r ∈ rate, 1 ≤ r.1 ∧ 0 < r.2
  round_mono : Monotone round

/-- What the wrappers journal of an operation that they refuse. -/
inductive Denial (T : Type)
  | rateDenied (e : RateLimitExceeded T)
  | deadlineDenied (seconds idle : T)

/-- Where a thread is: in `acquire` or with its refusal, at a line of `_check` (the test of `_started`, the reading of the
clock, the comparison, the refusal), before the operation itself, in it, behind it (the reading of the clock, the
assignment), or in `open`, whose end is that of an operation. -/
inductive Pc (T : Type)
  | idle
  | acquire
  | exceeded (e : RateLimitExceeded T)
  | check
  | clock
  | compare (now : T)
  | stale (now : T)
  | call
  | running
  | done
  | store (time : T)
  | opening

variable {τ : Type}

structure Stack (τ T : Type) where
  now : T
  limiter : Option (RateLimiter T)
  started : Option T
  pcs : τ → Pc T
  events : List (τ × Denial T)

/-- A fresh connection. -/
def Configured.stack (cfg : Configured T) (τ : Type) (now : T) : Stack τ T where
  now := now
  limiter := cfg.rate.map fun r => newLimiter r.1 r.2
  started := none
  pcs := fun _ => .idle
  events := []

/-- The clock moves, a thread calls an operation or `open`, goes on to its next step, or gets an answer of the
transport. -/
inductive Act (τ T : Type)
  | tick (now : T)
  | call (t : τ)
  | opens (t : τ)
  | step (t : τ)
  | returns (t : τ)
  | raises (t : τ)

section

variable [DecidableEq τ]

def Stack.goto (s : Stack τ T) (t : τ) (pc : Pc T) : Stack τ T := { s with pcs := Function.update s.pcs t pc }

omit [AddCommGroup T] [LinearOrder T] in
@[simp] theorem goto_pcs (s : Stack τ T) (t : τ) (pc : Pc T) : (s.goto t pc).pcs = Function.update s.pcs t pc := rfl

/-- The next step of a thread in the wrappers.  A wrapper that is not configured is passed through. -/
def Stack.next (cfg : Configured T) (s : Stack τ T) (t : τ) : Option (Stack τ T) :=
  match s.pcs t with
  | .acquire =>
    match s.limiter with
    | none => some (s.goto t .check)
    | some l =>
      match l.acquire id s.now with
      | (.ok (), l) => some { s.goto t .check with limiter := some l }
      | (.error e, l) => some { s.goto t (.exceeded e) with limiter := some l }
  | .exceeded e => some { s.goto t .idle with events := s.events ++ [(t, .rateDenied e)] }
  | .check =>
    match cfg.deadline, s.started with
    | none, _ => some (s.goto t .call)
    | some _, none => some (s.goto t .idle)
    | some _, some _ => some (s.goto t .clock)
  | .clock => some (s.goto t (.compare s.now))
  | .compare now =>
    match cfg.deadline, s.started with
    | some seconds, some started =>
      if seconds < cfg.round (now - started) then some (s.goto t (.stale now)) else some (s.goto t .call)
    | _, _ => none
  | .stale now =>
    match cfg.deadline, s.started with
    | some seconds, some started =>
      some { s.goto t .idle with events := s.events ++ [(t, .deadlineDenied seconds (cfg.round (now - started)))] }
    | _, _ => none
  | .call => some (s.goto t .running)
  | .done =>
    match cfg.deadline with
    | none => some (s.goto t .idle)
    | some _ => some (s.goto t (.store s.now))
  | .store time => some { s.goto t .idle with started := some time }
  | .idle | .running | .opening => none

def Stack.step (cfg : Configured T) (s : Stack τ T) : Act τ T → Option (Stack τ T)
  | .tick now => if s.now ≤ now then some { s with now := now } else none
  | .call t =>
    match s.pcs t with
    | .idle => some (s.goto t .acquire)
    | _ => none
  | .opens t =>
    match s.pcs t with
    | .idle => some (s.goto t .opening)
    | _ => none
  | .step t => s.next cfg t
  | .returns t =>
    match s.pcs t with
    | .running | .opening => some (s.goto t .done)
    | _ => none
  | .raises t =>
    match s.pcs t with
    | .running | .opening => some (s.goto t .idle)
    | _ => none

end

private theorem now_mem_of_mem_calls {l : RateLimiter T} {nows : List T} {c : Call T} (h : c ∈ calls id l nows) :
    c.now ∈ nows := by
  induction nows generalizing l with
  | nil => cases h
  | cons now nows ih =>
    rw [calls, List.mem_cons] at h
    rcases h with rfl | hlater
    · exact List.mem_cons_self
    · exact List.mem_cons_of_mem now (ih hlater)

/-! ### What an observer sees -/

/-- A thread calls an operation. -/
def begun (_ : Stack τ T) : Act τ T → Option τ
  | .call t => some t
  | _ => none

/-- An operation on the transport begins. -/
def starts (s : Stack τ T) : Act τ T → Option τ
  | .step t =>
    match s.pcs t with
    | .call => some t
    | _ => none
  | _ => none

/-- A call of `acquire`, with the clock that it sees. -/
def acquires (s : Stack τ T) : Act τ T → Option T
  | .step t =>
    match s.pcs t with
    | .acquire => some s.now
    | _ => none
  | _ => none

/-- A call of `acquire` that is let through. -/
def granted (s : Stack τ T) : Act τ T → Option τ
  | .step t =>
    match s.pcs t, s.limiter with
    | .acquire, none => some t
    | .acquire, some l => if (l.acquire id s.now).1.isOk then some t else none
    | _, _ => none
  | _ => none

/-- How an operation leaves the wrappers. -/
inductive Leave (T : Type)
  | started
  | denied (d : Denial T)
  | notOpen

def Leave.denial : Leave T → Option (Denial T)
  | .denied d => some d
  | _ => none

/-- The line that the journal gets. -/
def journaled (x : τ × Leave T) : Option (τ × Denial T) := x.2.denial.map (Prod.mk x.1)

def leaves (cfg : Configured T) (s : Stack τ T) : Act τ T → Option (τ × Leave T)
  | .step t =>
    match s.pcs t, cfg.deadline, s.started with
    | .call, _, _ => some (t, .started)
    | .exceeded e, _, _ => some (t, .denied (.rateDenied e))
    | .check, some _, none => some (t, .notOpen)
    | .stale now, some seconds, some started => some (t, .denied (.deadlineDenied seconds (cfg.round (now - started))))
    | _, _, _ => none
  | _ => none

/-- The thread is in the wrappers, on its way to the transport or away from it. -/
def Pc.inside : Pc T → Bool
  | .acquire | .exceeded _ | .check | .clock | .compare _ | .stale _ | .call => true
  | _ => false

/-- The limiter has let the operation through, and it has not reached the transport. -/
def Pc.granted : Pc T → Bool
  | .check | .clock | .compare _ | .call => true
  | _ => false

/-! ### One step -/

section

variable [DecidableEq τ]

/-- What a step can do. -/
inductive Stack.Steps (cfg : Configured T) (s : Stack τ T) : Act τ T → Stack τ T → Prop
  | tick {now : T} (h : s.now ≤ now) : Steps cfg s (.tick now) { s with now := now }
  | call {t : τ} (h : s.pcs t = .idle) : Steps cfg s (.call t) (s.goto t .acquire)
  | opens {t : τ} (h : s.pcs t = .idle) : Steps cfg s (.opens t) (s.goto t .opening)
  | unlimited {t : τ} (h : s.pcs t = .acquire) (hlimiter : s.limiter = none) : Steps cfg s (.step t) (s.goto t .check)
  | grant {t : τ} {l : RateLimiter T} (h : s.pcs t = .acquire) (hlimiter : s.limiter = some l)
      (hok : (l.acquire id s.now).1.isOk = true) :
      Steps cfg s (.step t) { s.goto t .check with limiter := some (l.acquire id s.now).2 }
  | exceed {t : τ} {l : RateLimiter T} {e : RateLimitExceeded T} (h : s.pcs t = .acquire) (hlimiter : s.limiter = some l)
      (herror : (l.acquire id s.now).1 = .error e) :
      Steps cfg s (.step t) { s.goto t (.exceeded e) with limiter := some (l.acquire id s.now).2 }
  | refuse {t : τ} {e : RateLimitExceeded T} (h : s.pcs t = .exceeded e) :
      Steps cfg s (.step t) { s.goto t .idle with events := s.events ++ [(t, .rateDenied e)] }
  | unchecked {t : τ} (h : s.pcs t = .check) (hdeadline : cfg.deadline = none) : Steps cfg s (.step t) (s.goto t .call)
  | notOpen {t : τ} {seconds : T} (h : s.pcs t = .check) (hdeadline : cfg.deadline = some seconds)
      (hstarted : s.started = none) : Steps cfg s (.step t) (s.goto t .idle)
  | isOpen {t : τ} {seconds started : T} (h : s.pcs t = .check) (hdeadline : cfg.deadline = some seconds)
      (hstarted : s.started = some started) : Steps cfg s (.step t) (s.goto t .clock)
  | clock {t : τ} (h : s.pcs t = .clock) : Steps cfg s (.step t) (s.goto t (.compare s.now))
  | late {t : τ} {seconds started now : T} (h : s.pcs t = .compare now) (hdeadline : cfg.deadline = some seconds)
      (hstarted : s.started = some started) (hlate : seconds < cfg.round (now - started)) :
      Steps cfg s (.step t) (s.goto t (.stale now))
  | inTime {t : τ} {seconds started now : T} (h : s.pcs t = .compare now) (hdeadline : cfg.deadline = some seconds)
      (hstarted : s.started = some started) (htime : ¬ seconds < cfg.round (now - started)) :
      Steps cfg s (.step t) (s.goto t .call)
  | outdated {t : τ} {seconds started now : T} (h : s.pcs t = .stale now) (hdeadline : cfg.deadline = some seconds)
      (hstarted : s.started = some started) :
      Steps cfg s (.step t)
        { s.goto t .idle with events := s.events ++ [(t, .deadlineDenied seconds (cfg.round (now - started)))] }
  | start {t : τ} (h : s.pcs t = .call) : Steps cfg s (.step t) (s.goto t .running)
  | unstored {t : τ} (h : s.pcs t = .done) (hdeadline : cfg.deadline = none) : Steps cfg s (.step t) (s.goto t .idle)
  | read {t : τ} {seconds : T} (h : s.pcs t = .done) (hdeadline : cfg.deadline = some seconds) :
      Steps cfg s (.step t) (s.goto t (.store s.now))
  | store {t : τ} {time : T} (h : s.pcs t = .store time) :
      Steps cfg s (.step t) { s.goto t .idle with started := some time }
  | returns {t : τ} (h : s.pcs t = .running ∨ s.pcs t = .opening) : Steps cfg s (.returns t) (s.goto t .done)
  | raises {t : τ} (h : s.pcs t = .running ∨ s.pcs t = .opening) : Steps cfg s (.raises t) (s.goto t .idle)

variable {cfg : Configured T} {s s' : Stack τ T} {a : Act τ T}

private theorem next_steps {t : τ} (h : s.next cfg t = some s') : s.Steps cfg (.step t) s' := by
  unfold Stack.next at h
  split at h
  · rename_i hpc
    split at h
    · rename_i hlimiter
      obtain rfl := Option.some.inj h
      exact .unlimited hpc hlimiter
    · rename_i l hlimiter
      split at h
      · rename_i l' hresult
        obtain rfl := Option.some.inj h
        obtain rfl : (l.acquire id s.now).2 = l' := by rw [hresult]
        exact .grant hpc hlimiter (by rw [hresult]; rfl)
      · rename_i e l' hresult
        obtain rfl := Option.some.inj h
        obtain rfl : (l.acquire id s.now).2 = l' := by rw [hresult]
        exact .exceed hpc hlimiter (by rw [hresult])
  · rename_i e hpc
    obtain rfl := Option.some.inj h
    exact .refuse hpc
  · rename_i hpc
    split at h
    · rename_i hdeadline
      obtain rfl := Option.some.inj h
      exact .unchecked hpc hdeadline
    · rename_i hdeadline hstarted
      obtain rfl := Option.some.inj h
      exact .notOpen hpc hdeadline hstarted
    · rename_i hdeadline hstarted
      obtain rfl := Option.some.inj h
      exact .isOpen hpc hdeadline hstarted
  · rename_i hpc
    obtain rfl := Option.some.inj h
    exact .clock hpc
  · rename_i now hpc
    split at h
    · rename_i seconds started hdeadline hstarted
      split at h
      · rename_i hlate
        obtain rfl := Option.some.inj h
        exact .late hpc hdeadline hstarted hlate
      · rename_i htime
        obtain rfl := Option.some.inj h
        exact .inTime hpc hdeadline hstarted htime
    · cases h
  · rename_i now hpc
    split at h
    · rename_i seconds started hdeadline hstarted
      obtain rfl := Option.some.inj h
      exact .outdated hpc hdeadline hstarted
    · cases h
  · rename_i hpc
    obtain rfl := Option.some.inj h
    exact .start hpc
  · rename_i hpc
    split at h
    · rename_i hdeadline
      obtain rfl := Option.some.inj h
      exact .unstored hpc hdeadline
    · rename_i hdeadline
      obtain rfl := Option.some.inj h
      exact .read hpc hdeadline
  · rename_i time hpc
    obtain rfl := Option.some.inj h
    exact .store hpc
  · cases h
  · cases h
  · cases h

theorem step_steps (h : s.step cfg a = some s') : s.Steps cfg a s' := by
  cases a with
  | tick now =>
    rw [Stack.step] at h
    split at h
    · rename_i hle
      obtain rfl := Option.some.inj h
      exact .tick hle
    · cases h
  | call t =>
    rw [Stack.step] at h
    split at h
    · rename_i hpc
      obtain rfl := Option.some.inj h
      exact .call hpc
    · cases h
  | opens t =>
    rw [Stack.step] at h
    split at h
    · rename_i hpc
      obtain rfl := Option.some.inj h
      exact .opens hpc
    · cases h
  | step t => exact next_steps h
  | returns t =>
    rw [Stack.step] at h
    split at h
    · rename_i hpc
      obtain rfl := Option.some.inj h
      exact .returns (.inl hpc)
    · rename_i hpc
      obtain rfl := Option.some.inj h
      exact .returns (.inr hpc)
    · cases h
  | raises t =>
    rw [Stack.step] at h
    split at h
    · rename_i hpc
      obtain rfl := Option.some.inj h
      exact .raises (.inl hpc)
    · rename_i hpc
      obtain rfl := Option.some.inj h
      exact .raises (.inr hpc)
    · cases h

section Count

variable [Fintype τ]

/-- What starts on the transport was let through by the limiter. -/
private theorem starts_step (h : s.Steps cfg a s') :
    (starts s a).toList.length + census Pc.granted s'.pcs ≤
      census Pc.granted s.pcs + (granted s a).toList.length := by
  cases h with
  | tick hle => exact Nat.le_of_eq (Nat.add_comm _ _)
  | returns hpc | raises hpc =>
    rcases hpc with hpc | hpc <;>
      exact census_move_le (by simp [starts, granted, Pc.granted, hpc])
  | unlimited hpc hlimiter => exact census_move_le (by simp [starts, granted, Pc.granted, hpc, hlimiter])
  | grant hpc hlimiter hok => exact census_move_le (by simp [starts, granted, Pc.granted, hpc, hlimiter, hok])
  | _ => exact census_move_le (by simp [starts, granted, Pc.granted, *])

/-- An operation that was called is in the wrappers until it leaves them in one of their ways. -/
private theorem leaves_step (h : s.Steps cfg a s') :
    (leaves cfg s a).toList.length + census Pc.inside s'.pcs =
      census Pc.inside s.pcs + (begun s a).toList.length := by
  cases h with
  | tick hle => exact Nat.add_comm _ _
  | returns hpc | raises hpc =>
    rcases hpc with hpc | hpc <;>
      exact census_move (by simp [leaves, begun, Pc.inside, hpc])
  | _ => exact census_move (by simp [leaves, begun, Pc.inside, *])

end Count

private theorem events_step (h : s.Steps cfg a s') :
    s'.events = s.events ++ (leaves cfg s a).toList.filterMap journaled := by
  cases h with
  | returns hpc | raises hpc =>
    rcases hpc with hpc | hpc <;> simp [leaves, Stack.goto]
  | _ => simp [leaves, journaled, Leave.denial, Stack.goto, *]

private theorem clock_step (h : s.Steps cfg a s') : s.now ≤ s'.now ∧ ∀ x ∈ acquires s a, s.now = x := by
  constructor
  · cases h with
    | tick hle => exact hle
    | _ => exact le_refl s.now
  · intro x hx
    unfold acquires at hx
    split at hx
    · split at hx
      · exact Option.some.inj hx
      · cases hx
    · cases hx

/-- The limiter behind a step has seen the calls of `acquire` of the step. -/
private theorem limiter_step {l : RateLimiter T} (h : s.Steps cfg a s') (hlimiter : s.limiter = some l) :
    s'.limiter = some (l.after id (acquires s a).toList) ∧
      (granted s a).toList.length = (calls id l (acquires s a).toList).countP Call.granted := by
  cases h with
  | returns hpc | raises hpc =>
    rcases hpc with hpc | hpc <;> exact ⟨hlimiter, rfl⟩
  | unlimited hpc hnone =>
    rw [hlimiter] at hnone
    cases hnone
  | grant hpc hsome hok =>
    obtain rfl := Option.some.inj (hlimiter.symm.trans hsome)
    constructor
    · simp [acquires, hpc, RateLimiter.after]
    · simp [acquires, granted, calls, hpc, hlimiter, hok]
  | exceed hpc hsome herror =>
    obtain rfl := Option.some.inj (hlimiter.symm.trans hsome)
    have hdenied : (l.acquire id s.now).1.isOk = false := by rw [herror]; rfl
    constructor
    · simp [acquires, hpc, RateLimiter.after]
    · simp [acquires, granted, calls, hpc, hlimiter, hdenied]
  | _ => simp [acquires, granted, calls, RateLimiter.after, Stack.goto, *]

/-! ### Runs -/

variable {acts : List (Act τ T)}

private theorem clock_run (hrun : run (Stack.step cfg) s acts = some s') : s.now ≤ s'.now ∧
    (seen (Stack.step cfg) acquires s acts).Pairwise (· ≤ ·) ∧
    ∀ x ∈ seen (Stack.step cfg) acquires s acts, s.now ≤ x ∧ x ≤ s'.now := by
  induction acts generalizing s with
  | nil =>
    obtain rfl := Option.some.inj hrun
    exact ⟨le_refl _, List.Pairwise.nil, by simp [seen]⟩
  | cons a acts ih =>
    obtain ⟨t, ht, hrest⟩ := run_cons_eq_some.1 hrun
    obtain ⟨hle, hnow⟩ := clock_step (step_steps ht)
    obtain ⟨hlater, hsorted, hbetween⟩ := ih hrest
    rw [seen_cons ht]
    refine ⟨hle.trans hlater, ?_, ?_⟩
    · apply List.pairwise_append.2
      refine ⟨?_, hsorted, ?_⟩
      · cases acquires s a with
        | none => exact List.Pairwise.nil
        | some x => exact List.pairwise_singleton _ _
      · intro x hx y hy
        rw [← hnow x (Option.mem_toList.1 hx)]
        exact hle.trans (hbetween y hy).1
    · intro x hx
      rcases List.mem_append.1 hx with hfirst | hrest
      · rw [← hnow x (Option.mem_toList.1 hfirst)]
        exact ⟨le_refl _, hle.trans hlater⟩
      · exact ⟨hle.trans (hbetween x hrest).1, (hbetween x hrest).2⟩

/-- The limiter has seen the calls of `acquire` of a run, and has let through those that it grants. -/
private theorem limiter_run {l : RateLimiter T} (hrun : run (Stack.step cfg) s acts = some s')
    (hlimiter : s.limiter = some l) :
    s'.limiter = some (l.after id (seen (Stack.step cfg) acquires s acts)) ∧
      (seen (Stack.step cfg) granted s acts).length =
        (calls id l (seen (Stack.step cfg) acquires s acts)).countP Call.granted := by
  induction acts generalizing s l with
  | nil =>
    obtain rfl := Option.some.inj hrun
    exact ⟨hlimiter, rfl⟩
  | cons a acts ih =>
    obtain ⟨t, ht, hrest⟩ := run_cons_eq_some.1 hrun
    obtain ⟨hnext, hfirst⟩ := limiter_step (step_steps ht) hlimiter
    obtain ⟨hlast, hcount⟩ := ih hrest hnext
    rw [seen_cons ht, seen_cons ht, List.length_append, calls_append, List.countP_append, hfirst, hcount, hlast]
    refine ⟨?_, rfl⟩
    rw [RateLimiter.after, RateLimiter.after, RateLimiter.after, List.foldl_append]

/-- Along a run the journal gets a line for each refusal, in order, and each operation that was called leaves the wrappers
once or is still in them. -/
private theorem leaves_run [Fintype τ] (hrun : run (Stack.step cfg) s acts = some s') :
    s'.events = s.events ++ (seen (Stack.step cfg) (leaves cfg) s acts).filterMap journaled ∧
      (seen (Stack.step cfg) (leaves cfg) s acts).length + census Pc.inside s'.pcs =
        census Pc.inside s.pcs + (seen (Stack.step cfg) begun s acts).length := by
  induction acts generalizing s with
  | nil =>
    obtain rfl := Option.some.inj hrun
    simp [seen]
  | cons a acts ih =>
    obtain ⟨t, ht, hrest⟩ := run_cons_eq_some.1 hrun
    obtain ⟨hevents, hcount⟩ := ih hrest
    have hnow := leaves_step (step_steps ht)
    rw [seen_cons ht, seen_cons ht, List.filterMap_append, List.length_append, List.length_append]
    refine ⟨?_, by omega⟩
    rw [hevents, events_step (step_steps ht), List.append_assoc]

/-- What the limiter grants in a stretch of a run that lasts no longer than its window. -/
private theorem granted_le [IsOrderedAddMonoid T] {now perSeconds : T} {maxCalls : Nat} {before during : List (Act τ T)}
    (hrate : cfg.rate = some (maxCalls, perSeconds)) (hbefore : run (Stack.step cfg) (cfg.stack τ now) before = some s)
    (hduring : run (Stack.step cfg) s during = some s') (hlast : s'.now ≤ s.now + perSeconds) :
    (seen (Stack.step cfg) granted s during).length ≤ 2 * maxCalls := by
  obtain ⟨hmax, hper⟩ := cfg.rate_pos (maxCalls, perSeconds) hrate
  have hfirst : (cfg.stack τ now).limiter = some (newLimiter maxCalls perSeconds) := by
    rw [Configured.stack, hrate]
    rfl
  obtain ⟨hlimiter, -⟩ := limiter_run hbefore hfirst
  obtain ⟨-, hcount⟩ := limiter_run hduring hlimiter
  -- the calls of the stretch lie behind those before it, and in a stretch of time
  have hwhole : run (Stack.step cfg) (cfg.stack τ now) (before ++ during) = some s' := by
    rw [run_append, hbefore]
    exact hduring
  obtain ⟨-, hsorted, -⟩ := clock_run hwhole
  obtain ⟨-, -, hbetween⟩ := clock_run hduring
  have hsplit : seen (Stack.step cfg) acquires (cfg.stack τ now) (before ++ during) =
      seen (Stack.step cfg) acquires (cfg.stack τ now) before ++ seen (Stack.step cfg) acquires s during :=
    seen_append hbefore
  have hwithin : ∀ x, (decide (s.now ≤ x) && decide (x ≤ s.now + perSeconds)) = true →
      s.now ≤ x ∧ x ≤ s.now + perSeconds := by simp
  have hstretch := grants_stretch_le_two (l := newLimiter maxCalls perSeconds) (rounding_id hper) hmax hper hsorted rfl
    hwithin (not_threeApart_id perSeconds _ fun x hx => (hwithin x hx).2)
  rw [hsplit, calls_append, grants, List.countP_append] at hstretch
  have hall : (calls id
      ((newLimiter maxCalls perSeconds).after id (seen (Stack.step cfg) acquires (cfg.stack τ now) before))
      (seen (Stack.step cfg) acquires s during)).countP (fun c => c.granted &&
        (decide (s.now ≤ c.now) && decide (c.now ≤ s.now + perSeconds))) =
      (calls id
        ((newLimiter maxCalls perSeconds).after id (seen (Stack.step cfg) acquires (cfg.stack τ now) before))
        (seen (Stack.step cfg) acquires s during)).countP Call.granted := by
    apply List.countP_congr
    intro c hc
    obtain ⟨hge, hle⟩ := hbetween c.now (now_mem_of_mem_calls hc)
    have hlate : c.now ≤ s.now + perSeconds := hle.trans hlast
    simp [hge, hlate]
  rw [hall, ← hcount] at hstretch
  have hsame : (newLimiter maxCalls perSeconds).maxCalls = maxCalls := rfl
  omega

/-- In a stretch of a run that lasts no longer than the window, the transport gets at most twice the limit and the
operations that the limiter had let through before. -/
theorem starts_le [Fintype τ] [IsOrderedAddMonoid T] (cfg : Configured T) {now perSeconds : T} {maxCalls : Nat}
    {before during : List (Act τ T)} {s s' : Stack τ T} (hrate : cfg.rate = some (maxCalls, perSeconds))
    (hbefore : run (Stack.step cfg) (cfg.stack τ now) before = some s)
    (hduring : run (Stack.step cfg) s during = some s') (hlast : s'.now ≤ s.now + perSeconds) :
    (seen (Stack.step cfg) starts s during).length ≤ 2 * maxCalls + census Pc.granted s.pcs ∧
      census Pc.granted s.pcs ≤ Fintype.card τ := by
  have hgranted := granted_le hrate hbefore hduring hlast
  have hthrough : (seen (Stack.step cfg) starts s during).length + census Pc.granted s'.pcs ≤
      census Pc.granted s.pcs + (seen (Stack.step cfg) granted s during).length :=
    seen_count_le (I := fun _ => True) (fun _ _ _ _ _ => trivial) (fun _ _ _ h _ => starts_step (step_steps h)) hduring
      trivial
  refine ⟨?_, census_le_card _ _⟩
  omega

/-- One call in ten seconds: of two threads, the second is refused. -/
def oneInTen : Configured Int := ⟨none, some (1, 10), id, by simp, by simp, monotone_id⟩

theorem starts_le_oneInTen : ∃ s' : Stack Bool Int,
    run (Stack.step oneInTen) (oneInTen.stack Bool 0)
      [.call true, .call false, .step true, .step false, .step false, .step true, .step true] = some s' ∧
    (seen (Stack.step oneInTen) starts (oneInTen.stack Bool 0)
      [.call true, .call false, .step true, .step false, .step false, .step true, .step true]).length ≤ 2 := by
  have hfresh : run (Stack.step oneInTen) (oneInTen.stack Bool 0) [] = some (oneInTen.stack Bool 0) := rfl
  refine ⟨_, rfl, ?_⟩
  exact (starts_le oneInTen rfl hfresh rfl (by decide)).1

/-! ### A stale connection -/

/-- The operation has not passed the comparison, and will not pass it. -/
def Pc.Refused (round : T → T) (seconds started : T) : Pc T → Prop
  | .compare now => seconds < round (now - started)
  | .call | .running | .done | .store _ | .opening => False
  | _ => True

/-- No operation succeeded within the seconds allowed, and none is past the comparison. -/
structure Stack.Stale (round : T → T) (seconds started : T) (s : Stack τ T) : Prop where
  last : s.started = some started
  late : seconds < round (s.now - started)
  refused : ∀ t, (s.pcs t).Refused round seconds started

theorem Stack.Stale.goto {round : T → T} {seconds started : T} (h : s.Stale round seconds started) (t : τ) (pc : Pc T)
    (hpc : pc.Refused round seconds started) : (s.goto t pc).Stale round seconds started := by
  refine ⟨h.last, h.late, ?_⟩
  intro u
  by_cases hu : u = t
  · subst hu
    rw [goto_pcs, Function.update_self]
    exact hpc
  · rw [goto_pcs, Function.update_of_ne hu]
    exact h.refused u

private theorem stale_step [IsOrderedAddMonoid T] {seconds started : T} (hdeadline : cfg.deadline = some seconds)
    (hopens : ∀ t, a ≠ .opens t) (h : s.Stale cfg.round seconds started) (hstep : s.Steps cfg a s') :
    s'.Stale cfg.round seconds started ∧ starts s a = none ∧ ∀ x ∈ leaves cfg s a, x.2.denial.isSome := by
  have hpast : ∀ {t : τ} {pc : Pc T}, s.pcs t = pc → ¬ pc.Refused cfg.round seconds started → False := by
    intro t pc hpc hnot
    apply hnot
    rw [← hpc]
    exact h.refused t
  cases hstep with
  | tick hle =>
    have hlater := cfg.round_mono (sub_le_sub_right hle started)
    exact ⟨⟨h.last, h.late.trans_le hlater, h.refused⟩, rfl, by simp [leaves]⟩
  | call hpc => exact ⟨h.goto _ _ trivial, rfl, by simp [leaves]⟩
  | opens hpc => exact absurd rfl (hopens _)
  | unlimited hpc hlimiter => exact ⟨h.goto _ _ trivial, by simp [starts, hpc], by simp [leaves, hpc]⟩
  | @grant t l hpc hlimiter hok =>
    have hgoto := h.goto t Pc.check trivial
    exact ⟨⟨hgoto.last, hgoto.late, hgoto.refused⟩, by simp [starts, hpc], by simp [leaves, hpc]⟩
  | @exceed t l e hpc hlimiter herror =>
    have hgoto := h.goto t (Pc.exceeded e) trivial
    exact ⟨⟨hgoto.last, hgoto.late, hgoto.refused⟩, by simp [starts, hpc], by simp [leaves, hpc]⟩
  | @refuse t e hpc =>
    have hgoto := h.goto t Pc.idle trivial
    exact ⟨⟨hgoto.last, hgoto.late, hgoto.refused⟩, by simp [starts, hpc], by simp [leaves, hpc, Leave.denial]⟩
  | unchecked hpc hnone =>
    rw [hdeadline] at hnone
    cases hnone
  | notOpen hpc hsome hnone =>
    rw [h.last] at hnone
    cases hnone
  | isOpen hpc hsome hstarted =>
    exact ⟨h.goto _ _ trivial, by simp [starts, hpc], by simp [leaves, hpc, hdeadline, hstarted]⟩
  | clock hpc => exact ⟨h.goto _ _ h.late, by simp [starts, hpc], by simp [leaves, hpc]⟩
  | late hpc hsome hstarted hlate => exact ⟨h.goto _ _ trivial, by simp [starts, hpc], by simp [leaves, hpc]⟩
  | @inTime t seconds' started' now hpc hsome hstarted htime =>
    obtain rfl := Option.some.inj (hdeadline.symm.trans hsome)
    obtain rfl := Option.some.inj (h.last.symm.trans hstarted)
    have hrefused := h.refused t
    rw [hpc] at hrefused
    exact absurd hrefused htime
  | @outdated t seconds' started' now hpc hsome hstarted =>
    have hgoto := h.goto t Pc.idle trivial
    exact ⟨⟨hgoto.last, hgoto.late, hgoto.refused⟩, by simp [starts, hpc],
      by simp [leaves, hpc, hdeadline, hstarted, Leave.denial]⟩
  | start hpc => exact (hpast hpc id).elim
  | unstored hpc hnone => exact (hpast hpc id).elim
  | read hpc hsome => exact (hpast hpc id).elim
  | store hpc => exact (hpast hpc id).elim
  | returns hpc => exact (hpc.elim (fun hpc => hpast hpc id) fun hpc => hpast hpc id).elim
  | raises hpc => exact (hpc.elim (fun hpc => hpast hpc id) fun hpc => hpast hpc id).elim

private theorem stale_run [IsOrderedAddMonoid T] {seconds started : T} (hdeadline : cfg.deadline = some seconds)
    (h : s.Stale cfg.round seconds started) (hopens : ∀ t, .opens t ∉ acts)
    (hrun : run (Stack.step cfg) s acts = some s') :
    s'.Stale cfg.round seconds started ∧ seen (Stack.step cfg) starts s acts = [] ∧
      ∀ x ∈ seen (Stack.step cfg) (leaves cfg) s acts, (journaled x).isSome := by
  induction acts generalizing s with
  | nil =>
    obtain rfl := Option.some.inj hrun
    exact ⟨h, rfl, by simp [seen]⟩
  | cons a acts ih =>
    obtain ⟨t, ht, hrest⟩ := run_cons_eq_some.1 hrun
    have hother : ∀ t, a ≠ .opens t := fun t heq => hopens t (heq ▸ List.mem_cons_self)
    obtain ⟨hstale, hnone, hdenied⟩ := stale_step hdeadline hother h (step_steps ht)
    obtain ⟨hlast, hstarts, hrecorded⟩ := ih hstale (fun t ht => hopens t (List.mem_cons_of_mem a ht)) hrest
    rw [seen_cons ht, seen_cons ht, hnone, hstarts]
    refine ⟨hlast, rfl, ?_⟩
    intro x hx
    rcases List.mem_append.1 hx with hfirst | hlater
    · rw [journaled, Option.isSome_map]
      exact hdenied x (Option.mem_toList.1 hfirst)
    · exact hrecorded x hlater

/-- Until it is opened again, a stale connection lets nothing through: each operation that was called is refused and
journaled, once, or is still in the wrappers. -/
theorem stale_refused [Fintype τ] [IsOrderedAddMonoid T] (cfg : Configured T) {seconds started : T}
    {s s' : Stack τ T} {acts : List (Act τ T)} (hdeadline : cfg.deadline = some seconds)
    (h : s.Stale cfg.round seconds started) (hopens : ∀ t, .opens t ∉ acts) (hrun : run (Stack.step cfg) s acts = some s') :
    s'.Stale cfg.round seconds started ∧ seen (Stack.step cfg) starts s acts = [] ∧
      ∃ denials, s'.events = s.events ++ denials ∧ denials.length + census Pc.inside s'.pcs =
        census Pc.inside s.pcs + (seen (Stack.step cfg) begun s acts).length := by
  obtain ⟨hevents, hcount⟩ := leaves_run hrun
  obtain ⟨hlast, hstarts, hdenied⟩ := stale_run hdeadline h hopens hrun
  refine ⟨hlast, hstarts, _, hevents, ?_⟩
  rw [List.length_filterMap_eq_countP, List.countP_eq_length.2 hdenied]
  exact hcount

/-- One idle second allowed: the connection was opened at 0, and at 2 an operation is refused. -/
def brief : Configured Int := ⟨some 1, none, Doubles.double, by simp, by simp, fun _ _ => Doubles.double_mono⟩

theorem stale_refused_brief : ∃ s s' : Stack Bool Int,
    run (Stack.step brief) (brief.stack Bool 0) [.opens true, .returns true, .step true, .step true, .tick 2] = some s ∧
      run (Stack.step brief) s [.call false, .step false, .step false, .step false, .step false, .step false] = some s' ∧
      seen (Stack.step brief) starts s [.call false, .step false, .step false, .step false, .step false, .step false] =
        [] ∧
      s'.events.length = 1 := by
  refine ⟨_, _, rfl, rfl, ?_, rfl⟩
  have hdeadline : brief.deadline = some 1 := rfl
  refine (stale_refused brief hdeadline ⟨show _ = some (0 : Int) from rfl, by decide, ?_⟩ (by simp) rfl).2.1
  intro t
  cases t <;> trivial

end

end IronHarness.Limits
