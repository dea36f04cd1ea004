import IronHarness.Lib.Runs
import IronHarness.SerialReader

/-!
# `read_until` and the end of the background thread

The background thread of a reader and a caller of `read_until`, step by step.  The caller searches the buffer under
the lock; that the thread has failed or was stopped it looks at behind the lock.  What the thread appends in between
is not in the data that the caller returns (`match_is_hidden`); where it returns with nothing appended in between, it
returns all that is in the buffer, and no match is in it (`failure_hides_nothing`).
-/

namespace IronHarness.SerialReader

open ByteText Runs

/-- Where `_run` is. -/
inductive ThreadPc
  /-- before the test of `_stop` at the head of the loop -/
  | polling
  /-- within `transport.read` -/
  | reading
  /-- before the locked section -/
  | appending (data : Bytes)
  | ended
  deriving DecidableEq

/-- Where the caller of `read_until` is; `buf` is what it has searched. -/
inductive CallerPc
  | idle
  | searching (needle : Bytes)
  | testingError (needle buf : Bytes)
  | testingDeadline (needle buf : Bytes)
  | testingStop (needle buf : Bytes)
  deriving DecidableEq

/-- A return with `found` False because of an error or a stop: the data of the reply, and the buffer of this moment. -/
structure Decision where
  needle : Bytes
  data : Bytes
  buffer : Bytes
  deriving DecidableEq

/-- `grown` is no field of the code: whether a chunk was appended since the last search. -/
structure Race where
  reader : SerialReader
  thread : ThreadPc
  caller : CallerPc
  grown : Bool
  decisions : List Decision
  deriving DecidableEq

/-- A reader after `start()`. -/
def Race.start (maxBytes chunk : Nat) : Race :=
  ⟨{ maxBytes, chunk, thread := some true }, .polling, .idle, false, []⟩

inductive Act
  /-- the thread tests `_stop` -/
  | poll
  /-- the read of the transport returns, or raises -/
  | readReturns (data : Bytes)
  | readRaises (error : String)
  | appendChunk
  | call (pattern : String)
  | search
  | testError
  | testDeadline (late : Bool)
  | testStop
  /-- `_stop.set()` of `stop()` -/
  | stop
  deriving DecidableEq

def Race.decide (c : Race) (needle buf : Bytes) : Race :=
  { c with caller := .idle, decisions := c.decisions ++ [⟨needle, buf, c.reader.snapshot⟩] }

def Race.step (c : Race) : Act → Option Race
  | .poll =>
    if c.thread = .polling then
      some { c with thread := if c.reader.stopSet then .ended else .reading }
    else none
  | .readReturns data =>
    if c.thread = .reading then some { c with thread := if data.isEmpty then .polling else .appending data } else none
  | .readRaises error =>
    if c.thread = .reading then some { c with thread := .ended, reader := { c.reader with error := some error } } else none
  | .appendChunk =>
    match c.thread with
    | .appending data => some { c with thread := .polling, reader := c.reader.append data, grown := true }
    | _ => none
  | .call pattern =>
    -- the empty pattern is a ValueError
    if c.caller = .idle ∧ pattern.isEmpty = false then some { c with caller := .searching (encode pattern.toList) } else none
  | .search =>
    match c.caller with
    | .searching needle =>
      match c.reader.readUntilLocked needle with
      | (some _, reader) => some { c with reader := reader, caller := .idle }
      | (none, reader) => some { c with reader := reader, caller := .testingError needle c.reader.snapshot, grown := false }
    | _ => none
  | .testError =>
    match c.caller with
    | .testingError needle buf =>
      if c.reader.error.isSome then some (c.decide needle buf) else some { c with caller := .testingDeadline needle buf }
    | _ => none
  | .testDeadline late =>
    match c.caller with
    | .testingDeadline needle buf => some { c with caller := if late then .idle else .testingStop needle buf }
    | _ => none
  | .testStop =>
    match c.caller with
    | .testingStop needle buf =>
      if c.reader.stopSet then some (c.decide needle buf) else some { c with caller := .searching needle }
    | _ => none
  | .stop => some { c with reader := { c.reader with stopSet := true } }

/-- What the caller has searched and still looks at. -/
def CallerPc.searched : CallerPc → Option (Bytes × Bytes)
  | .idle => none
  | .searching _ => none
  | .testingError needle buf => some (needle, buf)
  | .testingDeadline needle buf => some (needle, buf)
  | .testingStop needle buf => some (needle, buf)

/-- `read_until` returns at this step, because of an error or a stop. -/
def Race.Decides (c : Race) (a : Act) : Prop :=
  a = .testError ∧ c.reader.error.isSome = true ∨ a = .testStop ∧ c.reader.stopSet = true

/-- It does so only if nothing was appended since its search. -/
def Timely (c : Race) (a : Act) : Prop := c.Decides a → c.grown = false

instance (c : Race) (a : Act) : Decidable (c.Decides a) :=
  inferInstanceAs (Decidable (a = .testError ∧ c.reader.error.isSome = true ∨ a = .testStop ∧ c.reader.stopSet = true))

instance (c : Race) (a : Act) : Decidable (Timely c a) := inferInstanceAs (Decidable (c.Decides a → c.grown = false))

/-- The reply holds the whole buffer, and no match is in it. -/
def Decision.Honest (d : Decision) : Prop := find d.needle d.buffer = none ∧ d.data = d.buffer

/-- What the caller has searched is in the buffer until more is appended. -/
structure Fresh (c : Race) : Prop where
  searched : ∀ needle buf, c.caller.searched = some (needle, buf) → c.grown = false →
    buf = c.reader.snapshot ∧ find needle c.reader.snapshot = none
  decisions : ∀ d ∈ c.decisions, d.Honest

private theorem readUntilLocked_none {needle : Bytes} {r r' : SerialReader}
    (h : r.readUntilLocked needle = (none, r')) :
    r' = r ∧ find needle r.snapshot = none := by
  unfold readUntilLocked at h
  cases hfind : find needle r.snapshot with
  | some pos => simp [hfind] at h
  | none =>
    obtain rfl : r = r' := by simpa [hfind] using h
    exact ⟨rfl, rfl⟩

/-- A step that leaves the buffer alone, and after which the caller looks at nothing new. -/
theorem Fresh.of_same {c c' : Race} (h : Fresh c) (hsnapshot : c'.reader.snapshot = c.reader.snapshot)
    (hcaller : ∀ needle buf, c'.caller.searched = some (needle, buf) → c.caller.searched = some (needle, buf))
    (hgrown : c'.grown = c.grown) (hdecisions : c'.decisions = c.decisions) : Fresh c' := by
  constructor
  · intro needle buf hsearched hnot
    rw [hsnapshot]
    exact h.searched needle buf (hcaller needle buf hsearched) (hgrown ▸ hnot)
  · rw [hdecisions]
    exact h.decisions

theorem Fresh.decide {c : Race} {needle buf : Bytes} (h : Fresh c) (hsearched : c.caller.searched = some (needle, buf))
    (hgrown : c.grown = false) : Fresh (c.decide needle buf) := by
  obtain ⟨hbuf, hfind⟩ := h.searched needle buf hsearched hgrown
  constructor
  · intro needle' buf' hnone
    cases hnone
  · intro d hd
    rcases List.mem_append.1 hd with hd | hd
    · exact h.decisions d hd
    · rw [List.mem_singleton.1 hd]
      exact ⟨hfind, hbuf⟩

private theorem fresh_step {c c' : Race} {a : Act} (htimely : Timely c a) (hstep : c.step a = some c') (h : Fresh c) :
    Fresh c' := by
  cases a with
  | poll =>
    obtain ⟨-, rfl⟩ : c.thread = .polling ∧ _ = c' := by simpa [Race.step] using hstep
    exact h.of_same rfl (fun _ _ => id) rfl rfl
  | readReturns data =>
    obtain ⟨-, rfl⟩ : c.thread = .reading ∧ _ = c' := by simpa [Race.step] using hstep
    exact h.of_same rfl (fun _ _ => id) rfl rfl
  | readRaises error =>
    obtain ⟨-, rfl⟩ : c.thread = .reading ∧ _ = c' := by simpa [Race.step] using hstep
    exact h.of_same rfl (fun _ _ => id) rfl rfl
  | appendChunk =>
    simp only [Race.step] at hstep
    split at hstep
    · obtain rfl := Option.some.inj hstep
      exact ⟨fun _ _ _ hgrown => (by cases hgrown), h.decisions⟩
    · cases hstep
  | call pattern =>
    obtain ⟨-, rfl⟩ : (c.caller = .idle ∧ pattern.isEmpty = false) ∧ _ = c' := by simpa [Race.step] using hstep
    exact h.of_same rfl (fun _ _ hsearched => by cases hsearched) rfl rfl
  | search =>
    simp only [Race.step] at hstep
    split at hstep
    · rename_i needle hcaller
      split at hstep
      · obtain rfl := Option.some.inj hstep
        exact ⟨fun _ _ hsearched => (by cases hsearched), h.decisions⟩
      · rename_i reader hlocked
        obtain ⟨rfl, hfind⟩ := readUntilLocked_none hlocked
        obtain rfl := Option.some.inj hstep
        refine ⟨fun needle' buf' hsearched _ => ?_, h.decisions⟩
        obtain ⟨rfl, rfl⟩ : needle = needle' ∧ c.reader.snapshot = buf' := by simpa [CallerPc.searched] using hsearched
        exact ⟨rfl, hfind⟩
    · cases hstep
  | testError =>
    simp only [Race.step] at hstep
    split at hstep
    · rename_i needle buf hcaller
      split at hstep
      · rename_i herror
        obtain rfl := Option.some.inj hstep
        exact h.decide (by rw [hcaller]; rfl) (htimely (Or.inl ⟨rfl, herror⟩))
      · obtain rfl := Option.some.inj hstep
        exact h.of_same rfl (fun _ _ hsearched => by rw [hcaller]; exact hsearched) rfl rfl
    · cases hstep
  | testDeadline late =>
    simp only [Race.step] at hstep
    split at hstep
    · rename_i needle buf hcaller
      obtain rfl := Option.some.inj hstep
      refine h.of_same rfl (fun needle' buf' hsearched => ?_) rfl rfl
      rw [hcaller]
      cases late with
      | true => cases hsearched
      | false => exact hsearched
    · cases hstep
  | testStop =>
    simp only [Race.step] at hstep
    split at hstep
    · rename_i needle buf hcaller
      split at hstep
      · rename_i hset
        obtain rfl := Option.some.inj hstep
        exact h.decide (by rw [hcaller]; rfl) (htimely (Or.inr ⟨rfl, hset⟩))
      · obtain rfl := Option.some.inj hstep
        exact h.of_same rfl (fun _ _ hsearched => by cases hsearched) rfl rfl
    · cases hstep
  | stop =>
    obtain rfl := Option.some.inj hstep
    exact h.of_same rfl (fun _ _ => id) rfl rfl

/-- Where `read_until` returns with nothing appended since its search, it returns the whole buffer of this moment when
the thread has failed or was stopped, and no match is in it. -/
theorem failure_hides_nothing (maxBytes chunk : Nat) (acts : List Act) (c : Race)
    (hrun : run Race.step (Race.start maxBytes chunk) acts = some c)
    (htimely : Along Race.step Timely (Race.start maxBytes chunk) acts) : ∀ d ∈ c.decisions, d.Honest := by
  have hstart : Fresh (Race.start maxBytes chunk) := by
    constructor
    · intro needle buf hsearched
      cases hsearched
    · simp [Race.start]
  exact (htimely.invariant (fun _ _ _ htimely hstep => fresh_step htimely hstep) hrun hstart).decisions

/-- The thread fails before the search. -/
def failsBefore : List Act :=
  [.poll, .readReturns [79], .appendChunk, .poll, .readRaises "gone", .call "OK", .search, .testError]

theorem failure_hides_nothing_before :
    ∃ c, run Race.step (Race.start 8 8) failsBefore = some c ∧ c.decisions ≠ [] ∧ ∀ d ∈ c.decisions, d.Honest :=
  ⟨_, rfl, by decide, failure_hides_nothing 8 8 failsBefore _ rfl (by decide)⟩

/-- The thread appends the match and fails between the search and the test. -/
def failsBetween : List Act :=
  [.poll, .call "OK", .search, .readReturns [79, 75], .appendChunk, .poll, .readRaises "gone", .testError]

/-- The match is in the buffer, and the reply has no data. -/
theorem match_is_hidden :
    ∃ c, run Race.step (Race.start 8 8) failsBetween = some c ∧ c.decisions = [⟨[79, 75], [], [79, 75]⟩] ∧
      ¬ ∀ d ∈ c.decisions, d.Honest := by
  refine ⟨_, rfl, rfl, ?_⟩
  intro h
  have hdata := (h ⟨[79, 75], [], [79, 75]⟩ (by decide)).2
  cases hdata

end IronHarness.SerialReader
