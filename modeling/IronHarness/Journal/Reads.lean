import IronHarness.Journal.Snapshot

/-!
# Reads between appends

The strict readers take the lock of the writers unless the journal's name ends in a number, and then what they return
is what the files hold between two appends, however their steps and those of the writers are interleaved
(`reads_between_appends`).  A journal whose name ends in a number is read under another lock, in the middle of an
append (`reads_inside_append`).
-/

namespace IronHarness.Journal

open ByteText JsonText TextLines Rotation Runs

variable {F : Type} [JsonFloat F] {path : String} {s : Sys F} {d₀ : Dir}

/-- The readers of the journal itself. -/
def Request.Strict (req : Request) : Prop := req ≠ .loadEventsLenient

/-- The strict readers, given the live file or a part, take the lock of the writers. -/
private theorem lock_eq_iff (path : String) :
    (∀ req : Request, req.Strict → req.lock path = lockName path) ↔ ¬ EndsInNumber path := by
  rw [← readerLock_eq_iff]
  constructor
  · intro h
    exact h .readEventsChain (by simp [Request.Strict])
  · intro h req _
    cases req with
    | readEvents i =>
      rcases Nat.eq_zero_or_pos i with rfl | hi
      · exact h
      · rw [Request.lock, Request.file, fileName_of_pos hi]
        exact readerLock_part path i
    | readEventsChain => exact h
    | loadEventsLenient => exact h

omit [JsonFloat F] in
/-- What the strict readers know before their block does not depend on the directory. -/
private theorem strict_seek {req : Request} {pos : SeekPos} {d d' : Dir} (hreq : req.Strict)
    (h : pos.Right path d req) : pos.Right path d' req := by
  have hgiven : req.given path d' = req.given path d := by
    cases req with
    | readEvents i => rfl
    | readEventsChain => rfl
    | loadEventsLenient => exact absurd rfl hreq
  have hfinds : req.Finds path d' := fun h => absurd h hreq
  cases pos with
  | look l => exact absurd h.1 hreq
  | missing => exact absurd h.1 hreq
  | check files => exact ⟨h.1.trans hgiven.symm, hfinds⟩
  | acquire files => exact ⟨h.1.trans hgiven.symm, hfinds⟩

private theorem seen_strict {tasks : List Task}
    (hlate : Along (Sys.step path) (NoLateLock path) (Sys.init d₀ : Sys F) tasks)
    (hrun : run (Sys.step path) (Sys.init d₀) tasks = some s) :
    Seen path d₀ (fun req => req.Strict ∧ req.lock path = lockName path) s := by
  refine Along.invariant (I := Seen path d₀ _) ?_ hlate hrun (seen_init path d₀ _)
  intro s a s' ha hstep h
  refine h.step (fun req hreq => hreq.2) ha hstep ?_
  intro t req pos _ hreq hright
  exact strict_seek hreq.1 hright

/-- The strict readers take the lock of the writers exactly when the journal's name does not end in a number.  In
every run, from any directory, in which the lock file is not created while a reader that has found none is in its
block, a reader that takes that lock returns what the files hold at one moment, at which no writer is in its block and
the files are as whole operations of the writers have left them. -/
theorem reads_between_appends (path : String) :
    ((∀ req : Request, req.Strict → req.lock path = lockName path) ↔ ¬ EndsInNumber path) ∧
    ∀ (d₀ : Dir) (tasks : List Task) (s : Sys F),
      Along (Sys.step path) (NoLateLock path) (Sys.init d₀ : Sys F) tasks →
      run (Sys.step path) (Sys.init d₀) tasks = some s →
      ∀ t (req : Request) held result, s.pcs t = .reading req held (.release result) → req.Strict →
        req.lock path = lockName path →
        result = req.atOnce path s.dir ∧ (∀ u, (s.pcs u).writes = false) ∧
          ∃ ops : List Whole, s.dir = ops.foldl (Whole.apply path) d₀ := by
  refine ⟨lock_eq_iff path, ?_⟩
  intro d₀ tasks s hlate hrun t req held result hpc hreq hlock
  have hseen := seen_strict hlate hrun
  have hright := hseen.right t
  rw [hpc] at hright
  exact ⟨(hright ⟨hreq, hlock⟩).2, hseen.between hpc hlock⟩

/-! ### The lock file is there -/

/-- Where a writer has been opened before, no lock file is created late. -/
theorem along_noLateLock {tasks : List Task} (ho : Orderly path s)
    (hfile : (s.dir.lookup (lockName path)).isSome) : Along (Sys.step path) (NoLateLock path) s tasks := by
  induction tasks generalizing s with
  | nil => trivial
  | cons a tasks ih =>
    constructor
    · intro _ hnone
      rw [hnone] at hfile
      cases hfile
    · intro s' hstep
      exact ih (ho.step hstep) (ho.keeps hstep (foreign_lockName path) hfile)

/-- The journal of these runs keeps a part and its live file. -/
def smallFiles (name : String) : JsonlJournal := ⟨name, "t", 0, 1, 1, false⟩

def lineA : Bytes := encode "\x7b\"a\": 1\x7d\n".toList

def lineB : Bytes := encode "\x7b\"b\": 2\x7d\n".toList

/-- `n` steps of a thread. -/
def steps (t n : Nat) : List Task := List.replicate n (.go t .done)

/-- The live file of a journal with its lock file. -/
def lockedFiles : Dir := ((∅ : Dir).insert (lockName "j") []).insert "j" lineA

/-- A reader of the chain finds the lock file; then a call rotates the files and appends, and the reader goes on. -/
def readAfterRotation : List Task :=
  [.start 1 (.read .readEventsChain)] ++ steps 1 1 ++ [.start 0 (.append (smallFiles "j") lineB)] ++ steps 0 8 ++
    steps 1 7

set_option maxRecDepth 4000 in
theorem reads_between_appends_rotation :
    ∃ s : Sys LitFloat, run (Sys.step "j") (Sys.init lockedFiles) readAfterRotation = some s ∧
      s.pcs 1 = .reading .readEventsChain true (.release (.ok ([[("a", .int 1)], [("b", .int 2)]], 0))) ∧
      Request.readEventsChain.atOnce "j" s.dir =
        (.ok ([[("a", .int 1)], [("b", .int 2)]], 0) : Loaded LitFloat) := by
  have hsome : (run (Sys.step "j") (Sys.init lockedFiles : Sys LitFloat) readAfterRotation).isSome = true := rfl
  obtain ⟨s, hrun⟩ := Option.isSome_iff_exists.1 hsome
  have hpc : (run (Sys.step "j") (Sys.init lockedFiles : Sys LitFloat) readAfterRotation).map (fun s => s.pcs 1) =
      some (.reading .readEventsChain true (.release (.ok ([[("a", .int 1)], [("b", .int 2)]], 0)))) := rfl
  rw [hrun] at hpc
  replace hpc := Option.some.inj hpc
  have hlate : Along (Sys.step "j") (NoLateLock "j") (Sys.init lockedFiles : Sys LitFloat) readAfterRotation :=
    along_noLateLock (orderly_init _ _) rfl
  have hstrict : Request.readEventsChain.Strict := by simp [Request.Strict]
  have hread := (reads_between_appends (F := LitFloat) "j").2 lockedFiles readAfterRotation s hlate hrun 1
    .readEventsChain true _ hpc hstrict rfl
  exact ⟨s, hrun, hpc, hread.1.symm⟩

/-- A writer is opened and has written some bytes of a line when the file is read. -/
def readDuringWrite : List Task :=
  [.start 0 .openWriter] ++ steps 0 5 ++ [.start 0 (.append (smallFiles "run.1") lineA)] ++ steps 0 3 ++
    [.go 0 (.chunk 3), .start 1 (.read (.readEvents 0))] ++ steps 1 2

/-- A reader finds no lock file; then a writer is opened and has written some bytes of a line. -/
def writerComesLate : List Task :=
  [.start 1 (.read (.readEvents 0))] ++ steps 1 1 ++ [.start 0 .openWriter] ++ steps 0 5 ++
    [.start 0 (.append (smallFiles "j") lineA)] ++ steps 0 3 ++ [.go 0 (.chunk 3)] ++ steps 1 1

set_option maxRecDepth 4000 in
/-- The live file of the journal `run.1` is read without its lock, in the middle of an append; so is a journal whose
lock file is created after the reader has looked for it. -/
theorem reads_inside_append :
    (Request.readEvents 0).lock "run.1" ≠ lockName "run.1" ∧
    (run (Sys.step "run.1") (Sys.init ∅ : Sys LitFloat) readDuringWrite).map
        (fun s => (s.pcs 1, (s.pcs 0).writes)) =
      some (.reading (.readEvents 0) false
        (.release (.error (.corrupt "run.1" 1 "line is not valid JSON"))), true) ∧
    (run (Sys.step "j") (Sys.init ∅ : Sys LitFloat) writerComesLate).map (fun s => (s.pcs 1, (s.pcs 0).writes)) =
      some (.reading (.readEvents 0) false
        (.release (.error (.corrupt "j" 1 "line is not valid JSON"))), true) := by
  refine ⟨by decide, rfl, rfl⟩

end IronHarness.Journal
