import IronHarness.Journal.Section
import IronHarness.Journal.Reader
import IronHarness.Lib.Mutex
import IronHarness.Lib.Runs

/-!
# Writers and readers of one journal at the same time

Threads open writers of the journal `path`, append lines and read, all step by step and in any order; a step is one
file operation, or a probe of the directory, or the reading of one file.  The lock files exclude each other's blocks;
a lock is taken by opening its file, which creates it.  What a step can do is said once (`Rule`, `Task.rule`).
-/

namespace IronHarness.Journal

open ByteText JsonText TextLines Rotation

variable {F : Type}

/-! ### The readers -/

/-- A call of a reading function; `readEvents i` is given the live file or part `i`. -/
inductive Request
  | readEvents (i : Nat)
  | readEventsChain
  | loadEventsLenient
  deriving DecidableEq, Repr

/-- The file whose name the lock is derived from. -/
def Request.file (path : String) : Request → String
  | .readEvents i => fileName path i
  | _ => path

def Request.lock (path : String) (req : Request) : String := readerLock (req.file path)

/-- The events read and the number of lines skipped; the strict readers skip none. -/
abbrev Loaded (F : Type) := Except ReadError (List (List (String × Value F)) × Nat)

/-- One file, as the function reads it. -/
def Request.readFile [JsonFloat F] (d : Dir) (file : String) : Request → Loaded F
  | .loadEventsLenient =>
    match d.lookup file with
    | none => .error (.notFound file)
    | some bs => .ok (lenientLines (lenientText bs))
  | _ => (Journal.readEvents d file).map fun events => (events, 0)

/-- Where a reader is in `chain_files`: at part `idx`, or at the live file with the number of parts found. -/
inductive Look
  | part (idx : Nat)
  | live (parts : Nat)
  deriving DecidableEq, Repr

def Look.next (path : String) (d : Dir) : Look → Look ⊕ List String
  | .part idx => .inl (if (d.lookup (partName path idx)).isSome then .part (idx + 1) else .live (idx - 1))
  | .live parts => .inr (slotFiles d path parts)

/-- Where a reader is before the block under the lock; the files are those it has been given or has found. -/
inductive SeekPos
  | look (l : Look)
  | missing
  | check (files : Option (List String))
  | acquire (files : Option (List String))
  deriving DecidableEq, Repr

/-- Where a reader is in the block under the lock. -/
inductive ReadPos (F : Type)
  | look (l : Look)
  | read (todo : List String) (got : List (List (String × Value F))) (skipped : Nat)
  | release (result : Loaded F)

/-- The beginning of the block: `read_events_chain` looks for the files now. -/
def ReadPos.enter : Option (List String) → ReadPos F
  | some files => .read files [] 0
  | none => .look (.part 1)

/-- `load_events_lenient` looks for the files before it takes the lock. -/
def SeekPos.start (path : String) : Request → SeekPos
  | .readEvents i => .check (some [fileName path i])
  | .readEventsChain => .check none
  | .loadEventsLenient => .look (.part 1)

/-! ### Threads -/

/-- Where a thread is in `JsonlJournal.__init__`. -/
inductive OpenPos
  | acquireFirst
  | releaseFirst
  | acquire
  | openLive
  | release
  deriving DecidableEq, Repr

/-- A thread does nothing, opens a writer, waits for the lock of a call whose lines are made, is in the block of that
call, or reads: before the block, in it (with the lock, or without when there was no lock file), or done. -/
inductive Pc (F : Type)
  | idle
  | opening (pos : OpenPos)
  | calling (j : JsonlJournal) (line : Bytes)
  | appending (j : JsonlJournal) (line : Bytes) (pos : Position)
  | seeking (req : Request) (pos : SeekPos)
  | reading (req : Request) (held : Bool) (pos : ReadPos F)
  | returned (req : Request) (result : Loaded F)

/-- What a step does besides moving its thread. -/
inductive Move (F : Type)
  | goto (pc : Pc F)
  | edit (d : Dir) (pc : Pc F)
  | acquire (lock : String) (pc : Pc F)
  | release (lock : String) (pc : Pc F)

/-- How a file operation ends: it is done, it has written only some bytes, or it raises an OSError. -/
inductive Answer
  | done
  | chunk (n : Nat)
  | raises
  deriving DecidableEq, Repr

def OpenPos.move (path : String) (d : Dir) : OpenPos → Answer → Option (Move F)
  | .acquireFirst, .done => some (.acquire (lockName path) (.opening .releaseFirst))
  | .acquireFirst, .raises => some (.goto .idle)
  | .releaseFirst, .done => some (.release (lockName path) (.opening .acquire))
  | .acquire, .done => some (.acquire (lockName path) (.opening .openLive))
  | .acquire, .raises => some (.goto .idle)
  | .openLive, .done => some (.edit (touch path d) (.opening .release))
  | .openLive, .raises => some (.goto (.opening .release))
  | .release, .done => some (.release (lockName path) .idle)
  | _, _ => none

def Position.move (path : String) (j : JsonlJournal) (line : Bytes) (d : Dir) : Position → Answer → Option (Move F)
  | .release _, .done => some (.release (lockName path) .idle)
  | pos, .done => some (.edit (pos.next j line d).2 (.appending j line (pos.next j line d).1))
  | pos, .chunk n => (pos.chunk j n d).map fun x => .edit x.2 (.appending j line x.1)
  | pos, .raises => (pos.raises j d).map fun x => .edit x.2 (.appending j line x.1)

/-- The steps of `reader_sidecar_lock` up to its block, and those of `load_events_lenient` before it. -/
def SeekPos.move (path : String) (d : Dir) (req : Request) : SeekPos → Move F
  | .look l =>
    match l.next path d with
    | .inl l => .goto (.seeking req (.look l))
    | .inr files => .goto (.seeking req (if files.isEmpty then .missing else .check (some files)))
  | .missing => .goto (.returned req (.error (.notFound path)))
  | .check files =>
    if (d.lookup (req.lock path)).isSome then .goto (.seeking req (.acquire files))
    else .goto (.reading req false (ReadPos.enter files))
  | .acquire files => .acquire (req.lock path) (.reading req true (ReadPos.enter files))

variable [JsonFloat F]

def ReadPos.move (path : String) (d : Dir) (req : Request) (held : Bool) : ReadPos F → Move F
  | .look l =>
    match l.next path d with
    | .inl l => .goto (.reading req held (.look l))
    | .inr files => .goto (.reading req held (.read files [] 0))
  | .read (file :: todo) got skipped =>
    match req.readFile d file with
    | .ok (events, n) => .goto (.reading req held (.read todo (got ++ events) (skipped + n)))
    | .error e => .goto (.reading req held (.release (.error e)))
  | .read [] got skipped => .goto (.reading req held (.release (.ok (got, skipped))))
  | .release result =>
    if held then .release (req.lock path) (.returned req result) else .goto (.returned req result)

/-- What a thread does next. -/
def Pc.move (path : String) (d : Dir) : Pc F → Answer → Option (Move F)
  | .opening pos, answer => pos.move path d answer
  | .calling j line, .done => some (.acquire (lockName path) (.appending j line .stat))
  | .calling _ _, .raises => some (.goto .idle)
  | .appending j line pos, answer => pos.move path j line d answer
  | .seeking req pos, .done => some (pos.move path d req)
  | .reading req held pos, .done => some (pos.move path d req held)
  | _, _ => none

/-! ### The system -/

/-- The directory, the threads that hold the lock files, and where the threads are. -/
structure Sys (F : Type) where
  dir : Dir
  holder : Mutex.Table String Nat
  pcs : Nat → Pc F

def Sys.init (d : Dir) : Sys F := ⟨d, fun _ => none, fun _ => .idle⟩

/-- The directory a move leads to, the holders of the locks then, and where its thread is. -/
def Move.dir (d : Dir) : Move F → Dir
  | .goto _ => d
  | .edit d' _ => d'
  | .acquire lock _ => touch lock d
  | .release _ _ => d

def Move.holder (t : Nat) (holder : Mutex.Table String Nat) : Move F → Mutex.Table String Nat
  | .goto _ => holder
  | .edit _ _ => holder
  | .acquire lock _ => Mutex.acquire lock t holder
  | .release lock _ => Mutex.release lock holder

def Move.pc : Move F → Pc F
  | .goto pc => pc
  | .edit _ pc => pc
  | .acquire _ pc => pc
  | .release _ pc => pc

/-- The lock that a move takes is held. -/
def Move.blocked (holder : Mutex.Table String Nat) : Move F → Bool
  | .acquire lock _ => (holder lock).isSome
  | _ => false

def Sys.perform (s : Sys F) (t : Nat) (mv : Move F) : Option (Sys F) :=
  if mv.blocked s.holder then none
  else some ⟨mv.dir s.dir, mv.holder t s.holder, Function.update s.pcs t mv.pc⟩

/-- What a thread can begin. -/
inductive Op
  | openWriter
  | append (j : JsonlJournal) (line : Bytes)
  | read (req : Request)

def Op.start (path : String) : Op → Option (Pc F)
  | .openWriter => some (.opening .acquireFirst)
  | .append j line => if j.path = path then some (.calling j line) else none
  | .read req => some (.seeking req (SeekPos.start path req))

inductive Task
  | start (t : Nat) (op : Op)
  | go (t : Nat) (answer : Answer)

def Task.thread : Task → Nat
  | .start t _ => t
  | .go t _ => t

def Pc.ready : Pc F → Bool
  | .idle => true
  | .returned _ _ => true
  | _ => false

def Task.move (path : String) (s : Sys F) : Task → Option (Move F)
  | .start t op => if (s.pcs t).ready then (op.start path).map Move.goto else none
  | .go t answer => (s.pcs t).move path s.dir answer

def Sys.step (path : String) (s : Sys F) (a : Task) : Option (Sys F) := (a.move path s).bind (s.perform a.thread)

/-! ### What a step can do -/

/-- The moves of a thread, by where it is. -/
inductive Rule (path : String) (d : Dir) : Pc F → Move F → Prop
  | start (pc pc' : Pc F) (op : Op) (hready : pc.ready = true) (hpc : op.start path = some pc') :
      Rule path d pc (.goto pc')
  | openAcquireFirst : Rule path d (.opening .acquireFirst) (.acquire (lockName path) (.opening .releaseFirst))
  | openReleaseFirst : Rule path d (.opening .releaseFirst) (.release (lockName path) (.opening .acquire))
  | openAcquire : Rule path d (.opening .acquire) (.acquire (lockName path) (.opening .openLive))
  | openLive : Rule path d (.opening .openLive) (.edit (touch path d) (.opening .release))
  | openRelease : Rule path d (.opening .release) (.release (lockName path) .idle)
  | openFails (pos : OpenPos) (hpos : pos = .acquireFirst ∨ pos = .acquire) :
      Rule path d (.opening pos) (.goto .idle)
  | openLiveFails : Rule path d (.opening .openLive) (.goto (.opening .release))
  | callAcquire (j : JsonlJournal) (line : Bytes) :
      Rule path d (.calling j line) (.acquire (lockName path) (.appending j line .stat))
  | callFails (j : JsonlJournal) (line : Bytes) : Rule path d (.calling j line) (.goto .idle)
  | appendNext (j : JsonlJournal) (line : Bytes) (pos : Position) (hpos : ∀ ok, pos ≠ .release ok) :
      Rule path d (.appending j line pos) (.edit (pos.next j line d).2 (.appending j line (pos.next j line d).1))
  | appendChunk (j : JsonlJournal) (line : Bytes) (pos : Position) (n : Nat) (x : Position × Dir)
      (hx : pos.chunk j n d = some x) : Rule path d (.appending j line pos) (.edit x.2 (.appending j line x.1))
  | appendRaises (j : JsonlJournal) (line : Bytes) (pos : Position) (x : Position × Dir)
      (hx : pos.raises j d = some x) : Rule path d (.appending j line pos) (.edit x.2 (.appending j line x.1))
  | appendRelease (j : JsonlJournal) (line : Bytes) (ok : Bool) :
      Rule path d (.appending j line (.release ok)) (.release (lockName path) .idle)
  | seekLook (req : Request) (l l' : Look) (hl : l.next path d = .inl l') :
      Rule path d (.seeking req (.look l)) (.goto (.seeking req (.look l')))
  | seekMissing (req : Request) (l : Look) (hl : l.next path d = .inr []) :
      Rule path d (.seeking req (.look l)) (.goto (.seeking req .missing))
  | seekFound (req : Request) (l : Look) (files : List String) (hl : l.next path d = .inr files)
      (hne : files ≠ []) : Rule path d (.seeking req (.look l)) (.goto (.seeking req (.check (some files))))
  | missing (req : Request) :
      Rule path d (.seeking req .missing) (.goto (.returned req (.error (.notFound path))))
  | lockFound (req : Request) (files : Option (List String)) (hlock : (d.lookup (req.lock path)).isSome) :
      Rule path d (.seeking req (.check files)) (.goto (.seeking req (.acquire files)))
  | lockAbsent (req : Request) (files : Option (List String)) (hlock : d.lookup (req.lock path) = none) :
      Rule path d (.seeking req (.check files)) (.goto (.reading req false (ReadPos.enter files)))
  | readAcquire (req : Request) (files : Option (List String)) :
      Rule path d (.seeking req (.acquire files)) (.acquire (req.lock path) (.reading req true (ReadPos.enter files)))
  | readLook (req : Request) (held : Bool) (l l' : Look) (hl : l.next path d = .inl l') :
      Rule path d (.reading req held (.look l)) (.goto (.reading req held (.look l')))
  | readFound (req : Request) (held : Bool) (l : Look) (files : List String) (hl : l.next path d = .inr files) :
      Rule path d (.reading req held (.look l)) (.goto (.reading req held (.read files [] 0)))
  | readFile (req : Request) (held : Bool) (file : String) (todo : List String)
      (got events : List (List (String × Value F))) (skipped n : Nat) (hread : req.readFile d file = .ok (events, n)) :
      Rule path d (.reading req held (.read (file :: todo) got skipped))
        (.goto (.reading req held (.read todo (got ++ events) (skipped + n))))
  | readError (req : Request) (held : Bool) (file : String) (todo : List String)
      (got : List (List (String × Value F))) (skipped : Nat) (e : ReadError)
      (hread : (req.readFile d file : Loaded F) = .error e) :
      Rule path d (.reading req held (.read (file :: todo) got skipped))
        (.goto (.reading req held (.release (.error e))))
  | readEnd (req : Request) (held : Bool) (got : List (List (String × Value F))) (skipped : Nat) :
      Rule path d (.reading req held (.read [] got skipped))
        (.goto (.reading req held (.release (.ok (got, skipped)))))
  | readRelease (req : Request) (result : Loaded F) :
      Rule path d (.reading req true (.release result)) (.release (req.lock path) (.returned req result))
  | readReturn (req : Request) (result : Loaded F) :
      Rule path d (.reading req false (.release result)) (.goto (.returned req result))

variable {path : String} {d : Dir} {s s' : Sys F} {a : Task} {t : Nat} {mv : Move F} {pc : Pc F} {answer : Answer}

private theorem OpenPos.rule {pos : OpenPos} (h : pos.move path d answer = some mv) :
    Rule path d (.opening pos) mv := by
  cases pos <;> cases answer <;> cases h
  · exact .openAcquireFirst
  · exact .openFails _ (Or.inl rfl)
  · exact .openReleaseFirst
  · exact .openAcquire
  · exact .openFails _ (Or.inr rfl)
  · exact .openLive
  · exact .openLiveFails
  · exact .openRelease

private theorem Position.rule {j : JsonlJournal} {line : Bytes} {pos : Position}
    (h : pos.move path j line d answer = some mv) : Rule path d (.appending j line pos) mv := by
  unfold Position.move at h
  split at h
  · cases h
    exact .appendRelease j line _
  · rename_i hpos
    cases h
    exact .appendNext j line pos fun ok hok => hpos ok hok
  · rename_i n
    obtain ⟨x, hx, rfl⟩ := Option.map_eq_some_iff.1 h
    exact .appendChunk j line pos n x hx
  · obtain ⟨x, hx, rfl⟩ := Option.map_eq_some_iff.1 h
    exact .appendRaises j line pos x hx

private theorem SeekPos.rule (req : Request) (pos : SeekPos) :
    Rule path d (.seeking req pos) (pos.move path d req : Move F) := by
  cases pos with
  | look l =>
    unfold SeekPos.move
    dsimp only
    split
    · rename_i l' hl
      exact .seekLook req l l' hl
    · rename_i files hl
      cases files with
      | nil => exact .seekMissing req l hl
      | cons file files => exact .seekFound req l _ hl (List.cons_ne_nil _ _)
  | missing => exact .missing req
  | check files =>
    unfold SeekPos.move
    dsimp only
    split
    · rename_i hlock
      exact .lockFound req files hlock
    · rename_i hlock
      exact .lockAbsent req files (Option.not_isSome_iff_eq_none.1 hlock)
  | acquire files => exact .readAcquire req files

private theorem ReadPos.rule (req : Request) (held : Bool) (pos : ReadPos F) :
    Rule path d (.reading req held pos) (pos.move path d req held) := by
  cases pos with
  | look l =>
    unfold ReadPos.move
    dsimp only
    split
    · rename_i l' hl
      exact .readLook req held l l' hl
    · rename_i files hl
      exact .readFound req held l files hl
  | read todo got skipped =>
    cases todo with
    | nil => exact .readEnd req held got skipped
    | cons file todo =>
      unfold ReadPos.move
      dsimp only
      split
      · rename_i events n hread
        exact .readFile req held file todo got events skipped n hread
      · rename_i e hread
        exact .readError req held file todo got skipped e hread
  | release result =>
    cases held with
    | true => exact .readRelease req result
    | false => exact .readReturn req result

theorem Pc.rule (h : pc.move path d answer = some mv) : Rule path d pc mv := by
  unfold Pc.move at h
  split at h
  · exact OpenPos.rule h
  · cases h
    exact .callAcquire _ _
  · cases h
    exact .callFails _ _
  · exact Position.rule h
  · cases h
    exact SeekPos.rule _ _
  · cases h
    exact ReadPos.rule _ _ _
  · cases h

theorem Task.rule (h : a.move path s = some mv) : Rule path s.dir (s.pcs a.thread) mv := by
  cases a with
  | start t op =>
    unfold Task.move at h
    dsimp only at h
    split at h
    · rename_i hready
      obtain ⟨pc, hpc, rfl⟩ := Option.map_eq_some_iff.1 h
      exact .start _ pc op hready hpc
    · cases h
  | go t answer => exact Pc.rule h

/-- What a step can do. -/
theorem step_cases (h : s.step path a = some s') :
    ∃ mv : Move F, Rule path s.dir (s.pcs a.thread) mv ∧ mv.blocked s.holder = false ∧
      s' = ⟨mv.dir s.dir, mv.holder a.thread s.holder, Function.update s.pcs a.thread mv.pc⟩ := by
  obtain ⟨mv, hmv, hperform⟩ := Option.bind_eq_some_iff.1 h
  unfold Sys.perform at hperform
  split at hperform
  · cases hperform
  · rename_i hfree
    cases hperform
    exact ⟨mv, Task.rule hmv, Bool.eq_false_iff.2 hfree, rfl⟩

end IronHarness.Journal
