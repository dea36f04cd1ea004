import IronHarness.Journal.Files
import Mathlib.Data.List.Sort
import IronHarness.Lib.JsonChars
import IronHarness.Lib.Lines

/-!
# The journal writer

`JsonlJournal`: the records of a call, the rotation of the files, and a call, which may fail with an OSError at any of
its file operations (`Fault`).
-/

namespace IronHarness.Journal

open ByteText JsonText TextLines Rotation

variable {F : Type}

/-! ### Records -/

/-- A dictionary: its keys are distinct, at every depth. -/
structure Event (F : Type) where
  fields : List (String × Value F)
  nodup : (Value.obj fields).keysNodup

/-- Service keys of a record: a payload cannot overwrite them. -/
def reservedKeys : List String := ["ts", "seq", "actor", "kind"]

/-- The keys of a payload that are dropped from its record. -/
def conflicts (data : Event F) : List String := (data.fields.map Prod.fst).filter (· ∈ reservedKeys)

/-- The record of an event: the service keys and the rest of the payload.  No key left of the payload is a service
key, so `update` appends them in order. -/
def recordFields (ts : F) (seq : Nat) (actor kind : String) (data : Event F) : List (String × Value F) :=
  [("ts", .float ts), ("seq", .int seq), ("actor", .str actor), ("kind", .str kind)] ++
    data.fields.filter (·.1 ∉ reservedKeys)

/-- The record that follows one whose payload had service keys. -/
def conflictFields (ts : F) (seq : Nat) (actor kind : String) (data : Event F) : List (String × Value F) :=
  [("ts", .float ts), ("seq", .int (seq + 1)), ("actor", .str actor), ("kind", .str "journal_key_conflict"),
    ("requested_kind", .str kind), ("keys", .arr (((conflicts data).insertionSort (· ≤ ·)).map Value.str))]

private theorem elemsNodup_str (keys : List String) :
    Value.keysNodup.elemsNodup (keys.map (Value.str (F := F))) := by
  induction keys with
  | nil => trivial
  | cons k keys ih => exact ⟨trivial, ih⟩

private theorem recordFields_nodup (ts : F) (seq : Nat) (actor kind : String) (data : Event F) :
    (Value.obj (recordFields ts seq actor kind data)).keysNodup := by
  obtain ⟨hkeys, hfields⟩ := data.nodup
  rw [fieldsNodup_iff] at hfields
  refine ⟨?_, ?_⟩
  · rw [recordFields, List.map_append, List.nodup_append]
    refine ⟨by simp, ?_, ?_⟩
    · exact (List.Sublist.map Prod.fst List.filter_sublist).nodup hkeys
    · intro a ha b hb hab
      obtain ⟨f, hf, rfl⟩ := List.mem_map.1 hb
      have hnot : f.1 ∉ reservedKeys := by simpa using (List.mem_filter.1 hf).2
      exact hnot (by rw [← hab]; simpa [reservedKeys] using ha)
  · rw [fieldsNodup_iff]
    intro f hf
    rcases List.mem_append.1 hf with hf | hf
    · simp only [List.mem_cons, List.not_mem_nil, or_false] at hf
      rcases hf with rfl | rfl | rfl | rfl <;> trivial
    · exact hfields f (List.mem_filter.1 hf).1

private theorem conflictFields_nodup (ts : F) (seq : Nat) (actor kind : String) (data : Event F) :
    (Value.obj (conflictFields ts seq actor kind data)).keysNodup := by
  refine ⟨by simp [conflictFields], ?_⟩
  rw [fieldsNodup_iff]
  intro f hf
  simp only [conflictFields, List.mem_cons, List.not_mem_nil, or_false] at hf
  rcases hf with rfl | rfl | rfl | rfl | rfl | rfl
  any_goals trivial
  exact elemsNodup_str _

def record (ts : F) (seq : Nat) (actor kind : String) (data : Event F) : Event F :=
  ⟨recordFields ts seq actor kind data, recordFields_nodup ts seq actor kind data⟩

def conflictRecord (ts : F) (seq : Nat) (actor kind : String) (data : Event F) : Event F :=
  ⟨conflictFields ts seq actor kind data, conflictFields_nodup ts seq actor kind data⟩

/-- The line of an event, without its newline. -/
def Event.line [JsonFloat F] (e : Event F) : Line := dumps (.obj e.fields)

/-- The bytes of events, each on a line of its own. -/
def eventBytes [JsonFloat F] (events : List (Event F)) : Bytes := encode (join (events.map Event.line))

/-! ### The writer -/

structure JsonlJournal where
  path : String
  actor : String
  seq : Nat
  maxBytes : Nat
  maxFiles : Nat
  closed : Bool
  deriving DecidableEq, Repr

/-- The sidecar lock file of the writers of a journal. -/
def lockName (path : String) : String := path ++ ".lock"

/-- Opens a file for appending, creating it when it is not there. -/
def touch (file : String) (d : Dir) : Dir := if (d.lookup file).isSome then d else d.insert file []

/-- `JsonlJournal.__init__`: the lock file and the live file are created. -/
def openJournal (path actor : String) (maxBytes maxFiles : Nat) (d : Dir) : JsonlJournal × Dir :=
  (⟨path, actor, 0, maxBytes, maxFiles, false⟩, touch path (touch (lockName path) d))

def JsonlJournal.close (j : JsonlJournal) : JsonlJournal := { j with closed := true }

/-- The loop of the rotation from part `n` down to part 1. -/
def shiftParts (path : String) : Nat → FileM Unit
  | 0 => pure ()
  | n + 1 => do
    if ← fileExists (partName path (n + 1)) then
      replace (partName path (n + 1)) (partName path (n + 2))
    shiftParts path n

/-- `_rotate_if_full`. -/
def rotateIfFull (j : JsonlJournal) : FileM Unit := do
  match ← fileSize j.path with
  | none => pure ()
  | some size =>
    if size < j.maxBytes then
      pure ()
    else do
      if ← fileExists (partName j.path j.maxFiles) then
        unlink (partName j.path j.maxFiles)
      shiftParts j.path (j.maxFiles - 1)
      replace j.path (partName j.path 1)

/-- Where a call raises an OSError: when it takes the lock, at the file operation of the rotation after `k` that
succeed, when it opens the live file, or when it writes, after `n` of its bytes have reached the file. -/
inductive Fault
  | none
  | lock
  | rotate (k : Nat)
  | openLive
  | write (n : Nat)
  deriving DecidableEq, Repr

/-- The operations of the rotation that succeed. -/
def Fault.left : Fault → Option Nat
  | .rotate k => some k
  | _ => Option.none

def appendBytes (file : String) (bs : Bytes) (d : Dir) : Dir := d.insert file ((d.lookup file).getD [] ++ bs)

/-- The block of a call under the sidecar lock: `false` when it raises. -/
def appendLocked (j : JsonlJournal) (line : Bytes) (fault : Fault) (d : Dir) : Bool × Dir :=
  if fault = .lock then (false, d)
  else
    match (rotateIfFull j).run ⟨touch (lockName j.path) d, fault.left⟩ with
    | .error _ disk => (false, disk.dir)
    | .ok _ disk =>
      if fault = .openLive then (false, disk.dir)
      else
        let d := touch j.path disk.dir
        match fault with
        | .write n => (false, appendBytes j.path (line.take n) d)
        | _ => (true, appendBytes j.path line d)

inductive Outcome
  | returned
  /-- ValueError: the journal is closed. -/
  | closed
  | osError
  deriving DecidableEq, Repr

/-- The arguments of a call and the two clock readings it may take. -/
structure Call (F : Type) where
  kind : String
  data : Event F
  ts : F
  tsConflict : F

/-- The records a call writes. -/
def JsonlJournal.records (j : JsonlJournal) (c : Call F) : List (Event F) :=
  record c.ts (j.seq + 1) j.actor c.kind c.data ::
    (if conflicts c.data = [] then [] else [conflictRecord c.tsConflict (j.seq + 1) j.actor c.kind c.data])

/-- `JsonlJournal.__call__`. -/
def JsonlJournal.call [JsonFloat F] (j : JsonlJournal) (c : Call F) (fault : Fault) (d : Dir) :
    Outcome × JsonlJournal × Dir :=
  if j.closed then (.closed, j, d)
  else
    let line := eventBytes (j.records c)
    let j := { j with seq := j.seq + 1 }
    match appendLocked j line fault d with
    | (true, d) => (.returned, { j with seq := j.seq + (if conflicts c.data = [] then 0 else 1) }, d)
    | (false, d) => (.osError, j, d)

end IronHarness.Journal
