import Mathlib.Data.List.Infix
import Mathlib.Data.List.Lex
import Mathlib.Data.String.Basic
import IronHarness.Lib.Runs
import IronHarness.Sandbox.Tree

/-!
# The file sandbox

`FileSandbox`: `write_file` and `delete_file` take turns under a lock, `read_file` and `list_dir` come in between.
`write_file` is several steps: everything up to `write_bytes` (`beginWrite`), the opening of the file, the writing of
its bytes in pieces, and its end; each may fail.  `rglob` passes over the directories that may not be listed, and so
does the scan for the quota.  In every run nothing outside the root is touched, and a write that raises before
`write_bytes` leaves the files as they are; where no file is passed over at a write, the files under the root stay
within the quota (`sandbox_contract`).
-/

namespace IronHarness.Sandbox

open ByteText Weight Runs

/-! ### The sandbox -/

/-- What a call raises. -/
inductive Raised
  | sandboxViolation
  | quotaExceeded
  | fileExists
  | notADirectory
  | osError
  /-- a zero byte in the path -/
  | valueError
  /-- a circle of links -/
  | runtimeError
  deriving DecidableEq

inductive LimitKind
  | bytes
  | files
  deriving DecidableEq

/-- The events of `on_event`. -/
inductive Event
  | sandboxViolation (path : String) (resolved : Option Path)
  | quotaDenied (path : String) (kind : LimitKind) (used : Nat) (adding : Option Nat) (limit : Nat)
  | fileWriteFailed (path : String) (error : Raised)
  | fileWrite (path : String) (bytes : Nat)
  | fileReadFailed (path : String)
  | fileRead (path : String) (bytes : Nat)
  | fileListFailed (path : String)
  | fileList (path : String) (count : Nat)
  | fileDeleteFailed (path : String)
  | fileDelete (path : String)
  deriving DecidableEq

/-- `dirSize` is the `st_size` of a directory. -/
structure FileSandbox where
  root : Path
  maxBytes : Nat
  maxFiles : Nat
  dirSize : Path → Nat

/-- A `write_file` that has come to `write_bytes`; `rest` is what the opened file lacks, `none` before it is open. -/
structure Writing where
  rel : String
  target : Path
  data : Bytes
  rest : Option Bytes
  deriving DecidableEq

/-- `touched` is no part of the program: the files that were opened or deleted and the directories that were made. -/
structure World where
  fs : Fs
  writing : Option Writing
  touched : List Path
  events : List Event

def World.start (fs : Fs) : World := ⟨fs, none, [], []⟩

def World.emit (w : World) (e : Event) : World := { w with events := w.events ++ [e] }

/-- `resolve`. -/
def FileSandbox.resolve (sb : FileSandbox) (w : World) (rel : String) : Except Raised Path × World :=
  if rel.toList.head? = some '/' then (.error .sandboxViolation, w.emit (.sandboxViolation rel none))
  else if '\x00' ∈ rel.toList then (.error .valueError, w)
  else
    match realpath w.fs [] (sb.root ++ parts rel.toList) with
    | none => (.error .runtimeError, w)
    | some resolved =>
      if sb.root <+: resolved then (.ok resolved, w)
      else (.error .sandboxViolation, w.emit (.sandboxViolation rel (some resolved)))

/-- `st_size`. -/
def FileSandbox.size (sb : FileSandbox) (path : Path) : Node → Nat
  | .file data => data.length
  | .dir => sb.dirSize path
  | .link _ => 0

/-- The bytes of the files under the root. -/
def usedBytes (fs : Fs) (root : Path) : Nat :=
  weigh (fun p _ =>
    if root <+: p then
      match stat fs p with
      | some (.file data) => data.length
      | _ => 0
    else 0) fs

def usedFiles (fs : Fs) (root : Path) : Nat :=
  weigh (fun p _ =>
    if root <+: p then
      match stat fs p with
      | some (.file _) => 1
      | _ => 0
    else 0) fs

/-- `rglob` from a directory on does not come to a path, since one of the directories on the way, itself the first of
them, may not be listed. -/
def skipped (unlisted : List Path) (top p : Path) : Bool :=
  p.dropLast.inits.any fun q => top.isPrefixOf q && unlisted.contains q

/-- The bytes that `_usage` counts. -/
def scannedBytes (unlisted : List Path) (fs : Fs) (root : Path) : Nat :=
  weigh (fun p _ =>
    if root <+: p ∧ skipped unlisted root p = false then
      match stat fs p with
      | some (.file data) => data.length
      | _ => 0
    else 0) fs

/-- The files that `_usage` counts. -/
def scannedFiles (unlisted : List Path) (fs : Fs) (root : Path) : Nat :=
  weigh (fun p _ =>
    if root <+: p ∧ skipped unlisted root p = false then
      match stat fs p with
      | some (.file _) => 1
      | _ => 0
    else 0) fs

/-- `_check_quota`; `unlisted` are the directories that may not be listed. -/
def FileSandbox.checkQuota (sb : FileSandbox) (w : World) (unlisted : List Path) (extraBytes newFiles : Nat)
    (path : String) : Except Raised Unit × World :=
  let usedBytes := scannedBytes unlisted w.fs sb.root
  let usedFiles := scannedFiles unlisted w.fs sb.root
  if sb.maxBytes < usedBytes + extraBytes then
    (.error .quotaExceeded, w.emit (.quotaDenied path .bytes usedBytes (some extraBytes) sb.maxBytes))
  else if sb.maxFiles < usedFiles + newFiles then
    (.error .quotaExceeded, w.emit (.quotaDenied path .files usedFiles none sb.maxFiles))
  else (.ok (), w)

/-- The directories that `mkdir(parents=True)` has to make. -/
def missingDirs (fs : Fs) (path : Path) : List Path := path.inits.filter fun p => stat fs p = none

/-- A directory of the path is a file. -/
def blocked (fs : Fs) (path : Path) : Bool := path.inits.any fun p =>
  match stat fs p with
  | some (.file _) => true
  | _ => false

def World.makeDir (w : World) (p : Path) : World := { w with fs := w.fs.insert p .dir, touched := w.touched ++ [p] }

/-- `path.mkdir(parents=True, exist_ok=True)`; with `some k` it fails after `k` directories. -/
def World.mkdir (w : World) (path : Path) : Option Nat → Bool × World
  | none => if blocked w.fs path then (false, w) else (true, (missingDirs w.fs path).foldl World.makeDir w)
  | some k => if blocked w.fs path then (false, w) else (false, ((missingDirs w.fs path).take k).foldl World.makeDir w)

/-- An OSError before `write_bytes`: a size or a directory cannot be read, or a directory not be made. -/
inductive WriteFault
  | stat
  | mkdir (made : Nat)
  deriving DecidableEq

def WriteFault.made : Option WriteFault → Option Nat
  | some (.mkdir k) => some k
  | _ => none

/-- The `try` block of `write_file` up to `write_bytes`. -/
def FileSandbox.prepare (sb : FileSandbox) (w : World) (rel : String) (target : Path) (data : Bytes)
    (unlisted : List Path) (fault : Option WriteFault) : Except Raised Path × World :=
  if fault = some .stat then (.error .osError, w.emit (.fileWriteFailed rel .osError))
  else
    let found := stat w.fs target
    let adding := data.length - (found.map (sb.size target)).getD 0
    match sb.checkQuota w unlisted adding (if found.isSome then 0 else 1) rel with
    | (.error e, w) => (.error e, w)
    | (.ok (), w) =>
      match w.mkdir target.dropLast (WriteFault.made fault) with
      | (true, w) => (.ok target, w)
      | (false, w) => (.error .osError, w.emit (.fileWriteFailed rel .osError))

/-- `write_file` up to `write_bytes`. -/
def FileSandbox.beginWrite (sb : FileSandbox) (w : World) (rel : String) (data : Bytes) (overwrite : Bool)
    (unlisted : List Path) (fault : Option WriteFault) : Except Raised Path × World :=
  match sb.resolve w rel with
  | (.error e, w) => (.error e, w)
  | (.ok target, w) =>
    if (stat w.fs target).isSome && !overwrite then
      (.error .fileExists, w.emit (.fileWriteFailed rel .fileExists))
    else sb.prepare w rel target data unlisted fault

/-- The file is opened for writing: created, or cut to nothing. -/
def World.openFile (w : World) (wr : Writing) : World :=
  match stat w.fs wr.target with
  | some .dir => { w.emit (.fileWriteFailed wr.rel .osError) with writing := none }
  | _ =>
    { w with
      fs := w.fs.insert wr.target (.file [])
      touched := w.touched ++ [wr.target]
      writing := some { wr with rest := some wr.data } }

/-- The next `n` bytes are written. -/
def World.put (w : World) (wr : Writing) (rest : Bytes) (n : Nat) : World :=
  match w.fs.lookup wr.target with
  | some (.file content) =>
    { w with
      fs := w.fs.insert wr.target (.file (content ++ rest.take n))
      writing := some { wr with rest := some (rest.drop n) } }
  | _ => w

/-- `read_file`; the system may refuse it. -/
def FileSandbox.readFile (sb : FileSandbox) (w : World) (rel : String) (refused : Bool) :
    Except Raised Bytes × World :=
  match sb.resolve w rel with
  | (.error e, w) => (.error e, w)
  | (.ok target, w) =>
    match stat w.fs target, refused with
    | some (.file data), false =>
      (.ok data, { w.emit (.fileRead rel data.length) with touched := w.touched ++ [target] })
    | _, _ => (.error .osError, w.emit (.fileReadFailed rel))

/-- The texts of `list_dir`, in the order of `sorted`. -/
def listing (unlisted : List Path) (fs : Fs) (root target : Path) : List (List Char) :=
  ((fs.keys.filter fun p => target <+: p ∧ p ≠ target ∧ skipped unlisted target p = false).map fun p =>
    List.intercalate ['/'] (p.drop root.length)).mergeSort fun a b => decide (a ≤ b)

/-- `list_dir`; the system may fail under it. -/
def FileSandbox.listDir (sb : FileSandbox) (w : World) (rel : String) (unlisted : List Path) (refused : Bool) :
    Except Raised (List (List Char)) × World :=
  match sb.resolve w rel with
  | (.error e, w) => (.error e, w)
  | (.ok target, w) =>
    if stat w.fs target = some .dir then
      if refused then (.error .osError, w.emit (.fileListFailed rel))
      else
        let entries := listing unlisted w.fs sb.root target
        (.ok entries, w.emit (.fileList rel entries.length))
    else (.error .notADirectory, w.emit (.fileListFailed rel))

/-- `delete_file`; the system may refuse it. -/
def FileSandbox.deleteFile (sb : FileSandbox) (w : World) (rel : String) (refused : Bool) :
    Except Raised Unit × World :=
  match sb.resolve w rel with
  | (.error e, w) => (.error e, w)
  | (.ok target, w) =>
    match w.fs.lookup target, refused with
    | some (.file _), false =>
      (.ok (), { w.emit (.fileDelete rel) with fs := w.fs.erase target, touched := w.touched ++ [target] })
    | _, _ => (.error .osError, w.emit (.fileDeleteFailed rel))

inductive Act
  | write (rel : String) (data : Bytes) (overwrite : Bool) (unlisted : List Path) (fault : Option WriteFault)
  | openFile
  | put (n : Nat)
  /-- the opening or the writing raises -/
  | fail
  | done
  | read (rel : String) (refused : Bool)
  | list (rel : String) (unlisted : List Path) (refused : Bool)
  | delete (rel : String) (refused : Bool)

/-- One step; a write or a delete waits until nobody has the lock. -/
def FileSandbox.step (sb : FileSandbox) (w : World) : Act → Option World
  | .write rel data overwrite unlisted fault =>
    match w.writing with
    | some _ => none
    | none =>
      match sb.beginWrite w rel data overwrite unlisted fault with
      | (.ok target, w) => some { w with writing := some ⟨rel, target, data, none⟩ }
      | (.error _, w) => some w
  | .openFile =>
    match w.writing with
    | some ⟨rel, target, data, none⟩ => some (w.openFile ⟨rel, target, data, none⟩)
    | _ => none
  | .put n =>
    match w.writing with
    | some ⟨rel, target, data, some rest⟩ => some (w.put ⟨rel, target, data, some rest⟩ rest n)
    | _ => none
  | .fail =>
    match w.writing with
    | some wr => some { w.emit (.fileWriteFailed wr.rel .osError) with writing := none }
    | none => none
  | .done =>
    match w.writing with
    | some ⟨rel, _, data, some []⟩ => some { w.emit (.fileWrite rel data.length) with writing := none }
    | _ => none
  | .read rel refused => some (sb.readFile w rel refused).2
  | .list rel unlisted refused => some (sb.listDir w rel unlisted refused).2
  | .delete rel refused =>
    match w.writing with
    | some _ => none
    | none => some (sb.deleteFile w rel refused).2

/-- `rglob` comes to every file under the root. -/
def SeesAll (unlisted : List Path) (fs : Fs) (root : Path) : Prop :=
  ∀ p data, root <+: p → stat fs p = some (.file data) → skipped unlisted root p = false

/-- The scan of a write sees every file. -/
def FileSandbox.Counts (sb : FileSandbox) (w : World) : Act → Prop
  | .write _ _ _ unlisted _ => SeesAll unlisted w.fs sb.root
  | _ => True

end IronHarness.Sandbox
