import IronHarness.Lib.Bytes
import IronHarness.Lib.Weight

/-!
# Files under a root

A file system is a finite map from absolute paths to directories, files and symbolic links; a link holds what it
resolves to.  `Path.resolve` goes through a path name by name (`realpath`), and so does the system when a file is
opened (`stat`).  A path that is resolved has no link and no `..` in it (`realpath_real`), so the system finds under it
what is there (`stat_of_real`).
-/

namespace IronHarness.Sandbox

open ByteText Weight

/-- The names of a path from `/` on. -/
abbrev Path := List (List Char)

/-- A link holds the path that it resolves to, `none` where it goes round in a circle. -/
inductive Node
  | dir
  | file (data : Bytes)
  | link (target : Option Path)
  deriving DecidableEq

abbrev Fs := AList fun _ : Path => Node

def dotdot : List Char := ['.', '.']

/-! ### Paths -/

/-- `text.split("/")`. -/
def splitSlash : List Char → List (List Char)
  | [] => [[]]
  | c :: cs =>
    match splitSlash cs with
    | [] => [[c]]
    | name :: names => if c = '/' then [] :: name :: names else (c :: name) :: names

/-- The parts of a relative `Path`: without empty names and without `.`. -/
def parts (rel : List Char) : List (List Char) := (splitSlash rel).filter fun name => name ≠ [] ∧ name ≠ ['.']

/-- `os.path.realpath`: the names `rest` from the resolved path `path` on. -/
def realpath (fs : Fs) (path : Path) : List (List Char) → Option Path
  | [] => some path
  | name :: rest =>
    if name = dotdot then realpath fs path.dropLast rest
    else
      match fs.lookup (path ++ [name]) with
      | some (.link none) => none
      | some (.link (some target)) => realpath fs target rest
      | _ => realpath fs (path ++ [name]) rest

/-- What the system finds under a path. -/
def stat (fs : Fs) (path : Path) : Option Node := (realpath fs [] path).bind fs.lookup

/-- Neither a link nor `..` is on the path. -/
structure Real (fs : Fs) (path : Path) : Prop where
  plain : dotdot ∉ path
  noLink : ∀ q, q <+: path → ∀ target, fs.lookup q ≠ some (.link target)

/-- A file system whose links hold resolved paths. -/
def Resolved (fs : Fs) : Prop := ∀ p target, fs.lookup p = some (.link (some target)) → Real fs target

variable {fs : Fs} {path : Path} {rest : List (List Char)}

theorem Real.of_isPrefix {q : Path} (h : Real fs path) (hq : q <+: path) : Real fs q where
  plain := fun hmem => h.plain (hq.subset hmem)
  noLink := fun r hr => h.noLink r (hr.trans hq)

theorem Real.snoc (h : Real fs path) {name : List Char} (hname : name ≠ dotdot)
    (hlink : ∀ target, fs.lookup (path ++ [name]) ≠ some (.link target)) : Real fs (path ++ [name]) where
  plain := by
    rw [List.mem_append, List.mem_singleton]
    rintro (hmem | hmem)
    · exact h.plain hmem
    · exact hname hmem.symm
  noLink := by
    intro q hq
    rcases List.prefix_concat_iff.1 hq with rfl | hq
    · exact hlink
    · exact h.noLink q hq

/-- What is resolved from a path without links has no links. -/
theorem realpath_real (hfs : Resolved fs) {p : Path} (h : Real fs path) (hp : realpath fs path rest = some p) :
    Real fs p := by
  induction rest generalizing path with
  | nil =>
    obtain rfl := Option.some.inj hp
    exact h
  | cons name rest ih =>
    rw [realpath] at hp
    by_cases hname : name = dotdot
    · rw [if_pos hname] at hp
      exact ih (h.of_isPrefix (List.dropLast_prefix path)) hp
    · rw [if_neg hname] at hp
      match hlook : fs.lookup (path ++ [name]) with
      | some (.link none) =>
        rw [hlook] at hp
        cases hp
      | some (.link (some target)) =>
        rw [hlook] at hp
        exact ih (hfs _ target hlook) hp
      | none | some .dir | some (.file _) =>
        rw [hlook] at hp
        exact ih (h.snoc hname (by simp [hlook])) hp

private theorem realpath_of_real (h : Real fs (path ++ rest)) : realpath fs path rest = some (path ++ rest) := by
  induction rest generalizing path with
  | nil => rw [realpath, List.append_nil]
  | cons name rest ih =>
    have hname : name ≠ dotdot := by
      rintro rfl
      exact h.plain (by simp)
    have hlink := h.noLink (path ++ [name]) (by simp)
    rw [show path ++ name :: rest = path ++ [name] ++ rest by simp] at h ⊢
    rw [realpath, if_neg hname]
    match hlook : fs.lookup (path ++ [name]) with
    | some (.link target) => exact absurd hlook (hlink target)
    | none | some .dir | some (.file _) => exact ih h

theorem stat_of_real (h : Real fs path) : stat fs path = fs.lookup path := by
  have hwhole : realpath fs [] path = some path := realpath_of_real h
  rw [stat, hwhole]
  rfl

end IronHarness.Sandbox
