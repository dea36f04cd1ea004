import Mathlib.Data.List.AList
import IronHarness.Lib.Bytes
import IronHarness.Lib.Rotation

/-!
# The files of a journal

A directory is a finite map from file names to contents.  The journal `name` has the live file `name` and the archived
parts `name.1`, `name.2`, …; seen by number they are slots (`slots`), and the file operations of the writer are
updates of slots.  A file operation may raise an OSError: a disk carries the number of operations that still succeed.
-/

namespace IronHarness.Journal

open ByteText Rotation

/-- File names and contents. -/
abbrev Dir := AList fun _ : String => Bytes

/-- `f"{name}.{i}"`. -/
def partName (name : String) (i : Nat) : String := name ++ "." ++ toString i

/-- The file of slot `i`: the live file, or part `i`. -/
def fileName (name : String) (i : Nat) : String := if i = 0 then name else partName name i

/-- The files of the journal `name` by their number. -/
def slots (name : String) (d : Dir) : Slots Bytes := fun i => d.lookup (fileName name i)

/-! ### File operations -/

/-- A directory, and the number of file operations that still succeed (`none`: all of them). -/
structure Disk where
  dir : Dir
  left : Option Nat

inductive OSError
  | raised
  deriving DecidableEq

abbrev FileM := EStateM OSError Disk

/-- A file operation that changes the directory, or raises and changes nothing. -/
def attempt (f : Dir → Dir) : FileM Unit := fun disk =>
  match disk.left with
  | none => .ok () ⟨f disk.dir, none⟩
  | some 0 => .error .raised disk
  | some (k + 1) => .ok () ⟨f disk.dir, some k⟩

def fileExists (file : String) : FileM Bool := fun disk => .ok (disk.dir.lookup file).isSome disk

/-- `path.stat().st_size`, `none` where it raises. -/
def fileSize (file : String) : FileM (Option Nat) := fun disk => .ok ((disk.dir.lookup file).map List.length) disk

def unlink (file : String) : FileM Unit := fun disk =>
  match disk.dir.lookup file with
  | none => .error .raised disk
  | some _ => attempt (·.erase file) disk

def moveFile (src dst : String) (bs : Bytes) (d : Dir) : Dir := (d.erase src).insert dst bs

def replace (src dst : String) : FileM Unit := fun disk =>
  match disk.dir.lookup src with
  | none => .error .raised disk
  | some bs => attempt (moveFile src dst bs) disk

/-! ### File names -/

private theorem length_partName (name : String) (i : Nat) : name.length < (partName name i).length := by
  simp only [partName, String.length_append]
  have : ".".length = 1 := rfl
  omega

theorem partName_ne (name : String) (i : Nat) : partName name i ≠ name := by
  intro h
  have := length_partName name i
  rw [h] at this
  exact Nat.lt_irrefl _ this

theorem partName_inj {name : String} {i j : Nat} (h : partName name i = partName name j) : i = j := by
  have hrepr : Nat.repr i = Nat.repr j := by
    simpa [partName] using h
  have hdigits : Nat.toDigits 10 i = Nat.toDigits 10 j := by
    rw [← Nat.toList_repr, ← Nat.toList_repr, hrepr]
  have hi : Nat.ofDigitChars 10 (Nat.toDigits 10 i) 0 = i := Nat.ofDigitChars_ten_toDigits
  rw [hdigits, Nat.ofDigitChars_ten_toDigits] at hi
  exact hi.symm

private theorem fileName_inj {name : String} {i j : Nat} (h : fileName name i = fileName name j) : i = j := by
  unfold fileName at h
  split at h <;> split at h
  · omega
  · exact absurd h.symm (partName_ne name j)
  · exact absurd h (partName_ne name i)
  · exact partName_inj h

@[simp] theorem fileName_zero (name : String) : fileName name 0 = name := rfl

@[simp] theorem fileName_succ (name : String) (i : Nat) : fileName name (i + 1) = partName name (i + 1) := rfl

theorem fileName_of_pos {name : String} {i : Nat} (hi : 1 ≤ i) : fileName name i = partName name i :=
  if_neg (by omega)

/-! ### Operations on slots -/

variable {name : String} {d : Dir} {i j : Nat} {bs : Bytes}

theorem slots_erase (name : String) (d : Dir) (i : Nat) : slots name (d.erase (fileName name i)) = Function.update (slots name d) i none := by
  funext j
  by_cases h : j = i
  · subst h
    simp [slots]
  · have hne : fileName name j ≠ fileName name i := fun he => h (fileName_inj he)
    simp [slots, h, AList.lookup_erase_ne hne]

theorem slots_insert (name : String) (d : Dir) (i : Nat) (bs : Bytes) :
    slots name (d.insert (fileName name i) bs) = Function.update (slots name d) i (some bs) := by
  funext j
  by_cases h : j = i
  · subst h
    simp [slots]
  · have hne : fileName name j ≠ fileName name i := fun he => h (fileName_inj he)
    simp [slots, h, AList.lookup_insert_ne hne]

theorem slots_moveFile (name : String) (d : Dir) (i j : Nat) (bs : Bytes) : slots name (moveFile (fileName name i) (fileName name j) bs d) =
    Function.update (Function.update (slots name d) i none) j (some bs) := by
  rw [moveFile, slots_insert, slots_erase]

/-- A file that is neither the live file nor a part is in no slot. -/
theorem slots_insert_other {file : String} (h : ∀ i, file ≠ fileName name i) :
    slots name (d.insert file bs) = slots name d := by
  funext j
  simp [slots, AList.lookup_insert_ne (h j).symm]

theorem slots_erase_other {file : String} (h : ∀ i, file ≠ fileName name i) :
    slots name (d.erase file) = slots name d := by
  funext j
  simp [slots, AList.lookup_erase_ne (h j).symm]

end IronHarness.Journal
