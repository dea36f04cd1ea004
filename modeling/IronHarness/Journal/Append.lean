import IronHarness.Journal.Rotate
import IronHarness.Journal.Reader

/-!
# What a call does to the slots

The lock file is no file of the chain, so a call changes the slots by its rotation and by the bytes it appends to the
live file (`appendLocked_cases`).
-/

namespace IronHarness.Journal

open ByteText Rotation TextLines JsonText

/-! ### The lock file -/

private theorem repr_ne_lock (i : Nat) : toString i ≠ "lock" := by
  intro h
  have hlist : Nat.toDigits 10 i = "lock".toList := by
    rw [← Nat.toList_repr]
    exact congrArg String.toList h
  have hl : 'l' ∈ Nat.toDigits 10 i := by
    rw [hlist]
    decide
  have := Nat.isDigit_of_mem_toDigits (by decide : 0 < 10) (by decide) hl
  revert this
  decide

theorem lockName_ne_partName (name : String) (i : Nat) : lockName name ≠ partName name i := by
  intro h
  have hsuffix : (".lock" : String) = "." ++ toString i := by
    have hlist := congrArg String.toList h
    simp only [lockName, partName, String.toList_append, List.append_assoc, List.append_cancel_left_eq] at hlist
    apply String.toList_inj.1
    rw [String.toList_append]
    exact hlist
  have hdigits : "lock" = toString i := by
    have hlist := congrArg String.toList hsuffix
    rw [String.toList_append] at hlist
    apply String.toList_inj.1
    exact (List.cons.inj hlist).2
  exact repr_ne_lock i hdigits.symm

theorem lockName_ne_self (name : String) : lockName name ≠ name := by
  intro h
  have hlen := congrArg String.length h
  rw [lockName, String.length_append] at hlen
  have : ".lock".length = 5 := rfl
  omega

private theorem lockName_ne (name : String) (i : Nat) : lockName name ≠ fileName name i := by
  unfold fileName
  split
  · exact lockName_ne_self name
  · exact lockName_ne_partName name i

variable {name : String} {d : Dir} {s : Slots Bytes}

@[simp] theorem slots_touch_lock : slots name (touch (lockName name) d) = slots name d := by
  unfold touch
  split
  · rfl
  · exact slots_insert_other (lockName_ne name)

theorem slots_touch_live (name : String) (d : Dir) : slots name (touch name d) = push (slots name d) [] := by
  have hlook : slots name d 0 = d.lookup name := rfl
  unfold touch push
  cases h : d.lookup name with
  | some bs =>
    rw [Option.isSome_some, if_pos rfl, hlook, h, Option.getD_some, List.append_nil]
    funext i
    rcases i with _ | i
    · rw [Function.update_self, hlook, h]
    · rw [Function.update_of_ne (by omega)]
  | none =>
    rw [Option.isSome_none, if_neg Bool.false_ne_true, hlook, h]
    exact slots_insert name d 0 _

theorem slots_appendBytes (bs : Bytes) :
    slots name (appendBytes name bs d) = push (slots name d) bs := slots_insert name d 0 _

theorem full_touch_lock (j : JsonlJournal) : full j (touch (lockName j.path) d) = full j d := by
  have hlook : (touch (lockName j.path) d).lookup j.path = d.lookup j.path := by
    have : slots j.path (touch (lockName j.path) d) 0 = slots j.path d 0 := by rw [slots_touch_lock]
    exact this
  rw [full, full, hlook]

/-! ### A call -/

/-- The slots after the rotation of a call. -/
def rotated (j : JsonlJournal) (d : Dir) : Slots Bytes :=
  if full j d then shifted 0 (max 1 j.maxFiles) (slots j.path d) else slots j.path d

/-- What the block of a call under the lock can do. -/
inductive Appended (j : JsonlJournal) (line : Bytes) (d : Dir) : Fault → Bool × Dir → Prop
  | lock : Appended j line d .lock (false, d)
  | rotate (k : Nat) (d' : Dir) (hfull : full j d = true)
      (hk : 1 ≤ j.maxFiles → k ≤ (sources (slots j.path d) j.maxFiles).length)
      (h : slots j.path d' = afterMoves (slots j.path d) j.maxFiles k) : Appended j line d (.rotate k) (false, d')
  | openLive (d' : Dir) (h : slots j.path d' = rotated j d) : Appended j line d .openLive (false, d')
  | write (n : Nat) (d' : Dir) (h : slots j.path d' = push (rotated j d) (line.take n)) :
      Appended j line d (.write n) (false, d')
  | done (fault : Fault) (d' : Dir) (hfault : fault = .none ∨ ∃ k, fault = .rotate k)
      (h : slots j.path d' = push (rotated j d) line) : Appended j line d fault (true, d')

/-- The rotation of a call, on the directory with the lock file. -/
private theorem rotate_call (j : JsonlJournal) (d : Dir) (left : Option Nat) :
    match (rotateIfFull j).run ⟨touch (lockName j.path) d, left⟩ with
    | .ok _ disk => slots j.path disk.dir = rotated j d
    | .error _ disk => full j d = true ∧
        ∃ k, left = some k ∧ (1 ≤ j.maxFiles → k ≤ (sources (slots j.path d) j.maxFiles).length) ∧
          slots j.path disk.dir = afterMoves (slots j.path d) j.maxFiles k := by
  have hspec := rotateIfFull_spec j (touch (lockName j.path) d) left
  rw [full_touch_lock] at hspec
  cases hfull : full j d with
  | true =>
    rw [hfull, if_pos rfl] at hspec
    cases hrun : (rotateIfFull j).run ⟨touch (lockName j.path) d, left⟩ with
    | ok u disk =>
      rw [hrun, Rotated, slots_touch_lock] at hspec
      dsimp only
      rw [rotated, hfull, if_pos rfl]
      exact hspec
    | error e disk =>
      rw [hrun, Rotated, slots_touch_lock] at hspec
      exact ⟨rfl, hspec⟩
  | false =>
    rw [hfull, if_neg Bool.false_ne_true] at hspec
    rw [hspec]
    dsimp only
    rw [rotated, hfull, if_neg Bool.false_ne_true, slots_touch_lock]

theorem appendLocked_cases (j : JsonlJournal) (line : Bytes) (fault : Fault) (d : Dir) :
    Appended j line d fault (appendLocked j line fault d) := by
  have hwrite : ∀ (d' : Dir) (bs : Bytes), slots j.path d' = rotated j d →
      slots j.path (appendBytes j.path bs (touch j.path d')) = push (rotated j d) bs := by
    intro d' bs hd'
    rw [slots_appendBytes, slots_touch_live, hd', push_push, List.nil_append]
  unfold appendLocked
  by_cases hlock : fault = .lock
  · subst hlock
    exact Appended.lock
  rw [if_neg hlock]
  have hrot := rotate_call j d fault.left
  cases hrun : (rotateIfFull j).run ⟨touch (lockName j.path) d, fault.left⟩ with
  | error e disk =>
    rw [hrun] at hrot
    obtain ⟨hfull, k, hk, hle, hslots⟩ := hrot
    cases fault with
    | rotate k' =>
      obtain rfl : k' = k := Option.some.inj hk
      exact Appended.rotate k' disk.dir hfull hle hslots
    | none => cases hk
    | lock => cases hk
    | openLive => cases hk
    | write n => cases hk
  | ok u disk =>
    rw [hrun] at hrot
    cases fault with
    | lock => exact absurd rfl hlock
    | openLive => exact Appended.openLive disk.dir hrot
    | write n => exact Appended.write n _ (hwrite disk.dir _ hrot)
    | none => exact Appended.done _ _ (Or.inl rfl) (hwrite disk.dir _ hrot)
    | rotate k => exact Appended.done _ _ (Or.inr ⟨k, rfl⟩) (hwrite disk.dir _ hrot)

end IronHarness.Journal
