import IronHarness.Journal.Locks

/-!
# A call step by step

The block of a call under the sidecar lock as the single file operations it makes, so that other threads may act
between them.  Whatever the thread has done of its block, it is on its way through `appendLocked`, from the
directory it found when it took the lock (`Within`).
-/

namespace IronHarness.Journal

open ByteText Rotation

/-- Where a writer is in its block under the lock: at the size of the live file, at the oldest part, in the loop over
the parts, at the live file, at the opening of the live file, and at the bytes not yet written. -/
inductive Position
  | stat
  | probeOldest
  | unlinkOldest
  | probePart (i : Nat)
  | movePart (i : Nat)
  | moveLive
  | openLive
  | write (left : Bytes)
  | release (ok : Bool)
  deriving DecidableEq, Repr

/-- The next operation of the block, and where the writer is then.  The loop is at part `i`; it ends at part 0. -/
def Position.next (j : JsonlJournal) (line : Bytes) (d : Dir) : Position → Position × Dir
  | .stat =>
    match d.lookup j.path with
    | none => (.openLive, d)
    | some bs => (if bs.length < j.maxBytes then .openLive else .probeOldest, d)
  | .probeOldest =>
    (if (d.lookup (partName j.path j.maxFiles)).isSome then .unlinkOldest else .probePart (j.maxFiles - 1), d)
  | .unlinkOldest =>
    match d.lookup (partName j.path j.maxFiles) with
    | none => (.release false, d)
    | some _ => (.probePart (j.maxFiles - 1), d.erase (partName j.path j.maxFiles))
  | .probePart 0 => (.moveLive, d)
  | .probePart (i + 1) =>
    (if (d.lookup (partName j.path (i + 1))).isSome then .movePart (i + 1) else .probePart i, d)
  | .movePart i =>
    match d.lookup (partName j.path i) with
    | none => (.release false, d)
    | some bs => (.probePart (i - 1), moveFile (partName j.path i) (partName j.path (i + 1)) bs d)
  | .moveLive =>
    match d.lookup j.path with
    | none => (.release false, d)
    | some bs => (.openLive, moveFile j.path (partName j.path 1) bs d)
  | .openLive => (.write line, touch j.path d)
  | .write left => (.release true, appendBytes j.path left d)
  | .release ok => (.release ok, d)

/-- The next operation writes only the first `n` of its bytes. -/
def Position.chunk (j : JsonlJournal) (n : Nat) (d : Dir) : Position → Option (Position × Dir)
  | .write left => some (.write (left.drop n), appendBytes j.path (left.take n) d)
  | _ => none

/-- The next operation raises an OSError; a write adds nothing more. -/
def Position.raises (j : JsonlJournal) (d : Dir) : Position → Option (Position × Dir)
  | .unlinkOldest => some (.release false, d)
  | .movePart _ => some (.release false, d)
  | .moveLive => some (.release false, d)
  | .openLive => some (.release false, d)
  | .write _ => some (.release false, appendBytes j.path [] d)
  | _ => none

/-! ### Files that are not of the journal -/

variable {file : String}

private theorem lookup_moveFile {src dst : String} (bs : Bytes) (d : Dir) (hsrc : file ≠ src) (hdst : file ≠ dst) :
    (moveFile src dst bs d).lookup file = d.lookup file := by
  rw [moveFile, AList.lookup_insert_ne hdst, AList.lookup_erase_ne hsrc]

theorem lookup_touch {name : String} (d : Dir) (h : file ≠ name) : (touch name d).lookup file = d.lookup file := by
  unfold touch
  split
  · rfl
  · exact AList.lookup_insert_ne h

theorem touch_self {name : String} {d : Dir} (h : (d.lookup name).isSome) : touch name d = d := if_pos h

theorem isSome_lookup_touch (name : String) (d : Dir) : ((touch name d).lookup name).isSome := by
  unfold touch
  split
  · assumption
  · simp

/-- Opening a file removes none. -/
theorem isSome_touch {d : Dir} (name : String) (h : (d.lookup file).isSome) :
    ((touch name d).lookup file).isSome := by
  by_cases hname : file = name
  · subst hname
    exact isSome_lookup_touch file d
  · rwa [lookup_touch d hname]

theorem Position.lookup_next {j : JsonlJournal} (h : Foreign j.path file) (line : Bytes) (d : Dir) (pos : Position) :
    (pos.next j line d).2.lookup file = d.lookup file := by
  obtain ⟨hlive, hpart⟩ := h
  cases pos with
  | stat =>
    unfold Position.next
    dsimp only
    split <;> rfl
  | probeOldest => rfl
  | unlinkOldest =>
    unfold Position.next
    dsimp only
    split
    · rfl
    · exact AList.lookup_erase_ne (hpart _)
  | probePart i =>
    cases i <;> rfl
  | movePart i =>
    unfold Position.next
    dsimp only
    split
    · rfl
    · exact lookup_moveFile _ _ (hpart _) (hpart _)
  | moveLive =>
    unfold Position.next
    dsimp only
    split
    · rfl
    · exact lookup_moveFile _ _ hlive (hpart _)
  | openLive => exact lookup_touch d hlive
  | write left => exact AList.lookup_insert_ne hlive
  | release ok => rfl

theorem Position.lookup_chunk {j : JsonlJournal} {n : Nat} {pos : Position} {d : Dir} {x : Position × Dir}
    (h : Foreign j.path file) (hstep : pos.chunk j n d = some x) : x.2.lookup file = d.lookup file := by
  cases pos with
  | write left =>
    obtain rfl := Option.some.inj hstep
    exact AList.lookup_insert_ne h.1
  | _ => cases hstep

theorem Position.lookup_raises {j : JsonlJournal} {pos : Position} {d : Dir} {x : Position × Dir}
    (h : Foreign j.path file) (hstep : pos.raises j d = some x) : x.2.lookup file = d.lookup file := by
  cases pos with
  | write left =>
    obtain rfl := Option.some.inj hstep
    exact AList.lookup_insert_ne h.1
  | unlinkOldest => obtain rfl := Option.some.inj hstep; rfl
  | movePart i => obtain rfl := Option.some.inj hstep; rfl
  | moveLive => obtain rfl := Option.some.inj hstep; rfl
  | openLive => obtain rfl := Option.some.inj hstep; rfl
  | _ => cases hstep

/-! ### What is left of the rotation -/

/-- What is left of `_rotate_if_full`. -/
def Position.rest (j : JsonlJournal) : Position → FileM Unit
  | .stat => rotateIfFull j
  | .probeOldest => do
    if ← fileExists (partName j.path j.maxFiles) then
      unlink (partName j.path j.maxFiles)
    shiftParts j.path (j.maxFiles - 1)
    replace j.path (partName j.path 1)
  | .unlinkOldest => do
    unlink (partName j.path j.maxFiles)
    shiftParts j.path (j.maxFiles - 1)
    replace j.path (partName j.path 1)
  | .probePart i => do
    shiftParts j.path i
    replace j.path (partName j.path 1)
  | .movePart i => do
    replace (partName j.path i) (partName j.path (i + 1))
    shiftParts j.path (i - 1)
    replace j.path (partName j.path 1)
  | .moveLive => replace j.path (partName j.path 1)
  | _ => pure ()

variable {j : JsonlJournal} {line : Bytes} {d base : Dir} {pos : Position}

/-- The rotation that began at `base` has come to `pos`, and some operations of it have changed the directory. -/
def Rotating (j : JsonlJournal) (base : Dir) (pos : Position) (d : Dir) : Prop :=
  ∃ used, ∀ left : Option Nat,
    (rotateIfFull j).run ⟨touch (lockName j.path) base, left.map (· + used)⟩ = (pos.rest j).run ⟨d, left⟩

private theorem rotating_start : Rotating j base .stat (touch (lockName j.path) base) := by
  refine ⟨0, ?_⟩
  intro left
  cases left <;> rfl

/-- A position that only looks at the directory. -/
private theorem Rotating.look {pos' : Position} (h : Rotating j base pos d)
    (hrest : ∀ left, (pos.rest j).run ⟨d, left⟩ = (pos'.rest j).run ⟨d, left⟩) : Rotating j base pos' d := by
  obtain ⟨used, h⟩ := h
  refine ⟨used, ?_⟩
  intro left
  rw [h, hrest]

/-- A position that changes the directory. -/
private theorem Rotating.change {pos' : Position} {d' : Dir} (h : Rotating j base pos d)
    (hrest : ∀ left, (pos.rest j).run ⟨d, left.map (· + 1)⟩ = (pos'.rest j).run ⟨d', left⟩) :
    Rotating j base pos' d' := by
  obtain ⟨used, h⟩ := h
  refine ⟨1 + used, ?_⟩
  intro left
  have hmap : left.map (· + (1 + used)) = (left.map (· + 1)).map (· + used) := by
    cases left with
    | none => rfl
    | some k => simp [Nat.add_assoc]
  rw [hmap, h, hrest]

/-- A rotation that raises is a call that fails in its rotation. -/
private theorem Rotating.raises (h : Rotating j base pos d) (left : Option Nat)
    (hrest : (pos.rest j).run ⟨d, left⟩ = .error .raised ⟨d, left⟩) :
    ∃ fault, appendLocked j line fault base = (false, d) := by
  obtain ⟨used, h⟩ := h
  have hrun := h left
  rw [hrest] at hrun
  cases left with
  | none =>
    refine ⟨.none, ?_⟩
    unfold appendLocked
    rw [if_neg (by decide)]
    dsimp only [Fault.left]
    rw [Option.map_none] at hrun
    rw [hrun]
  | some k =>
    refine ⟨.rotate (k + used), ?_⟩
    unfold appendLocked
    rw [if_neg (by simp)]
    dsimp only [Fault.left]
    rw [Option.map_some] at hrun
    rw [hrun]

/-! ### Inside the block -/

/-- The writer has not opened the live file yet. -/
def Position.rotates : Position → Bool
  | .write _ => false
  | .release _ => false
  | _ => true

/-- The block that began at `base` has come to `pos`, with the directory `d`. -/
inductive Within (j : JsonlJournal) (line : Bytes) (base : Dir) : Position → Dir → Prop
  | rotating (pos : Position) (d : Dir) (hpos : pos.rotates = true) (h : Rotating j base pos d) :
      Within j line base pos d
  | opened (d : Dir) (h : Rotating j base .openLive d) : Within j line base (.write line) (touch j.path d)
  | writing (n : Nat) (d : Dir) (h : Rotating j base .openLive d) :
      Within j line base (.write (line.drop n)) (appendBytes j.path (line.take n) (touch j.path d))
  | ended (ok : Bool) (d : Dir) (h : ∃ fault, appendLocked j line fault base = (ok, d)) :
      Within j line base (.release ok) d

theorem within_start : Within j line base .stat (touch (lockName j.path) base) :=
  .rotating _ _ rfl rotating_start

private theorem appendBytes_appendBytes (file : String) (a b : Bytes) (d : Dir) :
    appendBytes file b (appendBytes file a d) = appendBytes file (a ++ b) d := by
  unfold appendBytes
  rw [AList.lookup_insert, AList.insert_insert, Option.getD_some, List.append_assoc]

/-- A rotation that has come to the opening of the live file has returned. -/
private theorem Rotating.returned (h : Rotating j base .openLive d) :
    (rotateIfFull j).run ⟨touch (lockName j.path) base, none⟩ = .ok () ⟨d, none⟩ := by
  obtain ⟨used, h⟩ := h
  exact h none

private theorem Rotating.appended (h : Rotating j base .openLive d) :
    appendLocked j line .none base = (true, appendBytes j.path line (touch j.path d)) := by
  unfold appendLocked
  rw [if_neg (by decide)]
  dsimp only [Fault.left]
  rw [h.returned]
  rfl

private theorem Rotating.torn (h : Rotating j base .openLive d) (n : Nat) :
    appendLocked j line (.write n) base = (false, appendBytes j.path (line.take n) (touch j.path d)) := by
  unfold appendLocked
  rw [if_neg (by simp)]
  dsimp only [Fault.left]
  rw [h.returned]
  rfl

private theorem Rotating.unopened (h : Rotating j base .openLive d) :
    appendLocked j line .openLive base = (false, d) := by
  unfold appendLocked
  rw [if_neg (by decide)]
  dsimp only [Fault.left]
  rw [h.returned]
  rfl

/-- An operation of the rotation, carried out. -/
private theorem Rotating.next (hpos : pos.rotates = true) (hopen : pos ≠ .openLive) (h : Rotating j base pos d) :
    Within j line base (pos.next j line d).1 (pos.next j line d).2 := by
  cases pos with
  | stat =>
    cases hlook : d.lookup j.path with
    | none =>
      have hnext : Position.stat.next j line d = (.openLive, d) := by simp [Position.next, hlook]
      rw [hnext]
      refine .rotating _ _ rfl (h.look ?_)
      intro left
      simp [Position.rest, rotateIfFull, fileSize, hlook, EStateM.run, bind, EStateM.bind]
    | some bs =>
      by_cases hsize : bs.length < j.maxBytes
      · have hnext : Position.stat.next j line d = (.openLive, d) := by simp [Position.next, hlook, hsize]
        rw [hnext]
        refine .rotating _ _ rfl (h.look ?_)
        intro left
        simp [Position.rest, rotateIfFull, fileSize, hlook, hsize, EStateM.run, bind, EStateM.bind]
      · have hnext : Position.stat.next j line d = (.probeOldest, d) := by simp [Position.next, hlook, hsize]
        rw [hnext]
        refine .rotating _ _ rfl (h.look ?_)
        intro left
        simp [Position.rest, rotateIfFull, fileSize, hlook, hsize, EStateM.run, bind, EStateM.bind]
  | probeOldest =>
    cases hlook : d.lookup (partName j.path j.maxFiles) with
    | none =>
      have hnext : Position.probeOldest.next j line d = (.probePart (j.maxFiles - 1), d) := by
        simp [Position.next, hlook]
      rw [hnext]
      refine .rotating _ _ rfl (h.look ?_)
      intro left
      simp [Position.rest, fileExists, hlook, EStateM.run, bind, EStateM.bind]
    | some bs =>
      have hnext : Position.probeOldest.next j line d = (.unlinkOldest, d) := by simp [Position.next, hlook]
      rw [hnext]
      refine .rotating _ _ rfl (h.look ?_)
      intro left
      simp [Position.rest, fileExists, hlook, EStateM.run, bind, EStateM.bind]
  | unlinkOldest =>
    cases hlook : d.lookup (partName j.path j.maxFiles) with
    | none =>
      have hnext : Position.unlinkOldest.next j line d = (.release false, d) := by simp [Position.next, hlook]
      rw [hnext]
      refine .ended _ _ (h.raises none ?_)
      simp [Position.rest, unlink, hlook, EStateM.run, bind, EStateM.bind]
    | some bs =>
      have hnext : Position.unlinkOldest.next j line d =
          (.probePart (j.maxFiles - 1), d.erase (partName j.path j.maxFiles)) := by
        simp [Position.next, hlook]
      rw [hnext]
      refine .rotating _ _ rfl (h.change ?_)
      intro left
      cases left <;> simp [Position.rest, unlink, attempt, hlook, EStateM.run, bind, EStateM.bind]
  | probePart i =>
    cases i with
    | zero =>
      refine .rotating _ _ rfl (h.look ?_)
      intro left
      simp [Position.rest, Position.next, shiftParts, EStateM.run, bind, EStateM.bind, pure, EStateM.pure]
    | succ i =>
      cases hlook : d.lookup (partName j.path (i + 1)) with
      | none =>
        have hnext : (Position.probePart (i + 1)).next j line d = (.probePart i, d) := by
          simp [Position.next, hlook]
        rw [hnext]
        refine .rotating _ _ rfl (h.look ?_)
        intro left
        simp [Position.rest, shiftParts, fileExists, hlook, EStateM.run, bind, EStateM.bind]
      | some bs =>
        have hnext : (Position.probePart (i + 1)).next j line d = (.movePart (i + 1), d) := by
          simp [Position.next, hlook]
        rw [hnext]
        refine .rotating _ _ rfl (h.look ?_)
        intro left
        have hreplace : replace (partName j.path (i + 1)) (partName j.path (i + 2)) ⟨d, left⟩ =
            replace (partName j.path (i + 1)) (partName j.path (i + 1 + 1)) ⟨d, left⟩ := rfl
        simp only [Position.rest, shiftParts, fileExists, hlook, EStateM.run, bind, EStateM.bind,
          Option.isSome_some, ↓reduceIte, hreplace, Nat.add_sub_cancel]
        cases replace (partName j.path (i + 1)) (partName j.path (i + 1 + 1)) ⟨d, left⟩ <;> rfl
  | movePart i =>
    cases hlook : d.lookup (partName j.path i) with
    | none =>
      have hnext : (Position.movePart i).next j line d = (.release false, d) := by simp [Position.next, hlook]
      rw [hnext]
      refine .ended _ _ (h.raises none ?_)
      simp [Position.rest, replace, hlook, EStateM.run, bind, EStateM.bind]
    | some bs =>
      have hnext : (Position.movePart i).next j line d =
          (.probePart (i - 1), moveFile (partName j.path i) (partName j.path (i + 1)) bs d) := by
        simp [Position.next, hlook]
      rw [hnext]
      refine .rotating _ _ rfl (h.change ?_)
      intro left
      cases left <;> simp [Position.rest, replace, attempt, hlook, EStateM.run, bind, EStateM.bind]
  | moveLive =>
    cases hlook : d.lookup j.path with
    | none =>
      have hnext : Position.moveLive.next j line d = (.release false, d) := by simp [Position.next, hlook]
      rw [hnext]
      refine .ended _ _ (h.raises none ?_)
      simp [Position.rest, replace, hlook, EStateM.run]
    | some bs =>
      have hnext : Position.moveLive.next j line d = (.openLive, moveFile j.path (partName j.path 1) bs d) := by
        simp [Position.next, hlook]
      rw [hnext]
      refine .rotating _ _ rfl (h.change ?_)
      intro left
      cases left <;> simp [Position.rest, replace, attempt, hlook, EStateM.run, pure, EStateM.pure]
  | openLive => exact absurd rfl hopen
  | write left => cases hpos
  | release ok => cases hpos

/-- An operation of the block, carried out. -/
theorem Within.next (h : Within j line base pos d) :
    Within j line base (pos.next j line d).1 (pos.next j line d).2 := by
  cases h with
  | rotating _ _ hpos h =>
    by_cases hopen : pos = .openLive
    · subst hopen
      exact .opened d h
    · exact h.next hpos hopen
  | opened d h => exact .ended true _ ⟨.none, h.appended⟩
  | writing n d h =>
    have hall : appendBytes j.path (line.drop n) (appendBytes j.path (line.take n) (touch j.path d)) =
        appendBytes j.path line (touch j.path d) := by
      rw [appendBytes_appendBytes, List.take_append_drop]
    refine .ended true _ ⟨.none, ?_⟩
    exact h.appended.trans (by rw [← hall]; rfl)
  | ended ok _ h => exact .ended ok d h

/-- Only some of the bytes are written. -/
theorem Within.chunk {pos' : Position} {d' : Dir} {n : Nat} (h : Within j line base pos d)
    (hstep : pos.chunk j n d = some (pos', d')) : Within j line base pos' d' := by
  cases h with
  | rotating _ _ hpos =>
    cases pos with
    | write left => cases hpos
    | _ => cases hstep
  | opened d h =>
    obtain ⟨rfl, rfl⟩ := Prod.mk.inj (Option.some.inj hstep)
    exact .writing n d h
  | writing k d h =>
    obtain ⟨rfl, rfl⟩ := Prod.mk.inj (Option.some.inj hstep)
    rw [appendBytes_appendBytes, ← List.take_add, List.drop_drop]
    exact .writing (k + n) d h
  | ended ok _ h => cases hstep

/-- An operation raises. -/
theorem Within.raises {pos' : Position} {d' : Dir} (h : Within j line base pos d)
    (hstep : pos.raises j d = some (pos', d')) : Within j line base pos' d' := by
  cases h with
  | rotating _ _ hpos h =>
    cases pos with
    | unlinkOldest =>
      obtain ⟨rfl, rfl⟩ := Prod.mk.inj (Option.some.inj hstep)
      refine .ended _ _ (h.raises (some 0) ?_)
      cases hlook : d.lookup (partName j.path j.maxFiles) <;>
        simp [Position.rest, unlink, attempt, hlook, EStateM.run, bind, EStateM.bind]
    | movePart i =>
      obtain ⟨rfl, rfl⟩ := Prod.mk.inj (Option.some.inj hstep)
      refine .ended _ _ (h.raises (some 0) ?_)
      cases hlook : d.lookup (partName j.path i) <;>
        simp [Position.rest, replace, attempt, hlook, EStateM.run, bind, EStateM.bind]
    | moveLive =>
      obtain ⟨rfl, rfl⟩ := Prod.mk.inj (Option.some.inj hstep)
      refine .ended _ _ (h.raises (some 0) ?_)
      cases hlook : d.lookup j.path <;> simp [Position.rest, replace, attempt, hlook, EStateM.run]
    | openLive =>
      obtain ⟨rfl, rfl⟩ := Prod.mk.inj (Option.some.inj hstep)
      exact .ended false _ ⟨.openLive, h.unopened⟩
    | write left => cases hpos
    | _ => cases hstep
  | opened d h =>
    obtain ⟨rfl, rfl⟩ := Prod.mk.inj (Option.some.inj hstep)
    exact .ended false _ ⟨.write 0, h.torn 0⟩
  | writing n d h =>
    obtain ⟨rfl, rfl⟩ := Prod.mk.inj (Option.some.inj hstep)
    rw [appendBytes_appendBytes, List.append_nil]
    exact .ended false _ ⟨.write n, h.torn n⟩
  | ended ok _ h => cases hstep

end IronHarness.Journal
