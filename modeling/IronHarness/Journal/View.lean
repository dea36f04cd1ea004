import IronHarness.Journal.Reads

/-!
# What the viewer sees

`load_events_lenient` looks for the files of the chain before it takes the lock.  When no file of the chain is removed,
renamed or created from its first probe until it has the lock, it returns the events of the files at one moment
(`view_is_snapshot`); a rotation in between makes it miss a part (`view_misses_rotation`).
-/

namespace IronHarness.Journal

open ByteText JsonText TextLines Rotation Runs

variable {F : Type} [JsonFloat F] {path : String} {d base : Dir} {s s' : Sys F} {a : Task}

/-- The events of the lines of a file that are JSON objects, in order. -/
def lenientEvents (bs : Bytes) : List (List (String × Value F)) := (lenientLines (lenientText bs)).1

/-- The events that can be read of the files of a journal, oldest part first. -/
def onDisk (path : String) (d : Dir) : List (List (String × Value F)) :=
  upTo lenientEvents (slots path d) (chainHeight d path)

private theorem loadEventsLenient_ok (h : chainFiles d path ≠ []) :
    ∃ skipped, loadEventsLenient d path = .ok (onDisk (F := F) path d, skipped) := by
  have hheight := height_chainHeight d path
  have hread : ∀ k, (∀ i, 1 ≤ i → i ≤ k → slots path d i ≠ none) →
      ∃ skipped, readLenient d (slotFiles d path k) = .ok (upTo (lenientEvents (F := F)) (slots path d) k, skipped) := by
    intro k
    induction k with
    | zero =>
      intro _
      have hlive : slots path d 0 = d.lookup path := rfl
      rw [slotFiles, upTo, items, hlive]
      cases hlook : d.lookup path with
      | none => exact ⟨0, rfl⟩
      | some bs =>
        refine ⟨(lenientLines (F := F) (lenientText bs)).2, ?_⟩
        simp [readLenient, hlook, Except.map, lenientEvents]
    | succ k ih =>
      intro hk
      obtain ⟨skipped, hrest⟩ := ih fun i hi hik => hk i hi (by omega)
      obtain ⟨bs, hbs⟩ := Option.ne_none_iff_exists'.1 (hk (k + 1) (by omega) (Nat.le_refl _))
      have hlook : d.lookup (partName path (k + 1)) = some bs := hbs
      refine ⟨(lenientLines (F := F) (lenientText bs)).2 + skipped, ?_⟩
      simp [slotFiles, readLenient, hlook, hrest, upTo, items, hbs, Except.map, lenientEvents]
  rw [loadEventsLenient, if_neg (by rwa [List.isEmpty_iff]), chainFiles_eq hheight]
  exact hread _ hheight.1

/-! ### The files of the chain stay -/

/-- The next step of the thread removes, renames or creates a file of the chain. -/
def Pc.alters (path : String) (d : Dir) : Pc F → Bool
  | .opening .openLive => (d.lookup path).isNone
  | .appending _ _ .unlinkOldest => true
  | .appending _ _ (.movePart _) => true
  | .appending _ _ .moveLive => true
  | .appending _ _ .openLive => (d.lookup path).isNone
  | _ => false

/-- No file of the chain is removed, renamed or created while a viewer is between its first probe and its lock. -/
def ChainStill (path : String) (s : Sys F) (a : Task) : Prop :=
  (s.pcs a.thread).alters path s.dir = true → ∀ t pos, s.pcs t ≠ .seeking .loadEventsLenient pos

/-- The live file is there while bytes are written. -/
private theorem Within.live {j : JsonlJournal} {line left : Bytes} (h : Within j line base (.write left) d) :
    (d.lookup j.path).isSome := by
  cases h with
  | rotating _ _ hpos => cases hpos
  | opened d => exact isSome_lookup_touch j.path d
  | writing n d =>
    unfold appendBytes
    rw [AList.lookup_insert]
    rfl

private theorem sameFiles_appendBytes (bs : Bytes) (h : (d.lookup path).isSome) :
    SameFiles path d (appendBytes path bs d) := by
  have hlive : slots path d 0 = d.lookup path := rfl
  intro i
  rw [slots_appendBytes, push]
  rcases Nat.eq_zero_or_pos i with rfl | hi
  · rw [Function.update_self, hlive, h]
    rfl
  · rw [Function.update_of_ne (by omega)]

private theorem Rule.sameFiles {pc pc' : Pc F} {d' : Dir} (h : Rule path d pc (.edit d' pc'))
    (hj : pc.OfJournal path) (hin : pc.Inside path base d) (hstill : pc.alters path d = false) :
    SameFiles path d d' := by
  have hrefl : SameFiles path d d := sameFiles_of_slots rfl
  have htouch : (d.lookup path).isNone = false → SameFiles path d (touch path d) := by
    intro hnone
    rw [touch_self (Option.isNone_eq_false_iff.1 hnone)]
    exact hrefl
  cases h with
  | openLive => exact htouch hstill
  | appendNext j line pos hpos =>
    obtain rfl : j.path = path := hj
    cases pos with
    | stat =>
      unfold Position.next
      dsimp only
      split <;> exact hrefl
    | probeOldest => exact hrefl
    | probePart i => cases i <;> exact hrefl
    | openLive => exact htouch hstill
    | write left => exact sameFiles_appendBytes left (Within.live hin)
    | release ok => exact absurd rfl (hpos ok)
    | unlinkOldest => cases hstill
    | movePart i => cases hstill
    | moveLive => cases hstill
  | appendChunk j line pos n x hx =>
    obtain rfl : j.path = path := hj
    cases pos with
    | write left =>
      obtain rfl := Option.some.inj hx
      exact sameFiles_appendBytes _ (Within.live hin)
    | _ => cases hx
  | appendRaises j line pos x hx =>
    obtain rfl : j.path = path := hj
    cases pos with
    | write left =>
      obtain rfl := Option.some.inj hx
      exact sameFiles_appendBytes _ (Within.live hin)
    | openLive => obtain rfl := Option.some.inj hx; exact hrefl
    | unlinkOldest => cases hstill
    | movePart i => cases hstill
    | moveLive => cases hstill
    | _ => cases hx

/-- A step that alters no file of the chain leaves the same files. -/
private theorem step_sameFiles {d₀ : Dir} (ho : Orderly path s) (hatomic : Atomic path d₀ base s)
    (hstill : (s.pcs a.thread).alters path s.dir = false) (hstep : s.step path a = some s') :
    SameFiles path s.dir s'.dir := by
  obtain ⟨mv, hrule, -, rfl⟩ := step_cases hstep
  cases mv with
  | goto pc => exact sameFiles_of_slots rfl
  | release k pc => exact sameFiles_of_slots rfl
  | edit d' pc => exact hrule.sameFiles (ho.journal _) (hatomic.inside _ hrule.locks.2) hstill
  | acquire k pc =>
    rcases hrule.slots with hlock | hslots
    · rw [hrule.locks.1] at hlock
      cases hlock
    · exact sameFiles_of_slots hslots

/-! ### Runs -/

variable {d₀ : Dir}

private theorem seen_view {tasks : List Task}
    (hguard : Along (Sys.step path) (fun s a => NoLateLock path s a ∧ ChainStill path s a) (Sys.init d₀ : Sys F) tasks)
    (hrun : run (Sys.step path) (Sys.init d₀) tasks = some s) :
    Seen path d₀ (fun req => req = .loadEventsLenient ∧ req.lock path = lockName path) s := by
  refine Along.invariant (I := Seen path d₀ _) ?_ hguard hrun (seen_init path d₀ _)
  intro s a s' ha hstep h
  refine h.step (fun req hreq => hreq.2) ha.1 hstep ?_
  intro t req pos hpc hreq hright
  obtain ⟨base, hatomic⟩ := h.atomic
  have hstill : (s.pcs a.thread).alters path s.dir = false := by
    rw [Bool.eq_false_iff]
    intro halters
    exact ha.2 halters t pos (by rw [hpc, hreq.1])
  exact hright.congr (step_sameFiles h.orderly hatomic hstill hstep)

/-- The viewer of a journal whose name does not end in a number.  In every run, from any directory, in which the lock
file is not created while a reader that has found none is in its block, and no file of the chain is removed, renamed
or created while a viewer is between its first probe and its lock, a viewer returns the events that can be read of the
files at one moment, at which no writer is in its block and the files are as whole operations of the writers have left
them; it finds no journal only where there is none. -/
theorem view_is_snapshot (path : String) (hname : ¬ EndsInNumber path) (d₀ : Dir) {tasks : List Task} {s : Sys F}
    (hguard : Along (Sys.step path) (fun s a => NoLateLock path s a ∧ ChainStill path s a) (Sys.init d₀ : Sys F)
      tasks) (hrun : run (Sys.step path) (Sys.init d₀) tasks = some s) :
    (∀ t held result, s.pcs t = .reading .loadEventsLenient held (.release result) →
      result = loadEventsLenient s.dir path ∧ (∃ skipped, result = .ok (onDisk path s.dir, skipped)) ∧
        (∀ u, (s.pcs u).writes = false) ∧ ∃ ops : List Whole, s.dir = ops.foldl (Whole.apply path) d₀) ∧
    ∀ t, s.pcs t = .seeking .loadEventsLenient .missing → chainFiles s.dir path = [] := by
  have hseen := seen_view hguard hrun
  have hlock : Request.loadEventsLenient.lock path = lockName path := readerLock_eq_iff.2 hname
  constructor
  · intro t held result hpc
    have hright := hseen.right t
    rw [hpc] at hright
    obtain ⟨hfinds, hresult⟩ := hright ⟨rfl, hlock⟩
    obtain ⟨skipped, hok⟩ := loadEventsLenient_ok (F := F) (hfinds rfl)
    exact ⟨hresult, ⟨skipped, hresult.trans hok⟩, hseen.between hpc hlock⟩
  · intro t hpc
    have hright := hseen.right t
    rw [hpc] at hright
    exact (hright ⟨rfl, hlock⟩).2

/-- A call appends without a rotation while the viewer looks for the files. -/
def viewDuringAppend : List Task :=
  [.start 1 (.read .loadEventsLenient)] ++ steps 1 1 ++
    [.start 0 (.append { smallFiles "j" with maxBytes := 1000 } lineB)] ++ steps 0 5 ++ steps 1 5

private theorem not_endsInNumber_j : ¬ EndsInNumber "j" := readerLock_eq_iff.1 rfl

set_option maxRecDepth 4000 in
theorem view_is_snapshot_append :
    ∃ s : Sys LitFloat, run (Sys.step "j") (Sys.init lockedFiles) viewDuringAppend = some s ∧
      s.pcs 1 = .reading .loadEventsLenient true (.release (.ok ([[("a", .int 1)], [("b", .int 2)]], 0))) ∧
      loadEventsLenient s.dir "j" = (.ok ([[("a", .int 1)], [("b", .int 2)]], 0) : Loaded LitFloat) := by
  have hsome : (run (Sys.step "j") (Sys.init lockedFiles : Sys LitFloat) viewDuringAppend).isSome = true := rfl
  obtain ⟨s, hrun⟩ := Option.isSome_iff_exists.1 hsome
  have hpc : (run (Sys.step "j") (Sys.init lockedFiles : Sys LitFloat) viewDuringAppend).map (fun s => s.pcs 1) =
      some (.reading .loadEventsLenient true (.release (.ok ([[("a", .int 1)], [("b", .int 2)]], 0)))) := rfl
  rw [hrun] at hpc
  replace hpc := Option.some.inj hpc
  have hcalm : Along (Sys.step "j") (fun s a => (s.pcs a.thread).alters "j" s.dir = false)
      (Sys.init lockedFiles : Sys LitFloat) viewDuringAppend := by decide
  have hguard : Along (Sys.step "j") (fun s a => NoLateLock "j" s a ∧ ChainStill "j" s a)
      (Sys.init lockedFiles : Sys LitFloat) viewDuringAppend := by
    apply (along_noLateLock (orderly_init _ _) rfl).and
    apply hcalm.imp
    intro s a hfalse htrue
    rw [hfalse] at htrue
    cases htrue
  have hview := (view_is_snapshot "j" not_endsInNumber_j lockedFiles hguard hrun).1 1 true _ hpc
  exact ⟨s, hrun, hpc, hview.1.symm⟩

/-- A rotation between the probes of the viewer and its lock. -/
def viewDuringRotation : List Task :=
  [.start 1 (.read .loadEventsLenient)] ++ steps 1 2 ++ [.start 0 (.append (smallFiles "j") lineB)] ++ steps 0 8 ++
    steps 1 4

/-- What the viewer would return with no writer at work, before each step of that run and after the last one. -/
private def viewsDuringRotation : List (Option (Loaded LitFloat)) :=
  (List.range (viewDuringRotation.length + 1)).map fun n =>
    (run (Sys.step "j") (Sys.init lockedFiles : Sys LitFloat) (viewDuringRotation.take n)).map
      fun s => loadEventsLenient s.dir "j"

set_option maxRecDepth 4000 in
private theorem viewsDuringRotation_eq :
    viewsDuringRotation =
      List.replicate 11 (some (.ok ([[("a", .int 1)]], 0))) ++
        List.replicate 6 (some (.ok ([[("a", .int 1)], [("b", .int 2)]], 0))) := rfl

set_option maxRecDepth 4000 in
/-- The viewer misses the part with the first event: at no moment of the run does the journal hold what it returns. -/
theorem view_misses_rotation :
    (run (Sys.step "j") (Sys.init lockedFiles : Sys LitFloat) viewDuringRotation).map (fun s => s.pcs 1) =
      some (.reading .loadEventsLenient true (.release (.ok ([[("b", .int 2)]], 0)))) ∧
    ∀ n (s : Sys LitFloat), n ≤ viewDuringRotation.length →
      run (Sys.step "j") (Sys.init lockedFiles) (viewDuringRotation.take n) = some s →
      loadEventsLenient (F := LitFloat) s.dir "j" ≠ .ok ([[("b", .int 2)]], 0) := by
  refine ⟨rfl, ?_⟩
  intro n s hn hrun heq
  have hmem : (run (Sys.step "j") (Sys.init lockedFiles : Sys LitFloat) (viewDuringRotation.take n)).map
      (fun s => loadEventsLenient s.dir "j") ∈ viewsDuringRotation :=
    List.mem_map_of_mem (List.mem_range.2 (Nat.lt_succ_of_le hn))
  rw [hrun, Option.map_some, heq, viewsDuringRotation_eq, List.mem_append, List.mem_replicate,
    List.mem_replicate] at hmem
  rcases hmem with ⟨-, h⟩ | ⟨-, h⟩ <;> simp at h

end IronHarness.Journal
