import IronHarness.Journal.Concurrent

/-!
# The blocks of a journal exclude each other

A thread holds the lock of the block it is in (`Orderly`), so at most one writer is in its block.  Then the directory
is what whole operations have made of the first one, one after the other, and what the thread in its block has done
since it took the lock (`Atomic`).
-/

namespace IronHarness.Journal

open ByteText JsonText Rotation

variable {F : Type}

/-! ### Locks -/

/-- The lock that a thread holds. -/
def Pc.lock (path : String) : Pc F → Option String
  | .opening .releaseFirst => some (lockName path)
  | .opening .openLive => some (lockName path)
  | .opening .release => some (lockName path)
  | .appending _ _ _ => some (lockName path)
  | .reading req true _ => some (req.lock path)
  | _ => none

/-- How a move changes the lock of its thread; only the holder of the lock of the writers changes files. -/
def Move.Locks (path : String) (pc : Pc F) : Move F → Prop
  | .goto pc' => pc'.lock path = pc.lock path
  | .edit _ pc' => pc'.lock path = pc.lock path ∧ pc.lock path = some (lockName path)
  | .acquire k pc' => pc.lock path = none ∧ pc'.lock path = some k
  | .release k pc' => pc.lock path = some k ∧ pc'.lock path = none

variable {path : String} {d : Dir} {t : Nat} {mv : Move F} {pc pc' : Pc F}

private theorem lock_of_ready (h : pc.ready = true) : pc.lock path = none := by
  cases pc with
  | idle => rfl
  | returned req result => rfl
  | opening pos => cases h
  | calling j line => cases h
  | appending j line pos => cases h
  | seeking req pos => cases h
  | reading req held pos => cases h

private theorem lock_of_start {op : Op} (h : op.start path = some pc) : pc.lock path = none := by
  cases op with
  | openWriter => cases h; rfl
  | append j line =>
    unfold Op.start at h
    dsimp only at h
    split at h <;> cases h
    rfl
  | read req => cases h; rfl

private theorem lock_reading (path : String) (req : Request) (held : Bool) (pos pos' : ReadPos F) :
    (Pc.reading req held pos).lock path = (Pc.reading req held pos').lock path := by
  cases held <;> rfl

variable [JsonFloat F] {s s' : Sys F} {a : Task}

theorem Rule.locks (h : Rule path d pc mv) : mv.Locks path pc := by
  cases h with
  | start _ pc' op hready hpc => exact (lock_of_start hpc).trans (lock_of_ready hready).symm
  | openFails pos hpos => rcases hpos with rfl | rfl <;> rfl
  | readLook req held => exact lock_reading ..
  | readFound req held => exact lock_reading ..
  | readFile req held => exact lock_reading ..
  | readError req held => exact lock_reading ..
  | readEnd req held => exact lock_reading ..
  | openLiveFails => rfl
  | callFails => rfl
  | seekLook => rfl
  | seekMissing => rfl
  | seekFound => rfl
  | missing => rfl
  | lockFound => rfl
  | lockAbsent => rfl
  | readReturn => rfl
  | _ => exact ⟨rfl, rfl⟩

omit [JsonFloat F] in
private theorem owned_move {holder : Mutex.Table String Nat} {pcs : Nat → Pc F}
    (howned : Mutex.Owned (Pc.lock path) holder pcs) (hlocks : mv.Locks path (pcs t))
    (hfree : mv.blocked holder = false) :
    Mutex.Owned (Pc.lock path) (mv.holder t holder) (Function.update pcs t mv.pc) := by
  cases mv with
  | goto pc => exact howned.stay hlocks
  | edit d pc => exact howned.stay hlocks.1
  | acquire lock pc => exact howned.acquire hlocks.1 (Option.isNone_iff_eq_none.1 (Option.isSome_eq_false_iff.1 hfree)) hlocks.2
  | release lock pc => exact howned.release hlocks.1 hlocks.2

/-! ### Order -/

/-- The journal object of a thread writes to this journal. -/
def Pc.OfJournal (path : String) : Pc F → Prop
  | .calling j _ => j.path = path
  | .appending j _ _ => j.path = path
  | _ => True

/-- The threads hold the locks of their blocks, the lock of the writers is a file when it is held, and so is a lock
that a reader has found and waits for. -/
structure Orderly (path : String) (s : Sys F) : Prop where
  owned : Mutex.Owned (Pc.lock path) s.holder s.pcs
  journal : ∀ t, (s.pcs t).OfJournal path
  present : ∀ t, s.holder (lockName path) = some t → (s.dir.lookup (lockName path)).isSome
  waiting : ∀ t req files, s.pcs t = .seeking req (.acquire files) → (s.dir.lookup (req.lock path)).isSome

omit [JsonFloat F] in
theorem orderly_init (path : String) (d : Dir) : Orderly path (Sys.init d : Sys F) := by
  constructor
  · exact Mutex.owned_free fun _ => rfl
  · intro t
    trivial
  · intro t ht
    cases ht
  · intro t req files ht
    cases ht

private theorem Rule.journal (h : Rule path d pc mv) (hj : pc.OfJournal path) : mv.pc.OfJournal path := by
  cases h with
  | start _ pc' op hready hpc =>
    cases op with
    | openWriter => cases hpc; trivial
    | append j line =>
      unfold Op.start at hpc
      dsimp only at hpc
      split at hpc
      · cases hpc
        assumption
      · cases hpc
    | read req => cases hpc; trivial
  | callAcquire => exact hj
  | appendNext => exact hj
  | appendChunk => exact hj
  | appendRaises => exact hj
  | _ => trivial

/-- A move removes no file that is not of the journal. -/
private theorem Rule.keeps {file : String} (h : Rule path d pc mv) (hj : pc.OfJournal path)
    (hfile : Foreign path file) (hsome : (d.lookup file).isSome) : ((mv.dir d).lookup file).isSome := by
  cases h with
  | openAcquireFirst => exact isSome_touch _ hsome
  | openAcquire => exact isSome_touch _ hsome
  | openLive => exact isSome_touch _ hsome
  | callAcquire j line => exact isSome_touch _ hsome
  | readAcquire req files => exact isSome_touch _ hsome
  | appendNext j line pos =>
    obtain rfl : j.path = path := hj
    exact (congrArg Option.isSome (Position.lookup_next hfile line d pos)).trans hsome
  | appendChunk j line pos n x hx =>
    obtain rfl : j.path = path := hj
    exact (congrArg Option.isSome (Position.lookup_chunk hfile hx)).trans hsome
  | appendRaises j line pos x hx =>
    obtain rfl : j.path = path := hj
    exact (congrArg Option.isSome (Position.lookup_raises hfile hx)).trans hsome
  | _ => exact hsome

theorem foreign_lock (path : String) (req : Request) : Foreign path (req.lock path) := by
  cases req with
  | readEvents i => exact foreign_readerLock path i
  | readEventsChain => exact foreign_readerLock path 0
  | loadEventsLenient => exact foreign_readerLock path 0

/-- A reader comes to wait for a lock file when it has found it. -/
private theorem Rule.found {req : Request} {files : Option (List String)} (h : Rule path d pc mv)
    (hpc : mv.pc = .seeking req (.acquire files)) : (d.lookup (req.lock path)).isSome := by
  cases h with
  | start _ pc' op hready hstart =>
    cases op with
    | openWriter => cases hstart; cases hpc
    | append j line =>
      unfold Op.start at hstart
      dsimp only at hstart
      split at hstart <;> cases hstart
      cases hpc
    | read req' =>
      cases hstart
      cases req' <;> cases hpc
  | lockFound req' files' hlock =>
    cases hpc
    exact hlock
  | _ => cases hpc

/-- A file that is not of the journal stays. -/
theorem Orderly.keeps {file : String} (h : Orderly path s) (hstep : s.step path a = some s')
    (hfile : Foreign path file) (hsome : (s.dir.lookup file).isSome) : (s'.dir.lookup file).isSome := by
  obtain ⟨mv, hrule, -, rfl⟩ := step_cases hstep
  exact hrule.keeps (h.journal _) hfile hsome

theorem Orderly.step (h : Orderly path s) (hstep : s.step path a = some s') : Orderly path s' := by
  obtain ⟨mv, hrule, hfree, rfl⟩ := step_cases hstep
  have hkeeps : ∀ {file}, Foreign path file → (s.dir.lookup file).isSome →
      ((mv.dir s.dir).lookup file).isSome := fun hfile => hrule.keeps (h.journal _) hfile
  constructor
  · exact owned_move h.owned hrule.locks hfree
  · intro t
    by_cases ht : t = a.thread
    · subst ht
      simp only [Function.update_self]
      exact hrule.journal (h.journal _)
    · simp only [Function.update_of_ne ht]
      exact h.journal t
  · intro t ht
    -- whoever holds the lock held it before, or has opened its file just now
    cases mv with
    | goto pc => exact h.present t ht
    | edit d pc => exact hkeeps (foreign_lockName path) (h.present t ht)
    | acquire lock pc =>
      by_cases hlock : lockName path = lock
      · subst hlock
        exact isSome_lookup_touch _ _
      · have hold : s.holder (lockName path) = some t := by
          simpa [Move.holder, Mutex.acquire, hlock] using ht
        exact isSome_touch _ (h.present t hold)
    | release lock pc =>
      by_cases hlock : lockName path = lock
      · subst hlock
        simp [Move.holder, Mutex.release] at ht
      · have hold : s.holder (lockName path) = some t := by
          simpa [Move.holder, Mutex.release, hlock] using ht
        exact h.present t hold
  · intro t req files ht
    by_cases hta : t = a.thread
    · subst hta
      simp only [Function.update_self] at ht
      exact hkeeps (foreign_lock path req) (hrule.found ht)
    · simp only [Function.update_of_ne hta] at ht
      exact hkeeps (foreign_lock path req) (h.waiting t req files ht)

/-! ### Whole operations -/

/-- What a thread does to the directory in one block: the first block of the constructor, which creates the lock
file, its second one, or the block of a call. -/
inductive Whole
  | lock
  | openWriter
  | append (j : JsonlJournal) (line : Bytes) (fault : Fault)

def Whole.apply (path : String) (d : Dir) : Whole → Dir
  | .lock => touch (lockName path) d
  | .openWriter => touch path (touch (lockName path) d)
  | .append j line fault => (appendLocked j line fault d).2

/-- The block that a thread is in began at `base`. -/
def Pc.Inside (path : String) (base d : Dir) : Pc F → Prop
  | .opening .releaseFirst => d = touch (lockName path) base
  | .opening .openLive => d = touch (lockName path) base
  | .opening .release => d = touch (lockName path) base ∨ d = touch path (touch (lockName path) base)
  | .appending j line pos => Within j line base pos d
  | _ => d = base

/-- Whole operations have led to `base`; whoever holds the lock of the writers has begun there. -/
structure Atomic (path : String) (d₀ base : Dir) (s : Sys F) : Prop where
  whole : ∃ ops : List Whole, base = ops.foldl (Whole.apply path) d₀
  inside : ∀ t, (s.pcs t).lock path = some (lockName path) → (s.pcs t).Inside path base s.dir
  free : s.holder (lockName path) = none → s.dir = base

omit [JsonFloat F] in
theorem atomic_init (path : String) (d : Dir) : Atomic path d d (Sys.init d : Sys F) :=
  ⟨⟨[], rfl⟩, fun _ h => (nomatch h), fun _ => rfl⟩

variable {base : Dir}

private theorem Rule.inside_goto (h : Rule path d pc (.goto pc')) (hlock : pc'.lock path = some (lockName path))
    (hin : pc.Inside path base d) : pc'.Inside path base d := by
  cases h with
  | start _ _ op hready hpc => rw [lock_of_start hpc] at hlock; cases hlock
  | openFails pos hpos => cases hlock
  | openLiveFails => exact Or.inl hin
  | callFails => cases hlock
  | seekLook => cases hlock
  | seekMissing => cases hlock
  | seekFound => cases hlock
  | missing => cases hlock
  | lockFound => cases hlock
  | lockAbsent => cases hlock
  | readReturn => cases hlock
  | readLook => exact hin
  | readFound => exact hin
  | readFile => exact hin
  | readError => exact hin
  | readEnd => exact hin

private theorem Rule.inside_edit {d' : Dir} (h : Rule path d pc (.edit d' pc'))
    (hin : pc.Inside path base d) : pc'.Inside path base d' := by
  cases h with
  | openLive =>
    obtain rfl : d = touch (lockName path) base := hin
    exact Or.inr rfl
  | appendNext j line pos => exact Within.next hin
  | appendChunk j line pos n x hx => exact Within.chunk hin hx
  | appendRaises j line pos x hx => exact Within.raises hin hx

private theorem Rule.inside_acquire (h : Rule path d pc (.acquire (lockName path) pc')) (hj : pc.OfJournal path)
    (hwait : ∀ req files, pc = .seeking req (.acquire files) → (d.lookup (req.lock path)).isSome) :
    pc'.Inside path d (touch (lockName path) d) := by
  generalize hk : lockName path = k at h
  cases h with
  | openAcquireFirst => rfl
  | openAcquire => rfl
  | callAcquire j line =>
    obtain rfl : j.path = path := hj
    exact within_start
  | readAcquire req files =>
    exact touch_self (hwait req files rfl)

private theorem Rule.inside_release {k : String} (h : Rule path d pc (.release k pc')) (hin : pc.Inside path base d) :
    ∃ ops : List Whole, d = ops.foldl (Whole.apply path) base := by
  cases h with
  | openReleaseFirst => exact ⟨[.lock], hin⟩
  | openRelease =>
    rcases hin with hin | hin
    · exact ⟨[.lock], hin⟩
    · exact ⟨[.openWriter], hin⟩
  | appendRelease j line ok =>
    cases hin with
    | rotating _ _ hpos => cases hpos
    | ended _ _ h =>
      obtain ⟨fault, hfault⟩ := h
      refine ⟨[.append j line fault], ?_⟩
      exact (congrArg Prod.snd hfault).symm
  | readRelease req result => exact ⟨[], hin⟩

/-- A lock other than that of the writers is a reader's, and its file is there. -/
private theorem Rule.acquire_other {k : String} (h : Rule path d pc (.acquire k pc')) (hk : k ≠ lockName path)
    (hwait : ∀ req files, pc = .seeking req (.acquire files) → (d.lookup (req.lock path)).isSome) :
    touch k d = d := by
  cases h with
  | openAcquireFirst => exact absurd rfl hk
  | openAcquire => exact absurd rfl hk
  | callAcquire => exact absurd rfl hk
  | readAcquire req files => exact touch_self (hwait req files rfl)

theorem Atomic.step {d₀ : Dir} (h : Atomic path d₀ base s) (ho : Orderly path s)
    (hstep : s.step path a = some s') : ∃ base', Atomic path d₀ base' s' := by
  obtain ⟨mv, hrule, hfree, rfl⟩ := step_cases hstep
  have hlocks := hrule.locks
  have hother : (s.pcs a.thread).lock path = some (lockName path) →
      ∀ t, t ≠ a.thread → (s.pcs t).lock path ≠ some (lockName path) :=
    fun ha t ht hlock => ht (ho.owned.exclusive hlock ha)
  cases mv with
  | goto pc =>
    refine ⟨base, h.whole, ?_, h.free⟩
    intro t hlock
    by_cases ht : t = a.thread
    · subst ht
      simp only [Function.update_self] at hlock ⊢
      exact hrule.inside_goto hlock (h.inside _ (hlocks ▸ hlock))
    · simp only [Function.update_of_ne ht] at hlock ⊢
      exact h.inside t hlock
  | edit d pc =>
    refine ⟨base, h.whole, ?_, ?_⟩
    · intro t hlock
      by_cases ht : t = a.thread
      · subst ht
        simp only [Function.update_self] at hlock ⊢
        exact hrule.inside_edit (h.inside _ hlocks.2)
      · simp only [Function.update_of_ne ht] at hlock
        exact absurd hlock (hother hlocks.2 t ht)
    · intro hnone
      have hholds := (ho.owned _ _).1 hlocks.2
      change s.holder (lockName path) = none at hnone
      rw [hnone] at hholds
      cases hholds
  | acquire k pc =>
    have hnone : s.holder k = none := Option.isNone_iff_eq_none.1 (Option.isSome_eq_false_iff.1 hfree)
    by_cases hk : k = lockName path
    · subst hk
      obtain rfl := h.free hnone
      refine ⟨s.dir, h.whole, ?_, ?_⟩
      · intro t hlock
        by_cases ht : t = a.thread
        · subst ht
          simp only [Function.update_self] at hlock ⊢
          exact hrule.inside_acquire (ho.journal _) (ho.waiting _)
        · simp only [Function.update_of_ne ht] at hlock
          have hholds := (ho.owned t _).1 hlock
          rw [hnone] at hholds
          cases hholds
      · intro hfree'
        simp [Move.holder, Mutex.acquire] at hfree'
    · have hsame : touch k s.dir = s.dir := hrule.acquire_other hk (ho.waiting _)
      refine ⟨base, h.whole, ?_, ?_⟩
      · intro t hlock
        simp only [Move.dir, hsame]
        by_cases ht : t = a.thread
        · subst ht
          simp only [Function.update_self] at hlock
          have : some k = some (lockName path) := hlocks.2.symm.trans hlock
          exact absurd (Option.some.inj this) hk
        · simp only [Function.update_of_ne ht] at hlock ⊢
          exact h.inside t hlock
      · intro hfree'
        simp only [Move.dir, hsame]
        apply h.free
        simpa [Move.holder, Mutex.acquire, Ne.symm hk] using hfree'
  | release k pc =>
    by_cases hk : k = lockName path
    · subst hk
      obtain ⟨ops, hops⟩ := hrule.inside_release (h.inside _ hlocks.1)
      obtain ⟨ops₀, hops₀⟩ := h.whole
      refine ⟨s.dir, ⟨ops₀ ++ ops, ?_⟩, ?_, fun _ => rfl⟩
      · rw [List.foldl_append, ← hops₀]
        exact hops
      · intro t hlock
        by_cases ht : t = a.thread
        · subst ht
          simp only [Function.update_self] at hlock
          have : none = some (lockName path) := hlocks.2.symm.trans hlock
          cases this
        · simp only [Function.update_of_ne ht] at hlock
          exact absurd hlock (hother hlocks.1 t ht)
    · refine ⟨base, h.whole, ?_, ?_⟩
      · intro t hlock
        by_cases ht : t = a.thread
        · subst ht
          simp only [Function.update_self] at hlock
          have : none = some (lockName path) := hlocks.2.symm.trans hlock
          cases this
        · simp only [Function.update_of_ne ht] at hlock ⊢
          exact h.inside t hlock
      · intro hfree'
        apply h.free
        simpa [Move.holder, Mutex.release, Ne.symm hk] using hfree'

end IronHarness.Journal
