import IronHarness.Journal.Exclusion

/-!
# What a read sees

A reader that holds the lock of the writers, or that has found no lock file and is not overtaken by a writer that
creates it, sees one directory from the beginning of its block to the end: its result is that of the reading function
on the directory (`reads_between_appends`).  What a reader has done so far is right for a directory (`Pc.Right`) when
the rest, done on that directory, leads to that result.
-/

namespace IronHarness.Journal

open ByteText JsonText TextLines Rotation Runs

variable {F : Type} [JsonFloat F]

/-- The reading function on one directory, with no writer at work. -/
def Request.atOnce (path : String) (d : Dir) : Request → Loaded F
  | .readEvents i => (Journal.readEvents d (fileName path i)).map fun events => (events, 0)
  | .readEventsChain => (Journal.readEventsChain d path).map fun events => (events, 0)
  | .loadEventsLenient => Journal.loadEventsLenient d path

/-- The files that are read. -/
def Request.files (path : String) (d : Dir) : Request → List String
  | .readEvents i => [fileName path i]
  | _ => chainFiles d path

/-- The files known at the lock; the viewer has found them. -/
def Request.given (path : String) (d : Dir) : Request → Option (List String)
  | .readEvents i => some [fileName path i]
  | .readEventsChain => none
  | .loadEventsLenient => some (chainFiles d path)

/-- Files read one after the other, after events and skipped lines of others. -/
def readFrom (read : String → Loaded F) : List String → List (List (String × Value F)) → Nat → Loaded F
  | [], got, skipped => .ok (got, skipped)
  | file :: files, got, skipped =>
    match read file with
    | .ok (events, n) => readFrom read files (got ++ events) (skipped + n)
    | .error e => .error e

/-! ### One file after the other -/

variable {path : String} {d d' : Dir} {req : Request}

private theorem readFrom_strict (hreq : req ≠ .loadEventsLenient) (files : List String)
    (got : List (List (String × Value F))) :
    readFrom (fun file => req.readFile d file) files got 0 =
      (files.mapM (Journal.readEvents d)).map fun events => (got ++ events.flatten, 0) := by
  have hread : ∀ file, (req.readFile d file : Loaded F) = (Journal.readEvents d file).map fun events => (events, 0) := by
    intro file
    cases req with
    | loadEventsLenient => exact absurd rfl hreq
    | readEvents i => rfl
    | readEventsChain => rfl
  induction files generalizing got with
  | nil => simp [readFrom, Except.map, pure, Except.pure]
  | cons file files ih =>
    rw [readFrom, hread, List.mapM_cons]
    cases Journal.readEvents (F := F) d file with
    | error e => rfl
    | ok events =>
      simp only [Except.map, Nat.add_zero] at ih ⊢
      rw [ih]
      cases files.mapM (Journal.readEvents (F := F) d) with
      | error e => rfl
      | ok rest => simp [bind, Except.bind, pure, Except.pure]

private theorem readFrom_lenient (files : List String) (got : List (List (String × Value F))) (skipped : Nat) :
    readFrom (fun file => Request.loadEventsLenient.readFile d file) files got skipped =
      (readLenient d files).map fun r => (got ++ r.1, skipped + r.2) := by
  induction files generalizing got skipped with
  | nil => simp [readFrom, readLenient, Except.map]
  | cons file files ih =>
    rw [readFrom, readLenient]
    cases hlook : d.lookup file with
    | none =>
      have hread : (Request.loadEventsLenient.readFile d file : Loaded F) = .error (.notFound file) := by
        simp [Request.readFile, hlook]
      rw [hread]
      rfl
    | some bs =>
      have hread : (Request.loadEventsLenient.readFile d file : Loaded F) = .ok (lenientLines (lenientText bs)) := by
        simp [Request.readFile, hlook]
      rw [hread]
      dsimp only
      rw [ih]
      cases readLenient (F := F) d files with
      | error e => rfl
      | ok r => simp [Except.map, Nat.add_assoc]

/-- The viewer finds a file of the journal. -/
def Request.Finds (path : String) (d : Dir) (req : Request) : Prop :=
  req = .loadEventsLenient → chainFiles d path ≠ []

private theorem readFrom_files (hfinds : req.Finds path d) :
    readFrom (fun file => req.readFile d file) (req.files path d) [] 0 = (req.atOnce path d : Loaded F) := by
  cases req with
  | readEvents i =>
    rw [readFrom_strict (by simp)]
    simp only [Request.files, Request.atOnce, List.mapM_cons, List.mapM_nil]
    cases Journal.readEvents (F := F) d (fileName path i) with
    | error e => rfl
    | ok events => simp [bind, Except.bind, pure, Except.pure, Except.map]
  | readEventsChain =>
    rw [readFrom_strict (by simp)]
    simp only [Request.files, Request.atOnce, Journal.readEventsChain]
    cases (chainFiles d path).mapM (Journal.readEvents (F := F) d) with
    | error e => rfl
    | ok events => rfl
  | loadEventsLenient =>
    rw [readFrom_lenient, Request.atOnce, Journal.loadEventsLenient, if_neg]
    · simp only [Request.files, List.nil_append, Nat.zero_add]
      cases readLenient (F := F) d (chainFiles d path) with
      | error e => rfl
      | ok r => rfl
    · rw [List.isEmpty_iff]
      exact hfinds rfl

/-! ### The same files -/

/-- The same files of the chain exist. -/
def SameFiles (path : String) (d d' : Dir) : Prop := ∀ i, (slots path d' i).isSome = (slots path d i).isSome

omit [JsonFloat F] in
theorem sameFiles_of_slots (h : slots path d' = slots path d) : SameFiles path d d' := by
  intro i
  rw [h]

private theorem SameFiles.ne_none (h : SameFiles path d d') {i : Nat} (hi : slots path d i ≠ none) :
    slots path d' i ≠ none := by
  rw [← Option.isSome_iff_ne_none, h i]
  exact Option.isSome_iff_ne_none.2 hi

theorem SameFiles.height (h : SameFiles path d d') {k : Nat} (hk : Height (slots path d) k) :
    Height (slots path d') k := by
  constructor
  · intro i hi hik
    exact h.ne_none (hk.1 i hi hik)
  · rw [← Option.not_isSome_iff_eq_none, h (k + 1), hk.2]
    exact Bool.false_ne_true

theorem SameFiles.chainFiles (h : SameFiles path d d') : chainFiles d' path = chainFiles d path := by
  have hheight := height_chainHeight d path
  have hslots : ∀ k, slotFiles d' path k = slotFiles d path k := by
    intro k
    induction k with
    | zero =>
      have hlive : (d'.lookup path).isSome = (d.lookup path).isSome := h 0
      rw [slotFiles, slotFiles, hlive]
    | succ k ih => rw [slotFiles, slotFiles, ih]
  rw [chainFiles_eq hheight, chainFiles_eq (h.height hheight), hslots]

private theorem mem_slotFiles {k : Nat} {file : String} (h : file ∈ slotFiles d path k) :
    ∃ i, file = fileName path i := by
  induction k with
  | zero =>
    rw [slotFiles] at h
    split at h
    · exact ⟨0, List.mem_singleton.1 h⟩
    · cases h
  | succ k ih =>
    rcases List.mem_cons.1 h with rfl | h
    · exact ⟨k + 1, rfl⟩
    · exact ih h

private theorem mem_chainFiles {file : String} (h : file ∈ chainFiles d path) : ∃ i, file = fileName path i := by
  rw [chainFiles_eq (height_chainHeight d path)] at h
  exact mem_slotFiles h

/-- Files of the chain are read alike where the slots are the same. -/
private theorem readFile_congr (h : slots path d' = slots path d) (req : Request) (i : Nat) :
    (req.readFile d' (fileName path i) : Loaded F) = req.readFile d (fileName path i) := by
  have hlook : d'.lookup (fileName path i) = d.lookup (fileName path i) := congrFun h i
  cases req with
  | loadEventsLenient => simp [Request.readFile, hlook]
  | readEvents k => simp [Request.readFile, Journal.readEvents, hlook]
  | readEventsChain => simp [Request.readFile, Journal.readEvents, hlook]

private theorem readFrom_congr (h : slots path d' = slots path d) (req : Request) {files : List String}
    (hfiles : ∀ file ∈ files, ∃ i, file = fileName path i) (got : List (List (String × Value F))) (skipped : Nat) :
    readFrom (fun file => req.readFile d' file) files got skipped =
      readFrom (fun file => req.readFile d file) files got skipped := by
  induction files generalizing got skipped with
  | nil => rfl
  | cons file files ih =>
    obtain ⟨i, rfl⟩ := hfiles file List.mem_cons_self
    rw [readFrom, readFrom, readFile_congr h]
    cases (req.readFile d (fileName path i) : Loaded F) with
    | error e => rfl
    | ok r => exact ih (fun file hfile => hfiles file (List.mem_cons_of_mem _ hfile)) _ _

private theorem files_of_chain (path : String) (d : Dir) (req : Request) :
    ∀ file ∈ req.files path d, ∃ i, file = fileName path i := by
  intro file hfile
  cases req with
  | readEvents i => exact ⟨i, List.mem_singleton.1 hfile⟩
  | readEventsChain => exact mem_chainFiles hfile
  | loadEventsLenient => exact mem_chainFiles hfile

private theorem Request.Finds.congr (h : SameFiles path d d') (hfinds : req.Finds path d) : req.Finds path d' := by
  intro hreq
  rw [h.chainFiles]
  exact hfinds hreq

private theorem atOnce_congr (h : slots path d' = slots path d) (hfinds : req.Finds path d) :
    (req.atOnce path d' : Loaded F) = req.atOnce path d := by
  have hsame := sameFiles_of_slots h
  have hfiles : req.files path d' = req.files path d := by
    cases req with
    | readEvents i => rfl
    | readEventsChain => exact hsame.chainFiles
    | loadEventsLenient => exact hsame.chainFiles
  rw [← readFrom_files hfinds, ← readFrom_files (hfinds.congr hsame), hfiles]
  exact readFrom_congr h req (files_of_chain path d req) [] 0

/-! ### Readers on their way -/

/-- The parts found so far are there. -/
def Look.Right (path : String) (d : Dir) : Look → Prop
  | .part idx => 1 ≤ idx ∧ ∀ i, 1 ≤ i → i < idx → slots path d i ≠ none
  | .live parts => Height (slots path d) parts

def SeekPos.Right (path : String) (d : Dir) (req : Request) : SeekPos → Prop
  | .look l => req = .loadEventsLenient ∧ l.Right path d
  | .missing => req = .loadEventsLenient ∧ chainFiles d path = []
  | .check files => files = req.given path d ∧ req.Finds path d
  | .acquire files => files = req.given path d ∧ req.Finds path d

def ReadPos.Right (path : String) (d : Dir) (req : Request) : ReadPos F → Prop
  | .look l => req = .readEventsChain ∧ l.Right path d
  | .read todo got skipped => (∀ file ∈ todo, ∃ i, file = fileName path i) ∧ req.Finds path d ∧
      readFrom (fun file => req.readFile d file) todo got skipped = req.atOnce path d
  | .release result => req.Finds path d ∧ result = req.atOnce path d

/-- What a reader has found and read is right for the directory, if it makes one of the requests `good`. -/
def Pc.Right (path : String) (d : Dir) (good : Request → Prop) : Pc F → Prop
  | .seeking req pos => good req → pos.Right path d req
  | .reading req _ pos => good req → pos.Right path d req
  | _ => True

variable {good : Request → Prop} {pc pc' : Pc F} {mv : Move F} {l l' : Look}

theorem Look.Right.part (h : l.Right path d) (hl : l.next path d = .inl l') : l'.Right path d := by
  cases l with
  | live parts => cases hl
  | part idx =>
    obtain ⟨hidx, hbelow⟩ := h
    obtain rfl := Sum.inl.inj hl
    cases hpart : d.lookup (partName path idx) with
    | some bs =>
      rw [Option.isSome_some, if_pos rfl]
      refine ⟨by omega, ?_⟩
      intro i hi hlt
      rcases Nat.lt_or_ge i idx with hi' | hi'
      · exact hbelow i hi hi'
      · obtain rfl : i = idx := by omega
        rw [slots, fileName_of_pos hi, hpart]
        exact Option.some_ne_none bs
    | none =>
      rw [Option.isSome_none, if_neg Bool.false_ne_true]
      constructor
      · intro i hi hle
        exact hbelow i hi (by omega)
      · rw [Nat.sub_add_cancel hidx, slots, fileName_of_pos hidx, hpart]

theorem Look.Right.found {files : List String} (h : l.Right path d) (hl : l.next path d = .inr files) :
    files = chainFiles d path := by
  cases l with
  | part idx => cases hl
  | live parts =>
    obtain rfl := Sum.inr.inj hl
    exact (chainFiles_eq h).symm

theorem Look.Right.congr (hsame : SameFiles path d d') (h : l.Right path d) : l.Right path d' := by
  cases l with
  | part idx => exact ⟨h.1, fun i hi hlt => hsame.ne_none (h.2 i hi hlt)⟩
  | live parts => exact hsame.height h

theorem SeekPos.Right.congr {pos : SeekPos} (hsame : SameFiles path d d') (h : pos.Right path d req) :
    pos.Right path d' req := by
  have hgiven : req.given path d' = req.given path d := by
    cases req with
    | readEvents i => rfl
    | readEventsChain => rfl
    | loadEventsLenient => exact congrArg some hsame.chainFiles
  cases pos with
  | look l => exact ⟨h.1, h.2.congr hsame⟩
  | missing => exact ⟨h.1, hsame.chainFiles.trans h.2⟩
  | check files => exact ⟨h.1.trans hgiven.symm, h.2.congr hsame⟩
  | acquire files => exact ⟨h.1.trans hgiven.symm, h.2.congr hsame⟩

theorem ReadPos.Right.congr {pos : ReadPos F} (h : slots path d' = slots path d) (hright : pos.Right path d req) :
    pos.Right path d' req := by
  have hsame := sameFiles_of_slots h
  cases pos with
  | look l => exact ⟨hright.1, hright.2.congr hsame⟩
  | read todo got skipped =>
    obtain ⟨htodo, hfinds, hread⟩ := hright
    refine ⟨htodo, hfinds.congr hsame, ?_⟩
    rw [readFrom_congr h req htodo, atOnce_congr h hfinds]
    exact hread
  | release result => exact ⟨hright.1.congr hsame, hright.2.trans (atOnce_congr h hright.1).symm⟩

theorem Pc.Right.congr (h : slots path d' = slots path d) (hright : pc.Right path d good) :
    pc.Right path d' good := by
  cases pc with
  | seeking req pos => exact fun hgood => (hright hgood).congr (sameFiles_of_slots h)
  | reading req held pos => exact fun hgood => (hright hgood).congr h
  | _ => trivial

/-- The block begins right. -/
private theorem enter_right {files : Option (List String)} (hfiles : files = req.given path d)
    (hfinds : req.Finds path d) :
    (ReadPos.enter files : ReadPos F).Right path d req := by
  subst hfiles
  have hread := readFrom_files (F := F) hfinds
  have hof := files_of_chain path d req
  cases req with
  | readEvents i => exact ⟨hof, hfinds, hread⟩
  | readEventsChain => exact ⟨rfl, Nat.le_refl 1, fun i hi hlt => by omega⟩
  | loadEventsLenient => exact ⟨hof, hfinds, hread⟩

/-- A move leaves its reader right. -/
theorem Rule.right (h : Rule path d pc mv) (hright : pc.Right path d good) : mv.pc.Right path d good := by
  cases h with
  | start _ pc' op hready hpc =>
    cases op with
    | openWriter => cases hpc; trivial
    | append j line =>
      unfold Op.start at hpc
      dsimp only at hpc
      split at hpc <;> cases hpc
      trivial
    | read req =>
      cases hpc
      intro _
      cases req with
      | readEvents i => exact ⟨rfl, fun hreq => by cases hreq⟩
      | readEventsChain => exact ⟨rfl, fun hreq => by cases hreq⟩
      | loadEventsLenient => exact ⟨rfl, Nat.le_refl 1, fun i hi hlt => by omega⟩
  | seekLook req l l' hl => exact fun hgood => ⟨(hright hgood).1, (hright hgood).2.part hl⟩
  | seekMissing req l hl => exact fun hgood => ⟨(hright hgood).1, ((hright hgood).2.found hl).symm⟩
  | seekFound req l files hl hne =>
    intro hgood
    obtain ⟨rfl, hlook⟩ := hright hgood
    obtain rfl := hlook.found hl
    exact ⟨rfl, fun _ => hne⟩
  | lockFound req files hlock => exact hright
  | lockAbsent req files hlock => exact fun hgood => enter_right (hright hgood).1 (hright hgood).2
  | readAcquire req files => exact fun hgood => enter_right (hright hgood).1 (hright hgood).2
  | readLook req held l l' hl => exact fun hgood => ⟨(hright hgood).1, (hright hgood).2.part hl⟩
  | readFound req held l files hl =>
    intro hgood
    obtain ⟨rfl, hlook⟩ := hright hgood
    obtain rfl := hlook.found hl
    have hfinds : Request.Finds path d .readEventsChain := fun hreq => by cases hreq
    exact ⟨files_of_chain path d .readEventsChain, hfinds, readFrom_files hfinds⟩
  | readFile req held file todo got events skipped n hread =>
    intro hgood
    obtain ⟨htodo, hfinds, hrest⟩ := hright hgood
    rw [readFrom, hread] at hrest
    exact ⟨fun file hfile => htodo file (List.mem_cons_of_mem _ hfile), hfinds, hrest⟩
  | readError req held file todo got skipped e hread =>
    intro hgood
    obtain ⟨htodo, hfinds, hrest⟩ := hright hgood
    rw [readFrom, hread] at hrest
    exact ⟨hfinds, hrest⟩
  | readEnd req held got skipped =>
    intro hgood
    obtain ⟨-, hfinds, hrest⟩ := hright hgood
    exact ⟨hfinds, hrest⟩
  | _ => trivial

/-! ### Readers without a lock -/

variable {s s' : Sys F} {a : Task}

/-- The lock that a thread takes next. -/
def Pc.wants (path : String) : Pc F → Option String
  | .opening .acquireFirst => some (lockName path)
  | .opening .acquire => some (lockName path)
  | .calling _ _ => some (lockName path)
  | .seeking req (.acquire _) => some (req.lock path)
  | _ => none

/-- The lock file of the writers is not created while a reader that has found none is in its block. -/
def NoLateLock (path : String) (s : Sys F) (a : Task) : Prop :=
  (s.pcs a.thread).wants path = some (lockName path) → s.dir.lookup (lockName path) = none →
    ∀ t req pos, s.pcs t = .reading req false pos → req.lock path ≠ lockName path

/-- There is no lock file while a reader that has found none is in its block. -/
def Unlocked (path : String) (s : Sys F) : Prop :=
  ∀ t req pos, s.pcs t = .reading req false pos → req.lock path = lockName path →
    s.dir.lookup (lockName path) = none

private theorem Rule.wants {k : String} (h : Rule path d pc (.acquire k pc')) : pc.wants path = some k := by
  cases h <;> rfl

/-- A move that creates the lock file takes the lock. -/
private theorem Rule.lookup_lock (h : Rule path d pc mv) (hj : pc.OfJournal path) :
    (mv.dir d).lookup (lockName path) = d.lookup (lockName path) ∨ pc.wants path = some (lockName path) := by
  cases mv with
  | goto pc' => exact Or.inl rfl
  | release k pc' => exact Or.inl rfl
  | acquire k pc' =>
    by_cases hk : k = lockName path
    · subst hk
      exact Or.inr h.wants
    · exact Or.inl (lookup_touch d (Ne.symm hk))
  | edit d' pc' =>
    left
    cases h with
    | openLive => exact lookup_touch d (lockName_ne_self path)
    | appendNext j line pos =>
      obtain rfl : j.path = path := hj
      exact Position.lookup_next (foreign_lockName _) line d pos
    | appendChunk j line pos n x hx =>
      obtain rfl : j.path = path := hj
      exact Position.lookup_chunk (foreign_lockName _) hx
    | appendRaises j line pos x hx =>
      obtain rfl : j.path = path := hj
      exact Position.lookup_raises (foreign_lockName _) hx

/-- A reader comes into its block without the lock when it has found no lock file. -/
private theorem Rule.absent {pos : ReadPos F} (h : Rule path d pc mv) (hpc : mv.pc = .reading req false pos) :
    (∃ pos', pc = .reading req false pos') ∨ d.lookup (req.lock path) = none := by
  cases h with
  | start _ pc' op hready hstart =>
    cases op with
    | openWriter => cases hstart; cases hpc
    | append j line =>
      unfold Op.start at hstart
      dsimp only at hstart
      split at hstart <;> cases hstart
      cases hpc
    | read req' => cases hstart; cases hpc
  | lockAbsent req' files hlock =>
    cases hpc
    exact Or.inr hlock
  | readLook => cases hpc; exact Or.inl ⟨_, rfl⟩
  | readFound => cases hpc; exact Or.inl ⟨_, rfl⟩
  | readFile => cases hpc; exact Or.inl ⟨_, rfl⟩
  | readError => cases hpc; exact Or.inl ⟨_, rfl⟩
  | readEnd => cases hpc; exact Or.inl ⟨_, rfl⟩
  | _ => cases hpc

theorem Unlocked.step (h : Unlocked path s) (ho : Orderly path s) (hlate : NoLateLock path s a)
    (hstep : s.step path a = some s') : Unlocked path s' := by
  obtain ⟨mv, hrule, hfree, rfl⟩ := step_cases hstep
  intro t req pos ht hlock
  -- the lock file was not there before the step
  have hbefore : s.dir.lookup (lockName path) = none ∧
      ((∃ u pos', s.pcs u = .reading req false pos') ∨ mv.dir s.dir = s.dir) := by
    by_cases hta : t = a.thread
    · subst hta
      simp only [Function.update_self] at ht
      rcases hrule.absent ht with ⟨pos', hpos⟩ | hnone
      · exact ⟨h _ req pos' hpos hlock, Or.inl ⟨_, pos', hpos⟩⟩
      · rw [hlock] at hnone
        refine ⟨hnone, ?_⟩
        have hnoLock : mv.pc.lock path = none := by
          rw [ht]
          rfl
        cases mv with
        | goto pc' => exact Or.inr rfl
        | release k pc' => exact Or.inr rfl
        | acquire k pc' =>
          have := hrule.locks.2
          rw [show pc'.lock path = none from hnoLock] at this
          cases this
        | edit d' pc' =>
          obtain ⟨h1, h2⟩ := hrule.locks
          rw [show pc'.lock path = none from hnoLock, h2] at h1
          cases h1
    · simp only [Function.update_of_ne hta] at ht
      exact ⟨h t req pos ht hlock, Or.inl ⟨t, pos, ht⟩⟩
  obtain ⟨hnone, hwho⟩ := hbefore
  rcases hwho with ⟨u, pos', hu⟩ | hsame
  · rcases hrule.lookup_lock (ho.journal _) with hsame | hwants
    · exact hsame.trans hnone
    · exact absurd hlock (hlate hwants hnone u req pos' hu)
  · simp only [hsame]
    exact hnone

/-! ### Steps of other threads -/

/-- Only edits change the slots. -/
theorem Rule.slots (h : Rule path d pc mv) :
    pc.lock path = some (lockName path) ∨ slots path (mv.dir d) = slots path d := by
  cases mv with
  | goto pc' => exact Or.inr rfl
  | release k pc' => exact Or.inr rfl
  | edit d' pc' => exact Or.inl h.locks.2
  | acquire k pc' =>
    have hk : Foreign path k := by
      cases h with
      | openAcquireFirst => exact foreign_lockName path
      | openAcquire => exact foreign_lockName path
      | callAcquire j line => exact foreign_lockName path
      | readAcquire req files => exact foreign_lock path req
    right
    funext i
    exact lookup_touch d (hk.ne i).symm

/-- A move leaves its reader right for the directory it leads to. -/
private theorem Rule.right_dir {good : Request → Prop} (h : Rule path d pc mv) (hright : pc.Right path d good) :
    mv.pc.Right path (mv.dir d) good := by
  have hnext := h.right hright
  cases mv with
  | goto pc' => exact hnext
  | release k pc' => exact hnext
  | edit d' pc' => cases h <;> trivial
  | acquire k pc' =>
    rcases h.slots with hlock | hslots
    · rw [h.locks.1] at hlock
      cases hlock
    · exact hnext.congr hslots

/-- Readers whose lock is that of the writers stay right, if those before their block do. -/
private theorem right_step {good : Request → Prop} (hgood : ∀ req, good req → req.lock path = lockName path)
    (ho : Orderly path s) (hu : Unlocked path s) (hstep : s.step path a = some s')
    (hseek : ∀ t req pos, s.pcs t = .seeking req pos → good req → pos.Right path s.dir req →
      pos.Right path s'.dir req)
    (h : ∀ t, (s.pcs t).Right path s.dir good) : ∀ t, (s'.pcs t).Right path s'.dir good := by
  obtain ⟨mv, hrule, hfree, rfl⟩ := step_cases hstep
  intro t
  by_cases ht : t = a.thread
  · subst ht
    simp only [Function.update_self]
    exact hrule.right_dir (h _)
  simp only [Function.update_of_ne ht]
  have hright := h t
  rcases hrule.slots with hlock | hslots
  · -- the thread that steps is in its block, so a reader in its block has not taken the same lock
    cases hpc : s.pcs t with
    | reading req held pos =>
      intro hreq
      have hreqLock := hgood req hreq
      cases held with
      | true =>
        have hheld : (s.pcs t).lock path = some (lockName path) := by
          rw [hpc, ← hreqLock]
          rfl
        exact absurd (ho.owned.exclusive hheld hlock) ht
      | false =>
        have hfile := ho.present _ ((ho.owned _ _).1 hlock)
        rw [hu t req pos hpc hreqLock] at hfile
        cases hfile
    | seeking req pos =>
      intro hreq
      rw [hpc] at hright
      exact hseek t req pos hpc hreq (hright hreq)
    | _ => trivial
  · exact hright.congr hslots

/-! ### Runs -/

/-- A writer is in one of its blocks. -/
def Pc.writes : Pc F → Bool
  | .opening .releaseFirst => true
  | .opening .openLive => true
  | .opening .release => true
  | .appending _ _ _ => true
  | _ => false

/-- What holds along a run from the directory `d₀`. -/
structure Seen (path : String) (d₀ : Dir) (good : Request → Prop) (s : Sys F) : Prop where
  orderly : Orderly path s
  unlocked : Unlocked path s
  atomic : ∃ base, Atomic path d₀ base s
  right : ∀ t, (s.pcs t).Right path s.dir good

variable {good : Request → Prop} {d₀ : Dir}

theorem seen_init (path : String) (d₀ : Dir) (good : Request → Prop) : Seen path d₀ good (Sys.init d₀ : Sys F) := by
  constructor
  · exact orderly_init path d₀
  · intro t req pos ht
    cases ht
  · exact ⟨d₀, atomic_init path d₀⟩
  · intro t
    trivial

theorem Seen.step (hgood : ∀ req, good req → req.lock path = lockName path) (h : Seen path d₀ good s)
    (hlate : NoLateLock path s a) (hstep : s.step path a = some s')
    (hseek : ∀ t req pos, s.pcs t = .seeking req pos → good req → pos.Right path s.dir req →
      pos.Right path s'.dir req) : Seen path d₀ good s' := by
  obtain ⟨base, hatomic⟩ := h.atomic
  constructor
  · exact h.orderly.step hstep
  · exact h.unlocked.step h.orderly hlate hstep
  · exact hatomic.step h.orderly hstep
  · exact right_step hgood h.orderly h.unlocked hstep hseek h.right

omit [JsonFloat F] in
private theorem lock_of_writes {pc : Pc F} (h : pc.writes = true) : pc.lock path = some (lockName path) := by
  cases pc with
  | opening pos => cases pos <;> first | rfl | cases h
  | appending j line pos => rfl
  | _ => cases h

/-- While a reader is in its block, no writer is, and the directory is one between whole operations. -/
theorem Seen.between {t : Nat} {held : Bool} {pos : ReadPos F} (h : Seen path d₀ good s)
    (hpc : s.pcs t = .reading req held pos) (hlock : req.lock path = lockName path) :
    (∀ u, (s.pcs u).writes = false) ∧ ∃ ops : List Whole, s.dir = ops.foldl (Whole.apply path) d₀ := by
  obtain ⟨base, hatomic⟩ := h.atomic
  obtain ⟨ops, hops⟩ := hatomic.whole
  cases held with
  | true =>
    have hheld : (s.pcs t).lock path = some (lockName path) := by
      rw [hpc, ← hlock]
      rfl
    constructor
    · intro u
      rw [Bool.eq_false_iff]
      intro hu
      obtain rfl := h.orderly.owned.exclusive hheld (lock_of_writes hu)
      rw [hpc] at hu
      cases hu
    · have hin := hatomic.inside t hheld
      rw [hpc] at hin
      exact ⟨ops, Eq.trans hin hops⟩
  | false =>
    have hfile := h.unlocked t req pos hpc hlock
    have hfree : ∀ u, s.holder (lockName path) ≠ some u := by
      intro u hu
      have := h.orderly.present u hu
      rw [hfile] at this
      cases this
    constructor
    · intro u
      rw [Bool.eq_false_iff]
      intro hu
      exact hfree u ((h.orderly.owned _ _).1 (lock_of_writes hu))
    · exact ⟨ops, (hatomic.free (Option.eq_none_iff_forall_ne_some.2 hfree)).trans hops⟩

end IronHarness.Journal
