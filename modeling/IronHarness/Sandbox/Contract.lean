import IronHarness.Sandbox.Quota

/-!
# What the sandbox keeps

On a file system whose root is reached without links and has no links below it (`Grounded`) every resolved path is
what the system finds, so the files of the root can be weighed by their entries (`usedBytes_eq`).  One lemma for each
operation says what it does to the weights; a run whose scans see every file keeps them within the quota
(`sandbox_contract`), and one whose scans do not may exceed it (`unlisted_exceeds`).
-/

namespace IronHarness.Sandbox

open ByteText Weight Runs

/-- The root is a directory behind directories, and nothing below it is a link. -/
structure Grounded (root : Path) (fs : Fs) : Prop where
  rootDirs : ∀ q, q <+: root → fs.lookup q = some .dir
  rootPlain : dotdot ∉ root
  plain : ∀ p node, fs.lookup p = some node → root <+: p → dotdot ∉ p
  noLinks : ∀ p target, root <+: p → fs.lookup p ≠ some (.link target)
  resolved : Resolved fs

variable {root : Path} {fs fs' : Fs} {p : Path}

theorem Grounded.real (h : Grounded root fs) (hp : root <+: p) (hplain : dotdot ∉ p) : Real fs p where
  plain := hplain
  noLink := by
    intro q hq target
    rcases List.prefix_or_prefix_of_prefix hq hp with hq | hq
    · rw [h.rootDirs q hq]
      simp
    · exact h.noLinks q target hq

private theorem Grounded.realRoot (h : Grounded root fs) : Real fs root := h.real (List.prefix_refl root) h.rootPlain

/-- A change below the root that makes no link keeps the ground. -/
theorem Grounded.keep (h : Grounded root fs) (hroot : ∀ q, q <+: root → fs'.lookup q = fs.lookup q)
    (hlink : ∀ q target, fs'.lookup q = some (.link target) → fs.lookup q = some (.link target))
    (hplain : ∀ q node, fs'.lookup q = some node → root <+: q → dotdot ∉ q) : Grounded root fs' where
  rootDirs := by
    intro q hq
    rw [hroot q hq]
    exact h.rootDirs q hq
  rootPlain := h.rootPlain
  plain := hplain
  noLinks := fun q target hq hlook => h.noLinks q target hq (hlink q target hlook)
  resolved := by
    intro q target hlook
    have hreal := h.resolved q target (hlink q _ hlook)
    exact ⟨hreal.plain, fun r hr t ht => hreal.noLink r hr t (hlink r t ht)⟩

/-! ### The weights -/

/-- The bytes of a file under the root. -/
def fileBytes (root p : Path) : Node → Nat
  | .file data => if root <+: p then data.length else 0
  | _ => 0

/-- One for a file under the root. -/
def fileOne (root p : Path) : Node → Nat
  | .file _ => if root <+: p then 1 else 0
  | _ => 0

private theorem usedBytes_eq (h : Grounded root fs) : usedBytes fs root = weigh (fileBytes root) fs := by
  apply weigh_congr
  intro p node hlook
  by_cases hp : root <+: p
  · rw [if_pos hp, stat_of_real (h.real hp (h.plain p node hlook hp)), hlook]
    cases node <;> simp [fileBytes, hp]
  · rw [if_neg hp]
    cases node <;> simp [fileBytes, hp]

private theorem usedFiles_eq (h : Grounded root fs) : usedFiles fs root = weigh (fileOne root) fs := by
  apply weigh_congr
  intro p node hlook
  by_cases hp : root <+: p
  · rw [if_pos hp, stat_of_real (h.real hp (h.plain p node hlook hp)), hlook]
    cases node <;> simp [fileOne, hp]
  · rw [if_neg hp]
    cases node <;> simp [fileOne, hp]

/-- A scan that sees every file counts all of them. -/
private theorem scanned_eq {unlisted : List Path} (h : SeesAll unlisted fs root) :
    scannedBytes unlisted fs root = usedBytes fs root ∧ scannedFiles unlisted fs root = usedFiles fs root := by
  constructor
  all_goals
    apply weigh_congr
    intro p _ _
    by_cases hp : root <+: p
    · cases hskip : skipped unlisted root p with
      | false => simp only [hp, and_self]
      | true =>
        have hnone : ∀ data, stat fs p ≠ some (.file data) := by
          intro data hdata
          rw [h p data hp hdata] at hskip
          cases hskip
        simp only [hp, Bool.true_eq_false, and_false, if_false, if_true]
    · simp only [hp, false_and]

/-- What there is to take away of a file that is overwritten or deleted. -/
private theorem weighKey_file {data : Bytes} (hp : root <+: p) (hlook : fs.lookup p = some (.file data)) :
    weighKey (fileBytes root) fs p = data.length ∧ weighKey (fileOne root) fs p = 1 := by
  rw [weighKey, weighKey, hlook]
  simp [fileBytes, fileOne, hp]

private theorem weighKey_none (root : Path) (hlook : ∀ data, fs.lookup p ≠ some (.file data)) :
    weighKey (fileBytes root) fs p = 0 ∧ weighKey (fileOne root) fs p = 0 := by
  rw [weighKey, weighKey]
  match h : fs.lookup p with
  | none => exact ⟨rfl, rfl⟩
  | some .dir => exact ⟨rfl, rfl⟩
  | some (.link _) => exact ⟨rfl, rfl⟩
  | some (.file data) => exact absurd h (hlook data)

/-! ### Insertions and erasures -/

theorem Grounded.insert (h : Grounded root fs) (hp : root <+: p) (hne : p ≠ root) (hplain : dotdot ∉ p) {node : Node}
    (hnode : ∀ target, node ≠ .link target) : Grounded root (fs.insert p node) := by
  have hother : ∀ q, q ≠ p → (fs.insert p node).lookup q = fs.lookup q := fun q hq => AList.lookup_insert_ne hq
  apply h.keep
  · intro q hq
    apply hother
    rintro rfl
    exact hne (hq.eq_of_length_le hp.length_le)
  · intro q target hlook
    by_cases hq : q = p
    · subst hq
      rw [AList.lookup_insert] at hlook
      exact absurd (Option.some.inj hlook) (hnode target)
    · rwa [hother q hq] at hlook
  · intro q node' hlook hroot
    by_cases hq : q = p
    · subst hq
      exact hplain
    · rw [hother q hq] at hlook
      exact h.plain q node' hlook hroot

theorem Grounded.erase (h : Grounded root fs) (hne : ¬ p <+: root) : Grounded root (fs.erase p) := by
  have hother : ∀ q, q ≠ p → (fs.erase p).lookup q = fs.lookup q := fun q hq => AList.lookup_erase_ne hq
  have hsome : ∀ q node, (fs.erase p).lookup q = some node → fs.lookup q = some node := by
    intro q node hlook
    by_cases hq : q = p
    · subst hq
      rw [AList.lookup_erase] at hlook
      cases hlook
    · rwa [hother q hq] at hlook
  apply h.keep
  · intro q hq
    apply hother
    rintro rfl
    exact hne hq
  · exact fun q target => hsome q _
  · intro q node hlook hroot
    exact h.plain q node (hsome q node hlook) hroot

/-! ### Directories -/

/-- A step that makes directories below the root at most: the files stay as they are. -/
structure Grown (root : Path) (w w' : World) : Prop where
  grounded : Grounded root w.fs → Grounded root w'.fs
  bytes : weigh (fileBytes root) w'.fs = weigh (fileBytes root) w.fs
  files : weigh (fileOne root) w'.fs = weigh (fileOne root) w.fs
  same : ∀ p data, w'.fs.lookup p = some (.file data) ↔ w.fs.lookup p = some (.file data)
  dirs : ∀ p, w.fs.lookup p = some .dir → w'.fs.lookup p = some .dir
  outside : ∀ p, ¬ root <+: p → w'.fs.lookup p = w.fs.lookup p
  touched : ∀ p ∈ w'.touched, p ∈ w.touched ∨ root <+: p
  writing : w'.writing = w.writing

variable {w w' w'' : World}

private theorem Grown.of_fs (hfs : w'.fs = w.fs) (htouched : w'.touched = w.touched)
    (hwriting : w'.writing = w.writing) :
    Grown root w w' := by
  refine ⟨?_, ?_, ?_, ?_, ?_, ?_, ?_, hwriting⟩
  · rw [hfs]
    exact id
  · rw [hfs]
  · rw [hfs]
  · intro p data
    rw [hfs]
  · intro p
    rw [hfs]
    exact id
  · intro p _
    rw [hfs]
  · intro p hp
    rw [htouched] at hp
    exact .inl hp

theorem Grown.refl (w : World) : Grown root w w := .of_fs rfl rfl rfl

theorem Grown.emit (w : World) (e : Event) : Grown root w (w.emit e) := .of_fs rfl rfl rfl

theorem Grown.trans (h : Grown root w w') (h' : Grown root w' w'') : Grown root w w'' where
  grounded := h'.grounded ∘ h.grounded
  bytes := h'.bytes.trans h.bytes
  files := h'.files.trans h.files
  same := fun p data => (h'.same p data).trans (h.same p data)
  dirs := fun p hp => h'.dirs p (h.dirs p hp)
  outside := fun p hp => (h'.outside p hp).trans (h.outside p hp)
  touched := by
    intro p hp
    rcases h'.touched p hp with hp | hp
    · exact h.touched p hp
    · exact .inr hp
  writing := h'.writing.trans h.writing

/-- A directory is made where there was no file. -/
theorem Grown.makeDir (hp : root <+: p) (hne : p ≠ root) (hplain : dotdot ∉ p)
    (hfree : ∀ data, w.fs.lookup p ≠ some (.file data)) : Grown root w (w.makeDir p) := by
  have hother : ∀ q, q ≠ p → (w.makeDir p).fs.lookup q = w.fs.lookup q := fun q hq => AList.lookup_insert_ne hq
  have hself : (w.makeDir p).fs.lookup p = some .dir := AList.lookup_insert _
  obtain ⟨hbytes, hfiles⟩ := weighKey_none root hfree
  refine ⟨?_, ?_, ?_, ?_, ?_, ?_, ?_, rfl⟩
  · exact fun h => h.insert hp hne hplain (by simp)
  · have hinsert := weigh_insert (fileBytes root) w.fs p .dir
    rw [hbytes] at hinsert
    exact hinsert
  · have hinsert := weigh_insert (fileOne root) w.fs p .dir
    rw [hfiles] at hinsert
    exact hinsert
  · intro q data
    by_cases hq : q = p
    · subst hq
      rw [hself]
      constructor
      · intro hdir
        cases hdir
      · intro hfile
        exact absurd hfile (hfree data)
    · rw [hother q hq]
  · intro q hdir
    by_cases hq : q = p
    · subst hq
      exact hself
    · rwa [hother q hq]
  · intro q hq
    apply hother
    rintro rfl
    exact hq hp
  · intro q hq
    rcases List.mem_append.1 hq with hq | hq
    · exact .inl hq
    · obtain rfl := List.mem_singleton.1 hq
      exact .inr hp

private theorem Grown.makeDirs {ps : List Path} (hps : ∀ p ∈ ps, root <+: p ∧ p ≠ root ∧ dotdot ∉ p ∧
    ∀ data, w.fs.lookup p ≠ some (.file data)) : Grown root w (ps.foldl World.makeDir w) := by
  induction ps generalizing w with
  | nil => exact .refl w
  | cons p ps ih =>
    obtain ⟨hp, hne, hplain, hfree⟩ := hps p List.mem_cons_self
    have hmade := Grown.makeDir hp hne hplain hfree
    refine hmade.trans (ih ?_)
    intro q hq
    obtain ⟨hq1, hq2, hq3, hq4⟩ := hps q (List.mem_cons_of_mem p hq)
    exact ⟨hq1, hq2, hq3, fun data hdata => hq4 data ((hmade.same q data).1 hdata)⟩

/-- The directories that are missing on the way to a path below the root are below the root. -/
private theorem mem_missingDirs (h : Grounded root w.fs) {target : Path} (htarget : root <+: target)
    (hplain : dotdot ∉ target) (hp : p ∈ missingDirs w.fs target.dropLast) :
    root <+: p ∧ p ≠ root ∧ dotdot ∉ p ∧ ∀ data, w.fs.lookup p ≠ some (.file data) := by
  obtain ⟨hin, hnone⟩ := List.mem_filter.1 hp
  have hfront : p <+: target := ((List.mem_inits p _).1 hin).trans (List.dropLast_prefix target)
  have hnone : stat w.fs p = none := by simpa using hnone
  have hplain' : dotdot ∉ p := fun hmem => hplain (hfront.subset hmem)
  have hnot : ¬ p <+: root := by
    intro hup
    rw [stat_of_real (h.realRoot.of_isPrefix hup), h.rootDirs p hup] at hnone
    cases hnone
  have hdown : root <+: p := (List.prefix_or_prefix_of_prefix hfront htarget).resolve_left hnot
  refine ⟨hdown, ?_, hplain', ?_⟩
  · rintro rfl
    exact hnot (List.prefix_refl p)
  · intro data hdata
    rw [stat_of_real (h.real hdown hplain'), hdata] at hnone
    cases hnone

theorem Grown.mkdir (h : Grounded root w.fs) {target : Path} (htarget : root <+: target) (hplain : dotdot ∉ target)
    (left : Option Nat) : Grown root w (w.mkdir target.dropLast left).2 := by
  unfold World.mkdir
  split
  · split
    · exact .refl w
    · exact .makeDirs fun p hp => mem_missingDirs h htarget hplain hp
  · split
    · exact .refl w
    · exact .makeDirs fun p hp => mem_missingDirs h htarget hplain (List.mem_of_mem_take hp)

/-! ### A write up to `write_bytes` -/

variable {sb : FileSandbox} {keeps : Prop} {unlisted : List Path}

/-- A resolved path is below the root, and what the system finds there is what is there. -/
private theorem resolve_cases (sb : FileSandbox) (w : World) (rel : String) (h : Grounded sb.root w.fs) :
    Grown sb.root w (sb.resolve w rel).2 ∧ (sb.resolve w rel).2.fs = w.fs ∧
      ∀ target, (sb.resolve w rel).1 = .ok target → sb.root <+: target ∧ Real w.fs target := by
  unfold FileSandbox.resolve
  by_cases habs : rel.toList.head? = some '/'
  · rw [if_pos habs]
    exact ⟨.emit w _, rfl, by simp⟩
  rw [if_neg habs]
  by_cases hzero : '\x00' ∈ rel.toList
  · rw [if_pos hzero]
    exact ⟨.refl w, rfl, by simp⟩
  rw [if_neg hzero]
  match hreal : realpath w.fs [] (sb.root ++ parts rel.toList) with
  | none => exact ⟨.refl w, rfl, by simp⟩
  | some resolved =>
    dsimp only
    by_cases hin : sb.root <+: resolved
    · rw [if_pos hin]
      refine ⟨.refl w, rfl, ?_⟩
      intro target htarget
      obtain rfl := Except.ok.inj htarget
      have hnil : Real w.fs [] := h.realRoot.of_isPrefix (List.nil_prefix)
      exact ⟨hin, realpath_real h.resolved hnil hreal⟩
    · rw [if_neg hin]
      exact ⟨.emit w _, rfl, by simp⟩

/-- The files are within the quota, where it is kept at all. -/
structure Within (keeps : Prop) (sb : FileSandbox) (fs : Fs) : Prop where
  bytes : keeps → weigh (fileBytes sb.root) fs ≤ sb.maxBytes
  files : keeps → weigh (fileOne sb.root) fs ≤ sb.maxFiles

/-- The target lies under the root, and where the quota is kept there is room for the data under it, if it is not a
directory. -/
structure Room (keeps : Prop) (sb : FileSandbox) (fs : Fs) (target : Path) (data : Bytes) : Prop where
  under : sb.root <+: target
  plain : dotdot ∉ target
  bytes : fs.lookup target = some .dir ∨
    (keeps → weigh (fileBytes sb.root) fs + data.length ≤ sb.maxBytes + weighKey (fileBytes sb.root) fs target)
  files : fs.lookup target = some .dir ∨
    (keeps → weigh (fileOne sb.root) fs + 1 ≤ sb.maxFiles + weighKey (fileOne sb.root) fs target)

private theorem checkQuota_cases (sb : FileSandbox) (w : World) (extraBytes newFiles : Nat) (path : String)
    (h : Grounded sb.root w.fs) (hsees : keeps → SeesAll unlisted w.fs sb.root) :
    Grown sb.root w (sb.checkQuota w unlisted extraBytes newFiles path).2 ∧
      ((sb.checkQuota w unlisted extraBytes newFiles path).1 = .ok () →
        (sb.checkQuota w unlisted extraBytes newFiles path).2 = w ∧
        (keeps → weigh (fileBytes sb.root) w.fs + extraBytes ≤ sb.maxBytes ∧
          weigh (fileOne sb.root) w.fs + newFiles ≤ sb.maxFiles)) := by
  unfold FileSandbox.checkQuota
  dsimp only
  split
  · exact ⟨.emit w _, by simp⟩
  · split
    · exact ⟨.emit w _, by simp⟩
    · refine ⟨.refl w, fun _ => ⟨rfl, fun hkeeps => ?_⟩⟩
      obtain ⟨hbytes, hfiles⟩ := scanned_eq (hsees hkeeps)
      rw [usedBytes_eq h] at hbytes
      rw [usedFiles_eq h] at hfiles
      omega

/-- A file stays a file of its size while directories are made. -/
private theorem Grown.weighKey_eq (h : Grown root w w') (hp : root <+: p) :
    weighKey (fileBytes root) w'.fs p = weighKey (fileBytes root) w.fs p ∧
      weighKey (fileOne root) w'.fs p = weighKey (fileOne root) w.fs p := by
  by_cases hfile : ∃ data, w.fs.lookup p = some (.file data)
  · obtain ⟨data, hdata⟩ := hfile
    obtain ⟨h1, h2⟩ := weighKey_file hp hdata
    obtain ⟨h1', h2'⟩ := weighKey_file hp ((h.same p data).2 hdata)
    exact ⟨h1'.trans h1.symm, h2'.trans h2.symm⟩
  · have hnone : ∀ data, w.fs.lookup p ≠ some (.file data) := fun data hdata => hfile ⟨data, hdata⟩
    obtain ⟨h1, h2⟩ := weighKey_none root hnone
    obtain ⟨h1', h2'⟩ := weighKey_none root fun data hdata => hnone data ((h.same p data).1 hdata)
    exact ⟨h1'.trans h1.symm, h2'.trans h2.symm⟩

theorem Room.grow {target : Path} {data : Bytes} (h : Room keeps sb w.fs target data) (hgrown : Grown sb.root w w') :
    Room keeps sb w'.fs target data where
  under := h.under
  plain := h.plain
  bytes := by
    rw [hgrown.bytes, (hgrown.weighKey_eq h.under).1]
    exact h.bytes.imp_left (hgrown.dirs target)
  files := by
    rw [hgrown.files, (hgrown.weighKey_eq h.under).2]
    exact h.files.imp_left (hgrown.dirs target)

/-- What the quota check has found out: an overwritten file gives its bytes back, and only a new one counts. -/
private theorem room_of_quota (hwithin : Within keeps sb fs) {target : Path} (hunder : sb.root <+: target)
    (hreal : Real fs target) {data : Bytes}
    (hquota : keeps →
      weigh (fileBytes sb.root) fs + (data.length - ((fs.lookup target).map (sb.size target)).getD 0) ≤ sb.maxBytes ∧
        weigh (fileOne sb.root) fs + (if (fs.lookup target).isSome then 0 else 1) ≤ sb.maxFiles) :
    Room keeps sb fs target data := by
  match hlook : fs.lookup target with
  | none =>
    obtain ⟨h1, h2⟩ := weighKey_none sb.root (show ∀ data, fs.lookup target ≠ some (.file data) by simp [hlook])
    simp only [hlook, Option.map_none, Option.getD_none, Option.isSome_none, Bool.false_eq_true, if_false] at hquota
    refine ⟨hunder, hreal.plain, .inr fun hkeeps => ?_, .inr fun hkeeps => ?_⟩
    · have hbytes := (hquota hkeeps).1
      omega
    · have hfiles := (hquota hkeeps).2
      omega
  | some .dir => exact ⟨hunder, hreal.plain, .inl hlook, .inl hlook⟩
  | some (.file old) =>
    obtain ⟨h1, h2⟩ := weighKey_file hunder hlook
    simp only [hlook, Option.map_some, Option.getD_some, FileSandbox.size] at hquota
    refine ⟨hunder, hreal.plain, .inr fun hkeeps => ?_, .inr fun hkeeps => ?_⟩
    · have hb := hwithin.bytes hkeeps
      have hbytes := (hquota hkeeps).1
      omega
    · have hf := hwithin.files hkeeps
      omega
  | some (.link target') => exact absurd hlook (hreal.noLink target (List.prefix_refl target) target')

private theorem prepare_cases (h : Grounded sb.root w.fs) (hwithin : Within keeps sb w.fs)
    (hsees : keeps → SeesAll unlisted w.fs sb.root) (rel : String) {target : Path}
    (hunder : sb.root <+: target) (hreal : Real w.fs target) (data : Bytes) (fault : Option WriteFault) :
    Grown sb.root w (sb.prepare w rel target data unlisted fault).2 ∧
      ∀ t, (sb.prepare w rel target data unlisted fault).1 = .ok t → Room keeps sb (sb.prepare w rel target data unlisted fault).2.fs t data := by
  unfold FileSandbox.prepare
  by_cases hstat : fault = some .stat
  · rw [if_pos hstat]
    exact ⟨.emit w _, by simp⟩
  rw [if_neg hstat, stat_of_real hreal]
  dsimp only
  obtain ⟨hgrown, hquota⟩ := checkQuota_cases sb w (data.length - ((w.fs.lookup target).map (sb.size target)).getD 0)
    (if (w.fs.lookup target).isSome then 0 else 1) rel h hsees
  match hcheck : sb.checkQuota w unlisted (data.length - ((w.fs.lookup target).map (sb.size target)).getD 0)
      (if (w.fs.lookup target).isSome then 0 else 1) rel with
  | (.error e, w₁) =>
    rw [hcheck] at hgrown
    exact ⟨hgrown, by simp⟩
  | (.ok (), w₁) =>
    rw [hcheck] at hquota
    obtain ⟨rfl, hquota⟩ := hquota rfl
    have hroom := room_of_quota hwithin hunder hreal hquota
    have hmade := Grown.mkdir h hunder hreal.plain (WriteFault.made fault)
    dsimp only
    match hmk : w₁.mkdir target.dropLast (WriteFault.made fault) with
    | (true, w₂) =>
      rw [hmk] at hmade
      refine ⟨hmade, ?_⟩
      intro t ht
      obtain rfl := Except.ok.inj ht
      exact hroom.grow hmade
    | (false, w₂) =>
      rw [hmk] at hmade
      exact ⟨hmade.trans (.emit w₂ _), by simp⟩

private theorem beginWrite_cases (h : Grounded sb.root w.fs) (hwithin : Within keeps sb w.fs)
    (hsees : keeps → SeesAll unlisted w.fs sb.root) (rel : String) (data : Bytes)
    (overwrite : Bool) (fault : Option WriteFault) :
    Grown sb.root w (sb.beginWrite w rel data overwrite unlisted fault).2 ∧
      ∀ t, (sb.beginWrite w rel data overwrite unlisted fault).1 = .ok t →
        Room keeps sb (sb.beginWrite w rel data overwrite unlisted fault).2.fs t data := by
  unfold FileSandbox.beginWrite
  obtain ⟨hgrown, hfs, htarget⟩ := resolve_cases sb w rel h
  match hres : sb.resolve w rel with
  | (.error e, w₁) =>
    rw [hres] at hgrown
    exact ⟨hgrown, by simp⟩
  | (.ok target, w₁) =>
    rw [hres] at hgrown hfs htarget
    obtain ⟨hunder, hreal⟩ := htarget target rfl
    dsimp only at hfs ⊢
    rw [← hfs] at h hwithin hsees hreal
    split
    · exact ⟨hgrown.trans (.emit w₁ _), by simp⟩
    · obtain ⟨hprepared, hroom⟩ := prepare_cases h hwithin hsees rel hunder hreal data fault
      exact ⟨hgrown.trans hprepared, hroom⟩

/-! ### Runs -/

/-- What a write has still to do fits. -/
def Writing.Fits (wr : Writing) (keeps : Prop) (sb : FileSandbox) (fs : Fs) : Prop :=
  match wr.rest with
  | none => Room keeps sb fs wr.target wr.data
  | some rest => sb.root <+: wr.target ∧ wr.target ≠ sb.root ∧ dotdot ∉ wr.target ∧
      ∃ content, fs.lookup wr.target = some (.file content) ∧
        (keeps → weigh (fileBytes sb.root) fs + rest.length ≤ sb.maxBytes)

/-- What a run keeps; `keeps` is that its scans see every file. -/
structure World.Inv (w : World) (keeps : Prop) (sb : FileSandbox) (fs₀ : Fs) : Prop where
  grounded : Grounded sb.root w.fs
  within : Within keeps sb w.fs
  outside : ∀ p, ¬ sb.root <+: p → w.fs.lookup p = fs₀.lookup p
  touched : ∀ p ∈ w.touched, sb.root <+: p
  writing : ∀ wr, w.writing = some wr → wr.Fits keeps sb w.fs

variable {fs₀ : Fs}

theorem World.Inv.grow (h : w.Inv keeps sb fs₀) (hgrown : Grown sb.root w w')
    (hwriting : ∀ wr, w'.writing = some wr → wr.Fits keeps sb w'.fs) : w'.Inv keeps sb fs₀ where
  grounded := hgrown.grounded h.grounded
  within := ⟨by rw [hgrown.bytes]; exact h.within.bytes, by rw [hgrown.files]; exact h.within.files⟩
  outside := fun p hp => (hgrown.outside p hp).trans (h.outside p hp)
  touched := by
    intro p hp
    rcases hgrown.touched p hp with hp | hp
    · exact h.touched p hp
    · exact hp
  writing := hwriting

/-- A file below the root is written. -/
private theorem World.Inv.insertFile (h : w.Inv keeps sb fs₀) (data : Bytes) (hp : sb.root <+: p) (hne : p ≠ sb.root)
    (hplain : dotdot ∉ p)
    (hbytes : keeps → weigh (fileBytes sb.root) w.fs + data.length ≤ sb.maxBytes + weighKey (fileBytes sb.root) w.fs p)
    (hfiles : keeps → weigh (fileOne sb.root) w.fs + 1 ≤ sb.maxFiles + weighKey (fileOne sb.root) w.fs p)
    (hfs : w'.fs = w.fs.insert p (.file data)) (htouched : ∀ q ∈ w'.touched, q ∈ w.touched ∨ q = p)
    (hwriting : ∀ wr, w'.writing = some wr → wr.Fits keeps sb w'.fs) : w'.Inv keeps sb fs₀ where
  grounded := by
    rw [hfs]
    exact h.grounded.insert hp hne hplain (by simp)
  within := by
    have hb := weigh_insert (fileBytes sb.root) w.fs p (.file data)
    have hf := weigh_insert (fileOne sb.root) w.fs p (.file data)
    simp only [fileBytes, fileOne, if_pos hp] at hb hf
    rw [hfs]
    constructor
    · intro hkeeps
      have := hbytes hkeeps
      omega
    · intro hkeeps
      have := hfiles hkeeps
      omega
  outside := by
    intro q hq
    rw [hfs, AList.lookup_insert_ne (by rintro rfl; exact hq hp)]
    exact h.outside q hq
  touched := by
    intro q hq
    rcases htouched q hq with hq | rfl
    · exact h.touched q hq
    · exact hp
  writing := hwriting

/-- The files stay as they are. -/
theorem World.Inv.same (h : w.Inv keeps sb fs₀) (hfs : w'.fs = w.fs) (htouched : ∀ q ∈ w'.touched, q ∈ w.touched ∨ sb.root <+: q)
    (hwriting : ∀ wr, w'.writing = some wr → wr.Fits keeps sb w.fs) : w'.Inv keeps sb fs₀ where
  grounded := hfs ▸ h.grounded
  within := hfs ▸ h.within
  outside := hfs ▸ h.outside
  touched := by
    intro q hq
    rcases htouched q hq with hq | hq
    · exact h.touched q hq
    · exact hq
  writing := hfs ▸ hwriting

theorem World.Inv.openFile (h : w.Inv keeps sb fs₀) {wr : Writing} (hroom : Room keeps sb w.fs wr.target wr.data) :
    (w.openFile wr).Inv keeps sb fs₀ := by
  have hreal := h.grounded.real hroom.under hroom.plain
  by_cases hdir : w.fs.lookup wr.target = some .dir
  · have hopen : w.openFile wr = { w.emit (.fileWriteFailed wr.rel .osError) with writing := none } := by
      rw [World.openFile, stat_of_real hreal, hdir]
    rw [hopen]
    exact h.same rfl (fun q hq => .inl hq) (by simp)
  have hopen : w.openFile wr =
      { w with
        fs := w.fs.insert wr.target (.file [])
        touched := w.touched ++ [wr.target]
        writing := some { wr with rest := some wr.data } } := by
    rw [World.openFile, stat_of_real hreal]
    match hlook : w.fs.lookup wr.target with
    | some .dir => exact absurd hlook hdir
    | none | some (.file _) | some (.link _) => rfl
  have hne : wr.target ≠ sb.root := by
    intro heq
    rw [heq] at hdir
    exact hdir (h.grounded.rootDirs sb.root (List.prefix_refl _))
  have hbytes := hroom.bytes.resolve_left hdir
  have hfiles := hroom.files.resolve_left hdir
  rw [hopen]
  apply h.insertFile [] hroom.under hne hroom.plain _ hfiles rfl
  · intro q hq
    simpa using hq
  · intro wr' hwr'
    obtain rfl := Option.some.inj hwr'
    have hinsert := weigh_insert (fileBytes sb.root) w.fs wr.target (.file [])
    have hzero : fileBytes sb.root wr.target (.file []) = 0 := by simp [fileBytes]
    refine ⟨hroom.under, hne, hroom.plain, [], AList.lookup_insert _, ?_⟩
    intro hkeeps
    have hroomy := hbytes hkeeps
    dsimp only
    omega
  · intro hkeeps
    have hroomy := hbytes hkeeps
    rw [List.length_nil]
    omega

theorem World.Inv.put (h : w.Inv keeps sb fs₀) {wr : Writing} {rest : Bytes} (hfits : wr.Fits keeps sb w.fs)
    (hrest : wr.rest = some rest) (n : Nat) : (w.put wr rest n).Inv keeps sb fs₀ := by
  unfold Writing.Fits at hfits
  rw [hrest] at hfits
  obtain ⟨hunder, hne, hplain, content, hlook, hbytes⟩ := hfits
  obtain ⟨hkey, hone⟩ := weighKey_file hunder hlook
  have hput : w.put wr rest n =
      { w with
        fs := w.fs.insert wr.target (.file (content ++ rest.take n))
        writing := some { wr with rest := some (rest.drop n) } } := by
    rw [World.put, hlook]
  have hsplit : (rest.take n).length + (rest.drop n).length = rest.length := by
    rw [← List.length_append, List.take_append_drop]
  rw [hput]
  apply h.insertFile (content ++ rest.take n) hunder hne hplain _ _ rfl
  · exact fun q hq => .inl hq
  · intro wr' hwr'
    obtain rfl := Option.some.inj hwr'
    have hinsert := weigh_insert (fileBytes sb.root) w.fs wr.target (.file (content ++ rest.take n))
    have hnew : fileBytes sb.root wr.target (.file (content ++ rest.take n)) = content.length + (rest.take n).length := by
      simp [fileBytes, hunder]
    refine ⟨hunder, hne, hplain, _, AList.lookup_insert _, ?_⟩
    intro hkeeps
    have hroomy := hbytes hkeeps
    dsimp only
    omega
  · intro hkeeps
    have hroomy := hbytes hkeeps
    rw [List.length_append]
    omega
  · intro hkeeps
    have hfiles := h.within.files hkeeps
    omega

theorem World.Inv.readFile (h : w.Inv keeps sb fs₀) (rel : String) (refused : Bool) :
    (sb.readFile w rel refused).2.Inv keeps sb fs₀ := by
  unfold FileSandbox.readFile
  obtain ⟨hgrown, hfs, htarget⟩ := resolve_cases sb w rel h.grounded
  have hinv : (sb.resolve w rel).2.Inv keeps sb fs₀ := by
    apply h.grow hgrown
    rw [hgrown.writing, hfs]
    exact h.writing
  match hres : sb.resolve w rel with
  | (.error e, w₁) =>
    rw [hres] at hinv
    exact hinv
  | (.ok target, w₁) =>
    rw [hres] at hinv htarget
    obtain ⟨hunder, -⟩ := htarget target rfl
    dsimp only at hinv ⊢
    split
    · refine hinv.same ?_ ?_ hinv.writing
      · rfl
      · intro q hq
        rcases List.mem_append.1 hq with hq | hq
        · exact .inl hq
        · obtain rfl := List.mem_singleton.1 hq
          exact .inr hunder
    · exact hinv.same rfl (fun q hq => .inl hq) hinv.writing

theorem World.Inv.listDir (h : w.Inv keeps sb fs₀) (rel : String) (unlisted : List Path) (refused : Bool) :
    (sb.listDir w rel unlisted refused).2.Inv keeps sb fs₀ := by
  unfold FileSandbox.listDir
  obtain ⟨hgrown, hfs, -⟩ := resolve_cases sb w rel h.grounded
  have hinv : (sb.resolve w rel).2.Inv keeps sb fs₀ := by
    apply h.grow hgrown
    rw [hgrown.writing, hfs]
    exact h.writing
  match hres : sb.resolve w rel with
  | (.error e, w₁) =>
    rw [hres] at hinv
    exact hinv
  | (.ok target, w₁) =>
    rw [hres] at hinv
    dsimp only at hinv ⊢
    have hemit : ∀ e, (w₁.emit e).Inv keeps sb fs₀ := fun e => hinv.same rfl (fun q hq => .inl hq) hinv.writing
    split
    · split
      · exact hemit _
      · exact hemit _
    · exact hemit _

theorem World.Inv.deleteFile (h : w.Inv keeps sb fs₀) (hidle : w.writing = none) (rel : String) (refused : Bool) :
    (sb.deleteFile w rel refused).2.Inv keeps sb fs₀ := by
  unfold FileSandbox.deleteFile
  obtain ⟨hgrown, hfs, htarget⟩ := resolve_cases sb w rel h.grounded
  have hnone : (sb.resolve w rel).2.writing = none := hgrown.writing.trans hidle
  have hinv : (sb.resolve w rel).2.Inv keeps sb fs₀ := h.grow hgrown (by simp [hnone])
  match hres : sb.resolve w rel with
  | (.error e, w₁) =>
    rw [hres] at hinv
    exact hinv
  | (.ok target, w₁) =>
    rw [hres] at hinv htarget hnone
    obtain ⟨hunder, -⟩ := htarget target rfl
    dsimp only at hinv hnone ⊢
    split
    · rename_i data hlook
      have hne : ¬ target <+: sb.root := by
        intro hup
        rw [hinv.grounded.rootDirs target hup] at hlook
        cases hlook
      have hb := weigh_erase (fileBytes sb.root) w₁.fs target
      have hf := weigh_erase (fileOne sb.root) w₁.fs target
      exact {
        grounded := hinv.grounded.erase hne
        within := by
          constructor
          · intro hkeeps
            have hbytes := hinv.within.bytes hkeeps
            dsimp only
            omega
          · intro hkeeps
            have hfiles := hinv.within.files hkeeps
            dsimp only
            omega
        outside := by
          intro q hq
          dsimp only
          rw [AList.lookup_erase_ne (by rintro rfl; exact hq hunder)]
          exact hinv.outside q hq
        touched := by
          intro q hq
          rcases List.mem_append.1 hq with hq | hq
          · exact hinv.touched q hq
          · obtain rfl := List.mem_singleton.1 hq
            exact hunder
        writing := by simp [World.emit, hnone] }
    · exact hinv.same rfl (fun q hq => .inl hq) hinv.writing

theorem World.Inv.step (h : w.Inv keeps sb fs₀) {a : Act} (hcounts : keeps → sb.Counts w a)
    (hstep : sb.step w a = some w') : w'.Inv keeps sb fs₀ := by
  cases a with
  | write rel data overwrite unlisted fault =>
    simp only [FileSandbox.step] at hstep
    match hidle : w.writing with
    | some wr =>
      rw [hidle] at hstep
      cases hstep
    | none =>
      rw [hidle] at hstep
      obtain ⟨hgrown, hroom⟩ := beginWrite_cases h.grounded h.within hcounts rel data overwrite fault
      have hinv := h.grow hgrown (by simp [hgrown.writing, hidle])
      match hbegin : sb.beginWrite w rel data overwrite unlisted fault with
      | (.error e, w₁) =>
        rw [hbegin] at hstep hinv
        obtain rfl := Option.some.inj hstep
        exact hinv
      | (.ok target, w₁) =>
        rw [hbegin] at hstep hinv hroom
        obtain rfl := Option.some.inj hstep
        refine hinv.same ?_ ?_ ?_
        · rfl
        · exact fun q hq => .inl hq
        · intro wr hwr
          obtain rfl := Option.some.inj hwr
          exact hroom target rfl
  | openFile =>
    simp only [FileSandbox.step] at hstep
    split at hstep
    · rename_i hwr
      obtain rfl := Option.some.inj hstep
      exact h.openFile (h.writing _ hwr)
    · cases hstep
  | put n =>
    simp only [FileSandbox.step] at hstep
    split at hstep
    · rename_i hwr
      obtain rfl := Option.some.inj hstep
      exact h.put (h.writing _ hwr) rfl n
    · cases hstep
  | fail =>
    simp only [FileSandbox.step] at hstep
    split at hstep
    · obtain rfl := Option.some.inj hstep
      exact h.same rfl (fun q hq => .inl hq) (by simp)
    · cases hstep
  | done =>
    simp only [FileSandbox.step] at hstep
    split at hstep
    · obtain rfl := Option.some.inj hstep
      exact h.same rfl (fun q hq => .inl hq) (by simp)
    · cases hstep
  | read rel refused =>
    obtain rfl := Option.some.inj hstep
    exact h.readFile rel refused
  | list rel unlisted refused =>
    obtain rfl := Option.some.inj hstep
    exact h.listDir rel unlisted refused
  | delete rel refused =>
    simp only [FileSandbox.step] at hstep
    match hidle : w.writing with
    | some wr =>
      rw [hidle] at hstep
      cases hstep
    | none =>
      rw [hidle] at hstep
      obtain rfl := Option.some.inj hstep
      exact h.deleteFile hidle rel refused

/-- In every run what is outside the root stays as it was and is not touched, and a write that raises before
`write_bytes` leaves the files and their contents as they are; and the files under the root stay within the quota in
every run whose scans see every file. -/
theorem sandbox_contract {acts : List Act} (hstart : Grounded sb.root fs₀)
    (hbytes : usedBytes fs₀ sb.root ≤ sb.maxBytes) (hfiles : usedFiles fs₀ sb.root ≤ sb.maxFiles)
    (hrun : run sb.step (World.start fs₀) acts = some w) :
    (Along sb.step sb.Counts (World.start fs₀) acts →
      usedBytes w.fs sb.root ≤ sb.maxBytes ∧ usedFiles w.fs sb.root ≤ sb.maxFiles) ∧
    (∀ p, ¬ sb.root <+: p → w.fs.lookup p = fs₀.lookup p) ∧
    (∀ p ∈ w.touched, sb.root <+: p) ∧
    ∀ rel data overwrite unlisted fault e w', sb.beginWrite w rel data overwrite unlisted fault = (.error e, w') →
      ∀ p content, w'.fs.lookup p = some (.file content) ↔ w.fs.lookup p = some (.file content) := by
  rw [usedBytes_eq hstart] at hbytes
  rw [usedFiles_eq hstart] at hfiles
  have hinv₀ : ∀ keeps, (World.start fs₀).Inv keeps sb fs₀ := fun _ =>
    { grounded := hstart
      within := ⟨fun _ => hbytes, fun _ => hfiles⟩
      outside := fun _ _ => rfl
      touched := fun _ hp => by cases hp
      writing := fun _ hwr => by cases hwr }
  -- whatever the scans see, the run stays under the root
  have h : w.Inv False sb fs₀ :=
    invariant (I := fun w => w.Inv False sb fs₀) (fun _ _ _ hstep hw => hw.step False.elim hstep) hrun (hinv₀ False)
  refine ⟨fun hcounts => ?_, h.outside, h.touched, ?_⟩
  · have hkept : w.Inv True sb fs₀ :=
      hcounts.invariant (I := fun w => w.Inv True sb fs₀) (fun _ _ _ hcount hstep hw => hw.step (fun _ => hcount) hstep)
        hrun (hinv₀ True)
    rw [usedBytes_eq h.grounded, usedFiles_eq h.grounded]
    exact ⟨hkept.within.bytes trivial, hkept.within.files trivial⟩
  · intro rel data overwrite unlisted fault e w' hbegin
    have hsees : False → SeesAll unlisted w.fs sb.root := False.elim
    obtain ⟨hgrown, -⟩ := beginWrite_cases h.grounded h.within hsees rel data overwrite fault
    rw [hbegin] at hgrown
    exact hgrown.same

/-! A sandbox with one file, which is overwritten by a longer one; a second file is refused. -/

def smallSandbox : FileSandbox := ⟨[['s', 'b']], 4, 1, fun _ => 4096⟩

def smallFs : Fs :=
  ((AList.insert [] .dir ∅).insert [['s', 'b']] .dir).insert [['s', 'b'], ['a']] (.file [1])

def isLink : Option Node → Bool
  | some (.link _) => true
  | _ => false

/-- A file system without any link. -/
private theorem Grounded.of_keys (hroot : ∀ q ∈ root.inits, fs.lookup q = some .dir)
    (hplain : ∀ p ∈ fs.keys, dotdot ∉ p)
    (hlinks : ∀ p ∈ fs.keys, isLink (fs.lookup p) = false) : Grounded root fs := by
  have hdirs : ∀ q, q <+: root → fs.lookup q = some .dir := fun q hq => hroot q ((List.mem_inits q root).2 hq)
  have hnames : ∀ p node, fs.lookup p = some node → dotdot ∉ p :=
    fun p node hlook => hplain p (AList.lookup_isSome.1 (by simp [hlook]))
  have hnone : ∀ p target, fs.lookup p ≠ some (.link target) := by
    intro p target hlook
    have hp := hlinks p (AList.lookup_isSome.1 (by simp [hlook]))
    simp [hlook, isLink] at hp
  exact ⟨hdirs, hnames root .dir (hdirs root (List.prefix_refl root)), fun p node hlook _ => hnames p node hlook,
    fun p target _ => hnone p target, fun p target hlook => absurd hlook (hnone p (some target))⟩

private theorem smallFs_grounded : Grounded smallSandbox.root smallFs :=
  .of_keys (by decide) (by decide) (by decide)

def overwrites : List Act :=
  [.write "a" [1, 2, 3] true [] none, .openFile, .put 2, .read "../sb/a" false, .put 1, .done,
    .write "b" [] false [] none]

/-- Where every directory may be listed, every file is seen. -/
private theorem seesAll_nil (fs : Fs) (root : Path) : SeesAll [] fs root := by
  intro p _ _ _
  simp [skipped]

theorem sandbox_contract_small : ∃ w, run smallSandbox.step (World.start smallFs) overwrites = some w ∧
    w.fs.lookup [['s', 'b'], ['a']] = some (.file [1, 2, 3]) ∧ usedBytes w.fs smallSandbox.root ≤ 4 ∧
    usedFiles w.fs smallSandbox.root ≤ 1 ∧ ∀ p ∈ w.touched, smallSandbox.root <+: p := by
  obtain ⟨w, hrun, hlook⟩ : ∃ w, run smallSandbox.step (World.start smallFs) overwrites = some w ∧
      w.fs.lookup [['s', 'b'], ['a']] = some (.file [1, 2, 3]) := ⟨_, rfl, rfl⟩
  have hcounts : Along smallSandbox.step smallSandbox.Counts (World.start smallFs) overwrites := by
    apply Along.of_at
    rintro n a t ⟨hget, -⟩
    have hmem := List.mem_of_getElem? hget
    simp only [overwrites, List.mem_cons, List.not_mem_nil, or_false] at hmem
    rcases hmem with rfl | rfl | rfl | rfl | rfl | rfl | rfl
    all_goals first | exact seesAll_nil _ _ | trivial
  obtain ⟨hkept, -, htouched, -⟩ := sandbox_contract smallFs_grounded (by decide) (by decide) hrun
  exact ⟨w, hrun, hlook, (hkept hcounts).1, (hkept hcounts).2, htouched⟩

/-! A sandbox for four bytes with a file of three in a directory that may not be listed. -/

def hidingSandbox : FileSandbox := ⟨[['s', 'b']], 4, 2, fun _ => 4096⟩

def hidingFs : Fs :=
  (((AList.insert [] .dir ∅).insert [['s', 'b']] .dir).insert [['s', 'b'], ['d']] .dir).insert
    [['s', 'b'], ['d'], ['a']] (.file [1, 2, 3])

/-- The scan misses the file, so three bytes more are let in. -/
theorem unlisted_exceeds : ∃ w, Grounded hidingSandbox.root hidingFs ∧
    usedBytes hidingFs hidingSandbox.root ≤ hidingSandbox.maxBytes ∧
    usedFiles hidingFs hidingSandbox.root ≤ hidingSandbox.maxFiles ∧
    run hidingSandbox.step (World.start hidingFs)
      [.write "b" [1, 2, 3] false [[['s', 'b'], ['d']]] none, .openFile, .put 3, .done] = some w ∧
    ¬ usedBytes w.fs hidingSandbox.root ≤ hidingSandbox.maxBytes :=
  ⟨_, .of_keys (by decide) (by decide) (by decide), by decide, by decide, rfl, by decide⟩

end IronHarness.Sandbox
