import IronHarness.Journal.Writer
import Mathlib.Data.List.Perm.Subperm

/-!
# The journal readers

`read_events`, `chain_files` and `read_events_chain` of the journal, and the lenient reader of the viewer.  The walk
over the parts stops at the first number without a file, which the number of files bounds (`exists_height`).
-/

namespace IronHarness.Journal

open ByteText JsonText TextLines Rotation

variable {F : Type}

/-! ### The strict reader -/

inductive ReadError
  /-- FileNotFoundError -/
  | notFound (file : String)
  /-- UnicodeDecodeError -/
  | undecodable (file : String)
  /-- JournalCorrupt, with the file, the number of the line and what is wrong with it -/
  | corrupt (file : String) (line : Nat) (what : String)
  deriving DecidableEq, Repr

/-- The events of the lines from line `n` on; an error is the number of the bad line and what is wrong with it. -/
def parseLines [JsonFloat F] : Nat → List Line → Except (Nat × String) (List (List (String × Value F)))
  | _, [] => .ok []
  | n, line :: rest =>
    if isBlank line then parseLines (n + 1) rest
    else
      match loads line with
      | some (.obj fields) => (parseLines (n + 1) rest).map (fields :: ·)
      | some _ => .error (n, "line is not a JSON object")
      | none => .error (n, "line is not valid JSON")

/-- The events of the contents of a file; an error without a line is one of the decoder. -/
def parseContent [JsonFloat F] (bs : Bytes) : Except (Option (Nat × String)) (List (List (String × Value F))) :=
  match decode bs with
  | none => .error none
  | some text => (parseLines 1 (fileLines text)).mapError some

/-- `read_events`. -/
def readEvents [JsonFloat F] (d : Dir) (file : String) : Except ReadError (List (List (String × Value F))) :=
  match d.lookup file with
  | none => .error (.notFound file)
  | some bs =>
    (parseContent bs).mapError fun
      | none => .undecodable file
      | some (n, what) => .corrupt file n what

/-- The numbers of the parts found from `idx` on, up to the first one missing. -/
def chainParts (d : Dir) (name : String) : Nat → Nat → List Nat
  | 0, _ => []
  | fuel + 1, idx =>
    if (d.lookup (partName name idx)).isSome then idx :: chainParts d name fuel (idx + 1) else []

/-- `chain_files`: the parts, the highest number first, and the live file.  The numbers are found in order, so sorting
them downwards reverses them. -/
def chainFiles (d : Dir) (name : String) : List String :=
  (chainParts d name d.keys.length 1).reverse.map (partName name) ++ (if (d.lookup name).isSome then [name] else [])

/-- `read_events_chain`. -/
def readEventsChain [JsonFloat F] (d : Dir) (name : String) : Except ReadError (List (List (String × Value F))) :=
  ((chainFiles d name).mapM (readEvents d)).map List.flatten

/-! ### The lenient reader -/

/-- The events of lines, and the number of lines that are no JSON objects. -/
def lenientLines [JsonFloat F] : List Line → List (List (String × Value F)) × Nat
  | [] => ([], 0)
  | line :: rest =>
    let (events, skipped) := lenientLines rest
    if isBlank line then (events, skipped)
    else
      match loads line with
      | some (.obj fields) => (fields :: events, skipped)
      | _ => (events, skipped + 1)

/-- `part_path.read_text(encoding="utf-8", errors="replace").splitlines()`. -/
def lenientText (bs : Bytes) : List Line := splitlines (universal (decodeReplace bs))

/-- The loop of `load_events_lenient` over the files it found. -/
def readLenient [JsonFloat F] (d : Dir) : List String → Except ReadError (List (List (String × Value F)) × Nat)
  | [] => .ok ([], 0)
  | file :: files =>
    match d.lookup file with
    | none => .error (.notFound file)
    | some bs =>
      let (events, skipped) := lenientLines (lenientText bs)
      (readLenient d files).map fun later => (events ++ later.1, skipped + later.2)

/-- `load_events_lenient`, with no writer at work. -/
def loadEventsLenient [JsonFloat F] (d : Dir) (name : String) :
    Except ReadError (List (List (String × Value F)) × Nat) :=
  if (chainFiles d name).isEmpty then .error (.notFound name) else readLenient d (chainFiles d name)

/-! ### The files of a chain -/

/-- The files of the slots `k`, …, 1 and the live file. -/
def slotFiles (d : Dir) (name : String) : Nat → List String
  | 0 => if (d.lookup name).isSome then [name] else []
  | k + 1 => partName name (k + 1) :: slotFiles d name k

variable {d : Dir} {name : String} {k : Nat}

private theorem chainParts_eq {fuel idx : Nat} (hk : Height (slots name d) k) (hidx : 1 ≤ idx)
    (hle : idx ≤ k + 1) (hfuel : k + 1 - idx ≤ fuel) : chainParts d name fuel idx = List.range' idx (k + 1 - idx) := by
  induction fuel generalizing idx with
  | zero =>
    have : k + 1 - idx = 0 := by omega
    rw [this]
    rfl
  | succ fuel ih =>
    rw [chainParts]
    rcases Nat.lt_or_ge k idx with hlt | hge
    · obtain rfl : idx = k + 1 := by omega
      have hnone : d.lookup (partName name (k + 1)) = none := hk.2
      rw [hnone, Nat.sub_self]
      rfl
    · have hsome : d.lookup (partName name idx) ≠ none := by
        have := hk.1 idx hidx hge
        rwa [slots, fileName_of_pos hidx] at this
      rw [if_pos (Option.isSome_iff_ne_none.2 hsome), ih (by omega) (by omega) (by omega)]
      obtain ⟨n, hn⟩ : ∃ n, k + 1 - idx = n + 1 := ⟨k - idx, by omega⟩
      rw [hn, show k + 1 - (idx + 1) = n by omega, List.range'_succ]

private theorem reverse_range'_slotFiles (d : Dir) (name : String) (k : Nat) :
    (List.range' 1 k).reverse.map (partName name) ++ (if (d.lookup name).isSome then [name] else []) =
      slotFiles d name k := by
  induction k with
  | zero => rfl
  | succ k ih =>
    rw [List.range'_1_concat, List.reverse_append, List.map_append, List.append_assoc, ih, Nat.add_comm 1 k]
    rfl

/-- Parts 1 to `k` are files of the directory. -/
private theorem le_length_keys (hk : ∀ i, 1 ≤ i → i ≤ k → slots name d i ≠ none) : k ≤ d.keys.length := by
  have hnodup : ((List.range' 1 k).map (partName name)).Nodup :=
    List.Nodup.map (fun i j h => partName_inj h) (List.nodup_range' 1)
  have hsub : (List.range' 1 k).map (partName name) ⊆ d.keys := by
    intro file hfile
    obtain ⟨i, hi, rfl⟩ := List.mem_map.1 hfile
    rw [List.mem_range'_1] at hi
    have hsome := hk i (by omega) (by omega)
    rw [slots, fileName_of_pos (by omega)] at hsome
    have hmem : partName name i ∈ d := AList.lookup_isSome.1 (Option.isSome_iff_ne_none.2 hsome)
    exact AList.mem_keys.1 hmem
  have hlen := (hnodup.subperm hsub).length_le
  simpa using hlen

/-- Some part is missing, and up to the first one missing there are no more than the files of the directory. -/
private theorem exists_height (name : String) (d : Dir) : ∃ k, k ≤ d.keys.length ∧ Height (slots name d) k := by
  have hmissing : ∃ i, slots name d (i + 1) = none := by
    by_contra hall
    have hsome : ∀ i, 1 ≤ i → i ≤ d.keys.length + 1 → slots name d i ≠ none := by
      intro i hi _ hnone
      obtain ⟨j, rfl⟩ : ∃ j, i = j + 1 := ⟨i - 1, by omega⟩
      exact hall ⟨j, hnone⟩
    have := le_length_keys hsome
    omega
  classical
  refine ⟨Nat.find hmissing, ?_, ?_, Nat.find_spec hmissing⟩
  · have hbelow : ∀ i, 1 ≤ i → i ≤ Nat.find hmissing → slots name d i ≠ none := by
      intro i hi hle
      obtain ⟨j, rfl⟩ : ∃ j, i = j + 1 := ⟨i - 1, by omega⟩
      exact Nat.find_min hmissing (by omega)
    exact le_length_keys hbelow
  · intro i hi hle
    obtain ⟨j, rfl⟩ : ∃ j, i = j + 1 := ⟨i - 1, by omega⟩
    exact Nat.find_min hmissing (by omega)

theorem chainFiles_eq (hk : Height (slots name d) k) : chainFiles d name = slotFiles d name k := by
  have hle : k ≤ d.keys.length := le_length_keys hk.1
  rw [chainFiles, chainParts_eq hk (Nat.le_refl 1) (by omega) (by omega), Nat.add_sub_cancel]
  exact reverse_range'_slotFiles d name k

/-- The number of parts `chain_files` finds. -/
def chainHeight (d : Dir) (name : String) : Nat := (chainParts d name d.keys.length 1).length

theorem height_chainHeight (d : Dir) (name : String) : Height (slots name d) (chainHeight d name) := by
  obtain ⟨k, hk, hheight⟩ := exists_height name d
  rw [chainHeight, chainParts_eq hheight (Nat.le_refl 1) (by omega) (by omega), List.length_range',
    Nat.add_sub_cancel]
  exact hheight

/-! ### What the strict reader returns -/

/-- The events of the contents of a file that is read without an error. -/
def fileEvents [JsonFloat F] (bs : Bytes) : List (List (String × Value F)) :=
  match parseContent bs with
  | .ok events => events
  | .error _ => []

/-- The contents are read without an error. -/
def Readable (F : Type) [JsonFloat F] (bs : Bytes) : Prop := ∃ events, parseContent (F := F) bs = .ok events

theorem readEvents_ok_iff [JsonFloat F] {file : String} {events : List (List (String × Value F))} :
    readEvents d file = .ok events ↔ ∃ bs, d.lookup file = some bs ∧ Readable F bs ∧ events = fileEvents bs := by
  unfold readEvents
  cases hlook : d.lookup file with
  | none => simp
  | some bs =>
    cases hparse : parseContent (F := F) bs with
    | error e => simp [hparse, Except.mapError, Readable]
    | ok es =>
      simp only [hparse, Except.mapError, Readable, fileEvents, Except.ok.injEq, Option.some.injEq]
      constructor
      · rintro rfl
        exact ⟨bs, rfl, ⟨_, hparse⟩, by rw [hparse]⟩
      · rintro ⟨bs', rfl, -, rfl⟩
        rw [hparse]

private theorem chain_cons_ok [JsonFloat F] {file : String} {files : List String}
    {events : List (List (String × Value F))} :
    ((file :: files).mapM (readEvents d)).map List.flatten = .ok events ↔
      ∃ es rest, readEvents d file = .ok es ∧ (files.mapM (readEvents d)).map List.flatten = .ok rest ∧
        events = es ++ rest := by
  rw [List.mapM_cons]
  cases hfile : readEvents (F := F) d file with
  | error e => simp [bind, Except.bind, Except.map]
  | ok es =>
    cases hrest : files.mapM (readEvents (F := F) d) with
    | error e => simp [bind, Except.bind, Except.map]
    | ok rest =>
      simp only [bind, Except.bind, pure, Except.pure, Except.map, List.flatten_cons, Except.ok.injEq]
      constructor
      · rintro rfl
        exact ⟨es, _, rfl, rfl, rfl⟩
      · rintro ⟨_, _, rfl, rfl, rfl⟩
        rfl

private theorem slotFiles_ok_iff [JsonFloat F] (events : List (List (String × Value F)))
    (hk : ∀ i, 1 ≤ i → i ≤ k → slots name d i ≠ none) :
    ((slotFiles d name k).mapM (readEvents d)).map List.flatten = .ok events ↔
      (∀ i, i ≤ k → ∀ bs, slots name d i = some bs → Readable F bs) ∧
        events = upTo fileEvents (slots name d) k := by
  induction k generalizing events with
  | zero =>
    have hlook : slots name d 0 = d.lookup name := rfl
    rw [slotFiles, upTo, items]
    cases h : d.lookup name with
    | none =>
      simp only [Option.isSome_none, Bool.false_eq_true, ↓reduceIte, hlook, h, Option.elim_none]
      constructor
      · intro hok
        refine ⟨?_, ?_⟩
        · intro i hi bs hbs
          obtain rfl : i = 0 := by omega
          rw [hlook, h] at hbs
          cases hbs
        · have : Except.ok (ε := ReadError) ([] : List (List (String × Value F))) = .ok events := hok
          exact (Except.ok.inj this).symm
      · rintro ⟨-, rfl⟩
        rfl
    | some bs =>
      simp only [Option.isSome_some, ↓reduceIte, hlook, h, Option.elim_some]
      rw [chain_cons_ok]
      constructor
      · rintro ⟨es, rest, hes, hrest, rfl⟩
        obtain ⟨bs', hbs', hread, rfl⟩ := readEvents_ok_iff.1 hes
        obtain rfl : bs' = bs := by
          rw [h] at hbs'
          exact (Option.some.inj hbs').symm
        obtain rfl : [] = rest := Except.ok.inj hrest
        refine ⟨?_, List.append_nil _⟩
        intro i hi bs'' hbs''
        obtain rfl : i = 0 := by omega
        rw [hlook, h] at hbs''
        rwa [← Option.some.inj hbs'']
      · rintro ⟨hread, rfl⟩
        exact ⟨fileEvents bs, [], readEvents_ok_iff.2 ⟨bs, h, hread 0 (Nat.le_refl 0) bs h, rfl⟩, rfl,
          (List.append_nil _).symm⟩
  | succ k ih =>
    obtain ⟨bs, hbs⟩ := Option.ne_none_iff_exists'.1 (hk (k + 1) (by omega) (Nat.le_refl _))
    have hlook : d.lookup (partName name (k + 1)) = some bs := hbs
    have hrest := fun events => ih events fun i hi hik => hk i hi (by omega)
    have hitems : items (fileEvents (F := F)) (slots name d) (k + 1) = fileEvents bs := by
      rw [items, hbs]
      rfl
    rw [slotFiles, chain_cons_ok, upTo, hitems]
    constructor
    · rintro ⟨es, rest, hes, hres, rfl⟩
      obtain ⟨bs', hbs', hread, rfl⟩ := readEvents_ok_iff.1 hes
      obtain rfl : bs' = bs := by
        rw [hlook] at hbs'
        exact (Option.some.inj hbs').symm
      obtain ⟨hall, rfl⟩ := (hrest _).1 hres
      refine ⟨?_, rfl⟩
      intro i hi bs'' hbs''
      rcases Nat.lt_or_ge k i with hlt | hge
      · obtain rfl : i = k + 1 := by omega
        rw [hbs] at hbs''
        rwa [← Option.some.inj hbs'']
      · exact hall i hge bs'' hbs''
    · rintro ⟨hread, rfl⟩
      refine ⟨fileEvents bs, _, readEvents_ok_iff.2 ⟨bs, hlook, hread (k + 1) (Nat.le_refl _) bs hbs, rfl⟩,
        (hrest _).2 ⟨?_, rfl⟩, rfl⟩
      intro i hi
      exact hread i (by omega)

/-- The chain is read without an error when each of its files is, and the events are those of the files in order. -/
theorem readEventsChain_ok_iff [JsonFloat F] {events : List (List (String × Value F))}
    (hk : Height (slots name d) k) :
    readEventsChain d name = .ok events ↔
      (∀ i, i ≤ k → ∀ bs, slots name d i = some bs → Readable F bs) ∧
        events = upTo fileEvents (slots name d) k := by
  rw [readEventsChain, chainFiles_eq hk]
  exact slotFiles_ok_iff events hk.1

/-! ### Files of event lines -/

theorem isBlank_line [JsonFloat F] (e : Event F) (r : List Char) : isBlank (e.line ++ r) = false := by
  have hhead : ∃ t, e.line = '{' :: t := by
    obtain ⟨fields, -⟩ := e
    rcases fields with _ | ⟨⟨k, v⟩, fs⟩ <;> exact ⟨_, rfl⟩
  obtain ⟨t, ht⟩ := hhead
  rw [isBlank, ht, List.cons_append, List.all_cons, show isSpace '{' = false by decide, Bool.false_and]

theorem loads_line [JsonFloat F] (e : Event F) {ws : List Char} (hws : ∀ c ∈ ws, isWs c = true) :
    loads (e.line ++ ws) = some (.obj e.fields) := loads_dumps e.nodup hws

private theorem parseLines_lines [JsonFloat F] (n : Nat) (events : List (Event F)) :
    parseLines n ((events.map Event.line).map (· ++ ['\n'])) = .ok (events.map Event.fields) := by
  induction events generalizing n with
  | nil => rfl
  | cons e events ih =>
    have hload : loads (e.line ++ ['\n']) = some (.obj e.fields) := loads_line e (by simp [isWs])
    rw [List.map_cons, List.map_cons, parseLines, isBlank_line, hload, ih]
    rfl

theorem plain_lines [JsonFloat F] (events : List (Event F)) : ∀ l ∈ events.map Event.line, Plain l := by
  intro l hl
  obtain ⟨e, -, rfl⟩ := List.mem_map.1 hl
  exact dumps_no_control _

/-- A file of event lines is read back. -/
theorem parseContent_eventBytes [JsonFloat F] (events : List (Event F)) :
    parseContent (eventBytes events) = .ok (events.map Event.fields) := by
  rw [parseContent, eventBytes, decode_encode]
  dsimp only
  rw [fileLines_join (plain_lines events), parseLines_lines]
  rfl

theorem readable_eventBytes [JsonFloat F] (events : List (Event F)) : Readable F (eventBytes events) :=
  ⟨_, parseContent_eventBytes events⟩

theorem fileEvents_eventBytes [JsonFloat F] (events : List (Event F)) :
    fileEvents (eventBytes events) = events.map Event.fields := by
  rw [fileEvents, parseContent_eventBytes]

end IronHarness.Journal
