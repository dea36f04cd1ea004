import Mathlib.Data.Rat.Defs
import Mathlib.Algebra.Order.Field.Rat
import Mathlib.Algebra.Order.Field.Basic
import IronHarness.Journal.Live
import IronHarness.Lib.JsonLines

/-!
# Journal coverage

`journal_coverage`: the journaled device operations of an attempt, counted by the kind of their events in journal files,
over the operations its agent declared.  Of a journal file the events of the counted kinds whose text has no line
separator are counted (`ops_eventBytes`).
-/

namespace IronHarness.Campaign

open ByteText JsonLines JsonText TextLines
open Journal (Event eventBytes)

variable {F : Type} [JsonFloat F]

def journaledKinds : List String :=
  ["serial_open", "serial_write", "serial_read", "serial_reset", "serial_put", "serial_get", "esp_flash", "esp_erase",
    "file_write", "file_delete"]

/-- `str(event.get("kind", "")) in JOURNALED_KINDS`; the text of a value that is no string is not among them. -/
def isJournaled (event : Fields F) : Bool :=
  match event.lookup "kind" with
  | some (.str kind) => journaledKinds.contains kind
  | _ => false

/-- The journaled operations in the files that are there, and their lines that are no objects. -/
def countJournalOps (F : Type) [JsonFloat F] : List (Option Bytes) → Nat × Nat
  | [] => (0, 0)
  | none :: files => countJournalOps F files
  | some bs :: files =>
    let loaded := load id (isJournaled (F := F)) (splitlines (universal (decodeReplace bs)))
    (loaded.1.length + (countJournalOps F files).1, loaded.2 + (countJournalOps F files).2)

/-- The coverage (`None` where nothing was declared) and the lines dropped. -/
def journalCoverage (F : Type) [JsonFloat F] (declared : Nat) (files : List (Option Bytes)) : Option ℚ × Nat :=
  let (ops, dropped) := countJournalOps F files
  (if declared = 0 then none else some (min 1 ((ops : ℚ) / declared)), dropped)

/-! ### What is counted -/

/-- An event that is counted in its file. -/
def isCounted (e : Event F) : Bool := isJournaled e.fields && !hasSeparator e.fields

omit [JsonFloat F] in
private theorem properKey_isJournaled : ProperKey (isJournaled (F := F)) := by
  intro fields hinv
  have hnone : fields.lookup "kind" = none := by
    rw [List.lookup_eq_none_iff]
    intro f hf
    obtain ⟨c, hc, hcloser⟩ := hinv f hf
    rw [bne_iff_ne]
    intro hkey
    rw [← hkey] at hc
    obtain rfl : 'k' = c := by simpa using hc
    exact absurd hcloser (by decide)
  rw [isJournaled, hnone]

theorem ops_append (files files' : List (Option Bytes)) :
    (countJournalOps F (files ++ files')).1 = (countJournalOps F files).1 + (countJournalOps F files').1 := by
  induction files with
  | nil => simp [countJournalOps]
  | cons file files ih =>
    cases file with
    | none => exact ih
    | some bs =>
      rw [List.cons_append, countJournalOps, countJournalOps, ih]
      exact (Nat.add_assoc _ _ _).symm

/-- The operations in a file of events. -/
theorem ops_eventBytes (events : List (Event F)) :
    (countJournalOps F [some (eventBytes events)]).1 = events.countP isCounted := by
  have hbytes : eventBytes events = encode (text (events.map fun e => e.fields)) := by
    rw [eventBytes, text, List.map_map]
    rfl
  have hnodup : ∀ row ∈ events.map (fun e => e.fields), (Value.obj row).keysNodup := by
    intro row hrow
    obtain ⟨e, -, rfl⟩ := List.mem_map.1 hrow
    exact e.nodup
  rw [countJournalOps, countJournalOps, hbytes, decodeReplace_encode, load_text_kept properKey_isJournaled hnodup,
    List.filter_map, List.length_map, List.countP_eq_length_filter]
  rfl

theorem coverage_eq_one {declared : Nat} {files : List (Option Bytes)} :
    (journalCoverage F declared files).1 = some 1 ↔ 0 < declared ∧ declared ≤ (countJournalOps F files).1 := by
  unfold journalCoverage
  dsimp only
  by_cases hzero : declared = 0
  · rw [if_pos hzero]
    constructor
    · intro h
      cases h
    · intro h
      omega
  · have hpos : (0 : ℚ) < declared := by
      exact_mod_cast Nat.pos_of_ne_zero hzero
    rw [if_neg hzero, Option.some.injEq, min_eq_left_iff, le_div_iff₀ hpos, one_mul, Nat.cast_le]
    constructor
    · intro h
      exact ⟨Nat.pos_of_ne_zero hzero, h⟩
    · exact fun h => h.2

/-- Two attempts that declare the same are covered alike when they journal equally much or both enough. -/
theorem coverage_eq_iff {declared : Nat} {files files' : List (Option Bytes)} :
    (journalCoverage F declared files).1 = (journalCoverage F declared files').1 ↔
      declared = 0 ∨ (countJournalOps F files).1 = (countJournalOps F files').1 ∨
        (declared ≤ (countJournalOps F files).1 ∧ declared ≤ (countJournalOps F files').1) := by
  unfold journalCoverage
  dsimp only
  by_cases hzero : declared = 0
  · simp [hzero]
  have hpos : (0 : ℚ) < declared := by
    exact_mod_cast Nat.pos_of_ne_zero hzero
  have hmin : ∀ n : Nat, min (1 : ℚ) ((n : ℚ) / declared) = ((min declared n : Nat) : ℚ) / declared := by
    intro n
    have hone : (1 : ℚ) = declared / declared := (div_self (ne_of_gt hpos)).symm
    rw [Nat.cast_min, hone, min_div_div_right (le_of_lt hpos)]
  rw [if_neg hzero, if_neg hzero, Option.some.injEq, hmin, hmin, div_left_inj' (ne_of_gt hpos), Nat.cast_inj]
  constructor
  · intro h
    right
    omega
  · rintro (h | h | h)
    · exact absurd h hzero
    · rw [h]
    · omega

/-! ### What an attempt declares and journals -/

/-- A turn of an agent. -/
inductive Turn
  | script (code : List Char)
  | tool (name : String)
  | claim
  | invalid
  deriving DecidableEq, Repr

/-- `JOURNALED_TOOL_RE.match(name)` -/
def isJournaledTool (name : String) : Bool :=
  ["serial_", "esp_", "file_", "mqtt_"].any fun front => front.toList.isPrefixOf name.toList

def countToolOps (turns : List Turn) : Nat :=
  turns.countP fun
    | .tool name => isJournaledTool name
    | _ => false

/-- Nothing was rotated away, and no record has a separator. -/
structure Intact (cfg : Journal.Config) (actor : String) (calls : List (Journal.Call F)) : Prop where
  room : (eventBytes (Journal.allRecords (Journal.newJournal cfg actor) calls)).length ≤ cfg.maxBytes
  plain : ∀ e ∈ Journal.allRecords (Journal.newJournal cfg actor) calls, hasSeparator e.fields = false

omit [JsonFloat F] in
private theorem isJournaled_record (ts : F) (seq : Nat) (actor kind : String) (data : Event F) :
    isJournaled (Journal.record ts seq actor kind data).fields = journaledKinds.contains kind := rfl

omit [JsonFloat F] in
/-- Of the records of a call the first one may be counted. -/
private theorem records_count (j : Journal.JsonlJournal) (c : Journal.Call F) :
    (j.records c).countP (fun e => isJournaled e.fields) = if journaledKinds.contains c.kind then 1 else 0 := by
  rw [Journal.JsonlJournal.records, List.countP_cons, isJournaled_record]
  have hconflict : (if Journal.conflicts c.data = [] then []
      else [Journal.conflictRecord c.tsConflict (j.seq + 1) j.actor c.kind c.data]).countP
        (fun e => isJournaled e.fields) = 0 := by
    split
    · rfl
    · rfl
  rw [hconflict, Nat.zero_add]

omit [JsonFloat F] in
private theorem allRecords_count (j : Journal.JsonlJournal) (calls : List (Journal.Call F)) :
    (Journal.allRecords j calls).countP (fun e => isJournaled e.fields) =
      calls.countP fun c => journaledKinds.contains c.kind := by
  induction calls generalizing j with
  | nil => rfl
  | cons c calls ih =>
    rw [Journal.allRecords, List.countP_append, ih, records_count, List.countP_cons]
    omega

/-- In an intact journal every event of a counted kind is counted. -/
theorem Intact.count {cfg : Journal.Config} {actor : String} {calls : List (Journal.Call F)}
    (h : Intact cfg actor calls) :
    (Journal.liveEvents cfg actor calls).countP isCounted = calls.countP fun c => journaledKinds.contains c.kind := by
  rw [Journal.liveEvents_all h.room, ← allRecords_count (Journal.newJournal cfg actor)]
  apply List.countP_congr
  intro e he
  simp [isCounted, h.plain e he]

end IronHarness.Campaign
