import IronHarness.Journal.Writer
import IronHarness.Lib.JsonLines

/-!
# Campaign rows

A campaign writes one JSON object a line: `agent_solve_results` all rows of `results.jsonl` at once, `_append_row` one
row after the other to a `rows.jsonl` that starts with the tombstone of its campaign.  `load_results` and `load_rows`
read them with `str.splitlines` and leave the tombstones out.
-/

namespace IronHarness.Campaign

open ByteText JsonLines JsonText TextLines
open Journal (Event)

variable {F : Type}

/-! ### The loaders -/

section Loaders

variable [JsonFloat F]

/-- `bool(value)` -/
def truthy : Value F → Bool
  | .null => false
  | .bool b => b
  | .int n => n != 0
  | .float x =>
    match JsonFloat.lit x with
    | .num l => l.int.any (· != '0') || (l.frac.getD []).any (· != '0')
    | _ => true
  | .str s => !s.isEmpty
  | .arr items => !items.isEmpty
  | .obj fields => !fields.isEmpty

/-- `bool(rec.get("tombstone"))` -/
def isTombstone (record : Fields F) : Bool := ((record.lookup "tombstone").map truthy).getD false

/-- The records of a file and the number of its lines that are no objects; `none` where the file is not UTF-8. -/
def loadLines (prep : Line → Line) (bs : Bytes) : Option (List (Fields F) × Nat) :=
  (decode bs).map fun text => load prep (fun record => !isTombstone record) (splitlines (universal text))

/-- What `load_results` reads from one `results.jsonl`. -/
def loadResultsFile (bs : Bytes) : Option (List (Fields F) × Nat) := loadLines id bs

def loadRows (bs : Bytes) : Option (List (Fields F) × Nat) := loadLines strip bs

theorem loadLines_text {prep : Line → Line} (hprep : Prep prep) {rows : List (Fields F)}
    (hnodup : ∀ row ∈ rows, (Value.obj row).keysNodup) :
    loadLines prep (encode (text rows)) = some (rows.filter fun record => !isTombstone record, 0) ↔
      ∀ row ∈ rows, hasSeparator row = false := by
  rw [loadLines, decode_encode, Option.map_some, Option.some.injEq]
  exact load_text_iff hprep hnodup

end Loaders

/-! ### Rows of a solve campaign -/

structure AttemptResult (F : Type) where
  task : String
  attempt : Int
  solved : Bool
  iterations : Int
  durationSec : F
  error : Option String
  errorKind : String

/-- A string or `None`. -/
def optStr : Option String → Value F
  | none => .null
  | some s => .str s

/-- The record of an attempt in `results.jsonl`. -/
def resultRow (model : String) (notes : Bool) (r : AttemptResult F) : Fields F :=
  [("task", .str r.task), ("attempt", .int r.attempt), ("solved", .bool r.solved), ("iterations", .int r.iterations),
    ("model", .str model), ("duration_sec", .float r.durationSec), ("error", optStr r.error),
    ("error_kind", .str r.errorKind), ("notes", .bool notes)]

/-- The text of `results.jsonl` that `agent_solve_results` writes after the attempts. -/
def payload [JsonFloat F] (model : String) (notes : Bool) (results : List (AttemptResult F)) : Bytes :=
  encode (text (results.map (resultRow model notes)))

/-- The strings of the record of an attempt. -/
def AttemptResult.texts (model : String) (r : AttemptResult F) : List String :=
  [r.task, model, r.errorKind] ++ r.error.toList

/-- No character of the string is a line boundary to `str.splitlines` and none to the printer. -/
def NoSeparator (s : String) : Prop := ∀ c ∈ s.toList, isSeparator c = false

theorem noSeparator_of_all {strs : List String} (h : strs.all (fun s => !s.toList.any isSeparator) = true) :
    ∀ s ∈ strs, NoSeparator s := by
  intro s hs c hc
  have hnone := List.all_eq_true.1 h s hs
  rw [Bool.not_eq_true', List.any_eq_false] at hnone
  exact Bool.eq_false_iff.2 (hnone c hc)

variable {model : String} {notes : Bool} {results : List (AttemptResult F)} {r : AttemptResult F}

private theorem resultRow_nodup : (Value.obj (resultRow model notes r)).keysNodup := by
  refine ⟨by simp [resultRow], ?_⟩
  cases herror : r.error <;> simp [resultRow, optStr, herror, Value.keysNodup, Value.keysNodup.fieldsNodup]

private theorem hasSeparator_resultRow :
    hasSeparator (resultRow model notes r) = false ↔ ∀ s ∈ r.texts model, NoSeparator s := by
  have hkey : ∀ k ∈ (resultRow model notes r).map Prod.fst, k.toList.any isSeparator = false := by
    have hkeys : (resultRow model notes r).map Prod.fst = ["task", "attempt", "solved", "iterations", "model",
      "duration_sec", "error", "error_kind", "notes"] := rfl
    rw [hkeys]
    decide
  have herror : (optStr r.error : Value F).anyChar isSeparator = r.error.toList.any (·.toList.any isSeparator) := by
    cases r.error <;> simp [optStr, Value.anyChar]
  simp only [resultRow, List.map_cons, List.map_nil, List.forall_mem_cons] at hkey
  obtain ⟨h1, h2, h3, h4, h5, h6, h7, h8, h9, -⟩ := hkey
  simp only [hasSeparator, resultRow, Value.anyChar, Value.anyChar.fieldsAny, h1, h2, h3, h4, h5, h6, h7, h8, h9, herror,
    Bool.false_or, Bool.or_false, Bool.or_eq_false_iff, AttemptResult.texts, List.forall_mem_append, List.forall_mem_cons,
    List.any_eq_false, Bool.not_eq_true]
  simp only [List.not_mem_nil, false_implies, implies_true, and_true]
  tauto

theorem payload_survives_iff [JsonFloat F] :
    loadResultsFile (payload model notes results) = some (results.map (resultRow model notes), 0) ↔
      ∀ r ∈ results, ∀ s ∈ r.texts model, NoSeparator s := by
  have hnodup : ∀ row ∈ results.map (resultRow model notes), (Value.obj row).keysNodup := by
    intro row hrow
    obtain ⟨r, -, rfl⟩ := List.mem_map.1 hrow
    exact resultRow_nodup
  have hkeep : (results.map (resultRow model notes)).filter (fun record => !isTombstone record) =
      results.map (resultRow model notes) := by
    rw [List.filter_eq_self]
    intro row hrow
    obtain ⟨r, -, rfl⟩ := List.mem_map.1 hrow
    rfl
  have htext := loadLines_text prep_id hnodup
  rw [hkeep] at htext
  rw [loadResultsFile, payload, htext, List.forall_mem_map]
  simp only [hasSeparator_resultRow]

/-! ### Rows appended one by one -/

/-- A row that is no tombstone. -/
structure Row (F : Type) [JsonFloat F] extends Event F where
  not_tombstone : isTombstone fields = false

/-- What a campaign says about itself besides being the tombstone. -/
structure Header (F : Type) extends Event F where
  no_tombstone : "tombstone" ∉ fields.map Prod.fst

/-- `{"tombstone": True, **header}` -/
def Header.tombstone (header : Header F) : Fields F := ("tombstone", .bool true) :: header.fields

theorem Header.tombstone_nodup (header : Header F) : (Value.obj header.tombstone).keysNodup := by
  obtain ⟨hkeys, hfields⟩ := header.nodup
  exact ⟨List.nodup_cons.2 ⟨header.no_tombstone, hkeys⟩, trivial, hfields⟩

variable [JsonFloat F]

theorem Header.isTombstone (header : Header F) : isTombstone header.tombstone = true := rfl

/-- `_append_row`: a file that is not there yet is the empty one. -/
def appendRow (file : Bytes) (row : Row F) : Bytes := file ++ encode (dumps (.obj row.fields) ++ ['\n'])

/-- The file before the first row: the tombstone that `_start_rows_campaign` leaves, or nothing. -/
def startRows : Option (Header F) → Bytes
  | none => []
  | some header => encode (dumps (.obj header.tombstone) ++ ['\n'])

/-- The lines of the file. -/
def rowLines (header : Option (Header F)) (rows : List (Row F)) : List (Fields F) :=
  header.toList.map Header.tombstone ++ rows.map fun row => row.fields

theorem text_append (a b : List (Fields F)) : text (a ++ b) = text a ++ text b := by
  rw [text, List.map_append, join_append]
  rfl

theorem appended_rows (header : Option (Header F)) (rows : List (Row F)) :
    rows.foldl appendRow (startRows header) = encode (text (rowLines header rows)) := by
  induction rows using List.reverseRecOn with
  | nil =>
    cases header with
    | none => rfl
    | some header => simp [startRows, rowLines, text, join]
  | append_singleton rows row ih =>
    have hlines : rowLines header (rows ++ [row]) = rowLines header rows ++ [row.fields] := by
      simp [rowLines]
    rw [List.foldl_append, ih, hlines, text_append, encode_append]
    simp [appendRow, text, join]

theorem rows_survive_iff (header : Option (Header F)) (rows : List (Row F)) :
    loadRows (rows.foldl appendRow (startRows header)) = some (rows.map fun row => row.fields, 0) ↔
      ∀ line ∈ rowLines header rows, hasSeparator line = false := by
  have hnodup : ∀ line ∈ rowLines header rows, (Value.obj line).keysNodup := by
    intro line hline
    rcases List.mem_append.1 hline with hline | hline
    · obtain ⟨header, -, rfl⟩ := List.mem_map.1 hline
      exact header.tombstone_nodup
    · obtain ⟨row, -, rfl⟩ := List.mem_map.1 hline
      exact row.nodup
  have hkeep : (rowLines header rows).filter (fun record => !isTombstone record) = rows.map fun row => row.fields := by
    have hheader : (header.toList.map Header.tombstone).filter (fun record => !isTombstone record) = [] := by
      rw [List.filter_eq_nil_iff]
      intro line hline
      obtain ⟨header, -, rfl⟩ := List.mem_map.1 hline
      rw [header.isTombstone]
      exact Bool.false_ne_true
    have hrows : (rows.map fun row => row.fields).filter (fun record => !isTombstone record) =
        rows.map fun row => row.fields := by
      rw [List.filter_eq_self]
      intro line hline
      obtain ⟨row, -, rfl⟩ := List.mem_map.1 hline
      rw [row.not_tombstone]
      rfl
    rw [rowLines, List.filter_append, hheader, hrows]
    rfl
  have htext := loadLines_text prep_strip hnodup
  rw [hkeep] at htext
  rw [loadRows, appended_rows, htext]

/-- Both files give back the rows, with no line counted, exactly when no string written to them contains a
separator. -/
theorem campaign_rows_survive_iff :
    (∀ (model : String) (notes : Bool) (results : List (AttemptResult F)),
      loadResultsFile (payload model notes results) = some (results.map (resultRow model notes), 0) ↔
        ∀ r ∈ results, ∀ s ∈ r.texts model, NoSeparator s) ∧
    ∀ (header : Option (Header F)) (rows : List (Row F)),
      loadRows (rows.foldl appendRow (startRows header)) = some (rows.map fun row => row.fields, 0) ↔
        ∀ line ∈ rowLines header rows, hasSeparator line = false :=
  ⟨fun _ _ _ => payload_survives_iff, rows_survive_iff⟩

def halfSecond : LitFloat := ⟨.num ⟨false, ['0'], some ['5'], none⟩, rfl⟩

/-- An attempt whose error text has a line separator. -/
def separatedResult : AttemptResult LitFloat where
  task := "blink"
  attempt := 1
  solved := false
  iterations := 1
  durationSec := halfSecond
  error := some "LLM error: a\u2028b"
  errorKind := "infra"

theorem separated_row_lost :
    loadResultsFile (payload "m" false [separatedResult]) ≠ some ([separatedResult].map (resultRow "m" false), 0) := by
  rw [Ne, payload_survives_iff]
  intro h
  have hsep := h separatedResult (by simp) "LLM error: a\u2028b" (by decide) '\u2028' (by decide)
  exact absurd hsep (by decide)

end IronHarness.Campaign
