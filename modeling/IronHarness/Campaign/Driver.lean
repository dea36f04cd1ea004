import IronHarness.Campaign.Rows
import IronHarness.Lib.JsonTorn
import IronHarness.Ops.Summary

/-!
# An ops campaign and its report

`_cmd_ops_ab` (ironbench/cli.py) runs the attempts of a matrix one after the other and appends a row for each to the
`rows.jsonl` that `_start_rows_campaign` has put in place of an earlier one; an attempt that raises gets a crash row.  The
process may die at any point, inside a row too.  `load_rows` and `summarize` read the file later: they report the attempts
of this campaign, each once and in order, and lose at most the one that was being written (`ops_campaign_reported`).
-/

namespace IronHarness.Campaign

open ByteText JsonLines JsonText TextLines
open Journal (Event)
open Ops.OpsReport (figures groups groupName judgedOf keysOf lastKey optText summarize)
open IronHarness.Report (Arith Name)

variable {F : Type}

/-! ### The matrix -/

structure Ident where
  model : String
  task : String
  arm : String
  attempt : Nat
  deriving DecidableEq

structure Matrix where
  models : List String
  tasks : List String
  arms : List String
  attempts : Nat

/-- The attempts, in the order of the loops. -/
def Matrix.idents (m : Matrix) : List Ident :=
  m.models.flatMap fun model => m.tasks.flatMap fun task => m.arms.flatMap fun arm =>
    (List.range' 1 m.attempts).map fun attempt => ⟨model, task, arm, attempt⟩

/-! ### The row of an attempt -/

/-- What `run_ops_attempt` returns, besides the arguments it was called with. -/
structure OpsAttemptResult (F : Type) where
  solved : Bool
  claimed : Option String
  silentFailure : Bool
  iterations : Int
  durationSec : F
  tokensIn : Int
  tokensOut : Int
  error : Option String
  errorKind : String
  judge : Event F
  journalCoverage : Option F
  accidents : List String
  restoreFailed : Bool
  runDir : String
  journalDropped : Int

/-- A number or `None`. -/
def optFloat : Option F → Value F
  | none => .null
  | some x => .float x

/-- `OpsAttemptResult.row` -/
def opsRow (id : Ident) (r : OpsAttemptResult F) : Fields F :=
  [("task", .str id.task), ("arm", .str id.arm), ("model", .str id.model), ("attempt", .int id.attempt),
    ("solved", .bool r.solved), ("claimed", optStr r.claimed), ("silent_failure", .bool r.silentFailure),
    ("iterations", .int r.iterations), ("duration_sec", .float r.durationSec), ("tokens_in", .int r.tokensIn),
    ("tokens_out", .int r.tokensOut), ("error", optStr r.error), ("error_kind", .str r.errorKind),
    ("judge", .obj r.judge.fields), ("journal_coverage", optFloat r.journalCoverage),
    ("accidents", .arr (r.accidents.map .str)), ("restore_failed", .bool r.restoreFailed), ("run_dir", .str r.runDir),
    ("journal_dropped", .int r.journalDropped)]

/-- `_crash_row` -/
def crashRow (id : Ident) (error : String) : Fields F :=
  [("crashed", .bool true), ("error_kind", .str "infra"), ("error", .str error), ("task", .str id.task),
    ("arm", .str id.arm), ("model", .str id.model), ("attempt", .int id.attempt)]

/-- An attempt that came to an end: with its result, or with an exception and its text. -/
inductive Outcome (F : Type)
  | result (r : OpsAttemptResult F)
  | crashed (error : String)

def Outcome.fields (id : Ident) : Outcome F → Fields F
  | .result r => opsRow id r
  | .crashed error => crashRow id error

def Outcome.solved : Outcome F → Bool
  | .result r => r.solved
  | .crashed _ => false

/-- Neither crashed nor failed at the environment. -/
def Outcome.judged : Outcome F → Bool
  | .result r => r.errorKind != "infra" || r.solved
  | .crashed _ => false

theorem keysNodup_str (xs : List String) : (Value.arr (xs.map .str) : Value F).keysNodup := by
  induction xs with
  | nil => trivial
  | cons x xs ih => exact ⟨trivial, ih⟩

private theorem Outcome.fields_nodup (id : Ident) (o : Outcome F) : (Value.obj (o.fields id)).keysNodup := by
  cases o with
  | crashed error =>
    refine ⟨by simp [Outcome.fields, crashRow], ?_⟩
    exact ⟨trivial, trivial, trivial, trivial, trivial, trivial, trivial, trivial⟩
  | result r =>
    refine ⟨by simp [Outcome.fields, opsRow], ?_⟩
    have hjudge := r.judge.nodup
    have haccidents := keysNodup_str (F := F) r.accidents
    have hstr : ∀ s : Option String, (optStr s : Value F).keysNodup := by
      intro s
      cases s <;> trivial
    have hfloat : (optFloat r.journalCoverage).keysNodup := by
      cases r.journalCoverage <;> trivial
    exact ⟨trivial, trivial, trivial, trivial, trivial, hstr _, trivial, trivial, trivial, trivial, trivial, hstr _,
      trivial, hjudge, hfloat, haccidents, trivial, trivial, trivial, trivial⟩

/-! ### The attempts that end -/

/-- What becomes of an attempt: its row is written whole, or the process dies when so many bytes of it are in the file;
with none of them, it may as well have died in the attempt. -/
inductive Fate (F : Type)
  | ends (o : Outcome F)
  | dies (o : Outcome F) (bytes : Nat)

/-- The attempts whose rows are whole. -/
def finished : List Ident → List (Fate F) → List (Ident × Outcome F)
  | id :: ids, .ends o :: fates => (id, o) :: finished ids fates
  | _, _ => []

/-- The attempt in whose row the process died, with the number of its bytes that are in the file. -/
def torn : List Ident → List (Fate F) → Option ((Ident × Outcome F) × Nat)
  | _ :: ids, .ends _ :: fates => torn ids fates
  | id :: _, .dies o bytes :: _ => some ((id, o), bytes)
  | _, _ => none

private theorem finished_front (ids : List Ident) (fates : List (Fate F)) :
    (finished ids fates).map Prod.fst <+: ids := by
  induction ids generalizing fates with
  | nil => exact List.prefix_refl _
  | cons id ids ih =>
    match fates with
    | [] => exact List.nil_prefix
    | .dies _ _ :: _ => exact List.nil_prefix
    | .ends o :: fates => exact List.cons_prefix_cons.2 ⟨rfl, ih fates⟩

/-- The attempt in whose row the process died comes behind those whose rows are whole. -/
private theorem torn_next {ids : List Ident} {fates : List (Fate F)} {x : Ident × Outcome F} {bytes : Nat}
    (h : torn ids fates = some (x, bytes)) : (finished ids fates ++ [x]).map Prod.fst <+: ids := by
  induction ids generalizing fates with
  | nil => cases h
  | cons id ids ih =>
    match fates, h with
    | .dies o n :: _, h =>
      cases h
      exact List.cons_prefix_cons.2 ⟨rfl, List.nil_prefix⟩
    | .ends o :: fates, h => exact List.cons_prefix_cons.2 ⟨rfl, ih h⟩

/-- Where every attempt has a whole row, no row is torn. -/
private theorem torn_of_length {ids : List Ident} {fates : List (Fate F)}
    (h : (finished ids fates).length = ids.length) :
    torn ids fates = none := by
  cases htorn : torn ids fates with
  | none => rfl
  | some y =>
    obtain ⟨x, bytes⟩ := y
    have hlen := (torn_next htorn).length_le
    rw [List.length_map, List.length_append, List.length_singleton] at hlen
    omega

private theorem finished_whole {ids : List Ident} {fates : List (Fate F)} :
    (finished ids fates).length = ids.length ↔ (finished ids fates).map Prod.fst = ids := by
  constructor
  · intro h
    apply (finished_front ids fates).eq_of_length
    rw [List.length_map, h]
  · intro h
    rw [← List.length_map Prod.fst, h]

/-! ### The driver -/

variable [JsonFloat F]

def Outcome.row (id : Ident) (o : Outcome F) : Row F where
  fields := o.fields id
  nodup := o.fields_nodup id
  not_tombstone := by cases o <;> rfl

/-- The loops of `_cmd_ops_ab` over the attempts that are left: the file at the end, and the exit code, if any. -/
def drive : List Ident → List (Fate F) → Bytes → Int → Bytes × Option Int
  | [], _, file, code => (file, some code)
  | id :: ids, .ends o :: turns, file, code => drive ids turns (appendRow file (o.row id)) (if o.solved then code else 1)
  | id :: _, .dies o bytes :: _, file, _ => (file ++ (encode (dumps (.obj (o.fields id)) ++ ['\n'])).take bytes, none)
  | _ :: _, [], file, _ => (file, none)

/-- The line of a row, and as many bytes of it as are in the file. -/
def tornBytes : Option ((Ident × Outcome F) × Nat) → Bytes
  | none => []
  | some ((id, o), bytes) => (encode (dumps (.obj (o.fields id)) ++ ['\n'])).take bytes

private theorem drive_eq (ids : List Ident) (fates : List (Fate F)) (file : Bytes) (code : Int) :
    drive ids fates file code =
      (((finished ids fates).map fun x => x.2.row x.1).foldl appendRow file ++ tornBytes (torn ids fates),
        if (finished ids fates).length = ids.length then
          some (if (finished ids fates).all (·.2.solved) then code else 1)
        else none) := by
  induction ids generalizing fates file code with
  | nil => simp [drive, finished, torn, tornBytes]
  | cons id ids ih =>
    match fates with
    | [] => simp [drive, finished, torn, tornBytes]
    | .dies _ _ :: _ => simp [drive, finished, torn, tornBytes]
    | .ends o :: fates =>
      rw [drive, ih, finished, torn, List.map_cons, List.foldl_cons, List.length_cons, List.length_cons, List.all_cons]
      cases hsolved : o.solved with
      | false => simp
      | true => simp only [if_true, Bool.true_and, Nat.add_right_cancel_iff]

/-! ### The report -/

variable {N : Type} [Arith N]

def textAt (fields : Fields F) (key : String) : Option Name :=
  match fields.lookup key with
  | some (.str s) => some s.toList
  | _ => none

def truthyAt (fields : Fields F) (key : String) : Bool := (fields.lookup key).any truthy

/-- `r.get(key) or 0`, where it is a number. -/
def numberAt (num : Value F → N) (fields : Fields F) (key : String) : N :=
  match fields.lookup key with
  | some v => if truthy v then num v else Arith.ofInt 0
  | none => Arith.ofInt 0

/-- `len(r.get("accidents") or [])` -/
def accidentsAt (fields : Fields F) : Nat :=
  match fields.lookup "accidents" with
  | some (.arr items) => items.length
  | _ => 0

/-- What `summarize` reads of a row; the labels of a campaign are strings, and `num` is the number of a JSON value. -/
def summaryRow (num : Value F → N) (fields : Fields F) : Ops.OpsReport.Row (Option Name) N where
  model := textAt fields "model"
  arm := textAt fields "arm"
  errorKind := textAt fields "error_kind"
  solved := truthyAt fields "solved"
  silentFailure := truthyAt fields "silent_failure"
  claimed := textAt fields "claimed"
  accidents := accidentsAt fields
  tokensIn := numberAt num fields "tokens_in"
  tokensOut := numberAt num fields "tokens_out"
  iterations := numberAt num fields "iterations"
  durationSec := numberAt num fields "duration_sec"
  fault := truthyAt fields "fault"
  detected := truthyAt fields "detected"

/-! ### What is read -/

/-- The file breaks off inside a character. -/
def Splits (x : Ident × Outcome F) (bytes : Nat) : Prop :=
  ∀ k, tornBytes (some (x, bytes)) ≠ encode ((dumps (.obj (x.2.fields x.1)) ++ ['\n']).take k)

private theorem kept_rowLines (header : Header F) (rows : List (Row F)) :
    (rowLines (some header) rows).filter (fun record => !isTombstone record) = rows.map fun row => row.fields := by
  have hheader : ([header].map Header.tombstone).filter (fun record => !isTombstone record) = [] := by
    simp [header.isTombstone]
  have hrows : (rows.map fun row => row.fields).filter (fun record => !isTombstone record) =
      rows.map fun row => row.fields := by
    rw [List.filter_eq_self]
    intro line hline
    obtain ⟨row, -, rfl⟩ := List.mem_map.1 hline
    rw [row.not_tombstone]
    rfl
  rw [rowLines, List.filter_append, hrows, Option.toList_some, hheader]
  rfl

private theorem nodup_rowLines (header : Header F) (rows : List (Row F)) :
    ∀ line ∈ rowLines (some header) rows, (Value.obj line).keysNodup := by
  intro line hline
  rcases List.mem_append.1 hline with hline | hline
  · obtain rfl := List.mem_singleton.1 hline
    exact header.tombstone_nodup
  · obtain ⟨row, -, rfl⟩ := List.mem_map.1 hline
    exact row.nodup

/-- A file whose last row is torn reads as the whole rows, with the torn one counted or not, or with it as one of them. -/
private theorem loadRows_torn {header : Header F} {rows : List (Row F)} {x : Ident × Outcome F} (bytes : Nat)
    (hsep : ∀ line ∈ rowLines (some header) (rows ++ [x.2.row x.1]), hasSeparator line = false)
    {read : Option (List (Fields F) × Nat)}
    (hread : loadRows (rows.foldl appendRow (startRows (some header)) ++ tornBytes (some (x, bytes))) = read) :
    (read = none ↔ Splits x bytes) ∧
      ∀ records dropped, read = some (records, dropped) →
        (records = rows.map (fun row => row.fields) ∧ dropped ≤ 1) ∨
          (records = (rows ++ [x.2.row x.1]).map (fun row => row.fields) ∧ dropped = 0) := by
  have hlines : rowLines (some header) (rows ++ [x.2.row x.1]) = rowLines (some header) rows ++ [x.2.fields x.1] := by
    simp [rowLines, Outcome.row]
  have hnodup := nodup_rowLines header (rows ++ [x.2.row x.1])
  have hkept := kept_rowLines header rows
  have hkept' := kept_rowLines header (rows ++ [x.2.row x.1])
  rw [hlines] at hsep hnodup hkept'
  rw [appended_rows, loadRows, loadLines] at hread
  generalize rowLines (some header) rows = lines at hlines hsep hnodup hkept hkept' hread
  have hline : tornBytes (some (x, bytes)) = (encode (dumps (.obj (x.2.fields x.1)) ++ ['\n'])).take bytes := rfl
  rw [hline] at hread
  rcases decode_torn (text lines) (dumps (.obj (x.2.fields x.1)) ++ ['\n']) bytes with ⟨k, hk, hdecode⟩ | ⟨hsplit, hdecode⟩
  · rw [hdecode, Option.map_some] at hread
    refine ⟨⟨?_, fun hsplits => absurd hk (hsplits k)⟩, ?_⟩
    · intro hnone
      rw [hnone] at hread
      cases hread
    · intro records dropped hrecords
      rw [hrecords] at hread
      have hloaded := Option.some.inj hread
      by_cases hle : k ≤ (dumps (.obj (x.2.fields x.1))).length
      · rw [List.take_append_of_le_length hle, load_torn prep_strip hnodup hsep] at hloaded
        split_ifs at hloaded with hzero hlt
        · cases hloaded
          exact .inl ⟨hkept, Nat.zero_le 1⟩
        · cases hloaded
          exact .inl ⟨hkept, Nat.le_refl 1⟩
        · cases hloaded
          exact .inr ⟨hkept', rfl⟩
      · have hwhole : text lines ++ (dumps (.obj (x.2.fields x.1)) ++ ['\n']) = text (lines ++ [x.2.fields x.1]) := by
          rw [text_append]
          simp [text, join]
        rw [List.take_of_length_le (by simp; omega), hwhole, (load_text_iff prep_strip hnodup).2 hsep] at hloaded
        cases hloaded
        exact .inr ⟨hkept', rfl⟩
  · rw [hdecode, Option.map_none] at hread
    subst hread
    refine ⟨⟨fun _ => hsplit, fun _ => rfl⟩, ?_⟩
    intro records dropped h
    cases h

/-! ### What is reported -/

section Summary

variable (num : Value F → N)

/-- The row of an attempt, as the summary reads it. -/
def reading (x : Ident × Outcome F) : Ops.OpsReport.Row (Option Name) N := summaryRow num (x.2.fields x.1)

private theorem key_reading (x : Ident × Outcome F) :
    (reading num x).key = (some x.1.model.toList, some x.1.arm.toList) := by
  obtain ⟨id, r | error⟩ := x
  · rfl
  · rfl

private theorem fault_reading (x : Ident × Outcome F) : (reading num x).fault = false := by
  obtain ⟨id, r | error⟩ := x
  · rfl
  · rfl

private theorem judged_reading (x : Ident × Outcome F) : (reading num x).judged = x.2.judged := by
  obtain ⟨id, r | error⟩ := x
  · have hkind : (reading num (id, .result r)).judged = (some r.errorKind.toList != some "infra".toList || r.solved) := rfl
    rw [hkind, Outcome.judged]
    by_cases hinfra : r.errorKind = "infra"
    · simp [hinfra]
    · have hchars : r.errorKind.toList ≠ "infra".toList := fun h => hinfra (String.toList_inj.1 h)
      rw [bne_iff_ne.2 hinfra, bne_iff_ne.2 fun h => hchars (Option.some.inj h)]
  · rfl

variable {num} {done : List (Ident × Outcome F)} {model arm : String}

/-- The attempts of a model and an arm that were judged. -/
def judgedAttempts (done : List (Ident × Outcome F)) (model arm : String) : List (Ident × Outcome F) :=
  done.filter fun x => x.2.judged && (x.1.model = model && x.1.arm = arm)

private theorem judgedOf_reading : judgedOf (done.map (reading num)) (some model.toList, some arm.toList) =
    (judgedAttempts done model arm).map (reading num) := by
  rw [judgedOf, List.filter_filter, List.filter_map, judgedAttempts]
  congr 1
  apply List.filter_congr
  intro x _
  rw [Function.comp_apply, key_reading, judged_reading, Bool.and_comm]
  simp [String.toList_inj]

/-- The two arms tell the names of the groups apart, whatever the models are called. -/
private theorem groupName_inj {model' arm' : String} (harm : arm = "bare" ∨ arm = "mcp")
    (harm' : arm' = "bare" ∨ arm' = "mcp")
    (h : groupName optText (some model.toList, some arm.toList) =
      groupName optText (some model'.toList, some arm'.toList)) : model = model' ∧ arm = arm' := by
  have hname : model.toList ++ " / ".toList ++ arm.toList = model'.toList ++ " / ".toList ++ arm'.toList := h
  have hsame : arm = arm' := by
    have hends := congrArg List.getLast? hname
    rcases harm with rfl | rfl <;> rcases harm' with rfl | rfl
    · rfl
    · simp at hends
    · simp at hends
    · rfl
  subst hsame
  have hmodel := List.append_cancel_right (List.append_cancel_right hname)
  exact ⟨String.toList_inj.1 hmodel, rfl⟩

private theorem lookup_reading (hdone : ∀ x ∈ done, x.1.arm = "bare" ∨ x.1.arm = "mcp")
    (harm : arm = "bare" ∨ arm = "mcp") :
    (groups optText (done.map (reading num))).lookup (model ++ " / " ++ arm).toList =
      if (judgedAttempts done model arm).isEmpty then none
      else some (figures ((judgedAttempts done model arm).map (reading num))) := by
  have hname : (model ++ " / " ++ arm).toList = groupName optText (some model.toList, some arm.toList) := by
    simp [groupName, optText]
  have hkey : ∀ key ∈ keysOf (done.map (reading num)),
      groupName optText key = groupName optText (some model.toList, some arm.toList) →
        key = (some model.toList, some arm.toList) := by
    intro key hmem hsame
    obtain ⟨r, hr, -, rfl⟩ := Ops.OpsReport.mem_keysOf.1 hmem
    obtain ⟨x, hx, rfl⟩ := List.mem_map.1 hr
    rw [key_reading] at hsame ⊢
    obtain ⟨hmodel, harm'⟩ := groupName_inj (hdone x hx) harm hsame
    rw [hmodel, harm']
  rw [hname, Ops.OpsReport.lookup_groups]
  cases hlast : lastKey optText (keysOf (done.map (reading num)))
      (groupName optText (some model.toList, some arm.toList)) with
  | some key =>
    obtain ⟨hmem, hsame⟩ := Ops.OpsReport.lastKey_eq_some hlast
    obtain rfl := hkey key hmem hsame
    have hsome : ¬ (judgedAttempts done model arm).isEmpty = true := by
      intro hempty
      have hnil : judgedOf (done.map (reading num)) (some model.toList, some arm.toList) = [] := by
        rw [judgedOf_reading, List.isEmpty_iff.1 hempty, List.map_nil]
      exact Ops.OpsReport.judgedOf_eq_nil.1 hnil hmem
    rw [if_neg hsome, Option.map_some, judgedOf_reading]
  | none =>
    have hnone : (some model.toList, some arm.toList) ∉ keysOf (done.map (reading num)) := by
      intro hmem
      rw [lastKey, List.find?_eq_none] at hlast
      exact hlast _ (List.mem_reverse.2 hmem) (by simp)
    have hnil := Ops.OpsReport.judgedOf_eq_nil.2 hnone
    rw [judgedOf_reading, List.map_eq_nil_iff] at hnil
    rw [hnil]
    rfl

/-- A summary that says of the attempts what became of them. -/
structure Reported (num : Value F → N) (done : List (Ident × Outcome F)) (s : Ops.OpsReport.Summary N) : Prop where
  total : s.attemptsTotal = done.length
  judged : s.attemptsJudged = done.countP (·.2.judged)
  infra : s.attemptsInfra = done.countP (!·.2.judged)
  group : ∀ model arm, arm = "bare" ∨ arm = "mcp" →
    s.groups.lookup (model ++ " / " ++ arm).toList =
      if (judgedAttempts done model arm).isEmpty then none
      else some (figures ((judgedAttempts done model arm).map (reading num)))
  faultSuite : s.faultSuite = []

theorem reported (num : Value F → N) (hdone : ∀ x ∈ done, x.1.arm = "bare" ∨ x.1.arm = "mcp") (dropped : Nat) :
    Reported num done (summarize optText dropped (done.map (reading num))) := by
  have hjudged : ∀ r : Ops.OpsReport.Row (Option Name) N,
      (r.errorKind == some "infra".toList && !r.solved) = !r.judged := by
    intro r
    simp [Ops.OpsReport.Row.judged, bne]
  constructor
  · exact List.length_map _
  · rw [show (summarize optText dropped (done.map (reading num))).attemptsJudged =
      (done.map (reading num)).countP Ops.OpsReport.Row.judged from rfl, List.countP_map]
    exact List.countP_congr fun x _ => by rw [Function.comp_apply, judged_reading]
  · rw [show (summarize optText dropped (done.map (reading num))).attemptsInfra = (done.map (reading num)).countP
      fun r => r.errorKind == some "infra".toList && !r.solved from rfl, List.countP_map]
    exact List.countP_congr fun x _ => by rw [Function.comp_apply, hjudged, judged_reading]
  · intro model arm harm
    exact lookup_reading hdone harm
  · have hnone : (done.map (reading num)).filter (·.fault) = [] := by
      rw [List.filter_eq_nil_iff]
      intro r hr
      obtain ⟨x, -, rfl⟩ := List.mem_map.1 hr
      rw [fault_reading]
      exact Bool.false_ne_true
    rw [show (summarize optText dropped (done.map (reading num))).faultSuite =
      Ops.OpsReport.faultSuite optText (done.map (reading num)) from rfl, Ops.OpsReport.faultSuite, hnone]
    rfl

end Summary

/-! ### The whole campaign -/

private theorem mem_idents {m : Matrix} {id : Ident} :
    id ∈ m.idents ↔ id.model ∈ m.models ∧ id.task ∈ m.tasks ∧ id.arm ∈ m.arms ∧ 1 ≤ id.attempt ∧ id.attempt ≤ m.attempts := by
  obtain ⟨model, task, arm, attempt⟩ := id
  simp only [Matrix.idents, List.mem_flatMap, List.mem_map, List.mem_range'_1, Ident.mk.injEq]
  constructor
  · rintro ⟨model, hmodel, task, htask, arm, harm, attempt, hattempt, rfl, rfl, rfl, rfl⟩
    exact ⟨hmodel, htask, harm, hattempt.1, by omega⟩
  · rintro ⟨hmodel, htask, harm, hattempt⟩
    exact ⟨model, hmodel, task, htask, arm, harm, attempt, ⟨hattempt.1, by omega⟩, rfl, rfl, rfl, rfl⟩

/-- No string of the campaign is cut by `str.splitlines`. -/
def Unseparated (header : Header F) (attempts : List (Ident × Outcome F)) : Prop :=
  hasSeparator header.tombstone = false ∧ ∀ x ∈ attempts, hasSeparator (x.2.fields x.1) = false

/-- What `load_rows` and `summarize` make of the file: `finished` are the attempts with a whole row. -/
structure Read (num : Value F → N) (m : Matrix) (finished : List (Ident × Outcome F)) (rows : List (Fields F))
    (dropped : Nat) (done : List (Ident × Outcome F)) : Prop where
  rows_eq : rows = done.map fun x => x.2.fields x.1
  inOrder : done.map Prod.fst <+: m.idents
  whole : finished <+: done
  lost : done.length + dropped ≤ finished.length + 1
  reported : Reported num done (summarize optText dropped (rows.map (summaryRow num)))

private theorem read_of {num : Value F → N} {m : Matrix} (harms : ∀ arm ∈ m.arms, arm = "bare" ∨ arm = "mcp")
    {finished done : List (Ident × Outcome F)} {dropped : Nat} (hdone : done.map Prod.fst <+: m.idents)
    (hwhole : finished <+: done) (hlost : done.length + dropped ≤ finished.length + 1) :
    Read num m finished (done.map fun x => x.2.fields x.1) dropped done := by
  refine ⟨rfl, hdone, hwhole, hlost, ?_⟩
  rw [List.map_map]
  apply reported
  intro x hx
  have hmem : x.1 ∈ m.idents := hdone.subset (List.mem_map_of_mem hx)
  exact harms x.1.arm (mem_idents.1 hmem).2.2.1

/-- A campaign of any attempts that end in any way, and that may die at any byte it writes.  The exit code is 0 exactly when all
attempts were made and solved.  The file is unreadable exactly when it breaks off inside a character; else the report is that
of the attempts that ended, in the order of the matrix, and of no earlier campaign: at most the row that was being written is
counted as dropped, and a campaign that came to its end is reported whole. -/
theorem ops_campaign_reported (num : Value F → N) (m : Matrix) (harms : ∀ arm ∈ m.arms, arm = "bare" ∨ arm = "mcp")
    (header : Header F) (fates : List (Fate F))
    (hsep : Unseparated header (finished m.idents fates ++ ((torn m.idents fates).map Prod.fst).toList))
    {file : Bytes} {code : Option Int} (hrun : drive m.idents fates (startRows (some header)) 0 = (file, code)) :
    (code = some 0 ↔
        (finished m.idents fates).map Prod.fst = m.idents ∧ ∀ x ∈ finished m.idents fates, x.2.solved = true) ∧
      (loadRows (F := F) file = none ↔ ∃ x bytes, torn m.idents fates = some (x, bytes) ∧ Splits x bytes) ∧
      ∀ rows dropped, loadRows file = some (rows, dropped) →
        ∃ done, Read num m (finished m.idents fates) rows dropped done ∧
          (code ≠ none → done.map Prod.fst = m.idents ∧ dropped = 0) := by
  rw [drive_eq, Prod.mk.injEq] at hrun
  obtain ⟨hfile, hcode⟩ := hrun
  obtain ⟨hheader, hrows⟩ := hsep
  have hprefix := finished_front m.idents fates
  constructor
  · rw [← hcode, ← finished_whole, ← List.all_eq_true]
    generalize (finished m.idents fates).all (fun x => x.2.solved) = solved
    by_cases hwhole : (finished m.idents fates).length = m.idents.length
    · cases solved <;> simp [hwhole]
    · simp [hwhole]
  have hlines : ∀ done : List (Ident × Outcome F), (∀ x ∈ done, hasSeparator (x.2.fields x.1) = false) →
      ∀ line ∈ rowLines (some header) (done.map fun x => x.2.row x.1), hasSeparator line = false := by
    intro done hdone line hline
    rcases List.mem_append.1 hline with hline | hline
    · obtain rfl := List.mem_singleton.1 hline
      exact hheader
    · simp only [List.map_map, List.mem_map] at hline
      obtain ⟨x, hx, rfl⟩ := hline
      exact hdone x hx
  have hfields : ∀ done : List (Ident × Outcome F),
      (done.map fun x => x.2.row x.1).map (fun row => row.fields) = done.map fun x => x.2.fields x.1 := by
    intro done
    rw [List.map_map]
    rfl
  cases htorn : torn m.idents fates with
  | none =>
    rw [htorn, Option.map_none, Option.toList_none, List.append_nil] at hrows
    have hloaded := (rows_survive_iff (some header) ((finished m.idents fates).map fun x => x.2.row x.1)).2
      (hlines _ hrows)
    rw [htorn, tornBytes, List.append_nil] at hfile
    rw [hfile, hfields] at hloaded
    constructor
    · rw [hloaded]
      simp
    · intro rows dropped hread
      rw [hloaded] at hread
      cases hread
      refine ⟨_, read_of harms hprefix (List.prefix_refl _) (by omega), fun hsome => ⟨?_, rfl⟩⟩
      by_contra hshort
      rw [← finished_whole] at hshort
      rw [if_neg hshort] at hcode
      exact hsome hcode.symm
  | some y =>
    obtain ⟨x, bytes⟩ := y
    rw [htorn, Option.map_some, Option.toList_some] at hrows
    rw [htorn] at hfile
    have hnone : code = none := by
      have hshort : (finished m.idents fates).length ≠ m.idents.length := by
        intro hwhole
        rw [torn_of_length hwhole] at htorn
        cases htorn
      rw [← hcode, if_neg hshort]
    have hall := hlines _ hrows
    rw [List.map_append, List.map_singleton] at hall
    obtain ⟨hunread, hread⟩ := loadRows_torn bytes hall (congrArg loadRows hfile)
    constructor
    · rw [hunread]
      simp
    · intro rows dropped hrows'
      rcases hread rows dropped hrows' with ⟨rfl, hdropped⟩ | ⟨rfl, rfl⟩
      · rw [hfields]
        exact ⟨_, read_of harms hprefix (List.prefix_refl _) (by omega), fun hsome => absurd hnone hsome⟩
      · have hlast : (finished m.idents fates).map (fun x => x.2.row x.1) ++ [x.2.row x.1] =
            (finished m.idents fates ++ [x]).map fun x => x.2.row x.1 := by
          rw [List.map_append, List.map_singleton]
        rw [hlast, hfields]
        have hlost : (finished m.idents fates ++ [x]).length + 0 ≤ (finished m.idents fates).length + 1 := by simp
        exact ⟨_, read_of harms (torn_next htorn) (List.prefix_append _ _) hlost, fun hsome => absurd hnone hsome⟩

def twoArms : Matrix := ⟨["m"], ["wipe"], ["bare", "mcp"], 1⟩

def nightHeader : Header LitFloat := ⟨⟨[("campaign", .str "night")], by decide, trivial, trivial⟩, by decide⟩

/-- The first attempt crashes, and the process dies in the row of the second. -/
def diesInRow : List (Fate LitFloat) :=
  [.ends (.crashed "OSError: no port"), .dies (.crashed "OSError: no port") 9]

theorem ops_campaign_reported_diesInRow : ∃ file,
    drive twoArms.idents diesInRow (startRows (some nightHeader)) 0 = (file, none) ∧
      ∀ rows dropped, loadRows file = some (rows, dropped) → ∃ done,
        Read (fun _ : Value LitFloat => (0 : ℚ)) twoArms (finished twoArms.idents diesInRow) rows dropped done := by
  have harms : ∀ arm ∈ twoArms.arms, arm = "bare" ∨ arm = "mcp" := by simp [twoArms]
  have hsep : Unseparated nightHeader
      (finished twoArms.idents diesInRow ++ ((torn twoArms.idents diesInRow).map Prod.fst).toList) := by
    refine ⟨by decide, ?_⟩
    have hall : [(⟨"m", "wipe", "bare", 1⟩, .crashed "OSError: no port"),
        (⟨"m", "wipe", "mcp", 1⟩, .crashed "OSError: no port")].all
          (fun x : Ident × Outcome LitFloat => !hasSeparator (x.2.fields x.1)) = true := by decide
    intro x hx
    simpa using List.all_eq_true.1 hall x hx
  refine ⟨_, rfl, ?_⟩
  intro rows dropped hread
  obtain ⟨-, -, hreport⟩ :=
    ops_campaign_reported (fun _ : Value LitFloat => (0 : ℚ)) twoArms harms nightHeader diesInRow hsep rfl
  obtain ⟨done, hdone, -⟩ := hreport rows dropped hread
  exact ⟨done, hdone⟩

end IronHarness.Campaign
