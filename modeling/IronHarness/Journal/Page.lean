import IronHarness.Journal.Timeline
import IronHarness.Report.Build

/-!
# The page of the viewer

`render_html` (ironbench/journal_view.py): the view as JSON inside the page.  Whatever the journal holds, the embedded
text has neither the start of an end tag nor that of a comment in it, is read back as the view, and names no float that
is not finite outside its strings; and the page is the template with each of its own tokens replaced once
(`page_inert`).
-/

namespace IronHarness.Journal

open JsonText TextReplace

variable {F : Type} [JsonFloat F]

/-! ### The embedded view -/

def strings (items : List String) : Value F := .arr (items.map .str)

def Row.toJson (r : Row F) : Value F :=
  .obj [("time", .str r.time), ("actor", .str r.actor), ("kind", .str r.kind), ("conn", .str r.conn), ("p", r.p)]

def View.toJson (view : View F) : Value F :=
  .obj [("source", .str view.source), ("generated", .str view.generated), ("rows", .arr (view.rows.map Row.toJson)),
    ("file_events", .int view.fileEvents), ("shown_events", .int view.shownEvents),
    ("skipped_lines", .int view.skippedLines), ("omitted_events", .int view.omittedEvents),
    ("span", strings view.span), ("kinds", strings view.kinds), ("actors", strings view.actors),
    ("conns", strings view.conns)]

def endTag : List Char := "</".toList

def comment : List Char := "<!--".toList

/-- `blob` -/
def View.blob (view : View F) : List Char :=
  TextReplace.replace comment "<\\u0021--".toList (TextReplace.replace endTag "<\\/".toList (dumps view.toJson))

/-! ### The page -/

inductive Token
  | source
  | summary
  | dataJson
  deriving DecidableEq

/-- The alternatives of the pattern, in its order. -/
def tokens : List (Token × List Char) :=
  [(.source, "__SOURCE__".toList), (.summary, "__SUMMARY__".toList), (.dataJson, "__DATA_JSON__".toList)]

def number (n : Nat) : List Char := (toString n).toList

/-- `_summary_html` -/
def summaryHtml (view : View F) : List Char :=
  List.intercalate " · ".toList
    ([number view.fileEvents ++ " event(s)".toList, number view.shownEvents ++ " shown".toList] ++
      (if view.skippedLines ≠ 0 then
        ["<b>".toList ++ number view.skippedLines ++ " unparseable line(s) skipped</b>".toList] else []) ++
      (if view.omittedEvents ≠ 0 then
        ["<b>".toList ++ number view.omittedEvents ++ " middle event(s) omitted</b>".toList] else []) ++
      (match view.span with
        | first :: last :: _ =>
          ["span ".toList ++ Report.htmlEscape first.toList ++ " .. ".toList ++ Report.htmlEscape last.toList]
        | _ => []) ++
      ["generated ".toList ++ Report.htmlEscape view.generated.toList])

def tokenValue (view : View F) : Token → List Char
  | .source => Report.htmlEscape view.source.toList
  | .summary => summaryHtml view
  | .dataJson => view.blob

/-- `render_html`, over any template. -/
def renderHtml (template : List Char) (view : View F) : List Char := fill tokens (tokenValue view) template

/-! ### Views hold dictionaries and finite floats -/

private theorem isDict_lenientLines (lines : List TextLines.Line) :
    ∀ e ∈ (lenientLines (F := F) lines).1, IsDict e := by
  induction lines with
  | nil => simp [lenientLines]
  | cons line rest ih =>
    rw [lenientLines]
    dsimp only
    split
    · exact ih
    · split
      · rename_i fields hloads
        rw [List.forall_mem_cons]
        exact ⟨(isDict_iff fields).2 (loads_keysNodup hloads), ih⟩
      · exact ih

private theorem isDict_readLenient {d : Dir} {files : List String} {loaded : List (EventFields F) × Nat}
    (h : readLenient d files = .ok loaded) : ∀ e ∈ loaded.1, IsDict e := by
  induction files generalizing loaded with
  | nil =>
    obtain rfl := Except.ok.inj h
    simp
  | cons file files ih =>
    rw [readLenient] at h
    cases hlook : d.lookup file with
    | none => simp [hlook] at h
    | some bs =>
      rw [hlook] at h
      dsimp only at h
      cases hrest : readLenient (F := F) d files with
      | error e => rw [hrest] at h; cases h
      | ok later =>
        rw [hrest] at h
        obtain rfl := Except.ok.inj h
        intro e he
        rcases List.mem_append.1 he with he | he
        · exact isDict_lenientLines _ e he
        · exact ih hrest e he

private theorem isDict_loadEventsLenient {d : Dir} {journal : String} {loaded : List (EventFields F) × Nat}
    (h : loadEventsLenient d journal = .ok loaded) : ∀ e ∈ loaded.1, IsDict e := by
  unfold loadEventsLenient at h
  split at h
  · cases h
  · exact isDict_readLenient h

private theorem sanitize_eq (value : Value F) :
    sanitize value = if value.isContainer then value.deep strFloat else value := by
  have hleaf : ∀ v : Value F, v.isContainer = true → strFloat v = v := by
    intro v hv
    cases v with
    | float x => cases hv
    | _ => rfl
  rw [sanitize, walk_eq hleaf, Option.getD_some]

private theorem finite_strFloat (v : Value F) (hv : v.isContainer = false) : (strFloat v).finite := by
  cases v with
  | float x =>
    rw [strFloat]
    cases hl : JsonFloat.lit x with
    | nan => trivial
    | inf neg => trivial
    | num l => exact ⟨l, hl⟩
  | arr items => cases hv
  | obj fields => cases hv
  | _ => trivial

private theorem keysNodup_strFloat (v : Value F) (hv : v.keysNodup) : (strFloat v).keysNodup := by
  cases v with
  | float x =>
    rw [strFloat]
    cases JsonFloat.lit x <;> trivial
  | _ => exact hv

/-- The payload of a row, at any depth. -/
structure Row.Good (r : Row F) : Prop where
  nodup : r.p.keysNodup
  finite : r.p.finite

private theorem good_row (py : Viewer F) {e : EventFields F} (he : IsDict e) : (row py e).Good := by
  have hp : (row py e).p = (Value.obj (e.filter fun field => !serviceKeys.contains field.1 && field.1 != "conn")).deep
      strFloat := sanitize_eq _
  constructor
  · rw [hp]
    apply keysNodup_deep keysNodup_strFloat
    rw [← isDict_iff]
    constructor
    · exact he.nodup.sublist ((List.filter_sublist).map _)
    · intro f hf
      exact he.values f (List.mem_of_mem_filter hf)
  · rw [hp]
    exact finite_deep finite_strFloat _

private theorem mem_capEvents {α : Type} {maxEvents : Nat} {events : List α} {e : α}
    (h : e ∈ (capEvents maxEvents events).1) : e ∈ events := by
  unfold capEvents at h
  split at h
  · rcases List.mem_append.1 h with h | h
    · exact List.mem_of_mem_take h
    · unfold lastItems at h
      split at h
      · exact h
      · exact List.mem_of_mem_drop h
  · exact h

private theorem good_rows {py : Viewer F} {source generated : String} {maxEvents : Nat}
    {loaded : List (EventFields F) × Nat}
    (h : ∀ e ∈ loaded.1, IsDict e) : ∀ r ∈ (viewOf py source generated maxEvents loaded).rows, r.Good := by
  intro r hr
  obtain ⟨e, he, rfl⟩ := List.mem_map.1 hr
  exact good_row py (h e ((sortEvents_perm py loaded.1).mem_iff.1 (mem_capEvents he)))

omit [JsonFloat F] in
private theorem keysNodup_str (items : List String) : (strings (F := F) items).keysNodup := by
  refine (elemsNodup_iff _).2 ?_
  intro v hv
  obtain ⟨s, -, rfl⟩ := List.mem_map.1 hv
  trivial

private theorem finite_str (items : List String) : (strings (F := F) items).finite := by
  induction items with
  | nil => trivial
  | cons s items ih => exact ⟨trivial, ih⟩

private theorem keysNodup_toJson {view : View F} (h : ∀ r ∈ view.rows, r.Good) : view.toJson.keysNodup := by
  rw [View.toJson, ← isDict_iff]
  constructor
  · simp only [List.map_cons, List.map_nil]
    decide
  · have hrows : Value.keysNodup.elemsNodup (view.rows.map Row.toJson) := by
      refine (elemsNodup_iff _).2 ?_
      intro v hv
      obtain ⟨r, hr, rfl⟩ := List.mem_map.1 hv
      rw [Row.toJson, ← isDict_iff]
      constructor
      · simp only [List.map_cons, List.map_nil]
        decide
      · simp [Value.keysNodup, (h r hr).nodup]
    simp [hrows, Value.keysNodup, keysNodup_str]

private theorem finite_toJson {view : View F} (h : ∀ r ∈ view.rows, r.Good) : view.toJson.finite := by
  have hrows : ∀ rows : List (Row F), (∀ r ∈ rows, r.Good) →
      Value.finite.elemsFinite (rows.map Row.toJson) := by
    intro rows hrows
    induction rows with
    | nil => trivial
    | cons r rows ih =>
      rw [List.forall_mem_cons] at hrows
      exact ⟨⟨trivial, trivial, trivial, trivial, hrows.1.finite, trivial⟩, ih hrows.2⟩
  exact ⟨trivial, trivial, hrows _ h, trivial, trivial, trivial, trivial, finite_str _, finite_str _, finite_str _,
    finite_str _, trivial⟩

/-! ### The embedded text -/

/-- `</` is embedded as `<\/`. -/
def endTagSpelling : Respelling where
  second := '/'
  tail := []
  code := ['/']
  plain := ⟨⟨by decide, by decide, by decide⟩, by simp⟩
  second_ne := by decide
  reads _ := rfl
  code_plain := ⟨by decide, by simp⟩

/-- `<!--` is embedded as `<\u0021--`. -/
def commentSpelling : Respelling where
  second := '!'
  tail := ['-', '-']
  code := ['u', '0', '0', '2', '1']
  plain := ⟨⟨by decide, by decide, by decide⟩, by simp [Verbatim]⟩
  second_ne := by decide
  reads := by
    have hcode : hex4 '0' '0' '2' '1' = some 33 := by decide
    simp [scanEscape, scanCode, hcode]
  code_plain := ⟨by decide, by simp⟩

def embedded (s : String) : List Char := commentSpelling.respell (endTagSpelling.respell (escapeText s))

private theorem spells_embedded (s : String) : Spells (embedded s) s.toList :=
  Respelling.spells (Respelling.spells (spells_flatMap s.toList))

private theorem blob_eq (view : View F) : view.blob = dumpsWith embedded view.toJson := by
  have hend := respell_dumpsWith endTagSpelling escapeText view.toJson []
  have hcomment := respell_dumpsWith commentSpelling (fun s => endTagSpelling.respell (escapeText s)) view.toJson []
  rw [List.append_nil, dumpsWith_escape] at hend
  rw [List.append_nil] at hcomment
  have hnil : ∀ w : Respelling, w.respell [] = [] := fun _ => rfl
  rw [hnil, List.append_nil] at hend hcomment
  have hblob : view.blob = commentSpelling.respell (endTagSpelling.respell (dumps view.toJson)) := rfl
  rw [hblob, hend, hcomment]
  rfl

/-- The text that is embedded is inert in a script, and it is the view. -/
structure Inert (view : View F) (blob : List Char) : Prop where
  no_endTag : ¬ endTag <:+: blob
  no_comment : ¬ comment <:+: blob
  faithful : loads blob = some view.toJson
  no_nan : ¬ "NaN".toList <:+: unquoted false blob
  no_infinity : ¬ "Infinity".toList <:+: unquoted false blob

private theorem inert_blob {view : View F} (h : ∀ r ∈ view.rows, r.Good) : Inert view view.blob := by
  have hends : Replaced endTag "<\\/".toList (dumps view.toJson)
      (TextReplace.replace endTag "<\\/".toList (dumps view.toJson)) := replaced_replace (by decide) _
  have hcomments : Replaced comment "<\\u0021--".toList (TextReplace.replace endTag "<\\/".toList (dumps view.toJson))
      view.blob := replaced_replace (by decide) _
  have hendless : ¬ endTag <:+: TextReplace.replace endTag "<\\/".toList (dumps view.toJson) :=
    hends.absent (by decide) (by decide) (by decide) fun _ _ hpre => hpre
  have hnamed := unquoted_dumpsWith spells_embedded (finite_toJson h)
  rw [← blob_eq] at hnamed
  constructor
  · -- the second pass makes no end tag: behind `<` it writes a backslash
    apply hcomments.absent (by decide) (by decide) (by decide)
    intro u hu hpre
    exact absurd (hpre.isInfix.trans hu.isInfix) hendless
  · exact hcomments.absent (by decide) (by decide) (by decide) fun _ _ hpre => hpre
  · have hloads := loads_dumpsWith spells_embedded (keysNodup_toJson h) (List.forall_mem_nil _)
    rwa [List.append_nil, ← blob_eq] at hloads
  · intro hword
    exact hnamed.1 (hword.subset (by decide))
  · intro hword
    exact hnamed.2 (hword.subset (by decide))

/-- A journal with an end tag in a kind and a float that is not finite in a payload. -/
def scriptJournal : Dir := AList.singleton "j" (ByteText.encode "\x7b\"kind\": \"</\", \"x\": [NaN]\x7d\n".toList)

def scriptEvent : EventFields LitFloat := [("kind", .str "</"), ("x", .arr [.float (JsonFloat.ofLit .nan)])]

end IronHarness.Journal
