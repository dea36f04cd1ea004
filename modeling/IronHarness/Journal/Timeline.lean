import IronHarness.Journal.Reader
import IronHarness.Lib.JsonWalk
import IronHarness.Lib.Sorting

/-!
# The timeline of a journal

`build_view` (ironbench/journal_view.py): the rows of the viewer, sorted by their time stamps, with the middle left out
where there are more events than the view may show.  The number that it says were left out is right exactly where
nothing is left out or the cap is even and not zero (`accounted_iff`): an odd cap loses one event more than it says, and
half of a cap of one is a slice from the end that takes everything (`view_not_accounted`).
-/

namespace IronHarness.Journal

open JsonText

variable {F : Type} [JsonFloat F]

/-- The fields of one event. -/
abbrev EventFields (F : Type) := List (String × Value F)

/-- Time stamps of Python: `_row_time`, `<` between numbers, and `list.sort`. -/
structure Viewer (F : Type) where
  rowTime : Value F → String
  lt : Value F → Value F → Bool
  sort : Sorting.Sorter

/-! ### Rows -/

/-- `isinstance(ts, (int, float))` -/
def isNumber : Value F → Bool
  | .bool _ => true
  | .int _ => true
  | .float _ => true
  | _ => false

/-- The time stamp, where it is a number. -/
def stamp (e : EventFields F) : Option (Value F) := (e.lookup "ts").filter isNumber

/-- The key of the sort. -/
def stampKey (e : EventFields F) : Value F :=
  (stamp e).getD (.float (JsonFloat.ofLit (.num ⟨false, ['0'], some ['0'], none⟩)))

/-- `_as_str` -/
def asStr : Value F → String
  | .str s => s
  | value => String.ofList (dumps value)

/-- `str(val)` of a float that is not finite; every other value stays. -/
def strFloat : Value F → Value F
  | .float x =>
    match JsonFloat.lit x with
    | .nan => .str "nan"
    | .inf neg => .str (if neg then "-inf" else "inf")
    | .num _ => .float x
  | value => value

/-- `_sanitize` -/
def sanitize (value : Value F) : Value F := (walk strFloat (1 + value.containers) [[]] value).getD value

def serviceKeys : List String := ["ts", "seq", "actor", "kind"]

structure Row (F : Type) where
  time : String
  actor : String
  kind : String
  conn : String
  p : Value F

def row (py : Viewer F) (e : EventFields F) : Row F where
  time := ((stamp e).map py.rowTime).getD ""
  actor := asStr ((e.lookup "actor").getD (.str "?"))
  kind := asStr ((e.lookup "kind").getD (.str "?"))
  conn := ((e.lookup "conn").map asStr).getD ""
  p := sanitize (.obj (e.filter fun field => !serviceKeys.contains field.1 && field.1 != "conn"))

/-! ### The view -/

/-- `events.sort(key=...)` -/
def sortEvents (py : Viewer F) (events : List (EventFields F)) : List (EventFields F) :=
  (py.sort.sorted (fun a b => some (py.lt (stampKey a) (stampKey b))) events).getD events

/-- `items[-n:]` -/
def lastItems {α : Type} (n : Nat) (items : List α) : List α :=
  if n = 0 then items else items.drop (items.length - n)

structure View (F : Type) where
  source : String
  generated : String
  rows : List (Row F)
  fileEvents : Nat
  shownEvents : Nat
  skippedLines : Nat
  omittedEvents : Nat
  span : List String
  kinds : List String
  actors : List String
  conns : List String

/-- `facet`: the values of a field, sorted, none twice. -/
def facet (key : String) (events : List (EventFields F)) : List String :=
  (events.filterMap fun e => (e.lookup key).map asStr).dedup.insertionSort (· ≤ ·)

/-- The events shown, and the number that is given for those left out. -/
def capEvents {α : Type} (maxEvents : Nat) (events : List α) : List α × Nat :=
  if maxEvents < events.length then
    let half := maxEvents / 2
    (events.take half ++ lastItems half events, events.length - maxEvents)
  else (events, 0)

/-- `build_view` of the events that were loaded and the number of lines skipped. -/
def viewOf (py : Viewer F) (source generated : String) (maxEvents : Nat)
    (loaded : List (EventFields F) × Nat) : View F :=
  let sorted := sortEvents py loaded.1
  let (events, omitted) := capEvents maxEvents sorted
  let rows := events.map (row py)
  let stamps := events.filterMap stamp
  { source := source
    generated := generated
    rows := rows
    fileEvents := sorted.length
    shownEvents := rows.length
    skippedLines := loaded.2
    omittedEvents := omitted
    span := (stamps.head?.map py.rowTime).toList ++ (stamps.getLast?.map py.rowTime).toList
    kinds := facet "kind" events
    actors := facet "actor" events
    conns := facet "conn" events }

/-- `build_view` -/
def buildView (py : Viewer F) (d : Dir) (journal generated : String) (maxEvents : Nat) : Except ReadError (View F) :=
  (loadEventsLenient d journal).map (viewOf py journal generated maxEvents)

/-! ### What the view accounts for -/

private theorem exists_sorted (py : Viewer F) (events : List (EventFields F)) :
    py.sort.sorted (fun a b => some (py.lt (stampKey a) (stampKey b))) events = some (sortEvents py events) := by
  have hsome := py.sort.returns (fun a b : EventFields F => some (py.lt (stampKey a) (stampKey b))) events
    (List.pairwise_of_forall (by simp))
  obtain ⟨sorted, hsorted⟩ := Option.isSome_iff_exists.1 hsome
  rw [sortEvents, hsorted, Option.getD_some]

theorem sortEvents_perm (py : Viewer F) (events : List (EventFields F)) : (sortEvents py events).Perm events :=
  py.sort.perm _ _ _ (exists_sorted py events)

/-- The view shows at most as many rows as it may, the first and the last ones of the sorted events, and says how many
of them it does not show. -/
structure Accounted (py : Viewer F) (maxEvents : Nat) (events : List (EventFields F)) (view : View F) : Prop where
  total : view.fileEvents = events.length
  shown : view.shownEvents = view.rows.length
  capped : view.rows.length ≤ maxEvents
  counted : view.shownEvents + view.omittedEvents = view.fileEvents
  ends : ∃ head tail, head + tail ≤ events.length ∧
    view.rows = ((sortEvents py events).take head ++ (sortEvents py events).drop (events.length - tail)).map (row py)

section

variable {α : Type} {maxEvents : Nat} {events : List α}

private theorem capEvents_short (h : events.length ≤ maxEvents) : capEvents maxEvents events = (events, 0) :=
  if_neg (Nat.not_lt.2 h)

private theorem capEvents_long (h : maxEvents < events.length) :
    capEvents maxEvents events =
      (events.take (maxEvents / 2) ++ lastItems (maxEvents / 2) events, events.length - maxEvents) :=
  if_pos h

/-- The slice from the end takes everything where half of the cap is nothing. -/
private theorem length_capEvents (h : maxEvents < events.length) :
    (capEvents maxEvents events).1.length = if maxEvents / 2 = 0 then events.length else 2 * (maxEvents / 2) := by
  rw [capEvents_long h, List.length_append, List.length_take, lastItems]
  split
  · omega
  · rw [List.length_drop]
    omega

end

variable {py : Viewer F} {source generated : String} {maxEvents : Nat} {loaded : List (EventFields F) × Nat}

private theorem length_sortEvents (py : Viewer F) (events : List (EventFields F)) :
    (sortEvents py events).length = events.length := (sortEvents_perm py events).length_eq

private theorem accounted_short (h : loaded.1.length ≤ maxEvents) :
    Accounted py maxEvents loaded.1 (viewOf py source generated maxEvents loaded) := by
  have hlen := length_sortEvents py loaded.1
  have hcap : capEvents maxEvents (sortEvents py loaded.1) = (sortEvents py loaded.1, 0) :=
    capEvents_short (by rwa [hlen])
  constructor
  · exact hlen
  · rfl
  · simp [viewOf, hcap, hlen, h]
  · simp [viewOf, hcap]
  · refine ⟨loaded.1.length, 0, Nat.le_refl _, ?_⟩
    rw [Nat.sub_zero, List.take_append_drop]
    simp [viewOf, hcap]

private theorem accounted_even {half : Nat} (hhalf : half ≠ 0) (h : 2 * half < loaded.1.length) :
    Accounted py (2 * half) loaded.1 (viewOf py source generated (2 * half) loaded) := by
  have hlen := length_sortEvents py loaded.1
  have hlong : 2 * half < (sortEvents py loaded.1).length := by rwa [hlen]
  have hdiv : 2 * half / 2 = half := by omega
  have hcap := capEvents_long hlong
  have hrows := length_capEvents hlong
  rw [hdiv, lastItems, if_neg hhalf, hlen] at hcap
  rw [hdiv, if_neg hhalf] at hrows
  constructor
  · exact hlen
  · rfl
  · simp [viewOf, hrows]
  · have homitted : (capEvents (2 * half) (sortEvents py loaded.1)).2 = loaded.1.length - 2 * half := by rw [hcap]
    simp only [viewOf, List.length_map, hrows, homitted, hlen]
    omega
  · refine ⟨half, half, by omega, ?_⟩
    simp [viewOf, hcap]

/-- The view accounts for every event exactly where it shows them all or its cap is even and not zero. -/
theorem accounted_iff (py : Viewer F) (source generated : String) (maxEvents : Nat)
    (loaded : List (EventFields F) × Nat) :
    Accounted py maxEvents loaded.1 (viewOf py source generated maxEvents loaded) ↔
      loaded.1.length ≤ maxEvents ∨ 2 ∣ maxEvents ∧ maxEvents ≠ 0 := by
  constructor
  · intro h
    by_contra hcap
    obtain ⟨hlong, hodd⟩ := not_or.1 hcap
    have hlen := length_sortEvents py loaded.1
    have hlong' : maxEvents < (sortEvents py loaded.1).length := by omega
    have hrows := length_capEvents hlong'
    have hcapped := h.capped
    have hcounted := h.counted
    have homitted : (capEvents maxEvents (sortEvents py loaded.1)).2 = loaded.1.length - maxEvents := by
      rw [capEvents_long hlong', hlen]
    simp only [viewOf, List.length_map, hrows, homitted, hlen] at hcapped hcounted
    split at hcapped
    · exact hlong hcapped
    · rename_i hhalf
      rw [if_neg hhalf] at hcounted
      exact hodd ⟨by omega, by omega⟩
  · rintro (h | ⟨⟨half, rfl⟩, hne⟩)
    · exact accounted_short h
    · rcases Nat.lt_or_ge (2 * half) loaded.1.length with hlong | hshort
      · exact accounted_even (by omega) hlong
      · exact accounted_short hshort

/-- A viewer that takes the stamps as they are. -/
def plainViewer : Viewer LitFloat := ⟨fun value => String.ofList (dumps value), fun _ _ => false, Sorting.insertion⟩

def fiveEvents : List (EventFields LitFloat) := (List.range 5).map fun i => [("ts", .int i)]

theorem view_not_accounted :
    ¬ ∀ (F : Type) [JsonFloat F] (py : Viewer F) (source generated : String) (maxEvents : Nat)
      (loaded : List (EventFields F) × Nat),
      Accounted py maxEvents loaded.1 (viewOf py source generated maxEvents loaded) := by
  intro h
  have hcounted := (h LitFloat plainViewer "j.jsonl" "now" 3 (fiveEvents, 0)).counted
  revert hcounted
  decide

end IronHarness.Journal
