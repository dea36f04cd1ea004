import Mathlib.Algebra.Group.Int.Defs
import IronHarness.Journal.Live
import IronHarness.Journal.Torn
import IronHarness.Lib.Mutex

/-!
# What is journaled is what was said

Any number of journals append to one file, step by step: a call takes the lock of its journal and makes its records,
then takes the sidecar lock, writes its lines in pieces and gives both locks back.  Without a rotation the file holds,
call by call in the order of the sidecar lock, what each journal would have written alone (`allRecords`): its records
are numbered without a gap, and a call is its record and, where its payload had service keys, the record that names
them (`said_is_journaled`).  That is so as long as `json.dumps` can write what the calls say; where it raises, the
number was taken already (`long_integer_leaves_gap`).
-/

namespace IronHarness.Journal

open ByteText JsonText Runs

variable {ι F : Type} [DecidableEq ι]

/-! ### The journals of one file, step by step -/

/-- The journals that share a path. -/
structure Group (ι : Type) where
  path : String
  actor : ι → String
  maxBytes : ι → Nat
  maxFiles : ι → Nat

def Group.journal (g : Group ι) (i : ι) : JsonlJournal := ⟨g.path, g.actor i, 0, g.maxBytes i, g.maxFiles i, false⟩

/-- Where the call is that has the lock of its journal. -/
inductive CallPc (F : Type)
  | idle
  /-- before the sidecar lock -/
  | ready (c : Call F) (events : List (Event F))
  /-- with the sidecar lock; `rest` is not written yet -/
  | appending (c : Call F) (rest : Bytes)

def CallPc.lock : CallPc F → Option Unit
  | .appending _ _ => some ()
  | _ => none

/-- A call that has had the sidecar lock, and its records. -/
structure Entry (ι F : Type) where
  writer : ι
  call : Call F
  events : List (Event F)

/-- `begun` and `entries` are no part of the program: the calls that made their records, and those that took the
sidecar lock, in order. -/
structure Shared (ι F : Type) where
  journals : ι → JsonlJournal
  pcs : ι → CallPc F
  holder : Mutex.Table Unit ι
  dir : Dir
  begun : List (ι × Call F)
  entries : List (Entry ι F)

/-- `nesting` is how deep a value the stack of the call bears. -/
inductive CallAct (ι F : Type)
  | call (i : ι) (c : Call F) (nesting : Nat)
  | acquire (i : ι)
  /-- the next `n` bytes reach the file -/
  | append (i : ι) (n : Nat)
  | release (i : ι)
  | close (i : ι)

/-- The journals have been opened on a file that holds older events. -/
def Shared.start [JsonFloat F] (g : Group ι) (old : List (Event F)) : Shared ι F where
  journals := g.journal
  pcs := fun _ => .idle
  holder := fun _ => none
  dir := (touch (lockName g.path) ∅).insert g.path (eventBytes old)
  begun := []
  entries := []

/-- `__call__` up to the sidecar lock; a closed journal raises, and so does `json.dumps` of what it cannot write, when
`_seq` has been counted on. -/
def Shared.begin (s : Shared ι F) (i : ι) (c : Call F) (nesting : Nat) : Shared ι F :=
  let j := s.journals i
  if j.closed then s
  else if (j.records c).all fun e => (Value.obj e.fields).dumpable nesting then
    { s with
      journals := Function.update s.journals i { j with seq := j.seq + 1 }
      pcs := Function.update s.pcs i (.ready c (j.records c))
      begun := s.begun ++ [(i, c)] }
  else { s with journals := Function.update s.journals i { j with seq := j.seq + 1 } }

/-- The sidecar lock is taken, the file is open. -/
def Shared.enter [JsonFloat F] (s : Shared ι F) (i : ι) (c : Call F) (events : List (Event F)) (dir : Dir) : Shared ι F :=
  { s with
    pcs := Function.update s.pcs i (.appending c (eventBytes events))
    holder := Mutex.acquire () i s.holder
    dir := dir
    entries := s.entries ++ [⟨i, c, events⟩] }

/-- The next `n` bytes are written. -/
def Shared.write (s : Shared ι F) (i : ι) (c : Call F) (rest : Bytes) (n : Nat) : Shared ι F :=
  { s with
    pcs := Function.update s.pcs i (.appending c (rest.drop n))
    dir := appendBytes (s.journals i).path (rest.take n) s.dir }

/-- The second line is counted, both locks are given back. -/
def Shared.leave (s : Shared ι F) (i : ι) (c : Call F) : Shared ι F :=
  let j := s.journals i
  { s with
    journals := Function.update s.journals i { j with seq := j.seq + (if conflicts c.data = [] then 0 else 1) }
    pcs := Function.update s.pcs i .idle
    holder := Mutex.release () s.holder }

/-- `append` is a part of `fh.write` and `flush`. -/
def Shared.step [JsonFloat F] (s : Shared ι F) : CallAct ι F → Option (Shared ι F)
  | .call i c nesting =>
    match s.pcs i with
    | .idle => some (s.begin i c nesting)
    | _ => none
  | .acquire i =>
    match s.pcs i, s.holder () with
    | .ready c events, none =>
      match (rotateIfFull (s.journals i)).run ⟨touch (lockName (s.journals i).path) s.dir, none⟩ with
      | .ok _ disk => some (s.enter i c events (touch (s.journals i).path disk.dir))
      | .error _ _ => none
    | _, _ => none
  | .append i n =>
    match s.pcs i with
    | .appending c rest => some (s.write i c rest n)
    | _ => none
  | .release i =>
    match s.pcs i with
    | .appending c [] => some (s.leave i c)
    | _ => none
  | .close i =>
    match s.pcs i with
    | .idle => some { s with journals := Function.update s.journals i (s.journals i).close }
    | _ => none

/-- The step does not rotate the file. -/
def Shared.NoRotation (s : Shared ι F) : CallAct ι F → Prop
  | .acquire i => full (s.journals i) s.dir = false
  | _ => True

instance (s : Shared ι F) : ∀ a, Decidable (s.NoRotation a)
  | .acquire i => inferInstanceAs (Decidable (full (s.journals i) s.dir = false))
  | .call _ _ _ | .append _ _ | .release _ | .close _ => isTrue trivial

/-- What `json.dumps` writes of a call: what is kept of its payload, and the list of the keys that are not. -/
def Call.Dumpable (c : Call F) (nesting : Nat) : Prop :=
  0 < nesting ∧ (conflicts c.data ≠ [] → 1 < nesting) ∧
    ∀ f ∈ c.data.fields, f.1 ∉ reservedKeys → f.2.dumpable (nesting - 1) = true

instance (c : Call F) (nesting : Nat) : Decidable (c.Dumpable nesting) :=
  inferInstanceAs (Decidable (_ ∧ _ ∧ _))

/-- A call says what `json.dumps` writes, the numbers of its records included. -/
def Shared.Dumps (s : Shared ι F) : CallAct ι F → Prop
  | .call i c nesting => c.Dumpable nesting ∧ (s.journals i).seq + 2 < 10 ^ maxStrDigits
  | _ => True

instance (s : Shared ι F) : ∀ a, Decidable (s.Dumps a)
  | .call i c nesting =>
    inferInstanceAs (Decidable (c.Dumpable nesting ∧ (s.journals i).seq + 2 < 10 ^ maxStrDigits))
  | .acquire _ | .append _ _ | .release _ | .close _ => isTrue trivial

/-! ### What a call contributes -/

/-- The records of one call: first its own, whose service keys are the journal's and whose other keys are those of the
payload that are no service keys; then, if and only if the payload had service keys, the one that names them. -/
structure Contributes (actor : String) (c : Call F) (seq : Nat) (events : List (Event F)) : Prop where
  own : ∃ e rest, events = e :: rest ∧
    e.fields.filter (·.1 ∈ reservedKeys) =
      [("ts", .float c.ts), ("seq", .int seq), ("actor", .str actor), ("kind", .str c.kind)] ∧
    e.fields.filter (·.1 ∉ reservedKeys) = c.data.fields.filter (·.1 ∉ reservedKeys)
  alone : (∀ f ∈ c.data.fields, f.1 ∉ reservedKeys) → events.length = 1
  named : (∃ f ∈ c.data.fields, f.1 ∈ reservedKeys) → ∃ (e conflict : Event F) (keys : List String),
    events = [e, conflict] ∧
    conflict.fields =
      [("ts", .float c.tsConflict), ("seq", .int (seq + 1)), ("actor", .str actor),
        ("kind", .str "journal_key_conflict"), ("requested_kind", .str c.kind), ("keys", .arr (keys.map .str))] ∧
    keys.Pairwise (· ≤ ·) ∧ keys.Nodup ∧ ∀ key, key ∈ keys ↔ key ∈ reservedKeys ∧ ∃ f ∈ c.data.fields, f.1 = key

private theorem conflicts_eq_nil {data : Event F} : conflicts data = [] ↔ ∀ f ∈ data.fields, f.1 ∉ reservedKeys := by
  simp [conflicts, List.filter_eq_nil_iff]

private theorem mem_conflicts {data : Event F} {key : String} :
    key ∈ conflicts data ↔ key ∈ reservedKeys ∧ ∃ f ∈ data.fields, f.1 = key := by
  unfold conflicts
  rw [List.mem_filter, List.mem_map, decide_eq_true_iff]
  exact and_comm

/-- A record keeps the service keys and the keys of the payload apart. -/
private theorem filter_recordFields (ts : F) (seq : Nat) (actor kind : String) (data : Event F) :
    (recordFields ts seq actor kind data).filter (·.1 ∈ reservedKeys) =
        [("ts", .float ts), ("seq", .int seq), ("actor", .str actor), ("kind", .str kind)] ∧
      (recordFields ts seq actor kind data).filter (·.1 ∉ reservedKeys) = data.fields.filter (·.1 ∉ reservedKeys) := by
  have hnone : (data.fields.filter (·.1 ∉ reservedKeys)).filter (·.1 ∈ reservedKeys) = [] := by
    rw [List.filter_eq_nil_iff]
    intro f hf
    simpa using (List.mem_filter.1 hf).2
  unfold recordFields
  rw [List.filter_append, List.filter_append]
  constructor
  · rw [hnone]
    simp [reservedKeys]
  · rw [List.filter_filter]
    simp [reservedKeys]

private theorem contributes_records (j : JsonlJournal) (c : Call F) :
    Contributes j.actor c (j.seq + 1) (j.records c) where
  own := ⟨_, _, rfl, filter_recordFields ..⟩
  alone := by
    intro hnone
    rw [JsonlJournal.records, if_pos (conflicts_eq_nil.2 hnone)]
    rfl
  named := by
    rintro ⟨f, hf, hkey⟩
    have hne : conflicts c.data ≠ [] := by
      intro hnil
      exact conflicts_eq_nil.1 hnil f hf hkey
    refine ⟨record c.ts (j.seq + 1) j.actor c.kind c.data,
      conflictRecord c.tsConflict (j.seq + 1) j.actor c.kind c.data, (conflicts c.data).insertionSort (· ≤ ·),
      ?_, rfl, ?_, ?_, ?_⟩
    · rw [JsonlJournal.records, if_neg hne]
    · exact List.pairwise_insertionSort _ _
    · exact (List.perm_insertionSort _ _).nodup_iff.2 (c.data.nodup.1.filter _)
    · intro key
      rw [List.mem_insertionSort, mem_conflicts]

/-- The records of a call that `json.dumps` writes are written. -/
private theorem dumpable_records {j : JsonlJournal} {c : Call F} {nesting : Nat} (h : c.Dumpable nesting)
    (hseq : j.seq + 2 < 10 ^ maxStrDigits) :
    (j.records c).all (fun e => (Value.obj e.fields).dumpable nesting) = true := by
  obtain ⟨hpos, hkeys, hdata⟩ := h
  have hnumber : ∀ n ≤ j.seq + 2, (Value.int (F := F) (n : Nat)).dumpable (nesting - 1) = true := by
    intro n hn
    rw [Value.dumpable, Int.natAbs_natCast]
    exact decide_eq_true (hn.trans_lt hseq)
  have hown : (Value.obj (record c.ts (j.seq + 1) j.actor c.kind c.data).fields).dumpable nesting = true := by
    rw [Value.dumpable, Bool.and_eq_true, fieldsDumpable_iff]
    refine ⟨decide_eq_true hpos, fun f hf => ?_⟩
    rcases List.mem_append.1 hf with hf | hf
    · simp only [List.mem_cons, List.not_mem_nil, or_false] at hf
      rcases hf with rfl | rfl | rfl | rfl
      · rfl
      · exact hnumber (j.seq + 1) (by omega)
      · rfl
      · rfl
    · obtain ⟨hin, hfree⟩ := List.mem_filter.1 hf
      exact hdata f hin (of_decide_eq_true hfree)
  unfold JsonlJournal.records
  by_cases hnone : conflicts c.data = []
  · rw [if_pos hnone]
    simpa using hown
  · rw [if_neg hnone]
    have hone := hkeys hnone
    have hnamed : (Value.obj (conflictRecord c.tsConflict (j.seq + 1) j.actor c.kind c.data).fields).dumpable nesting =
        true := by
      rw [Value.dumpable, Bool.and_eq_true, fieldsDumpable_iff]
      refine ⟨decide_eq_true hpos, fun f hf => ?_⟩
      simp only [conflictRecord, conflictFields, List.mem_cons, List.not_mem_nil, or_false] at hf
      rcases hf with rfl | rfl | rfl | rfl | rfl | rfl
      · rfl
      · exact hnumber (j.seq + 2) (le_refl _)
      · rfl
      · rfl
      · rfl
      · rw [Value.dumpable, Bool.and_eq_true, elemsDumpable_iff]
        refine ⟨decide_eq_true (by omega), fun v hv => ?_⟩
        obtain ⟨key, -, rfl⟩ := List.mem_map.1 hv
        rfl
    simp [hown, hnamed]

/-! ### The numbers of the records -/

def JsonlJournal.at (j : JsonlJournal) (seq : Nat) : JsonlJournal := { j with seq := seq }

private theorem length_records (j : JsonlJournal) (c : Call F) :
    (j.records c).length = 1 + (if conflicts c.data = [] then 0 else 1) := by
  unfold JsonlJournal.records
  split_ifs <;> rfl

/-- Consecutive numbers. -/
def numbers (F : Type) (first count : Nat) : List (Option (Value F)) :=
  (List.range' first count).map fun (n : Nat) => some (.int n)

private theorem numbers_append (first n m : Nat) :
    numbers F first n ++ numbers F (first + n) m = numbers F first (n + m) := by
  rw [numbers, numbers, numbers, ← List.map_append, List.range'_append_1]

private theorem numbers_records (j : JsonlJournal) (c : Call F) :
    (j.records c).map Event.seq = numbers F (j.seq + 1) (j.records c).length := by
  rw [length_records]
  unfold JsonlJournal.records
  split_ifs <;> rfl

/-- The records of a journal are numbered without a gap. -/
private theorem seq_allRecords (j : JsonlJournal) (calls : List (Call F)) :
    (allRecords j calls).map Event.seq = numbers F (j.seq + 1) (allRecords j calls).length := by
  induction calls generalizing j with
  | nil => rfl
  | cons c calls ih =>
    rw [allRecords, List.map_append, numbers_records, ih, List.length_append, ← numbers_append]
    dsimp only
    rw [Nat.add_right_comm]

private theorem allRecords_append (j : JsonlJournal) (calls : List (Call F)) (c : Call F) :
    allRecords j (calls ++ [c]) =
      allRecords j calls ++ (j.at (j.seq + (allRecords j calls).length)).records c := by
  induction calls generalizing j with
  | nil => simp [allRecords, JsonlJournal.at]
  | cons d calls ih =>
    rw [List.cons_append, allRecords, ih, allRecords, List.append_assoc, List.length_append]
    simp only [JsonlJournal.at, Nat.add_assoc]

/-! ### One step -/

/-- The calls of one journal that have had the sidecar lock. -/
def Shared.entriesOf (s : Shared ι F) (i : ι) : List (Entry ι F) := s.entries.filter fun e => e.writer = i

def Shared.callsOf (s : Shared ι F) (i : ι) : List (Call F) := (s.begun.filter fun b => b.1 = i).map Prod.snd

/-- The call that waits for the sidecar lock. -/
def CallPc.waiting : CallPc F → List (Call F)
  | .ready c _ => [c]
  | _ => []

def CallPc.rest : CallPc F → Bytes
  | .appending _ rest => rest
  | _ => []

/-- What the holder of the sidecar lock has not written yet. -/
def unwritten (holder : Mutex.Table Unit ι) (pcs : ι → CallPc F) : Bytes :=
  match holder () with
  | none => []
  | some i => (pcs i).rest

/-- The counter of a journal between its calls and within one, where it has `count` records in the file. -/
def CallPc.Counts (j : JsonlJournal) (seq count : Nat) : CallPc F → Prop
  | .idle => seq = count
  | .ready c events => seq = count + 1 ∧ events = (j.at count).records c
  | .appending c _ => seq + (if conflicts c.data = [] then 0 else 1) = count

/-- One journal: in the file is what it would have written alone. -/
structure Shared.Own (s : Shared ι F) (g : Group ι) (i : ι) : Prop where
  path : (s.journals i).path = g.path
  actor : (s.journals i).actor = g.actor i
  records : (s.entriesOf i).flatMap Entry.events = allRecords (g.journal i) ((s.entriesOf i).map Entry.call)
  calls : s.callsOf i = (s.entriesOf i).map Entry.call ++ (s.pcs i).waiting
  counts : (s.pcs i).Counts (g.journal i) (s.journals i).seq ((s.entriesOf i).flatMap Entry.events).length

/-- What holds between any two steps. -/
structure Shared.Inv [JsonFloat F] (s : Shared ι F) (g : Group ι) (old : List (Event F)) : Prop where
  own : ∀ i, s.Own g i
  each : ∀ e ∈ s.entries, ∃ seq, e.events = ((g.journal e.writer).at seq).records e.call
  owned : Mutex.Owned CallPc.lock s.holder s.pcs
  live : ∃ content, s.dir.lookup g.path = some content ∧
    content ++ unwritten s.holder s.pcs = eventBytes (old ++ s.entries.flatMap Entry.events)

variable [JsonFloat F] {g : Group ι} {old : List (Event F)} {s s' : Shared ι F}

theorem inv_start (g : Group ι) (old : List (Event F)) : (Shared.start g old).Inv g old where
  own := fun i => ⟨rfl, rfl, rfl, rfl, rfl⟩
  each := by
    intro e he
    cases he
  owned := Mutex.owned_free fun _ => rfl
  live := ⟨eventBytes old, AList.lookup_insert _, by simp [unwritten, Shared.start]⟩

omit [JsonFloat F] in
/-- A step of one journal leaves what is said of another. -/
theorem Shared.Own.other {i : ι} (h : s.Own g i) (hjournal : s'.journals i = s.journals i) (hpc : s'.pcs i = s.pcs i)
    (hentries : s'.entriesOf i = s.entriesOf i) (hcalls : s'.callsOf i = s.callsOf i) : s'.Own g i where
  path := hjournal ▸ h.path
  actor := hjournal ▸ h.actor
  records := hentries ▸ h.records
  calls := by rw [hcalls, hentries, hpc, h.calls]
  counts := by
    rw [hpc, hjournal, hentries]
    exact h.counts

omit [JsonFloat F] in
/-- The records depend on the name and the counter of a journal only. -/
private theorem Shared.Own.records_at {i : ι} (h : s.Own g i) (c : Call F) :
    (s.journals i).records c = ((g.journal i).at (s.journals i).seq).records c := by
  unfold JsonlJournal.records
  rw [h.actor]
  rfl

omit [JsonFloat F] in
private theorem unwritten_stay {holder : Mutex.Table Unit ι} {pcs : ι → CallPc F} {i : ι} {pc : CallPc F}
    (h : Mutex.Owned CallPc.lock holder pcs) (hold : (pcs i).lock = none) :
    unwritten holder (Function.update pcs i pc) = unwritten holder pcs := by
  unfold unwritten
  cases hholder : holder () with
  | none => rfl
  | some k =>
    have hne : k ≠ i := by
      rintro rfl
      rw [(h k ()).2 hholder] at hold
      cases hold
    dsimp only
    rw [Function.update_of_ne hne]

omit [DecidableEq ι] [JsonFloat F] in
private theorem unwritten_of_appending {holder : Mutex.Table Unit ι} {pcs : ι → CallPc F} {i : ι} {c : Call F}
    {rest : Bytes}
    (h : Mutex.Owned CallPc.lock holder pcs) (hpc : pcs i = .appending c rest) : unwritten holder pcs = rest := by
  have hholder : holder () = some i := (h i ()).1 (by rw [hpc]; rfl)
  rw [unwritten, hholder]
  dsimp only
  rw [hpc]
  rfl

theorem Shared.Inv.begin (h : s.Inv g old) {i : ι} {c : Call F} {nesting : Nat} (hpc : s.pcs i = .idle)
    (hdumps : s.Dumps (.call i c nesting)) : (s.begin i c nesting).Inv g old := by
  unfold Shared.begin
  dsimp only
  split
  · exact h
  rw [if_pos (dumpable_records hdumps.1 hdumps.2)]
  have hown := h.own i
  have hcounts := hown.counts
  rw [hpc] at hcounts
  refine ⟨?_, h.each, ?_, ?_⟩
  · intro k
    by_cases hk : k = i
    · subst hk
      refine ⟨?_, ?_, hown.records, ?_, ?_⟩
      · simp only [Function.update_self]
        exact hown.path
      · simp only [Function.update_self]
        exact hown.actor
      · have hcalls := hown.calls
        rw [hpc] at hcalls
        simp only [Shared.callsOf, Shared.entriesOf, Function.update_self, CallPc.waiting, List.append_nil,
          List.filter_append, List.map_append] at hcalls ⊢
        rw [hcalls]
        simp
      · simp only [Function.update_self]
        refine ⟨congrArg (· + 1) hcounts, ?_⟩
        rw [hown.records_at, hcounts]
        rfl
    · apply (h.own k).other
      · exact Function.update_of_ne hk ..
      · exact Function.update_of_ne hk ..
      · rfl
      · simp [Shared.callsOf, List.filter_append, Ne.symm hk]
  · exact h.owned.stay (by rw [hpc]; rfl)
  · obtain ⟨content, hlook, hcontent⟩ := h.live
    refine ⟨content, hlook, ?_⟩
    rw [unwritten_stay h.owned (by rw [hpc]; rfl)]
    exact hcontent

omit [JsonFloat F] in
private theorem entriesOf_append {e : Entry ι F} {k : ι} (h : s'.entries = s.entries ++ [e]) :
    s'.entriesOf k = s.entriesOf k ++ if e.writer = k then [e] else [] := by
  rw [Shared.entriesOf, h, List.filter_append, Shared.entriesOf]
  by_cases hk : e.writer = k
  · rw [if_pos hk, List.filter_cons_of_pos (by simpa using hk), List.filter_nil]
  · rw [if_neg hk, List.filter_cons_of_neg (by simpa using hk), List.filter_nil]

private theorem lookup_touch_lock {d : Dir} {path : String} :
    (touch (lockName path) d).lookup path = d.lookup path := by
  have hslots : slots path (touch (lockName path) d) 0 = slots path d 0 := by rw [slots_touch_lock]
  exact hslots

/-- Without a rotation the file stays as it is until its call writes. -/
private theorem Shared.Inv.enter_of_acquire (h : s.Inv g old) {i : ι} {c : Call F} {events : List (Event F)}
    (hpc : s.pcs i = .ready c events) (hfree : s.holder () = none) (hfull : full (s.journals i) s.dir = false) :
    s.step (.acquire i) = some (s.enter i c events (touch (lockName g.path) s.dir)) := by
  obtain ⟨content, hlook, -⟩ := h.live
  have hpath := (h.own i).path
  have hrot := rotateIfFull_spec (s.journals i) (touch (lockName (s.journals i).path) s.dir) none
  rw [full_touch_lock, hfull, if_neg Bool.false_ne_true, hpath] at hrot
  have hkeep : touch g.path (touch (lockName g.path) s.dir) = touch (lockName g.path) s.dir := by
    rw [touch, lookup_touch_lock, hlook]
    rfl
  simp only [Shared.step, hpc, hfree, hpath, hrot, hkeep]

theorem Shared.Inv.enter (h : s.Inv g old) {i : ι} {c : Call F} {events : List (Event F)}
    (hpc : s.pcs i = .ready c events) (hfree : s.holder () = none) :
    (s.enter i c events (touch (lockName g.path) s.dir)).Inv g old := by
  have hown := h.own i
  have hcounts := hown.counts
  have hcalls := hown.calls
  rw [hpc] at hcounts hcalls
  obtain ⟨hseq, hevents⟩ := hcounts
  have howned : Mutex.Owned CallPc.lock (Mutex.acquire () i s.holder)
      (Function.update s.pcs i (.appending c (eventBytes events))) := h.owned.acquire (by rw [hpc]; rfl) hfree rfl
  have hentries : ∀ k, (s.enter i c events (touch (lockName g.path) s.dir)).entriesOf k =
      s.entriesOf k ++ if i = k then [⟨i, c, events⟩] else [] := by
    intro k
    exact entriesOf_append (e := ⟨i, c, events⟩) rfl
  refine ⟨?_, ?_, howned, ?_⟩
  · intro k
    by_cases hk : k = i
    · subst hk
      refine ⟨hown.path, hown.actor, ?_, ?_, ?_⟩
      · rw [hentries, if_pos rfl, List.flatMap_append, List.map_append, List.map_singleton, allRecords_append,
          ← hown.records, List.flatMap_singleton, hevents]
        simp only [Group.journal, Nat.zero_add]
      · rw [hentries, if_pos rfl, List.map_append]
        simp only [Shared.enter, Function.update_self]
        exact hcalls.trans (List.append_nil _).symm
      · rw [hentries, if_pos rfl, List.flatMap_append, List.length_append, List.flatMap_singleton]
        simp only [Shared.enter, Function.update_self, CallPc.Counts, hevents, length_records, hseq]
        omega
    · apply (h.own k).other
      · rfl
      · exact Function.update_of_ne hk ..
      · rw [hentries, if_neg (Ne.symm hk), List.append_nil]
      · rfl
  · intro e he
    rcases List.mem_append.1 he with he | he
    · exact h.each e he
    · obtain rfl := List.mem_singleton.1 he
      exact ⟨_, hevents⟩
  · obtain ⟨content, hlook, hcontent⟩ := h.live
    rw [unwritten, hfree, List.append_nil] at hcontent
    refine ⟨content, lookup_touch_lock.trans hlook, ?_⟩
    have hrest : unwritten (Mutex.acquire () i s.holder) (Function.update s.pcs i (.appending c (eventBytes events))) =
        eventBytes events := unwritten_of_appending howned (Function.update_self ..)
    simp only [Shared.enter]
    rw [hrest, hcontent, List.flatMap_append, List.flatMap_singleton, ← List.append_assoc, ← eventBytes_append]

theorem Shared.Inv.write (h : s.Inv g old) {i : ι} {c : Call F} {rest : Bytes} (n : Nat)
    (hpc : s.pcs i = .appending c rest) : (s.write i c rest n).Inv g old := by
  have howned : Mutex.Owned CallPc.lock s.holder (Function.update s.pcs i (.appending c (rest.drop n))) :=
    h.owned.stay (by rw [hpc]; rfl)
  refine ⟨?_, h.each, howned, ?_⟩
  · intro k
    by_cases hk : k = i
    · subst hk
      have hown := h.own k
      have hcalls := hown.calls
      have hcounts := hown.counts
      rw [hpc] at hcalls hcounts
      have hpc' : (s.write k c rest n).pcs k = .appending c (rest.drop n) := Function.update_self ..
      refine ⟨hown.path, hown.actor, hown.records, ?_, ?_⟩
      · rw [hpc']
        exact hcalls
      · rw [hpc']
        exact hcounts
    · apply (h.own k).other
      · rfl
      · exact Function.update_of_ne hk ..
      · rfl
      · rfl
  · obtain ⟨content, hlook, hcontent⟩ := h.live
    rw [unwritten_of_appending h.owned hpc] at hcontent
    have hrest : unwritten (s.write i c rest n).holder (s.write i c rest n).pcs = rest.drop n :=
      unwritten_of_appending howned (Function.update_self ..)
    refine ⟨content ++ rest.take n, ?_, ?_⟩
    · show (appendBytes (s.journals i).path (rest.take n) s.dir).lookup g.path = _
      rw [(h.own i).path, appendBytes, AList.lookup_insert, hlook]
      rfl
    · rw [hrest, List.append_assoc, List.take_append_drop]
      exact hcontent

theorem Shared.Inv.leave (h : s.Inv g old) {i : ι} {c : Call F} (hpc : s.pcs i = .appending c []) :
    (s.leave i c).Inv g old := by
  have howned : Mutex.Owned CallPc.lock (Mutex.release () s.holder) (Function.update s.pcs i .idle) :=
    h.owned.release (by rw [hpc]; rfl) rfl
  refine ⟨?_, h.each, howned, ?_⟩
  · intro k
    by_cases hk : k = i
    · subst hk
      have hown := h.own k
      have hcalls := hown.calls
      have hcounts := hown.counts
      rw [hpc] at hcalls hcounts
      refine ⟨?_, ?_, hown.records, ?_, ?_⟩
      · simp only [Shared.leave, Function.update_self]
        exact hown.path
      · simp only [Shared.leave, Function.update_self]
        exact hown.actor
      · simp only [Shared.leave, Function.update_self]
        exact hcalls
      · simp only [Shared.leave, Function.update_self]
        exact hcounts
    · apply (h.own k).other
      · exact Function.update_of_ne hk ..
      · exact Function.update_of_ne hk ..
      · rfl
      · rfl
  · obtain ⟨content, hlook, hcontent⟩ := h.live
    rw [unwritten_of_appending h.owned hpc] at hcontent
    refine ⟨content, hlook, ?_⟩
    simpa [Shared.leave, unwritten, Mutex.release] using hcontent

theorem Shared.Inv.close (h : s.Inv g old) (i : ι) :
    Shared.Inv { s with journals := Function.update s.journals i (s.journals i).close } g old := by
  refine ⟨?_, h.each, h.owned, h.live⟩
  intro k
  by_cases hk : k = i
  · subst hk
    have hown := h.own k
    refine ⟨?_, ?_, hown.records, hown.calls, ?_⟩
    · simp only [Function.update_self]
      exact hown.path
    · simp only [Function.update_self]
      exact hown.actor
    · simp only [Function.update_self]
      exact hown.counts
  · apply (h.own k).other
    · exact Function.update_of_ne hk ..
    · rfl
    · rfl
    · rfl

theorem Shared.Inv.step (h : s.Inv g old) {a : CallAct ι F} (hrotation : s.NoRotation a) (hdumps : s.Dumps a)
    (hstep : s.step a = some s') : s'.Inv g old := by
  cases a with
  | call i c nesting =>
    simp only [Shared.step] at hstep
    split at hstep
    · rename_i hpc
      obtain rfl := Option.some.inj hstep
      exact h.begin hpc hdumps
    · cases hstep
  | acquire i =>
    match hpc : s.pcs i, hfree : s.holder () with
    | .ready c events, none =>
      rw [h.enter_of_acquire hpc hfree hrotation] at hstep
      obtain rfl := Option.some.inj hstep
      exact h.enter hpc hfree
    | .ready c events, some k => simp [Shared.step, hpc, hfree] at hstep
    | .idle, _ => simp [Shared.step, hpc] at hstep
    | .appending c rest, _ => simp [Shared.step, hpc] at hstep
  | append i n =>
    simp only [Shared.step] at hstep
    split at hstep
    · rename_i c rest hpc
      obtain rfl := Option.some.inj hstep
      exact h.write n hpc
    · cases hstep
  | release i =>
    simp only [Shared.step] at hstep
    split at hstep
    · rename_i c hpc
      obtain rfl := Option.some.inj hstep
      exact h.leave hpc
    · cases hstep
  | close i =>
    simp only [Shared.step] at hstep
    split at hstep
    · obtain rfl := Option.some.inj hstep
      exact h.close i
    · cases hstep

/-- Where `json.dumps` writes what is said: reading the file back, while no call is within the sidecar lock, gives call by
call what was said: each journal has numbered its records from 1 without a gap, and each of its calls, in their order, is there with its own record and, if
and only if its payload had service keys, the one that names them behind it. -/
theorem said_is_journaled {acts : List (CallAct ι F)} (hrun : run Shared.step (Shared.start g old) acts = some s)
    (hrotation : Along Shared.step Shared.NoRotation (Shared.start g old) acts)
    (hdumps : Along Shared.step Shared.Dumps (Shared.start g old) acts) (hfree : s.holder () = none) :
    readEvents s.dir g.path = .ok ((old ++ s.entries.flatMap Entry.events).map Event.fields) ∧
    (∀ i, s.callsOf i = (s.entriesOf i).map Entry.call ++ (s.pcs i).waiting ∧
      ∃ n, ((s.entriesOf i).flatMap Entry.events).map Event.seq = numbers F 1 n) ∧
    ∀ e ∈ s.entries, ∃ seq, Contributes (g.actor e.writer) e.call seq e.events := by
  have h : s.Inv g old := (hrotation.and hdumps).invariant (I := fun s => s.Inv g old)
    (fun _ _ _ hmeets hstep hs => Shared.Inv.step hs hmeets.1 hmeets.2 hstep) hrun (inv_start g old)
  refine ⟨?_, ?_, ?_⟩
  · obtain ⟨content, hlook, hcontent⟩ := h.live
    rw [unwritten, hfree, List.append_nil] at hcontent
    rw [readEvents, hlook, hcontent]
    dsimp only
    rw [parseContent_eventBytes]
    rfl
  · intro i
    refine ⟨(h.own i).calls, (allRecords (g.journal i) ((s.entriesOf i).map Entry.call)).length, ?_⟩
    rw [(h.own i).records]
    exact seq_allRecords (g.journal i) _
  · intro e he
    obtain ⟨seq, hevents⟩ := h.each e he
    rw [hevents]
    exact ⟨seq + 1, contributes_records ((g.journal e.writer).at seq) e.call⟩

/-! Two journals, one of them with a payload that has a service key. -/

def twoJournals : Group Bool := ⟨"j.jsonl", fun i => if i then "a" else "b", fun _ => 1000, fun _ => 5⟩

def oneSecond : LitFloat := ⟨.num ⟨false, ['1'], some ['0'], none⟩, rfl⟩

def plainCall : Call LitFloat :=
  ⟨"write", ⟨[("bytes", .int 2)], by simp [Value.keysNodup, Value.keysNodup.fieldsNodup]⟩, oneSecond, oneSecond⟩

def shadowingCall : Call LitFloat :=
  ⟨"my_kind", ⟨[("kind", .str "EVIL"), ("data", .str "ok")], by simp [Value.keysNodup, Value.keysNodup.fieldsNodup]⟩,
    oneSecond, oneSecond⟩

def twoCalls : List (CallAct Bool LitFloat) :=
  [.call true shadowingCall 900, .call false plainCall 900, .acquire false, .append false 1000, .release false, .acquire true,
    .append true 10, .append true 1000, .release true]

theorem said_is_journaled_two : ∃ s, run Shared.step (Shared.start twoJournals []) twoCalls = some s ∧
    readEvents s.dir "j.jsonl" = .ok ((s.entries.flatMap Entry.events).map Event.fields) ∧
    (s.entriesOf true).map (fun e => e.call.kind) = ["my_kind"] ∧
    ∀ e ∈ s.entries, ∃ seq, Contributes (twoJournals.actor e.writer) e.call seq e.events := by
  have hrotation : Along Shared.step Shared.NoRotation (Shared.start twoJournals []) twoCalls := by decide +kernel
  have hdumps : Along Shared.step Shared.Dumps (Shared.start twoJournals []) twoCalls := by decide +kernel
  have hend : (run Shared.step (Shared.start twoJournals []) twoCalls).any (fun s =>
      s.holder () = none ∧ (s.entriesOf true).map (fun e => e.call.kind) = ["my_kind"]) = true := by decide +kernel
  obtain ⟨s, hrun, hlast⟩ := (Option.any_eq_true _ _).1 hend
  obtain ⟨hfree, hentries⟩ := of_decide_eq_true hlast
  obtain ⟨hread, -, hsaid⟩ := said_is_journaled hrun hrotation hdumps hfree
  exact ⟨s, hrun, hread, hentries, hsaid⟩

/-! A journal that is told an integer of 4301 digits and then an event as usual. -/

def longCall : Call LitFloat :=
  ⟨"read", ⟨[("bytes", .int (10 ^ maxStrDigits))], by simp [Value.keysNodup, Value.keysNodup.fieldsNodup]⟩, oneSecond,
    oneSecond⟩

def afterLongCall : List (CallAct Bool LitFloat) :=
  [.call true longCall 900, .call true plainCall 900, .acquire true, .append true 1000, .release true]

def Event.number (e : Event LitFloat) : Option Int :=
  match e.seq with
  | some (.int n) => some n
  | _ => none

/-- The only record of the journal has the number 2. -/
theorem long_integer_leaves_gap : ∃ s, run Shared.step (Shared.start twoJournals []) afterLongCall = some s ∧
    Along Shared.step Shared.NoRotation (Shared.start twoJournals []) afterLongCall ∧ s.holder () = none ∧
    ((s.entriesOf true).flatMap Entry.events).map Event.number = [some 2] ∧
    ¬ ∃ n, ((s.entriesOf true).flatMap Entry.events).map Event.seq = numbers LitFloat 1 n := by
  have hrotation : Along Shared.step Shared.NoRotation (Shared.start twoJournals []) afterLongCall := by decide +kernel
  have hend : (run Shared.step (Shared.start twoJournals []) afterLongCall).any (fun s =>
      s.holder () = none ∧ ((s.entriesOf true).flatMap Entry.events).map Event.number = [some 2]) = true := by
    decide +kernel
  obtain ⟨s, hrun, hlast⟩ := (Option.any_eq_true _ _).1 hend
  obtain ⟨hfree, hnumber⟩ := of_decide_eq_true hlast
  refine ⟨s, hrun, hrotation, hfree, hnumber, ?_⟩
  rintro ⟨n, hseq⟩
  obtain ⟨e, he, hnumber⟩ := List.map_eq_singleton_iff.1 hnumber
  rw [he] at hseq
  obtain rfl : n = 1 := by simpa [numbers] using (congrArg List.length hseq).symm
  have hone : e.seq = some (.int 1) := by simpa [numbers] using hseq
  simp [Event.number, hone] at hnumber

end IronHarness.Journal
