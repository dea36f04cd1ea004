import IronHarness.Journal.History

/-!
# The live file of one writer

What the live file holds after the calls of one writer that raise nothing: the records since the last rotation
(`liveFile_eq`), which are all records as long as these stay within the size that is rotated (`liveEvents_all`).
-/

namespace IronHarness.Journal

open ByteText Rotation Runs

variable {F : Type} [JsonText.JsonFloat F]

/-- The live file once a writer has made the calls, one after the other, in an empty directory. -/
def liveFile (cfg : Config) (actor : String) (calls : List (Call F)) : Option Bytes :=
  (run (step cfg) World.empty (.openWriter actor :: calls.map fun c => .call 0 c .none)).bind
    fun w => w.dir.lookup cfg.path

/-- The writer and the events of the live file after a call; a rotation in front of it moves the others away. -/
def keepLive (st : JsonlJournal × List (Event F)) (c : Call F) : JsonlJournal × List (Event F) :=
  ({ st.1 with seq := st.1.seq + (st.1.records c).length },
    (if st.1.maxBytes ≤ (eventBytes st.2).length then [] else st.2) ++ st.1.records c)

def newJournal (cfg : Config) (actor : String) : JsonlJournal := ⟨cfg.path, actor, 0, cfg.maxBytes, cfg.maxFiles, false⟩

def liveEvents (cfg : Config) (actor : String) (calls : List (Call F)) : List (Event F) :=
  (calls.foldl keepLive (newJournal cfg actor, [])).2

/-- The records of calls, one after the other. -/
def allRecords (j : JsonlJournal) : List (Call F) → List (Event F)
  | [] => []
  | c :: calls => j.records c ++ allRecords { j with seq := j.seq + (j.records c).length } calls

variable {cfg : Config} {j : JsonlJournal} {c : Call F} {d : Dir} {live : List (Event F)}

/-- One call: the live file is rotated when it is full, and takes the records of the call. -/
private theorem call_live (hopen : ¬ j.closed = true) (hlive : d.lookup j.path = some (eventBytes live)) :
    ∃ d', j.call c .none d = (.returned, (keepLive (j, live) c).1, d') ∧
      d'.lookup j.path = some (eventBytes (keepLive (j, live) c).2) := by
  have hcases := appendLocked_cases j (eventBytes (j.records c)) .none d
  cases hrun : appendLocked j (eventBytes (j.records c)) .none d with
  | mk ok d' =>
    rw [hrun] at hcases
    cases hcases with
    | done _ _ _ hslots =>
      refine ⟨d', call_eq hopen hrun, ?_⟩
      have hslot : d'.lookup j.path = push (rotated j d) (eventBytes (j.records c)) 0 := congrFun hslots 0
      have hfull : full j d = decide (j.maxBytes ≤ (eventBytes live).length) := by
        rw [full, hlive]
      rw [hslot, push, Function.update_self, rotated, hfull, keepLive]
      by_cases hsize : j.maxBytes ≤ (eventBytes live).length
      · simp [hsize, shifted_zero]
      · have hself : slots j.path d 0 = some (eventBytes live) := hlive
        simp [hsize, hself, eventBytes_append]

private theorem run_live {w : World F} (hwriters : w.writers = [j]) (hopen : ¬ j.closed = true)
    (hlive : w.dir.lookup j.path = some (eventBytes live)) (calls : List (Call F)) :
    ∃ w', run (step cfg) w (calls.map fun c => .call 0 c .none) = some w' ∧
      w'.dir.lookup j.path = some (eventBytes (calls.foldl keepLive (j, live)).2) := by
  induction calls generalizing w j live with
  | nil => exact ⟨w, rfl, hlive⟩
  | cons c calls ih =>
    obtain ⟨d', hcall, hd'⟩ := call_live (c := c) hopen hlive
    have hstep : ∃ w', step cfg w (.call 0 c .none) = some w' ∧ w'.writers = [(keepLive (j, live) c).1] ∧
        w'.dir = d' := by
      rw [step, hwriters]
      refine ⟨_, rfl, ?_, ?_⟩
      · simp [hcall]
      · simp [hcall]
    obtain ⟨w', hw', hwriters', rfl⟩ := hstep
    obtain ⟨w'', hrun, hlast⟩ := @ih (keepLive (j, live) c).1 (keepLive (j, live) c).2 _ hwriters' hopen hd'
    refine ⟨w'', ?_, hlast⟩
    rw [List.map_cons, run_cons_eq_some]
    exact ⟨w', hw', hrun⟩

/-- The live file holds the records since the last rotation. -/
theorem liveFile_eq (cfg : Config) (actor : String) (calls : List (Call F)) :
    liveFile cfg actor calls = some (eventBytes (liveEvents cfg actor calls)) := by
  have hopened : ∃ w : World F, step cfg World.empty (.openWriter actor) = some w ∧ w.writers = [newJournal cfg actor] ∧
      w.dir.lookup cfg.path = some (eventBytes ([] : List (Event F))) := by
    refine ⟨_, rfl, rfl, ?_⟩
    have hslots := congrFun (slots_touch_live cfg.path (touch (lockName cfg.path) ∅)) 0
    rw [slots_touch_lock] at hslots
    exact hslots
  obtain ⟨w, hw, hwriters, hlive⟩ := hopened
  obtain ⟨w', hrun, hlast⟩ := @run_live _ _ cfg (newJournal cfg actor) _ _ hwriters Bool.false_ne_true hlive calls
  have hwhole : run (step cfg) World.empty (.openWriter actor :: calls.map fun c => .call 0 c .none) = some w' :=
    run_cons_eq_some.2 ⟨w, hw, hrun⟩
  rw [liveFile, hwhole]
  exact hlast

private theorem foldl_keepLive (live : List (Event F)) (calls : List (Call F)) :
    (calls.foldl keepLive (j, live)).2 <:+ live ++ allRecords j calls ∧
      ((eventBytes (live ++ allRecords j calls)).length ≤ j.maxBytes →
        (calls.foldl keepLive (j, live)).2 = live ++ allRecords j calls) := by
  induction calls generalizing j live with
  | nil =>
    rw [allRecords, List.append_nil]
    exact ⟨List.suffix_rfl, fun _ => rfl⟩
  | cons c calls ih =>
    rw [List.foldl_cons, allRecords, ← List.append_assoc]
    obtain ⟨hsuffix, hall⟩ := @ih (keepLive (j, live) c).1 (keepLive (j, live) c).2
    constructor
    · refine hsuffix.trans ?_
      unfold keepLive
      dsimp only
      split
      · rw [List.nil_append, List.append_assoc]
        exact List.suffix_append _ _
      · exact List.suffix_rfl
    · intro hsize
      have hpos : 0 < (eventBytes (j.records c)).length := by
        have hne := List.length_pos_iff.2 (eventBytes_ne_nil (record c.ts (j.seq + 1) j.actor c.kind c.data))
        rw [JsonlJournal.records, ← List.singleton_append, eventBytes_append, List.length_append]
        omega
      have hroom : ¬ j.maxBytes ≤ (eventBytes live).length := by
        rw [eventBytes_append, eventBytes_append, List.length_append, List.length_append] at hsize
        omega
      have hkept : (keepLive (j, live) c).2 = live ++ j.records c := by
        rw [keepLive]
        dsimp only
        rw [if_neg hroom]
      have hrest := hall (by rw [hkept]; exact hsize)
      rw [hrest, hkept]
      rfl

theorem liveEvents_all {cfg : Config} {actor : String} {calls : List (Call F)}
    (h : (eventBytes (allRecords (newJournal cfg actor) calls)).length ≤ cfg.maxBytes) :
    liveEvents cfg actor calls = allRecords (newJournal cfg actor) calls :=
  (foldl_keepLive [] calls).2 h

end IronHarness.Journal
