import IronHarness.Journal.History

/-!
# Calls of one journal that fail

A call that fails may leave a part of its bytes in the live file: a line without its newline, which the next record
then continues, or both of its lines, whose second number the next call takes again.  In a run whose failing calls
left none of their bytes or exactly their first line, and whose failing rotations hid nothing, the sequence numbers of
the lines increase and every event of a call that returned is read back (`torn_calls`).
-/

namespace IronHarness.Journal

open ByteText Rotation TextLines JsonText Runs

variable {F : Type}

/-- The sequence number of a record. -/
def Event.seq (e : Event F) : Option (Value F) := e.fields.lookup "seq"

/-- The directory and the journal right after `JsonlJournal.__init__` in an empty directory. -/
def World.opened (cfg : Config) (actor : String) : World F :=
  let (j, d) := openJournal cfg.path actor cfg.maxBytes cfg.maxFiles ∅
  ⟨d, [j], [], []⟩

/-- The step is one of the journal opened, and its fault leaves the chain clean. -/
def CleanCall [JsonFloat F] (w : World F) (a : Act F) : Prop := Clean w a ∧ ∀ actor, a ≠ .openWriter actor

private theorem seq_record (ts : F) (n : Nat) (actor kind : String) (data : Event F) :
    (record ts n actor kind data).seq = some (.int n) := rfl

private theorem seq_conflictRecord (ts : F) (n : Nat) (actor kind : String) (data : Event F) :
    (conflictRecord ts n actor kind data).seq = some (.int (n + 1)) := rfl

/-- The records of a call are numbered from the next number on. -/
private theorem seq_records (j : JsonlJournal) (c : Call F) :
    ∃ ns : List Nat, (j.records c).map Event.seq = ns.map (fun n : Nat => some (.int n)) ∧
      ns.Pairwise (· < ·) ∧ (∀ n ∈ ns, j.seq < n ∧ n ≤ j.seq + (j.records c).length) ∧
      ∀ n ∈ ns.take 1, n = j.seq + 1 := by
  by_cases hc : conflicts c.data = []
  · refine ⟨[j.seq + 1], ?_, List.pairwise_singleton _ _, ?_, ?_⟩
    · simp [JsonlJournal.records, hc, seq_record]
    · intro n hn
      obtain rfl := List.mem_singleton.1 hn
      simp [JsonlJournal.records, hc]
    · intro n hn
      exact List.mem_singleton.1 hn
  · refine ⟨[j.seq + 1, j.seq + 2], ?_, ?_, ?_, ?_⟩
    · simp [JsonlJournal.records, hc, seq_record, seq_conflictRecord]
      omega
    · simp
    · intro n hn
      simp only [List.mem_cons, List.not_mem_nil, or_false] at hn
      rcases hn with rfl | rfl
      · simp [JsonlJournal.records, hc]
      · simp [JsonlJournal.records, hc]
    · intro n hn
      exact List.mem_singleton.1 hn

/-- The lines written so far have increasing numbers, none above that of the journal, and the events of the calls
that returned are among them. -/
structure Numbered (w : World F) : Prop where
  seqs : ∃ (j : JsonlJournal) (ns : List Nat), w.writers = [j] ∧ w.log.map Event.seq = ns.map (fun n : Nat => some (.int n)) ∧
    ns.Pairwise (· < ·) ∧ ∀ n ∈ ns, n ≤ j.seq
  acked : w.acked.Sublist w.log

variable [JsonFloat F] {cfg : Config} {w w' : World F}

omit [JsonFloat F] in
private theorem Numbered.extend {j j' : JsonlJournal} {d : Dir} {log new acked : List (Event F)} {ns : List Nat}
    (ms : List Nat) (hlog : log.map Event.seq = ns.map fun n : Nat => some (.int n)) (hns : ns.Pairwise (· < ·))
    (hle : ∀ n ∈ ns, n ≤ j.seq) (hnew : new.map Event.seq = ms.map fun n : Nat => some (.int n))
    (hms : ms.Pairwise (· < ·)) (hbound : ∀ n ∈ ms, j.seq < n ∧ n ≤ j'.seq) (hseq : j.seq ≤ j'.seq)
    (hacked : acked.Sublist (log ++ new)) : Numbered (⟨d, [j'], log ++ new, acked⟩ : World F) := by
  constructor
  · refine ⟨j', ns ++ ms, rfl, ?_, ?_, ?_⟩
    · rw [List.map_append, List.map_append, hlog, hnew]
    · refine List.pairwise_append.2 ⟨hns, hms, ?_⟩
      intro a ha b hb
      have := hle a ha
      have := (hbound b hb).1
      omega
    · intro n hn
      rcases List.mem_append.1 hn with hn | hn
      · exact Nat.le_trans (hle n hn) hseq
      · exact (hbound n hn).2
  · exact hacked

private theorem Numbered.step {a : Act F} (h : Numbered w) (hclean : CleanCall w a)
    (hstep : Journal.step cfg w a = some w') : Numbered w' := by
  obtain ⟨⟨j, ns, hw, hlog, hns, hle⟩, hacked⟩ := h
  obtain ⟨d, writers, log, acked⟩ := w
  dsimp only at hw hlog hacked
  subst hw
  cases a with
  | openWriter actor => exact absurd rfl (hclean.2 actor)
  | close i =>
    obtain ⟨j', hj', rfl⟩ := Option.map_eq_some_iff.1 hstep
    obtain ⟨rfl, rfl⟩ : i = 0 ∧ j = j' := by
      cases i with
      | zero => exact ⟨rfl, Option.some.inj hj'⟩
      | succ i => cases hj'
    exact ⟨⟨j.close, ns, rfl, hlog, hns, hle⟩, hacked⟩
  | call i c fault =>
    obtain ⟨j', hj', rfl⟩ := Option.map_eq_some_iff.1 hstep
    obtain ⟨rfl, rfl⟩ : i = 0 ∧ j = j' := by
      cases i with
      | zero => exact ⟨rfl, Option.some.inj hj'⟩
      | succ i => cases hj'
    have hfault : CleanFault j c d fault := hclean.1 j rfl
    dsimp only
    by_cases hclosed : j.closed = true
    · have hcall : j.call c fault d = (.closed, j, d) := by
        rw [JsonlJournal.call, if_pos hclosed]
      have hnone : written (j.records c) .closed fault = [] := by cases fault <;> rfl
      rw [hcall]
      dsimp only
      rw [hnone, if_neg (by decide), List.append_nil, List.append_nil]
      exact ⟨⟨j, ns, rfl, hlog, hns, hle⟩, hacked⟩
    obtain ⟨ms, hseq, hms, hbound, hfirst⟩ := seq_records j c
    cases hrun : appendLocked j (eventBytes (j.records c)) fault d with
    | mk ok d' =>
      rw [call_eq hclosed hrun]
      cases ok with
      | true =>
        have hwritten : written (j.records c) .returned fault = j.records c := by cases fault <;> rfl
        simp only [if_true, hwritten]
        refine Numbered.extend ms hlog hns hle hseq hms hbound ?_ ?_
        · dsimp only
          omega
        · exact hacked.append (List.Sublist.refl _)
      | false =>
        -- nothing was written, or the first line
        have hnew : written (j.records c) .osError fault = [] ∨
            written (j.records c) .osError fault = (j.records c).take 1 := by
          cases fault with
          | write n => exact (wholeLines_clean hfault).2
          | none => exact Or.inl rfl
          | lock => exact Or.inl rfl
          | rotate k => exact Or.inl rfl
          | openLive => exact Or.inl rfl
        simp only [Bool.false_eq_true, if_false, reduceCtorEq, List.append_nil]
        rcases hnew with hnew | hnew
        · rw [hnew]
          refine Numbered.extend [] hlog hns hle rfl List.Pairwise.nil ?_ ?_ ?_
          · intro n hn
            cases hn
          · dsimp only
            omega
          · rw [List.append_nil]
            exact hacked
        · rw [hnew]
          refine Numbered.extend (ms.take 1) hlog hns hle ?_ (hms.sublist (List.take_sublist 1 ms)) ?_ ?_ ?_
          · rw [List.map_take, List.map_take, hseq]
          · intro n hn
            have := hfirst n hn
            dsimp only
            omega
          · dsimp only
            omega
          · exact hacked.trans (List.sublist_append_left _ _)

/-- Calls of one journal from an empty directory, any of which may fail, where what failing calls left in the file is
clean: (a) the lines of the files carry increasing sequence numbers, (b) the chain is read back and holds every event
of a call that returned, except for whole oldest parts that a rotation dropped at its bound. -/
theorem torn_calls (cfg : Config) (actor : String) {acts : List (Act F)}
    (hclean : Along (Journal.step cfg) CleanCall (World.opened cfg actor) acts)
    (hrun : Runs.run (Journal.step cfg) (World.opened cfg actor) acts = some w) :
    (∃ (lost kept : List (Event F)) (ns : List Nat), w.log = lost ++ kept ∧
      readEventsChain w.dir cfg.path = .ok (kept.map Event.fields) ∧ w.acked.Sublist w.log ∧
      w.log.map Event.seq = ns.map (fun n : Nat => some (.int n)) ∧ ns.Pairwise (· < ·)) ∧
    ∀ a w', CleanCall w a → Journal.step cfg w a = some w' →
      ∃ kept kept' dropped new : List (Event F),
        readEventsChain w.dir cfg.path = .ok (kept.map Event.fields) ∧
        readEventsChain w'.dir cfg.path = .ok (kept'.map Event.fields) ∧
        w'.log = w.log ++ new ∧ kept ++ new = dropped ++ kept' ∧
        (dropped ≠ [] →
          (1 ≤ cfg.maxFiles → readEvents w.dir (partName cfg.path cfg.maxFiles) = .ok (dropped.map Event.fields)) ∧
          ∀ i, 1 ≤ i → i ≤ cfg.maxFiles → (w.dir.lookup (partName cfg.path i)).isSome) := by
  have hopen : Journal.step cfg (World.empty : World F) (.openWriter actor) = some (World.opened cfg actor) := rfl
  have hfirst : Clean (World.empty : World F) (.openWriter actor) := trivial
  obtain ⟨s₀, dropped₀, new₀, hchain₀, -⟩ := (chain_empty (F := F) cfg).step hfirst hopen
  have hchain : Along (Journal.step cfg) Clean (World.opened cfg actor) acts := hclean.imp fun _ _ h => h.1
  obtain ⟨s, lost, h⟩ := hchain₀.run hchain hrun
  have hstart : Numbered (World.opened cfg actor : World F) := by
    constructor
    · refine ⟨_, [], rfl, rfl, List.Pairwise.nil, ?_⟩
      intro n hn
      cases hn
    · exact List.Sublist.refl _
  have hnumbered : Numbered w :=
    Along.invariant (fun w a w' ha hstep h => Numbered.step h ha hstep) hclean hrun hstart
  obtain ⟨⟨j, ns, -, hseqs, hns, -⟩, hacked⟩ := hnumbered
  constructor
  · exact ⟨lost, _, ns, h.log, h.read, hacked, hseqs, hns⟩
  · intro a w' ha hstep
    obtain ⟨s', dropped, new, h', hlog, hdrops, heq⟩ := h.step ha.1 hstep
    exact ⟨_, _, dropped, new, h.read, h'.read, hlog, heq, h.dropped_part hdrops⟩

/-- A call whose payload has a service key. -/
def clash : Call LitFloat :=
  { tick with data := ⟨[("seq", .null)], List.nodup_singleton _, trivial, trivial⟩ }

set_option maxRecDepth 4000 in
/-- Both lines of a call reach the file and the call fails: the next call takes the second number again.  Five bytes
of a call reach the file: the next call returns, and the chain cannot be read any more. -/
theorem torn_calls_fail :
    (Runs.run (Journal.step ⟨"j", 1000, 2⟩) (World.opened ⟨"j", 1000, 2⟩ "t")
        [.call 0 clash (.write 1000), .call 0 tick .none]).map (fun w => w.log.map Event.seq) =
      some [some (.int 1), some (.int 2), some (.int 2)] ∧
    (Runs.run (Journal.step ⟨"j", 1000, 2⟩) (World.opened ⟨"j", 1000, 2⟩ "t")
        [.call 0 tick (.write 5), .call 0 tick .none]).map
          (fun w => (w.acked.length, readEventsChain (F := LitFloat) w.dir "j")) =
      some (1, .error (.corrupt "j" 1 "line is not valid JSON")) :=
  ⟨rfl, rfl⟩

/-- A call that fails before it writes, and one that returns. -/
theorem torn_calls_unwritten :
    ∃ w : World LitFloat, Runs.run (Journal.step ⟨"j", 1000, 2⟩) (World.opened ⟨"j", 1000, 2⟩ "t")
        [.call 0 tick (.write 0), .call 0 tick .none] = some w ∧
      ∃ (lost kept : List (Event LitFloat)) (ns : List Nat), w.log = lost ++ kept ∧
        readEventsChain w.dir "j" = .ok (kept.map Event.fields) ∧ w.acked.Sublist w.log ∧
        w.log.map Event.seq = ns.map (fun n : Nat => some (.int n)) ∧ ns.Pairwise (· < ·) := by
  have hclean : Along (Journal.step ⟨"j", 1000, 2⟩) CleanCall (World.opened ⟨"j", 1000, 2⟩ "t")
      [.call 0 tick (.write 0), .call 0 tick .none] := by
    constructor
    · constructor
      · intro j _
        exact Or.inl rfl
      · intro actor h
        cases h
    · intro w _
      refine ⟨⟨?_, ?_⟩, fun _ _ => trivial⟩
      · intro j _
        trivial
      · intro actor h
        cases h
  have hsome : (Runs.run (Journal.step ⟨"j", 1000, 2⟩) (World.opened ⟨"j", 1000, 2⟩ "t")
      [.call 0 tick (.write 0), .call 0 tick .none]).isSome = true := rfl
  obtain ⟨w, hw⟩ := Option.isSome_iff_exists.1 hsome
  exact ⟨w, hw, (torn_calls ⟨"j", 1000, 2⟩ "t" hclean hw).1⟩

end IronHarness.Journal
