import IronHarness.Journal.Append
import IronHarness.Lib.Runs

/-!
# Runs of the writers of one journal

Any number of writers share one path and append one after the other (the sidecar lock serializes them); each call may
fail.  Along a run the files hold slots of events (`Chain`): what was written so far is what the rotations dropped
followed by the events of the slots, and every event kept is in front of the first missing part.
-/

namespace IronHarness.Journal

open ByteText Rotation TextLines JsonText Runs

variable {F : Type} [JsonFloat F]

/-- What the writers of a journal share. -/
structure Config where
  path : String
  maxBytes : Nat
  maxFiles : Nat

/-- The directory, the writers opened so far, the events whose lines reached the live file whole, in order, and the
events of the calls that returned. -/
structure World (F : Type) where
  dir : Dir
  writers : List JsonlJournal
  log : List (Event F)
  acked : List (Event F)

/-- The empty directory. -/
def World.empty : World F := ⟨∅, [], [], []⟩

inductive Act (F : Type)
  | openWriter (actor : String)
  | close (i : Nat)
  | call (i : Nat) (c : Call F) (fault : Fault)

/-- No operation of the step raises. -/
def Act.noFault : Act F → Prop
  | .call _ _ fault => fault = .none
  | _ => True

/-- The events whose lines lie within the first `n` bytes. -/
def wholeLines : List (Event F) → Nat → List (Event F)
  | [], _ => []
  | e :: es, n =>
    if (eventBytes [e]).length ≤ n then e :: wholeLines es (n - (eventBytes [e]).length) else []

/-- The events whose lines a call writes whole. -/
def written (records : List (Event F)) : Outcome → Fault → List (Event F)
  | .returned, _ => records
  | .osError, .write n => wholeLines records n
  | _, _ => []

def step (cfg : Config) (w : World F) : Act F → Option (World F)
  | .openWriter actor =>
    let (j, d) := openJournal cfg.path actor cfg.maxBytes cfg.maxFiles w.dir
    some { w with dir := d, writers := w.writers ++ [j] }
  | .close i => (w.writers[i]?).map fun j => { w with writers := w.writers.set i j.close }
  | .call i c fault => (w.writers[i]?).map fun j =>
    let (outcome, j', d) := j.call c fault w.dir
    { dir := d
      writers := w.writers.set i j'
      log := w.log ++ written (j.records c) outcome fault
      acked := w.acked ++ (if outcome = .returned then j.records c else []) }

/-! ### Event lines -/

theorem eventBytes_append (a b : List (Event F)) : eventBytes (a ++ b) = eventBytes a ++ eventBytes b := by
  rw [eventBytes, eventBytes, eventBytes, List.map_append, ← encode_append]
  congr 1
  exact List.flatMap_append

private theorem eventBytes_nil : eventBytes ([] : List (Event F)) = [] := rfl

theorem eventBytes_ne_nil (e : Event F) : eventBytes [e] ≠ [] := by
  have hjoin : join ([e].map Event.line) = e.line ++ ['\n'] := by
    simp [join]
  have hlast : eventBytes [e] = encode e.line ++ String.utf8EncodeChar '\n' := by
    rw [eventBytes, hjoin, encode_append]
    rfl
  rw [hlast]
  exact List.append_ne_nil_of_right_ne_nil _ (by decide)

/-- Slots of events as slots of file contents. -/
private theorem mapSlots_push (s : Slots (List (Event F))) (new : List (Event F)) :
    mapSlots eventBytes (push s new) = push (mapSlots eventBytes s) (eventBytes new) := by
  funext i
  rcases i with _ | i
  · simp only [mapSlots, push, Function.update_self, Option.map_some]
    cases s 0 with
    | none => rfl
    | some es => rw [Option.getD_some, eventBytes_append]; rfl
  · rfl

private theorem upTo_eventBytes (s : Slots (List (Event F))) (k : Nat) :
    upTo fileEvents (mapSlots eventBytes s) k = (upTo id s k).map Event.fields := by
  rw [upTo_mapSlots, map_upTo]
  congr 1
  funext es
  exact fileEvents_eventBytes es

/-! ### Hidden parts -/

/-- The events in the contents of a file; contents that cannot be read count as something. -/
def fileItems (F : Type) [JsonFloat F] (bs : Bytes) : List (Option (List (String × Value F))) :=
  match parseContent bs with
  | .ok events => events.map some
  | .error _ => [none]

/-- Nothing is stored above the first missing part. -/
def NothingHidden (F : Type) [JsonFloat F] (name : String) (d : Dir) : Prop := Tidy (fileItems F) (slots name d)

/-- Of the parts that `read_events_chain` finds, none that is hidden once the first `k` operations of a rotation are
done stores anything; the part that the rotation removes does not count. -/
def HidesNothing (F : Type) [JsonFloat F] (name : String) (m k : Nat) (d : Dir) : Prop :=
  ∀ i ∈ (sources (slots name d) m).take k, ∀ j, i ≤ j → j ≤ chainHeight d name → j ≠ m →
    items (fileItems F) (slots name d) j = []

/-- Where nothing is hidden before, nothing is stored from the last part moved on. -/
theorem HidesNothing.empty {name : String} {m k c : Nat} {d : Dir} (h : HidesNothing F name m k d)
    (ht : NothingHidden F name d) (hc : c ∈ (sources (slots name d) m).take k) :
    ∀ j, c ≤ j → j ≠ m → items (fileItems F) (slots name d) j = [] := by
  intro j hj hne
  have hgap := (height_chainHeight d name).2
  rcases Nat.lt_trichotomy j (chainHeight d name + 1) with hlt | rfl | hgt
  · exact h c hc j hj (by omega) hne
  · exact items_none hgap
  · exact ht _ j (by omega) hgt hgap

private theorem items_fileItems_eventBytes (s : Slots (List (Event F))) (i : Nat) :
    items (fileItems F) (mapSlots eventBytes s) i = (items id s i).map fun e => some e.fields := by
  rw [items_mapSlots, map_items]
  congr 1
  funext es
  rw [fileItems, parseContent_eventBytes]
  exact List.map_map

/-- Event files hide nothing when no event is above the first missing part. -/
private theorem nothingHidden_mapSlots {name : String} {d : Dir} {s : Slots (List (Event F))}
    (hd : slots name d = mapSlots eventBytes s) (ht : Tidy id s) : NothingHidden F name d := by
  intro i j hi hij hnone
  rw [hd] at hnone ⊢
  rw [items_fileItems_eventBytes, ht i j hi hij (Option.map_eq_none_iff.1 hnone)]
  rfl

/-! ### One call -/

/-- Nothing is hidden, and there are no parts above the bound. -/
structure Kept (m : Nat) (s : Slots (List (Event F))) : Prop where
  tidy : Tidy id s
  above : ∀ i, max 1 m < i → s i = none

/-- What a rotation may drop: all events of the oldest part, when `m` parts are there. -/
def Drops (m : Nat) (s : Slots (List (Event F))) (dropped : List (Event F)) : Prop :=
  dropped ≠ [] → dropped = items id s (max 1 m) ∧ ∀ i, 1 ≤ i → i ≤ m → s i ≠ none

/-- A fault that leaves the chain as it is or with a whole first line more: a rotation that fails has hidden nothing,
and the bytes that reached the file are none or those of the first line. -/
def CleanFault (j : JsonlJournal) (c : Call F) (d : Dir) : Fault → Prop
  | .rotate k => full j d = true → k ≤ (sources (slots j.path d) j.maxFiles).length →
      HidesNothing F j.path j.maxFiles k d
  | .write n => (eventBytes (j.records c)).take n = [] ∨
      (eventBytes (j.records c)).take n = eventBytes ((j.records c).take 1)
  | _ => True

variable {j : JsonlJournal} {c : Call F} {d : Dir} {s : Slots (List (Event F))} {m : Nat}

omit [JsonFloat F] in
theorem Kept.items_above (h : Kept m s) : ∀ i, max 1 m < i → items id s i = [] := by
  intro i hi
  exact items_none (h.above i hi)

omit [JsonFloat F] in
private theorem Kept.push (h : Kept m s) (new : List (Event F)) : Kept m (push s new) := by
  constructor
  · exact tidy_congr h.tidy fun i hi => push_of_pos hi
  · intro i hi
    rw [push_of_pos (by omega)]
    exact h.above i hi

omit [JsonFloat F] in
private theorem Kept.shifted (h : Kept m s) {k : Nat} (hk : k ≤ max 1 m) (ht : Tidy id (shifted k (max 1 m) s)) :
    Kept m (shifted k (max 1 m) s) := by
  constructor
  · exact ht
  · intro i hi
    rw [shifted_above hi hk]
    exact h.above i hi

private theorem rotated_chain (hd : slots j.path d = mapSlots eventBytes s) (h : Kept j.maxFiles s) :
    ∃ s' dropped, rotated j d = mapSlots eventBytes s' ∧ Kept j.maxFiles s' ∧ Drops j.maxFiles s dropped ∧
      upTo id s (max 1 j.maxFiles) = dropped ++ upTo id s' (max 1 j.maxFiles) := by
  cases hfull : full j d with
  | false =>
    refine ⟨s, [], ?_, h, fun hne => absurd rfl hne, rfl⟩
    rw [rotated, hfull, if_neg Bool.false_ne_true, hd]
  | true =>
    obtain ⟨bs, hlive, -⟩ := full_eq_true hfull
    have hlive' : s 0 ≠ none := by
      intro hnone
      rw [hd, mapSlots, hnone] at hlive
      cases hlive
    have htidy : Tidy id (shifted 0 (max 1 j.maxFiles) s) := h.tidy.shifted_zero hlive'
    refine ⟨shifted 0 (max 1 j.maxFiles) s, items id s (max 1 j.maxFiles), ?_, h.shifted (Nat.zero_le _) htidy,
      ?_, upTo_shifted (by omega)⟩
    · rw [rotated, hfull, if_pos rfl, hd, shifted_mapSlots]
    · intro hne
      refine ⟨rfl, ?_⟩
      intro i hi him
      exact h.tidy.full hne i hi (by omega)

/-- What a rotation that failed has moved held no events. -/
private theorem moved_chain {k : Nat} (hd : slots j.path d = mapSlots eventBytes s) (h : Kept j.maxFiles s)
    (hclean : HidesNothing F j.path j.maxFiles k d) :
    ∃ s' dropped, afterMoves (slots j.path d) j.maxFiles k = mapSlots eventBytes s' ∧ Kept j.maxFiles s' ∧
      Drops j.maxFiles s dropped ∧
      upTo id s (max 1 j.maxFiles) = dropped ++ upTo id s' (max 1 j.maxFiles) := by
  rcases afterMoves_cases (slots j.path d) j.maxFiles k with ⟨hsame, -⟩ | ⟨c, hc, -, hshift⟩
  · exact ⟨s, [], by rw [hsame, hd], h, fun hne => absurd rfl hne, rfl⟩
  obtain ⟨hc1, hcm, -⟩ := mem_sources.1 (List.mem_of_mem_take hc)
  have hmax : max 1 j.maxFiles = j.maxFiles := by omega
  have hempty : ∀ i, c ≤ i → i ≠ j.maxFiles → items id s i = [] := by
    intro i hi hne
    have hnone := hclean.empty (nothingHidden_mapSlots hd h.tidy) hc i hi hne
    rw [hd, items_fileItems_eventBytes] at hnone
    exact List.map_eq_nil_iff.1 hnone
  have htidy : Tidy id (Rotation.shifted c (max 1 j.maxFiles) s) := by
    rw [hmax]
    exact h.tidy.shifted_part hcm hempty
  refine ⟨Rotation.shifted c (max 1 j.maxFiles) s, items id s (max 1 j.maxFiles), ?_,
    h.shifted (by omega) htidy, ?_, ?_⟩
  · rw [hshift, hd, shifted_mapSlots, hmax]
  · intro hne
    refine ⟨rfl, ?_⟩
    intro i hi him
    exact h.tidy.full hne i hi (by omega)
  · rw [hmax]
    exact upTo_shifted_part hc1 hcm hempty

private theorem wholeLines_zero (records : List (Event F)) : wholeLines records 0 = [] := by
  cases records with
  | nil => rfl
  | cons e es =>
    have hpos : 0 < (eventBytes [e]).length := List.length_pos_iff.2 (eventBytes_ne_nil e)
    rw [wholeLines, if_neg (by omega)]

/-- A clean failing write has written no line or the first one, and nothing of another. -/
theorem wholeLines_clean {n : Nat} (hclean : CleanFault j c d (.write n)) :
    (eventBytes (j.records c)).take n = eventBytes (wholeLines (j.records c) n) ∧
      (wholeLines (j.records c) n = [] ∨ wholeLines (j.records c) n = (j.records c).take 1) := by
  obtain ⟨e, es, hrec⟩ : ∃ e es, j.records c = e :: es := ⟨_, _, rfl⟩
  have hsplit : eventBytes (j.records c) = eventBytes [e] ++ eventBytes es := by
    rw [hrec, ← eventBytes_append]
    rfl
  have hpos : 0 < (eventBytes [e]).length := List.length_pos_iff.2 (eventBytes_ne_nil e)
  rcases hclean with hnone | hfirst
  · -- no byte was written
    have hn : n = 0 := by
      have hlen := congrArg List.length hnone
      rw [List.length_take, hsplit, List.length_append, List.length_nil] at hlen
      omega
    rw [hnone, hn, wholeLines_zero]
    exact ⟨rfl, Or.inl rfl⟩
  · rw [hfirst, hrec, List.take_succ_cons, List.take_zero]
    have hlen := congrArg List.length hfirst
    rw [hrec, List.take_succ_cons, List.take_zero, ← hrec, List.length_take, hsplit, List.length_append] at hlen
    rw [wholeLines, if_pos (by omega)]
    -- a second line has not been begun
    have hrest : wholeLines es (n - (eventBytes [e]).length) = [] := by
      cases es with
      | nil => rfl
      | cons e' es' =>
        have hpos' : 0 < (eventBytes (e' :: es')).length := by
          have : eventBytes (e' :: es') = eventBytes [e'] ++ eventBytes es' := by
            rw [← eventBytes_append]
            rfl
          have hne := List.length_pos_iff.2 (eventBytes_ne_nil e')
          rw [this, List.length_append]
          omega
        have hn : n - (eventBytes [e]).length = 0 := by omega
        rw [hn, wholeLines_zero]
    rw [hrest]
    exact ⟨rfl, Or.inr rfl⟩

/-- One call: the chain holds what it held and what the call wrote, except for what a rotation dropped. -/
private theorem appendLocked_chain {fault : Fault} (hd : slots j.path d = mapSlots eventBytes s) (h : Kept j.maxFiles s)
    (hclean : CleanFault j c d fault) {ok : Bool} {d' : Dir}
    (hrun : appendLocked j (eventBytes (j.records c)) fault d = (ok, d')) :
    ∃ s' dropped, slots j.path d' = mapSlots eventBytes s' ∧ Kept j.maxFiles s' ∧ Drops j.maxFiles s dropped ∧
      upTo id s (max 1 j.maxFiles) ++ written (j.records c) (if ok then .returned else .osError) fault =
        dropped ++ upTo id s' (max 1 j.maxFiles) := by
  have hcases := appendLocked_cases j (eventBytes (j.records c)) fault d
  rw [hrun] at hcases
  -- a rotation and then new events in the live file
  have hpush : ∀ (new : List (Event F)) (d' : Dir), slots j.path d' = push (rotated j d) (eventBytes new) →
      ∃ s' dropped, slots j.path d' = mapSlots eventBytes s' ∧ Kept j.maxFiles s' ∧ Drops j.maxFiles s dropped ∧
        upTo id s (max 1 j.maxFiles) ++ new = dropped ++ upTo id s' (max 1 j.maxFiles) := by
    intro new d' hslots
    obtain ⟨s₁, dropped, hrot, hkept, hdrops, heq⟩ := rotated_chain hd h
    refine ⟨push s₁ new, dropped, ?_, hkept.push new, hdrops, ?_⟩
    · rw [hslots, hrot, mapSlots_push]
    · rw [upTo_push, heq, List.append_assoc]
  cases hcases with
  | lock =>
    refine ⟨s, [], hd, h, fun hne => absurd rfl hne, ?_⟩
    exact List.append_nil _
  | rotate k _ hfull hk hslots =>
    have hhides : HidesNothing F j.path j.maxFiles k d := by
      rcases Nat.eq_zero_or_pos j.maxFiles with hm | hm
      · intro i hi
        rw [hm] at hi
        have := (mem_sources.1 (List.mem_of_mem_take hi)).2.1
        have := (mem_sources.1 (List.mem_of_mem_take hi)).1
        omega
      · exact hclean hfull (hk hm)
    obtain ⟨s', dropped, hmoved, hkept, hdrops, heq⟩ := moved_chain hd h hhides
    refine ⟨s', dropped, ?_, hkept, hdrops, ?_⟩
    · rw [hslots, hmoved]
    · exact (List.append_nil _).trans heq
  | openLive _ hslots =>
    obtain ⟨s', dropped, hrot, hkept, hdrops, heq⟩ := rotated_chain hd h
    refine ⟨s', dropped, ?_, hkept, hdrops, ?_⟩
    · rw [hslots, hrot]
    · exact (List.append_nil _).trans heq
  | write n _ hslots =>
    rw [(wholeLines_clean hclean).1] at hslots
    exact hpush _ d' hslots
  | done _ _ hfault hslots =>
    have hwritten : written (j.records c) .returned fault = j.records c := by
      cases fault <;> rfl
    rw [if_pos rfl, hwritten]
    exact hpush _ d' hslots

/-- A call on an open journal: each record takes a number when the call returns, only the first one otherwise. -/
theorem call_eq {fault : Fault} {ok : Bool} {d' : Dir} (hopen : ¬ j.closed = true)
    (hrun : appendLocked j (eventBytes (j.records c)) fault d = (ok, d')) :
    j.call c fault d = (if ok then .returned else .osError,
      { j with seq := if ok then j.seq + (j.records c).length else j.seq + 1 }, d') := by
  have hseq : appendLocked { j with seq := j.seq + 1 } (eventBytes (j.records c)) fault d = (ok, d') := hrun
  rw [JsonlJournal.call, if_neg hopen]
  simp only [hseq]
  cases ok with
  | false => rfl
  | true =>
    by_cases hc : conflicts c.data = []
    · simp [JsonlJournal.records, hc]
    · simp [JsonlJournal.records, hc, Nat.add_assoc]

/-! ### Runs -/

/-- Every fault of the step leaves the chain clean. -/
def Clean (w : World F) : Act F → Prop
  | .call i c fault => ∀ j, w.writers[i]? = some j → CleanFault j c w.dir fault
  | _ => True

/-- The files hold slots of events, and what was written is what was dropped followed by what they hold. -/
structure Chain (cfg : Config) (w : World F) (s : Slots (List (Event F))) (lost : List (Event F)) : Prop where
  dir : slots cfg.path w.dir = mapSlots eventBytes s
  kept : Kept cfg.maxFiles s
  log : w.log = lost ++ upTo id s (max 1 cfg.maxFiles)
  writers : ∀ j ∈ w.writers, j.path = cfg.path ∧ j.maxBytes = cfg.maxBytes ∧ j.maxFiles = cfg.maxFiles

variable {cfg : Config} {w w' : World F} {lost : List (Event F)}

theorem chain_empty (cfg : Config) : Chain cfg (World.empty : World F) (fun _ => none) [] := by
  have hupTo : ∀ k, upTo id (fun _ => none : Slots (List (Event F))) k = [] := by
    intro k
    induction k with
    | zero => rfl
    | succ k ih => rw [upTo, ih]; rfl
  constructor
  · rfl
  · constructor
    · intro i j _ _ _
      rfl
    · intro i _
      rfl
  · rw [hupTo]
    rfl
  · intro j hj
    cases hj

theorem Chain.height (h : Chain cfg w s lost) : Height s (chainHeight w.dir cfg.path) := by
  have hheight := height_chainHeight w.dir cfg.path
  rw [h.dir] at hheight
  constructor
  · intro i hi hik hnone
    exact hheight.1 i hi hik (by rw [mapSlots, hnone]; rfl)
  · exact Option.map_eq_none_iff.1 hheight.2

/-- `read_events_chain` returns the events of the slots. -/
theorem Chain.read (h : Chain cfg w s lost) :
    readEventsChain w.dir cfg.path = .ok ((upTo id s (max 1 cfg.maxFiles)).map Event.fields) := by
  have hheight := height_chainHeight w.dir cfg.path
  rw [readEventsChain_ok_iff hheight, h.dir, upTo_eventBytes]
  constructor
  · intro i _ bs hbs
    obtain ⟨es, -, rfl⟩ := Option.map_eq_some_iff.1 hbs
    exact readable_eventBytes es
  · rw [h.kept.tidy.upTo_height h.height h.kept.items_above]

private theorem Chain.lookup_part (h : Chain cfg w s lost) {i : Nat} (hi : 1 ≤ i) :
    w.dir.lookup (partName cfg.path i) = (s i).map eventBytes := by
  have hslot := congrFun h.dir i
  rwa [slots, fileName_of_pos hi] at hslot

/-- What a rotation drops is the whole oldest part, and all archived parts are there. -/
theorem Chain.dropped_part (h : Chain cfg w s lost) {dropped : List (Event F)} (hdrops : Drops cfg.maxFiles s dropped)
    (hne : dropped ≠ []) :
    (1 ≤ cfg.maxFiles → readEvents w.dir (partName cfg.path cfg.maxFiles) = .ok (dropped.map Event.fields)) ∧
      ∀ i, 1 ≤ i → i ≤ cfg.maxFiles → (w.dir.lookup (partName cfg.path i)).isSome := by
  obtain ⟨hdropped, hall⟩ := hdrops hne
  constructor
  · intro hfiles
    have hmax : max 1 cfg.maxFiles = cfg.maxFiles := by omega
    rw [hmax] at hdropped
    obtain ⟨es, hes⟩ := Option.ne_none_iff_exists'.1 (hall _ hfiles (Nat.le_refl _))
    have hitems : dropped = es := by
      rw [hdropped, items, hes]
      rfl
    rw [readEvents_ok_iff, h.lookup_part hfiles, hes, hitems]
    exact ⟨eventBytes es, rfl, readable_eventBytes es, (fileEvents_eventBytes es).symm⟩
  · intro i hi him
    rw [h.lookup_part hi, Option.isSome_map, Option.isSome_iff_ne_none]
    exact hall i hi him

omit [JsonFloat F] in
theorem mem_writers_set {writers : List JsonlJournal} {i : Nat} {j j' : JsonlJournal} {P : JsonlJournal → Prop}
    (hall : ∀ j ∈ writers, P j) (hi : writers[i]? = some j) (hj : P j → P j') : ∀ x ∈ writers.set i j', P x := by
  intro x hx
  rcases List.mem_or_eq_of_mem_set hx with hx | rfl
  · exact hall x hx
  · exact hj (hall j (List.mem_of_getElem? hi))

/-- One step: the writers append to the chain, and a rotation drops at most its oldest part. -/
theorem Chain.step {a : Act F} (h : Chain cfg w s lost) (hclean : Clean w a)
    (hstep : Journal.step cfg w a = some w') :
    ∃ s' dropped new, Chain cfg w' s' (lost ++ dropped) ∧ w'.log = w.log ++ new ∧ Drops cfg.maxFiles s dropped ∧
      upTo id s (max 1 cfg.maxFiles) ++ new = dropped ++ upTo id s' (max 1 cfg.maxFiles) := by
  cases a with
  | openWriter actor =>
    obtain rfl := Option.some.inj hstep
    have hupTo : upTo id (push s []) (max 1 cfg.maxFiles) = upTo id s (max 1 cfg.maxFiles) := by
      rw [upTo_push, List.append_nil]
    refine ⟨push s [], [], [], ?_, (List.append_nil _).symm, fun hne => absurd rfl hne, ?_⟩
    · constructor
      · rw [mapSlots_push, eventBytes_nil, ← h.dir]
        have hlive := slots_touch_live cfg.path (touch (lockName cfg.path) w.dir)
        rwa [slots_touch_lock] at hlive
      · exact h.kept.push []
      · rw [hupTo, List.append_nil]
        exact h.log
      · intro j hj
        rcases List.mem_append.1 hj with hj | hj
        · exact h.writers j hj
        · obtain rfl := List.mem_singleton.1 hj
          exact ⟨rfl, rfl, rfl⟩
    · rw [hupTo]
      exact List.append_nil _
  | close i =>
    obtain ⟨j, hj, rfl⟩ := Option.map_eq_some_iff.1 hstep
    refine ⟨s, [], [], ?_, (List.append_nil _).symm, fun hne => absurd rfl hne, List.append_nil _⟩
    constructor
    · exact h.dir
    · exact h.kept
    · rw [List.append_nil]
      exact h.log
    · exact mem_writers_set h.writers hj fun hj => hj
  | call i c fault =>
    obtain ⟨j, hj, rfl⟩ := Option.map_eq_some_iff.1 hstep
    obtain ⟨hpath, hbytes, hfiles⟩ := h.writers j (List.mem_of_getElem? hj)
    dsimp only
    by_cases hclosed : j.closed = true
    · -- a closed journal refuses the call
      have hcall : j.call c fault w.dir = (.closed, j, w.dir) := by
        rw [JsonlJournal.call, if_pos hclosed]
      rw [hcall]
      refine ⟨s, [], [], ?_, ?_, fun hne => absurd rfl hne, List.append_nil _⟩
      · constructor
        · exact h.dir
        · exact h.kept
        · have hnone : written (j.records c) .closed fault = [] := by cases fault <;> rfl
          dsimp only
          rw [hnone, List.append_nil, List.append_nil]
          exact h.log
        · exact mem_writers_set h.writers hj fun hj => hj
      · cases fault <;> rfl
    · have hd : slots j.path w.dir = mapSlots eventBytes s := by
        rw [hpath]
        exact h.dir
      have hkept : Kept j.maxFiles s := by
        rw [hfiles]
        exact h.kept
      cases hrun : appendLocked j (eventBytes (j.records c)) fault w.dir with
      | mk ok d' =>
        obtain ⟨s', dropped, hd', hkept', hdrops, heq⟩ := appendLocked_chain hd hkept (hclean j hj) hrun
        rw [call_eq hclosed hrun]
        rw [hpath] at hd'
        rw [hfiles] at hkept' hdrops heq
        refine ⟨s', dropped, _, ?_, rfl, hdrops, heq⟩
        constructor
        · exact hd'
        · exact hkept'
        · dsimp only
          rw [h.log, List.append_assoc, heq, List.append_assoc]
        · exact mem_writers_set h.writers hj fun _ => ⟨hpath, hbytes, hfiles⟩

/-- In a run whose faults are clean the chain is kept. -/
theorem Chain.run {acts : List (Act F)} (h : Chain cfg w s lost)
    (hclean : Along (Journal.step cfg) Clean w acts) (hrun : Runs.run (Journal.step cfg) w acts = some w') :
    ∃ s' lost', Chain cfg w' s' lost' := by
  refine Along.invariant (I := fun w => ∃ s lost, Chain cfg w s lost) ?_ hclean hrun ⟨s, lost, h⟩
  rintro w a w' ha hstep ⟨s, lost, h⟩
  obtain ⟨s', dropped, new, h', -⟩ := h.step ha hstep
  exact ⟨s', _, h'⟩

/-! ### A contiguous suffix -/

theorem clean_of_noFault {a : Act F} (h : a.noFault) : Clean w a := by
  cases a with
  | call i c fault =>
    obtain rfl : fault = .none := h
    intro j _
    trivial
  | openWriter actor => trivial
  | close i => trivial

/-- Any number of writers that share a path, appending without an I/O error from an empty directory: the chain read
back is a suffix of what was appended, and a step loses at most the whole oldest part, and only when all archived
parts are there. -/
theorem chain_is_suffix (cfg : Config) (hfiles : 1 ≤ cfg.maxFiles) {acts : List (Act F)}
    (hio : ∀ a ∈ acts, a.noFault) {w : World F}
    (hrun : Runs.run (Journal.step cfg) World.empty acts = some w) :
    (∃ lost kept, w.log = lost ++ kept ∧ readEventsChain w.dir cfg.path = .ok (kept.map Event.fields)) ∧
    ∀ a w', a.noFault → Journal.step cfg w a = some w' →
      ∃ kept kept' dropped new : List (Event F),
        readEventsChain w.dir cfg.path = .ok (kept.map Event.fields) ∧
        readEventsChain w'.dir cfg.path = .ok (kept'.map Event.fields) ∧
        w'.log = w.log ++ new ∧ kept ++ new = dropped ++ kept' ∧
        (dropped ≠ [] →
          readEvents w.dir (partName cfg.path cfg.maxFiles) = .ok (dropped.map Event.fields) ∧
          ∀ i, 1 ≤ i → i ≤ cfg.maxFiles → (w.dir.lookup (partName cfg.path i)).isSome) := by
  have hclean : Along (Journal.step cfg) Clean World.empty acts :=
    (Along.of_forall hio).imp fun _ _ ha => clean_of_noFault ha
  obtain ⟨s, lost, h⟩ := (chain_empty cfg).run hclean hrun
  constructor
  · exact ⟨lost, _, h.log, h.read⟩
  · intro a w' ha hstep
    obtain ⟨s', dropped, new, h', hlog, hdrops, heq⟩ := h.step (clean_of_noFault ha) hstep
    refine ⟨_, _, dropped, new, h.read, h'.read, hlog, heq, fun hne => ?_⟩
    obtain ⟨hread, hall⟩ := h.dropped_part hdrops hne
    exact ⟨hread hfiles, hall⟩

/-- A call without a payload, at time 1.5. -/
def tick : Call LitFloat :=
  ⟨"tick", ⟨[], List.nodup_nil, trivial⟩, ⟨.num ⟨false, ['1'], some ['5'], none⟩, rfl⟩,
    ⟨.num ⟨false, ['1'], some ['5'], none⟩, rfl⟩⟩

/-- Two writers and room for one part: the third call drops the first event. -/
def twoWriters : List (Act LitFloat) :=
  [.openWriter "a", .openWriter "b", .call 0 tick .none, .call 1 tick .none, .call 0 tick .none]

theorem chain_is_suffix_twoWriters :
    ∃ w, Runs.run (Journal.step ⟨"j", 1, 1⟩) World.empty twoWriters = some w ∧
      ∃ lost kept, w.log = lost ++ kept ∧ readEventsChain w.dir "j" = .ok (kept.map Event.fields) := by
  have hio : ∀ a ∈ twoWriters, a.noFault := by
    intro a ha
    simp only [twoWriters, List.mem_cons, List.not_mem_nil, or_false] at ha
    rcases ha with rfl | rfl | rfl | rfl | rfl
    · trivial
    · trivial
    · rfl
    · rfl
    · rfl
  have hsome : (Runs.run (Journal.step ⟨"j", 1, 1⟩) World.empty twoWriters).isSome = true := rfl
  obtain ⟨w, hw⟩ := Option.isSome_iff_exists.1 hsome
  exact ⟨w, hw, (chain_is_suffix ⟨"j", 1, 1⟩ (by decide) hio hw).1⟩

end IronHarness.Journal
