import IronHarness.Journal.History
import IronHarness.Lib.Flow
import IronHarness.Lib.JsonDict
import IronHarness.Replay

/-!
# A recorded session is replayed

The calls of `SerialTransport` report to a hook that stamps the connection's name on the event (`_journal_for`) and
writes it to the journal, where it stands among the events of the other connections, of other writers and of the rest
of the session.  `ReplaySession.from_file` reads the chain of files back.  The calls of one connection come one after
the other; everything else may come in between.
-/

namespace IronHarness.Replay

open ByteText JsonText Journal Runs

variable {F : Type}

/-! ### The transport and its events -/

/-- What the port does with a call. -/
inductive Reply (α : Type)
  | answer (a : α)
  /-- an OSError -/
  | osError (message : String)
  /-- `queue.Full` or `queue.Empty`, of the ports in memory -/
  | queueError (message : String)
  /-- the transport is not open -/
  | closed

/-- A call of the transport and what the port does with it. -/
inductive SerialCall
  | write (data : Bytes) (reply : Reply Nat)
  | read (size : Nat) (reply : Reply Bytes)
  | readLine (maxLen : Nat) (reply : Reply Bytes)

/-- A payload with two keys. -/
def payload (key key' : String) (value value' : Value F) (h : key ≠ key' ∧ value.keysNodup ∧ value'.keysNodup) :
    Event F where
  fields := [(key, value), (key', value')]
  nodup := (isDict_iff _).1 ⟨by simpa using h.1, by simp [h.2.1, h.2.2]⟩

def hexText (bs : Bytes) : Value F := .str (String.ofList (hex bs))

/-- What `read` and `read_line` report, which differ in their kinds and in the name of the bound. -/
def readEvent (kind bound : String) (hbound : bound ≠ "error") (size : Nat) : Reply Bytes → Option (String × Event F)
  | .answer bs => some (kind, payload "data_hex" "bytes" (hexText bs) (.int bs.length) ⟨by decide, trivial, trivial⟩)
  | .osError message => some (kind ++ "_failed", payload bound "error" (.int size) (.str message) ⟨hbound, trivial, trivial⟩)
  | .queueError message =>
    some (kind ++ "_failed", payload bound "error" (.int size) (.str ("queue.Empty: " ++ message)) ⟨hbound, trivial, trivial⟩)
  | .closed => none

/-- The event of a call, and none where the port is not open. -/
def SerialCall.event : SerialCall → Option (String × Event F)
  | .write data (.answer n) =>
    some ("write", payload "data_hex" "bytes" (hexText data) (.int n) ⟨by decide, trivial, trivial⟩)
  | .write data (.osError message) =>
    some ("write_failed", payload "data_hex" "error" (hexText data) (.str message) ⟨by decide, trivial, trivial⟩)
  | .write data (.queueError message) =>
    some ("write_failed",
      payload "data_hex" "error" (hexText data) (.str ("queue.Full: " ++ message)) ⟨by decide, trivial, trivial⟩)
  | .write _ .closed => none
  | .read size reply => readEvent "read" "size" (by decide) size reply
  | .readLine maxLen reply => readEvent "read_line" "max_len" (by decide) maxLen reply

/-- A call that succeeds and what it returns. -/
def SerialCall.done : SerialCall → Option (Call × Result)
  | .write data (.answer n) => some (.write data, .wrote n)
  | .read size (.answer bs) => some (.read size, .piece bs)
  | .readLine maxLen (.answer bs) => some (.readLine maxLen, .piece bs)
  | _ => none

/-- `_journal_for`: the connection's name goes in last. -/
def stampConn (name : String) (data : Event F) : Event F where
  fields := setField data.fields "conn" (.str name)
  nodup := (isDict_iff _).1 (((isDict_iff _).2 data.nodup).setField "conn" trivial)

/-! ### The session and its journal -/

/-- A step of a session: a call on the transport of connection `name`, which reports to a writer, or anything else
that writes to the journal. -/
inductive SessionStep (F : Type)
  | serial (writer : Nat) (name : String) (call : SerialCall) (ts tsConflict : F)
  | other (act : Journal.Act F)

/-- What the step does to the journal. -/
def SessionStep.act : SessionStep F → Option (Journal.Act F)
  | .serial writer name call ts tsConflict =>
    call.event.map fun (kind, data) => .call writer ⟨kind, stampConn name data, ts, tsConflict⟩ .none
  | .other act => some act

def recordStep [JsonFloat F] (cfg : Config) (w : World F) (step : SessionStep F) : Option (World F) :=
  match step.act with
  | none => some w
  | some act => Journal.step cfg w act

/-- The call that returns to its caller: its port answers and its journal is open. -/
def SessionStep.done (name : String) (w : World F) : SessionStep F → Option (Call × Result)
  | .serial writer conn call _ _ =>
    if conn = name ∧ (w.writers[writer]?).any (fun j => !j.closed) then call.done else none
  | .other _ => none

/-- The kinds of the events that are replayed. -/
def replayedKinds : List String := ["read", "read_line", "write"]

/-- The journal raises no I/O error, and the rest of the session has no events of a transport's kinds. -/
def SessionStep.Proper : SessionStep F → Prop
  | .serial .. => True
  | .other act => act.noFault ∧ ∀ writer c fault, act = .call writer c fault → c.kind ∉ replayedKinds

/-- `ReplaySession.from_file` -/
inductive FromFileError
  | fileNotFound
  | unreadable (e : ReadError)
  | corrupt (e : JournalCorrupt)

def ReplaySession.fromFile [JsonFloat F] (str : Value F → String) (strict : Bool) (d : Dir) (path : String) :
    Except FromFileError ReplaySession :=
  if chainFiles d path = [] then .error .fileNotFound
  else
    match readEventsChain d path with
    | .error e => .error (.unreadable e)
    | .ok events => (ReplaySession.init str strict events).mapError .corrupt

/-! ### What an event of a call replays as -/

variable {str : Value F → String} {name conn : String}

/-- An event that is neither a read nor a write adds nothing to what is replayed. -/
private theorem share_of_kind {sort : Record F → Bool} {e : Record F} (h : sort e = false) :
    share str conn sort e = [] := by
  unfold share
  rw [h]
  simp

private theorem recorded_append (sort : Record F → Bool) (front back : List (Record F)) :
    recorded str conn sort (front ++ back) = recorded str conn sort front ++ recorded str conn sort back := by
  unfold recorded
  rw [List.filter_append, List.filter_append, List.flatMap_append]

private theorem recorded_singleton (sort : Record F → Bool) (e : Record F) :
    recorded str conn sort [e] = share str conn sort e := by
  rw [recorded_cons]
  exact List.append_nil _

/-- The record of a call as the replay takes it. -/
structure Replays (str : Value F → String) (conn : String) (mine : Bool) (done : Option (Call × Result)) (e : Record F) :
    Prop where
  named : mine = true → connOf str e = conn
  reads : share str conn isRead e = if mine then (pieces (done.toList.map Prod.snd)).flatten else []
  writes : share str conn isWrite e = if mine then (written (done.toList.map Prod.fst)).flatten else []
  readable : Readable e

/-- A record with the fields of a successful call. -/
private theorem replays_of_done {kind : String} {bs : Bytes} {done : Call × Result} {e : Record F}
    (hkind : kindOf e = some kind) (hconn : connOf str e = name) (hbytes : eventBytes e "data_hex" = some bs)
    (hreads : (pieces [done.2]).flatten = if kind = "read" ∨ kind = "read_line" then bs else [])
    (hwrites : (written [done.1]).flatten = if kind = "write" then bs else []) :
    Replays str conn (name = conn) (some done) e where
  named := by
    intro h
    rw [hconn]
    exact of_decide_eq_true h
  reads := by
    unfold share isRead
    rw [hkind, hconn, hbytes]
    by_cases hname : name = conn
    · simp [hname, hreads]
    · simp [hname]
  writes := by
    unfold share isWrite
    rw [hkind, hconn, hbytes]
    by_cases hname : name = conn
    · simp [hname, hwrites]
    · simp [hname]
  readable := by
    intro _
    rw [hbytes]
    rfl

/-- A record of a kind that is not replayed. -/
private theorem replays_of_kind {kind : String} {e : Record F} (hkind : kindOf e = some kind)
    (hnot : kind ∉ replayedKinds)
    (hconn : connOf str e = name) : Replays str conn (name = conn) none e := by
  have hkinds : kind ≠ "read" ∧ kind ≠ "read_line" ∧ kind ≠ "write" := by simpa [replayedKinds] using hnot
  have hread : isRead e = false := by simp [isRead, hkind, hkinds]
  have hwrite : isWrite e = false := by simp [isWrite, hkind, hkinds]
  constructor
  · intro h
    rw [hconn]
    exact of_decide_eq_true h
  · rw [share_of_kind hread]
    simp [pieces]
  · rw [share_of_kind hwrite]
    simp [written]
  · intro h
    rw [hread, hwrite] at h
    cases h

private theorem eventBytes_hex {e : Record F} {bs : Bytes} (h : e.lookup "data_hex" = some (hexText bs)) :
    eventBytes e "data_hex" = some bs := by
  unfold eventBytes
  rw [h]
  dsimp only [hexText]
  rw [String.toList_ofList]
  exact fromHex_hex bs

/-- The one record that a call leaves behind. -/
private theorem replays_event {call : SerialCall} {kind : String} {data : Event F} (h : call.event = some (kind, data))
    (ts : F)
    (seq : Nat) (actor : String) :
    conflicts (stampConn name data) = [] ∧
      Replays str conn (name = conn) call.done (record ts seq actor kind (stampConn name data)).fields := by
  rcases call with ⟨bs, n | message | message | -⟩ | ⟨size, bs | message | message | -⟩ |
    ⟨maxLen, bs | message | message | -⟩
  all_goals cases h
  · exact ⟨rfl, replays_of_done rfl rfl (eventBytes_hex rfl) rfl (List.append_nil _)⟩
  · exact ⟨rfl, replays_of_kind rfl (by decide) rfl⟩
  · exact ⟨rfl, replays_of_kind rfl (by decide) rfl⟩
  · exact ⟨rfl, replays_of_done rfl rfl (eventBytes_hex rfl) (List.append_nil _) rfl⟩
  · exact ⟨rfl, replays_of_kind rfl (by decide) rfl⟩
  · exact ⟨rfl, replays_of_kind rfl (by decide) rfl⟩
  · exact ⟨rfl, replays_of_done rfl rfl (eventBytes_hex rfl) (List.append_nil _) rfl⟩
  · exact ⟨rfl, replays_of_kind rfl (by decide) rfl⟩
  · exact ⟨rfl, replays_of_kind rfl (by decide) rfl⟩

/-- Events that the journal takes while the calls return, for each connection its own. -/
structure Adds (str : Value F → String) (new : List (Event F)) (done : String → List (Call × Result)) : Prop where
  readable : ∀ e ∈ new, Readable e.fields
  reads : ∀ conn, recorded str conn isRead (new.map Event.fields) = (pieces ((done conn).map Prod.snd)).flatten
  writes : ∀ conn, recorded str conn isWrite (new.map Event.fields) = (written ((done conn).map Prod.fst)).flatten
  named : ∀ conn, done conn ≠ [] → ofConn str conn (new.map Event.fields) ≠ []

theorem Adds.nil (str : Value F → String) : Adds str [] fun _ => [] where
  readable := by simp
  reads := fun _ => rfl
  writes := fun _ => rfl
  named := fun _ hne => absurd rfl hne

theorem Adds.append {new more : List (Event F)} {done after : String → List (Call × Result)} (h : Adds str new done)
    (h' : Adds str more after) : Adds str (new ++ more) fun conn => done conn ++ after conn where
  readable := by
    intro e he
    exact (List.mem_append.1 he).elim (h.readable e) (h'.readable e)
  reads := by
    intro conn
    rw [List.map_append, recorded_append, h.reads, h'.reads]
    simp [pieces, List.filterMap_append]
  writes := by
    intro conn
    rw [List.map_append, recorded_append, h.writes, h'.writes]
    simp [written, List.filterMap_append]
  named := by
    intro conn hne
    unfold ofConn
    rw [List.map_append, List.filter_append]
    by_cases hfirst : done conn = []
    · have hlater : after conn ≠ [] := by simpa [hfirst] using hne
      exact List.append_ne_nil_of_right_ne_nil _ (h'.named conn hlater)
    · exact List.append_ne_nil_of_left_ne_nil (h.named conn hfirst) _

private theorem adds_singleton {e : Event F} (mine : String → Bool) {done : Option (Call × Result)}
    (h : ∀ conn, Replays str conn (mine conn) done e.fields) :
    Adds str [e] fun conn => if mine conn then done.toList else [] where
  readable := by
    intro e' he'
    obtain rfl := List.mem_singleton.1 he'
    exact (h "").readable
  reads := by
    intro conn
    rw [List.map_cons, List.map_nil, recorded_singleton, (h conn).reads]
    cases mine conn <;> rfl
  writes := by
    intro conn
    rw [List.map_cons, List.map_nil, recorded_singleton, (h conn).writes]
    cases mine conn <;> rfl
  named := by
    intro conn hne
    cases hmine : mine conn with
    | true => simp [ofConn, (h conn).named hmine]
    | false => exact absurd (by simp [hmine]) hne

/-- Events of other kinds. -/
private theorem adds_of_kinds {new : List (Event F)}
    (h : ∀ e ∈ new, ∃ kind, kindOf e.fields = some kind ∧ kind ∉ replayedKinds) : Adds str new fun _ => [] := by
  induction new with
  | nil => exact Adds.nil str
  | cons e new ih =>
    obtain ⟨kind, hkind, hnot⟩ := h e List.mem_cons_self
    have hone : Adds str [e] _ := adds_singleton (fun conn => connOf str e.fields = conn) fun conn =>
      replays_of_kind hkind hnot rfl
    simpa using hone.append (ih fun e he => h e (List.mem_cons_of_mem _ he))

private theorem done_of_event_none {call : SerialCall} (h : (call.event : Option (String × Event F)) = none) :
    call.done = none := by
  rcases call with ⟨bs, n | message | message | -⟩ | ⟨size, bs | message | message | -⟩ |
    ⟨maxLen, bs | message | message | -⟩
  all_goals first | rfl | cases h

/-! ### The journal of a session -/

section Session

variable [JsonFloat F] {cfg : Config} {w w' : World F}

/-- A call that raises no I/O error writes its records, unless the journal is closed. -/
private theorem call_log {i : Nat} {c : Journal.Call F} (h : Journal.step cfg w (.call i c .none) = some w') :
    ∃ j, w.writers[i]? = some j ∧ w'.log = w.log ++ if j.closed then [] else j.records c := by
  obtain ⟨j, hj, rfl⟩ := Option.map_eq_some_iff.1 h
  refine ⟨j, hj, ?_⟩
  dsimp only
  by_cases hclosed : j.closed = true
  · have hcall : j.call c .none w.dir = (.closed, j, w.dir) := by
      rw [JsonlJournal.call, if_pos hclosed]
    rw [hcall, if_pos hclosed]
    rfl
  · cases hrun : appendLocked j (Journal.eventBytes (j.records c)) .none w.dir with
    | mk ok d' =>
      have hcases := appendLocked_cases j (Journal.eventBytes (j.records c)) .none w.dir
      rw [hrun] at hcases
      rw [call_eq hclosed hrun, if_neg hclosed]
      cases hcases with
      | done _ _ hfault hslots => rfl

/-- What a call on a transport adds to the journal. -/
private theorem serial_log (str : Value F → String) {writer : Nat} {call : SerialCall} {ts tsConflict : F}
    (h : recordStep cfg w (.serial writer name call ts tsConflict) = some w') :
    ∃ new, w'.log = w.log ++ new ∧
      Adds str new fun conn => ((SessionStep.serial writer name call ts tsConflict).done conn w).toList := by
  cases hevent : (call.event : Option (String × Event F)) with
  | none =>
    have hact : (SessionStep.serial writer name call ts tsConflict).act = none := by
      simp [SessionStep.act, hevent]
    rw [recordStep, hact] at h
    obtain rfl := Option.some.inj h
    refine ⟨[], (List.append_nil _).symm, ?_⟩
    simpa [SessionStep.done, done_of_event_none hevent] using Adds.nil str
  | some event =>
    obtain ⟨kind, data⟩ := event
    have hact : (SessionStep.serial writer name call ts tsConflict).act =
        some (.call writer ⟨kind, stampConn name data, ts, tsConflict⟩ .none) := by
      simp [SessionStep.act, hevent]
    rw [recordStep, hact] at h
    obtain ⟨j, hj, hlog⟩ := call_log h
    by_cases hclosed : j.closed = true
    · rw [if_pos hclosed] at hlog
      refine ⟨[], hlog, ?_⟩
      simpa [SessionStep.done, hj, hclosed] using Adds.nil str
    · have hreplays : ∀ conn, conflicts (stampConn name data) = [] ∧ Replays str conn (name = conn) call.done
          (record ts (j.seq + 1) j.actor kind (stampConn name data)).fields :=
        fun _ => replays_event hevent ts (j.seq + 1) j.actor
      have hrecords : j.records ⟨kind, stampConn name data, ts, tsConflict⟩ =
          [record ts (j.seq + 1) j.actor kind (stampConn name data)] := by
        unfold JsonlJournal.records
        rw [if_pos (hreplays name).1]
      rw [if_neg hclosed, hrecords] at hlog
      refine ⟨_, hlog, ?_⟩
      have hadds := adds_singleton (fun conn => name = conn) fun conn => (hreplays conn).2
      have hdone : ∀ conn, ((SessionStep.serial writer name call ts tsConflict).done conn w).toList =
          if (decide (name = conn)) = true then call.done.toList else [] := by
        intro conn
        by_cases hname : name = conn <;> simp [SessionStep.done, hj, hclosed, hname]
      simpa only [hdone] using hadds

/-- What any other step adds to the journal. -/
private theorem other_log (str : Value F → String) {act : Journal.Act F} (h : Journal.step cfg w act = some w')
    (hproper : (SessionStep.other act).Proper) : ∃ new, w'.log = w.log ++ new ∧ Adds str new fun _ => [] := by
  obtain ⟨hfault, hkinds⟩ := hproper
  cases act with
  | openWriter actor =>
    obtain rfl := Option.some.inj h
    exact ⟨[], (List.append_nil _).symm, Adds.nil str⟩
  | close i =>
    obtain ⟨j, hj, rfl⟩ := Option.map_eq_some_iff.1 h
    exact ⟨[], (List.append_nil _).symm, Adds.nil str⟩
  | call i c fault =>
    obtain rfl : fault = .none := hfault
    obtain ⟨j, hj, hlog⟩ := call_log h
    refine ⟨_, hlog, adds_of_kinds ?_⟩
    intro e he
    split at he
    · cases he
    · unfold JsonlJournal.records at he
      rcases List.mem_cons.1 he with rfl | he
      · exact ⟨c.kind, rfl, hkinds i c .none rfl⟩
      · split at he
        · cases he
        · obtain rfl := List.mem_singleton.1 he
          exact ⟨"journal_key_conflict", rfl, by decide⟩

private theorem recordStep_log (str : Value F → String) {step : SessionStep F} (h : recordStep cfg w step = some w')
    (hproper : step.Proper) :
    ∃ new, w'.log = w.log ++ new ∧ Adds str new fun conn => (step.done conn w).toList := by
  cases step with
  | serial writer name call ts tsConflict => exact serial_log str h
  | other act => exact other_log str h hproper

/-- The calls on connection `name` that returned to their caller along a session, with what they returned. -/
def doneCalls (cfg : Config) (name : String) (w : World F) (steps : List (SessionStep F)) : List (Call × Result) :=
  seen (recordStep cfg) (SessionStep.done name) w steps

private theorem session_log (str : Value F → String) {steps : List (SessionStep F)} (hproper : ∀ t ∈ steps, t.Proper)
    (hrun : run (recordStep cfg) w steps = some w') :
    ∃ new, w'.log = w.log ++ new ∧ Adds str new fun conn => doneCalls cfg conn w steps := by
  induction steps generalizing w with
  | nil =>
    obtain rfl := Option.some.inj hrun
    exact ⟨[], (List.append_nil _).symm, Adds.nil str⟩
  | cons t steps ih =>
    obtain ⟨v, hv, hrest⟩ := run_cons_eq_some.1 hrun
    obtain ⟨new, hlog, hnew⟩ := recordStep_log str hv (hproper t List.mem_cons_self)
    obtain ⟨more, hlog', hmore⟩ := ih (fun t ht => hproper t (List.mem_cons_of_mem _ ht)) hrest
    have hdone : ∀ conn, doneCalls cfg conn w (t :: steps) = (t.done conn w).toList ++ doneCalls cfg conn v steps :=
      fun conn => seen_cons hv
    refine ⟨new ++ more, by rw [hlog', hlog, List.append_assoc], ?_⟩
    simpa only [hdone] using hnew.append hmore

/-! ### Nothing is rotated away before the oldest part is there -/

/-- All archived parts of the journal are there. -/
def AllParts (cfg : Config) (d : Dir) : Prop := ∀ i, 1 ≤ i → i ≤ cfg.maxFiles → Journal.slots cfg.path d i ≠ none

/-- Parts that are all there stay there. -/
theorem AllParts.step {act : Journal.Act F} {s : Rotation.Slots (List (Event F))} {lost : List (Event F)}
    (hchain : Chain cfg w s lost) (hparts : AllParts cfg w.dir) (hfault : act.noFault)
    (h : Journal.step cfg w act = some w') : AllParts cfg w'.dir := by
  cases act with
  | openWriter actor =>
    obtain rfl := Option.some.inj h
    intro i hi hle
    have hlive := slots_touch_live cfg.path (touch (lockName cfg.path) w.dir)
    rw [slots_touch_lock] at hlive
    dsimp only [openJournal]
    rw [hlive, Rotation.push_of_pos hi]
    exact hparts i hi hle
  | close i =>
    obtain ⟨j, hj, rfl⟩ := Option.map_eq_some_iff.1 h
    exact hparts
  | call i c fault =>
    obtain rfl : fault = .none := hfault
    obtain ⟨j, hj, rfl⟩ := Option.map_eq_some_iff.1 h
    obtain ⟨hpath, -, hfiles⟩ := hchain.writers j (List.mem_of_getElem? hj)
    dsimp only
    by_cases hclosed : j.closed = true
    · have hcall : j.call c .none w.dir = (.closed, j, w.dir) := by
        rw [JsonlJournal.call, if_pos hclosed]
      rw [hcall]
      exact hparts
    · cases hrun : appendLocked j (Journal.eventBytes (j.records c)) .none w.dir with
      | mk ok d' =>
        have hcases := appendLocked_cases j (Journal.eventBytes (j.records c)) .none w.dir
        rw [hrun] at hcases
        rw [call_eq hclosed hrun]
        cases hcases with
        | done _ _ hnone hslots =>
          intro i hi hle
          rw [hpath] at hslots
          dsimp only
          rw [hslots, Rotation.push_of_pos hi]
          unfold rotated
          split
          · rename_i hfull
            obtain ⟨bs, hlive, -⟩ := full_eq_true hfull
            -- the part comes from the one below it, the first part from the live file
            rw [hpath, hfiles, Rotation.shifted, if_neg (by omega), if_neg (by omega), if_pos (by omega)]
            by_cases hone : i = 1
            · subst hone
              rw [hpath] at hlive
              rw [hlive]
              simp
            · exact hparts (i - 1) (by omega) (by omega)
          · rw [hpath]
            exact hparts i hi hle

/-- The files hold what was written, until all parts are there. -/
def Complete (cfg : Config) (w : World F) : Prop :=
  ∃ s lost, Chain cfg w s lost ∧ (lost ≠ [] → AllParts cfg w.dir)

theorem Complete.step {act : Journal.Act F} (hcomplete : Complete cfg w) (hfault : act.noFault)
    (h : Journal.step cfg w act = some w') : Complete cfg w' := by
  obtain ⟨s, lost, hchain, hlost⟩ := hcomplete
  obtain ⟨s', dropped, new, hchain', -, hdrops, -⟩ := hchain.step (clean_of_noFault hfault) h
  refine ⟨s', lost ++ dropped, hchain', fun hne => ?_⟩
  apply AllParts.step hchain _ hfault h
  by_cases hdropped : dropped = []
  · apply hlost
    simpa [hdropped] using hne
  · intro i hi hle hnone
    apply (hdrops hdropped).2 i hi hle
    rw [hchain.dir] at hnone
    exact Option.map_eq_none_iff.1 hnone

private theorem complete_run {steps : List (SessionStep F)} (hproper : ∀ t ∈ steps, t.Proper)
    (hrun : run (recordStep cfg) World.empty steps = some w) : Complete cfg w := by
  refine (Along.of_forall hproper).invariant (I := Complete cfg) ?_ hrun
    ⟨fun _ => none, [], chain_empty cfg, fun hne => absurd rfl hne⟩
  intro w t w' hproper h hcomplete
  unfold recordStep at h
  cases hact : t.act with
  | none =>
    rw [hact] at h
    obtain rfl := Option.some.inj h
    exact hcomplete
  | some act =>
    rw [hact] at h
    apply hcomplete.step _ h
    cases t with
    | serial writer name call ts tsConflict =>
      obtain ⟨event, -, rfl⟩ := Option.map_eq_some_iff.1 hact
      rfl
    | other act' =>
      obtain rfl := Option.some.inj hact
      exact hproper.1

/-- Where the oldest part has never been needed, the chain that is read back is all that was written. -/
theorem Complete.read (h : Complete cfg w) (hfiles : 1 ≤ cfg.maxFiles)
    (hroom : w.dir.lookup (partName cfg.path cfg.maxFiles) = none) :
    readEventsChain w.dir cfg.path = .ok (w.log.map Event.fields) := by
  obtain ⟨s, lost, hchain, hlost⟩ := h
  have hnone : lost = [] := by
    by_contra hne
    apply hlost hne cfg.maxFiles hfiles (Nat.le_refl _)
    rw [Journal.slots, fileName_of_pos hfiles, hroom]
  rw [hchain.read, hchain.log, hnone]
  rfl

end Session

/-! ### Replaying the calls -/

variable {t : ReplayTransport} {xs : List (Call × Result)}

/-- What the port promises about its answers: a read gives no more than was asked for, and a line ends at its newline. -/
def PortAnswers : Call × Result → Prop
  | (.read size, .piece bs) => bs.length ≤ size
  | (.readLine maxLen, .piece bs) => bs.length ≤ maxLen ∧ ReplayTransport.newline ∉ bs.dropLast
  | (.write _, .wrote _) => True
  | _ => False

/-- The call was not cut short by a timeout. -/
def Full : Call × Result → Prop
  | (.read size, .piece bs) => bs.length = size
  | (.readLine maxLen, .piece bs) => bs.getLast? = some ReplayTransport.newline ∨ bs.length = maxLen
  | (.write data, .wrote n) => n = data.length
  | _ => False

private theorem length_prefix {piece stream : Bytes} {pos : Nat} (h : piece <+: stream.drop pos)
    (hpos : pos ≤ stream.length) :
    pos + piece.length ≤ stream.length := by
  have hlen := h.length_le
  rw [List.length_drop] at hlen
  omega

/-- The position of a replay is behind what it has handed out. -/
private theorem call_taken (t : ReplayTransport) (c : Call) (h : t.rpos ≤ t.readStream.length) :
    (t.call c).2.rpos = t.rpos + (pieces [(t.call c).1]).flatten.length ∧
      (t.call c).2.rpos ≤ t.readStream.length ∧ (t.call c).2.readStream = t.readStream := by
  cases c with
  | read size =>
    have hpos := length_prefix (isRead_take size (t.readStream.drop t.rpos)).1 h
    exact ⟨by simp [ReplayTransport.call, ReplayTransport.read, pieces], hpos, rfl⟩
  | readLine maxLen =>
    have hpos := length_prefix (isLine_readLine t maxLen).1 h
    exact ⟨by simp [ReplayTransport.call, ReplayTransport.readLine, pieces], hpos, rfl⟩
  | write data =>
    obtain ⟨hnone, hstream, hpos⟩ := call_write t data
    refine ⟨?_, by rw [hpos]; exact h, hstream⟩
    rw [hpos]
    cases hr : (t.call (.write data)).1 with
    | piece bs => exact absurd hr (hnone bs)
    | wrote n => rfl
    | mismatch e => rfl

@[simp] theorem pieces_piece (bs : Bytes) : (pieces [.piece bs]).flatten = bs := List.append_nil _

private theorem getElem?_of_front {front bs : Bytes} (h : front <+: bs) {i : Nat} (hi : i < front.length) :
    front[i]? = bs[i]? := by
  obtain ⟨rest, rfl⟩ := h
  exact (List.getElem?_append_left hi).symm

private theorem pieces_cons (r : Result) (rs : List Result) :
    (pieces (r :: rs)).flatten = (pieces [r]).flatten ++ (pieces rs).flatten := by
  cases r <;> simp [pieces]

private theorem calls_taken (cs : List Call) (t : ReplayTransport) (h : t.rpos ≤ t.readStream.length) :
    (t.calls cs).2.rpos = t.rpos + (pieces (t.calls cs).1).flatten.length ∧
      (t.calls cs).2.rpos ≤ t.readStream.length := by
  induction cs generalizing t with
  | nil => exact ⟨rfl, h⟩
  | cons c cs ih =>
    obtain ⟨hpos, hle, hstream⟩ := call_taken t c h
    obtain ⟨hpos', hle'⟩ := ih (t.call c).2 (by rw [hstream]; exact hle)
    rw [hstream] at hle'
    refine ⟨?_, hle'⟩
    rw [ReplayTransport.calls, pieces_cons, List.length_append]
    dsimp only
    omega

/-- A replay that has handed out at least what was recorded before a call has done so after it. -/
private theorem call_ahead {x : Call × Result} {n : Nat} (hx : PortAnswers x) (hn : n ≤ t.rpos)
    (hpos : t.rpos ≤ t.readStream.length) (hpiece : (pieces [x.2]).flatten <+: t.readStream.drop n) :
    n + (pieces [x.2]).flatten.length ≤ (t.call x.1).2.rpos := by
  have hend := length_prefix hpiece (by omega)
  obtain ⟨c, r⟩ := x
  cases c with
  | write data =>
    obtain ⟨-, -, hsame⟩ := call_write t data
    dsimp only
    rw [hsame]
    cases r with
    | wrote count => simpa [pieces] using hn
    | piece bs => exact hx.elim
    | mismatch e => exact hx.elim
  | read size =>
    cases r with
    | piece bs =>
      have hsize : bs.length ≤ size := hx
      rw [pieces_piece] at hend ⊢
      simp only [ReplayTransport.call, ReplayTransport.read, List.length_take, List.length_drop]
      omega
    | wrote count => exact hx.elim
    | mismatch e => exact hx.elim
  | readLine maxLen =>
    cases r with
    | piece bs =>
      obtain ⟨hmax, hline⟩ := hx
      rw [pieces_piece] at hend hpiece ⊢
      obtain ⟨hfront, hlen, hbefore, hstop⟩ := isLine_readLine t maxLen
      have hpos' : (t.call (.readLine maxLen)).2.rpos = t.rpos + (t.readLine maxLen).1.length := rfl
      rw [hpos']
      generalize (t.readLine maxLen).1 = line at hfront hlen hbefore hstop ⊢
      by_contra hshort
      rcases hstop with hnewline | hlength | hrest
      · -- the newline that stops the replay stands inside the recorded line
        apply hline
        have hne : 0 < line.length := by
          cases line with
          | nil => cases hnewline
          | cons b line => simp
        have hat : bs[t.rpos + line.length - 1 - n]? = some ReplayTransport.newline := by
          rw [List.getLast?_eq_getElem?, getElem?_of_front hfront (by omega), List.getElem?_drop] at hnewline
          rw [getElem?_of_front hpiece (by omega), List.getElem?_drop, ← hnewline]
          congr 1
          omega
        rw [List.mem_iff_getElem?]
        refine ⟨t.rpos + line.length - 1 - n, ?_⟩
        rw [List.getElem?_dropLast, if_pos (by omega)]
        exact hat
      · omega
      · rw [hrest, List.length_drop] at hshort
        omega
    | wrote count => exact hx.elim
    | mismatch e => exact hx.elim

/-- A replay of recorded calls never has handed out less than was recorded. -/
private theorem calls_ahead {n : Nat} (hxs : ∀ x ∈ xs, PortAnswers x) (hn : n ≤ t.rpos)
    (hpos : t.rpos ≤ t.readStream.length)
    (hrecorded : (pieces (xs.map Prod.snd)).flatten <+: t.readStream.drop n) :
    n + (pieces (xs.map Prod.snd)).flatten.length ≤ (t.calls (xs.map Prod.fst)).2.rpos := by
  induction xs generalizing t n with
  | nil => exact hn
  | cons x xs ih =>
    rw [List.map_cons, pieces_cons] at hrecorded ⊢
    have hpiece := (List.prefix_append _ _).trans hrecorded
    have hahead := call_ahead (hxs x List.mem_cons_self) hn hpos hpiece
    obtain ⟨-, hle, hstream⟩ := call_taken t x.1 hpos
    have hrest : (pieces (xs.map Prod.snd)).flatten <+:
        (t.call x.1).2.readStream.drop (n + (pieces [x.2]).flatten.length) := by
      rw [hstream]
      rw [drop_eq_append hpiece] at hrecorded
      exact (List.prefix_append_right_inj _).1 hrecorded
    have hall := ih (fun y hy => hxs y (List.mem_cons_of_mem x hy)) hahead (by rw [hstream]; exact hle) hrest
    rw [List.map_cons, ReplayTransport.calls, List.length_append]
    dsimp only
    omega

theorem IsRead.eq {size : Nat} {rest piece piece' : Bytes} (h : IsRead size rest piece) (h' : piece' <+: rest)
    (hfull : piece'.length = size) : piece = piece' := by
  obtain ⟨hfront, hle, hend⟩ := h
  have hlen := h'.length_le
  have hsame : piece.length = piece'.length := by
    rcases hend with hsize | hrest
    · omega
    · rw [hrest]
      rw [hrest] at hle
      omega
  exact (List.prefix_of_prefix_length_le hfront h' (by omega)).eq_of_length hsame

private theorem newline_of_shorter {line line' rest : Bytes} (h : line <+: rest) (h' : line' <+: rest)
    (hlast : line.getLast? = some ReplayTransport.newline) (hlt : line.length < line'.length) :
    ReplayTransport.newline ∈ line'.dropLast := by
  have hfront : line <+: line' := List.prefix_of_prefix_length_le h h' (by omega)
  have hmem : ReplayTransport.newline ∈ line := List.mem_of_getLast? hlast
  have hfront' : line <+: line'.dropLast := by
    rw [List.dropLast_eq_take]
    exact (List.prefix_take_iff).2 ⟨hfront, by omega⟩
  exact hfront'.subset hmem

theorem IsLine.eq {maxLen : Nat} {rest line line' : Bytes} (h : IsLine maxLen rest line) (h' : line' <+: rest)
    (hanswers : PortAnswers (.readLine maxLen, .piece line')) (hfull : Full (.readLine maxLen, .piece line')) :
    line = line' := by
  obtain ⟨hfront, hle, hbefore, hstop⟩ := h
  obtain ⟨hle', hbefore'⟩ := hanswers
  have hlen := h'.length_le
  rcases Nat.lt_trichotomy line.length line'.length with hlt | heq | hgt
  · rcases hstop with hlast | hlength | hrest
    · exact absurd (newline_of_shorter hfront h' hlast hlt) hbefore'
    · omega
    · rw [hrest] at hlt
      omega
  · exact (List.prefix_of_prefix_length_le hfront h' (by omega)).eq_of_length heq
  · rcases hfull with hlast | hlength
    · exact absurd (newline_of_shorter h' hfront hlast hgt) hbefore
    · omega

private theorem written_cons (c : Call) (cs : List Call) :
    (written (c :: cs)).flatten = (written [c]).flatten ++ (written cs).flatten := by
  cases c <;> simp [written]

/-- A call that was not cut short returns what was recorded. -/
private theorem call_full {x : Call × Result} (hstrict : t.strict = true) (hx : PortAnswers x) (hfull : Full x)
    (hread : (pieces [x.2]).flatten <+: t.readStream.drop t.rpos)
    (hwrite : (written [x.1]).flatten <+: t.writeStream.drop t.wpos) :
    (t.call x.1).1 = x.2 ∧ (t.call x.1).2.wpos = t.wpos + (written [x.1]).flatten.length := by
  obtain ⟨c, r⟩ := x
  cases c with
  | read size =>
    cases r with
    | piece bs =>
      rw [pieces_piece] at hread
      exact ⟨congrArg Result.piece ((isRead_take size _).eq hread hfull), rfl⟩
    | wrote count => exact hx.elim
    | mismatch e => exact hx.elim
  | readLine maxLen =>
    cases r with
    | piece bs =>
      rw [pieces_piece] at hread
      exact ⟨congrArg Result.piece ((isLine_readLine t maxLen).eq hread hx hfull), rfl⟩
    | wrote count => exact hx.elim
    | mismatch e => exact hx.elim
  | write data =>
    cases r with
    | wrote count =>
      obtain rfl : count = data.length := hfull
      have hdata : (written [.write data]).flatten = data := List.append_nil _
      rw [hdata] at hwrite ⊢
      have hok := (write_ok_iff hstrict).2 ⟨hwrite, rfl⟩
      simp [ReplayTransport.call, hok]
    | piece bs => exact hx.elim
    | mismatch e => exact hx.elim

theorem calls_full (hstrict : t.strict = true) (hpos : t.rpos ≤ t.readStream.length) (hxs : ∀ x ∈ xs, PortAnswers x)
    (hfull : ∀ x ∈ xs, Full x) (hreads : (pieces (xs.map Prod.snd)).flatten <+: t.readStream.drop t.rpos)
    (hwrites : (written (xs.map Prod.fst)).flatten <+: t.writeStream.drop t.wpos) :
    (t.calls (xs.map Prod.fst)).1 = xs.map Prod.snd := by
  induction xs generalizing t with
  | nil => rfl
  | cons x xs ih =>
    rw [List.map_cons, pieces_cons] at hreads
    rw [List.map_cons, written_cons] at hwrites
    have hread := (List.prefix_append _ _).trans hreads
    have hwrite := (List.prefix_append _ _).trans hwrites
    obtain ⟨hresult, hwpos⟩ := call_full hstrict (hxs x List.mem_cons_self) (hfull x List.mem_cons_self) hread hwrite
    obtain ⟨hrpos, hle, hstream⟩ := call_taken t x.1 hpos
    obtain ⟨hstrict', -, hwstream⟩ := call_keeps t x.1
    rw [List.map_cons, List.map_cons, ReplayTransport.calls]
    dsimp only
    rw [hresult, ih (hstrict'.trans hstrict) (by rw [hstream]; exact hle) (fun y hy => hxs y (List.mem_cons_of_mem x hy))
      fun y hy => hfull y (List.mem_cons_of_mem x hy)]
    · rw [hstream, hrpos, hresult]
      rw [drop_eq_append hread] at hreads
      exact (List.prefix_append_right_inj _).1 hreads
    · rw [hwstream, hwpos]
      rw [drop_eq_append hwrite] at hwrites
      exact (List.prefix_append_right_inj _).1 hwrites

/-! ### The round trip -/

/-- What a replay of recorded calls does, from a transport that holds exactly what was recorded. -/
structure RoundTrip (xs : List (Call × Result)) (t : ReplayTransport) : Prop where
  accepted : mismatches (t.calls (xs.map Prod.fst)).1 = [] ∧ (t.calls (xs.map Prod.fst)).2.close.1 = none
  ahead : ∀ front, front <+: xs →
    (pieces (front.map Prod.snd)).flatten <+: (pieces (t.calls (front.map Prod.fst)).1).flatten
  total : (pieces (t.calls (xs.map Prod.fst)).1).flatten = (pieces (xs.map Prod.snd)).flatten
  exact : (∀ x ∈ xs, Full x) → (t.calls (xs.map Prod.fst)).1 = xs.map Prod.snd

private theorem pieces_front {front : List (Call × Result)} (h : front <+: xs) :
    (pieces (front.map Prod.snd)).flatten <+: (pieces (xs.map Prod.snd)).flatten := by
  obtain ⟨back, rfl⟩ := h
  refine ⟨(pieces (back.map Prod.snd)).flatten, ?_⟩
  simp [pieces, List.filterMap_append]

private theorem roundTrip (name : String) (hxs : ∀ x ∈ xs, PortAnswers x) :
    RoundTrip xs ⟨true, name, (pieces (xs.map Prod.snd)).flatten, (written (xs.map Prod.fst)).flatten, 0, 0, false⟩ := by
  generalize ht : (⟨true, name, (pieces (xs.map Prod.snd)).flatten, (written (xs.map Prod.fst)).flatten, 0, 0, false⟩ :
    ReplayTransport) = t
  have hstrict : t.strict = true := by rw [← ht]
  have hreads : t.readStream.drop t.rpos = (pieces (xs.map Prod.snd)).flatten := by rw [← ht]; rfl
  have hwrites : t.writeStream.drop t.wpos = (written (xs.map Prod.fst)).flatten := by rw [← ht]; rfl
  have hstart : t.rpos = 0 := by rw [← ht]
  have hahead : ∀ front, front <+: xs →
      (pieces (front.map Prod.snd)).flatten <+: (pieces (t.calls (front.map Prod.fst)).1).flatten := by
    intro front hfront
    have hrecorded : (pieces (front.map Prod.snd)).flatten <+: t.readStream.drop t.rpos := by
      rw [hreads]
      exact pieces_front hfront
    have hbehind := calls_ahead (fun x hx => hxs x (hfront.subset hx)) (Nat.le_refl _) (by omega) hrecorded
    obtain ⟨hpos, -⟩ := calls_taken (front.map Prod.fst) t (by omega)
    have hcalls := calls_replayed (front.map Prod.fst) t
    exact List.prefix_of_prefix_length_le hrecorded hcalls.pieces_prefix (by omega)
  obtain ⟨hiff, hwpos⟩ := calls_writes (xs.map Prod.fst) t hstrict
  have hreads' : (pieces (xs.map Prod.snd)).flatten <+: t.readStream.drop t.rpos := ⟨[], by rw [List.append_nil, hreads]⟩
  have hwrites' : (written (xs.map Prod.fst)).flatten <+: t.writeStream.drop t.wpos :=
    ⟨[], by rw [List.append_nil, hwrites]⟩
  have hnone : mismatches (t.calls (xs.map Prod.fst)).1 = [] := hiff.2 hwrites'
  constructor
  · obtain ⟨hstrict', hclosed, hstream⟩ := calls_keep (xs.map Prod.fst) t
    refine ⟨hnone, ?_⟩
    rw [close_none_iff (hstrict'.trans hstrict) (hclosed.trans (by rw [← ht])), hstream, hwpos hnone, ← ht]
    exact Nat.le_add_left _ _
  · exact hahead
  · have hcalls := calls_replayed (xs.map Prod.fst) t
    have hprefix := hcalls.pieces_prefix
    rw [hreads] at hprefix
    exact hprefix.eq_of_length_le (hahead xs (List.prefix_refl _)).length_le
  · intro hfull
    exact calls_full hstrict (by omega) hxs hfull hreads' hwrites'

/-- The session is replayed from its journal: where no part of the journal has been rotated away, each connection on
which a call returned has a transport that accepts the recorded calls to the end.  At every point of the replay it has
handed out at least what had been read at that point of the session, in the end exactly what was read, and call by call
the same where no read was cut short. -/
theorem session_is_replayed [JsonFloat F] (cfg : Config) (hfiles : 1 ≤ cfg.maxFiles) (str : Value F → String)
    {steps : List (SessionStep F)} (hproper : ∀ t ∈ steps, t.Proper) {w : World F}
    (hrun : run (recordStep cfg) World.empty steps = some w)
    (hroom : w.dir.lookup (partName cfg.path cfg.maxFiles) = none) (name : String)
    (hdone : doneCalls cfg name World.empty steps ≠ [])
    (hport : ∀ x ∈ doneCalls cfg name World.empty steps, PortAnswers x) :
    ∃ s t, ReplaySession.fromFile str true w.dir cfg.path = .ok s ∧ s.conns.lookup name = some t ∧
      RoundTrip (doneCalls cfg name World.empty steps) t := by
  obtain ⟨new, hlog, hadds⟩ := session_log str hproper hrun
  have hevents : readEventsChain w.dir cfg.path = .ok (new.map Event.fields) := by
    rw [(complete_run hproper hrun).read hfiles hroom, hlog]
    rfl
  have hreadable : ∀ e ∈ new.map Event.fields, Readable e := by
    intro e he
    obtain ⟨event, hevent, rfl⟩ := List.mem_map.1 he
    exact hadds.readable event hevent
  have hnamed := hadds.named name hdone
  have hchain : chainFiles w.dir cfg.path ≠ [] := by
    intro hnone
    apply hnamed
    unfold readEventsChain at hevents
    rw [hnone] at hevents
    obtain hnil : [] = new.map Event.fields := Except.ok.inj hevents
    rw [← hnil]
    rfl
  obtain ⟨s, hs, hlook⟩ := session_eq str true hreadable
  refine ⟨s, fresh str true name (new.map Event.fields), ?_, ?_, ?_⟩
  · unfold ReplaySession.fromFile
    rw [if_neg hchain, hevents]
    dsimp only
    rw [hs]
    rfl
  · rw [hlook, if_neg hnamed]
  · unfold fresh
    rw [hadds.reads, hadds.writes]
    exact roundTrip name hport

def someTime : LitFloat := ⟨.num ⟨false, ['7'], some ['2'], none⟩, rfl⟩

/-- Two connections; the second read of `a` is cut short. -/
def twoDevices : List (SessionStep LitFloat) :=
  [.other (.openWriter "agent"), .serial 0 "a" (.write [97, 10] (.answer 2)) someTime someTime,
    .serial 0 "b" (.read 4 (.answer [7])) someTime someTime,
    .serial 0 "a" (.readLine 9 (.answer [111, 10])) someTime someTime,
    .serial 0 "a" (.read 3 (.osError "lost")) someTime someTime,
    .serial 0 "a" (.read 3 (.answer [1])) someTime someTime,
    .serial 0 "a" (.read 1 (.answer [2])) someTime someTime]

set_option maxRecDepth 20000 in
theorem session_is_replayed_two : ∃ w s t, run (recordStep ⟨"j", 4096, 1⟩) World.empty twoDevices = some w ∧
    ReplaySession.fromFile (fun _ : Value LitFloat => "") true w.dir "j" = .ok s ∧ s.conns.lookup "a" = some t ∧
    (pieces (t.calls [.write [97, 10], .readLine 9, .read 3, .read 1]).1).flatten = [111, 10, 1, 2] := by
  obtain ⟨w, hw⟩ := Option.isSome_iff_exists.1
    (rfl : (run (recordStep ⟨"j", 4096, 1⟩) World.empty twoDevices).isSome = true)
  have hroom : (run (recordStep ⟨"j", 4096, 1⟩) World.empty twoDevices).map
      (fun w => w.dir.lookup (partName "j" 1)) = some none := rfl
  have hdone : doneCalls ⟨"j", 4096, 1⟩ "a" World.empty twoDevices =
      [(.write [97, 10], .wrote 2), (.readLine 9, .piece [111, 10]), (.read 3, .piece [1]), (.read 1, .piece [2])] := rfl
  have hproper : ∀ t ∈ twoDevices, t.Proper := by
    intro t ht
    simp only [twoDevices, List.mem_cons, List.not_mem_nil, or_false] at ht
    rcases ht with rfl | rfl | rfl | rfl | rfl | rfl | rfl
    · exact ⟨trivial, fun _ _ _ h => by cases h⟩
    all_goals trivial
  rw [hw] at hroom
  obtain ⟨s, t, hs, ht, hround⟩ := session_is_replayed ⟨"j", 4096, 1⟩ (by decide) (fun _ => "") hproper hw
    (Option.some.inj hroom) "a" (by rw [hdone]; simp) (by rw [hdone]; simp [PortAnswers, ReplayTransport.newline])
  have htotal := hround.total
  rw [hdone] at htotal
  exact ⟨w, s, t, hw, hs, ht, htotal⟩

end IronHarness.Replay
