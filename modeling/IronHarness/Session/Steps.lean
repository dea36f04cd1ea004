import IronHarness.Session.Registry
import IronHarness.Lib.Runs

/-!
# Threads that use one session

A thread checks that the session is open, does the locked section of its operation in one step, and uses the
transport it got outside the lock.  `Session.close` sets `_closed`, clears the registries under the lock, stops the
readers, closes the transports one by one and closes the journal, each in a step of its own.  Arguments, the access
policy and the sandbox are checked before: a call that they refuse is never begun.  `Rule` says once what a step can do.
-/

namespace IronHarness.Session

/-- `serial_write`, `serial_read` and `serial_read_line`. -/
inductive Direct
  | write
  | read
  | readLine
  deriving DecidableEq, Repr

def Direct.gate (c : Config) (r : Registry) (name : String) : Direct → Except Refusal Handle
  | .write => r.serialWrite c name
  | .read => r.serialRead c name
  | .readLine => r.serialReadLine c name

/-- `serial_put`, `serial_get` and `serial_monitor`, which keep the transport for more than one operation. -/
inductive Window
  | put
  | get
  | monitor
  deriving DecidableEq, Repr

def Window.use : Window → Use
  | .put => .transfer
  | .get => .transfer
  | .monitor => .monitor

def Window.gate (c : Config) (r : Registry) (name : String) : Window → Except Refusal Handle
  | .put => r.serialPut c name
  | .get => r.serialGet c name
  | .monitor => r.serialMonitor c name

theorem Direct.gate_ok {c : Config} {r : Registry} {name : String} {op : Direct} {h : Handle}
    (hgate : op.gate c r name = .ok h) : name ∉ r.transfers ∧ name ∉ r.monitors := by
  cases op with
  | write => exact (serialWrite_ok.1 hgate).2
  | read =>
    obtain ⟨-, htransfer, hmonitor, -⟩ := directRead_ok.1 hgate
    exact ⟨htransfer, hmonitor⟩
  | readLine =>
    obtain ⟨-, htransfer, hmonitor, -⟩ := directRead_ok.1 hgate
    exact ⟨htransfer, hmonitor⟩

theorem Window.gate_ok {c : Config} {r : Registry} {name : String} {w : Window} {h : Handle}
    (hgate : w.gate c r name = .ok h) : name ∉ r.readers ∧ name ∉ r.transfers ∧ name ∉ r.monitors := by
  cases w with
  | put =>
    obtain ⟨hreader, -, htransfer, hmonitor⟩ := transferGate_ok.1 hgate
    exact ⟨hreader, htransfer, hmonitor⟩
  | get =>
    obtain ⟨hreader, -, htransfer, hmonitor⟩ := transferGate_ok.1 hgate
    exact ⟨hreader, htransfer, hmonitor⟩
  | monitor =>
    obtain ⟨hreader, htransfer, hmonitor, -⟩ := serialMonitor_ok.1 hgate
    exact ⟨hreader, htransfer, hmonitor⟩

/-- The operations besides `Session.close`. -/
inductive Call
  | openTyped (kind : Kind) (name : String)
  | closeTyped (kind : Kind) (name : String)
  | closeTransport (name : String)
  | readerStart (name : String)
  | readerStop (name : String)
  | direct (op : Direct) (name : String)
  | window (w : Window) (name : String)
  deriving DecidableEq, Repr

/-- The operation begins with `_check_open`. -/
def Call.checksOpen : Call → Bool
  | .openTyped _ _ => true
  | .window _ _ => true
  | _ => false

/-- Where a thread is: before the locked section of a call, between a gate and the operation it let through, in
the window of a transfer or a monitor, before the close of a transport it has taken out of the registries, or in
`Session.close`: before the locked section, or with readers to stop and transports to close. -/
inductive Pc
  | idle
  | calling (call : Call)
  | direct (op : Direct) (name : String) (h : Handle)
  | using (w : Window) (name : String) (h : Handle)
  | closingTransport (h : Handle)
  | clearing
  | closing (readers : List Handle) (transports : List Handle)
  deriving DecidableEq, Repr

/-- How a step ends.  An open that raises may leave its port open, and so may a close; `journalRaises` is a raise of the
journal inside a handler, `wire` one more operation in a window, `alive` a reader whose thread did not end. -/
inductive Answer
  | done
  | raises (held : Bool)
  | journalRaises (held : Bool)
  | wire
  | alive
  deriving DecidableEq, Repr

/-- The session's fields, the ports that are open, and the number of transports made. -/
structure Shared where
  reg : Registry
  closed : Bool
  journalClosed : Bool
  ports : Finset Handle
  made : Nat

def Shared.init : Shared := ⟨Registry.empty, false, false, ∅, 0⟩

/-- A new transport has opened its port. -/
def Shared.openPort (s : Shared) : Shared := { s with ports := insert s.made s.ports, made := s.made + 1 }

def Shared.closePort (s : Shared) (h : Handle) (held : Bool) : Shared :=
  { s with ports := if held then s.ports else s.ports.erase h }

/-- `_stop_reader` -/
def Shared.stopReader (s : Shared) (name : String) : Shared := { s with reg := s.reg.dropReader name }

def Shared.delete (s : Shared) (name : String) : Shared := { s with reg := s.reg.delete name }

/-! ### The locked sections -/

/-- A transport that opens journals it; on a closed journal that raises, with the port open and nothing inserted. -/
def Shared.openTyped (s : Shared) (kind : Kind) (name : String) : Answer → Option Shared
  | .done =>
    if s.journalClosed then some s.openPort else some { s.openPort with reg := s.reg.insert kind name s.made }
  | .raises true => some s.openPort
  | .raises false => some s
  | _ => none

/-- Whether the answer lets the implicit stop of a reader be journaled. -/
def Shared.stopJournaled (s : Shared) : Answer → Bool
  | .journalRaises _ => false
  | _ => !s.journalClosed

/-- Whether the port is still open after its close has ended so. -/
def Answer.held : Answer → Option Bool
  | .done => some false
  | .raises held => some held
  | _ => none

/-- The section of `_close_typed` after its gate. -/
def Shared.closeTyped (s : Shared) (name : String) (h : Handle) (answer : Answer) : Option Shared :=
  if (s.reg.readers.lookup name).isSome && !s.stopJournaled answer then some (s.stopReader name)
  else answer.held.map fun held => ((s.stopReader name).delete name).closePort h held

/-- The section of `close_transport` after its gate. -/
def Shared.closeTransport (s : Shared) (name : String) (h : Handle) (answer : Answer) : Shared × Pc :=
  if (s.reg.readers.lookup name).isSome && !s.stopJournaled answer then (s.stopReader name, .idle)
  else ((s.stopReader name).delete name, .closingTransport h)

/-- A section behind its gate; a refusal is journaled and raised, and changes nothing. -/
def Shared.behind {α : Type} (s : Shared) (gate : Except Refusal α) (rest : α → Option (Shared × Pc)) :
    Option (Shared × Pc) :=
  match gate with
  | .error _ => some (s, .idle)
  | .ok a => rest a

/-- The locked section of a call. -/
def Call.locked (c : Config) (s : Shared) (answer : Answer) : Call → Option (Shared × Pc)
  | .openTyped kind name =>
    s.behind (s.reg.openGate c name) fun _ => (s.openTyped kind name answer).map fun s' => (s', .idle)
  | .closeTyped kind name =>
    s.behind (s.reg.closeTyped c kind name) fun h => (s.closeTyped name h answer).map fun s' => (s', .idle)
  | .closeTransport name => s.behind (s.reg.closeTransport c name) fun h => some (s.closeTransport name h answer)
  | .readerStart name =>
    s.behind (s.reg.serialReaderStart c name) fun base => some ({ s with reg := s.reg.addReader name base }, .idle)
  | .readerStop name =>
    s.behind (s.reg.serialReaderStop c name) fun _ => some (if answer = .alive then s else s.stopReader name, .idle)
  | .direct op name => s.behind (op.gate c s.reg name) fun h => some (s, .direct op name h)
  | .window w name =>
    s.behind (w.gate c s.reg name) fun h => some ({ s with reg := s.reg.add name w.use }, .using w name h)

/-! ### The other steps -/

/-- The values of a dictionary in the order of their insertion. -/
def values (l : AList fun _ : String => Handle) : List Handle := (l.entries.map Sigma.snd).reverse

/-- The locked section of `Session.close`. -/
def Shared.clear (s : Shared) : Shared × Pc :=
  ({ s with reg := s.reg.clear }, .closing (values s.reg.readers) (values s.reg.transports))

/-- The rest of `Session.close`.  Errors of the readers are collected; a transport that fails to close is journaled in
the handler, and the call ends there when that raises.  On a closed journal every close ends so, since a transport
that has closed its port journals it. -/
def Shared.closeNext (s : Shared) (answer : Answer) : List Handle → List Handle → Option (Shared × Pc)
  | _ :: readers, transports => some (s, .closing readers transports)
  | [], h :: transports =>
    match answer with
    | .journalRaises held => some (s.closePort h held, .idle)
    | answer => answer.held.map fun held =>
      (s.closePort h held, if s.journalClosed then .idle else .closing [] transports)
  | [], [] => some ({ s with journalClosed := true }, .idle)

/-- A call on a closed session raises in `_check_open`, and its thread is idle again. -/
def Call.begin (s : Shared) (call : Call) : Pc :=
  if call.checksOpen then
    match checkOpen s.closed with
    | .error _ => .idle
    | .ok _ => .calling call
  else .calling call

/-- What a thread is made to do: begin a call, begin `Session.close`, or go on. -/
inductive Input
  | start (call : Call)
  | close
  | go (answer : Answer)
  deriving DecidableEq, Repr

/-- What a thread does next. -/
def Pc.next (c : Config) (s : Shared) : Pc → Input → Option (Shared × Pc)
  | .idle, .start call => some (s, call.begin s)
  | .idle, .close => some ({ s with closed := true }, .clearing)
  | .calling call, .go answer => call.locked c s answer
  | .direct _ _ _, .go _ => some (s, .idle)
  | .using w name h, .go .wire => some (s, .using w name h)
  | .using w name _, .go _ => some ({ s with reg := s.reg.discard name w.use }, .idle)
  | .closingTransport h, .go answer => answer.held.map fun held => (s.closePort h held, .idle)
  | .clearing, .go _ => some s.clear
  | .closing readers transports, .go answer => s.closeNext answer readers transports
  | _, _ => none

/-! ### The system -/

structure Sys where
  shared : Shared
  pcs : Nat → Pc

def Sys.init : Sys := ⟨Shared.init, fun _ => .idle⟩

structure Task where
  thread : Nat
  input : Input
  deriving DecidableEq, Repr

def Sys.step (c : Config) (s : Sys) (a : Task) : Option Sys :=
  ((s.pcs a.thread).next c s.shared a.input).map fun x => ⟨x.1, Function.update s.pcs a.thread x.2⟩

/-! ### What a step can do -/

inductive Rule (c : Config) (s : Shared) : Pc → Input → Shared → Pc → Prop
  | closedRefused (call : Call) (hclosed : s.closed = true) : Rule c s .idle (.start call) s .idle
  | begun (call : Call) (hopen : call.checksOpen = true → s.closed = false) :
      Rule c s .idle (.start call) s (.calling call)
  | refused (call : Call) (answer : Answer) : Rule c s (.calling call) (.go answer) s .idle
  | opened (kind : Kind) (name : String) (hgate : s.reg.openGate c name = .ok ()) (hjournal : s.journalClosed = false) :
      Rule c s (.calling (.openTyped kind name)) (.go .done)
        { s.openPort with reg := s.reg.insert kind name s.made } .idle
  | openLeaks (kind : Kind) (name : String) (answer : Answer) (hgate : s.reg.openGate c name = .ok ())
      (hleak : answer = .raises true ∨ answer = .done ∧ s.journalClosed = true) :
      Rule c s (.calling (.openTyped kind name)) (.go answer) s.openPort .idle
  | readerStopped (call : Call) (name : String) (answer : Answer) :
      Rule c s (.calling call) (.go answer) (s.stopReader name) .idle
  | closed (kind : Kind) (name : String) (h : Handle) (answer : Answer) (held : Bool)
      (hget : s.reg.closeTyped c kind name = .ok h) (hheld : answer.held = some held)
      (hreader : (s.reg.readers.lookup name).isSome = true → s.journalClosed = false) :
      Rule c s (.calling (.closeTyped kind name)) (.go answer)
        (((s.stopReader name).delete name).closePort h held) .idle
  | taken (name : String) (h : Handle) (answer : Answer) (hget : s.reg.transports.lookup name = some h) :
      Rule c s (.calling (.closeTransport name)) (.go answer) ((s.stopReader name).delete name) (.closingTransport h)
  | takenClosed (h : Handle) (answer : Answer) (held : Bool) (hheld : answer.held = some held) :
      Rule c s (.closingTransport h) (.go answer) (s.closePort h held) .idle
  | readerStarted (name : String) (base : Handle) (answer : Answer)
      (hgate : s.reg.serialReaderStart c name = .ok base) :
      Rule c s (.calling (.readerStart name)) (.go answer) { s with reg := s.reg.addReader name base } .idle
  | letThrough (op : Direct) (name : String) (h : Handle) (answer : Answer) (hgate : op.gate c s.reg name = .ok h) :
      Rule c s (.calling (.direct op name)) (.go answer) s (.direct op name h)
  | directDone (op : Direct) (name : String) (h : Handle) (answer : Answer) :
      Rule c s (.direct op name h) (.go answer) s .idle
  | windowBegins (w : Window) (name : String) (h : Handle) (answer : Answer) (hgate : w.gate c s.reg name = .ok h) :
      Rule c s (.calling (.window w name)) (.go answer) { s with reg := s.reg.add name w.use } (.using w name h)
  | wire (w : Window) (name : String) (h : Handle) : Rule c s (.using w name h) (.go .wire) s (.using w name h)
  | windowEnds (w : Window) (name : String) (h : Handle) (answer : Answer) :
      Rule c s (.using w name h) (.go answer) { s with reg := s.reg.discard name w.use } .idle
  | closeBegins : Rule c s .idle .close { s with closed := true } .clearing
  | clear (answer : Answer) : Rule c s .clearing (.go answer) s.clear.1 s.clear.2
  | closeReader (h : Handle) (readers transports : List Handle) (answer : Answer) :
      Rule c s (.closing (h :: readers) transports) (.go answer) s (.closing readers transports)
  | closeNext (h : Handle) (transports : List Handle) (answer : Answer) (held : Bool) (hheld : answer.held = some held)
      (hjournal : s.journalClosed = false) :
      Rule c s (.closing [] (h :: transports)) (.go answer) (s.closePort h held) (.closing [] transports)
  | closeAborts (h : Handle) (transports : List Handle) (answer : Answer) (held : Bool)
      (habort : answer = .journalRaises held ∨ s.journalClosed = true) :
      Rule c s (.closing [] (h :: transports)) (.go answer) (s.closePort h held) .idle
  | closeJournal (answer : Answer) :
      Rule c s (.closing [] []) (.go answer) { s with journalClosed := true } .idle

variable {c : Config} {s s' : Shared} {pc pc' : Pc} {answer : Answer} {input : Input}

private theorem begin_rule (call : Call) : Rule c s .idle (.start call) s (call.begin s) := by
  unfold Call.begin checkOpen refuseIf
  by_cases hchecks : call.checksOpen = true
  · rw [if_pos hchecks]
    by_cases hclosed : s.closed = true
    · rw [if_pos hclosed]
      exact .closedRefused call hclosed
    · rw [if_neg hclosed]
      exact .begun call fun _ => Bool.eq_false_iff.2 hclosed
  · rw [if_neg hchecks]
    exact .begun call fun h => absurd h hchecks

private theorem openTyped_rule {kind : Kind} {name : String} (hgate : s.reg.openGate c name = .ok ())
    (h : s.openTyped kind name answer = some s') : Rule c s (.calling (.openTyped kind name)) (.go answer) s' .idle := by
  unfold Shared.openTyped at h
  split at h
  · split at h
    · rename_i hclosed
      cases h
      exact .openLeaks kind name _ hgate (Or.inr ⟨rfl, hclosed⟩)
    · rename_i hclosed
      cases h
      exact .opened kind name hgate (Bool.eq_false_iff.2 hclosed)
  · cases h
    exact .openLeaks kind name _ hgate (Or.inl rfl)
  · cases h
    exact .refused _ _
  · cases h

private theorem closeTyped_rule {kind : Kind} {name : String} {handle : Handle}
    (hgate : s.reg.closeTyped c kind name = .ok handle) (h : s.closeTyped name handle answer = some s') :
    Rule c s (.calling (.closeTyped kind name)) (.go answer) s' .idle := by
  unfold Shared.closeTyped at h
  split at h
  · cases h
    exact .readerStopped _ name answer
  · rename_i hjournal
    obtain ⟨held, hheld, rfl⟩ := Option.map_eq_some_iff.1 h
    refine .closed kind name handle answer held hgate hheld fun hreader => ?_
    rw [hreader, Bool.true_and, Bool.not_eq_true', Bool.not_eq_false] at hjournal
    unfold Shared.stopJournaled at hjournal
    split at hjournal
    · cases hjournal
    · rw [Bool.not_eq_true'] at hjournal
      exact hjournal

private theorem closeTransport_rule {name : String} {handle : Handle}
    (hgate : s.reg.closeTransport c name = .ok handle) (h : s.closeTransport name handle answer = (s', pc')) :
    Rule c s (.calling (.closeTransport name)) (.go answer) s' pc' := by
  unfold Shared.closeTransport at h
  split at h
  · cases h
    exact .readerStopped _ name answer
  · cases h
    exact .taken name handle answer (closeTransport_ok.1 hgate)

private theorem behind_rule {α : Type} {call : Call} {gate : Except Refusal α} {rest : α → Option (Shared × Pc)}
    (hrest : ∀ a, gate = .ok a → rest a = some (s', pc') → Rule c s (.calling call) (.go answer) s' pc')
    (h : s.behind gate rest = some (s', pc')) : Rule c s (.calling call) (.go answer) s' pc' := by
  cases gate with
  | error e =>
    cases h
    exact .refused call answer
  | ok a => exact hrest a rfl h

private theorem locked_rule {call : Call} (h : call.locked c s answer = some (s', pc')) :
    Rule c s (.calling call) (.go answer) s' pc' := by
  cases call with
  | openTyped kind name =>
    refine behind_rule ?_ h
    intro _ hgate hrest
    obtain ⟨s'', hopen, heq⟩ := Option.map_eq_some_iff.1 hrest
    cases heq
    exact openTyped_rule hgate hopen
  | closeTyped kind name =>
    refine behind_rule ?_ h
    intro handle hgate hrest
    obtain ⟨s'', hclose, heq⟩ := Option.map_eq_some_iff.1 hrest
    cases heq
    exact closeTyped_rule hgate hclose
  | closeTransport name =>
    refine behind_rule ?_ h
    intro handle hgate hrest
    exact closeTransport_rule hgate (Option.some.inj hrest)
  | readerStart name =>
    refine behind_rule ?_ h
    intro base hgate hrest
    cases hrest
    exact .readerStarted name base answer hgate
  | readerStop name =>
    refine behind_rule ?_ h
    intro _ _ hrest
    split at hrest
    · cases hrest
      exact .refused _ _
    · cases hrest
      exact .readerStopped _ name answer
  | direct op name =>
    refine behind_rule ?_ h
    intro handle hgate hrest
    cases hrest
    exact .letThrough op name handle answer hgate
  | window w name =>
    refine behind_rule ?_ h
    intro handle hgate hrest
    cases hrest
    exact .windowBegins w name handle answer hgate

private theorem closeNext_rule {readers transports : List Handle}
    (h : s.closeNext answer readers transports = some (s', pc')) :
    Rule c s (.closing readers transports) (.go answer) s' pc' := by
  cases readers with
  | cons r readers =>
    cases h
    exact .closeReader r readers transports answer
  | nil =>
    cases transports with
    | nil =>
      cases h
      exact .closeJournal answer
    | cons handle transports =>
      unfold Shared.closeNext at h
      dsimp only at h
      split at h
      · cases h
        exact .closeAborts handle transports _ _ (Or.inl rfl)
      · obtain ⟨held, hheld, heq⟩ := Option.map_eq_some_iff.1 h
        split at heq
        · rename_i hclosed
          cases heq
          exact .closeAborts handle transports answer held (Or.inr hclosed)
        · rename_i hclosed
          cases heq
          exact .closeNext handle transports answer held hheld (Bool.eq_false_iff.2 hclosed)

theorem Pc.rule (h : pc.next c s input = some (s', pc')) : Rule c s pc input s' pc' := by
  unfold Pc.next at h
  split at h
  · cases h
    exact begin_rule _
  · cases h
    exact .closeBegins
  · exact locked_rule h
  · cases h
    exact .directDone _ _ _ _
  · cases h
    exact .wire _ _ _
  · cases h
    exact .windowEnds _ _ _ _
  · obtain ⟨held, hheld, heq⟩ := Option.map_eq_some_iff.1 h
    cases heq
    exact .takenClosed _ _ held hheld
  · cases h
    exact .clear _
  · exact closeNext_rule h
  · cases h

/-- What a step can do. -/
theorem step_cases {s s' : Sys} {a : Task} (h : s.step c a = some s') :
    ∃ sh pc, Rule c s.shared (s.pcs a.thread) a.input sh pc ∧ s' = ⟨sh, Function.update s.pcs a.thread pc⟩ := by
  obtain ⟨⟨sh, pc⟩, hnext, rfl⟩ := Option.map_eq_some_iff.1 h
  exact ⟨sh, pc, Pc.rule hnext, rfl⟩

end IronHarness.Session
