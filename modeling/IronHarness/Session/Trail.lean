import IronHarness.Session.Outside

/-!
# Failed operations leave a trace

Each `serial_*` and `file_*` operation of an open session, with what its calls to the outside come to: when it raises,
the journal has an event of it, unless an exception of the outside gets past its handlers (`Op.Noticed`).
-/

namespace IronHarness.Session.Trail

variable (c : Config) (r : Registry) (name : String)

/-! ### The serial operations -/

def serialList (p : Policy) (ports : Except Exn Unit) : Program Unit := do
  checkKind p
  call ports
  Traced.emit "serial_listed"

/-- The enumerations up to the time-out, and whether each has the port. -/
def waitLoop : List (Except Exn Bool) → Program Unit
  | [] => deny "serial_wait_timeout" .osError
  | poll :: polls => do
    let matched ← call poll
    if matched then Traced.emit "serial_wait_matched" else waitLoop polls

def serialWait (p : Policy) (timeoutOk : Bool) (polls : List (Except Exn Bool)) : Program Unit := do
  checkKind p
  if timeoutOk then waitLoop polls else deny "wait_refused" .valueError

/-- `_resolve_by_serial` -/
def resolveBySerial (found : Except Exn Bool) : Program Unit := do
  let found ← call found
  if found then pure () else Traced.raise .valueError

/-- What `serial_open` meets: the enumeration for a `by-serial:` port, the three limits in the environment, whether
the port is a local one, and its opening. -/
structure Opening where
  timeoutOk : Bool
  bySerial : Option (Except Exn Bool)
  maxConnections : Except Exn (Option Nat)
  deadline : Except Exn Unit
  rate : Except Exn Unit
  allowed : Bool
  opened : Except Exn Unit
  lines : Except Exn Unit

def Opening.resolve (o : Opening) : Program Unit :=
  match o.bySerial with
  | none => pure ()
  | some found => (resolveBySerial found).tryExcept Exn.isValueError (deny "serial_open_refused") pure

/-- From `_check_free` on. -/
def Opening.insert (o : Opening) : Program Unit := do
  gate (r.checkFree c name)
  let limit ← call o.maxConnections
  gate (r.checkConnectionLimit { c with maxConnections := limit })
  call o.deadline
  call o.rate
  SerialTransport.openPort o.allowed o.opened o.lines

def serialOpen (p : Policy) (o : Opening) : Program Unit := do
  checkKind p
  if o.timeoutOk then do
    o.resolve
    o.insert c r name
  else deny "serial_open_refused" .valueError

def serialWrite (hexOk : Bool) (denied : Option Denial) (p : Port Unit) : Program Unit :=
  if hexOk then do
    let _ ← gate (r.serialWrite c name)
    (limited denied (SerialTransport.write p)).tryExcept (fun e => e == .transportClosedError) (deny "write_failed") pure
  else deny "write_failed" .valueError

def serialRead (sizeOk : Bool) (denied : Option Denial) (p : Port Unit) : Program Unit :=
  if sizeOk then do
    let _ ← gate (r.serialRead c name)
    limited denied (SerialTransport.read p)
  else deny "read_refused" .valueError

def serialReadLine (lenOk : Bool) (denied : Option Denial) (p : Port Unit) : Program Unit :=
  if lenOk then do
    let _ ← gate (r.serialReadLine c name)
    limited denied (SerialTransport.readLine p)
  else deny "read_line_refused" .valueError

def serialReset (denied : Option Denial) (isOpen durationsOk : Bool) (pulse release : Except Exn Unit) :
    Program Unit := do
  let _ ← gate (orFailed c "reset_failed" name (r.getSerial c name))
  limited denied (SerialTransport.reset isOpen durationsOk pulse release)

def anyExn : Exn → Bool := fun _ => true

/-- `exchange` is `put_file`. -/
def serialPut (p : Policy) (source : Resolution) (data : Except Exn Unit) (exchange : Program Unit) : Program Unit := do
  checkKind p
  (readFile source data).tryExcept anyExn (deny "serial_put_failed") fun _ => do
    let _ ← gate (r.serialPut c name)
    exchange.tryExcept anyExn (deny "serial_put_failed") fun _ => Traced.emit "serial_put"

/-- `exchange` is `get_file`. -/
def serialGet (p : Policy) (exchange : Program Unit) (dest : Writing) : Program Unit := do
  checkKind p
  let _ ← gate (r.serialGet c name)
  exchange.tryExcept anyExn (deny "serial_get_failed") fun _ =>
    (writeFile { dest with overwrite := true }).tryExcept anyExn (deny "serial_get_failed") fun _ =>
      Traced.emit "serial_get"

/-! ### The monitor -/

/-- A turn of the window: the look at `in_waiting`, and the read after it. -/
structure Turn where
  waiting : Port Nat
  denied : Option Denial
  read : Port Unit

/-- The exceptions of a look at `in_waiting` that count as a dead port; without the attribute it is None too. -/
def waitingExn (e : Exn) : Bool := e.isOSError || e.isValueError || e == .transportClosedError || e == .attributeError

def Turn.run (t : Turn) : Program Unit := do
  let waiting ← (SerialTransport.inWaiting t.waiting).tryExcept waitingExn (fun _ => pure none) (fun n => pure (some n))
  if waiting = some 0 then pure () else limited t.denied (SerialTransport.read t.read)

def runTurns : List Turn → Program Unit
  | [] => pure ()
  | t :: turns => do
    t.run
    runTurns turns

/-- `_monitor_window`; `needle` is the pattern in UTF-8. -/
def monitorWindow (needle : Except Exn Unit) (turns : List Turn) : Program Unit := do
  call needle
  (runTurns turns).tryExcept anyExn (deny "monitor_failed") pure

def dumpExn (e : Exn) : Bool := e.isOSError || e == .quotaExceeded || e == .sandboxViolation

def writeDump : Option Writing → Program Unit
  | none => pure ()
  | some w =>
    (writeFile { w with overwrite := true }).tryExcept dumpExn (fun _ => Traced.emit "monitor_dump_failed") pure

def serialMonitor (argsOk : Bool) (p : Policy) (needle : Except Exn Unit) (turns : List Turn) (dump : Option Writing) :
    Program Unit :=
  if argsOk then do
    checkKind p
    let _ ← gate (r.serialMonitor c name)
    monitorWindow needle turns
    writeDump dump
    Traced.emit "serial_monitor"
  else deny "monitor_refused" .valueError

/-! ### The background reader -/

/-- What `SerialReader.stop` meets: whether there is a thread, `in_waiting`, `cancel_read`, and whether the thread
ends. -/
structure Stopping where
  running : Bool
  waiting : Port Nat
  cancel : Port Unit
  dead : Bool

def stopReader (s : Stopping) : Program Bool :=
  if s.running then do
    let pollable ← (SerialTransport.inWaiting s.waiting).tryExcept waitingExn (fun _ => pure false) (fun _ => pure true)
    if pollable then pure s.dead
    else (SerialTransport.cancelRead s.cancel).tryExcept waitingExn (fun _ => pure s.dead) (fun _ => pure s.dead)
  else pure true

def journalStop (stopped : Bool) : Program Unit := Traced.emit (if stopped then "reader_stop" else "reader_stop_failed")

/-- The event comes before the start of the thread. -/
def serialReaderStart (boundsOk : Bool) (started : Except Exn Unit) : Program Unit :=
  if boundsOk then do
    let _ ← gate (r.serialReaderStart c name)
    Traced.emit "reader_start"
    call started
  else deny "reader_start_refused" .valueError

def serialReaderStop (s : Stopping) : Program Unit := do
  let _ ← gate (r.serialReaderStop c name)
  let stopped ← stopReader s
  journalStop stopped

/-- `_reader` -/
def readerGate (op : String) : Except Refusal Handle :=
  match r.readers.lookup name with
  | none => .error (failed (op ++ "_failed") name (noReader c name) (noReader c name))
  | some base => .ok base

def serialTail (sizeOk : Bool) : Program Unit :=
  if sizeOk then do
    let _ ← gate (readerGate c r name "tail")
    pure ()
  else deny "tail_refused" .valueError

/-- `pattern` is None for an empty pattern, and else its text in UTF-8. -/
def readUntil : Option (Except Exn Unit) → Program Unit
  | none => Traced.raise .valueError
  | some needle => call needle

def serialReadUntil (timeoutOk : Bool) (pattern : Option (Except Exn Unit)) : Program Unit :=
  if timeoutOk then do
    let _ ← gate (readerGate c r name "read_until")
    readUntil pattern
  else deny "read_until_refused" .valueError

/-- `_close_typed` -/
def serialClose (s : Stopping) (p : Port Unit) : Program Unit := do
  let _ ← gate (r.closeTyped c .serial name)
  if name ∈ r.readers then do
    let stopped ← stopReader s
    journalStop stopped
  (SerialTransport.close p).tryExcept Exn.isOSError (deny "close_failed") pure

/-! ### The file operations -/

/-- `encoded` is the content in UTF-8. -/
def fileWrite (p : Policy) (encoded : Except Exn Unit) (w : Writing) : Program Unit := do
  checkKind p
  call encoded
  writeFile { w with overwrite := true }

def fileRead (p : Policy) (path : Resolution) (data : Except Exn Unit) : Program Unit := do
  checkKind p
  readFile path data

def fileList (p : Policy) (path : Resolution) (isDir : Except Exn Bool) (entries : Except Exn Unit) : Program Unit := do
  checkKind p
  listDir path isDir entries

def fileDelete (p : Policy) (path : Resolution) (unlinked : Except Exn Unit) : Program Unit := do
  checkKind p
  deleteFile path unlinked

/-! ### When an operation is noticed -/

/-- The exceptions that `write` journals, and the one that `serial_write` does. -/
def writeExn (e : Exn) : Bool := e.isOSError || e == .queueFull || e == .transportClosedError

def readExn (e : Exn) : Bool := e.isOSError || e == .queueEmpty

def openExn (e : Exn) : Bool := e.isOSError || e.isValueError

/-- No enumeration raises before one has the port. -/
def PollsAnswer : List (Except Exn Bool) → Prop
  | [] => True
  | poll :: polls => ∃ matched, poll = .ok matched ∧ (matched = false → PollsAnswer polls)

def Opening.Resolves (o : Opening) : Prop := o.bySerial = none ∨ o.bySerial = some (.ok true)

structure Opening.Noticed (o : Opening) : Prop where
  resolve : ∀ found, o.bySerial = some found → Caught Exn.isValueError found
  insert : o.Resolves → r.checkFree c name = .ok () → ∃ limit, o.maxConnections = .ok limit ∧
    (r.checkConnectionLimit { c with maxConnections := limit } = .ok () → o.deadline = .ok () ∧ o.rate = .ok () ∧
      (o.allowed = true → Caught openExn o.opened ∧ (o.opened = .ok () → Caught openExn o.lines)))

/-- The port is open, and what the read raises is journaled. -/
def Port.Noticed {α : Type} (p : Port α) : Prop := p.isOpen = true ∧ Caught readExn p.reply

/-- Nothing was waiting and nothing was read. -/
def Turn.Quiet (t : Turn) : Prop := t.waiting.isOpen = true ∧ t.waiting.reply = .ok 0

/-- What the dump raises is caught. -/
def DumpCaught (w : Writing) : Prop :=
  (∀ e, w.path = .raises e → dumpExn e = true) ∧ (w.path = .inside → Caught dumpExn w.present ∧
    ∀ present, w.present = .ok present → Caught dumpExn w.measured ∧
      (w.measured = .ok () → w.withinQuota = true → Caught dumpExn w.written))

/-- The look at `in_waiting` finds a dead port and journals nothing. -/
def Port.Dead (p : Port Nat) : Prop :=
  p.isOpen = false ∨ ∃ e, p.reply = .error e ∧ e.isOSError = false ∧ waitingExn e = true

/-- The stop of a reader raises nothing that is not journaled. -/
def Stopping.Answers (s : Stopping) : Prop :=
  s.running = true → (s.waiting.isOpen = true → Caught waitingExn s.waiting.reply) ∧
    (s.waiting.Dead → s.cancel.isOpen = true → Caught waitingExn s.cancel.reply)

private theorem loud_waitLoop (polls : List (Except Exn Bool)) : (waitLoop polls).Loud ↔ PollsAnswer polls := by
  induction polls with
  | nil => simp [waitLoop, PollsAnswer]
  | cons poll polls ih =>
    unfold waitLoop PollsAnswer
    rw [loud_call_bind]
    apply exists_congr
    intro matched
    cases matched with
    | true => simp
    | false => simp [ih]

private theorem loud_serialList {p : Policy} {ports : Except Exn Unit} :
    (serialList p ports).Loud ↔ p.fromEnv = .ok () ∧ (p.enabled = true → ports = .ok ()) := by
  unfold serialList
  rw [loud_checkKind_bind, loud_call_unit_bind]
  simp

private theorem loud_serialWait {p : Policy} {timeoutOk : Bool} {polls : List (Except Exn Bool)} :
    (serialWait p timeoutOk polls).Loud ↔
      p.fromEnv = .ok () ∧ (p.enabled = true → timeoutOk = true → PollsAnswer polls) := by
  unfold serialWait
  rw [loud_checkKind_bind]
  cases timeoutOk with
  | true => simp [loud_waitLoop]
  | false => simp

/-! ### Opening -/

private theorem loud_resolveBySerial_bind (o : Opening) {rest : Unit → Program Unit} :
    (o.resolve >>= rest).Loud ↔
      (∀ found, o.bySerial = some found → Caught Exn.isValueError found) ∧ (o.Resolves → (rest ()).Loud) := by
  unfold Opening.resolve Opening.Resolves
  cases o.bySerial with
  | none => simp
  | some found =>
    cases found with
    | error e =>
      cases hcaught : e.isValueError with
      | true => simp [resolveBySerial, Caught, hcaught]
      | false => simp [resolveBySerial, Caught, hcaught]
    | ok found =>
      cases found with
      | true => simp [resolveBySerial, Caught]
      | false => simp [resolveBySerial, Caught, Exn.isValueError]

private theorem loud_insert (o : Opening) :
    (o.insert c r name).Loud ↔ (r.checkFree c name = .ok () → ∃ limit, o.maxConnections = .ok limit ∧
      (r.checkConnectionLimit { c with maxConnections := limit } = .ok () → o.deadline = .ok () ∧ o.rate = .ok () ∧
        (o.allowed = true → Caught openExn o.opened ∧ (o.opened = .ok () → Caught openExn o.lines)))) := by
  unfold Opening.insert
  rw [loud_gate_unit_bind (tells_checkFree c r name)]
  apply imp_congr_right
  intro _
  rw [loud_call_bind]
  apply exists_congr
  intro limit
  apply and_congr_right'
  rw [loud_gate_unit_bind (tells_checkConnectionLimit _ r), loud_call_unit_bind, loud_call_unit_bind,
    SerialTransport.loud_openPort]
  rfl

private theorem loud_serialOpen {p : Policy} {o : Opening} :
    (serialOpen c r name p o).Loud ↔
      p.fromEnv = .ok () ∧ (p.enabled = true → o.timeoutOk = true → o.Noticed c r name) := by
  unfold serialOpen
  rw [loud_checkKind_bind]
  split
  · rename_i htimeout
    rw [loud_resolveBySerial_bind, loud_insert]
    simp only [htimeout, forall_const]
    apply and_congr_right'
    apply imp_congr_right
    intro _
    exact ⟨fun h => ⟨h.1, h.2⟩, fun h => ⟨h.resolve, h.insert⟩⟩
  · rename_i htimeout
    simp [htimeout]

/-! ### Direct operations -/

private theorem loud_serialWrite {hexOk : Bool} {denied : Option Denial} {p : Port Unit} :
    (serialWrite c r name hexOk denied p).Loud ↔ (hexOk = true → ∀ h, r.serialWrite c name = .ok h → denied = none →
      p.isOpen = true → Caught writeExn p.reply) := by
  unfold serialWrite
  cases hexOk with
  | false => simp
  | true =>
    simp only [if_true, forall_const]
    rw [loud_gate_bind (tells_serialWrite c r name)]
    apply forall_congr'
    intro h
    apply imp_congr_right
    intro _
    rw [Traced.loud_tryExcept]
    cases denied with
    | some denial => cases denial <;> simp [limited]
    | none =>
      simp only [limited, SerialTransport.write, SerialTransport.io]
      cases hopen : p.isOpen with
      | false => simp
      | true =>
        cases hreply : p.reply with
        | ok u => simp [Caught, Traced.tryExcept, call]
        | error e =>
          cases hjournaled : e.isOSError || e == .queueFull with
          | true =>
            have hwrite : writeExn e = true := by simp [writeExn, hjournaled]
            simp [Caught, Traced.tryExcept, call, hjournaled, hwrite]
          | false =>
            have hwrite : writeExn e = (e == .transportClosedError) := by simp [writeExn, hjournaled]
            simp [Caught, Traced.tryExcept, call, hjournaled, hwrite]

private theorem loud_serialRead {sizeOk : Bool} {denied : Option Denial} {p : Port Unit} :
    (serialRead c r name sizeOk denied p).Loud ↔
      (sizeOk = true → ∀ h, r.serialRead c name = .ok h → denied = none → p.Noticed) := by
  unfold serialRead
  cases sizeOk with
  | false => simp
  | true =>
    simp only [if_true, forall_const]
    rw [loud_gate_bind (tells_serialRead c r name)]
    simp only [loud_limited, SerialTransport.read, SerialTransport.loud_io]
    rfl

private theorem loud_serialReadLine {lenOk : Bool} {denied : Option Denial} {p : Port Unit} :
    (serialReadLine c r name lenOk denied p).Loud ↔
      (lenOk = true → ∀ h, r.serialReadLine c name = .ok h → denied = none → p.Noticed) := by
  unfold serialReadLine
  cases lenOk with
  | false => simp
  | true =>
    simp only [if_true, forall_const]
    rw [loud_gate_bind (tells_serialReadLine c r name)]
    simp only [loud_limited, SerialTransport.readLine, SerialTransport.loud_io]
    rfl

private theorem loud_serialReset {denied : Option Denial} {isOpen durationsOk : Bool}
    {pulse release : Except Exn Unit} :
    (serialReset c r name denied isOpen durationsOk pulse release).Loud ↔
      (∀ h, r.getSerial c name = .ok h → denied = none → isOpen = true ∧ (durationsOk = true →
        (Caught Exn.isOSError pulse ∨ ∃ e, release = .error e ∧ e.isOSError = true) ∧
          (Caught Exn.isOSError release ∨ ∃ e, pulse = .error e ∧ e.isOSError = true))) := by
  unfold serialReset
  rw [loud_gate_bind (tells_orFailed c _ name _)]
  simp only [orFailed_ok, loud_limited, SerialTransport.loud_reset]

/-! ### Transfers -/

private theorem loud_tryExcept_any {α : Type} {x : Program α} {kind : String} {rest : α → Program Unit}
    (h : ∀ a, (rest a).Loud) : (x.tryExcept anyExn (deny kind) rest).Loud := by
  rw [Traced.loud_tryExcept]
  simp [anyExn, h]

private theorem loud_serialPut {p : Policy} {source : Resolution} {data : Except Exn Unit} {exchange : Program Unit} :
    (serialPut c r name p source data exchange).Loud ↔ p.fromEnv = .ok () := by
  unfold serialPut
  rw [loud_checkKind_bind]
  apply and_iff_left
  intro _
  apply loud_tryExcept_any
  intro _
  rw [loud_gate_bind (tells_serialPut c r name)]
  intro _ _
  exact loud_tryExcept_any fun _ => Traced.loud_emit _

private theorem loud_serialGet {p : Policy} {exchange : Program Unit} {dest : Writing} :
    (serialGet c r name p exchange dest).Loud ↔ p.fromEnv = .ok () := by
  unfold serialGet
  rw [loud_checkKind_bind]
  apply and_iff_left
  intro _
  rw [loud_gate_bind (tells_serialGet c r name)]
  intro _ _
  apply loud_tryExcept_any
  intro _
  exact loud_tryExcept_any fun _ => Traced.loud_emit _

/-! ### The monitor and the reader -/

section

variable {α : Type}

private theorem look_cases (p : Port Nat) (a : α) (f : Nat → α) :
    (∃ n, p.isOpen = true ∧ p.reply = .ok n ∧
        (SerialTransport.inWaiting p).tryExcept waitingExn (fun _ => pure a) (fun n => pure (f n)) = pure (f n)) ∨
      ((p.isOpen = true ∧ ∃ e, p.reply = .error e ∧ e.isOSError = true) ∧
        (SerialTransport.inWaiting p).tryExcept waitingExn (fun _ => pure a) (fun n => pure (f n)) =
          ⟨.ok a, ["read_failed"]⟩) ∨
      (p.Dead ∧
        (SerialTransport.inWaiting p).tryExcept waitingExn (fun _ => pure a) (fun n => pure (f n)) = pure a) ∨
      ∃ e, (p.isOpen = true ∧ p.reply = .error e ∧ waitingExn e = false) ∧
        (SerialTransport.inWaiting p).tryExcept waitingExn (fun _ => pure a) (fun n => pure (f n)) = Traced.raise e := by
  unfold SerialTransport.inWaiting guarded Port.Dead
  obtain ⟨isOpen, reply⟩ := p
  cases isOpen with
  | false =>
    right
    right
    left
    simp [waitingExn]
  | true =>
    cases reply with
    | ok n => exact .inl ⟨n, rfl, rfl, rfl⟩
    | error e =>
      right
      cases hos : e.isOSError with
      | true =>
        left
        refine ⟨⟨rfl, e, rfl, hos⟩, ?_⟩
        simp [Traced.tryExcept, call, waitingExn, hos]
      | false =>
        right
        cases hwaiting : waitingExn e with
        | true =>
          left
          refine ⟨.inr ⟨e, rfl, hos, hwaiting⟩, ?_⟩
          simp [Traced.tryExcept, call, hos, hwaiting]
          rfl
        | false =>
          right
          refine ⟨e, ⟨rfl, rfl, hwaiting⟩, ?_⟩
          simp [Traced.tryExcept, call, hos, hwaiting]
          rfl

/-- A read that returns is journaled. -/
private theorem read_not_silent (denied : Option Denial) (p : Port Unit) :
    ¬ ((limited denied (SerialTransport.read p)).trace = [] ∧
      (limited denied (SerialTransport.read p)).result = .ok ()) := by
  rintro ⟨htrace, hresult⟩
  cases denied with
  | some denial => cases denial <;> simp [limited] at htrace
  | none =>
    unfold limited SerialTransport.read SerialTransport.io at htrace hresult
    cases hopen : p.isOpen with
    | false => simp [hopen] at hresult
    | true =>
      cases hreply : p.reply with
      | ok u => simp [hopen, hreply, Traced.tryExcept, call] at htrace
      | error e =>
        cases hjournaled : e.isOSError || e == .queueEmpty with
        | true => simp [hopen, hreply, Traced.tryExcept, call, hjournaled] at htrace
        | false => simp [hopen, hreply, Traced.tryExcept, call, hjournaled] at hresult

end

private theorem Turn.run_silent (t : Turn) : (t.run.trace = [] ∧ t.run.result = .ok ()) ↔ t.Quiet := by
  unfold Turn.run Turn.Quiet
  rcases look_cases t.waiting none some with
    ⟨n, hopen, hreply, hlook⟩ | ⟨⟨hopen, e, hreply, hos⟩, hlook⟩ | ⟨hdead, hlook⟩ | ⟨e, ⟨hopen, hreply, -⟩, hlook⟩
  · rw [hlook, pure_bind]
    by_cases hn : n = 0
    · simp [hn, hopen, hreply]
    · have hread := read_not_silent t.denied t.read
      simp [hn, hreply, hread]
  · rw [hlook]
    simp [hreply, Traced.bind_ok]
  · rw [hlook, pure_bind]
    have hread := read_not_silent t.denied t.read
    rcases hdead with hclosed | ⟨e, hreply, -⟩
    · simp [hclosed, hread]
    · simp [hreply, hread]
  · rw [hlook]
    simp [hreply]

private theorem runTurns_silent (turns : List Turn) :
    ((runTurns turns).trace = [] ∧ (runTurns turns).result = .ok ()) ↔ ∀ t ∈ turns, t.Quiet := by
  induction turns with
  | nil => simp [runTurns]
  | cons t turns ih =>
    have hcons : runTurns (t :: turns) = t.run >>= fun _ => runTurns turns := rfl
    rw [List.forall_mem_cons, ← ih, ← t.run_silent, hcons]
    cases hrun : t.run.result with
    | ok u =>
      rw [Traced.bind_ok hrun]
      simp only [List.append_eq_nil_iff]
      tauto
    | error e =>
      rw [Traced.bind_error hrun]
      simp

private theorem loud_dump {w : Writing} :
    ((writeFile { w with overwrite := true }).tryExcept dumpExn (fun _ => Traced.emit "monitor_dump_failed")
      pure).Loud ↔ DumpCaught w := by
  rw [Traced.loud_tryExcept]
  unfold writeFile DumpCaught
  cases hpath : w.path with
  | absolute | escapes => simp [resolve]
  | raises e => simp [resolve]
  | inside =>
    cases hpresent : w.present with
    | error e => simp [resolve, Caught]
    | ok present =>
      cases hmeasured : w.measured with
      | error e =>
        cases hos : e.isOSError with
        | true => simp [resolve, Caught, Traced.tryExcept, hos, dumpExn]
        | false => simp [resolve, Caught, Traced.tryExcept, hos]
      | ok u =>
        cases hquota : w.withinQuota with
        | false => simp [resolve, Caught, Traced.tryExcept, Exn.isOSError]
        | true =>
          cases hwritten : w.written with
          | ok v => simp [resolve, Caught, Traced.tryExcept]
          | error e =>
            cases hos : e.isOSError with
            | true => simp [resolve, Caught, Traced.tryExcept, hos, dumpExn]
            | false => simp [resolve, Caught, Traced.tryExcept, hos]

private theorem loud_writeDump_bind (dump : Option Writing) {rest : Unit → Program Unit} (hrest : ∀ u, (rest u).Loud) :
    (writeDump dump >>= rest).Loud ↔ ∀ w, dump = some w → DumpCaught w := by
  rw [Traced.loud_bind]
  simp only [hrest, implies_true, and_true]
  cases dump with
  | none => simp [writeDump]
  | some w => simp [writeDump, loud_dump]

private theorem loud_serialMonitor {argsOk : Bool} {p : Policy} {needle : Except Exn Unit} {turns : List Turn}
    {dump : Option Writing} :
    (serialMonitor c r name argsOk p needle turns dump).Loud ↔ (argsOk = true → p.fromEnv = .ok () ∧
      (p.enabled = true → ∀ h, r.serialMonitor c name = .ok h → needle = .ok () ∧
        ((∀ t ∈ turns, t.Quiet) → ∀ w, dump = some w → DumpCaught w))) := by
  unfold serialMonitor
  cases argsOk with
  | false => simp
  | true =>
    simp only [if_true, forall_const]
    rw [loud_checkKind_bind]
    apply and_congr_right'
    apply imp_congr_right
    intro _
    rw [loud_gate_bind (tells_serialMonitor c r name)]
    apply forall_congr'
    intro h
    apply imp_congr_right
    intro _
    unfold monitorWindow
    rw [bind_assoc, loud_call_unit_bind]
    apply and_congr_right'
    rw [Traced.loud_bind, loud_writeDump_bind _ (by simp), ← runTurns_silent]
    have hloud : ((runTurns turns).tryExcept anyExn (deny "monitor_failed") pure).Loud :=
      loud_tryExcept_any Traced.loud_pure
    rw [and_iff_right hloud]
    cases hresult : (runTurns turns).result with
    | ok u => simp [Traced.tryExcept_ok hresult]
    | error e => simp [Traced.tryExcept_caught hresult (show anyExn e = true from rfl)]

private theorem loud_cancel {p : Port Unit} {a : Bool} :
    ((SerialTransport.cancelRead p).tryExcept waitingExn (fun _ => pure a) (fun _ => pure a)).Loud ↔
      (p.isOpen = true → Caught waitingExn p.reply) := by
  rw [Traced.loud_tryExcept]
  unfold SerialTransport.cancelRead guarded
  cases hopen : p.isOpen with
  | false => simp
  | true =>
    cases hreply : p.reply with
    | ok u => simp [Caught, Traced.tryExcept]
    | error e =>
      cases hos : e.isOSError with
      | true => simp [Caught, Traced.tryExcept, hos, waitingExn]
      | false => simp [Caught, Traced.tryExcept, hos]

private theorem loud_stopReader (s : Stopping) : (stopReader s).Loud ↔ s.Answers := by
  unfold stopReader Stopping.Answers
  cases s.running with
  | false => simp
  | true =>
    simp only [if_true, forall_const]
    rcases look_cases s.waiting false (fun _ => true) with
      ⟨n, hopen, hreply, hlook⟩ | ⟨⟨hopen, e, hreply, hos⟩, hlook⟩ | ⟨hdead, hlook⟩ | ⟨e, ⟨hopen, hreply, huncaught⟩, hlook⟩
    · rw [hlook, pure_bind]
      simp [Port.Dead, Caught, hopen, hreply]
    · have hcaught : waitingExn e = true := by simp [waitingExn, hos]
      rw [hlook, Traced.bind_ok rfl]
      apply iff_of_true
      · exact Traced.loud_of_trace (by simp)
      · simp [Port.Dead, Caught, hopen, hreply, hos, hcaught]
    · rw [hlook, pure_bind]
      have hwaiting : s.waiting.isOpen = true → Caught waitingExn s.waiting.reply := by
        intro hopen
        rcases hdead with hclosed | ⟨e, hreply, -, hcaught⟩
        · simp [hopen] at hclosed
        · simp [Caught, hreply, hcaught]
      simp only [Bool.false_eq_true, if_false, loud_cancel, hdead, forall_const]
      exact (and_iff_right hwaiting).symm
    · rw [hlook]
      simp [Caught, hopen, hreply, huncaught]

private theorem loud_stopReader_bind (s : Stopping) {rest : Bool → Program Unit}
    (hrest : ∀ stopped, (rest stopped).Loud) :
    (stopReader s >>= rest).Loud ↔ s.Answers := by
  rw [Traced.loud_bind, loud_stopReader]
  simp [hrest]

private theorem loud_serialReaderStart {boundsOk : Bool} {started : Except Exn Unit} :
    (serialReaderStart c r name boundsOk started).Loud := by
  unfold serialReaderStart
  cases boundsOk with
  | false => simp
  | true =>
    simp only [if_true]
    rw [loud_gate_bind (tells_serialReaderStart c r name)]
    intro _ _
    exact Traced.loud_emit_bind _ _

private theorem loud_serialReaderStop {s : Stopping} :
    (serialReaderStop c r name s).Loud ↔ ∀ h, r.serialReaderStop c name = .ok h → s.Answers := by
  unfold serialReaderStop
  rw [loud_gate_bind (tells_serialReaderStop c r name)]
  simp only [loud_stopReader_bind s (fun stopped => Traced.loud_emit _), journalStop]

private theorem tells_readerGate (op : String) : Tells (readerGate c r name op) := by
  unfold readerGate
  split
  · rintro _ ⟨⟩
    simp [failed]
  · exact Tells.pure _

private theorem loud_serialTail {sizeOk : Bool} : (serialTail c r name sizeOk).Loud := by
  unfold serialTail
  cases sizeOk with
  | false => simp
  | true =>
    simp only [if_true]
    rw [loud_gate_bind (tells_readerGate c r name _)]
    simp

private theorem loud_serialReadUntil {timeoutOk : Bool} {pattern : Option (Except Exn Unit)} :
    (serialReadUntil c r name timeoutOk pattern).Loud ↔
      (timeoutOk = true → ∀ h, readerGate c r name "read_until" = .ok h → pattern = some (.ok ())) := by
  unfold serialReadUntil
  cases timeoutOk with
  | false => simp
  | true =>
    simp only [if_true, forall_const]
    rw [loud_gate_bind (tells_readerGate c r name _)]
    apply forall_congr'
    intro h
    apply imp_congr_right
    intro _
    cases pattern with
    | none => simp [readUntil]
    | some needle => cases needle <;> simp [readUntil, loud_call]

/-! ### Closing -/

private theorem loud_close_again {p : Port Unit} :
    ((SerialTransport.close p).tryExcept Exn.isOSError (deny "close_failed") pure).Loud ↔
      (p.isOpen = true → Caught Exn.isOSError p.reply) := by
  rw [Traced.loud_tryExcept]
  unfold SerialTransport.close guarded
  cases hopen : p.isOpen with
  | false => simp
  | true =>
    cases hreply : p.reply with
    | ok u => simp [Caught, Traced.tryExcept]
    | error e =>
      cases hos : e.isOSError with
      | true => simp [Caught, Traced.tryExcept, hos]
      | false => simp [Caught, Traced.tryExcept, hos]

private theorem loud_serialClose {s : Stopping} {p : Port Unit} :
    (serialClose c r name s p).Loud ↔ (∀ h, r.closeTyped c .serial name = .ok h →
      if name ∈ r.readers then s.Answers else p.isOpen = true → Caught Exn.isOSError p.reply) := by
  unfold serialClose
  rw [loud_gate_bind (tells_closeTyped c r name .serial)]
  apply forall_congr'
  intro h
  apply imp_congr_right
  intro _
  split
  · rename_i hreader
    exact loud_stopReader_bind s fun stopped => Traced.loud_emit_bind _ _
  · rename_i hnone
    exact loud_close_again

/-! ### Files -/

/-- A write journals what it raises. -/
def Writing.Noticed (w : Writing) : Prop :=
  w.path.Answers ∧ (w.path = .inside → ∃ present, w.present = .ok present ∧ Caught Exn.isOSError w.measured ∧
    (w.measured = .ok () → w.withinQuota = true → Caught Exn.isOSError w.written))

private theorem loud_fileWrite {p : Policy} {encoded : Except Exn Unit} {w : Writing} :
    (fileWrite p encoded w).Loud ↔
      p.fromEnv = .ok () ∧ (p.enabled = true → encoded = .ok () ∧ w.Noticed) := by
  unfold fileWrite Writing.Noticed
  rw [loud_checkKind_bind, loud_call_unit_bind, loud_writeFile]
  simp

private theorem loud_fileRead {p : Policy} {path : Resolution} {data : Except Exn Unit} :
    (fileRead p path data).Loud ↔ p.fromEnv = .ok () ∧ (p.enabled = true →
      (∀ e, path = .raises e → e.isOSError = true) ∧ (path = .inside → Caught Exn.isOSError data)) := by
  unfold fileRead
  rw [loud_checkKind_bind, loud_readFile]

private theorem loud_fileList {p : Policy} {path : Resolution} {isDir : Except Exn Bool} {entries : Except Exn Unit} :
    (fileList p path isDir entries).Loud ↔ p.fromEnv = .ok () ∧ (p.enabled = true →
      path.Answers ∧ (path = .inside → ∃ dir, isDir = .ok dir ∧ (dir = true → Caught Exn.isOSError entries))) := by
  unfold fileList
  rw [loud_checkKind_bind, loud_listDir]

private theorem loud_fileDelete {p : Policy} {path : Resolution} {unlinked : Except Exn Unit} :
    (fileDelete p path unlinked).Loud ↔ p.fromEnv = .ok () ∧ (p.enabled = true →
      path.Answers ∧ (path = .inside → Caught Exn.isOSError unlinked)) := by
  unfold fileDelete
  rw [loud_checkKind_bind, loud_deleteFile]

/-! ### Every operation -/

/-- An operation, its arguments as far as they are checked, and what its calls to the outside come to. -/
inductive Op
  | serialList (p : Policy) (ports : Except Exn Unit)
  | serialWait (p : Policy) (timeoutOk : Bool) (polls : List (Except Exn Bool))
  | serialOpen (name : String) (p : Policy) (o : Opening)
  | serialWrite (name : String) (hexOk : Bool) (denied : Option Denial) (p : Port Unit)
  | serialRead (name : String) (sizeOk : Bool) (denied : Option Denial) (p : Port Unit)
  | serialReadLine (name : String) (lenOk : Bool) (denied : Option Denial) (p : Port Unit)
  | serialReset (name : String) (denied : Option Denial) (isOpen durationsOk : Bool) (pulse release : Except Exn Unit)
  | serialPut (name : String) (p : Policy) (source : Resolution) (data : Except Exn Unit) (exchange : Program Unit)
  | serialGet (name : String) (p : Policy) (exchange : Program Unit) (dest : Writing)
  | serialMonitor (name : String) (argsOk : Bool) (p : Policy) (needle : Except Exn Unit) (turns : List Turn)
      (dump : Option Writing)
  | serialReaderStart (name : String) (boundsOk : Bool) (started : Except Exn Unit)
  | serialReaderStop (name : String) (s : Stopping)
  | serialTail (name : String) (sizeOk : Bool)
  | serialReadUntil (name : String) (timeoutOk : Bool) (pattern : Option (Except Exn Unit))
  | serialClose (name : String) (s : Stopping) (p : Port Unit)
  | fileWrite (p : Policy) (encoded : Except Exn Unit) (w : Writing)
  | fileRead (p : Policy) (path : Resolution) (data : Except Exn Unit)
  | fileList (p : Policy) (path : Resolution) (isDir : Except Exn Bool) (entries : Except Exn Unit)
  | fileDelete (p : Policy) (path : Resolution) (unlinked : Except Exn Unit)

def Op.run : Op → Program Unit
  | .serialList p ports => Trail.serialList p ports
  | .serialWait p timeoutOk polls => Trail.serialWait p timeoutOk polls
  | .serialOpen name p o => Trail.serialOpen c r name p o
  | .serialWrite name hexOk denied p => Trail.serialWrite c r name hexOk denied p
  | .serialRead name sizeOk denied p => Trail.serialRead c r name sizeOk denied p
  | .serialReadLine name lenOk denied p => Trail.serialReadLine c r name lenOk denied p
  | .serialReset name denied isOpen durationsOk pulse release =>
    Trail.serialReset c r name denied isOpen durationsOk pulse release
  | .serialPut name p source data exchange => Trail.serialPut c r name p source data exchange
  | .serialGet name p exchange dest => Trail.serialGet c r name p exchange dest
  | .serialMonitor name argsOk p needle turns dump => Trail.serialMonitor c r name argsOk p needle turns dump
  | .serialReaderStart name boundsOk started => Trail.serialReaderStart c r name boundsOk started
  | .serialReaderStop name s => Trail.serialReaderStop c r name s
  | .serialTail name sizeOk => Trail.serialTail c r name sizeOk
  | .serialReadUntil name timeoutOk pattern => Trail.serialReadUntil c r name timeoutOk pattern
  | .serialClose name s p => Trail.serialClose c r name s p
  | .fileWrite p encoded w => Trail.fileWrite p encoded w
  | .fileRead p path data => Trail.fileRead p path data
  | .fileList p path isDir entries => Trail.fileList p path isDir entries
  | .fileDelete p path unlinked => Trail.fileDelete p path unlinked

/-- No exception of the outside gets past the handlers of the operation before it has journaled anything. -/
def Op.Noticed : Op → Prop
  | .serialList p ports => p.fromEnv = .ok () ∧ (p.enabled = true → ports = .ok ())
  | .serialWait p timeoutOk polls =>
    p.fromEnv = .ok () ∧ (p.enabled = true → timeoutOk = true → PollsAnswer polls)
  | .serialOpen name p o => p.fromEnv = .ok () ∧ (p.enabled = true → o.timeoutOk = true → o.Noticed c r name)
  | .serialWrite name hexOk denied p => hexOk = true → ∀ h, r.serialWrite c name = .ok h → denied = none →
      p.isOpen = true → Caught writeExn p.reply
  | .serialRead name sizeOk denied p => sizeOk = true → ∀ h, r.serialRead c name = .ok h → denied = none → p.Noticed
  | .serialReadLine name lenOk denied p =>
    lenOk = true → ∀ h, r.serialReadLine c name = .ok h → denied = none → p.Noticed
  | .serialReset name denied isOpen durationsOk pulse release =>
    ∀ h, r.getSerial c name = .ok h → denied = none → isOpen = true ∧ (durationsOk = true →
      (Caught Exn.isOSError pulse ∨ ∃ e, release = .error e ∧ e.isOSError = true) ∧
        (Caught Exn.isOSError release ∨ ∃ e, pulse = .error e ∧ e.isOSError = true))
  | .serialPut _ p _ _ _ | .serialGet _ p _ _ => p.fromEnv = .ok ()
  | .serialMonitor name argsOk p needle turns dump => argsOk = true → p.fromEnv = .ok () ∧
      (p.enabled = true → ∀ h, r.serialMonitor c name = .ok h → needle = .ok () ∧
        ((∀ t ∈ turns, t.Quiet) → ∀ w, dump = some w → DumpCaught w))
  | .serialReaderStart _ _ _ | .serialTail _ _ => True
  | .serialReaderStop name s => ∀ h, r.serialReaderStop c name = .ok h → s.Answers
  | .serialReadUntil name timeoutOk pattern =>
    timeoutOk = true → ∀ h, readerGate c r name "read_until" = .ok h → pattern = some (.ok ())
  | .serialClose name s p => ∀ h, r.closeTyped c .serial name = .ok h →
      if name ∈ r.readers then s.Answers else p.isOpen = true → Caught Exn.isOSError p.reply
  | .fileWrite p encoded w => p.fromEnv = .ok () ∧ (p.enabled = true → encoded = .ok () ∧ w.Noticed)
  | .fileRead p path data => p.fromEnv = .ok () ∧ (p.enabled = true →
      (∀ e, path = .raises e → e.isOSError = true) ∧ (path = .inside → Caught Exn.isOSError data))
  | .fileList p path isDir entries => p.fromEnv = .ok () ∧ (p.enabled = true →
      path.Answers ∧ (path = .inside → ∃ dir, isDir = .ok dir ∧ (dir = true → Caught Exn.isOSError entries)))
  | .fileDelete p path unlinked => p.fromEnv = .ok () ∧ (p.enabled = true →
      path.Answers ∧ (path = .inside → Caught Exn.isOSError unlinked))

end IronHarness.Session.Trail
