import IronHarness.Lib.Traced
import IronHarness.Session.Registry

/-!
# What is outside of a session

pyserial, the file system and the environment variables may raise anything; a transport, the limits around it, the
sandbox and the access policy journal some of it and let the rest through.  What such a call comes to is given, and its
journal events are known by their kinds.
-/

namespace IronHarness.Session.Trail

/-- The exceptions, as far as a handler can tell them apart. -/
inductive Exn
  | osError
  | transportIoError
  | policyViolation
  | queueFull
  | queueEmpty
  | valueError
  | unicodeEncodeError
  | keyError
  | attributeError
  | runtimeError
  | transportClosedError
  | sandboxViolation
  | quotaExceeded
  | rateLimitExceeded
  | operationTimeout
  | other
  deriving DecidableEq

/-- `TransportIoError` and `PolicyViolation` are OSErrors. -/
def Exn.isOSError : Exn → Bool
  | .osError | .transportIoError | .policyViolation => true
  | _ => false

def Exn.isValueError : Exn → Bool
  | .valueError | .unicodeEncodeError => true
  | _ => false

/-- A program of the session; it puts down the kinds of its journal events. -/
abbrev Program := Traced Exn String

/-- A call to the outside. -/
def call {α : Type} (reply : Except Exn α) : Program α := ⟨reply, []⟩

/-- Journals and raises. -/
def deny {α : Type} (kind : String) (e : Exn) : Program α := do
  Traced.emit kind
  Traced.raise e

/-- `except catches: journal(kind); raise` around a call, and `rest` after it. -/
def guarded {α β : Type} (reply : Except Exn α) (catches : Exn → Bool) (kind : String) (rest : α → Program β) :
    Program β :=
  (call reply).tryExcept catches (deny kind) rest

def Error.exn : Error → Exn
  | .keyError => .keyError
  | .runtimeError => .runtimeError
  | .policyViolation => .policyViolation
  | .transportClosedError => .transportClosedError

/-- A gate of the registries. -/
def gate {α : Type} : Except Refusal α → Program α
  | .ok a => pure a
  | .error r =>
    match r.journaled with
    | some (kind, _) => deny kind (Error.exn r.error)
    | none => Traced.raise (Error.exn r.error)

/-! ### The policy -/

/-- What reading `IRONHARNESS_ALLOWED_HOSTS` and `IRONHARNESS_ENABLED_KINDS` comes to, and whether the kind is
enabled. -/
structure Policy where
  fromEnv : Except Exn Unit
  enabled : Bool

/-- `_check_kind` -/
def checkKind (p : Policy) : Program Unit := do
  call p.fromEnv
  if p.enabled then pure () else deny "policy_violation" .policyViolation

/-! ### The serial transport -/

/-- Whether the port is open, and what the call to pyserial comes to. -/
structure Port (α : Type) where
  isOpen : Bool
  reply : Except Exn α

namespace SerialTransport

variable {α : Type}

/-- What `write`, `read` and `read_line` have in common; `full` is the exception of a loop port. -/
def io (done failed : String) (full : Exn) (p : Port α) : Program α :=
  if p.isOpen then
    (call p.reply).tryExcept (fun e => e.isOSError || e == full)
      (fun e => deny failed (if e.isOSError then e else .transportIoError))
      (fun a => do
        Traced.emit done
        pure a)
  else Traced.raise .transportClosedError

def write (p : Port Unit) : Program Unit := io "write" "write_failed" .queueFull p

def read (p : Port Unit) : Program Unit := io "read" "read_failed" .queueEmpty p

def readLine (p : Port Unit) : Program Unit := io "read_line" "read_line_failed" .queueEmpty p

def inWaiting (p : Port Nat) : Program Nat :=
  if p.isOpen then guarded p.reply Exn.isOSError "read_failed" pure else Traced.raise .transportClosedError

def cancelRead (p : Port Unit) : Program Unit :=
  if p.isOpen then guarded p.reply Exn.isOSError "read_failed" pure else pure ()

/-- `pulse` is the part before the `finally`, `release` the release of the line in it. -/
def reset (isOpen durationsOk : Bool) (pulse release : Except Exn Unit) : Program Unit :=
  if isOpen then
    if durationsOk then do
      Traced.tryFinally (guarded pulse Exn.isOSError "reset_failed" pure)
        ((call release).tryExcept Exn.isOSError (fun _ => Traced.emit "reset_failed") pure)
      Traced.emit "reset"
    else deny "reset_failed" .valueError
  else Traced.raise .transportClosedError

/-- `lines` is the release of DTR and RTS after the port was opened. -/
def openPort (allowed : Bool) (opened lines : Except Exn Unit) : Program Unit :=
  if allowed then
    ((call opened).tryExcept (fun _ => false) Traced.raise fun _ =>
      (call lines).tryExcept Exn.isOSError (fun _ => pure ()) pure).tryExcept
        (fun e => e.isOSError || e.isValueError) (deny "open_failed") (fun _ => Traced.emit "open")
  else deny "serial_open_failed" .valueError

def close (p : Port Unit) : Program Unit :=
  if p.isOpen then guarded p.reply Exn.isOSError "close_failed" fun _ => Traced.emit "close" else pure ()

end SerialTransport

/-- A call that the limits around the transport do not let through. -/
inductive Denial
  | rate
  | idle

/-- `RateLimitedTransport` and `DeadlineTransport` -/
def limited {α : Type} (denied : Option Denial) (x : Program α) : Program α :=
  match denied with
  | some .rate => deny "rate_denied" .rateLimitExceeded
  | some .idle => deny "deadline_denied" .operationTimeout
  | none => x

/-! ### The sandbox -/

/-- Where a path leads. -/
inductive Resolution
  | absolute
  | raises (e : Exn)
  | escapes
  | inside

def resolve : Resolution → Program Unit
  | .absolute => deny "sandbox_violation" .sandboxViolation
  | .raises e => Traced.raise e
  | .escapes => deny "sandbox_violation" .sandboxViolation
  | .inside => pure ()

/-- `present` is `exists`, `measured` the look at the sizes, `written` the making of directories and the writing. -/
structure Writing where
  path : Resolution
  present : Except Exn Bool
  overwrite : Bool
  measured : Except Exn Unit
  withinQuota : Bool
  written : Except Exn Unit

def writeFile (w : Writing) : Program Unit := do
  resolve w.path
  let present ← call w.present
  if present && !w.overwrite then deny "file_write_failed" .osError
  else
    Traced.tryExcept
      (do
        call w.measured
        if w.withinQuota then call w.written else deny "quota_denied" .quotaExceeded)
      Exn.isOSError (deny "file_write_failed") (fun _ => Traced.emit "file_write")

def readFile (path : Resolution) (data : Except Exn Unit) : Program Unit :=
  Traced.tryExcept
    (do
      resolve path
      call data)
    Exn.isOSError (deny "file_read_failed") (fun _ => Traced.emit "file_read")

def listDir (path : Resolution) (isDir : Except Exn Bool) (entries : Except Exn Unit) : Program Unit := do
  resolve path
  let isDir ← call isDir
  if isDir then guarded entries Exn.isOSError "file_list_failed" fun _ => Traced.emit "file_list"
  else deny "file_list_failed" .osError

def deleteFile (path : Resolution) (unlinked : Except Exn Unit) : Program Unit := do
  resolve path
  guarded unlinked Exn.isOSError "file_delete_failed" fun _ => Traced.emit "file_delete"

/-! ### What is raised was journaled -/

/-- Every exception of the call is one that the handler catches. -/
def Caught {α : Type} (catches : Exn → Bool) (reply : Except Exn α) : Prop :=
  ∀ e, reply = .error e → catches e = true

instance {α : Type} (catches : Exn → Bool) : ∀ reply : Except Exn α, Decidable (Caught catches reply)
  | .ok _ => isTrue (by rintro _ ⟨⟩)
  | .error e => decidable_of_iff (catches e = true) ⟨by rintro h _ ⟨⟩; exact h, fun h => h e rfl⟩

section

variable {α β : Type} {reply : Except Exn α} {catches : Exn → Bool} {kind : String} {rest : α → Program β}

@[simp] theorem loud_deny (kind : String) (e : Exn) : (deny kind e : Program α).Loud := Traced.loud_emit_bind _ _

@[simp] theorem trace_deny (kind : String) (e : Exn) : (deny kind e : Program α).trace = [kind] := rfl

@[simp] theorem result_deny (kind : String) (e : Exn) : (deny kind e : Program α).result = .error e := rfl

@[simp] theorem deny_bind (kind : String) (e : Exn) : (deny kind e : Program α) >>= rest = deny kind e := rfl

@[simp] theorem result_call : (call reply).result = reply := rfl

@[simp] theorem trace_call : (call reply).trace = [] := rfl

@[simp] theorem call_ok_bind (a : α) : call (.ok a) >>= rest = rest a := rfl

@[simp] theorem call_error_bind (e : Exn) : call (.error e) >>= rest = Traced.raise e := rfl

theorem loud_call : (call reply).Loud ↔ ∃ a, reply = .ok a := by
  cases reply with
  | ok a => simp [Traced.Loud, call]
  | error e => simp [Traced.Loud, call]

theorem loud_call_bind : (call reply >>= rest).Loud ↔ ∃ a, reply = .ok a ∧ (rest a).Loud := by
  rw [Traced.loud_bind, loud_call]
  constructor
  · rintro ⟨⟨a, ha⟩, h⟩
    exact ⟨a, ha, h rfl a ha⟩
  · rintro ⟨a, ha, h⟩
    refine ⟨⟨a, ha⟩, fun _ b hb => ?_⟩
    obtain rfl : b = a := Except.ok.inj (hb.symm.trans ha)
    exact h

theorem loud_call_unit_bind {reply : Except Exn Unit} {rest : Unit → Program β} :
    (call reply >>= rest).Loud ↔ reply = .ok () ∧ (rest ()).Loud := by
  rw [loud_call_bind]
  exact ⟨fun ⟨(), h⟩ => h, fun h => ⟨(), h⟩⟩

/-- A call whose exceptions are journaled where they are caught. -/
private theorem trace_tryExcept_call {handler : Exn → Program α} (hhandler : ∀ e, (handler e).trace ≠ []) :
    ((call reply).tryExcept catches handler pure).trace = [] ↔ ¬ ∃ e, reply = .error e ∧ catches e = true := by
  cases reply with
  | ok a => simp [Traced.tryExcept, call]
  | error e =>
    cases hcatch : catches e with
    | true => simp [Traced.tryExcept, call, hcatch, hhandler e]
    | false => simp [Traced.tryExcept, call, hcatch]

private theorem loud_guarded :
    (guarded reply catches kind rest).Loud ↔ Caught catches reply ∧ ∀ a, reply = .ok a → (rest a).Loud := by
  unfold guarded
  rw [Traced.loud_tryExcept]
  simp [call, Caught]

end

/-- The gate journals what it refuses. -/
def Tells {α : Type} (g : Except Refusal α) : Prop := ∀ r, g = .error r → r.journaled ≠ none

section Gates

variable {α β : Type} {g : Except Refusal α}

/-- A gate that refuses has journaled it. -/
theorem gate_error {r : Refusal} (h : Tells (.error r : Except Refusal α)) :
    ∃ kind, gate (.error r : Except Refusal α) = deny kind (Error.exn r.error) := by
  cases hjournaled : r.journaled with
  | none => exact absurd hjournaled (h r rfl)
  | some event => exact ⟨event.1, by simp [gate, hjournaled]⟩

theorem loud_gate_bind {rest : α → Program β} (h : Tells g) :
    (gate g >>= rest).Loud ↔ ∀ a, g = .ok a → (rest a).Loud := by
  cases g with
  | ok a => simp [gate]
  | error r =>
    obtain ⟨kind, hgate⟩ := gate_error h
    simp [hgate]

theorem loud_gate_unit_bind {g : Except Refusal Unit} {rest : Unit → Program β} (h : Tells g) :
    (gate g >>= rest).Loud ↔ (g = .ok () → (rest ()).Loud) := by
  rw [loud_gate_bind h]
  exact ⟨fun hrest => hrest (), fun hrest () => hrest⟩

private theorem tells_refuseIf {p : Prop} [Decidable p] {r : Refusal} (h : r.journaled ≠ none) :
    Tells (refuseIf p r) := by
  intro r' hr
  unfold refuseIf at hr
  split at hr
  · cases hr
    exact h
  · cases hr

theorem tells_orFailed (c : Config) (event name : String) (x : Except String α) : Tells (orFailed c event name x) := by
  intro r hr
  cases x with
  | ok a => cases hr
  | error message =>
    cases hr
    simp [failed]

theorem Tells.bind {rest : α → Except Refusal β} (h : Tells g) (hrest : ∀ a, Tells (rest a)) : Tells (g >>= rest) := by
  intro r hr
  cases g with
  | ok a => exact hrest a r hr
  | error r' =>
    cases hr
    exact h r rfl

theorem Tells.pure (a : α) : Tells (pure a) := by
  rintro r ⟨⟩

variable (c : Config) (r : Registry) (name : String)

private theorem tells_refused {p : Prop} [Decidable p] (event reason : String) (error : Error) (message : String) :
    Tells (refuseIf p (refused event name reason error message)) := tells_refuseIf (by simp [refused])

theorem tells_serialWrite : Tells (r.serialWrite c name) := by
  unfold Registry.serialWrite
  apply (tells_orFailed c _ name _).bind
  intro h
  apply (tells_refused name _ _ _ _).bind
  intro _
  apply (tells_refused name _ _ _ _).bind
  intro _
  exact Tells.pure h

private theorem tells_directRead (op : String) : Tells (r.directRead op c name) := by
  unfold Registry.directRead
  apply (tells_refused name _ _ _ _).bind
  intro _
  apply (tells_refused name _ _ _ _).bind
  intro _
  apply (tells_refused name _ _ _ _).bind
  intro _
  exact tells_orFailed c _ name _

theorem tells_serialRead : Tells (r.serialRead c name) := tells_directRead c r name "read"

theorem tells_serialReadLine : Tells (r.serialReadLine c name) := tells_directRead c r name "read_line"

private theorem tells_transferGate (op : String) : Tells (r.transferGate op c name) := by
  unfold Registry.transferGate
  apply (tells_refused name _ _ _ _).bind
  intro _
  apply (tells_orFailed c _ name _).bind
  intro h
  apply (tells_refused name _ _ _ _).bind
  intro _
  apply (tells_refused name _ _ _ _).bind
  intro _
  exact Tells.pure h

theorem tells_serialPut : Tells (r.serialPut c name) := tells_transferGate c r name "put"

theorem tells_serialGet : Tells (r.serialGet c name) := tells_transferGate c r name "get"

theorem tells_serialMonitor : Tells (r.serialMonitor c name) := by
  unfold Registry.serialMonitor
  apply (tells_refused name _ _ _ _).bind
  intro _
  apply (tells_refused name _ _ _ _).bind
  intro _
  apply (tells_refused name _ _ _ _).bind
  intro _
  exact tells_orFailed c _ name _

theorem tells_serialReaderStart : Tells (r.serialReaderStart c name) := by
  unfold Registry.serialReaderStart
  split
  · rintro _ ⟨⟩
    simp [failed]
  · rename_i base _
    apply (tells_refused name _ _ _ _).bind
    intro _
    apply (tells_refused name _ _ _ _).bind
    intro _
    apply (tells_refused name _ _ _ _).bind
    intro _
    exact Tells.pure base

theorem tells_serialReaderStop : Tells (r.serialReaderStop c name) := by
  unfold Registry.serialReaderStop
  split
  · rintro _ ⟨⟩
    simp [failed]
  · rintro _ ⟨⟩

theorem tells_checkFree : Tells (r.checkFree c name) := tells_refused name _ _ _ _

theorem tells_checkConnectionLimit : Tells (r.checkConnectionLimit c) := by
  unfold Registry.checkConnectionLimit
  split
  · rintro _ ⟨⟩
  · exact tells_refuseIf (by simp)

theorem tells_closeTyped (kind : Kind) : Tells (r.closeTyped c kind name) := by
  unfold Registry.closeTyped
  apply (tells_orFailed c _ name _).bind
  intro h
  apply Tells.bind
  · exact tells_refuseIf (by simp [failed])
  · intro _
    exact Tells.pure h

end Gates

/-! ### The components -/

section Components

variable {α β : Type}

theorem loud_checkKind_bind {p : Policy} {rest : Unit → Program β} :
    (checkKind p >>= rest).Loud ↔ p.fromEnv = .ok () ∧ (p.enabled = true → (rest ()).Loud) := by
  unfold checkKind
  rw [bind_assoc, loud_call_unit_bind]
  cases henabled : p.enabled with
  | true => simp
  | false => simp

theorem loud_limited {denied : Option Denial} {x : Program α} :
    (limited denied x).Loud ↔ (denied = none → x.Loud) := by
  unfold limited
  split <;> simp

namespace SerialTransport

theorem loud_io {kind failed : String} {full : Exn} {p : Port α} :
    (io kind failed full p).Loud ↔ p.isOpen = true ∧ Caught (fun e => e.isOSError || e == full) p.reply := by
  unfold io
  split
  · rename_i hopen
    rw [Traced.loud_tryExcept]
    simp [hopen, call, Caught, -bind_pure_comp]
  · rename_i hclosed
    simp [hclosed]

theorem loud_openPort {allowed : Bool} {opened lines : Except Exn Unit} :
    (openPort allowed opened lines).Loud ↔
      (allowed = true → Caught (fun e => e.isOSError || e.isValueError) opened ∧
        (opened = .ok () → Caught (fun e => e.isOSError || e.isValueError) lines)) := by
  unfold openPort
  split
  · rename_i hallowed
    rw [Traced.loud_tryExcept]
    cases opened with
    | error e => simp [hallowed, call, Caught, Traced.tryExcept]
    | ok u =>
      cases lines with
      | ok v => simp [call, Caught, Traced.tryExcept]
      | error e =>
        cases hcaught : e.isOSError with
        | true => simp [call, Caught, Traced.tryExcept, hcaught]
        | false => simp [hallowed, call, Caught, Traced.tryExcept, hcaught]
  · rename_i hrefused
    simp [hrefused]

theorem loud_reset {isOpen durationsOk : Bool} {pulse release : Except Exn Unit} :
    (reset isOpen durationsOk pulse release).Loud ↔ isOpen = true ∧ (durationsOk = true →
      (Caught Exn.isOSError pulse ∨ ∃ e, release = .error e ∧ e.isOSError = true) ∧
        (Caught Exn.isOSError release ∨ ∃ e, pulse = .error e ∧ e.isOSError = true)) := by
  unfold reset
  split
  · rename_i hopen
    split
    · rename_i hdurations
      rw [Traced.loud_bind, Traced.loud_tryFinally, loud_guarded, Traced.loud_tryExcept]
      unfold guarded
      rw [trace_tryExcept_call (by simp), trace_tryExcept_call (by simp)]
      simp only [Traced.loud_pure, implies_true, and_true, hopen, true_and, hdurations, forall_const]
      simp only [call, Traced.loud_emit, implies_true, and_true, forall_const, Caught]
      rw [or_iff_not_imp_right, or_iff_not_imp_right]
    · rename_i hdurations
      simp [hopen, hdurations]
  · rename_i hclosed
    simp [hclosed]

end SerialTransport

/-! ### The sandbox, as far as it journals -/

/-- Looking where the path leads raises nothing. -/
def Resolution.Answers (path : Resolution) : Prop := ∀ e, path ≠ .raises e

private theorem loud_resolve_bind {path : Resolution} {rest : Unit → Program β} :
    (resolve path >>= rest).Loud ↔ path.Answers ∧ (path = .inside → (rest ()).Loud) := by
  unfold resolve Resolution.Answers
  cases path <;> simp

theorem loud_writeFile {w : Writing} :
    (writeFile w).Loud ↔ w.path.Answers ∧ (w.path = .inside → ∃ present, w.present = .ok present ∧
      ((present && !w.overwrite) = false → Caught Exn.isOSError w.measured ∧
        (w.measured = .ok () → w.withinQuota = true → Caught Exn.isOSError w.written))) := by
  unfold writeFile
  rw [loud_resolve_bind]
  apply and_congr_right'
  apply imp_congr_right
  intro _
  rw [loud_call_bind]
  apply exists_congr
  intro present
  apply and_congr_right'
  split
  · rename_i hrefused
    simp [hrefused]
  · rename_i hfree
    have hpresent : (present && !w.overwrite) = false := by simpa using hfree
    simp only [hpresent, forall_const]
    rw [Traced.loud_tryExcept]
    cases hmeasured : w.measured with
    | error e => simp [Caught]
    | ok u =>
      cases hquota : w.withinQuota with
      | true =>
        rw [call_ok_bind]
        simp [Caught, call]
      | false => simp [Caught]

theorem loud_readFile {path : Resolution} {data : Except Exn Unit} :
    (readFile path data).Loud ↔
      (∀ e, path = .raises e → e.isOSError = true) ∧ (path = .inside → Caught Exn.isOSError data) := by
  unfold readFile
  rw [Traced.loud_tryExcept]
  cases path with
  | absolute | escapes => simp [resolve]
  | raises e => simp [resolve]
  | inside => simp [resolve, call, Caught]

theorem loud_listDir {path : Resolution} {isDir : Except Exn Bool} {entries : Except Exn Unit} :
    (listDir path isDir entries).Loud ↔ path.Answers ∧ (path = .inside → ∃ dir, isDir = .ok dir ∧
      (dir = true → Caught Exn.isOSError entries)) := by
  unfold listDir
  rw [loud_resolve_bind]
  apply and_congr_right'
  apply imp_congr_right
  intro _
  rw [loud_call_bind]
  apply exists_congr
  intro dir
  apply and_congr_right'
  split
  · rename_i hdir
    simp [hdir, loud_guarded]
  · rename_i hdir
    simp [hdir]

theorem loud_deleteFile {path : Resolution} {unlinked : Except Exn Unit} :
    (deleteFile path unlinked).Loud ↔ path.Answers ∧ (path = .inside → Caught Exn.isOSError unlinked) := by
  unfold deleteFile
  rw [loud_resolve_bind, loud_guarded]
  simp

end Components

end IronHarness.Session.Trail
