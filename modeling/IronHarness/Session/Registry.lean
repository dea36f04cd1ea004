import Mathlib.Data.Finset.Basic
import Mathlib.Data.List.AList
import IronHarness.Lib.Json

/-!
# The registries of a session and the gates in front of them

A session keeps its transports under their names in four dictionaries and two sets.  Every operation first passes a
gate under the session's lock; a gate that refuses says what it journals and what it raises.  `serial_read` and
`serial_read_line` differ in the words of their refusals only, and so do `serial_put` and `serial_get`.
-/

namespace IronHarness.Session

open JsonText

/-- A transport object; every open makes a new one. -/
abbrev Handle := Nat

inductive Kind
  | serial
  | modbus
  | mqtt
  deriving DecidableEq, Repr

def Kind.text : Kind → String
  | .serial => "serial"
  | .modbus => "modbus"
  | .mqtt => "mqtt"

/-- `_transports`, `_kinds`, `_serial_base`, `_readers`, `_transfers` and `_monitors`; a reader is known by the
transport it drains. -/
structure Registry where
  transports : AList fun _ : String => Handle
  kinds : AList fun _ : String => Kind
  serialBase : AList fun _ : String => Handle
  readers : AList fun _ : String => Handle
  transfers : Finset String
  monitors : Finset String

def Registry.empty : Registry := ⟨∅, ∅, ∅, ∅, ∅, ∅⟩

/-- The limit of `IRONHARNESS_MAX_CONNECTIONS`, and `repr` of a string. -/
structure Config where
  maxConnections : Option Nat
  repr : String → String

/-! ### Refusals -/

inductive Error
  | keyError
  | runtimeError
  | policyViolation
  | transportClosedError
  deriving DecidableEq, Repr

/-- What a refused call journals, if it does, and what it raises. -/
structure Refusal where
  journaled : Option (String × List (String × Value Empty))
  error : Error
  message : String

/-- The refusal of a gate. -/
def refused (event name reason : String) (error : Error) (message : String) : Refusal :=
  ⟨some (event, [("conn", .str name), ("reason", .str reason)]), error, message⟩

/-- The refusal of a call that names no transport it can use; `text` is what is journaled. -/
def failed (event name text message : String) : Refusal :=
  ⟨some (event, [("conn", .str name), ("error", .str text)]), .keyError, message⟩

def refuseIf (p : Prop) [Decidable p] (e : Refusal) : Except Refusal Unit := if p then .error e else .ok ()

/-- The handler of a KeyError; `str` of a KeyError is the `repr` of its message. -/
def orFailed {α : Type} (c : Config) (event name : String) : Except String α → Except Refusal α
  | .ok a => .ok a
  | .error message => .error (failed event name (c.repr message) message)

/-- `_check_open` -/
def checkOpen (closed : Bool) : Except Refusal Unit :=
  refuseIf (closed = true) ⟨none, .transportClosedError, "session is closed - create a new Session"⟩

/-! ### Looking a name up -/

/-- `_get`; the error is the message of its KeyError. -/
def Registry.get (c : Config) (r : Registry) (name : String) : Except String Handle :=
  match r.transports.lookup name with
  | some h => .ok h
  | none => .error ("transport " ++ c.repr name ++ " is not open")

def notOfKind (c : Config) (kind : Kind) (name : String) : String :=
  "transport " ++ c.repr name ++ " is not a " ++ kind.text ++ " transport"

/-- `_get` and the check of the kind after it. -/
def Registry.getSerial (c : Config) (r : Registry) (name : String) : Except String Handle := do
  let h ← r.get c name
  if r.kinds.lookup name = some .serial then .ok h else .error (notOfKind c .serial name)

/-! ### Direct operations -/

def transferMessage (c : Config) (name rest : String) : String :=
  "a serial transfer is in progress on " ++ c.repr name ++ " - " ++ rest

def monitorMessage (c : Config) (name rest : String) : String :=
  "a serial monitor is in progress on " ++ c.repr name ++ " - " ++ rest

def readerMessage (c : Config) (name rest : String) : String :=
  "transport " ++ c.repr name ++ " has a background reader - " ++ rest

/-- The gate of `serial_write`; a reader does not stop a write. -/
def Registry.serialWrite (c : Config) (r : Registry) (name : String) : Except Refusal Handle := do
  let h ← orFailed c "write_failed" name (r.getSerial c name)
  refuseIf (name ∈ r.transfers) (refused "write_refused" name "serial transfer in progress" .runtimeError
    (transferMessage c name "serial_write would corrupt the staged exchange"))
  refuseIf (name ∈ r.monitors) (refused "write_refused" name "serial monitor in progress" .runtimeError
    (monitorMessage c name "serial_write would interleave with the captured stream"))
  return h

/-- The gate of a direct read; `op` is `read` or `read_line`. -/
def Registry.directRead (op : String) (c : Config) (r : Registry) (name : String) : Except Refusal Handle := do
  refuseIf (name ∈ r.readers) (refused (op ++ "_refused") name "background reader attached" .runtimeError
    (readerMessage c name
      "use serial_tail/serial_read_until (a direct read would race the reader for bytes)"))
  refuseIf (name ∈ r.transfers) (refused (op ++ "_refused") name "serial transfer in progress" .runtimeError
    (transferMessage c name ("serial_" ++ op ++ " would steal the exchange's answer bytes")))
  refuseIf (name ∈ r.monitors) (refused (op ++ "_refused") name "serial monitor in progress" .runtimeError
    (monitorMessage c name ("serial_" ++ op ++ " would steal the captured bytes")))
  orFailed c (op ++ "_failed") name (r.getSerial c name)

def Registry.serialRead (c : Config) (r : Registry) (name : String) : Except Refusal Handle :=
  r.directRead "read" c name

def Registry.serialReadLine (c : Config) (r : Registry) (name : String) : Except Refusal Handle :=
  r.directRead "read_line" c name

/-! ### Transfers and monitors -/

/-- The gate of a transfer; `op` is `put` or `get`.  The kind of the transport is not looked at. -/
def Registry.transferGate (op : String) (c : Config) (r : Registry) (name : String) : Except Refusal Handle := do
  refuseIf (name ∈ r.readers) (refused (op ++ "_refused") name "background reader attached" .runtimeError
    (readerMessage c name ("stop it before serial_" ++ op ++ " (the transfer reads the board's answers)")))
  let h ← orFailed c (op ++ "_failed") name (r.get c name)
  refuseIf (name ∈ r.transfers) (refused "transfer_refused" name "transfer in progress" .runtimeError
    ("a serial transfer is already in progress on " ++ c.repr name))
  refuseIf (name ∈ r.monitors) (refused (op ++ "_refused") name "serial monitor in progress" .runtimeError
    (monitorMessage c name ("serial_" ++ op ++ " would race it for the board's answers")))
  return h

def Registry.serialPut (c : Config) (r : Registry) (name : String) : Except Refusal Handle :=
  r.transferGate "put" c name

def Registry.serialGet (c : Config) (r : Registry) (name : String) : Except Refusal Handle :=
  r.transferGate "get" c name

/-- The gate of `serial_monitor`. -/
def Registry.serialMonitor (c : Config) (r : Registry) (name : String) : Except Refusal Handle := do
  refuseIf (name ∈ r.readers) (refused "monitor_refused" name "background reader attached" .runtimeError
    (readerMessage c name "stop it before serial_monitor (the two would race for the same bytes)"))
  refuseIf (name ∈ r.transfers) (refused "monitor_refused" name "serial transfer in progress" .runtimeError
    (transferMessage c name "serial_monitor would steal the exchange's answer bytes"))
  refuseIf (name ∈ r.monitors) (refused "monitor_refused" name "serial monitor already in progress" .runtimeError
    ("a serial monitor is already in progress on " ++ c.repr name))
  orFailed c "monitor_failed" name (r.get c name)

/-! ### Readers -/

def notOpenSerial (c : Config) (name : String) : String := "serial transport " ++ c.repr name ++ " is not open"

/-- The gate of `serial_reader_start`, up to the registration. -/
def Registry.serialReaderStart (c : Config) (r : Registry) (name : String) : Except Refusal Handle :=
  match r.serialBase.lookup name with
  | none => .error (failed "reader_start_failed" name (notOpenSerial c name) (notOpenSerial c name))
  | some base => do
    refuseIf (name ∈ r.readers) (refused "reader_start_refused" name "background reader already attached" .keyError
      ("transport " ++ c.repr name ++ " already has a background reader"))
    refuseIf (name ∈ r.transfers) (refused "reader_start_refused" name "serial transfer in progress" .runtimeError
      (transferMessage c name "serial_reader_start would race it for the board's answers"))
    refuseIf (name ∈ r.monitors) (refused "reader_start_refused" name "serial monitor in progress" .runtimeError
      (monitorMessage c name "serial_reader_start would race it for the captured bytes"))
    return base

def noReader (c : Config) (name : String) : String := "transport " ++ c.repr name ++ " has no background reader"

/-- The gate of `serial_reader_stop`. -/
def Registry.serialReaderStop (c : Config) (r : Registry) (name : String) : Except Refusal Handle :=
  match r.readers.lookup name with
  | none => .error (failed "reader_stop_failed" name (noReader c name) (noReader c name))
  | some base => .ok base

/-! ### Opening and closing -/

def alreadyOpen (c : Config) (name : String) : String := "transport " ++ c.repr name ++ " is already open"

/-- `_check_free` -/
def Registry.checkFree (c : Config) (r : Registry) (name : String) : Except Refusal Unit :=
  refuseIf (name ∈ r.transports)
    (refused "open_refused" name (alreadyOpen c name) .keyError (alreadyOpen c name))

/-- `_check_connection_limit` -/
def Registry.checkConnectionLimit (c : Config) (r : Registry) : Except Refusal Unit :=
  match c.maxConnections with
  | none => .ok ()
  | some limit =>
    refuseIf (limit ≤ r.transports.keys.length)
      ⟨some ("policy_violation", [("rule", .str "max_connections"), ("limit", .int limit),
          ("open", .int r.transports.keys.length)]),
        .policyViolation,
        "connection limit reached (" ++ toString r.transports.keys.length ++ "/" ++ toString limit ++
          " via IRONHARNESS_MAX_CONNECTIONS)"⟩

/-- What `serial_open`, `modbus_open` and `mqtt_open` check before they make a transport. -/
def Registry.openGate (c : Config) (r : Registry) (name : String) : Except Refusal Unit := do
  r.checkFree c name
  r.checkConnectionLimit c

/-- The gate of `_close_typed`; the wrong kind is journaled as the message, not as `str` of the KeyError. -/
def Registry.closeTyped (c : Config) (kind : Kind) (r : Registry) (name : String) : Except Refusal Handle := do
  let h ← orFailed c "close_failed" name (r.get c name)
  refuseIf (r.kinds.lookup name ≠ some kind)
    (failed "close_failed" name (notOfKind c kind name) (notOfKind c kind name))
  return h

/-- The gate of `close_transport`. -/
def Registry.closeTransport (c : Config) (r : Registry) (name : String) : Except Refusal Handle :=
  orFailed c "close_failed" name (r.get c name)

/-! ### What the locked sections do to the registries -/

/-- The insertions at the end of an open; only a serial transport has a base. -/
def Registry.insert (r : Registry) (kind : Kind) (name : String) (h : Handle) : Registry :=
  { r with
    transports := r.transports.insert name h
    kinds := r.kinds.insert name kind
    serialBase := if kind = .serial then r.serialBase.insert name h else r.serialBase }

/-- The deletions of a typed close and of `close_transport`, after the reader has been dropped. -/
def Registry.delete (r : Registry) (name : String) : Registry :=
  { r with
    transports := r.transports.erase name
    kinds := r.kinds.erase name
    serialBase := r.serialBase.erase name }

def Registry.addReader (r : Registry) (name : String) (base : Handle) : Registry :=
  { r with readers := r.readers.insert name base }

def Registry.dropReader (r : Registry) (name : String) : Registry := { r with readers := r.readers.erase name }

/-- The two sets a call is in while it uses a transport. -/
inductive Use
  | transfer
  | monitor
  deriving DecidableEq, Repr

def Registry.inUse (r : Registry) : Use → Finset String
  | .transfer => r.transfers
  | .monitor => r.monitors

def Registry.add (r : Registry) (name : String) : Use → Registry
  | .transfer => { r with transfers := Insert.insert name r.transfers }
  | .monitor => { r with monitors := Insert.insert name r.monitors }

def Registry.discard (r : Registry) (name : String) : Use → Registry
  | .transfer => { r with transfers := r.transfers.erase name }
  | .monitor => { r with monitors := r.monitors.erase name }

/-- The locked section of `close`; the two sets are left alone. -/
def Registry.clear (r : Registry) : Registry :=
  { r with transports := ∅, kinds := ∅, serialBase := ∅, readers := ∅ }

/-! ### What the gates let through -/

variable {c : Config} {r : Registry} {name event : String} {h : Handle} {kind : Kind}

private theorem refuseIf_ok {p : Prop} [Decidable p] {e : Refusal} : refuseIf p e = .ok () ↔ ¬ p := by
  unfold refuseIf
  split
  · rename_i hp
    simp [hp]
  · rename_i hp
    simp [hp]

private theorem refuseIf_bind_ok {α : Type} {p : Prop} [Decidable p] {e : Refusal} {f : Unit → Except Refusal α}
    {a : α} :
    (refuseIf p e >>= f) = .ok a ↔ ¬ p ∧ f () = .ok a := by
  by_cases hp : p
  · simp [refuseIf, hp, bind, Except.bind]
  · simp [refuseIf, hp, bind, Except.bind]

theorem orFailed_ok {α : Type} {x : Except String α} {a : α} : orFailed c event name x = .ok a ↔ x = .ok a := by
  cases x with
  | ok b => simp [orFailed]
  | error message => simp [orFailed]

private theorem orFailed_bind_ok {α β : Type} {x : Except String α} {f : α → Except Refusal β} {b : β} :
    (orFailed c event name x >>= f) = .ok b ↔ ∃ a, x = .ok a ∧ f a = .ok b := by
  cases x with
  | ok a => simp [orFailed, bind, Except.bind]
  | error message => simp [orFailed, bind, Except.bind]

private theorem get_ok : r.get c name = .ok h ↔ r.transports.lookup name = some h := by
  unfold Registry.get
  split
  · rename_i h' hlook
    simp [hlook]
  · rename_i hlook
    simp [hlook]

private theorem getSerial_ok :
    r.getSerial c name = .ok h ↔ r.transports.lookup name = some h ∧ r.kinds.lookup name = some .serial := by
  unfold Registry.getSerial
  rw [← get_ok (c := c)]
  cases r.get c name with
  | error message => simp [bind, Except.bind]
  | ok h' =>
    by_cases hkind : r.kinds.lookup name = some .serial
    · simp [bind, Except.bind, hkind]
    · simp [bind, Except.bind, hkind]

theorem serialWrite_ok : r.serialWrite c name = .ok h ↔
    (r.transports.lookup name = some h ∧ r.kinds.lookup name = some .serial) ∧ name ∉ r.transfers ∧
      name ∉ r.monitors := by
  unfold Registry.serialWrite
  rw [orFailed_bind_ok, ← getSerial_ok (c := c)]
  constructor
  · rintro ⟨h', hget, hrest⟩
    obtain ⟨htransfers, hrest⟩ := refuseIf_bind_ok.1 hrest
    obtain ⟨hmonitors, hrest⟩ := refuseIf_bind_ok.1 hrest
    obtain rfl := Except.ok.inj hrest
    exact ⟨hget, htransfers, hmonitors⟩
  · rintro ⟨hget, htransfers, hmonitors⟩
    refine ⟨h, hget, ?_⟩
    rw [refuseIf_bind_ok, refuseIf_bind_ok]
    exact ⟨htransfers, hmonitors, rfl⟩

theorem directRead_ok {op : String} : r.directRead op c name = .ok h ↔
    name ∉ r.readers ∧ name ∉ r.transfers ∧ name ∉ r.monitors ∧
      r.transports.lookup name = some h ∧ r.kinds.lookup name = some .serial := by
  unfold Registry.directRead
  rw [refuseIf_bind_ok, refuseIf_bind_ok, refuseIf_bind_ok, orFailed_ok, getSerial_ok]

theorem transferGate_ok {op : String} : r.transferGate op c name = .ok h ↔
    name ∉ r.readers ∧ r.transports.lookup name = some h ∧ name ∉ r.transfers ∧ name ∉ r.monitors := by
  unfold Registry.transferGate
  rw [refuseIf_bind_ok, orFailed_bind_ok, ← get_ok (c := c)]
  constructor
  · rintro ⟨hreaders, h', hget, hrest⟩
    obtain ⟨htransfers, hrest⟩ := refuseIf_bind_ok.1 hrest
    obtain ⟨hmonitors, hrest⟩ := refuseIf_bind_ok.1 hrest
    obtain rfl := Except.ok.inj hrest
    exact ⟨hreaders, hget, htransfers, hmonitors⟩
  · rintro ⟨hreaders, hget, htransfers, hmonitors⟩
    refine ⟨hreaders, h, hget, ?_⟩
    rw [refuseIf_bind_ok, refuseIf_bind_ok]
    exact ⟨htransfers, hmonitors, rfl⟩

theorem serialMonitor_ok : r.serialMonitor c name = .ok h ↔
    name ∉ r.readers ∧ name ∉ r.transfers ∧ name ∉ r.monitors ∧ r.transports.lookup name = some h := by
  unfold Registry.serialMonitor
  rw [refuseIf_bind_ok, refuseIf_bind_ok, refuseIf_bind_ok, orFailed_ok, get_ok]

theorem serialReaderStart_ok : r.serialReaderStart c name = .ok h ↔
    r.serialBase.lookup name = some h ∧ name ∉ r.readers ∧ name ∉ r.transfers ∧ name ∉ r.monitors := by
  unfold Registry.serialReaderStart
  split
  · rename_i hlook
    simp [hlook]
  · rename_i base hlook
    rw [refuseIf_bind_ok, refuseIf_bind_ok, refuseIf_bind_ok, hlook]
    constructor
    · rintro ⟨hreaders, htransfers, hmonitors, hbase⟩
      obtain rfl := Except.ok.inj hbase
      exact ⟨rfl, hreaders, htransfers, hmonitors⟩
    · rintro ⟨hbase, hreaders, htransfers, hmonitors⟩
      obtain rfl := Option.some.inj hbase
      exact ⟨hreaders, htransfers, hmonitors, rfl⟩

theorem openGate_ok : r.openGate c name = .ok () ↔
    r.transports.lookup name = none ∧ ∀ limit, c.maxConnections = some limit → r.transports.keys.length < limit := by
  unfold Registry.openGate Registry.checkFree Registry.checkConnectionLimit
  rw [refuseIf_bind_ok, AList.lookup_eq_none]
  apply and_congr_right
  intro _
  split
  · rename_i hlimit
    simp [hlimit]
  · rename_i limit hlimit
    rw [refuseIf_ok, hlimit]
    simp

theorem closeTyped_ok : r.closeTyped c kind name = .ok h ↔
    r.transports.lookup name = some h ∧ r.kinds.lookup name = some kind := by
  unfold Registry.closeTyped
  rw [orFailed_bind_ok, ← get_ok (c := c)]
  constructor
  · rintro ⟨h', hget, hrest⟩
    obtain ⟨hkind, hrest⟩ := refuseIf_bind_ok.1 hrest
    obtain rfl := Except.ok.inj hrest
    exact ⟨hget, not_not.1 hkind⟩
  · rintro ⟨hget, hkind⟩
    refine ⟨h, hget, ?_⟩
    rw [refuseIf_bind_ok]
    exact ⟨not_not.2 hkind, rfl⟩

theorem closeTransport_ok : r.closeTransport c name = .ok h ↔ r.transports.lookup name = some h := by
  unfold Registry.closeTransport
  rw [orFailed_ok, get_ok]

end IronHarness.Session
