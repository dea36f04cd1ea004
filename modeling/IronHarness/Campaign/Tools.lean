import IronHarness.Campaign.Coverage

/-!
# The tools arm

The agent calls the tools of the MCP server one after the other; the calls of the journaled tool families are the
declared operations, and the session journals each with the events of its operation.  Few of these have a kind that
is counted, so that the coverage is 1 only when the others make up for them (`coverage_full_iff`).
-/

namespace IronHarness.Campaign

open JsonLines JsonText

variable {F : Type} [JsonFloat F]

/-- The tools of the MCP server. -/
inductive Tool
  | echo | sessionStatus
  | serialList | serialWait | serialOpen | serialWrite | serialRead | serialReadLine | serialClose | serialReset
  | serialPut | serialGet | serialReaderStart | serialReaderStop | serialTail | serialReadUntil | serialMonitor
  | modbusOpen | modbusRead | modbusWrite | modbusClose
  | mqttOpen | mqttPublish | mqttSubscribe | mqttRead | mqttClose
  | espImageInfo | espFlash | espErase
  | fileWrite | fileRead | fileList | fileDelete
  deriving DecidableEq, Repr

def Tool.name : Tool → String
  | .echo => "echo"
  | .sessionStatus => "session_status"
  | .serialList => "serial_list"
  | .serialWait => "serial_wait"
  | .serialOpen => "serial_open"
  | .serialWrite => "serial_write"
  | .serialRead => "serial_read"
  | .serialReadLine => "serial_read_line"
  | .serialClose => "serial_close"
  | .serialReset => "serial_reset"
  | .serialPut => "serial_put"
  | .serialGet => "serial_get"
  | .serialReaderStart => "serial_reader_start"
  | .serialReaderStop => "serial_reader_stop"
  | .serialTail => "serial_tail"
  | .serialReadUntil => "serial_read_until"
  | .serialMonitor => "serial_monitor"
  | .modbusOpen => "modbus_open"
  | .modbusRead => "modbus_read"
  | .modbusWrite => "modbus_write"
  | .modbusClose => "modbus_close"
  | .mqttOpen => "mqtt_open"
  | .mqttPublish => "mqtt_publish"
  | .mqttSubscribe => "mqtt_subscribe"
  | .mqttRead => "mqtt_read"
  | .mqttClose => "mqtt_close"
  | .espImageInfo => "esp_image_info"
  | .espFlash => "esp_flash"
  | .espErase => "esp_erase"
  | .fileWrite => "file_write"
  | .fileRead => "file_read"
  | .fileList => "file_list"
  | .fileDelete => "file_delete"

/-- The kinds of the events that the operation of a tool journals when it succeeds, one list for each way to succeed;
the bytes a transfer or a monitor exchanges are left out. -/
def Tool.successEvents : Tool → List (List String)
  | .echo | .sessionStatus | .serialTail | .serialReadUntil => [[]]
  | .serialList => [["serial_listed"]]
  | .serialWait => [["serial_wait_matched"]]
  | .serialOpen => [["open"]]
  | .serialWrite => [["write"]]
  | .serialRead => [["read"]]
  | .serialReadLine => [["read_line"]]
  | .serialClose => [["close"], ["reader_stop", "close"], ["reader_stop_failed", "close"]]
  | .serialReset => [["reset"], ["reset_failed", "reset"]]
  | .serialPut => [["file_read", "serial_put"]]
  | .serialGet => [["file_write", "serial_get"]]
  | .serialReaderStart => [["reader_start"]]
  | .serialReaderStop => [["reader_stop"], ["reader_stop_failed"]]
  -- a monitor succeeds also where it cannot write its dump
  | .serialMonitor => [["serial_monitor"], ["file_write", "serial_monitor"],
      ["monitor_dump_failed", "serial_monitor"], ["sandbox_violation", "monitor_dump_failed", "serial_monitor"],
      ["quota_denied", "monitor_dump_failed", "serial_monitor"],
      ["file_write_failed", "monitor_dump_failed", "serial_monitor"]]
  | .modbusOpen => [["modbus_open"]]
  | .modbusRead => [["modbus_read"]]
  | .modbusWrite => [["modbus_write"]]
  | .modbusClose => [["modbus_close"]]
  | .mqttOpen => [["mqtt_open"]]
  | .mqttPublish => [["mqtt_publish"]]
  | .mqttSubscribe => [["mqtt_subscribe"]]
  | .mqttRead => [[], ["mqtt_read_timeout"]]
  | .mqttClose => [["mqtt_close"]]
  | .espImageInfo => [["esp_image_info"]]
  | .espFlash => [["esp_flash"]]
  | .espErase => [["esp_erase"]]
  | .fileWrite => [["file_write"]]
  | .fileRead => [["file_read"]]
  | .fileList => [["file_list"]]
  | .fileDelete => [["file_delete"]]

def Tool.isDeclared (t : Tool) : Bool := isJournaledTool t.name

/-- The kinds of the events of exchanged bytes and of the background threads. -/
def wireKinds : List String := ["write", "read", "read_failed", "mqtt_message", "mqtt_disconnect"]

/-- The events of an operation with events of the wire among them. -/
inductive Weave : List String → List String → Prop
  | nil : Weave [] []
  | own {own kinds : List String} (k : String) (h : Weave own kinds) : Weave (k :: own) (k :: kinds)
  | wire {own kinds : List String} (k : String) (hk : k ∈ wireKinds) (h : Weave own kinds) : Weave own (k :: kinds)

/-- A call of a tool with the events journaled meanwhile.  A declared call succeeds; the other tools have no event of
a counted kind, however they end. -/
structure ToolCall (F : Type) where
  tool : Tool
  events : List (Journal.Call F)
  journaled : if tool.isDeclared then ∃ own ∈ tool.successEvents, Weave own (events.map fun e => e.kind)
    else ∀ e ∈ events, e.kind ∉ journaledKinds

def ToolCall.turn (c : ToolCall F) : Turn := .tool c.tool.name

/-- How often the events of a successful call are counted. -/
def Tool.ops : Tool → Nat
  | .serialPut | .espFlash | .espErase | .fileWrite | .fileDelete => 1
  | .serialGet => 2
  | _ => 0

/-- How often the events of this call are counted: a monitor counts when it has written its dump. -/
def ToolCall.ops (c : ToolCall F) : Nat :=
  if c.tool = .serialMonitor ∧ "file_write" ∈ c.events.map fun e => e.kind then 1 else c.tool.ops

/-- The journal of the server. -/
def serverJournal : Journal.Config := ⟨"journal.jsonl", 32 * 1024 * 1024, 5⟩

theorem Weave.count {own kinds : List String} (h : Weave own kinds) :
    kinds.countP journaledKinds.contains = own.countP journaledKinds.contains := by
  induction h with
  | nil => rfl
  | own k _ ih => rw [List.countP_cons, List.countP_cons, ih]
  | wire k hk _ ih =>
    have hnone : journaledKinds.contains k = false := by
      revert k
      decide
    rw [List.countP_cons, hnone, ih]
    rfl

theorem Weave.mem {own kinds : List String} (h : Weave own kinds) {k : String} (hk : k ∉ wireKinds) :
    k ∈ kinds ↔ k ∈ own := by
  induction h with
  | nil => rfl
  | own k' _ ih => rw [List.mem_cons, List.mem_cons, ih]
  | wire k' hk' _ ih =>
    have hne : k ≠ k' := by
      rintro rfl
      exact hk hk'
    rw [List.mem_cons, ih, or_iff_right hne]

private theorem Tool.count_own (t : Tool) : ∀ own ∈ t.successEvents,
    own.countP journaledKinds.contains = if t = .serialMonitor ∧ "file_write" ∈ own then 1 else t.ops := by
  cases t <;> decide

theorem Tool.undeclared {t : Tool} (h : t.isDeclared = false) : t ≠ .serialMonitor ∧ t.ops = 0 := by
  revert h
  cases t <;> decide

omit [JsonFloat F] in
/-- The counted events of a call. -/
private theorem ToolCall.count_events (c : ToolCall F) :
    c.events.countP (fun e => journaledKinds.contains e.kind) = c.ops := by
  have hmap : c.events.countP (fun e => journaledKinds.contains e.kind) =
      (c.events.map fun e => e.kind).countP journaledKinds.contains := by
    rw [List.countP_map]
    rfl
  have hjournaled := c.journaled
  cases hdeclared : c.tool.isDeclared with
  | true =>
    rw [hdeclared, if_pos rfl] at hjournaled
    obtain ⟨own, hown, hweave⟩ := hjournaled
    have hmem : "file_write" ∈ (c.events.map fun e => e.kind) ↔ "file_write" ∈ own := hweave.mem (by decide)
    rw [hmap, hweave.count, c.tool.count_own own hown, ops]
    simp only [hmem]
  | false =>
    rw [hdeclared, if_neg Bool.false_ne_true] at hjournaled
    obtain ⟨hmonitor, hops⟩ := Tool.undeclared hdeclared
    have hnone : c.events.countP (fun e => journaledKinds.contains e.kind) = 0 := by
      rw [List.countP_eq_zero]
      intro e he
      simpa using hjournaled e he
    rw [hnone, ops, if_neg (fun h => hmonitor h.1), hops]

omit [JsonFloat F] in
private theorem sum_ops (calls : List (ToolCall F)) :
    (calls.flatMap fun c => c.events).countP (fun e => journaledKinds.contains e.kind) =
      (calls.map ToolCall.ops).sum := by
  induction calls with
  | nil => rfl
  | cons c calls ih => rw [List.flatMap_cons, List.countP_append, ih, c.count_events, List.map_cons, List.sum_cons]

/-- After any calls the coverage is 1 exactly when at least one was declared and the live journal file of the server
holds as many counted events as were declared; while the journal is intact these are the `ops` of the calls. -/
theorem coverage_full_iff (calls : List (ToolCall F)) :
    ((journalCoverage F (countToolOps (calls.map ToolCall.turn))
        [Journal.liveFile serverJournal "mcp" (calls.flatMap fun c => c.events)]).1 = some 1 ↔
      0 < countToolOps (calls.map ToolCall.turn) ∧ countToolOps (calls.map ToolCall.turn) ≤
        (Journal.liveEvents serverJournal "mcp" (calls.flatMap fun c => c.events)).countP isCounted) ∧
    (Intact serverJournal "mcp" (calls.flatMap fun c => c.events) →
      (Journal.liveEvents serverJournal "mcp" (calls.flatMap fun c => c.events)).countP isCounted =
        (calls.map ToolCall.ops).sum) := by
  constructor
  · rw [coverage_eq_one, Journal.liveFile_eq, ops_eventBytes]
  · intro hintact
    rw [hintact.count, sum_ops]

/-- A call of serial_open that succeeds. -/
def openCall : ToolCall LitFloat where
  tool := .serialOpen
  events := [⟨"open", ⟨[("port", .str "COM3"), ("baudrate", .int 115200), ("conn", .str "dev")], by decide, by
      simp [Value.keysNodup, Value.keysNodup.fieldsNodup]⟩, Journal.tick.ts, Journal.tick.ts⟩]
  journaled := ⟨["open"], List.mem_singleton.2 rfl, .own _ .nil⟩

theorem open_call_uncovered :
    (journalCoverage LitFloat (countToolOps ([openCall].map ToolCall.turn))
      [Journal.liveFile serverJournal "mcp" ([openCall].flatMap fun c => c.events)]).1 ≠ some 1 := by
  have hnone : (Journal.liveEvents serverJournal "mcp" ([openCall].flatMap fun c => c.events)).countP isCounted = 0 := rfl
  rw [Ne, coverage_eq_one, Journal.liveFile_eq, ops_eventBytes, hnone]
  decide

end IronHarness.Campaign
