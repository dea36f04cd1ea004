import IronHarness.Journal.Locks
import IronHarness.Lib.Bytes
import IronHarness.Lib.JsonLines
import IronHarness.Lib.Traced

/-!
# Flashing from a session

`esp_image_info`, `esp_flash` and `esp_erase` of `Session` (io_core/session.py) over `EspFlasher`
(io_core/esp_flash.py).  Whatever esptool and the operating system do, a call leaves one event at most and the event says
how the call ended; and a board is touched only by a call that is opted in to and names a local port, in the order of the
protocol, with the port closed behind it (`esp_calls_are_told`).
-/

namespace IronHarness.Session.Esp

open JsonLines (Fields)
open JsonText (Value)

/-! ### Local ports -/

/-- What is behind the front of a text, upper and lower case being the same. -/
def behind (front : String) (text : List Char) : Option (List Char) :=
  if (text.take front.length).map Char.toLower = front.toList.map Char.toLower then some (text.drop front.length)
  else none

/-- `\d+` -/
def isNumber (text : List Char) : Bool := !text.isEmpty && text.all Journal.isDecimal

/-- `\S*` -/
def isWord (text : List Char) : Bool := text.all fun c => !TextLines.isSpace c

def isComPort (text : List Char) : Bool := (behind "COM" text).any isNumber

def isDevPort (text : List Char) : Bool :=
  ("/dev/tty".toList.isPrefixOf text && isWord (text.drop 8)) ||
    ("/dev/pts/".toList.isPrefixOf text && isNumber (text.drop 9))

def isLoopPort (text : List Char) : Bool := (behind "loop://" text).any isWord || (behind "pty://" text).any isWord

/-- `_port_allowed`; `windows` is the platform. -/
def portAllowed (windows : Bool) (port : String) : Bool :=
  if port.toList.contains '\\' || (ByteText.find "..".toList port.toList).isSome then false
  else if isComPort port.toList then windows
  else if isDevPort port.toList then !windows
  else isLoopPort port.toList

/-! ### What is outside -/

/-- What esptool or the operating system raises. -/
structure Fault where
  isException : Bool
  isImportError : Bool
  text : String
  caught : isImportError = true → isException = true

inductive Exn
  | transportClosed
  | policyViolation (text : String)
  | permissionError (text : String)
  | valueError (text : String)
  | fileNotFound (text : String)
  | importError (text : String)
  | connectionError (text : String)
  | outside (f : Fault)

def Exn.isException : Exn → Bool
  | .outside f => f.isException
  | _ => true

def Exn.isImportError : Exn → Bool
  | .importError _ => true
  | .outside f => f.isImportError
  | _ => false

/-- `str(e)` -/
def Exn.text : Exn → String
  | .transportClosed => "session is closed - create a new Session"
  | .policyViolation text | .permissionError text | .valueError text | .fileNotFound text | .importError text
  | .connectionError text => text
  | .outside f => f.text

/-- The calls of esptool that talk to a board. -/
inductive Touch
  | connect (port chip : String)
  | runStub
  | changeBaud (baud : Int)
  | attachFlash
  | writeFlash (addr : Int) (path : String)
  | eraseFlash
  | closePort
  deriving DecidableEq

/-- What a call leaves: events of the journal, files it has looked at, and what it has done to a board. -/
inductive Mark (F : Type)
  | event (kind : String) (data : Fields F)
  | look (path : String)
  | touch (t : Touch)

variable {F : Type}

abbrev Program (F : Type) := Traced Exn (Mark F)

/-- The session, the environment variables and everything that a call asks the system or esptool. -/
structure World (F : Type) where
  isOpen : Bool
  /-- `AccessPolicy.from_env` -/
  fromEnv : Except Fault Unit
  enabled : Bool
  /-- `IRONHARNESS_ALLOW_REAL_FLASH` -/
  realFlash : Option String
  windows : Bool
  root : Except Fault String
  isAbsolute : String → Bool
  join : String → String → String
  resolve : String → Except Fault String
  normcase : String → String
  sep : String
  isFile : String → Except Fault Bool
  esptool : Bool
  image : String → String → Except Fault (Fields F)
  touch : Touch → Except Fault Unit
  fileName : String → String
  hex : Int → String
  repr : String → String

section

variable {α : Type}

def call (reply : Except Fault α) : Program F α :=
  match reply with
  | .ok a => pure a
  | .error f => Traced.raise (.outside f)

/-- What the system says of a file. -/
def look (path : String) (reply : Except Fault α) : Program F α := ⟨reply.mapError .outside, [.look path]⟩

def journal (kind : String) (data : Fields F) : Program F Unit := Traced.emit (.event kind data)

/-- Journals and raises. -/
def deny (kind : String) (data : Fields F) (e : Exn) : Program F α := ⟨.error e, [.event kind data]⟩

end

/-! ### The gates -/

namespace World

variable (w : World F)

def checkOpen : Program F Unit := if w.isOpen then pure () else Traced.raise .transportClosed

def checkKind : Program F Unit := do
  call w.fromEnv
  if w.enabled then pure ()
  else
    deny "policy_violation" [("rule", .str "enabled_kinds"), ("transport", .str "esp")]
      (.policyViolation "transport kind 'esp' is disabled by IRONHARNESS_ENABLED_KINDS")

/-- The path is the root of the sandbox or below it. -/
def inside (root path : String) : Bool :=
  w.normcase path = w.normcase root || (w.normcase root ++ w.sep).toList.isPrefixOf (w.normcase path).toList

def optedIn : Bool := w.realFlash = some "1"

/-- `_esp_sandbox_path` -/
def espSandboxPath (op path : String) : Program F String := do
  let root ← call w.root
  let path ← call (w.resolve (if w.isAbsolute path then path else w.join root path))
  if w.inside root path || w.optedIn then pure path
  else
    deny "esp_denied"
      [("op", .str op), ("path", .str path),
        ("error", .str "path is outside the sandbox (set IRONHARNESS_ALLOW_REAL_FLASH=1 to lift)")]
      (.policyViolation ("esp_" ++ op ++ " touches only files inside the sandbox: " ++ w.repr path ++
        " is outside (set IRONHARNESS_ALLOW_REAL_FLASH=1 to lift)"))

/-- `esp_denied` for an operation on a port. -/
def denied (op port error : String) (e : String → Exn) : Program F Unit :=
  deny "esp_denied" [("op", .str op), ("port", .str port), ("error", .str error)] (e error)

def requireRealFlashAllowed (op port : String) : Program F Unit :=
  if w.optedIn then pure ()
  else
    denied op port
      "IRONHARNESS_ALLOW_REAL_FLASH=1 is required for live flash/erase — these operations modify real hardware"
      .permissionError

def requireLocalPort (op port : String) : Program F Unit :=
  if portAllowed w.windows port then pure ()
  else
    denied op port
      ("only local ports (COM*, /dev/*, loop://, pty://) can be flashed — " ++ w.repr port ++
        " is a non-local serial URL")
      .valueError

/-! ### The operations -/

def requireEsptool : Program F Unit :=
  if w.esptool then pure ()
  else
    Traced.raise (.importError
      "esptool is not installed — flashing tools need the [flash] extra: pip install 'ironharness[flash]'")

def perform (t : Touch) : Program F Unit := ⟨(w.touch t).mapError .outside, [.touch t]⟩

/-- `with connect_esp(...) as esp`: the port is closed whatever comes of the operation. -/
def operate (port : String) (baud : Int) (operation : Touch) : Program F Unit := do
  w.requireEsptool
  w.perform (.connect port "esp32")
  Traced.tryFinally (do
    w.perform .runStub
    w.perform (.changeBaud baud)
    w.perform .attachFlash
    w.perform operation) (w.perform .closePort)

/-- What `flash` and `erase` have in common: the operation and how its end is journaled. -/
def live (kind verb port : String) (data : Fields F) (operation : Program F Unit) (text : String) : Program F String :=
  operation.tryExcept Exn.isException
    (fun e =>
      if e.isImportError then
        deny (kind ++ "_failed") (data ++ [("error", .str "esptool is not installed ([flash] extra)")]) e
      else
        deny (kind ++ "_failed") (data ++ [("error", .str e.text)])
          (.connectionError ("esp " ++ port ++ ": failed to " ++ verb ++ " (" ++ e.text ++ ")")))
    (fun _ => do
      journal kind data
      pure text)

/-- `EspFlasher.flash` -/
def flash (port path : String) (addr baud : Int) : Program F String := do
  w.requireRealFlashAllowed "flash" port
  w.requireLocalPort "flash" port
  let data : Fields F := [("port", .str port), ("addr", .int addr), ("baud", .int baud), ("path", .str path)]
  let found ← look path (w.isFile path)
  if found then
    live "esp_flash" "flash" port data (w.operate port baud (.writeFlash addr path))
      ("ok: " ++ w.fileName path ++ " flashed at 0x" ++ w.hex addr ++ " (" ++ port ++ ")")
  else
    deny "esp_flash_failed" (data ++ [("error", .str ("image not found: " ++ path))])
      (.fileNotFound ("image not found: " ++ path))

/-- `EspFlasher.erase` -/
def erase (port : String) (baud : Int) : Program F String := do
  w.requireRealFlashAllowed "erase" port
  w.requireLocalPort "erase" port
  live "esp_erase" "erase" port [("port", .str port), ("baud", .int baud)] (w.operate port baud .eraseFlash)
    ("ok: flash erased (" ++ port ++ ")")

/-- `EspFlasher.image_info` -/
def imageInfo (path chip : String) : Program F (Fields F) := do
  let found ← look path (w.isFile path)
  if found then
    Traced.tryExcept (do
      w.requireEsptool
      look path (w.image chip path)) Exn.isException
      (fun e => deny "esp_image_info_failed" [("path", .str path), ("error", .str e.text)] e)
      (fun info => do
        journal "esp_image_info" info
        pure info)
  else
    deny "esp_image_info_failed" [("path", .str path), ("error", .str ("image not found: " ++ path))]
      (.fileNotFound ("image not found: " ++ path))

/-! ### The calls of a session -/

def espImageInfo (path chip : String) : Program F (Fields F) := do
  w.checkOpen
  w.checkKind
  let path ← w.espSandboxPath "image_info" path
  w.imageInfo path chip

def espFlash (port path : String) (addr baud : Int) : Program F String := do
  w.checkOpen
  w.checkKind
  let path ← w.espSandboxPath "flash" path
  w.flash port path addr baud

def espErase (port : String) (baud : Int) : Program F String := do
  w.checkOpen
  w.checkKind
  w.erase port baud

end World

inductive EspCall
  | imageInfo (path chip : String)
  | flash (port path : String) (addr baud : Int)
  | erase (port : String) (baud : Int)

inductive Reply (F : Type)
  | info (fields : Fields F)
  | text (text : String)

def World.answer (w : World F) : EspCall → Program F (Reply F)
  | .imageInfo path chip => do
    let fields ← w.espImageInfo path chip
    pure (.info fields)
  | .flash port path addr baud => do
    let text ← w.espFlash port path addr baud
    pure (.text text)
  | .erase port baud => do
    let text ← w.espErase port baud
    pure (.text text)

/-! ### What a call leaves -/

def Mark.event? : Mark F → Option (String × Fields F)
  | .event kind data => some (kind, data)
  | _ => none

def Mark.touch? : Mark F → Option Touch
  | .touch t => some t
  | _ => none

def Mark.look? : Mark F → Option String
  | .look path => some path
  | _ => none

section

variable {α β γ : Type}

def seen (mark : Mark F → Option γ) (x : Program F α) : List γ := x.trace.filterMap mark

def events (x : Program F α) : List (String × Fields F) := seen Mark.event? x

def touches (x : Program F α) : List Touch := seen Mark.touch? x

def looks (x : Program F α) : List String := seen Mark.look? x

/-- How a call ends. -/
inductive Told
  | done
  | denied
  | failed
  deriving DecidableEq

/-- What an event says. -/
def told (kind : String) : Told :=
  if kind ∈ ["esp_image_info", "esp_flash", "esp_erase"] then .done
  else if kind ∈ ["policy_violation", "esp_denied"] then .denied
  else .failed

def outcome : Except Exn α → Told
  | .ok _ => .done
  | .error (.policyViolation _) | .error (.permissionError _) | .error (.valueError _) => .denied
  | .error _ => .failed

/-- The program leaves one event at most, which says how it ends, and one where the world is tame. -/
structure Answers (tame : Prop) (x : Program F α) : Prop where
  most : (events x).length ≤ 1
  told : ∀ e ∈ events x, told e.1 = outcome x.result
  one : tame → (events x).length = 1

variable {mark : Mark F → Option γ} {tame : Prop} {x : Program F α} {f : α → Program F β} {e : Exn} {kind : String}
  {data : Fields F}

theorem seen_append (x : Program F α) (y : Program F β) :
    seen mark (⟨y.result, x.trace ++ y.trace⟩ : Program F β) = seen mark x ++ seen mark y := List.filterMap_append ..

private theorem result_bind_ok {b : β} (h : (x >>= f).result = .ok b) :
    ∃ a, x.result = .ok a ∧ (f a).result = .ok b := by
  rcases Traced.result_bind.1 h with hok | ⟨e, -, he⟩
  · exact hok
  · cases he

/-- A program in front that leaves nothing of the kind either ends the whole or can be taken off. -/
private theorem seen_bind (hx : seen mark x = []) :
    (∃ a, x.result = .ok a ∧ (x >>= f).result = (f a).result ∧ seen mark (x >>= f) = seen mark (f a)) ∨
      ∃ e, x.result = .error e ∧ (x >>= f).result = .error e ∧ seen mark (x >>= f) = [] := by
  cases ha : x.result with
  | ok a =>
    rw [Traced.bind_ok ha, seen_append, hx]
    exact Or.inl ⟨a, rfl, rfl, List.nil_append _⟩
  | error e =>
    rw [Traced.bind_error ha]
    exact Or.inr ⟨e, rfl, rfl, hx⟩

private theorem seen_call (reply : Except Fault α) : seen mark (call reply) = [] := by
  cases reply <;> rfl

private theorem call_ok {reply : Except Fault α} {a : α} (h : (call reply : Program F α).result = .ok a) :
    reply = .ok a := by
  cases reply with
  | ok b => exact congrArg Except.ok (Except.ok.inj h)
  | error fault => cases h

/-- A gate that lets pass or journals and raises. -/
theorem gate_ok {c : Bool} {a b : α} (h : (if c then pure a else deny kind data e : Program F α).result = .ok b) :
    c = true ∧ b = a := by
  cases c with
  | true => exact ⟨rfl, (Except.ok.inj h).symm⟩
  | false => cases h

private theorem seen_gate {c : Bool} {a : α} (hmark : mark (.event kind data) = none) :
    seen mark (if c then pure a else deny kind data e : Program F α) = [] := by
  cases c with
  | true => rfl
  | false => simp [seen, deny, hmark]

private theorem answers_deny (h : told kind = outcome (.error e : Except Exn α)) :
    Answers tame (deny kind data e : Program F α) := by
  refine ⟨Nat.le_refl 1, ?_, fun _ => rfl⟩
  intro event hevent
  obtain rfl := List.mem_singleton.1 hevent
  exact h

private theorem answers_raise (h : ¬ tame) : Answers tame (Traced.raise e : Program F α) :=
  ⟨Nat.zero_le 1, fun _ hevent => absurd hevent List.not_mem_nil, fun ht => absurd ht h⟩

private theorem answers_bind (hx : events x = []) (herror : tame → ∃ a, x.result = .ok a)
    (hf : ∀ a, Answers tame (f a)) :
    Answers tame (x >>= f) := by
  rcases seen_bind hx with ⟨a, -, hresult, hevents⟩ | ⟨e, he, -, hevents⟩
  · refine ⟨?_, ?_, ?_⟩
    · exact (congrArg List.length hevents).trans_le (hf a).most
    · intro event hevent
      rw [events, hevents] at hevent
      rw [hresult]
      exact (hf a).told event hevent
    · intro ht
      exact (congrArg List.length hevents).trans ((hf a).one ht)
  · refine ⟨?_, ?_, ?_⟩
    · rw [events, hevents]
      exact Nat.zero_le 1
    · intro event hevent
      rw [events, hevents] at hevent
      exact absurd hevent List.not_mem_nil
    · intro ht
      obtain ⟨a, ha⟩ := herror ht
      rw [he] at ha
      cases ha

private theorem answers_call {reply : Except Fault α} (hreply : tame → ∃ a, reply = .ok a)
    (hf : ∀ a, Answers tame (f a)) : Answers tame (call reply >>= f) := by
  apply answers_bind (seen_call reply) _ hf
  intro ht
  obtain ⟨a, rfl⟩ := hreply ht
  exact ⟨a, rfl⟩

private theorem answers_look {path : String} {reply : Except Fault α} (hreply : tame → ∃ a, reply = .ok a)
    (hf : ∀ a, Answers tame (f a)) : Answers tame (look path reply >>= f) := by
  apply answers_bind rfl _ hf
  intro ht
  obtain ⟨a, rfl⟩ := hreply ht
  exact ⟨a, rfl⟩

private theorem answers_gate {c : Bool} {a : α} (hdenial : told kind = .denied)
    (he : outcome (.error e : Except Exn β) = .denied) (hf : Answers tame (f a)) :
    Answers tame ((if c then pure a else deny kind data e) >>= f) := by
  cases c with
  | true => exact hf
  | false => exact answers_deny (hdenial.trans he.symm)

theorem Answers.after {y : Program F β} (h : Answers tame y) (hx : events x = []) :
    Answers tame (⟨y.result, x.trace ++ y.trace⟩ : Program F β) := by
  have hevents : events (⟨y.result, x.trace ++ y.trace⟩ : Program F β) = events y := by
    rw [events, seen_append, ← events, hx, List.nil_append]
    rfl
  refine ⟨?_, ?_, ?_⟩
  · rw [hevents]
    exact h.most
  · rw [hevents]
    exact h.told
  · rw [hevents]
    exact h.one

private theorem answers_tryExcept {handler : Exn → Program F β} {rest : α → Program F β} (hx : events x = [])
    (herror : ∀ e, x.result = .error e → (tame → e.isException = true) ∧ Answers tame (handler e))
    (hrest : ∀ a, Answers tame (rest a)) : Answers tame (x.tryExcept Exn.isException handler rest) := by
  cases hresult : x.result with
  | ok a =>
    rw [Traced.tryExcept_ok hresult]
    exact (hrest a).after hx
  | error e =>
    obtain ⟨htame, hhandler⟩ := herror e hresult
    cases hcatch : e.isException with
    | true =>
      rw [Traced.tryExcept_caught hresult hcatch]
      exact hhandler.after hx
    | false =>
      rw [Traced.tryExcept_raised hresult hcatch]
      have hnot : ¬ tame := by
        intro ht
        rw [htame ht] at hcatch
        cases hcatch
      have hraise : Answers tame (Traced.raise e : Program F β) := answers_raise hnot
      have hafter := hraise.after hx
      rwa [Traced.trace_raise, List.append_nil] at hafter

private theorem trace_map (x : Program F α) (g : α → β) : (x >>= fun a => pure (g a)).trace = x.trace := by
  cases hx : x.result with
  | ok a =>
    rw [Traced.bind_ok hx]
    exact List.append_nil _
  | error e => rw [Traced.bind_error hx]

private theorem answers_map (h : Answers tame x) (g : α → β) : Answers tame (x >>= fun a => pure (g a)) := by
  have houtcome : outcome (x >>= fun a => (pure (g a) : Program F β)).result = outcome x.result := by
    cases hx : x.result with
    | ok a =>
      rw [Traced.bind_ok hx]
      rfl
    | error e =>
      rw [Traced.bind_error hx]
      cases e <;> rfl
  have hevents : events (x >>= fun a => (pure (g a) : Program F β)) = events x :=
    congrArg (List.filterMap Mark.event?) (trace_map x g)
  refine ⟨?_, ?_, ?_⟩
  · rw [hevents]
    exact h.most
  · rw [hevents, houtcome]
    exact h.told
  · rw [hevents]
    exact h.one

end

/-! ### What is done to a board -/

namespace World

variable (w : World F)

/-- The steps up to the first that raises. -/
def upto : List Touch → List Touch
  | [] => []
  | t :: rest =>
    match w.touch t with
    | .ok _ => t :: upto rest
    | .error _ => [t]

def steps (baud : Int) (operation : Touch) : List Touch := [.runStub, .changeBaud baud, .attachFlash, operation]

/-- What is done over a connection: nothing where none is made, and closed at the end where one is. -/
def conversation (port : String) (baud : Int) (operation : Touch) : List Touch :=
  match w.touch (.connect port "esp32") with
  | .ok _ => .connect port "esp32" :: (w.upto (steps baud operation) ++ [.closePort])
  | .error _ => [.connect port "esp32"]

/-- What stands outside of the `try` of a call, the policy, the sandbox root, the path and `is_file`, answers; the image reader
and esptool answer or raise an `Exception`. -/
structure Tame : Prop where
  fromEnv : ∃ u, w.fromEnv = .ok u
  root : ∃ root, w.root = .ok root
  resolve : ∀ path, ∃ resolved, w.resolve path = .ok resolved
  isFile : ∀ path, ∃ found, w.isFile path = .ok found
  image : ∀ {chip path f}, w.image chip path = .error f → f.isException = true
  touch : ∀ {t f}, w.touch t = .error f → f.isException = true

variable {w} {port verb kind text : String} {baud : Int} {operation : Touch} {e : Exn}

/-- What an operation raises: esptool is not there, or it has raised. -/
def Raised (w : World F) (e : Exn) : Prop :=
  (∃ text, e = .importError text) ∨ ∃ t f, w.touch t = .error f ∧ e = .outside f

private theorem perform_error {t : Touch} (h : (w.perform t).result = .error e) : w.Raised e := by
  have hresult : (w.touch t).mapError Exn.outside = .error e := h
  cases ht : w.touch t with
  | ok u =>
    rw [ht] at hresult
    cases hresult
  | error f =>
    rw [ht] at hresult
    cases hresult
    exact Or.inr ⟨t, f, ht, rfl⟩

private theorem perform_ok {t : Touch} {u : Unit} (h : (w.perform t).result = .ok u) : w.touch t = .ok () := by
  have hresult : (w.touch t).mapError Exn.outside = .ok u := h
  cases ht : w.touch t with
  | ok u => rfl
  | error f =>
    rw [ht] at hresult
    cases hresult

def performAll (w : World F) (ts : List Touch) : Program F Unit := ts.forM w.perform

private theorem performAll_trace (w : World F) (ts : List Touch) :
    (w.performAll ts).trace = (w.upto ts).map Mark.touch := by
  induction ts with
  | nil => rfl
  | cons t rest ih =>
    show (w.perform t >>= fun _ => w.performAll rest).trace = _
    cases ht : w.touch t with
    | ok u =>
      have hresult : (w.perform t).result = .ok u := by
        show (w.touch t).mapError Exn.outside = _
        rw [ht]
        rfl
      rw [Traced.bind_ok hresult]
      simp [perform, upto, ht, ih]
    | error f =>
      have hresult : (w.perform t).result = .error (.outside f) := by
        show (w.touch t).mapError Exn.outside = _
        rw [ht]
        rfl
      rw [Traced.bind_error hresult]
      simp [perform, upto, ht]

private theorem performAll_error {ts : List Touch} (h : (w.performAll ts).result = .error e) : w.Raised e := by
  induction ts with
  | nil => cases h
  | cons t rest ih =>
    rcases Traced.result_bind.1 h with ⟨u, -, hrest⟩ | ⟨raised, ht, heq⟩
    · exact ih hrest
    · cases heq
      exact perform_error ht

private theorem performAll_ok {ts : List Touch} {u : Unit} (h : (w.performAll ts).result = .ok u) :
    (∀ t ∈ ts, w.touch t = .ok ()) ∧ w.upto ts = ts := by
  induction ts with
  | nil => exact ⟨fun t ht => absurd ht List.not_mem_nil, rfl⟩
  | cons t rest ih =>
    obtain ⟨_, ht, hrest⟩ := result_bind_ok h
    have htouch := perform_ok ht
    obtain ⟨hall, hupto⟩ := ih hrest
    refine ⟨List.forall_mem_cons.2 ⟨htouch, hall⟩, ?_⟩
    show (match w.touch t with | .ok _ => t :: w.upto rest | .error _ => [t]) = _
    rw [htouch, hupto]

private theorem operate_eq (w : World F) (port : String) (baud : Int) (operation : Touch) :
    w.operate port baud operation =
      w.requireEsptool >>= fun _ =>
        w.perform (.connect port "esp32") >>= fun _ =>
          Traced.tryFinally (w.performAll (steps baud operation)) (w.perform .closePort) := by
  have hlast : (w.perform operation >>= fun _ => (pure () : Program F Unit)) = w.perform operation := by
    exact bind_pure_unit
  show _ = w.requireEsptool >>= fun _ =>
    w.perform (.connect port "esp32") >>= fun _ =>
      Traced.tryFinally (w.perform .runStub >>= fun _ =>
        w.perform (.changeBaud baud) >>= fun _ =>
          w.perform .attachFlash >>= fun _ => w.perform operation >>= fun _ => pure ()) (w.perform .closePort)
  rw [hlast]
  rfl

private theorem operate_trace (w : World F) (port : String) (baud : Int) (operation : Touch) :
    (w.operate port baud operation).trace =
      (if w.esptool then w.conversation port baud operation else []).map Mark.touch := by
  rw [operate_eq]
  by_cases htool : w.esptool = true
  · have hrequire : w.requireEsptool = (pure () : Program F Unit) := if_pos htool
    rw [hrequire, pure_bind, if_pos htool]
    unfold conversation
    cases hconnect : w.touch (.connect port "esp32") with
    | error f =>
      have hresult : (w.perform (.connect port "esp32")).result = .error (.outside f) := by
        show (w.touch _).mapError Exn.outside = _
        rw [hconnect]
        rfl
      rw [Traced.bind_error hresult]
      rfl
    | ok u =>
      have hresult : (w.perform (.connect port "esp32")).result = .ok u := by
        show (w.touch _).mapError Exn.outside = _
        rw [hconnect]
        rfl
      have hclose : ∀ x : Program F Unit,
          (x.tryFinally (w.perform .closePort)).trace = x.trace ++ [Mark.touch .closePort] := by
        intro x
        unfold Traced.tryFinally
        split <;> rfl
      rw [Traced.bind_ok hresult, hclose, performAll_trace]
      simp [perform]
  · have hrequire : w.requireEsptool = (Traced.raise _ : Program F Unit) := if_neg htool
    rw [hrequire, Traced.raise_bind, if_neg htool]
    rfl

private theorem operate_error (h : (w.operate port baud operation).result = .error e) : w.Raised e := by
  rw [operate_eq] at h
  rcases Traced.result_bind.1 h with ⟨_, -, hconnected⟩ | ⟨raised, hrequire, heq⟩
  · rcases Traced.result_bind.1 hconnected with ⟨_, -, hfinally⟩ | ⟨raised, hconnect, heq⟩
    · unfold Traced.tryFinally at hfinally
      split at hfinally
      · exact performAll_error hfinally
      · rename_i raised hclose
        cases hfinally
        exact perform_error hclose
    · cases heq
      exact perform_error hconnect
  · cases heq
    unfold requireEsptool at hrequire
    split at hrequire
    · cases hrequire
    · cases hrequire
      exact Or.inl ⟨_, rfl⟩

private theorem operate_ok {u : Unit} (h : (w.operate port baud operation).result = .ok u) :
    w.esptool = true ∧
      w.conversation port baud operation = .connect port "esp32" :: (steps baud operation ++ [.closePort]) ∧
      ∀ t ∈ w.conversation port baud operation, w.touch t = .ok () := by
  rw [operate_eq] at h
  obtain ⟨_, hrequire, hconnected⟩ := result_bind_ok h
  obtain ⟨_, hconnect, hfinally⟩ := result_bind_ok hconnected
  have htool : w.esptool = true := by
    by_contra hnot
    rw [requireEsptool, if_neg hnot] at hrequire
    cases hrequire
  have htouch := perform_ok hconnect
  unfold Traced.tryFinally at hfinally
  split at hfinally
  · rename_i _ hclose
    obtain ⟨hall, hupto⟩ := performAll_ok hfinally
    have hwhole : w.conversation port baud operation =
        .connect port "esp32" :: (steps baud operation ++ [.closePort]) := by
      unfold conversation
      rw [htouch, hupto]
    refine ⟨htool, hwhole, ?_⟩
    rw [hwhole]
    intro t ht
    rcases List.mem_cons.1 ht with rfl | ht
    · exact htouch
    · rcases List.mem_append.1 ht with ht | ht
      · exact hall t ht
      · obtain rfl := List.mem_singleton.1 ht
        exact perform_ok hclose
  · cases hfinally

/-! ### What the journal is told -/

private theorem outcome_raised {α : Type} (h : w.Raised e) : outcome (.error e : Except Exn α) = .failed := by
  rcases h with ⟨text, rfl⟩ | ⟨t, f, -, rfl⟩ <;> rfl

private theorem Tame.exception (h : w.Tame) (he : w.Raised e) : e.isException = true := by
  rcases he with ⟨text, rfl⟩ | ⟨t, f, ht, rfl⟩
  · rfl
  · exact h.touch ht

section

variable {tame : Prop} {α β : Type} {data : Fields F}

private theorem answers_live (htame : tame → w.Tame) (hdone : told kind = .done)
    (hfailed : told (kind ++ "_failed") = .failed) :
    Answers tame (live kind verb port data (w.operate port baud operation) text) := by
  have hquiet : events (w.operate port baud operation) = [] := by
    show List.filterMap Mark.event? _ = []
    rw [operate_trace, List.filterMap_map]
    exact List.filterMap_eq_nil_iff.2 fun _ _ => rfl
  apply answers_tryExcept hquiet
  · intro e he
    have hraised := operate_error he
    refine ⟨fun ht => (htame ht).exception hraised, ?_⟩
    by_cases himport : e.isImportError = true
    · rw [if_pos himport]
      exact answers_deny (hfailed.trans (outcome_raised hraised).symm)
    · rw [if_neg himport]
      exact answers_deny hfailed
  · intro _
    refine ⟨Nat.le_refl 1, ?_, fun _ => rfl⟩
    intro event hevent
    obtain rfl := List.mem_singleton.1 hevent
    exact hdone

private theorem answers_checkOpen {f : Unit → Program F β} (hopen : tame → w.isOpen = true) (hf : Answers tame (f ())) :
    Answers tame (w.checkOpen >>= f) := by
  unfold checkOpen
  by_cases h : w.isOpen = true
  · rw [if_pos h]
    exact hf
  · rw [if_neg h]
    exact answers_raise fun ht => h (hopen ht)

private theorem answers_checkKind {f : Unit → Program F β} (htame : tame → w.Tame) (hf : Answers tame (f ())) :
    Answers tame (w.checkKind >>= f) := by
  unfold checkKind
  rw [bind_assoc]
  apply answers_call fun ht => (htame ht).fromEnv
  intro _
  exact answers_gate (by decide) rfl hf

private theorem answers_espSandboxPath {op path : String} {f : String → Program F β} (htame : tame → w.Tame)
    (hf : ∀ resolved, Answers tame (f resolved)) : Answers tame (w.espSandboxPath op path >>= f) := by
  unfold espSandboxPath
  rw [bind_assoc]
  apply answers_call fun ht => (htame ht).root
  intro root
  rw [bind_assoc]
  apply answers_call fun ht => (htame ht).resolve _
  intro resolved
  exact answers_gate (by decide) rfl (hf resolved)

private theorem answers_livePort {op : String} {f : Unit → Program F β} (hf : Answers tame (f ())) :
    Answers tame (w.requireRealFlashAllowed op port >>= fun _ => w.requireLocalPort op port >>= f) := by
  have hlocal : Answers tame (w.requireLocalPort op port >>= f) := answers_gate (by decide) rfl hf
  exact answers_gate (by decide) rfl hlocal

private theorem answers_flash {path : String} {addr : Int} (htame : tame → w.Tame) :
    Answers tame (w.flash port path addr baud) := by
  unfold flash
  apply answers_livePort
  apply answers_look fun ht => (htame ht).isFile path
  intro found
  cases found with
  | true => exact answers_live htame (by decide) (by decide)
  | false => exact answers_deny rfl

private theorem answers_erase (htame : tame → w.Tame) : Answers tame (w.erase port baud) := by
  unfold erase
  apply answers_livePort
  exact answers_live htame (by decide) (by decide)

private theorem answers_imageInfo {path chip : String} (htame : tame → w.Tame) :
    Answers tame (w.imageInfo path chip) := by
  unfold imageInfo
  apply answers_look fun ht => (htame ht).isFile path
  intro found
  cases found with
  | false => exact answers_deny rfl
  | true =>
    simp only [if_true]
    unfold requireEsptool
    apply answers_tryExcept
    · cases w.esptool with
      | false => rfl
      | true => cases w.image chip path <;> rfl
    · intro e he
      have hexception : (tame → e.isException = true) ∧ outcome (.error e : Except Exn (Fields F)) = .failed := by
        cases htool : w.esptool with
        | false =>
          rw [htool] at he
          cases he
          exact ⟨fun _ => rfl, rfl⟩
        | true =>
          rw [htool] at he
          cases himage : w.image chip path with
          | ok info =>
            rw [himage] at he
            cases he
          | error f =>
            rw [himage] at he
            cases he
            exact ⟨fun ht => (htame ht).image himage, rfl⟩
      exact ⟨hexception.1, answers_deny (Eq.symm hexception.2)⟩
    · intro info
      refine ⟨Nat.le_refl 1, ?_, fun _ => rfl⟩
      intro event hevent
      obtain rfl := List.mem_singleton.1 hevent
      rfl

private theorem answers_answer (w : World F) (c : EspCall) : Answers (w.isOpen = true ∧ w.Tame) (w.answer c) := by
  cases c with
  | imageInfo path chip =>
    apply answers_map
    apply answers_checkOpen And.left
    apply answers_checkKind And.right
    apply answers_espSandboxPath And.right
    exact fun resolved => answers_imageInfo And.right
  | flash port path addr baud =>
    apply answers_map
    apply answers_checkOpen And.left
    apply answers_checkKind And.right
    apply answers_espSandboxPath And.right
    exact fun resolved => answers_flash And.right
  | erase port baud =>
    apply answers_map
    apply answers_checkOpen And.left
    apply answers_checkKind And.right
    exact answers_erase And.right

end

/-! ### What a call must have passed -/

/-- What a call asks to be done to a board. -/
inductive Asks (w : World F) : EspCall → String → Int → Touch → Prop
  | flash {port path root resolved : String} {addr baud : Int} (hroot : w.root = .ok root)
      (hpath : w.resolve (if w.isAbsolute path then path else w.join root path) = .ok resolved) :
      Asks w (.flash port path addr baud) port baud (.writeFlash addr resolved)
  | erase {port : String} {baud : Int} : Asks w (.erase port baud) port baud .eraseFlash

/-- The file is in the sandbox, or the environment has opted in to the whole host. -/
def Exposes (w : World F) (path : String) : Prop :=
  (∃ root, w.root = .ok root ∧ w.inside root path = true) ∨ w.optedIn = true

section

variable {α β γ : Type} {mark : Mark F → Option γ} {x : Program F α} {f : α → Program F β}

/-- The program leaves something of the kind, or returns. -/
def Goes (mark : Mark F → Option γ) (x : Program F α) : Prop := seen mark x ≠ [] ∨ ∃ a, x.result = .ok a

/-- What was before the last program has left nothing of the kind. -/
structure Same (mark : Mark F → Option γ) (x : Program F α) (y : Program F α) : Prop where
  seen : seen mark x = seen mark y
  result : x.result = y.result

theorem Same.trans {y z : Program F α} (h : Same mark x y) (h' : Same mark y z) : Same mark x z :=
  ⟨h.seen.trans h'.seen, h.result.trans h'.result⟩

theorem Same.goes {y : Program F α} (h : Same mark x y) (hgoes : Goes mark x) : Goes mark y := by
  unfold Goes
  rw [← h.seen, ← h.result]
  exact hgoes

theorem Goes.bind (h : Goes mark (x >>= f)) (hx : seen mark x = []) :
    ∃ a, x.result = .ok a ∧ Goes mark (f a) ∧ Same mark (x >>= f) (f a) := by
  rcases seen_bind (f := f) hx with ⟨a, ha, hresult, hseen⟩ | ⟨e, -, hresult, hseen⟩
  · have hsame : Same mark (x >>= f) (f a) := ⟨hseen, hresult⟩
    exact ⟨a, ha, hsame.goes h, hsame⟩
  · rcases h with hne | ⟨b, hb⟩
    · exact absurd hseen hne
    · rw [hresult] at hb
      cases hb

variable (hmark : ∀ kind data, mark (.event kind data) = none)

include hmark

private theorem goes_checked {f : Unit → Program F β} (h : Goes mark (w.checkOpen >>= fun _ => w.checkKind >>= f)) :
    w.isOpen = true ∧ w.enabled = true ∧ Goes mark (f ()) ∧
      Same mark (w.checkOpen >>= fun _ => w.checkKind >>= f) (f ()) := by
  unfold checkKind at h ⊢
  rw [bind_assoc] at h ⊢
  have hquiet : seen mark w.checkOpen = [] := by
    unfold checkOpen
    split <;> rfl
  obtain ⟨_, hopen, hgoes, hsame⟩ := h.bind hquiet
  have hisOpen : w.isOpen = true := by
    by_contra hnot
    rw [checkOpen, if_neg hnot] at hopen
    cases hopen
  obtain ⟨_, -, hgoes', hsame'⟩ := hgoes.bind (seen_call _)
  obtain ⟨_, hgate, hgoes'', hsame''⟩ := hgoes'.bind (seen_gate (hmark _ _))
  exact ⟨hisOpen, (gate_ok hgate).1, hgoes'', hsame.trans (hsame'.trans hsame'')⟩

private theorem goes_espSandboxPath {op path : String} {f : String → Program F β}
    (h : Goes mark (w.espSandboxPath op path >>= f)) :
    ∃ root resolved, w.root = .ok root ∧
      w.resolve (if w.isAbsolute path then path else w.join root path) = .ok resolved ∧ w.Exposes resolved ∧
        Goes mark (f resolved) ∧ Same mark (w.espSandboxPath op path >>= f) (f resolved) := by
  unfold espSandboxPath at h ⊢
  rw [bind_assoc] at h ⊢
  obtain ⟨root, hroot, hgoes, hsame⟩ := h.bind (seen_call _)
  rw [bind_assoc] at hgoes hsame
  obtain ⟨resolved, hresolved, hgoes', hsame'⟩ := hgoes.bind (seen_call _)
  obtain ⟨passed, hgate, hgoes'', hsame''⟩ := hgoes'.bind (seen_gate (hmark _ _))
  obtain ⟨hallowed, rfl⟩ := gate_ok hgate
  refine ⟨root, passed, call_ok hroot, call_ok hresolved, ?_, hgoes'', hsame.trans (hsame'.trans hsame'')⟩
  rcases Bool.or_eq_true_iff.1 hallowed with hinside | hopted
  · exact Or.inl ⟨root, call_ok hroot, hinside⟩
  · exact Or.inr hopted

private theorem goes_livePort {op : String} {f : Unit → Program F β}
    (h : Goes mark (w.requireRealFlashAllowed op port >>= fun _ => w.requireLocalPort op port >>= f)) :
    w.optedIn = true ∧ portAllowed w.windows port = true ∧ Goes mark (f ()) ∧
      Same mark (w.requireRealFlashAllowed op port >>= fun _ => w.requireLocalPort op port >>= f) (f ()) := by
  obtain ⟨_, hopted, hgoes, hsame⟩ := h.bind (seen_gate (hmark _ _))
  obtain ⟨_, hport, hgoes', hsame'⟩ := hgoes.bind (seen_gate (hmark _ _))
  exact ⟨(gate_ok hopted).1, (gate_ok hport).1, hgoes', hsame.trans hsame'⟩

end

private theorem seen_live {data : Fields F} (hmark : ∀ kind data, mark (.event kind data) = none) (x : Program F Unit) :
    seen mark (live kind verb port data x text) = seen mark x := by
  have hdeny : ∀ kind data e, seen mark (deny kind data e : Program F String) = [] := by
    intro kind data e
    simp [seen, deny, hmark]
  cases hx : x.result with
  | ok u =>
    rw [live, Traced.tryExcept_ok hx, seen_append]
    simp [seen, journal, Traced.emit, Traced.bind_ok, hmark]
  | error e =>
    cases hcatch : e.isException with
    | false =>
      rw [live, Traced.tryExcept_raised hx hcatch]
      rfl
    | true =>
      rw [live, Traced.tryExcept_caught hx hcatch, seen_append]
      split
      · rw [hdeny, List.append_nil]
      · rw [hdeny, List.append_nil]

private theorem live_ok {data : Fields F} {x : Program F Unit} {reply : String}
    (h : (live kind verb port data x text).result = .ok reply) : ∃ u, x.result = .ok u := by
  rcases Traced.result_tryExcept.1 h with ⟨u, hu, -⟩ | ⟨e, -, -, hhandler⟩ | ⟨e, -, -, he⟩
  · exact ⟨u, hu⟩
  · split at hhandler <;> cases hhandler
  · cases he

/-- What the board has seen of a call that touches it or returns. -/
structure Driven {α : Type} (w : World F) (c : EspCall) (x : Program F α) : Prop where
  isOpen : w.isOpen = true
  enabled : w.enabled = true
  optedIn : w.optedIn = true
  esptool : w.esptool = true
  talks : ∃ port baud operation, w.Asks c port baud operation ∧ portAllowed w.windows port = true ∧
    touches x = w.conversation port baud operation ∧
      (∀ reply, x.result = .ok reply →
        touches x = .connect port "esp32" :: (steps baud operation ++ [.closePort]) ∧
          ∀ t ∈ touches x, w.touch t = .ok ())

private theorem live_driven {data : Fields F} {c : EspCall} (hopen : w.isOpen = true) (henabled : w.enabled = true)
    (hopted : w.optedIn = true) (hport : portAllowed w.windows port = true) (hasks : w.Asks c port baud operation)
    (h : Goes Mark.touch? (live kind verb port data (w.operate port baud operation) text)) :
    w.Driven c (live kind verb port data (w.operate port baud operation) text) := by
  have htouches : touches (live kind verb port data (w.operate port baud operation) text) =
      if w.esptool then w.conversation port baud operation else [] := by
    rw [touches, seen_live fun _ _ => rfl, seen, operate_trace, List.filterMap_map]
    exact List.filterMap_some
  have htool : w.esptool = true := by
    rcases h with hne | ⟨reply, hreply⟩
    · by_contra hnot
      rw [if_neg hnot] at htouches
      exact hne htouches
    · obtain ⟨u, hu⟩ := live_ok hreply
      exact (operate_ok hu).1
  rw [if_pos htool] at htouches
  refine ⟨hopen, henabled, hopted, htool, port, baud, operation, hasks, hport, htouches, ?_⟩
  intro reply hreply
  obtain ⟨u, hu⟩ := live_ok hreply
  obtain ⟨-, hwhole, hall⟩ := operate_ok hu
  rw [htouches]
  exact ⟨hwhole, hall⟩

theorem Driven.of_same {c : EspCall} {x y : Program F String} (h : w.Driven c y) (hsame : Same Mark.touch? x y) :
    w.Driven c x := by
  obtain ⟨port, baud, operation, hasks, hport, htouches, hwhole⟩ := h.talks
  have htouched : touches x = touches y := hsame.seen
  refine ⟨h.isOpen, h.enabled, h.optedIn, h.esptool, port, baud, operation, hasks, hport, ?_, ?_⟩
  · exact htouched.trans htouches
  · intro reply hreply
    rw [htouched]
    rw [hsame.result] at hreply
    exact hwhole reply hreply

private theorem espFlash_driven {path : String} {addr : Int} (h : Goes Mark.touch? (w.espFlash port path addr baud)) :
    w.Driven (.flash port path addr baud) (w.espFlash port path addr baud) := by
  have hmark : ∀ kind data, Mark.touch? (.event kind data : Mark F) = none := fun _ _ => rfl
  obtain ⟨hopen, henabled, hgoes, hchecked⟩ := goes_checked hmark h
  obtain ⟨root, resolved, hroot, hresolved, -, hgoes, hsandbox⟩ := goes_espSandboxPath hmark hgoes
  obtain ⟨hopted, hport, hgoes, hlive⟩ := goes_livePort hmark hgoes
  obtain ⟨found, -, hgoes, hlook⟩ := hgoes.bind rfl
  have hsame := hchecked.trans (hsandbox.trans (hlive.trans hlook))
  cases found with
  | false =>
    rcases hgoes with hne | ⟨reply, hreply⟩
    · exact absurd rfl hne
    · cases hreply
  | true =>
    simp only [if_true] at hgoes hsame
    exact (live_driven hopen henabled hopted hport (Asks.flash hroot hresolved) hgoes).of_same hsame

private theorem espErase_driven (h : Goes Mark.touch? (w.espErase port baud)) :
    w.Driven (.erase port baud) (w.espErase port baud) := by
  have hmark : ∀ kind data, Mark.touch? (.event kind data : Mark F) = none := fun _ _ => rfl
  obtain ⟨hopen, henabled, hgoes, hchecked⟩ := goes_checked hmark h
  obtain ⟨hopted, hport, hgoes, hlive⟩ := goes_livePort hmark hgoes
  exact (live_driven hopen henabled hopted hport Asks.erase hgoes).of_same (hchecked.trans hlive)

/-! ### What a call looks at -/

private theorem looks_live {data : Fields F} :
    looks (live kind verb port data (w.operate port baud operation) text) = [] := by
  rw [looks, seen_live fun _ _ => rfl, seen, operate_trace, List.filterMap_map]
  exact List.filterMap_eq_nil_iff.2 fun _ _ => rfl

/-- `image_info` leaves events and looks at its file only. -/
private theorem imageInfo_marks (path chip : String) :
    Traced.Avoids (fun m => m ≠ Mark.look path ∧ m.event? = none) (w.imageInfo path chip) := by
  have hlook : ∀ {α : Type} (reply : Except Fault α),
      Traced.Avoids (fun m => m ≠ Mark.look path ∧ m.event? = none) (look path reply : Program F α) := by
    intro α reply m hm
    obtain rfl := List.mem_singleton.1 hm
    exact fun hnot => hnot.1 rfl
  have hdeny : ∀ {α : Type} (kind : String) (data : Fields F) (e : Exn),
      Traced.Avoids (fun m => m ≠ Mark.look path ∧ m.event? = none) (deny kind data e : Program F α) := by
    intro α kind data e m hm
    obtain rfl := List.mem_singleton.1 hm
    rintro ⟨-, hnone⟩
    cases hnone
  unfold imageInfo
  apply Traced.Avoids.bind (hlook _)
  intro found
  cases found with
  | false => exact hdeny _ _ _
  | true =>
    apply Traced.Avoids.tryExcept
    · apply Traced.Avoids.bind
      · unfold requireEsptool
        split
        · exact Traced.avoids_pure _
        · exact Traced.avoids_raise _
      · exact fun _ => hlook _
    · exact fun e => hdeny _ _ _
    · intro info
      apply Traced.Avoids.bind
      · apply Traced.avoids_emit
        rintro ⟨-, hnone⟩
        cases hnone
      · exact fun _ => Traced.avoids_pure _

private theorem looks_imageInfo {path chip : String} : ∀ p ∈ looks (w.imageInfo path chip), p = path := by
  intro p hp
  obtain ⟨m, hm, hlook⟩ := List.mem_filterMap.1 hp
  by_contra hne
  apply imageInfo_marks path chip m hm
  cases m with
  | look q =>
    obtain rfl := Option.some.inj hlook
    exact ⟨fun h => hne (Mark.look.inj h), rfl⟩
  | event kind data => cases hlook
  | touch t => cases hlook

private theorem touches_imageInfo (path chip : String) : touches (w.imageInfo path chip) = [] := by
  apply List.filterMap_eq_nil_iff.2
  intro m hm
  cases m with
  | touch t =>
    have hnot : Mark.touch t ≠ (Mark.look path : Mark F) := by simp
    exact absurd ⟨hnot, rfl⟩ (imageInfo_marks path chip _ hm)
  | event kind data => rfl
  | look q => rfl

private theorem looks_look {α β : Type} {path : String} {reply : Except Fault α} {f : α → Program F β}
    (hf : ∀ a, looks (f a) = []) : ∀ p ∈ looks (look path reply >>= f), p = path := by
  intro p hp
  cases reply with
  | ok a =>
    have hlooked : p ∈ path :: looks (f a) := hp
    rw [hf] at hlooked
    exact List.mem_singleton.1 hlooked
  | error fault => exact List.mem_singleton.1 hp

private theorem looks_flash {path : String} {addr : Int} : ∀ p ∈ looks (w.flash port path addr baud), p = path := by
  intro p hp
  have hgoes : Goes Mark.look? (w.flash port path addr baud) := Or.inl (List.ne_nil_of_mem hp)
  obtain ⟨-, -, -, hsame⟩ := goes_livePort (fun _ _ => rfl) hgoes
  have hseen : looks (w.flash port path addr baud) = _ := hsame.seen
  rw [hseen] at hp
  refine looks_look ?_ p hp
  intro found
  cases found with
  | false => rfl
  | true => exact looks_live

private theorem looks_answer (w : World F) (c : EspCall) : ∀ path ∈ looks (w.answer c), w.Exposes path := by
  intro path hpath
  have hmark : ∀ kind data, Mark.look? (.event kind data : Mark F) = none := fun _ _ => rfl
  cases c with
  | imageInfo given chip =>
    have hlooked : path ∈ looks (w.espImageInfo given chip) := by
      rw [looks, seen, ← trace_map _ Reply.info]
      exact hpath
    obtain ⟨-, -, hgoes, hchecked⟩ := goes_checked hmark (Or.inl (List.ne_nil_of_mem hlooked))
    obtain ⟨root, resolved, -, -, hexposes, -, hsandbox⟩ := goes_espSandboxPath hmark hgoes
    have hseen : looks (w.espImageInfo given chip) = looks (w.imageInfo resolved chip) := (hchecked.trans hsandbox).seen
    rw [hseen] at hlooked
    rw [looks_imageInfo path hlooked]
    exact hexposes
  | flash port given addr baud =>
    have hlooked : path ∈ looks (w.espFlash port given addr baud) := by
      rw [looks, seen, ← trace_map _ Reply.text]
      exact hpath
    obtain ⟨-, -, hgoes, hchecked⟩ := goes_checked hmark (Or.inl (List.ne_nil_of_mem hlooked))
    obtain ⟨root, resolved, -, -, hexposes, -, hsandbox⟩ := goes_espSandboxPath hmark hgoes
    have hseen : looks (w.espFlash port given addr baud) = looks (w.flash port resolved addr baud) :=
      (hchecked.trans hsandbox).seen
    rw [hseen] at hlooked
    rw [looks_flash path hlooked]
    exact hexposes
  | erase port baud =>
    have hlooked : path ∈ looks (w.espErase port baud) := by
      rw [looks, seen, ← trace_map _ Reply.text]
      exact hpath
    obtain ⟨-, -, hgoes, hchecked⟩ := goes_checked hmark (Or.inl (List.ne_nil_of_mem hlooked))
    obtain ⟨-, -, -, hlive⟩ := goes_livePort hmark hgoes
    have hseen : looks (w.espErase port baud) = [] := (hchecked.trans hlive).seen.trans looks_live
    rw [hseen] at hlooked
    exact absurd hlooked List.not_mem_nil

/-! ### The whole call -/

theorem Driven.map {α β : Type} {c : EspCall} {x : Program F α} (h : w.Driven c x) (g : α → β) :
    w.Driven c (x >>= fun a => pure (g a)) := by
  obtain ⟨port, baud, operation, hasks, hport, htouches, hwhole⟩ := h.talks
  have htouched : touches (x >>= fun a => (pure (g a) : Program F β)) = touches x :=
    congrArg (List.filterMap Mark.touch?) (trace_map x g)
  refine ⟨h.isOpen, h.enabled, h.optedIn, h.esptool, port, baud, operation, hasks, hport, htouched.trans htouches, ?_⟩
  intro reply hreply
  obtain ⟨a, ha, -⟩ := result_bind_ok hreply
  rw [htouched]
  exact hwhole a ha

private theorem Goes.of_map {α β γ : Type} {mark : Mark F → Option γ} {x : Program F α} {g : α → β}
    (h : Goes mark (x >>= fun a => pure (g a))) : Goes mark x := by
  rcases h with hne | ⟨b, hb⟩
  · left
    rwa [seen, trace_map] at hne
  · obtain ⟨a, ha, -⟩ := result_bind_ok hb
    exact Or.inr ⟨a, ha⟩

private theorem touches_espImageInfo (path chip : String) : touches (w.espImageInfo path chip) = [] := by
  by_contra hne
  have hmark : ∀ kind data, Mark.touch? (.event kind data : Mark F) = none := fun _ _ => rfl
  obtain ⟨-, -, hgoes, hchecked⟩ := goes_checked hmark (Or.inl hne)
  obtain ⟨root, resolved, -, -, -, -, hsandbox⟩ := goes_espSandboxPath hmark hgoes
  exact hne ((hchecked.trans hsandbox).seen.trans (touches_imageInfo resolved chip))

private theorem answer_closed (c : EspCall) (hclosed : w.isOpen = false) : (w.answer c).trace = [] := by
  have hopen : w.checkOpen = (Traced.raise .transportClosed : Program F Unit) := by
    unfold checkOpen
    rw [hclosed]
    rfl
  cases c with
  | imageInfo path chip =>
    rw [answer, espImageInfo, hopen]
    rfl
  | flash port path addr baud =>
    rw [answer, espFlash, hopen]
    rfl
  | erase port baud =>
    rw [answer, espErase, hopen]
    rfl

private theorem answer_driven (c : EspCall)
    (h : touches (w.answer c) ≠ [] ∨ ∃ text, (w.answer c).result = .ok (.text text)) : w.Driven c (w.answer c) := by
  have hgoes : Goes Mark.touch? (w.answer c) := h.imp id fun ⟨text, htext⟩ => ⟨_, htext⟩
  cases c with
  | flash port path addr baud => exact (espFlash_driven hgoes.of_map).map Reply.text
  | erase port baud => exact (espErase_driven hgoes.of_map).map Reply.text
  | imageInfo path chip =>
    rcases h with hne | ⟨text, htext⟩
    · have hnil : touches (w.answer (.imageInfo path chip)) = touches (w.espImageInfo path chip) :=
        congrArg (List.filterMap Mark.touch?) (trace_map _ Reply.info)
      exact absurd (hnil.trans (touches_espImageInfo path chip)) hne
    · obtain ⟨fields, -, hinfo⟩ := result_bind_ok htext
      cases hinfo

end World

end IronHarness.Session.Esp
