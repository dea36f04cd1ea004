import IronHarness.Ops.Arms
import IronHarness.Python.Json

/-!
# The wire of the tools arm

`McpWireClient` (ironbench/mcp_wire.py): a request and the lines of standard output behind it; and the exceptions that
end a run of an arm, as far as the `except` clauses of the runner tell them apart.
-/

namespace IronHarness.Ops

open ByteText JsonText
open PyLiteral (PyStr ofChar)
open Python (Json lookup points)

/-- `connection` is a `ConnectionError`, `os` another `OSError` (a timeout, too), `other` another `Exception`, and
`interrupt` none at all. -/
inductive Fault
  | connection
  | os
  | wire
  | other
  | interrupt
  deriving DecidableEq

def Fault.isException (f : Fault) : Bool := f != .interrupt

/-- `except (OSError, McpWireError)` -/
def Fault.isInfra : Fault → Bool
  | .connection => true
  | .os => true
  | .wire => true
  | .other => false
  | .interrupt => false

/-- What the reader puts in the queue: the end of the output, a line that is no JSON text, or a value. -/
inductive Message
  | closed
  | garbage
  | value (v : Json)

namespace McpWireClient

/-- A JSON object, as the members that its text has. -/
abbrev Members := List (PyStr × Json)

def garbageKey : String := "__stdout_garbage__"

def isGarbageKey : Json → Bool
  | .str s => s == points garbageKey
  | _ => false

/-- The loop of `request`; `answers` is whether an id is that of the request.  At the end of the list the time is up. -/
def receive (answers : Json → Bool) : List Message → Except Fault Members
  | [] => .error .os
  | .closed :: _ => .error .wire
  | .garbage :: _ => .error .wire
  | .value v :: rest =>
    match v with
    | .null => .error .wire
    | .obj fields =>
      if (lookup garbageKey fields).isSome then .error .wire
      else if answers ((lookup "id" fields).getD .null) then .ok fields
      else receive answers rest
    | .arr vs => if vs.any isGarbageKey then .error .wire else .error .other
    | .str s => if (find (points garbageKey) s).isSome then .error .wire else .error .other
    | _ => .error .other

/-- A request: whether the server has exited before, what writing it raises, and what is received behind it. -/
structure Exchange where
  exited : Bool
  sending : Option Fault
  received : List Message

def request (answers : Json → Bool) (ex : Exchange) : Except Fault Members :=
  if ex.exited then .error .wire
  else
    match ex.sending with
    | some fault => .error fault
    | none => receive answers ex.received

/-- `list_tools` -/
def listTools (answers : Json → Bool) (ex : Exchange) : Except Fault Json := do
  let resp ← request answers ex
  if (lookup "error" resp).isSome then .error .wire
  else
    match lookup "result" resp with
    | some (.obj result) =>
      match lookup "tools" result with
      | some tools => .ok tools
      | none => .error .other
    | _ => .error .other

end McpWireClient

/-! ### What the arms return or raise -/

/-- The names of the tools of these families; `none` for an item that has no text for a name. -/
def toolNames (families : List Text) : List Json → Option (List PyStr)
  | [] => some []
  | .obj fields :: tools =>
    match (lookup "name" fields).getD (.str []) with
    | .str name =>
      (toolNames families tools).map fun names =>
        if families.any fun family => ((family ++ ['_']).map ofChar).isPrefixOf name then name :: names else names
    | _ => none
  | _ :: _ => none

/-- The catalog of `McpArm.run`, from a value that may be no list. -/
def catalog (families : List Text) (tools : Json) : Except Fault (List PyStr) :=
  match tools with
  | .arr tools =>
    match toolNames families tools with
    | some names => .ok names
    | none => .error .other
  | .obj [] => .ok []
  | .str [] => .ok []
  | _ => .error .other

variable {F : Type} [JsonFloat F]

/-- What a run of the tools arm meets: the client, the answer to `tools/list`, the replies, what is raised where they end,
and what closing the client raises. -/
structure McpRun (F : Type) where
  client : Option Fault
  tools : McpWireClient.Exchange
  rounds : List (Round (Reply F))
  broken : Fault
  close : Option Fault

/-- What a run of the bare arm meets. -/
structure BareRun where
  workdir : Option Fault
  rounds : List (Round BareReply)
  broken : Fault

def McpArm.attempt (py : Builtins F) (answers : Json → Bool) (families : List Text) (maxIterations : Nat)
    (run : McpRun F) : Except Fault ArmResult :=
  match run.client with
  | some fault => .error fault
  | none =>
    let result := do
      let tools ← McpWireClient.listTools answers run.tools
      let _ ← catalog families tools
      match McpArm.run py maxIterations run.rounds with
      | some result => .ok result
      | none => .error run.broken
    match run.close with
    | some fault => .error fault
    | none => result

def BareArm.attempt (py : Builtins F) (maxIterations : Nat) (run : BareRun) : Except Fault ArmResult :=
  match run.workdir with
  | some fault => .error fault
  | none =>
    match BareArm.run py maxIterations run.rounds with
    | some result => .ok result
    | none => .error run.broken

end IronHarness.Ops
